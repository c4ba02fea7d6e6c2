/-!
# The console

What a command says: its output, notices beside the output, and entries for the log. Most notices
depend on how much is to be said.
-/

namespace UpdaterBootstrap

structure Console where
  verbosity : Nat
  output : String
  notices : String
  log : List String
  deriving DecidableEq, Repr

namespace Console

def silent (verbosity : Nat) : Console :=
  ⟨verbosity, "", "", []⟩

def print (c : Console) (content : String) : Console :=
  { c with output := c.output ++ content }

def notify (c : Console) (line : String) : Console :=
  { c with notices := c.notices ++ line ++ "\n" }

def record (c : Console) (kind message : String) : Console :=
  { c with log := c.log ++ [kind ++ " " ++ message] }

def notifyFrom (c : Console) (level : Nat) (line : String) : Console :=
  if level ≤ c.verbosity then c.notify line else c

def debug (c : Console) (message : String) : Console :=
  (c.record "DEBUG" message).notifyFrom 1 ("DEBUG: " ++ message)

def info (c : Console) (message : String) : Console :=
  (c.record "INFO" message).notifyFrom 1 message

def trace (c : Console) (message : String) : Console :=
  (c.notifyFrom 2 ("TRACE: " ++ message)).record "STEP:" message

def warn (c : Console) (message : String) : Console :=
  (c.record "WARN" message).notify ("warning: " ++ message)

def success (c : Console) (message : String) : Console :=
  (c.record "SUCCESS" message).notify ("✔ " ++ message)

def failure (c : Console) (message : String) : Console :=
  (c.record "ERROR" message).notify ("  ✗ " ++ message)

def error (c : Console) (message : String) : Console :=
  (c.record "ERROR" message).notify ("Error: " ++ message)

end Console

end UpdaterBootstrap
