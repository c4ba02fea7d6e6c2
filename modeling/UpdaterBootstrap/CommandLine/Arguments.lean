import UpdaterBootstrap.Decimal.Read

/-!
# Arguments

Arguments are read level by level: the options and operands of one level end where a command of that
level is named, and the rest belongs to the command.
-/

namespace UpdaterBootstrap

inductive ValueKind
  | text
  /-- Any text but the empty one. -/
  | path
  | decimal
  deriving DecidableEq, Repr

def ValueKind.accepts : ValueKind → String → Bool
  | .text, _ => true
  | .path, v => !v.isEmpty
  | .decimal, v => (readFloat? v).isSome

inductive OptionKind
  /-- Given at most once. -/
  | flag
  /-- Given any number of times. -/
  | counted
  /-- Given at most once, with a value. -/
  | value (kind : ValueKind)
  | help
  | version
  deriving DecidableEq, Repr

structure OptionSpec where
  long : String
  short? : Option Char
  kind : OptionKind
  deriving DecidableEq, Repr

structure ArgumentLevel where
  options : List OptionSpec
  operands : List ValueKind
  commands : List String
  deriving DecidableEq, Repr

inductive ArgumentStop
  | usage
  | help
  | version
  deriving DecidableEq, Repr

structure GivenArguments where
  /-- The long names of the options, each with its value; empty for those that take none. -/
  options : List (String × String)
  operands : List String
  deriving DecidableEq, Repr

namespace GivenArguments

def nothing : GivenArguments :=
  ⟨[], []⟩

def value? (g : GivenArguments) (long : String) : Option String :=
  g.options.lookup long

def has (g : GivenArguments) (long : String) : Bool :=
  (g.value? long).isSome

def count (g : GivenArguments) (long : String) : Nat :=
  g.options.countP (·.1 == long)

def give (g : GivenArguments) (spec : OptionSpec) (v : String) :
    Except ArgumentStop GivenArguments :=
  let added : GivenArguments := { g with options := g.options ++ [(spec.long, v)] }
  match spec.kind with
  | .help => .error .help
  | .version => .error .version
  | .counted => .ok added
  | .flag => if g.has spec.long then .error .usage else .ok added
  | .value kind => if g.has spec.long || !kind.accepts v then .error .usage else .ok added

def giveOperand (level : ArgumentLevel) (g : GivenArguments) (v : String) :
    Except ArgumentStop GivenArguments :=
  match level.operands[g.operands.length]? with
  | none => .error .usage
  | some kind => if kind.accepts v then .ok { g with operands := g.operands ++ [v] } else .error .usage

end GivenArguments

/-! ## One argument -/

/-- An option by its long name, with a value after an equals sign or without. An option that still
needs a value is given back. -/
def readLong (level : ArgumentLevel) (g : GivenArguments) (body : List Char) :
    Except ArgumentStop (GivenArguments × Option OptionSpec) :=
  let name := String.ofList (body.takeWhile (· != '='))
  let attached := (body.dropWhile (· != '=')).tail?
  match level.options.find? (·.long == name) with
  | none => .error .usage
  | some spec =>
    match spec.kind, attached with
    | .value _, some v => (g.give spec (.ofList v)).map (·, none)
    | .value _, none => .ok (g, some spec)
    | _, some _ => .error .usage
    | _, none => (g.give spec "").map (·, none)

/-- Options by their letters; all after the letter of an option with a value are that value. -/
def readLetters (level : ArgumentLevel) (g : GivenArguments) :
    List Char → Except ArgumentStop (GivenArguments × Option OptionSpec)
  | [] => .ok (g, none)
  | c :: cs =>
    match level.options.find? (·.short? == some c) with
    | none => .error .usage
    | some spec =>
      match spec.kind, cs with
      | .value _, [] => .ok (g, some spec)
      | .value _, '=' :: v => (g.give spec (.ofList v)).map (·, none)
      | .value _, v => (g.give spec (.ofList v)).map (·, none)
      | _, cs =>
        match g.give spec "" with
        | .ok g => readLetters level g cs
        | .error stop => .error stop

def looksLikeOption (a : String) : Bool :=
  match a.toList with
  | '-' :: _ :: _ => true
  | _ => false

def readOption (level : ArgumentLevel) (g : GivenArguments) (a : String) :
    Except ArgumentStop (GivenArguments × Option OptionSpec) :=
  match a.toList with
  | '-' :: '-' :: body => readLong level g body
  | _ :: letters => readLetters level g letters
  | [] => .error .usage

/-! ## All arguments of a level -/

def readLevel (level : ArgumentLevel) (g : GivenArguments) :
    List String → Except ArgumentStop (GivenArguments × Option (String × List String))
  | [] => .ok (g, none)
  | a :: as =>
    if a == "--" then (as.foldlM (GivenArguments.giveOperand level) g).map (·, none)
    else if looksLikeOption a then
      match readOption level g a with
      | .error stop => .error stop
      | .ok (g, none) => readLevel level g as
      | .ok (g, some spec) =>
        match as with
        | [] => .error .usage
        | v :: as =>
          if looksLikeOption v then .error .usage
          else match g.give spec v with
            | .ok g => readLevel level g as
            | .error stop => .error stop
    else if level.commands.contains a then .ok (g, some (a, as))
    else match g.giveOperand level a with
      | .ok g => readLevel level g as
      | .error stop => .error stop

end UpdaterBootstrap
