import UpdaterBootstrap.Manifest.ActionMap
import UpdaterBootstrap.Manifest.SequenceKey

/-!
# Action lists

Entries with a key and actions. A list that was read may repeat keys; merging gives one entry for
each key, in ascending order.
-/

namespace UpdaterBootstrap

structure ActionEntry where
  key : SequenceKey
  actions : ActionMap
  deriving DecidableEq

abbrev ActionList := List ActionEntry

namespace ActionList

/-- Sets an action in the first entry with the key, or in a new one at the end. -/
def insert (key : SequenceKey) (path : String) (a : Action) : ActionList → ActionList
  | [] => [⟨key, AscendingMap.empty.insert path a⟩]
  | e :: es =>
    if e.key = key then { e with actions := e.actions.insert path a } :: es
    else e :: insert key path a es

def get? (key : SequenceKey) (l : ActionList) : Option ActionEntry :=
  l.find? (·.key = key)

/-! ## Merging -/

/-- Adds an entry to a list with ascending keys; its actions replace those for the same paths. -/
def mergeEntry (l : ActionList) (e : ActionEntry) : ActionList :=
  match l with
  | [] => [e]
  | f :: fs =>
    if e.key < f.key then e :: f :: fs
    else if e.key = f.key then { f with actions := f.actions.insertAll e.actions.entries } :: fs
    else f :: mergeEntry fs e

/-- All entries of the lists in one, one for each key in ascending order; of two actions for the same
key and path the later one counts. Nothing if there is no entry at all. -/
def merge (ls : List ActionList) : Option ActionList :=
  let entries := ls.flatten
  if entries.isEmpty then none else some (entries.foldl mergeEntry [])

end ActionList

end UpdaterBootstrap
