/-!
# TOML trees

The values that TOML texts denote, and the rules by which key paths and headers build tables.
-/

namespace UpdaterBootstrap

inductive Toml
  | text (s : String)
  | integer (n : Int)
  | decimal (x : Float)
  | boolean (b : Bool)
  /-- A date, a time or both, as written. -/
  | moment (written : String)
  | array (items : List Toml)
  | table (entries : List (String × Toml))
  deriving Repr, Inhabited

namespace Toml

/-- How a table came to be, which decides what may still be added to it. -/
inductive Origin
  /-- On the way to the table of a header. -/
  | implied
  /-- By a header of its own. -/
  | header
  /-- On the way to a key. -/
  | dotted
  deriving DecidableEq, Repr

inductive Item
  | value (v : Toml)
  | table (origin : Origin) (entries : List (String × Item))
  /-- An array of tables: those before the last, and the last. -/
  | tables (earlier : List (List (String × Item))) (last : List (String × Item))
  deriving Inhabited

abbrev Items := List (String × Item)

def Items.set (key : String) (item : Item) : Items → Items
  | [] => [(key, item)]
  | e :: es => if e.1 == key then (key, item) :: es else e :: set key item es

namespace Items

def within (change : Items → Option Items) : List String → Items → Option Items
  | [], es => change es
  | key :: keys, es =>
    match es.lookup key with
    | none => (within change keys []).map fun sub => set key (.table .implied sub) es
    | some (.table origin sub) =>
      (within change keys sub).map fun sub => set key (.table origin sub) es
    | some (.tables earlier last) =>
      (within change keys last).map fun last => set key (.tables earlier last) es
    | some (.value _) => none

def openTable (key : String) (es : Items) : Option Items :=
  match es.lookup key with
  | none => some (set key (.table .header []) es)
  | some (.table .implied sub) => some (set key (.table .header sub) es)
  | some _ => none

def openElement (key : String) (es : Items) : Option Items :=
  match es.lookup key with
  | none => some (set key (.tables [] []) es)
  | some (.tables earlier last) => some (set key (.tables (earlier ++ [last]) []) es)
  | some _ => none

/-- Gives a key its value; `path` are the keys before it. A key has one value. A path does not lead
into tables that a header opened, but through the last table of an array; the table that it ends in
may not be one of headers. -/
def define (key : String) (v : Toml) : List String → Items → Option Items
  | [], es => if (es.lookup key).isSome then none else some (es ++ [(key, .value v)])
  | step :: path, es =>
    match es.lookup step with
    | none => (define key v path []).map fun sub => set step (.table .dotted sub) es
    | some (.table .dotted sub) =>
      (define key v path sub).map fun sub => set step (.table .dotted sub) es
    | some (.table .implied sub) =>
      if path.isEmpty then none
      else (define key v path sub).map fun sub => set step (.table .implied sub) es
    | some (.tables earlier last) =>
      if path.isEmpty then none
      else (define key v path last).map fun last => set step (.tables earlier last) es
    | some _ => none

end Items

/-! ## The finished tree -/

mutual
def Item.toToml : Item → Toml
  | .value v => v
  | .table _ entries => .table (itemsToToml entries)
  | .tables earlier last => .array (tablesToToml earlier ++ [.table (itemsToToml last)])
def itemsToToml : List (String × Item) → List (String × Toml)
  | [] => []
  | (key, item) :: es => (key, item.toToml) :: itemsToToml es
def tablesToToml : List (List (String × Item)) → List Toml
  | [] => []
  | es :: rest => .table (itemsToToml es) :: tablesToToml rest
end

end Toml

end UpdaterBootstrap
