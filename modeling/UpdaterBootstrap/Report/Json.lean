import UpdaterBootstrap.Decimal.Layout
import UpdaterBootstrap.Text.Hexadecimal
import UpdaterBootstrap.Unit.Constant

/-!
# Reports as JSON

Values of a report and their text, one field to a line.
-/

namespace UpdaterBootstrap

inductive ReportValue
  | null
  | boolean (b : Bool)
  | integer (n : Int)
  | decimal (x : Float)
  | text (s : String)
  | object (fields : List (String × ReportValue))
  deriving Repr, Inhabited

namespace ReportValue

def ofOption {α : Type} (f : α → ReportValue) : Option α → ReportValue
  | none => null
  | some a => f a

/-! ## Text -/

def escapeChar (c : Char) : List Char :=
  match c with
  | '"' => ['\\', '"']
  | '\\' => ['\\', '\\']
  | '\x08' => ['\\', 'b']
  | '\t' => ['\\', 't']
  | '\n' => ['\\', 'n']
  | '\x0c' => ['\\', 'f']
  | '\r' => ['\\', 'r']
  | _ => if c.toNat < 0x20 then ['\\', 'u'] ++ (hexDigits 4 c.toNat).map Char.toLower else [c]

def quote (s : String) : String :=
  .ofList ('"' :: s.toList.flatMap escapeChar ++ ['"'])

def indentation (depth : Nat) : String :=
  .ofList (List.replicate (2 * depth) ' ')

mutual
def writeAt (depth : Nat) : ReportValue → String
  | .null => "null"
  | .boolean b => writeBoolean b
  | .integer n => writeInteger n
  | .decimal x => writeFloat .report x
  | .text s => quote s
  | .object [] => "\x7b\x7d"
  | .object (f :: fs) => "\x7b\n" ++ writeFields (depth + 1) (f :: fs) ++ indentation depth ++ "\x7d"
def writeFields (depth : Nat) : List (String × ReportValue) → String
  | [] => ""
  | f :: fs =>
    indentation depth ++ quote f.1 ++ ": " ++ writeAt depth f.2 ++
      (if fs.isEmpty then "\n" else ",\n") ++ writeFields depth fs
end

def write (v : ReportValue) : String :=
  v.writeAt 0

end ReportValue

end UpdaterBootstrap
