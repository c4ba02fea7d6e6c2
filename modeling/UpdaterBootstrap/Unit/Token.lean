import UpdaterBootstrap.Unit.Constant

/-!
# Tokens and the faults of a unit
-/

namespace UpdaterBootstrap

inductive Token
  | word (name : String)
  | text (s : String)
  | integer (n : Int64)
  | decimal (x : Float)
  | symbol (c : Char)
  | finish
  deriving DecidableEq, Repr, Inhabited

def Token.describe : Token → String
  | .word name => "'" ++ name ++ "'"
  | .text _ => "string literal"
  | .integer _ | .decimal _ => "number"
  | .symbol c => "'" ++ c.toString ++ "'"
  | .finish => "end of input"

inductive Expected
  | symbol (c : Char)
  | identifier
  | classDeclaration
  | constant
  | finish
  deriving DecidableEq, Repr

def Expected.describe : Expected → String
  | .symbol c => "'" ++ c.toString ++ "'"
  | .identifier => "an identifier"
  | .classDeclaration => "a class declaration"
  | .constant => "a constant value"
  | .finish => "end of input"

inductive UnitFault
  | openComment
  | openText
  | openEscape
  | interpolation
  | unicodeEscape (digits : String)
  | escape (c : Char)
  | hexadecimal (digits : String)
  | range (digits : String)
  | character (c : Char)
  | unexpected (expected : Expected) (found : Token)
  | arithmetic (fault : ArithmeticFault)
  deriving Repr

def UnitFault.message : UnitFault → String
  | .openComment => "unterminated comment"
  | .openText => "unterminated string literal"
  | .openEscape => "unterminated escape sequence"
  | .interpolation => "interpolated string is not a constant"
  | .unicodeEscape digits => "invalid unicode escape \\u" ++ digits
  | .escape c => "invalid escape sequence \\" ++ c.toString
  | .hexadecimal digits => "invalid hexadecimal literal 0x" ++ digits
  | .range digits => "integer literal out of range: " ++ digits
  | .character c => "unexpected character " ++ quoteChar c
  | .unexpected expected found => "expected " ++ expected.describe ++ ", found " ++ found.describe
  | .arithmetic fault => fault.message

structure UnitError where
  line : Nat
  fault : UnitFault
  deriving Repr

def UnitError.message (e : UnitError) : String :=
  "line " ++ writeInteger e.line ++ ": " ++ e.fault.message

structure Placed where
  token : Token
  line : Nat
  deriving DecidableEq, Repr, Inhabited

end UpdaterBootstrap
