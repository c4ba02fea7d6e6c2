import UpdaterBootstrap.Decimal.Read
import UpdaterBootstrap.Text.Hexadecimal
import UpdaterBootstrap.Text.Identifier
import UpdaterBootstrap.Unit.Token

/-!
# Tokens of a text

Each reader says how many characters it takes. The line of a token is one more than the number of
line feeds before it.
-/

namespace UpdaterBootstrap

def lineFeeds (cs : List Char) : Nat :=
  cs.count '\n'

/-! ## Numbers -/

def isDigitOrGap (c : Char) : Bool :=
  c.isDigit || c == '_'

def withoutGaps (cs : List Char) : List Char :=
  cs.filter (· != '_')

def positiveInteger? (n : Nat) : Option Int64 :=
  if n ≤ Int64.maxValue.toInt.toNat then some (.ofNat n) else none

def readHexadecimal (cs : List Char) : Except UnitFault (Token × Nat) :=
  let digits := cs.takeWhile fun c => isHexDigit c || c == '_'
  let size := (cs.drop digits.length).take 1 |>.filter ("lLiIgG".toList.contains ·)
  let plain := withoutGaps digits
  match if plain.isEmpty then none else positiveInteger? (hexNumber plain) with
  | some n => .ok (.integer n, 2 + digits.length + size.length)
  | none => .error (.hexadecimal (.ofList digits))

def fractionPart : List Char → List Char
  | '.' :: c :: cs => if c.isDigit then '.' :: c :: cs.takeWhile isDigitOrGap else []
  | _ => []

def exponentPart : List Char → List Char
  | e :: cs =>
    if e == 'e' || e == 'E' then
      let sign := cs.take 1 |>.filter fun c => c == '+' || c == '-'
      let digits := (cs.drop sign.length).takeWhile Char.isDigit
      if digits.isEmpty then [] else e :: sign ++ digits
    else []
  | [] => []

/-- A number in decimal digits; a fraction, an exponent or a letter `d` or `f` makes it a double. -/
def readDecimal (cs : List Char) : Except UnitFault (Token × Nat) :=
  let whole := cs.takeWhile isDigitOrGap
  let fraction := fractionPart (cs.drop whole.length)
  let exponent := exponentPart (cs.drop (whole.length + fraction.length))
  let text := whole ++ fraction ++ exponent
  let split := !fraction.isEmpty || !exponent.isEmpty
  let next := (cs.drop text.length).take 1
  let double := next.any ("dDfF".toList.contains ·)
  let size := next.any fun c => "gG".toList.contains c || (!split && "lLiI".toList.contains c)
  let taken := text.length + (double || size).toNat
  if split || double then
    match readFloatChars? (withoutGaps text) with
    | some x => .ok (.decimal x, taken)
    | none => .error (.range (.ofList text))
  else
    match positiveInteger? (digitsValue (withoutGaps text)) with
    | some n => .ok (.integer n, taken)
    | none => .error (.range (.ofList text))

def readNumber : List Char → Except UnitFault (Token × Nat)
  | '0' :: 'x' :: cs | '0' :: 'X' :: cs => readHexadecimal cs
  | cs => readDecimal cs

/-! ## Quoted texts -/

structure QuoteStyle where
  quote : Char
  tripled : Bool
  deriving DecidableEq, Repr

def shortEscape? (c : Char) : Option Char :=
  match c with
  | 'n' => some '\n'
  | 't' => some '\t'
  | 'r' => some '\r'
  | 'b' => some '\x08'
  | 'f' => some '\x0c'
  | '0' => some '\x00'
  | '\\' | '\'' | '"' | '$' => some c
  | _ => none

/-- The character with the number given by four digits, of which the first may be a plus sign. -/
def codePoint? (digits : List Char) : Option Char :=
  let plain := match digits with
    | '+' :: ds => ds
    | ds => ds
  if digits.length = 4 ∧ plain.all isHexDigit then
    let n := hexNumber plain
    if n.isValidChar then some (.ofNat n) else none
  else none

/-- Whether a `$` before this text starts an inserted expression. -/
def startsInsertion (style : QuoteStyle) (next : List Char) : Bool :=
  style.quote == '"' && next.head?.any fun c => c == '\x7b' || isAlphabetic c || c == '_'

def prepend (c : Char) (n : Nat) : List Char × Nat → List Char × Nat
  | (cs, m) => (c :: cs, n + m)

/-- The text up to its closing quotes and the number of characters taken, from the character
`skip` places on. `start` is the line of the opening quote, `line` the current one. -/
def readTextFrom (style : QuoteStyle) (start line skip : Nat) :
    List Char → Except UnitError (List Char × Nat)
  | [] => .error ⟨start, .openText⟩
  | c :: cs =>
    match skip with
    | n + 1 => readTextFrom style start line n cs
    | 0 =>
      if c == style.quote && (!style.tripled || cs.take 2 == [c, c]) then
        .ok ([], if style.tripled then 3 else 1)
      else if c == '\n' && !style.tripled then .error ⟨start, .openText⟩
      else if c == '\\' then
        match cs.head? with
        | none => .error ⟨line, .openEscape⟩
        | some '\n' => (readTextFrom style start (line + 1) 1 cs).map fun (t, n) => (t, 2 + n)
        | some 'u' =>
          match codePoint? (cs.tail.take 4) with
          | some d => (readTextFrom style start line 5 cs).map (prepend d 6)
          | none => .error ⟨line, .unicodeEscape (.ofList (cs.tail.take 4))⟩
        | some e =>
          match shortEscape? e with
          | some d => (readTextFrom style start line 1 cs).map (prepend d 2)
          | none => .error ⟨line, .escape e⟩
      else if c == '$' && startsInsertion style cs then .error ⟨line, .interpolation⟩
      else
        let line := if c == '\n' then line + 1 else line
        (readTextFrom style start line 0 cs).map (prepend c 1)

def readText (line : Nat) (quote : Char) (cs : List Char) : Except UnitError (Token × Nat) :=
  let style : QuoteStyle := ⟨quote, cs.take 2 == [quote, quote]⟩
  let skip := if style.tripled then 2 else 0
  (readTextFrom style line line skip cs).map fun (t, n) => (.text (.ofList t), skip + n + 1)

/-! ## Texts -/

def blockLength? : List Char → Option Nat
  | [] => none
  | c :: cs => if c == '*' && cs.head? == some '/' then some 2 else (blockLength? cs).map (· + 1)

def isSymbol (c : Char) : Bool :=
  "@.,;=+-*/()[]\x7b\x7d:<>?&".toList.contains c

def readToken (line : Nat) (c : Char) (cs : List Char) : Except UnitError (Token × Nat) :=
  if isIdentStart c then
    let name := identifier (c :: cs)
    .ok (.word (.ofList name), name.length)
  else if c.isDigit then (readNumber (c :: cs)).mapError (⟨line, ·⟩)
  else if c == '\'' || c == '"' then readText line c cs
  else if isSymbol c then .ok (.symbol c, 1)
  else .error ⟨line, .character c⟩

/-- The tokens after `skip` characters that have been taken; `line` is the line they end on. -/
def tokensFrom (line skip : Nat) : List Char → Except UnitError (List Placed)
  | [] => .ok [⟨.finish, line⟩]
  | c :: cs =>
    let next := if c == '\n' then line + 1 else line
    match skip with
    | n + 1 => tokensFrom next n cs
    | 0 =>
      if isBlank c then tokensFrom next 0 cs
      else if c == '/' && cs.head? == some '/' then
        tokensFrom next (cs.takeWhile (· != '\n')).length cs
      else if c == '/' && cs.head? == some '*' then
        match blockLength? cs.tail with
        | some n => tokensFrom next (n + 1) cs
        | none => .error ⟨line, .openComment⟩
      else do
        let (token, n) ← readToken line c cs
        let rest ← tokensFrom next (n - 1) cs
        return ⟨token, line⟩ :: rest

def tokens (text : String) : Except UnitError (List Placed) :=
  tokensFrom 1 0 text.toList

end UpdaterBootstrap
