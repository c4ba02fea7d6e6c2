import UpdaterBootstrap.Text.CharClass

/-!
# Identifiers

An identifier begins with a letter, an underscore or a dollar sign; numbers may follow. A dotted
name is a chain of identifiers.
-/

namespace UpdaterBootstrap

def isIdentStart (c : Char) : Bool :=
  isAlphabetic c || c == '_' || c == '$'

def isIdentPart (c : Char) : Bool :=
  isAlphanumeric c || c == '_' || c == '$'

theorem isIdentPart_of_isIdentStart {c : Char} (h : isIdentStart c = true) :
    isIdentPart c = true := by
  simp only [isIdentStart, isIdentPart, isAlphanumeric, Bool.or_eq_true] at *
  rcases h with (h | h) | h <;> simp [h]

theorem isIdentStart_of_not_isIdentPart {c : Char} (h : isIdentPart c = false) : isIdentStart c = false := by
  cases hstart : isIdentStart c with
  | false => rfl
  | true =>
    rw [isIdentPart_of_isIdentStart hstart] at h
    cases h

def dottedRest : List Char → List Char
  | [] => []
  | c :: cs =>
    if isIdentPart c || (c == '.' && cs.head?.any isIdentStart) then c :: dottedRest cs else []

def dottedName : List Char → List Char
  | [] => []
  | c :: cs => if isIdentStart c then c :: dottedRest cs else []

def identifier : List Char → List Char
  | [] => []
  | c :: cs => if isIdentStart c then c :: cs.takeWhile isIdentPart else []

end UpdaterBootstrap
