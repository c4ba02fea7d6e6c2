import UpdaterBootstrap.Text.Identifier

/-!
# Code, comments and quoted text

A script is read character by character. Each character is code or belongs to a comment or a
quoted text; quotes and comment marks count as part of what they enclose.
-/

namespace UpdaterBootstrap

inductive Region
  | code
  | lineComment
  | blockComment
  /-- Between single quote marks, up to the end of the line. -/
  | quoted (quote : Char)
  /-- Between threefold quote marks. -/
  | tripled (quote : Char)
  deriving DecidableEq, Repr

/-- The reading position: `skip` characters belong to what was read before, then comes `region`. -/
structure Reading where
  skip : Nat
  region : Region
  deriving DecidableEq, Repr

def Reading.step (r : Reading) (c : Char) (next : List Char) : Bool × Reading :=
  match r.skip with
  | n + 1 => (false, ⟨n, r.region⟩)
  | 0 =>
    match r.region with
    | .code =>
      if c == '/' && next.head? == some '/' then (false, ⟨0, .lineComment⟩)
      else if c == '/' && next.head? == some '*' then (false, ⟨1, .blockComment⟩)
      else if c == '\'' || c == '"' then
        if next.take 2 == [c, c] then (false, ⟨2, .tripled c⟩) else (false, ⟨0, .quoted c⟩)
      else (true, ⟨0, .code⟩)
    | .lineComment => if c == '\n' then (true, ⟨0, .code⟩) else (false, ⟨0, .lineComment⟩)
    | .blockComment =>
      if c == '*' && next.head? == some '/' then (false, ⟨1, .code⟩)
      else (false, ⟨0, .blockComment⟩)
    | .quoted q =>
      if c == '\\' then (false, ⟨1, .quoted q⟩)
      else if c == q then (false, ⟨0, .code⟩)
      else if c == '\n' then (true, ⟨0, .code⟩)
      else (false, ⟨0, .quoted q⟩)
    | .tripled q =>
      if c == '\\' then (false, ⟨1, .tripled q⟩)
      else if c == q && next.take 2 == [q, q] then (false, ⟨2, .code⟩)
      else (false, ⟨0, .tripled q⟩)

/-- A first line that names an interpreter is a comment. -/
def Reading.start (cs : List Char) : Reading :=
  ⟨0, if cs.take 2 == ['#', '!'] then .lineComment else .code⟩

def codeMarksFrom (r : Reading) : List Char → List Bool
  | [] => []
  | c :: cs =>
    let (code, r) := r.step c cs
    code :: codeMarksFrom r cs

def codeMarks (cs : List Char) : List Bool :=
  codeMarksFrom (.start cs) cs

abbrev Marked := Char × Bool

def marked (cs : List Char) : List Marked :=
  cs.zip (codeMarks cs)

@[simp] theorem length_codeMarksFrom (r : Reading) (cs : List Char) :
    (codeMarksFrom r cs).length = cs.length := by
  induction cs generalizing r with
  | nil => rfl
  | cons c cs ih => simp [codeMarksFrom, ih]

@[simp] theorem map_fst_marked (cs : List Char) : (marked cs).map Prod.fst = cs := by
  simp [marked, codeMarks, List.map_fst_zip]

/-! ## Bytes -/

def byteLength (cs : List Char) : Nat :=
  cs.foldr (fun c n => c.utf8Size + n) 0

theorem byteLength_cons (c : Char) (cs : List Char) : byteLength (c :: cs) = c.utf8Size + byteLength cs := rfl

theorem byteLength_append (a b : List Char) : byteLength (a ++ b) = byteLength a + byteLength b := by
  induction a with
  | nil => exact (Nat.zero_add _).symm
  | cons c a ih => rw [List.cons_append, byteLength_cons, byteLength_cons, ih, Nat.add_assoc]

theorem flatMap_replicate_mark (code : Bool) (cs : List Char) :
    (cs.map (·, code)).flatMap (fun m => List.replicate m.1.utf8Size m.2) =
      List.replicate (byteLength cs) code := by
  induction cs with
  | nil => rfl
  | cons c cs ih =>
    rw [List.map_cons, List.flatMap_cons, ih, List.replicate_append_replicate, byteLength_cons]

def codeMask (cs : List Char) : List Bool :=
  (marked cs).flatMap fun m => List.replicate m.1.utf8Size m.2

/-- The maximal runs of code as byte offsets, first and past the last; `offset` is the offset of
the first character, `start` the offset where the current run began. -/
def codeRunsFrom (offset : Nat) (start : Option Nat) : List Marked → List (Nat × Nat)
  | [] => match start with
    | some s => [(s, offset)]
    | none => []
  | (c, code) :: ms =>
    let next := offset + c.utf8Size
    match code, start with
    | true, none => codeRunsFrom next (some offset) ms
    | true, some s => codeRunsFrom next (some s) ms
    | false, some s => (s, offset) :: codeRunsFrom next none ms
    | false, none => codeRunsFrom next none ms

def codeRuns (source : String) : List (Nat × Nat) :=
  codeRunsFrom 0 none (marked source.toList)

end UpdaterBootstrap
