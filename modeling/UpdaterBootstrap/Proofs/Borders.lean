import Mathlib.Data.List.Chain
import UpdaterBootstrap.Proofs.Pieces
import UpdaterBootstrap.Script.ClassHeader

/-!
# Borders of the code

Next to code a comment or a quoted text shows only its marks: after code it begins with a slash or a
quote, and before code it ends with one or with its line (`bordered_markedFrom`). Two texts that
agree up to such a mark have the same names there.
-/

namespace UpdaterBootstrap

/-- A class of inert characters has no mark in it. -/
theorem eq_false_of_mark {p : Char → Bool} (hp : ∀ c, p c = true → isInert c = true) {c : Char}
    (h : isInert c = false) :
    p c = false := by
  rw [← Bool.not_eq_true]
  intro hc
  rw [hp c hc] at h
  cases h

/-! ## Where code begins and ends -/

def BorderAt (m n : Marked) : Prop :=
  (m.2 = true → n.2 = false → isInert n.1 = false) ∧
    (m.2 = false → n.2 = true → isInert m.1 = false ∨ n.1 = '\n')

def Bordered (ms : List Marked) : Prop :=
  List.IsChain BorderAt ms

theorem isInert_of_hidden {c : Char} {next : List Char} (h : (Reading.code.step c next).1 = false) :
    isInert c = false := by
  rw [← Bool.not_eq_true]
  intro hinert
  rw [step_inert hinert] at h
  cases h

theorem isInert_of_isQuote {c : Char} (h : isQuote c = true) : isInert c = false := by
  simp only [isQuote, Bool.or_eq_true, beq_iff_eq] at h
  rcases h with rfl | rfl <;> rfl

/-- Code follows a comment or a quoted text only after its last mark. -/
theorem Reading.Reached.isInert {r : Reading} {c : Char} {next : List Char} (hr : r.Reached (c :: next))
    (h : r.step c next = (false, .code)) : UpdaterBootstrap.isInert c = false := by
  obtain ⟨n, region⟩ := r
  cases n with
  | succ n =>
    -- what is skipped before code is the rest of a mark
    obtain ⟨rfl, rfl⟩ : n = 0 ∧ region = .code := by simpa [Reading.step, Reading.code] using h
    rcases hr.skipped rfl c (by simp) with rfl | hquote
    · rfl
    · exact isInert_of_isQuote hquote
  | zero =>
    cases region with
    | code =>
      have hhidden : (Reading.code.step c next).1 = false := by rw [Reading.code, h]
      exact isInert_of_hidden hhidden
    | lineComment =>
      simp only [Reading.step] at h
      split at h <;> cases h
    | blockComment =>
      simp only [Reading.step] at h
      split at h <;> cases h
    | quoted q =>
      have hq : isQuote q = true := hr.quoted q (.inl rfl)
      simp only [Reading.step] at h
      split at h
      · cases h
      split at h
      · rename_i hc
        rw [beq_iff_eq.1 hc]
        exact isInert_of_isQuote hq
      split at h <;> cases h
    | tripled q =>
      simp only [Reading.step] at h
      split at h
      · cases h
      split at h <;> cases h

theorem Reading.Reached.borderAt {r : Reading} {c d : Char} {cs : List Char} (hr : r.Reached (c :: d :: cs)) :
    BorderAt (c, (r.step c (d :: cs)).1) (d, ((r.step c (d :: cs)).2.step d cs).1) := by
  constructor
  · intro hcode hhidden
    dsimp only at hcode hhidden
    rw [step_code hcode] at hhidden
    exact isInert_of_hidden hhidden
  · intro hhidden hcode
    dsimp only at hhidden hcode ⊢
    by_cases hd : d = '\n'
    · exact .inr hd
    · apply Or.inl
      apply hr.isInert
      exact Prod.ext hhidden (eq_code_of_step hcode hd)

theorem bordered_markedFrom {r : Reading} {cs : List Char} (hr : r.Reached cs) :
    Bordered (markedFrom r cs) := by
  unfold Bordered
  induction cs generalizing r with
  | nil => exact .nil
  | cons c cs ih =>
    have htail := ih hr.step
    rw [markedFrom_cons]
    cases cs with
    | nil => exact .singleton _
    | cons d cs =>
      rw [markedFrom_cons] at htail ⊢
      exact List.isChain_cons_cons.2 ⟨hr.borderAt, htail⟩

/-! ## Texts that agree up to a mark -/

inductive Alike : List Char → List Char → Prop
  | nil : Alike [] []
  | cons (c : Char) {cs ds : List Char} (h : Alike cs ds) : Alike (c :: cs) (c :: ds)
  | border {c d : Char} (hc : isInert c = false) (hd : isInert d = false) (cs ds : List Char) :
      Alike (c :: cs) (d :: ds)

theorem isInert_of_isIdentStart (c : Char) (h : isIdentStart c = true) : isInert c = true :=
  isInert_of_isIdentPart (isIdentPart_of_isIdentStart h)

theorem point_of_mark {c : Char} (h : isInert c = false) : (c == '.') = false := by
  apply eq_false_of_mark _ h
  intro d hd
  rw [beq_iff_eq.1 hd]
  rfl

theorem isIdentStart_of_mark {c : Char} (h : isInert c = false) : isIdentStart c = false :=
  eq_false_of_mark isInert_of_isIdentStart h

theorem isIdentPart_of_mark {c : Char} (h : isInert c = false) : isIdentPart c = false :=
  eq_false_of_mark (fun _ => isInert_of_isIdentPart) h

theorem Alike.head?_any {cs ds : List Char} (h : Alike cs ds) :
    cs.head?.any isIdentStart = ds.head?.any isIdentStart := by
  cases h with
  | nil => rfl
  | cons => rfl
  | border hc hd => simp [isIdentStart_of_mark hc, isIdentStart_of_mark hd]

theorem Alike.dottedRest_eq {cs ds : List Char} (h : Alike cs ds) : dottedRest cs = dottedRest ds := by
  induction h with
  | nil => rfl
  | cons c h ih => rw [dottedRest, dottedRest, h.head?_any, ih]
  | border hc hd =>
    simp [dottedRest, isIdentPart_of_mark hc, isIdentPart_of_mark hd, point_of_mark hc, point_of_mark hd]

theorem Alike.dottedName_eq {cs ds : List Char} (h : Alike cs ds) : dottedName cs = dottedName ds := by
  cases h with
  | nil => rfl
  | cons c h => rw [dottedName, dottedName, h.dottedRest_eq]
  | border hc hd => simp [dottedName, isIdentStart_of_mark hc, isIdentStart_of_mark hd]

theorem Alike.takeWhile_eq {p : Char → Bool} (hp : ∀ c, p c = true → isInert c = true) {cs ds : List Char}
    (h : Alike cs ds) : cs.takeWhile p = ds.takeWhile p := by
  induction h with
  | nil => rfl
  | cons c h ih => rw [List.takeWhile_cons, List.takeWhile_cons, ih]
  | border hc hd => simp [eq_false_of_mark hp hc, eq_false_of_mark hp hd]

theorem Alike.dropWhile {p : Char → Bool} (hp : ∀ c, p c = true → isInert c = true) {cs ds : List Char}
    (h : Alike cs ds) : Alike (cs.dropWhile p) (ds.dropWhile p) := by
  induction h with
  | nil => exact .nil
  | cons c h ih =>
    rw [List.dropWhile_cons, List.dropWhile_cons]
    split
    · exact ih
    · exact .cons c h
  | border hc hd cs ds =>
    rw [List.dropWhile_cons_of_neg (by simp [eq_false_of_mark hp hc]),
      List.dropWhile_cons_of_neg (by simp [eq_false_of_mark hp hd])]
    exact .border hc hd cs ds

theorem Alike.identifier_eq {cs ds : List Char} (h : Alike cs ds) : identifier cs = identifier ds := by
  cases h with
  | nil => rfl
  | cons c h => rw [identifier, identifier, h.takeWhile_eq fun _ => isInert_of_isIdentPart]
  | border hc hd => simp [identifier, isIdentStart_of_mark hc, isIdentStart_of_mark hd]

theorem Alike.declaredName?_eq {cs ds : List Char} (h : Alike cs ds) :
    declaredName? cs = declaredName? ds := by
  have hblank : ∀ c, isBlank c = true → isInert c = true := fun _ => isInert_of_isBlank
  unfold declaredName?
  rw [h.takeWhile_eq hblank, (h.dropWhile hblank).identifier_eq]

/-- A text without marks stands in both or in neither. -/
theorem Alike.exists_of_append {a cs ds : List Char} (ha : ∀ c ∈ a, isInert c = true)
    (h : Alike (a ++ cs) ds) :
    ∃ ds', ds = a ++ ds' ∧ Alike cs ds' := by
  induction a generalizing ds with
  | nil => exact ⟨ds, rfl, h⟩
  | cons c a ih =>
    obtain ⟨hc, ha⟩ := List.forall_mem_cons.1 ha
    rw [List.cons_append] at h
    cases h with
    | cons _ h =>
      obtain ⟨ds', rfl, hrest⟩ := ih ha h
      exact ⟨ds', rfl, hrest⟩
    | border hmark =>
      rw [hc] at hmark
      cases hmark

theorem Alike.symm {cs ds : List Char} (h : Alike cs ds) : Alike ds cs := by
  induction h with
  | nil => exact .nil
  | cons c h ih => exact .cons c ih
  | border hc hd cs ds => exact .border hd hc ds cs

/-! ## Class headers -/

def declaredAfter? (cs : List Char) : Option (List Char × List Char) :=
  if cs.take 4 == "lass".toList then declaredName? (cs.drop 4) else none

theorem classHeaderFrom_cons (offset : Nat) (inWord : Bool) (c : Char) (code : Bool) (ms : List Marked) :
    classHeaderFrom offset inWord ((c, code) :: ms) =
      match if code && c == 'c' && !inWord then declaredAfter? (ms.map Prod.fst) else none with
      | some (gap, name) => some ⟨offset, .ofList gap, .ofList name⟩
      | none => classHeaderFrom (offset + c.utf8Size) (isIdentPart c || c == '.') ms := by
  have hheader : (if code && (c == 'c' && (ms.take 4).map Prod.fst == "lass".toList) && !inWord then
        declaredName? ((ms.drop 4).map Prod.fst) else none) =
      if code && c == 'c' && !inWord then declaredAfter? (ms.map Prod.fst) else none := by
    rw [declaredAfter?, ← List.map_take, ← List.map_drop]
    cases code <;> cases inWord <;> cases c == 'c' <;> simp
  rw [← hheader]
  exact classHeaderFrom.eq_2 ..

theorem Alike.declaredAfter?_eq {cs ds : List Char} (h : Alike cs ds) :
    declaredAfter? cs = declaredAfter? ds := by
  have hinert : ∀ c ∈ "lass".toList, isInert c = true := List.all_eq_true.1 (by decide)
  have keyword {cs ds : List Char} (h : Alike cs ds) (hcs : cs.take 4 = "lass".toList) :
      ∃ ds', ds = "lass".toList ++ ds' ∧ Alike (cs.drop 4) ds' := by
    rw [← List.take_append_drop 4 cs, hcs] at h
    exact h.exists_of_append hinert
  unfold declaredAfter?
  by_cases hcs : cs.take 4 = "lass".toList
  · obtain ⟨ds', rfl, hrest⟩ := keyword h hcs
    rw [if_pos (by simpa using hcs), hrest.declaredName?_eq]
    rfl
  · have hds : ds.take 4 ≠ "lass".toList := by
      intro hds
      obtain ⟨cs', rfl, -⟩ := keyword h.symm hds
      exact hcs rfl
    rw [if_neg (by simpa using hcs), if_neg (by simpa using hds)]

end UpdaterBootstrap
