import UpdaterBootstrap.Proofs.Passage
import UpdaterBootstrap.Script.Strip

/-!
# Pieces of a text and what is cut out of it

How pieces, cuts and lines of a text come about part by part.
-/

namespace UpdaterBootstrap

/-! ## Pieces -/

def pointAfter (afterPoint : Bool) (cs : List Char) : Bool :=
  (cs.getLast?.map (· == '.')).getD afterPoint

theorem piecesFrom_skip (more : Nat) (afterPoint : Bool) (ms rest : List Marked) :
    piecesFrom (ms.length + more) afterPoint (ms ++ rest) =
      piecesFrom more (pointAfter afterPoint (ms.map Prod.fst)) rest := by
  induction ms generalizing afterPoint with
  | nil => rw [List.length_nil, Nat.zero_add]; rfl
  | cons m ms ih =>
    rw [List.length_cons, Nat.add_right_comm, List.cons_append, piecesFrom, ih]
    cases ms <;> simp [pointAfter, List.getLast?_cons]

theorem piecesFrom_of_none {afterPoint code : Bool} {c : Char} {ms : List Marked}
    (h : annotation? afterPoint ((c, code) :: ms) = none) :
    piecesFrom 0 afterPoint ((c, code) :: ms) = .plain c :: piecesFrom 0 (c == '.') ms := by
  rw [piecesFrom, h]

/-- An annotation is passed over as a whole. -/
theorem piecesFrom_of_some {afterPoint code : Bool} {c : Char} {us ms : List Marked}
    {name arguments : List Char}
    (h : annotation? afterPoint ((c, code) :: (us ++ ms)) = some (name, arguments))
    (hfst : us.map Prod.fst = name ++ arguments) (hpoint : pointAfter false (name ++ arguments) = false) :
    piecesFrom 0 afterPoint ((c, code) :: (us ++ ms)) =
      .occurrence name arguments :: piecesFrom 0 false ms := by
  have hlength : name.length + arguments.length = us.length + 0 := by
    rw [← List.length_append, ← hfst, List.length_map, Nat.add_zero]
  rw [piecesFrom, h]
  dsimp only
  rw [hlength, piecesFrom_skip, hfst, hpoint]

theorem annotation?_of_ne {afterPoint : Bool} {c : Char} {code : Bool} {ms : List Marked} (h : c ≠ '@') :
    annotation? afterPoint ((c, code) :: ms) = none := by
  simp [annotation?, h]

theorem piecesFrom_plain {cs : List Char} (h : ∀ c ∈ cs, c ≠ '@') (afterPoint : Bool) (r : Reading) :
    piecesFrom 0 afterPoint (markedFrom r cs) = cs.map .plain := by
  induction cs generalizing afterPoint r with
  | nil => rfl
  | cons c cs ih =>
    rw [markedFrom_cons, piecesFrom_of_none (annotation?_of_ne (h c (by simp))),
      ih fun d hd => h d (List.mem_cons_of_mem c hd)]
    rfl

theorem pointAfter_of_getLast? {cs : List Char} (h : cs.getLast? ≠ some '.') :
    pointAfter false cs = false := by
  cases hlast : cs.getLast? with
  | none => simp [pointAfter, hlast]
  | some c =>
    have : c ≠ '.' := fun e => h (by rw [hlast, e])
    simp [pointAfter, hlast, this]

theorem annotation?_captured {after name arguments : List Char} (h : CapturedFrom after name arguments) :
    annotation? false (('@', true) :: markedFrom .code after) = some (name, arguments) := by
  rw [annotation?, if_pos (by decide)]
  dsimp only
  rw [map_fst_markedFrom, markedFrom_dottedName, h.hname, h.harguments, if_neg (by simpa using h.proper)]

theorem piecesFrom_captured {name arguments rest : List Char}
    (h : CapturedFrom (name ++ (arguments ++ rest)) name arguments) :
    piecesFrom 0 false (markedFrom .code ('@' :: (name ++ (arguments ++ rest)))) =
      .occurrence name arguments :: piecesFrom 0 false (markedFrom .code rest) := by
  obtain ⟨ms, hfst, hms, _⟩ := h.passed rest
  rw [List.append_assoc] at hms
  have hfound := annotation?_captured h
  rw [hms] at hfound
  rw [markedFrom_cons, step_inert (by decide), hms]
  exact piecesFrom_of_some hfound hfst (pointAfter_of_getLast? h.getLast?_ne)

theorem eq_code_of_step {r : Reading} {c : Char} {next : List Char} (h : (r.step c next).1 = true)
    (hc : c ≠ '\n') :
    r = .code := by
  obtain ⟨n, region⟩ := r
  cases n with
  | succ n => cases h
  | zero =>
    revert h
    cases region <;> simp only [Reading.step, beq_iff_eq, hc, if_false] <;> (repeat' split) <;> intro h <;>
      first | rfl | cases h

/-- One step of the scan: an annotation as a whole, or a character that begins none. -/
theorem piecesFrom_cases (afterPoint : Bool) (r : Reading) (c : Char) (cs : List Char) :
    (annotation? afterPoint (markedFrom r (c :: cs)) = none ∧
      piecesFrom 0 afterPoint (markedFrom r (c :: cs)) =
        .plain c :: piecesFrom 0 (c == '.') (markedFrom (r.step c cs).2 cs)) ∨
    ∃ name arguments rest, c = '@' ∧ afterPoint = false ∧ r = .code ∧ cs = name ++ (arguments ++ rest) ∧
      CapturedFrom cs name arguments ∧
      piecesFrom 0 afterPoint (markedFrom r (c :: cs)) =
        .occurrence name arguments :: piecesFrom 0 false (markedFrom .code rest) := by
  cases hfound : annotation? afterPoint (markedFrom r (c :: cs)) with
  | none =>
    refine .inl ⟨rfl, ?_⟩
    rw [markedFrom_cons] at hfound ⊢
    exact piecesFrom_of_none hfound
  | some found =>
    obtain ⟨name, arguments⟩ := found
    obtain ⟨rfl, hcaptured⟩ := captured_of_annotation? hfound
    obtain ⟨rest, rfl⟩ := hcaptured.exists_rest
    have hcode : afterPoint = false ∧ (r.step '@' (name ++ (arguments ++ rest))).1 = true := by
      rw [markedFrom_cons, annotation?] at hfound
      split at hfound
      · rename_i hc
        simpa [and_comm] using hc
      · cases hfound
    obtain ⟨rfl, hcode⟩ := hcode
    obtain rfl := eq_code_of_step hcode (by decide)
    exact .inr ⟨name, arguments, rest, rfl, rfl, rfl, rfl, hcaptured, piecesFrom_captured hcaptured⟩

theorem flatMap_text_piecesFrom (afterPoint : Bool) (r : Reading) (cs : List Char) :
    (piecesFrom 0 afterPoint (markedFrom r cs)).flatMap Piece.text = cs := by
  induction hn : cs.length using Nat.strongRecOn generalizing afterPoint r cs with
  | ind n ih =>
    subst hn
    cases cs with
    | nil => rfl
    | cons c cs =>
      rcases piecesFrom_cases afterPoint r c cs with ⟨_, hplain⟩ |
        ⟨name, arguments, rest, rfl, rfl, rfl, rfl, _, hoccurrence⟩
      · rw [hplain, List.flatMap_cons, ih cs.length (by simp) _ _ cs rfl]
        rfl
      · rw [hoccurrence, List.flatMap_cons, ih rest.length (by simp; omega) _ _ rest rfl]
        simp [Piece.text]

theorem map_fst_flatMap_cuts (afterPoint : Bool) (r : Reading) (cs : List Char) :
    ((piecesFrom 0 afterPoint (markedFrom r cs)).flatMap Piece.cuts).map Prod.fst = cs := by
  have hpiece (p : Piece) : p.cuts.map Prod.fst = p.text := map_fst_mark _ _
  rw [List.map_flatMap]
  simp only [hpiece]
  exact flatMap_text_piecesFrom afterPoint r cs

theorem map_fst_cuts (cs : List Char) : (cuts cs).map Prod.fst = cs :=
  map_fst_flatMap_cuts false _ cs

/-! ## Lines -/

theorem cutLines_line {a : List Cut} (h : ∀ c ∈ a, c.1 ≠ '\n') (removed : Bool) (rest : List Cut) :
    cutLines (a ++ ('\n', removed) :: rest) = ⟨a, some removed⟩ :: cutLines rest := by
  induction a with
  | nil => rfl
  | cons c a ih =>
    rw [List.cons_append, cutLines, ih fun d hd => h d (List.mem_cons_of_mem c hd)]
    simp [h c (by simp)]

def CutLine.whole (l : CutLine) : List Cut :=
  l.content ++ l.feed.toList.map fun removed => ('\n', removed)

theorem flatMap_whole (cs : List Cut) : (cutLines cs).flatMap CutLine.whole = cs := by
  induction cs with
  | nil => rfl
  | cons c cs ih =>
    obtain ⟨c, removed⟩ := c
    rw [cutLines]
    split
    · rename_i hc
      rw [List.flatMap_cons, ih, beq_iff_eq.1 hc]
      rfl
    · cases hls : cutLines cs with
      | nil =>
        rw [hls] at ih
        rw [← ih]
        rfl
      | cons l ls =>
        rw [hls, List.flatMap_cons] at ih
        rw [← ih]
        rfl

theorem isTouched_of_uncut {cs : List Cut} (h : ∀ c ∈ cs, c.2 = false) :
    ∀ l ∈ cutLines cs, l.isTouched = false := by
  induction cs with
  | nil => exact nofun
  | cons c cs ih =>
    obtain ⟨hc, hcs⟩ := List.forall_mem_cons.1 h
    have ih := ih hcs
    rw [cutLines]
    split
    · refine List.forall_mem_cons.2 ⟨?_, ih⟩
      simp [CutLine.isTouched, hc]
    · cases hl : cutLines cs with
      | nil => simp [CutLine.isTouched, hc]
      | cons l ls =>
        rw [hl] at ih
        obtain ⟨hfirst, hrest⟩ := List.forall_mem_cons.1 ih
        refine List.forall_mem_cons.2 ⟨?_, hrest⟩
        simpa [CutLine.isTouched, hc] using hfirst

theorem rest_of_untouched {l : CutLine} (h : l.isTouched = false) (keepLineCount : Bool) :
    l.rest keepLineCount = l.whole.map Prod.fst := by
  rw [CutLine.rest, h, CutLine.whole, CutLine.feedText]
  cases l.feed <;> simp

/-- A text that nothing is cut out of stays as it is. -/
theorem flatMap_rest_uncut (keepLineCount : Bool) {cs : List Cut} (h : ∀ c ∈ cs, c.2 = false) :
    (cutLines cs).flatMap (CutLine.rest keepLineCount) = cs.map Prod.fst := by
  have hwhole := congrArg (List.map Prod.fst) (flatMap_whole cs)
  rw [List.map_flatMap] at hwhole
  rw [← hwhole, List.flatMap_def, List.flatMap_def]
  refine congrArg List.flatten (List.map_congr_left fun l hl => ?_)
  exact rest_of_untouched (isTouched_of_uncut h l hl) keepLineCount

end UpdaterBootstrap
