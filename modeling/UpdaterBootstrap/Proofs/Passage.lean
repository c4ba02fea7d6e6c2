import UpdaterBootstrap.Proofs.Captured

/-!
# Text that the scan passes as a whole

An annotation is read from code to code and leaves no parenthesis open, so that what follows it is
scanned as if it were not there.
-/

namespace UpdaterBootstrap

/-- Read from code to code, whatever comes next, with its parentheses in pairs. -/
def Passed (a : List Char) : Prop :=
  ∀ post, ∃ ms : List Marked, ms.map Prod.fst = a ∧
    markedFrom .code (a ++ post) = ms ++ markedFrom .code post ∧
    ∀ depth rest, closing? depth (ms ++ rest) = (closing? depth rest).map (a ++ ·)

theorem passed_nil : Passed [] :=
  fun _ => ⟨[], rfl, rfl, fun _ _ => by simp⟩

theorem Passed.append {a b : List Char} (ha : Passed a) (hb : Passed b) : Passed (a ++ b) := by
  intro post
  obtain ⟨ms, hfst, hms, hclosing⟩ := ha (b ++ post)
  obtain ⟨ms', hfst', hms', hclosing'⟩ := hb post
  refine ⟨ms ++ ms', by rw [List.map_append, hfst, hfst'], by rw [List.append_assoc, hms, hms',
    List.append_assoc],
    fun depth rest => ?_⟩
  rw [List.append_assoc, hclosing, hclosing', Option.map_map]
  simp [Function.comp_def]

def IsUnpaired (c : Char) : Prop :=
  isInert c = true ∧ c ≠ '(' ∧ c ≠ ')'

theorem passed_unpaired {a : List Char} (h : ∀ c ∈ a, IsUnpaired c) : Passed a := by
  intro post
  have hun : Unbracketed (a.map (·, true)) := unbracketed_map fun _ c hc => (h c hc).2
  refine ⟨a.map (·, true), map_fst_mark a true, markedFrom_inert (fun c hc => (h c hc).1) post,
    fun depth rest => ?_⟩
  rw [closing?_append hun, map_fst_mark]

/-- What closes a list is read up to code, and is in pairs but for its last parenthesis. -/
theorem closing?_passed {depth : Nat} {r : Reading} {inner post : List Char}
    (h : closing? depth (markedFrom r (inner ++ post)) = some inner) :
    ∃ ms, ms.map Prod.fst = inner ∧ markedFrom r (inner ++ post) = ms ++ markedFrom .code post ∧
      ∀ more rest, closing? (depth + (more + 1)) (ms ++ rest) = (closing? more rest).map (inner ++ ·) := by
  induction inner generalizing depth r with
  | nil => cases getLast?_of_closing? h
  | cons c inner ih =>
    rw [List.cons_append, markedFrom_cons] at h ⊢
    obtain ⟨rfl, hcode, rfl, hinner⟩ | ⟨depth', rest, hinner, hrest, hall⟩ := closing?_cons h
    · obtain ⟨_, rfl⟩ := List.cons.inj hinner
      rw [hcode, step_code hcode]
      refine ⟨[(')', true)], rfl, rfl, fun more rest => ?_⟩
      rw [Nat.zero_add]
      exact closing?_close more rest
    · obtain ⟨_, rfl⟩ := List.cons.inj hinner
      obtain ⟨ms, hfst, hms, hclosing⟩ := ih hrest
      refine ⟨(c, (r.step c (inner ++ post)).1) :: ms, by rw [List.map_cons, hfst], by rw [hms]; rfl,
        fun more rest => ?_⟩
      rw [List.cons_append, hall, hclosing, Option.map_map]
      rfl

theorem isUnpaired_of_mem_dottedName {c : Char} {cs : List Char} (h : c ∈ dottedName cs) : IsUnpaired c := by
  refine ⟨isInert_of_mem_dottedName h, ?_⟩
  rcases mem_dottedName h with h | rfl
  · exact ⟨ne_of_class h (by decide), ne_of_class h (by decide)⟩
  · decide

/-! ## Argument lists -/

theorem Enclosed.passed {arguments : List Char} (h : Enclosed arguments) : Passed arguments := by
  obtain ⟨gap, inner, rfl, hgap, hinner⟩ := h
  have hblank : Passed gap := passed_unpaired fun c hc => by
    rcases hgap c hc with rfl | rfl <;> exact ⟨by decide, by decide⟩
  refine hblank.append fun post => ?_
  obtain ⟨ms, hfst, hms, hclosing⟩ := closing?_passed (hinner post)
  refine ⟨('(', true) :: ms, by rw [List.map_cons, hfst], ?_, fun depth rest => ?_⟩
  · rw [List.cons_append, markedFrom_cons, step_inert (by decide), hms]
    rfl
  · have := hclosing depth rest
    rw [Nat.zero_add] at this
    rw [List.cons_append, closing?_open, this, Option.map_map]
    rfl

theorem Enclosed.argumentList_eq {arguments : List Char} (h : Enclosed arguments) (post : List Char) :
    argumentList (markedFrom .code (arguments ++ post)) = arguments := by
  obtain ⟨gap, inner, rfl, hgap, hinner⟩ := h
  rw [List.append_assoc, List.cons_append]
  induction gap with
  | nil => exact argumentList_open (hinner post)
  | cons c gap ih =>
    obtain ⟨hc, hgap⟩ := List.forall_mem_cons.1 hgap
    have ih := ih hgap
    rw [List.cons_append, argumentList_blank hc (by rw [ih]; simp), ih]
    rfl

theorem Enclosed.getLast? {arguments : List Char} (h : Enclosed arguments) :
    arguments.getLast? = some ')' := by
  obtain ⟨gap, inner, rfl, _, hinner⟩ := h
  have := getLast?_of_closing? (hinner [])
  rw [List.getLast?_append, List.getLast?_cons, this]
  rfl

/-! ## Annotations -/

theorem getLast?_cons_ne {c d : Char} {cs : List Char} (hc : cs = [] → c ≠ d) (h : cs.getLast? ≠ some d) :
    (c :: cs).getLast? ≠ some d := by
  rw [List.getLast?_cons]
  cases hlast : cs.getLast? with
  | none => exact fun e => hc (List.getLast?_eq_none_iff.1 hlast) (Option.some.inj e)
  | some e =>
    rw [hlast] at h
    exact h

theorem getLast?_dottedRest (cs : List Char) : (dottedRest cs).getLast? ≠ some '.' := by
  induction cs with
  | nil => simp [dottedRest]
  | cons c cs ih =>
    rw [dottedRest]
    split
    · rename_i hc
      refine getLast?_cons_ne (fun hnil hpoint => ?_) ih
      have hpart : isIdentPart '.' = false := by decide
      rw [hpoint, hpart, Bool.false_or, Bool.and_eq_true] at hc
      cases cs with
      | nil => cases hc.2
      | cons d cs =>
        have hd : isIdentPart d = true := isIdentPart_of_isIdentStart hc.2
        rw [dottedRest, hd] at hnil
        cases hnil
    · simp

theorem getLast?_dottedName (cs : List Char) : (dottedName cs).getLast? ≠ some '.' := by
  cases cs with
  | nil => simp [dottedName]
  | cons c cs =>
    rw [dottedName]
    split
    · rename_i hc
      exact getLast?_cons_ne (fun _ => ne_of_class hc (by decide)) (getLast?_dottedRest cs)
    · simp

theorem CapturedFrom.exists_rest {after name arguments : List Char} (h : CapturedFrom after name arguments) :
    ∃ rest, after = name ++ (arguments ++ rest) := by
  obtain ⟨cs, hcs⟩ := dottedName_isPrefix after
  rw [h.hname] at hcs
  have hdrop : after.drop name.length = cs := by rw [← hcs, List.drop_left]
  have harguments := h.harguments
  rw [hdrop] at harguments
  by_cases hne : arguments = []
  · exact ⟨cs, by rw [hne, List.nil_append, hcs]⟩
  · obtain ⟨rest, hrest⟩ := (argumentList_enclosed (harguments ▸ hne)).1
    rw [harguments] at hrest
    exact ⟨rest, by rw [hrest, hcs]⟩

theorem CapturedFrom.passed {after name arguments : List Char} (h : CapturedFrom after name arguments) :
    Passed (name ++ arguments) := by
  have hname : Passed name := passed_unpaired fun c hc => by
    rw [← h.hname] at hc
    exact isUnpaired_of_mem_dottedName hc
  rcases h.enclosed with rfl | harguments
  · exact hname.append passed_nil
  · exact hname.append harguments.passed

theorem Passed.at {a : List Char} (h : Passed a) : Passed ('@' :: a) := by
  have hat : Passed ['@'] := passed_unpaired fun c hc => by
    rw [List.mem_singleton.1 hc]
    exact ⟨by decide, by decide⟩
  exact hat.append h

theorem CapturedFrom.getLast?_ne {after name arguments : List Char} (h : CapturedFrom after name arguments) :
    (name ++ arguments).getLast? ≠ some '.' := by
  have hname := getLast?_dottedName after
  rw [h.hname] at hname
  rcases h.enclosed with rfl | harguments
  · rwa [List.append_nil]
  · rw [List.getLast?_append, harguments.getLast?]
    exact nofun

end UpdaterBootstrap
