import UpdaterBootstrap.Script.Occurrence

/-!
# Reading a text in parts

What is read after some characters depends on them only through the reading position, as long as
no comment mark and no quote stands where the parts meet. `markedFrom` reads from a given position.
-/

namespace UpdaterBootstrap

def Reading.code : Reading := ⟨0, .code⟩

def markedFrom (r : Reading) (cs : List Char) : List Marked :=
  cs.zip (codeMarksFrom r cs)

theorem marked_eq (cs : List Char) : marked cs = markedFrom (.start cs) cs := rfl

theorem markedFrom_cons (r : Reading) (c : Char) (cs : List Char) :
    markedFrom r (c :: cs) = (c, (r.step c cs).1) :: markedFrom (r.step c cs).2 cs := rfl

@[simp] theorem map_fst_markedFrom (r : Reading) (cs : List Char) :
    (markedFrom r cs).map Prod.fst = cs := by
  simp [markedFrom, List.map_fst_zip]

theorem map_fst_mark (a : List Char) (code : Bool) : (a.map (·, code)).map Prod.fst = a := by
  rw [List.map_map]
  exact List.map_id a

/-! ## Code -/

def isInert (c : Char) : Bool :=
  c != '/' && c != '\'' && c != '"'

theorem step_inert {c : Char} (h : isInert c = true) (next : List Char) :
    Reading.code.step c next = (true, .code) := by
  simp only [isInert, Bool.and_eq_true, bne_iff_ne] at h
  obtain ⟨⟨h₁, h₂⟩, h₃⟩ := h
  simp [Reading.step, Reading.code, h₁, h₂, h₃]

theorem markedFrom_inert {a : List Char} (h : ∀ c ∈ a, isInert c = true) (b : List Char) :
    markedFrom .code (a ++ b) = a.map (·, true) ++ markedFrom .code b := by
  induction a with
  | nil => rfl
  | cons c a ih =>
    rw [List.cons_append, markedFrom_cons, step_inert (h c (by simp)),
      ih fun d hd => h d (by simp [hd])]
    rfl

theorem step_slash {next : List Char} (h₁ : next.head? ≠ some '/') (h₂ : next.head? ≠ some '*') :
    Reading.code.step '/' next = (true, .code) := by
  simp [Reading.step, Reading.code, h₁, h₂]

/-! ## Comments -/

theorem markedFrom_lineComment {a b : List Char} (ha : ∀ c ∈ a, c ≠ '\n')
    (hb : ∀ c, b.head? = some c → c = '\n') :
    markedFrom ⟨0, .lineComment⟩ (a ++ b) = a.map (·, false) ++ markedFrom .code b := by
  induction a with
  | nil =>
    cases b with
    | nil => rfl
    | cons c b =>
      obtain rfl : c = '\n' := hb c rfl
      rfl
  | cons c a ih =>
    have hc : c ≠ '\n' := ha c (by simp)
    rw [List.cons_append, markedFrom_cons]
    simp only [Reading.step, beq_iff_eq, hc, if_false]
    rw [ih fun d hd => ha d (by simp [hd])]
    rfl

/-! ## A position that has been reached -/

def isQuote (c : Char) : Bool :=
  c == '\'' || c == '"'

/-- What holds of every position reached: quotes are quotes, and what is skipped before code is the
rest of a comment mark or of closing quotes. -/
structure Reading.Reached (r : Reading) (cs : List Char) : Prop where
  quoted : ∀ q, r.region = .quoted q ∨ r.region = .tripled q → isQuote q = true
  skipped : r.region = .code → ∀ c ∈ cs.take r.skip, c = '/' ∨ isQuote c = true

theorem Reading.reached_start (cs : List Char) : (Reading.start cs).Reached cs := by
  constructor
  · intro q h
    simp only [Reading.start] at h
    split at h <;> simp at h
  · intro _ c hc
    simp [Reading.start] at hc

theorem Reading.reached_code (cs : List Char) : Reading.code.Reached cs :=
  ⟨fun q h => by simp [Reading.code] at h, fun _ c hc => by simp [Reading.code] at hc⟩

theorem Reading.reached_comment (n : Nat) {region : Region}
    (h : region = .lineComment ∨ region = .blockComment)
    (cs : List Char) : Reading.Reached ⟨n, region⟩ cs := by
  rcases h with rfl | rfl
  · exact ⟨fun q hq => by simp at hq, fun hr => by simp at hr⟩
  · exact ⟨fun q hq => by simp at hq, fun hr => by simp at hr⟩

theorem Reading.reached_text (n : Nat) {region : Region} {q : Char}
    (h : region = .quoted q ∨ region = .tripled q)
    (hq : isQuote q = true) (cs : List Char) : Reading.Reached ⟨n, region⟩ cs := by
  rcases h with rfl | rfl
  · refine ⟨fun q' hq' => ?_, fun hr => by simp at hr⟩
    obtain rfl : q = q' := by simpa using hq'
    exact hq
  · refine ⟨fun q' hq' => ?_, fun hr => by simp at hr⟩
    obtain rfl : q = q' := by simpa using hq'
    exact hq

theorem Reading.reached_skip {n : Nat} {cs : List Char} (h : ∀ c ∈ cs.take n, c = '/' ∨ isQuote c = true) :
    Reading.Reached ⟨n, .code⟩ cs :=
  ⟨fun q hq => by simp at hq, fun _ => h⟩

theorem Reading.Reached.step {r : Reading} {c : Char} {cs : List Char} (h : r.Reached (c :: cs)) :
    (r.step c cs).2.Reached cs := by
  obtain ⟨n, region⟩ := r
  cases n with
  | succ n =>
    refine ⟨h.quoted, fun hr d hd => h.skipped hr d ?_⟩
    simp only [List.take_succ_cons]
    exact List.mem_cons_of_mem _ hd
  | zero =>
    cases region with
    | code =>
      simp only [Reading.step]
      split
      · exact reached_comment 0 (.inl rfl) cs
      split
      · exact reached_comment 1 (.inr rfl) cs
      split
      · rename_i hc
        have hc : isQuote c = true := by simpa [isQuote] using hc
        split
        · exact reached_text 2 (.inr rfl) hc cs
        · exact reached_text 0 (.inl rfl) hc cs
      · exact reached_code cs
    | lineComment =>
      simp only [Reading.step]
      split
      · exact reached_code cs
      · exact reached_comment 0 (.inl rfl) cs
    | blockComment =>
      simp only [Reading.step]
      split
      · rename_i hc
        simp only [Bool.and_eq_true, beq_iff_eq] at hc
        -- only the slash of the closing mark is skipped
        refine reached_skip fun d hd => .inl ?_
        obtain ⟨rest, rfl⟩ := List.head?_eq_some_iff.1 hc.2
        simpa using hd
      · exact reached_comment 0 (.inr rfl) cs
    | quoted q =>
      have hq : isQuote q = true := h.quoted q (.inl rfl)
      simp only [Reading.step]
      split
      · exact reached_text 1 (.inl rfl) hq cs
      split
      · exact reached_code cs
      split
      · exact reached_code cs
      · exact reached_text 0 (.inl rfl) hq cs
    | tripled q =>
      have hq : isQuote q = true := h.quoted q (.inr rfl)
      simp only [Reading.step]
      split
      · exact reached_text 1 (.inr rfl) hq cs
      split
      · rename_i hc
        simp only [Bool.and_eq_true, beq_iff_eq] at hc
        -- only the other two closing quotes are skipped
        refine reached_skip fun d hd => .inr ?_
        rw [hc.2] at hd
        obtain rfl : d = q := by simpa using hd
        exact hq
      · exact reached_text 0 (.inr rfl) hq cs

/-- A step looks at the next character, and at the next two only for quotes. -/
theorem Reading.Reached.step_congr {r : Reading} {c : Char} {next next' : List Char}
    (h : r.Reached (c :: next)) (h₁ : next.head? = next'.head?)
    (h₂ : ∀ q, isQuote q = true → (next.take 2 = [q, q] ↔ next'.take 2 = [q, q])) :
    r.step c next = r.step c next' := by
  obtain ⟨n, region⟩ := r
  cases n with
  | succ n => rfl
  | zero =>
    cases region with
    | code =>
      by_cases hc : isQuote c = true
      · simp only [Reading.step, h₁, beq_iff_eq, h₂ c hc]
      · have hc' : (c == '\'' || c == '"') = false := by simpa [isQuote] using hc
        simp only [Reading.step, h₁, hc', Bool.false_eq_true, if_false]
    | lineComment => rfl
    | blockComment => simp only [Reading.step, h₁]
    | quoted q => rfl
    | tripled q =>
      have hq := h₂ q (h.quoted q (.inr rfl))
      simp only [Reading.step, Bool.and_eq_true, beq_iff_eq, hq]

end UpdaterBootstrap
