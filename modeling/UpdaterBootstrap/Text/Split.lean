/-!
# Splitting text
-/

namespace UpdaterBootstrap

/-- The parts of a text between the separators; always one more than there are separators. -/
def splitOn (separator : Char) : List Char → List (List Char)
  | [] => [[]]
  | c :: cs =>
    if c == separator then [] :: splitOn separator cs
    else match splitOn separator cs with
      | [] => [[c]]
      | part :: parts => (c :: part) :: parts

theorem bne_of_not_mem {c : Char} {cs : List Char} (h : c ∉ cs) : ∀ d ∈ cs, (d != c) = true := by
  intro d hd
  rw [bne_iff_ne]
  rintro rfl
  exact h hd

theorem splitOn_ne_nil (separator : Char) (cs : List Char) : splitOn separator cs ≠ [] := by
  cases cs with
  | nil => exact List.cons_ne_nil _ _
  | cons c cs =>
    unfold splitOn
    split
    · exact List.cons_ne_nil _ _
    · split <;> exact List.cons_ne_nil _ _

theorem splitOn_of_not_mem {separator : Char} {cs : List Char} (h : separator ∉ cs) :
    splitOn separator cs = [cs] := by
  induction cs with
  | nil => rfl
  | cons c cs ih =>
    rw [List.mem_cons, not_or] at h
    unfold splitOn
    rw [if_neg (by simpa using Ne.symm h.1), ih h.2]

theorem splitOn_append (separator : Char) (a b : List Char) :
    splitOn separator (a ++ separator :: b) = splitOn separator a ++ splitOn separator b := by
  induction a with
  | nil => simp [splitOn]
  | cons c a ih =>
    rw [List.cons_append, splitOn, splitOn, ih]
    by_cases hc : c = separator
    · rw [if_pos (by simpa using hc), if_pos (by simpa using hc)]
      rfl
    · rw [if_neg (by simpa using hc), if_neg (by simpa using hc)]
      cases ha : splitOn separator a with
      | nil => exact absurd ha (splitOn_ne_nil separator a)
      | cons part parts => rfl

theorem splitOn_first {separator : Char} {a : List Char} (h : separator ∉ a) (b : List Char) :
    splitOn separator (a ++ separator :: b) = a :: splitOn separator b := by
  rw [splitOn_append, splitOn_of_not_mem h]
  rfl

theorem splitOn_eq (separator : Char) (cs : List Char) : splitOn separator cs = cs.splitOn separator := by
  induction cs with
  | nil => rfl
  | cons c cs ih =>
    rw [splitOn, ih, List.splitOn_eq_splitOnP, List.splitOn_eq_splitOnP, List.splitOnP_cons_eq_if_modifyHead]
    split
    · rfl
    · cases hparts : List.splitOnP (· == separator) cs with
      | nil => exact absurd hparts (List.splitOnP_ne_nil _ cs)
      | cons part parts => rfl

theorem not_mem_of_mem_splitOn {separator : Char} {cs part : List Char} (h : part ∈ splitOn separator cs) :
    separator ∉ part := by
  induction cs generalizing part with
  | nil =>
    rw [splitOn, List.mem_singleton] at h
    simp [h]
  | cons c cs ih =>
    rw [splitOn] at h
    split at h
    · obtain rfl | hrest := List.mem_cons.1 h
      · exact List.not_mem_nil
      · exact ih hrest
    · rename_i hc
      cases hparts : splitOn separator cs with
      | nil => exact absurd hparts (splitOn_ne_nil separator cs)
      | cons first parts =>
        rw [hparts] at h ih
        obtain rfl | hrest := List.mem_cons.1 h
        · rw [List.mem_cons, not_or]
          exact ⟨fun heq => hc (by simp [heq]), ih List.mem_cons_self⟩
        · exact ih (List.mem_cons_of_mem first hrest)

end UpdaterBootstrap
