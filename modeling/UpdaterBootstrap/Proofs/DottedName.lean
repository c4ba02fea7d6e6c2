import UpdaterBootstrap.Proofs.Captured
import UpdaterBootstrap.Text.Split

/-!
# Dotted names

A dotted name is a chain of identifiers. What the scan takes for one is the longest that a text
begins with, and the parser reads it back from its tokens.
-/

namespace UpdaterBootstrap

def IsDottedName (name : List Char) : Prop :=
  ∃ w ws, name = joinDots (w :: ws) ∧ ∀ v ∈ w :: ws, isWord v = true

structure IsLongestName (name cs : List Char) : Prop where
  dotted : IsDottedName name
  begins : name <+: cs
  longest : ∀ other, IsDottedName other → other <+: cs → other.length ≤ name.length

/-! ## What is taken is a dotted name -/

theorem cons_joinDots (c : Char) (w : List Char) (ws : List (List Char)) :
    c :: joinDots (w :: ws) = joinDots ((c :: w) :: ws) := by
  cases ws <;> rfl

/-- The rest of a dotted name ends the identifier it is in, and then come whole ones. -/
theorem exists_dottedRest (cs : List Char) : ∃ part ws, dottedRest cs = joinDots (part :: ws) ∧
    (∀ c ∈ part, isIdentPart c = true) ∧ ∀ w ∈ ws, isWord w = true := by
  induction cs with
  | nil => exact ⟨[], [], rfl, nofun, nofun⟩
  | cons c cs ih =>
    obtain ⟨part, ws, heq, hpart, hws⟩ := ih
    rw [dottedRest]
    split
    · rename_i hc
      rw [heq]
      by_cases hident : isIdentPart c = true
      · exact ⟨c :: part, ws, cons_joinDots c part ws, List.forall_mem_cons.2 ⟨hident, hpart⟩, hws⟩
      -- a point, and the identifier after it is not empty
      · obtain ⟨rfl, hnext⟩ : c = '.' ∧ cs.head?.any isIdentStart = true := by simpa [hident] using hc
        refine ⟨[], part :: ws, rfl, nofun, List.forall_mem_cons.2 ⟨?_, hws⟩⟩
        cases cs with
        | nil => cases hnext
        | cons d ds =>
          have hd : isIdentStart d = true := hnext
          have hpoint : d ≠ '.' := ne_of_class hd (by decide)
          rw [dottedRest, isIdentPart_of_isIdentStart hd, Bool.true_or, if_pos rfl] at heq
          cases part with
          | nil =>
            cases ws with
            | nil => cases heq
            | cons w ws => exact absurd (List.cons.inj heq).1 hpoint
          | cons e part =>
            rw [← cons_joinDots] at heq
            obtain ⟨rfl, _⟩ := List.cons.inj heq
            exact isWord_cons.2 ⟨hd, (List.forall_mem_cons.1 hpart).2⟩
    · exact ⟨[], [], rfl, nofun, nofun⟩

theorem isDottedName_dottedName {cs : List Char} (h : dottedName cs ≠ []) : IsDottedName (dottedName cs) := by
  cases cs with
  | nil => exact absurd rfl h
  | cons c cs =>
    rw [dottedName] at h ⊢
    split at h
    · rename_i hc
      obtain ⟨part, ws, heq, hpart, hws⟩ := exists_dottedRest cs
      rw [if_pos hc, heq]
      exact ⟨c :: part, ws, cons_joinDots c part ws,
        List.forall_mem_cons.2 ⟨isWord_cons.2 ⟨hc, hpart⟩, hws⟩⟩
    · exact absurd rfl h

theorem IsDottedName.ne_nil {name : List Char} (h : IsDottedName name) : name ≠ [] := by
  obtain ⟨w, ws, rfl, hw⟩ := h
  obtain ⟨hw, _⟩ := List.forall_mem_cons.1 hw
  cases w with
  | nil => cases hw
  | cons c w =>
    rw [← cons_joinDots]
    exact List.cons_ne_nil c _

/-! ## No longer one is there -/

theorem dottedRest_part {part : List Char} (h : ∀ c ∈ part, isIdentPart c = true) (rest : List Char) :
    dottedRest (part ++ rest) = part ++ dottedRest rest := by
  induction part with
  | nil => rfl
  | cons c part ih =>
    obtain ⟨hc, hpart⟩ := List.forall_mem_cons.1 h
    rw [List.cons_append, dottedRest, hc, Bool.true_or, if_pos rfl, ih hpart, List.cons_append]

theorem dottedRest_joinDots {part : List Char} {ws : List (List Char)}
    (hpart : ∀ c ∈ part, isIdentPart c = true) (hws : ∀ w ∈ ws, isWord w = true) (rest : List Char) :
    dottedRest (joinDots (part :: ws) ++ rest) = joinDots (part :: ws) ++ dottedRest rest := by
  induction ws generalizing part with
  | nil => exact dottedRest_part hpart rest
  | cons w ws ih =>
    obtain ⟨hw, hws⟩ := List.forall_mem_cons.1 hws
    have hlater := ih (isIdentPart_of_isWord hw) hws
    have hpoint : dottedRest ('.' :: (joinDots (w :: ws) ++ rest)) =
        '.' :: dottedRest (joinDots (w :: ws) ++ rest) := by
      cases w with
      | nil => cases hw
      | cons d w =>
        rw [dottedRest, ← cons_joinDots, List.cons_append, List.head?_cons, Option.any_some,
          (isWord_cons.1 hw).1]
        rfl
    have hjoin : joinDots (part :: w :: ws) = part ++ '.' :: joinDots (w :: ws) := rfl
    rw [hjoin, List.append_assoc, dottedRest_part hpart, List.cons_append, hpoint, hlater, List.append_assoc,
      List.cons_append]

theorem IsDottedName.dottedName_append {name : List Char} (h : IsDottedName name) (rest : List Char) :
    dottedName (name ++ rest) = name ++ dottedRest rest := by
  obtain ⟨w, ws, rfl, hw⟩ := h
  obtain ⟨hw, hws⟩ := List.forall_mem_cons.1 hw
  cases w with
  | nil => cases hw
  | cons c w =>
    obtain ⟨hc, hpart⟩ := isWord_cons.1 hw
    rw [← cons_joinDots, List.cons_append, dottedName, if_pos hc, dottedRest_joinDots hpart hws,
      List.cons_append]

theorem isLongestName_iff {name cs : List Char} :
    IsLongestName name cs ↔ dottedName cs = name ∧ name ≠ [] := by
  constructor
  · rintro ⟨hdotted, ⟨rest, rfl⟩, hlongest⟩
    refine ⟨?_, hdotted.ne_nil⟩
    have heq := hdotted.dottedName_append rest
    have hle :=
      hlongest _ (isDottedName_dottedName (by rw [heq]; simp [hdotted.ne_nil])) (dottedName_isPrefix _)
    rw [heq, List.length_append] at hle
    have hrest : dottedRest rest = [] := List.eq_nil_of_length_eq_zero (by omega)
    rw [heq, hrest, List.append_nil]
  · rintro ⟨rfl, hne⟩
    refine ⟨isDottedName_dottedName hne, dottedName_isPrefix cs, ?_⟩
    rintro other hother ⟨rest, rfl⟩
    rw [hother.dottedName_append, List.length_append]
    exact Nat.le_add_right _ _

theorem IsDottedName.dottedName_eq {name : List Char} (h : IsDottedName name) : dottedName name = name := by
  have := h.dottedName_append []
  rwa [List.append_nil, dottedRest, List.append_nil] at this

instance (name : List Char) : Decidable (IsDottedName name) :=
  decidable_of_iff (dottedName name = name ∧ name ≠ []) <| by
    constructor
    · rintro ⟨heq, hne⟩
      have := isDottedName_dottedName (heq.symm ▸ hne)
      rwa [heq] at this
    · intro h
      exact ⟨h.dottedName_eq, h.ne_nil⟩

/-! ## The tokens of a name -/

def firstSegment (name : List Char) : List Char :=
  name.takeWhile (· != '.')

def nameTokens (line : Nat) (name : String) : List Placed :=
  dottedTokens line (splitOn '.' name.toList)

theorem point_not_mem_word {w : List Char} (h : isWord w = true) : '.' ∉ w := by
  intro hmem
  have := isIdentPart_of_isWord h '.' hmem
  revert this
  decide

theorem IsDottedName.exists_words {name : List Char} (h : IsDottedName name) :
    ∃ w ws, name = joinDots (w :: ws) ∧ splitOn '.' name = w :: ws ∧ firstSegment name = w ∧
      ∀ v ∈ w :: ws, isWord v = true := by
  obtain ⟨w, ws, rfl, hw⟩ := h
  refine ⟨w, ws, rfl, ?_, ?_, hw⟩
  · induction ws generalizing w with
    | nil => exact splitOn_of_not_mem (point_not_mem_word (hw w (by simp)))
    | cons v ws ih =>
      obtain ⟨hfirst, hws⟩ := List.forall_mem_cons.1 hw
      have hjoin : joinDots (w :: v :: ws) = w ++ '.' :: joinDots (v :: ws) := rfl
      rw [hjoin, splitOn_first (point_not_mem_word hfirst), ih v hws]
  · have hpoint := bne_of_not_mem (point_not_mem_word (hw w (by simp)))
    cases ws with
    | nil =>
      have := takeWhile_append_of_ends hpoint (show ∀ c, [].head? = some c → (c != '.') = false from nofun)
      rwa [List.append_nil] at this
    | cons v ws => exact takeWhile_append_of_ends hpoint (by simp)

theorem reads_name (line : Nat) {name : String} (h : IsDottedName name.toList) {rest : List Char}
    (hr : EndsWord rest) :
    Reads line name.toList (nameTokens line name) line rest := by
  obtain ⟨w, ws, hname, hsplit, _, hw⟩ := h.exists_words
  rw [nameTokens, hsplit, hname]
  exact reads_dotted line hw hr

theorem readDottedName_name (line : Nat) {name : String} (h : IsDottedName name.toList) {ts : List Placed}
    (he : readSegments ts = ("", ts)) : readDottedName (nameTokens line name ++ ts) = .ok (name, ts) := by
  obtain ⟨w, ws, hname, hsplit, _⟩ := h.exists_words
  have := readDottedName_dotted line he w ws
  rwa [← hname, String.ofList_toList, ← hsplit] at this

theorem nameTokens_eq (line : Nat) {name : String} (h : IsDottedName name.toList) :
    ∃ ts, nameTokens line name = ⟨.word (.ofList (firstSegment name.toList)), line⟩ :: ts := by
  obtain ⟨w, ws, _, hsplit, hfirst, _⟩ := h.exists_words
  rw [nameTokens, hsplit, hfirst]
  cases ws <;> exact ⟨_, rfl⟩

end UpdaterBootstrap
