import UpdaterBootstrap.Proofs.Merging

/-!
# Inserted actions

An action is inserted into the first entry with its key, and merging lets the last entry count. So
an insertion is merged like an entry of its own at the end of the list exactly if no further entry
with the key gives the path another action (`merge_insert_iff`).
-/

namespace UpdaterBootstrap

namespace ActionList

def afterFirst (key : SequenceKey) : ActionList → ActionList
  | [] => []
  | e :: es => if e.key = key then es else afterFirst key es

variable {key key' : SequenceKey} {path path' : String} {a : Action} {l : ActionList}

theorem not_mem_keys_afterFirst (h : (keys l).Nodup) : key ∉ keys (afterFirst key l) := by
  induction l with
  | nil => simp [afterFirst]
  | cons e l ih =>
    rw [keys_cons, List.nodup_cons] at h
    unfold afterFirst
    by_cases hkey : e.key = key
    · rw [if_pos hkey, ← hkey]
      exact h.1
    · rw [if_neg hkey]
      exact ih h.2

theorem mem_keys_insert : key' ∈ keys (insert key path a l) ↔ key' = key ∨ key' ∈ keys l := by
  induction l with
  | nil => simp [insert]
  | cons e l ih =>
    unfold insert
    by_cases hkey : e.key = key
    · simp [hkey]
    · simp [hkey, ih, or_left_comm]

/-- What comes after the first entry with the key still comes after the inserted action. -/
theorem action?_insert_self :
    action? (insert key path a l) key path = some ((action? (afterFirst key l) key path).getD a) := by
  induction l with
  | nil => simp [insert, afterFirst, AscendingMap.get?_insert, action?]
  | cons e l ih =>
    unfold insert afterFirst
    by_cases hkey : e.key = key
    · rw [if_pos hkey, if_pos hkey, action?_cons]
      simp only [hkey, if_true, AscendingMap.get?_insert]
      cases action? l key path <;> rfl
    · rw [if_neg hkey, if_neg hkey, action?_cons, ih]
      rfl

theorem action?_insert_ne (h : (key', path') ≠ (key, path)) :
    action? (insert key path a l) key' path' = action? l key' path' := by
  have hentry (e : ActionEntry) (he : e.key = key) :
      (if e.key = key' then (e.actions.insert path a).get? path' else none) =
        if e.key = key' then e.actions.get? path' else none := by
    split
    · rename_i hkey
      have hpath : path' ≠ path := by
        intro hpath
        apply h
        rw [← hkey, he, hpath]
      rw [AscendingMap.get?_insert, if_neg hpath]
    · rfl
  induction l with
  | nil =>
    have hempty := hentry ⟨key, .empty⟩ rfl
    rw [insert, action?_single, hempty]
    simp [AscendingMap.get?_empty, action?]
  | cons e l ih =>
    unfold insert
    by_cases hkey : e.key = key
    · rw [if_pos hkey, action?_cons, action?_cons, hentry e hkey]
    · rw [if_neg hkey, action?_cons, action?_cons, ih]

/-- In the list with a further entry at the end, that one gives the path its action. -/
theorem action?_append_single :
    action? (l ++ [⟨key, AscendingMap.empty.insert path a⟩]) key' path' =
      if (key', path') = (key, path) then some a else action? l key' path' := by
  rw [action?_append, action?_single]
  by_cases hkey : key = key'
  · by_cases hpath : path' = path
    · simp [hkey, hpath, AscendingMap.get?_insert]
    · simp [hkey, hpath, AscendingMap.get?_insert, AscendingMap.get?_empty]
  · simp [hkey, Ne.symm hkey]

theorem merge_insert_eq_iff :
    merge [insert key path a l] = merge [l, [⟨key, AscendingMap.empty.insert path a⟩]] ↔
      (action? (afterFirst key l) key path).getD a = a := by
  have hself : [insert key path a l].flatten = insert key path a l := by simp
  have hflat : [l, [⟨key, AscendingMap.empty.insert path a⟩]].flatten = l ++
      [⟨key, AscendingMap.empty.insert path a⟩] := by
    simp
  constructor
  · intro heq
    -- both sides are compared at the one key and path that was inserted
    have hforce := congrArg (fun m => action? (m.getD []) key path) heq
    have hleft := action?_merged [insert key path a l] key path
    have hright := action?_merged [l, [⟨key, AscendingMap.empty.insert path a⟩]] key path
    rw [hself, action?_insert_self] at hleft
    rw [hflat, action?_append_single, if_pos rfl] at hright
    exact Option.some.inj (hleft.symm.trans (hforce.trans hright))
  · intro hforce
    apply merge_congr
    · intro key'
      rw [hself, hflat, mem_keys_insert]
      simp [or_comm]
    · intro key' path'
      rw [hself, hflat, action?_append_single]
      by_cases h : (key', path') = (key, path)
      · obtain ⟨rfl, rfl⟩ := Prod.mk.inj h
        rw [if_pos rfl, action?_insert_self, hforce]
      · rw [if_neg h, action?_insert_ne h]

/-- After an insertion the action in force is the one that the entries behind the first with the key
give, or the inserted one if they give none, and all other actions stay. So it is merged like an
entry of its own at the end of the list exactly if the inserted action is in force, as in any list
that does not repeat its keys. -/
theorem merge_insert_iff (l : ActionList) (key : SequenceKey) (path : String) (a : Action) :
    (merge [insert key path a l] = merge [l, [⟨key, AscendingMap.empty.insert path a⟩]] ↔
      (action? (afterFirst key l) key path).getD a = a) ∧
    ((keys l).Nodup →
      merge [insert key path a l] = merge [l, [⟨key, AscendingMap.empty.insert path a⟩]]) ∧
    ∃ m, merge [insert key path a l] = some m ∧
      (∀ key', key' ∈ keys m ↔ key' = key ∨ key' ∈ keys l) ∧
      action? m key path = some ((action? (afterFirst key l) key path).getD a) ∧
      ∀ key' path', (key', path') ≠ (key, path) → action? m key' path' = action? l key' path' := by
  refine ⟨merge_insert_eq_iff, ?_, ?_⟩
  · intro hnodup
    rw [merge_insert_eq_iff, action?_eq_none (not_mem_keys_afterFirst hnodup)]
    rfl
  · have hself : [insert key path a l].flatten = insert key path a l := by simp
    cases hm : merge [insert key path a l] with
    | none =>
      have hmem : key ∈ keys (insert key path a l) := mem_keys_insert.2 (.inl rfl)
      rw [← hself, merge_eq_none_iff.1 hm] at hmem
      cases hmem
    | some m =>
      have hmerge := isMergeOf_merge hm
      rw [hself] at hmerge
      refine ⟨m, rfl, fun key' => ?_, ?_, fun key' path' h => ?_⟩
      · rw [hmerge.keys, mem_keys_insert]
      · rw [hmerge.actions, action?_insert_self]
      · rw [hmerge.actions, action?_insert_ne h]

theorem merge_insert_iff_distinct :
    let l : ActionList :=
      [⟨.default, AscendingMap.empty.insert "/a" .reload⟩, ⟨.zero, AscendingMap.empty.insert "/a" .reload⟩]
    (keys l).Nodup ∧ merge [insert .default "/a" ⟨"delete"⟩ l] =
      merge [l, [⟨.default, AscendingMap.empty.insert "/a" ⟨"delete"⟩⟩]] := by
  intro l
  have hnodup : (keys l).Nodup := by decide +kernel
  exact ⟨hnodup, (merge_insert_iff l .default "/a" ⟨"delete"⟩).2.1 hnodup⟩

/-- Where the key is repeated, an entry further back can win over what has been inserted. -/
theorem merge_insert_hidden :
    let l : ActionList := [⟨.default, AscendingMap.empty.insert "/a" .reload⟩,
      ⟨.default, AscendingMap.empty.insert "/a" ⟨"delete"⟩⟩]
    merge [insert .default "/a" ⟨"append"⟩ l] ≠ merge
      [l, [⟨.default, AscendingMap.empty.insert "/a" ⟨"append"⟩⟩]] ∧
      action? (merged [insert .default "/a" ⟨"append"⟩ l]) .default "/a" = some ⟨"delete"⟩ := by
  decide +kernel

end ActionList

end UpdaterBootstrap
