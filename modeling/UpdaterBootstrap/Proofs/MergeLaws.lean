import UpdaterBootstrap.Proofs.Merging

/-!
# Laws of merging

What lists are merged to is known by its keys and by the entries that give an action last
(`merge_spec`). So lists can be merged in parts, and two of them can be exchanged exactly if they
agree (`merge_laws`).
-/

namespace UpdaterBootstrap

namespace ActionList

/-! ## The action given last -/

/-- In the order of the lists, and of the entries of each, the last entry with the key and the path
gives it this action. -/
def GivesLast (ls : List ActionList) (key : SequenceKey) (path : String) (a : Action) : Prop :=
  ∃ before e after, ls.flatten = before ++ e :: after ∧ e.key = key ∧ e.actions.get? path = some a ∧
    ∀ f ∈ after, f.key = key → f.actions.get? path = none

theorem action?_eq_some_iff {l : ActionList} {key : SequenceKey} {path : String} {a : Action} :
    action? l key path = some a ↔ ∃ before e after, l = before ++ e :: after ∧ e.key = key ∧
      e.actions.get? path = some a ∧ ∀ f ∈ after, f.key = key → f.actions.get? path = none := by
  have gives (e : ActionEntry) : (if e.key = key then e.actions.get? path else none) = some a ↔
      e.key = key ∧ e.actions.get? path = some a := by
    simp
  have silent (f : ActionEntry) : (if f.key = key then f.actions.get? path else none) = none ↔
      (f.key = key → f.actions.get? path = none) := by
    simp
  unfold action?
  rw [List.findSome?_eq_some_iff]
  -- the search runs from the end, so what it has passed is what comes after
  constructor
  · rintro ⟨passed, e, left, hl, he, hpassed⟩
    obtain ⟨hkey, ha⟩ := (gives e).1 he
    refine ⟨left.reverse, e, passed.reverse, ?_, hkey, ha, ?_⟩
    · rw [← List.reverse_reverse l, hl, List.reverse_append, List.reverse_cons, List.append_assoc,
        List.singleton_append]
    · intro f hf
      exact (silent f).1 (hpassed f (List.mem_reverse.1 hf))
  · rintro ⟨before, e, after, rfl, hkey, ha, hafter⟩
    refine ⟨after.reverse, e, before.reverse, ?_, (gives e).2 ⟨hkey, ha⟩, ?_⟩
    · rw [List.reverse_append, List.reverse_cons, List.append_assoc, List.singleton_append]
    · intro f hf
      exact (silent f).2 (hafter f (List.mem_reverse.1 hf))

theorem givesLast_iff {ls : List ActionList} {key : SequenceKey} {path : String} {a : Action} :
    GivesLast ls key path a ↔ action? ls.flatten key path = some a :=
  action?_eq_some_iff.symm

theorem mem_keys_flatten {ls : List ActionList} {key : SequenceKey} :
    key ∈ keys ls.flatten ↔ ∃ l ∈ ls, key ∈ keys l := by
  unfold keys
  rw [List.map_flatten, ← List.flatMap_def, List.mem_flatMap]

/-- In a list with ascending keys every entry holds what is in force under its key. -/
theorem IsAscending.mem_entries {m : ActionList} (h : IsAscending m) {e : ActionEntry} (he : e ∈ m)
    {path : String} {a : Action} : (path, a) ∈ e.actions.entries ↔ action? m e.key path = some a := by
  rw [AscendingMap.mem_entries_iff, (h.mem_iff.1 he).2]

/-- Merging gives nothing exactly if there is no entry. Otherwise it gives the one list that has the
keys of all lists, each once and in ascending order, and under each key the actions given last and
no others. -/
theorem merge_spec (ls : List ActionList) :
    (merge ls = none ↔ ∀ l ∈ ls, l = []) ∧
      ∀ m, merge ls = some m ↔ (∃ l ∈ ls, l ≠ []) ∧ IsAscending m ∧
        (∀ key, key ∈ keys m ↔ ∃ l ∈ ls, key ∈ keys l) ∧
        ∀ e ∈ m, ∀ path a, (path, a) ∈ e.actions.entries ↔ GivesLast ls e.key path a := by
  have hnone : merge ls = none ↔ ∀ l ∈ ls, l = [] := by
    rw [merge_eq_none_iff, List.flatten_eq_nil_iff]
  have hsome : (∃ l ∈ ls, l ≠ []) ↔ merge ls ≠ none := by
    rw [Ne, hnone]
    simp
  refine ⟨hnone, fun m => ⟨fun hm => ?_, ?_⟩⟩
  · have hmerge := isMergeOf_merge hm
    refine ⟨hsome.2 (by rw [hm]; exact nofun), hmerge.ascending, fun key => ?_, fun e he path a => ?_⟩
    · rw [hmerge.keys, mem_keys_flatten]
    · rw [hmerge.ascending.mem_entries he, hmerge.actions, givesLast_iff]
  · rintro ⟨hentry, hascending, hkeys, hactions⟩
    obtain ⟨m', hm'⟩ := Option.ne_none_iff_exists'.1 (hsome.1 hentry)
    have hkeys' : ∀ key, key ∈ keys m ↔ key ∈ keys ls.flatten := by
      intro key
      rw [hkeys, mem_keys_flatten]
    have hactions' : ∀ key path, action? m key path = action? ls.flatten key path := by
      intro key path
      by_cases hkey : key ∈ keys m
      · obtain ⟨e, he, rfl⟩ := List.mem_map.1 hkey
        refine Option.ext fun a => ?_
        rw [← hascending.mem_entries he, hactions e he, givesLast_iff]
      · rw [action?_eq_none hkey, action?_eq_none fun h => hkey ((hkeys' key).2 h)]
    -- only one list has these keys in order and these actions
    have hm : IsMergeOf m ls.flatten := ⟨hascending, hkeys', hactions'⟩
    rw [hm', hm.unique (isMergeOf_merge hm') (fun _ => Iff.rfl) fun _ _ => rfl]

/-! ## Merging in parts -/

theorem merge_flatten (parts : List (List ActionList)) : merge parts.flatten = merge (parts.map merged) := by
  refine merge_congr (fun key => ?_) fun key path => ?_
  · induction parts with
    | nil => exact Iff.rfl
    | cons part parts ih =>
      simp only [List.flatten_cons, List.flatten_append, List.map_cons, keys_append, List.mem_append, ih,
        mem_keys_merged]
  · induction parts with
    | nil => rfl
    | cons part parts ih =>
      simp only [List.flatten_cons, List.flatten_append, List.map_cons, action?_append, ih, action?_merged]

theorem merge_twice (l : ActionList) : merge [l, l] = merge [l] := by
  refine merge_congr (fun key => ?_) fun key path => ?_
  · simp
  · simp [action?_append]

def Agree (l l' : ActionList) : Prop :=
  ∀ key path a a', action? l key path = some a → action? l' key path = some a' → a = a'

theorem Agree.action?_append_comm {l l' : ActionList} (h : Agree l l') (key : SequenceKey) (path : String) :
    action? (l ++ l') key path = action? (l' ++ l) key path := by
  rw [action?_append, action?_append]
  cases hl : action? l key path with
  | none => rw [Option.or_none, Option.none_or]
  | some a =>
    cases hl' : action? l' key path with
    | none => rfl
    | some a' => rw [h key path a a' hl hl']

/-- Lists may be exchanged wherever they stand if they agree, and only then. -/
theorem agree_iff_exchange (l l' : ActionList) :
    Agree l l' ↔ ∀ before after, merge (before ++ l :: l' :: after) = merge (before ++ l' :: l :: after) := by
  constructor
  · intro h before after
    refine merge_congr (fun key => ?_) fun key path => ?_
    · simp only [List.flatten_append, List.flatten_cons, keys_append, List.mem_append]
      exact or_congr_right or_left_comm
    · have hexchange := h.action?_append_comm key path
      simp only [List.flatten_append, List.flatten_cons]
      rw [← List.append_assoc l, ← List.append_assoc l']
      simp only [action?_append before.flatten, action?_append _ after.flatten, hexchange]
  · intro h key path a a' ha ha'
    have hactions (ls : List ActionList) := action?_merged ls key path
    have hpair := hactions [l, l']
    have hexchanged := hactions [l', l]
    have hmerged : merged [l, l'] = merged [l', l] := congrArg (·.getD []) (h [] [])
    rw [hmerged, hexchanged] at hpair
    simp only [List.flatten_cons, List.flatten_nil, List.append_nil, action?_append, ha, ha',
      Option.or_some] at hpair
    exact Option.some.inj hpair

/-- Lists can be merged in parts, a merged list stays as it is when it is merged alone or with
itself, and two neighbours can be exchanged exactly if they agree. -/
theorem merge_laws (xs ys : List ActionList) (l l' : ActionList) :
    merge (xs ++ ys) = merge [merged xs, merged ys] ∧
      merge [merged xs] = merge xs ∧ merge [merged xs, merged xs] = merge xs ∧
      (Agree l l' ↔ ∀ before after, merge (before ++ l :: l' :: after) =
        merge (before ++ l' :: l :: after)) := by
  have halone : merge [merged xs] = merge xs := by
    simpa using (merge_flatten [xs]).symm
  refine ⟨?_, halone, ?_, agree_iff_exchange l l'⟩
  · simpa using merge_flatten [xs, ys]
  · rw [merge_twice, halone]

end ActionList

end UpdaterBootstrap
