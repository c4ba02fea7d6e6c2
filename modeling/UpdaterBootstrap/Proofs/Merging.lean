import UpdaterBootstrap.Manifest.ActionList
import UpdaterBootstrap.Proofs.Lookup

/-!
# Merged action lists

A merged list has one entry for each key, in ascending order, and holds under each key and path the
action given last (`isMergeOf_merge`). There is one such list only (`IsMergeOf.unique`), so a list
that has been merged is left as it is when it is merged between the same lists again.
-/

namespace UpdaterBootstrap

/-! ## The order of keys -/

namespace SequenceKey

theorem toBits_injective {a b : SequenceKey} (h : a.value.toBits = b.value.toBits) : a = b := by
  obtain ⟨⟨⟨x, hx⟩⟩, ha, hza⟩ := a
  obtain ⟨⟨⟨y, hy⟩⟩, hb, hzb⟩ := b
  obtain rfl : x = y := h
  rfl

/-- Two keys with the same rank have the same sign: only zero is its own negative, and there is one
zero. -/
theorem rank_injective {a b : SequenceKey} (h : a.rank = b.rank) : a = b := by
  have hza := a.not_negative_zero
  have hzb := b.not_negative_zero
  refine toBits_injective ?_
  rw [← UInt64.toNat_inj]
  rw [Ne, ← UInt64.toNat_inj] at hza hzb
  have hlta := a.value.toBits.toNat_lt
  have hltb := b.value.toBits.toNat_lt
  have hzero : (0x8000000000000000 : UInt64).toNat = 2 ^ 63 := rfl
  rw [hzero] at hza hzb
  simp only [rank, Binary64.signBit, beq_iff_eq, Nat.pow_eq] at h
  split at h <;> split at h <;> omega

end SequenceKey

instance : KeyOrder SequenceKey where
  irrefl a := Int.lt_irrefl a.rank
  trans h h' := Int.lt_trans h h'
  connected {a b} h hne := by
    have hle : b.rank ≤ a.rank := Int.not_lt.1 h
    have hrank : b.rank ≠ a.rank := fun e => hne (SequenceKey.rank_injective e.symm)
    change b.rank < a.rank
    omega

namespace ActionList

/-! ## What holds under a key and a path -/

def keys (l : ActionList) : List SequenceKey :=
  l.map ActionEntry.key

def action? (l : ActionList) (key : SequenceKey) (path : String) : Option Action :=
  l.reverse.findSome? fun e => if e.key = key then e.actions.get? path else none

@[simp] theorem keys_nil : keys [] = [] := rfl

@[simp] theorem keys_cons (e : ActionEntry) (l : ActionList) : keys (e :: l) = e.key :: keys l := rfl

@[simp] theorem keys_append (l l' : ActionList) : keys (l ++ l') = keys l ++ keys l' :=
  List.map_append

theorem keys_eq_nil {l : ActionList} : keys l = [] ↔ l = [] :=
  List.map_eq_nil_iff

theorem action?_append (l l' : ActionList) (key : SequenceKey) (path : String) :
    action? (l ++ l') key path = (action? l' key path).or (action? l key path) := by
  unfold action?
  rw [List.reverse_append, List.findSome?_append]

theorem action?_single (e : ActionEntry) (key : SequenceKey) (path : String) :
    action? [e] key path = if e.key = key then e.actions.get? path else none := by
  unfold action?
  rw [List.reverse_singleton, List.findSome?_singleton]

theorem action?_cons (e : ActionEntry) (l : ActionList) (key : SequenceKey) (path : String) :
    action? (e :: l) key path =
      (action? l key path).or (if e.key = key then e.actions.get? path else none) := by
  rw [← List.singleton_append, action?_append, action?_single]

theorem action?_eq_none {l : ActionList} {key : SequenceKey} (h : key ∉ keys l) (path : String) :
    action? l key path = none := by
  induction l with
  | nil => rfl
  | cons e l ih =>
    rw [keys_cons, List.mem_cons, not_or] at h
    rw [action?_cons, ih h.2, if_neg (Ne.symm h.1)]
    rfl

/-! ## Adding an entry -/

def IsAscending (l : ActionList) : Prop :=
  l.Pairwise fun e f => e.key < f.key

theorem IsAscending.not_mem_keys {e : ActionEntry} {l : ActionList} (h : IsAscending (e :: l)) :
    e.key ∉ keys l := by
  intro hmem
  obtain ⟨f, hf, hkey⟩ := List.mem_map.1 hmem
  have hlt : e.key < f.key := (List.pairwise_cons.1 h).1 f hf
  rw [hkey] at hlt
  exact KeyOrder.irrefl _ hlt

theorem mem_keys_mergeEntry {l : ActionList} {e : ActionEntry} {key : SequenceKey} :
    key ∈ keys (mergeEntry l e) ↔ key ∈ keys (l ++ [e]) := by
  induction l with
  | nil => rfl
  | cons f l ih =>
    unfold mergeEntry
    split
    · simp only [keys_append, keys_cons, keys_nil, List.cons_append, List.mem_cons, List.mem_append,
        List.not_mem_nil, or_false]
      rw [or_comm, or_assoc]
    split
    · rename_i heq
      simp only [keys_append, keys_cons, keys_nil, List.cons_append, List.mem_cons, List.mem_append,
        List.not_mem_nil, or_false, heq]
      rw [or_comm, or_comm (a := key ∈ keys l), ← or_assoc, or_self]
    · rw [keys_cons, List.mem_cons, ih, List.cons_append, keys_cons, List.mem_cons]

theorem IsAscending.mergeEntry {l : ActionList} (h : IsAscending l) (e : ActionEntry) :
    IsAscending (mergeEntry l e) := by
  induction l with
  | nil => exact List.pairwise_singleton _ _
  | cons f l ih =>
    obtain ⟨hf, hl⟩ := List.pairwise_cons.1 h
    unfold ActionList.mergeEntry
    split
    · rename_i hlt
      refine List.pairwise_cons.2 ⟨fun g hg => ?_, h⟩
      rcases List.mem_cons.1 hg with rfl | hg
      · exact hlt
      · exact KeyOrder.trans hlt (hf g hg)
    split
    · exact List.pairwise_cons.2 ⟨hf, hl⟩
    · rename_i hlt hne
      refine List.pairwise_cons.2 ⟨fun g hg => ?_, ih hl⟩
      have hkey : g.key ∈ keys (l ++ [e]) := mem_keys_mergeEntry.1 (List.mem_map_of_mem hg)
      rw [keys_append, List.mem_append] at hkey
      rcases hkey with hkey | hkey
      · obtain ⟨g', hg', hkey⟩ := List.mem_map.1 hkey
        rw [← hkey]
        exact hf g' hg'
      · rw [List.mem_singleton.1 hkey]
        exact KeyOrder.connected hlt hne

theorem action?_mergeEntry {l : ActionList} (h : IsAscending l) (e : ActionEntry) (key : SequenceKey)
    (path : String) :
    action? (mergeEntry l e) key path = action? (l ++ [e]) key path := by
  induction l with
  | nil => rfl
  | cons f l ih =>
    unfold mergeEntry
    rw [action?_append, action?_single]
    split
    · rename_i hlt
      have hnone : e.key ∉ keys (f :: l) := IsAscending.not_mem_keys (List.pairwise_cons.2 ⟨fun g hg => by
        rcases List.mem_cons.1 hg with rfl | hg
        · exact hlt
        · exact KeyOrder.trans hlt ((List.pairwise_cons.1 h).1 g hg), h⟩)
      rw [action?_cons]
      by_cases hkey : e.key = key
      · rw [if_pos hkey, action?_eq_none (hkey ▸ hnone), Option.none_or, Option.or_none]
      · rw [if_neg hkey, Option.none_or, Option.or_none]
    split
    · rename_i heq
      rw [action?_cons, action?_cons, heq]
      by_cases hkey : f.key = key
      · rw [if_pos hkey, if_pos hkey, if_pos hkey, action?_eq_none (hkey ▸ h.not_mem_keys), Option.none_or,
          Option.none_or]
        exact AscendingMap.get?_insertAll f.actions e.actions path
      · rw [if_neg hkey, if_neg hkey, if_neg hkey, Option.none_or]
    · rw [action?_cons, ih (List.pairwise_cons.1 h).2, action?_append, action?_single, action?_cons,
        Option.or_assoc]

/-! ## Merging lists -/

/-- `m` has the keys of `l` in ascending order, each once, and the same actions in force. -/
structure IsMergeOf (m l : ActionList) : Prop where
  ascending : IsAscending m
  keys : ∀ key, key ∈ keys m ↔ key ∈ keys l
  actions : ∀ key path, action? m key path = action? l key path

theorem IsMergeOf.mergeEntry {m l : ActionList} (h : IsMergeOf m l) (e : ActionEntry) :
    IsMergeOf (mergeEntry m e) (l ++ [e]) := by
  refine ⟨h.ascending.mergeEntry e, fun key => ?_, fun key path => ?_⟩
  · rw [mem_keys_mergeEntry, keys_append, keys_append, List.mem_append, List.mem_append, h.keys]
  · rw [action?_mergeEntry h.ascending, action?_append, action?_append, h.actions]

theorem IsMergeOf.foldl {m l : ActionList} (h : IsMergeOf m l) (es : ActionList) :
    IsMergeOf (es.foldl ActionList.mergeEntry m) (l ++ es) := by
  induction es generalizing m l with
  | nil => rwa [List.append_nil]
  | cons e es ih =>
    have := ih (h.mergeEntry e)
    rwa [List.append_assoc] at this

theorem merge_eq_none_iff {ls : List ActionList} : merge ls = none ↔ ls.flatten = [] := by
  unfold merge
  dsimp only
  split
  · rename_i h
    exact ⟨fun _ => List.isEmpty_iff.1 h, fun _ => rfl⟩
  · rename_i h
    exact ⟨nofun, fun h' => absurd (List.isEmpty_iff.2 h') h⟩

theorem isMergeOf_merge {ls : List ActionList} {m : ActionList} (h : merge ls = some m) :
    IsMergeOf m ls.flatten := by
  unfold merge at h
  dsimp only at h
  split at h
  · cases h
  · rw [← Option.some.inj h]
    exact IsMergeOf.foldl ⟨.nil, fun _ => Iff.rfl, fun _ _ => rfl⟩ ls.flatten

/-! ## There is one merged list -/

theorem IsAscending.mem_iff {l : ActionList} (h : IsAscending l) {e : ActionEntry} :
    e ∈ l ↔ e.key ∈ keys l ∧ ∀ path, action? l e.key path = e.actions.get? path := by
  have found {f : ActionEntry} (hf : f ∈ l) (path : String) : action? l f.key path = f.actions.get? path := by
    induction l with
    | nil => cases hf
    | cons g l ih =>
      rw [action?_cons]
      rcases List.mem_cons.1 hf with rfl | hf
      · rw [action?_eq_none h.not_mem_keys, if_pos rfl, Option.none_or]
      · have hne : g.key ≠ f.key := by
          intro heq
          exact h.not_mem_keys (heq ▸ List.mem_map_of_mem hf)
        rw [if_neg hne, Option.or_none]
        exact ih (List.pairwise_cons.1 h).2 hf
  constructor
  · intro he
    exact ⟨List.mem_map_of_mem he, found he⟩
  · rintro ⟨hkey, hactions⟩
    obtain ⟨f, hf, hfe⟩ := List.mem_map.1 hkey
    -- maps in ascending order are given by what is looked up in them
    have hmap : f.actions = e.actions := AscendingMap.ext_get? fun path => by
      rw [← found hf, hfe, hactions]
    obtain ⟨key, actions⟩ := e
    obtain ⟨key', actions'⟩ := f
    obtain rfl : key' = key := hfe
    obtain rfl : actions' = actions := hmap
    exact hf

theorem IsMergeOf.unique {m m' l l' : ActionList} (h : IsMergeOf m l) (h' : IsMergeOf m' l')
    (hkeys : ∀ key, key ∈ ActionList.keys l ↔ key ∈ ActionList.keys l')
    (hactions : ∀ key path, action? l key path = action? l' key path) : m = m' := by
  refine eq_of_ascending (r := fun e f : ActionEntry => e.key < f.key) (fun e => KeyOrder.irrefl e.key)
    (fun h h' => KeyOrder.trans h h') h.ascending h'.ascending fun e => ?_
  rw [h.ascending.mem_iff, h'.ascending.mem_iff, h.keys, h'.keys, hkeys]
  simp only [h.actions, h'.actions, hactions]

/-- Lists with the same keys and the same actions in force are merged to the same. -/
theorem merge_congr {ls ls' : List ActionList}
    (hkeys : ∀ key, key ∈ keys ls.flatten ↔ key ∈ keys ls'.flatten)
    (hactions : ∀ key path, action? ls.flatten key path = action? ls'.flatten key path) :
    merge ls = merge ls' := by
  have nothing {l l' : ActionList} (h : ∀ key, key ∈ keys l ↔ key ∈ keys l') (hl : l = []) : l' = [] := by
    refine keys_eq_nil.1 (List.eq_nil_iff_forall_not_mem.2 fun key hkey => ?_)
    have hmem : key ∈ keys l := (h key).2 hkey
    rw [hl] at hmem
    cases hmem
  cases hm : merge ls with
  | none => exact (merge_eq_none_iff.2 (nothing hkeys (merge_eq_none_iff.1 hm))).symm
  | some m =>
    cases hm' : merge ls' with
    | none =>
      rw [merge_eq_none_iff.2 (nothing (fun key => (hkeys key).symm) (merge_eq_none_iff.1 hm'))] at hm
      cases hm
    | some m' => exact congrArg some ((isMergeOf_merge hm).unique (isMergeOf_merge hm') hkeys hactions)

/-- The merged list; nothing to merge counts as the empty list. -/
def merged (ls : List ActionList) : ActionList :=
  (merge ls).getD []

theorem mem_keys_merged {ls : List ActionList} {key : SequenceKey} :
    key ∈ keys (merged ls) ↔ key ∈ keys ls.flatten := by
  unfold merged
  cases hm : merge ls with
  | none => rw [merge_eq_none_iff.1 hm, Option.getD_none]
  | some m => exact (isMergeOf_merge hm).keys key

theorem action?_merged (ls : List ActionList) (key : SequenceKey) (path : String) :
    action? (merged ls) key path = action? ls.flatten key path := by
  unfold merged
  cases hm : merge ls with
  | none => rw [merge_eq_none_iff.1 hm, Option.getD_none]
  | some m => exact (isMergeOf_merge hm).actions key path

/-- Merging the result again between the same lists gives the same. -/
theorem merge_absorb {first middle last m : ActionList} (h : merge [first, middle, last] = some m) :
    merge [first, m, last] = some m := by
  have hm : m = merged [first, middle, last] := by rw [merged, h, Option.getD_some]
  refine Eq.trans (merge_congr (fun key => ?_) fun key path => ?_) h
  · have hkeys : key ∈ keys m ↔ key ∈ keys [first, middle, last].flatten := hm ▸ mem_keys_merged
    simp only [List.flatten_cons, List.flatten_nil, List.append_nil, keys_append, List.mem_append] at hkeys ⊢
    rw [hkeys]
    grind
  · have haction : action? m key path = action? [first, middle, last].flatten key path :=
      hm ▸ action?_merged _ key path
    simp only [List.flatten_cons, List.flatten_nil, List.append_nil, action?_append] at haction ⊢
    rw [haction]
    cases action? last key path <;> cases action? middle key path <;> cases action? first key path <;> rfl

end ActionList

end UpdaterBootstrap
