import UpdaterBootstrap.AscendingMap

/-!
# Looking up in ascending maps

A map is determined by what is found under each key (`AscendingMap.ext_get?`), and what is found
after an insertion is the new value or what was found before.
-/

namespace UpdaterBootstrap

/-- Strictly ascending lists with the same members are equal. -/
theorem eq_of_ascending {α : Type} {r : α → α → Prop} (irrefl : ∀ a, ¬ r a a)
    (trans : ∀ {a b c}, r a b → r b c → r a c) {as bs : List α} (ha : as.Pairwise r) (hb : bs.Pairwise r)
    (h : ∀ a, a ∈ as ↔ a ∈ bs) : as = bs := by
  have nodup {cs : List α} (hc : cs.Pairwise r) : cs.Nodup := by
    refine hc.imp ?_
    rintro a b hab rfl
    exact irrefl a hab
  have hperm : as.Perm bs := (List.perm_ext_iff_of_nodup (nodup ha) (nodup hb)).2 h
  exact hperm.eq_of_pairwise (fun a b _ _ hab hba => absurd (trans hab hba) (irrefl a)) ha hb

section
variable {κ ν : Type} [DecidableEq κ] {key : κ} {value : ν} {es : List (κ × ν)}

theorem mem_of_lookup (h : es.lookup key = some value) : (key, value) ∈ es := by
  induction es with
  | nil => cases h
  | cons e es ih =>
    rw [List.lookup_cons] at h
    split at h
    · rename_i heq
      obtain ⟨k, v⟩ := e
      obtain rfl : key = k := beq_iff_eq.1 heq
      obtain rfl : v = value := Option.some.inj h
      exact List.mem_cons_self
    · exact List.mem_cons_of_mem _ (ih h)

theorem lookup_of_mem [LT κ] [KeyOrder κ] (hes : es.Pairwise fun e f => e.1 < f.1) (h : (key, value) ∈ es) :
    es.lookup key = some value := by
  induction es with
  | nil => cases h
  | cons e es ih =>
    obtain ⟨he, hes⟩ := List.pairwise_cons.1 hes
    rw [List.lookup_cons]
    rcases List.mem_cons.1 h with rfl | h
    · rw [beq_self_eq_true]
    · have hne : key ≠ e.1 := by
        rintro rfl
        exact KeyOrder.irrefl e.1 (he (e.1, value) h)
      rw [beq_false_of_ne hne]
      exact ih hes h

end

section
variable {κ ν : Type} [LT κ] [DecidableLT κ] [DecidableEq κ]

theorem lookup_insertByKey_self (key : κ) (value : ν) (es : List (κ × ν)) :
    (insertByKey key value es).lookup key = some value := by
  induction es with
  | nil => simp [insertByKey]
  | cons e es ih =>
    simp only [insertByKey]
    split
    · simp
    split
    · simp
    · rename_i hne
      rw [List.lookup_cons, beq_false_of_ne hne]
      exact ih

theorem lookup_insertByKey_ne {key key' : κ} (h : key' ≠ key) (value : ν) (es : List (κ × ν)) :
    (insertByKey key value es).lookup key' = es.lookup key' := by
  induction es with
  | nil => simp [insertByKey, List.lookup_cons, beq_false_of_ne h]
  | cons e es ih =>
    simp only [insertByKey]
    split
    · rw [List.lookup_cons, beq_false_of_ne h]
    split
    · rename_i heq
      rw [List.lookup_cons, List.lookup_cons, ← heq, beq_false_of_ne h]
    · rw [List.lookup_cons, List.lookup_cons, ih]

/-- An insertion shows only at its key. -/
theorem filterMap_insertByKey {β : Type} {f : κ × ν → Option β} {key : κ} {value : ν}
    {es : List (κ × ν)} (h : f (key, value) = none) (hes : ∀ v, (key, v) ∈ es → f (key, v) = none) :
    (insertByKey key value es).filterMap f = es.filterMap f := by
  induction es with
  | nil => simp [insertByKey, h]
  | cons e es ih =>
    simp only [insertByKey]
    split
    · rw [List.filterMap_cons_none h]
    split
    · rename_i heq
      have he : f e = none := by
        obtain ⟨k, v⟩ := e
        obtain rfl : key = k := heq
        exact hes v List.mem_cons_self
      rw [List.filterMap_cons_none h, List.filterMap_cons_none he]
    · rw [List.filterMap_cons, List.filterMap_cons, ih fun v hv => hes v (List.mem_cons_of_mem _ hv)]

end

namespace AscendingMap

section
variable {κ ν : Type} [LT κ] [DecidableEq κ]

theorem get?_empty (key : κ) : (empty : AscendingMap κ ν).get? key = none := rfl

variable [KeyOrder κ]

theorem mem_entries_iff {m : AscendingMap κ ν} {key : κ} {value : ν} :
    (key, value) ∈ m.entries ↔ m.get? key = some value :=
  ⟨lookup_of_mem m.ascending, mem_of_lookup⟩

theorem ext_get? {m m' : AscendingMap κ ν} (h : ∀ key, m.get? key = m'.get? key) : m = m' := by
  have hmem : ∀ e : κ × ν, e ∈ m.entries ↔ e ∈ m'.entries := by
    rintro ⟨key, value⟩
    rw [mem_entries_iff, mem_entries_iff, h]
  obtain ⟨es, hes⟩ := m
  obtain ⟨es', hes'⟩ := m'
  obtain rfl : es = es' :=
    eq_of_ascending (r := fun e f : κ × ν => e.1 < f.1) (fun e => KeyOrder.irrefl e.1)
      (fun h h' => KeyOrder.trans h h') hes hes' hmem
  rfl

variable [DecidableLT κ]

theorem get?_insert (m : AscendingMap κ ν) (key key' : κ) (value : ν) :
    (m.insert key value).get? key' = if key' = key then some value else m.get? key' := by
  by_cases h : key' = key
  · rw [if_pos h, h]
    exact lookup_insertByKey_self key value m.entries
  · rw [if_neg h]
    exact lookup_insertByKey_ne h value m.entries

theorem insert_eq_self {m : AscendingMap κ ν} {key : κ} {value : ν} (h : m.get? key = some value) :
    m.insert key value = m := by
  refine ext_get? fun key' => ?_
  rw [get?_insert]
  by_cases hkey : key' = key
  · rw [if_pos hkey, hkey, h]
  · rw [if_neg hkey]

theorem insert_insert (m : AscendingMap κ ν) (key : κ) (value value' : ν) :
    (m.insert key value).insert key value' = m.insert key value' := by
  refine ext_get? fun key' => ?_
  rw [get?_insert, get?_insert, get?_insert]
  by_cases hkey : key' = key
  · rw [if_pos hkey, if_pos hkey]
  · rw [if_neg hkey, if_neg hkey, if_neg hkey]

/-- What is added in ascending order is found first. -/
theorem get?_foldl_insert {es : List (κ × ν)} (hes : es.Pairwise fun e f => e.1 < f.1) (m : AscendingMap κ ν)
    (key : κ) : (m.insertAll es).get? key = (es.lookup key).or (m.get? key) := by
  unfold insertAll
  induction es generalizing m with
  | nil => rfl
  | cons e es ih =>
    obtain ⟨he, hes⟩ := List.pairwise_cons.1 hes
    rw [List.foldl_cons, ih hes, get?_insert, List.lookup_cons]
    by_cases hkey : key = e.1
    · have hnone : es.lookup key = none := by
        cases hlookup : es.lookup key with
        | none => rfl
        | some value => exact absurd (hkey ▸ he _ (mem_of_lookup hlookup)) (KeyOrder.irrefl _)
      rw [if_pos hkey, hnone, hkey, beq_self_eq_true]
      rfl
    · rw [if_neg hkey, beq_false_of_ne hkey]

theorem get?_insertAll (m m' : AscendingMap κ ν) (key : κ) :
    (m.insertAll m'.entries).get? key = (m'.get? key).or (m.get? key) :=
  get?_foldl_insert m'.ascending m key

theorem insertAll_empty (m : AscendingMap κ ν) : (empty : AscendingMap κ ν).insertAll m.entries = m := by
  refine ext_get? fun key => ?_
  rw [get?_insertAll, get?_empty, Option.or_none]

end

end AscendingMap

end UpdaterBootstrap
