/-!
# Ascending maps

Keys with values in ascending order of the keys, each key once.
-/

namespace UpdaterBootstrap

class KeyOrder (κ : Type) [LT κ] : Prop where
  irrefl : ∀ a : κ, ¬a < a
  trans : ∀ {a b c : κ}, a < b → b < c → a < c
  connected : ∀ {a b : κ}, ¬a < b → a ≠ b → b < a

instance : KeyOrder String where
  irrefl := String.lt_irrefl
  trans := String.lt_trans
  connected h hne := Classical.byContradiction fun h' =>
    hne (String.le_antisymm (String.not_lt.1 h') (String.not_lt.1 h))

instance {κ : Type} [LT κ] [KeyOrder κ] : KeyOrder (List κ) where
  irrefl a h := by
    induction a with
    | nil => cases h
    | cons x xs ih => cases h with
      | rel h => exact KeyOrder.irrefl x h
      | cons h => exact ih h
  trans {a b c} h h' := by
    induction h generalizing c with
    | nil => cases h' <;> exact .nil
    | rel h => cases h' with
      | rel h' => exact .rel (KeyOrder.trans h h')
      | cons _ => exact .rel h
    | cons _ ih => cases h' with
      | rel h' => exact .rel h'
      | cons h' => exact .cons (ih h')
  connected {a b} h hne := by
    induction a generalizing b with
    | nil => cases b with
      | nil => exact absurd rfl hne
      | cons y ys => exact absurd .nil h
    | cons x xs ih => cases b with
      | nil => exact .nil
      | cons y ys =>
        by_cases hxy : x = y
        · subst hxy
          exact .cons (ih (fun hlt => h (.cons hlt)) fun e => hne (e ▸ rfl))
        · exact .rel (KeyOrder.connected (fun hlt => h (.rel hlt)) hxy)

def insertByKey {κ ν : Type} [LT κ] [DecidableLT κ] [DecidableEq κ] (key : κ) (value : ν) :
    List (κ × ν) → List (κ × ν)
  | [] => [(key, value)]
  | e :: es =>
    if key < e.1 then (key, value) :: e :: es
    else if key = e.1 then (key, value) :: es
    else e :: insertByKey key value es

theorem mem_insertByKey {κ ν : Type} [LT κ] [DecidableLT κ] [DecidableEq κ] {key : κ} {value : ν}
    {e : κ × ν} {es : List (κ × ν)} (h : e ∈ insertByKey key value es) :
    e = (key, value) ∨ e ∈ es := by
  induction es with
  | nil => simpa [insertByKey] using h
  | cons f fs ih =>
    simp only [insertByKey] at h
    split at h
    · simpa using h
    · split at h
      · rcases List.mem_cons.1 h with h | h
        · exact .inl h
        · exact .inr (List.mem_cons_of_mem _ h)
      · rcases List.mem_cons.1 h with h | h
        · exact .inr (h ▸ List.mem_cons_self)
        · exact (ih h).imp id (List.mem_cons_of_mem _)

theorem pairwise_insertByKey {κ ν : Type} [LT κ] [DecidableLT κ] [DecidableEq κ]
    [KeyOrder κ] {key : κ} {value : ν} {es : List (κ × ν)}
    (h : es.Pairwise fun e f => e.1 < f.1) :
    (insertByKey key value es).Pairwise fun e f => e.1 < f.1 := by
  induction es with
  | nil => simp [insertByKey]
  | cons f fs ih =>
    obtain ⟨hf, hfs⟩ := List.pairwise_cons.1 h
    simp only [insertByKey]
    split
    next hlt =>
      refine List.pairwise_cons.2 ⟨fun e he => ?_, h⟩
      rcases List.mem_cons.1 he with rfl | he
      · exact hlt
      · exact KeyOrder.trans hlt (hf e he)
    next hlt =>
      split
      next heq => exact List.pairwise_cons.2 ⟨fun e he => by simpa [heq] using hf e he, hfs⟩
      next hne =>
        refine List.pairwise_cons.2 ⟨fun e he => ?_, ih hfs⟩
        rcases mem_insertByKey he with rfl | he
        · exact KeyOrder.connected hlt hne
        · exact hf e he

structure AscendingMap (κ ν : Type) [LT κ] where
  entries : List (κ × ν)
  ascending : entries.Pairwise fun e f => e.1 < f.1

namespace AscendingMap

variable {κ ν : Type} [LT κ]

instance [DecidableEq κ] [DecidableEq ν] : DecidableEq (AscendingMap κ ν) := fun a b =>
  decidable_of_iff (a.entries = b.entries) (by cases a; cases b; simp)

def empty : AscendingMap κ ν :=
  ⟨[], .nil⟩

variable [DecidableLT κ] [DecidableEq κ]

def get? (m : AscendingMap κ ν) (key : κ) : Option ν :=
  m.entries.lookup key

variable [KeyOrder κ]

def insert (m : AscendingMap κ ν) (key : κ) (value : ν) : AscendingMap κ ν :=
  ⟨insertByKey key value m.entries, pairwise_insertByKey m.ascending⟩

/-- Adds entries in order; a later one replaces an earlier one for the same key. -/
def insertAll (m : AscendingMap κ ν) (es : List (κ × ν)) : AscendingMap κ ν :=
  es.foldl (fun m e => m.insert e.1 e.2) m

end AscendingMap

end UpdaterBootstrap
