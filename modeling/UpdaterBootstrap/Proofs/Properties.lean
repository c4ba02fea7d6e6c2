import Mathlib.Data.List.Nodup
import UpdaterBootstrap.Document.Basic

/-!
# Setting properties

A property that is set keeps its place if it has one and comes last otherwise (`names_setProperty`),
and no other property changes (`lookup_setProperty`). So properties with different names are added
as they are (`properties_insertAll`).
-/

namespace UpdaterBootstrap

namespace Document

/-! ## One property -/

theorem lookup_setProperty (name : String) (value : Property) (ps : List (String × Property))
    (name' : String) :
    (setProperty name value ps).lookup name' = if name' = name then some value else ps.lookup name' := by
  induction ps with
  | nil => by_cases h : name' = name <;> simp [setProperty, List.lookup_cons, beq_eq_decide, h]
  | cons p ps ih =>
    obtain ⟨first, old⟩ := p
    rw [setProperty]
    by_cases hfirst : first = name
    · subst hfirst
      by_cases h : name' = first <;> simp [List.lookup_cons, beq_eq_decide, h]
    · rw [if_neg (by simpa using hfirst), List.lookup_cons, List.lookup_cons, ih]
      by_cases h : name' = first
      · subst h
        simp [hfirst]
      · simp [beq_eq_decide, h]

theorem get?_insert (d : Document) (name : String) (value : Property) (name' : String) :
    (d.insert name value).get? name' = if name' = name then some value else d.get? name' :=
  lookup_setProperty name value d.properties name'

theorem names_setProperty (name : String) (value : Property) (ps : List (String × Property)) :
    (setProperty name value ps).map Prod.fst =
      if name ∈ ps.map Prod.fst then ps.map Prod.fst else ps.map Prod.fst ++ [name] := by
  induction ps with
  | nil => simp [setProperty]
  | cons p ps ih =>
    rw [setProperty]
    by_cases hfirst : p.1 = name
    · simp [hfirst]
    · rw [if_neg (by simpa using hfirst), List.map_cons, ih, List.map_cons]
      by_cases hmem : name ∈ ps.map Prod.fst
      · rw [if_pos hmem, if_pos (List.mem_cons_of_mem _ hmem)]
      · rw [if_neg hmem, if_neg (by simpa [Ne.symm hfirst] using hmem)]
        rfl

theorem names_insert (d : Document) (name : String) (value : Property) :
    (d.insert name value).names = if name ∈ d.names then d.names else d.names ++ [name] :=
  names_setProperty name value d.properties

theorem setProperty_of_not_mem {name : String} {ps : List (String × Property)} (h : name ∉ ps.map Prod.fst)
    (value : Property) : setProperty name value ps = ps ++ [(name, value)] := by
  induction ps with
  | nil => rfl
  | cons p ps ih =>
    rw [List.map_cons, List.mem_cons, not_or] at h
    have hfirst : (p.1 == name) = false := by simpa using Ne.symm h.1
    simp [setProperty, hfirst, ih h.2]

/-! ## Several properties -/

def insertAll (d : Document) (ps : List (String × Property)) : Document :=
  ps.foldl (fun d p => d.insert p.1 p.2) d

@[simp] theorem nodePath_insertAll (d : Document) (ps : List (String × Property)) :
    (d.insertAll ps).nodePath = d.nodePath := by
  induction ps generalizing d with
  | nil => rfl
  | cons p ps ih => exact ih (d.insert p.1 p.2)

theorem properties_insertAll {d : Document} {ps : List (String × Property)}
    (h : (d.names ++ ps.map Prod.fst).Nodup) :
    (d.insertAll ps).properties = d.properties ++ ps := by
  induction ps generalizing d with
  | nil => simp [insertAll]
  | cons p ps ih =>
    have hnew : p.1 ∉ d.names := by
      intro hmem
      exact List.disjoint_of_nodup_append h hmem (by simp)
    have hinsert : (d.insert p.1 p.2).properties = d.properties ++ [p] := setProperty_of_not_mem hnew p.2
    have hnames : (d.insert p.1 p.2).names = d.names ++ [p.1] := by simp [names, hinsert]
    have hrest : ((d.insert p.1 p.2).names ++ ps.map Prod.fst).Nodup := by simpa [hnames] using h
    have hlater := ih hrest
    rw [hinsert] at hlater
    simpa [insertAll] using hlater

theorem insertAll_empty {d : Document} (h : d.names.Nodup) :
    (empty d.nodePath).insertAll d.properties = d := by
  obtain ⟨path, ps⟩ := d
  have hproperties : ((empty path).insertAll ps).properties = ps := properties_insertAll h
  have hpath : ((empty path).insertAll ps).nodePath = path := nodePath_insertAll (empty path) ps
  change (empty path).insertAll ps = ⟨path, ps⟩
  generalize (empty path).insertAll ps = e at hproperties hpath ⊢
  cases e
  cases hproperties
  cases hpath
  rfl

end Document

end UpdaterBootstrap
