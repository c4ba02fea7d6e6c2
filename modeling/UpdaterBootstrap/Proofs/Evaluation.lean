import UpdaterBootstrap.Proofs.Outcome
import UpdaterBootstrap.Updater.ClassModel

/-!
# Faults of evaluation

Where the annotations of a unit resolve to kinds that all differ, the only faults left are those of
the arguments of a single annotation.
-/

namespace UpdaterBootstrap

def EvaluationFault.IsOfArguments : EvaluationFault → Prop
  | .unresolvedName _ | .duplicateKind _ => False
  | _ => True

theorem isOfArguments_of_coerce {kind : AnnotationKind} {field : FieldSchema} {c : Constant}
    {e : EvaluationFault} (h : coerce kind field c = .error e) : e.IsOfArguments := by
  unfold coerce at h
  split at h
  · rw [← Except.error.inj h]
    trivial
  · split at h
    · cases h
    · rw [← Except.error.inj h]
      trivial

theorem isOfArguments_of_collectFields {kind : AnnotationKind} {arguments : List (String × Constant)}
    {taken : FieldValues} {e : EvaluationFault} (h : collectFields kind taken arguments = .error e) :
    e.IsOfArguments := by
  induction arguments generalizing taken with
  | nil => cases h
  | cons argument arguments ih =>
    rw [collectFields] at h
    split at h
    · rw [← Except.error.inj h]
      trivial
    · split at h
      · rw [← Except.error.inj h]
        trivial
      · rcases bind_eq_error.1 h with hc | ⟨v, _, hrest⟩
        · exact isOfArguments_of_coerce hc
        · exact ih hrest

theorem isOfArguments_of_completeFields {kind : AnnotationKind} {taken : FieldValues}
    {fields : List FieldSchema} {e : EvaluationFault} (h : completeFields kind taken fields = .error e) :
    e.IsOfArguments := by
  induction fields with
  | nil => cases h
  | cons field fields ih =>
    rw [completeFields] at h
    split at h
    · rw [← Except.error.inj h]
      trivial
    · rcases bind_eq_error.1 h with hrest | ⟨_, _, hend⟩
      · exact ih hrest
      · cases hend

theorem isOfArguments_of_evaluate {kind : AnnotationKind} {arguments : List (String × Constant)}
    {e : EvaluationFault} (h : kind.evaluate arguments = .error e) : e.IsOfArguments := by
  rcases bind_eq_error.1 h with hcollect | ⟨taken, _, hcomplete⟩
  · exact isOfArguments_of_collectFields hcollect
  · exact isOfArguments_of_completeFields hcomplete

/-! ## Annotations of different kinds -/

def AnnotationValues.has (found : AnnotationValues) : AnnotationKind → Bool
  | .bootstrap => found.bootstrap?.isSome
  | .updater => found.updater?.isSome

def AnnotationValues.add (found : AnnotationValues) (values : FieldValues) : AnnotationKind → AnnotationValues
  | .bootstrap => { found with bootstrap? := some (.ofValues values) }
  | .updater => { found with updater? := some (.ofValues values) }

theorem AnnotationValues.has_add {found : AnnotationValues} {values : FieldValues}
    {kind kind' : AnnotationKind}
    (hne : kind' ≠ kind) : (found.add values kind).has kind' = found.has kind' := by
  cases kind <;> cases kind' <;> first | rfl | exact absurd rfl hne

/-- An annotation of a kind that has not come before is only evaluated. -/
theorem addValues_eq {imports : List Import} {found : AnnotationValues} {a : AnnotationTerm}
    {kind : AnnotationKind}
    (hkind : resolveKind imports a.name = .ok kind) (hnew : found.has kind = false) :
    addValues imports found a = (kind.evaluate a.arguments).map fun values => found.add values kind := by
  unfold addValues
  rw [hkind, ok_bind]
  cases hvalues : kind.evaluate a.arguments with
  | error e => rfl
  | ok values =>
    cases kind with
    | bootstrap =>
      have : found.bootstrap?.isSome = false := hnew
      simp only [ok_bind, this]
      rfl
    | updater =>
      have : found.updater?.isSome = false := hnew
      simp only [ok_bind, this]
      rfl

theorem isOfArguments_of_foldlM {imports : List Import} {annotations : List AnnotationTerm}
    {kinds : List AnnotationKind} {found : AnnotationValues} {e : EvaluationFault}
    (hkinds : annotations.map (resolveKind imports ∘ AnnotationTerm.name) = kinds.map .ok)
    (hnodup : kinds.Nodup) (hnew : ∀ kind ∈ kinds, found.has kind = false)
    (h : annotations.foldlM (addValues imports) found = .error e) : e.IsOfArguments := by
  induction annotations generalizing kinds found with
  | nil => cases h
  | cons a annotations ih =>
    cases kinds with
    | nil => cases hkinds
    | cons kind kinds =>
      obtain ⟨hkind, hkinds⟩ := List.cons.inj hkinds
      obtain ⟨hnotin, hnodup⟩ := List.nodup_cons.1 hnodup
      rw [List.foldlM_cons, addValues_eq hkind (hnew kind List.mem_cons_self)] at h
      cases hvalues : kind.evaluate a.arguments with
      | error e' =>
        rw [hvalues] at h
        rw [← Except.error.inj h]
        exact isOfArguments_of_evaluate hvalues
      | ok values =>
        rw [hvalues] at h
        refine ih hkinds hnodup (fun k hk => ?_) h
        have hne : k ≠ kind := fun e => hnotin (e ▸ hk)
        rw [AnnotationValues.has_add hne]
        exact hnew k (List.mem_cons_of_mem kind hk)

/-- The fault of a unit whose annotations are of different kinds lies in the arguments of one. -/
theorem isOfArguments_of_ofUnit {ns : Namespaces} {unit : ParsedUnit} {script : String}
    {kinds : List AnnotationKind} {e : EvaluationFault}
    (hkinds : unit.annotations.map (resolveKind unit.imports ∘ AnnotationTerm.name) = kinds.map .ok)
    (hnodup : kinds.Nodup) (h : ClassModel.ofUnit ns unit script = .error (.evaluation e)) :
    e.IsOfArguments := by
  unfold ClassModel.ofUnit at h
  rcases bind_eq_error.1 h with hfold | ⟨found, _, hname⟩
  · obtain ⟨e', hfault, he⟩ := mapError_eq_error.1 hfold
    obtain rfl := ModelFault.evaluation.inj he
    refine isOfArguments_of_foldlM hkinds hnodup (fun kind _ => ?_) hfault
    cases kind <;> rfl
  · dsimp only at hname
    split at hname
    · rename_i info _
      rcases bind_eq_error.1 hname with hvalid | ⟨_, _, hend⟩
      · cases hv : validateName ns info.name <;> rw [hv] at hvalid <;> cases hvalid
      · cases hend
    · cases hname

end UpdaterBootstrap
