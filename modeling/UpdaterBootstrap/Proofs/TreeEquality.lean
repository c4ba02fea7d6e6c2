import UpdaterBootstrap.Proofs.Outcome
import UpdaterBootstrap.Yaml.Reader

/-!
# Equal YAML trees

Equality of trees can be computed (`eq_of_agrees`), entry by entry in their order. It is finer than
the equality of keys, which leaves the order aside and takes both zeros for one.
-/

namespace UpdaterBootstrap

namespace Yaml

mutual

def agrees : Yaml → Yaml → Bool
  | .null, .null => true
  | .boolean a, .boolean b => a == b
  | .integer m, .integer n => m == n
  | .decimal x, .decimal y => decide (x = y)
  | .text s, .text t => s == t
  | .sequence vs, .sequence ws => agreeAll vs ws
  | .mapping es, .mapping fs => agreeEntries es fs
  | .tagged t v, .tagged u w => t == u && agrees v w
  | _, _ => false

def agreeAll : List Yaml → List Yaml → Bool
  | [], [] => true
  | v :: vs, w :: ws => agrees v w && agreeAll vs ws
  | _, _ => false

def agreeEntries : List (Yaml × Yaml) → List (Yaml × Yaml) → Bool
  | [], [] => true
  | e :: es, f :: fs => agrees e.1 f.1 && agrees e.2 f.2 && agreeEntries es fs
  | _, _ => false

end

mutual

theorem eq_of_agrees : ∀ v w : Yaml, agrees v w = true → v = w := by
  intro v w h
  cases v <;> cases w <;> simp only [agrees, Bool.false_eq_true, beq_iff_eq, decide_eq_true_eq,
    Bool.and_eq_true] at h
  case null.null => rfl
  case boolean.boolean => rw [h]
  case integer.integer => rw [h]
  case decimal.decimal => rw [h]
  case text.text => rw [h]
  case sequence.sequence vs ws => rw [eq_of_agreeAll vs ws h]
  case mapping.mapping es fs => rw [eq_of_agreeEntries es fs h]
  case tagged.tagged t v u w => rw [h.1, eq_of_agrees v w h.2]

theorem eq_of_agreeAll : ∀ vs ws : List Yaml, agreeAll vs ws = true → vs = ws
  | [], [], _ => rfl
  | v :: vs, w :: ws, h => by
    rw [agreeAll, Bool.and_eq_true] at h
    rw [eq_of_agrees v w h.1, eq_of_agreeAll vs ws h.2]
  | [], _ :: _, h | _ :: _, [], h => by
    rw [agreeAll] at h
    cases h
    all_goals nofun

theorem eq_of_agreeEntries : ∀ es fs : List (Yaml × Yaml), agreeEntries es fs = true → es = fs
  | [], [], _ => rfl
  | (k, v) :: es, (k', v') :: fs, h => by
    rw [agreeEntries, Bool.and_eq_true, Bool.and_eq_true] at h
    rw [eq_of_agrees k k' h.1.1, eq_of_agrees v v' h.1.2, eq_of_agreeEntries es fs h.2]
  | [], _ :: _, h | _ :: _, [], h => by
    rw [agreeEntries] at h
    cases h
    all_goals nofun

end

theorem read_eq_ok {text : String} {v : Yaml} (h : (read text).toOption.any (agrees · v) = true) :
    read text = .ok v := by
  obtain ⟨w, hw, hv⟩ := (Option.any_eq_true _ _).1 h
  rw [eq_ok_of_toOption hw, eq_of_agrees w v hv]

end Yaml

end UpdaterBootstrap
