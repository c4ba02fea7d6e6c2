import UpdaterBootstrap.Manifest.Yaml
import UpdaterBootstrap.Proofs.Lookup
import UpdaterBootstrap.Proofs.Outcome
import UpdaterBootstrap.Proofs.Properties
import UpdaterBootstrap.Proofs.TreeEquality

/-!
# What is written is read back

The tree of a document is read as the document if no property is there twice
(`Document.ofYaml_toYaml`), the tree of any action list as that list, entry for entry
(`ActionList.ofYaml_toYaml`). For their texts it takes no more than that the text is read as the
tree that was written.
-/

namespace UpdaterBootstrap

/-! ## Documents -/

namespace Document

theorem texts?_map (items : List String) : texts? (items.map .text) = some items := by
  induction items with
  | nil => rfl
  | cons s items ih => simp [texts?, ih]

theorem property?_toYaml (p : Property) : property? p.toYaml = some p := by
  cases p with
  | text s => rfl
  | boolean b => rfl
  | integer n =>
    have hmin : Int64.minValue.toInt ≤ n.toInt := n.minValue_le_toInt
    have hmax : n.toInt ≤ Int64.maxValue.toInt := n.toInt_le
    simp only [Property.toYaml, property?, hmin, hmax, and_self, if_true, Int64.ofInt_toInt]
  | list items => simp [Property.toYaml, property?, texts?_map]

theorem addEntries_map (d : Document) (ps : List (String × Property)) :
    addEntries d (ps.map fun p => (.text p.1, p.2.toYaml)) = .ok (d.insertAll ps) := by
  induction ps generalizing d with
  | nil => rfl
  | cons p ps ih =>
    rw [List.map_cons, addEntries, property?_toYaml]
    exact ih (d.insert p.1 p.2)

theorem ofYaml_toYaml {d : Document} (h : d.names.Nodup) : ofYaml d.toYaml = .ok d := by
  rw [toYaml, ofYaml, addEntries_map, insertAll_empty h]

/-- A document is read from its text if its tree is. -/
theorem read_write {d : Document} (h : d.names.Nodup) (hyaml : Yaml.read d.write = .ok d.toYaml) :
    Document.read d.write = .ok d := by
  rw [Document.read, hyaml, mapError_ok, ok_bind, ofYaml_toYaml h, mapError_ok]

end Document

/-! ## Action lists -/

namespace ActionList

theorem ofYaml_actions (key : SequenceKey) (m : ActionMap) (es : List (String × Action)) :
    actionsOfYaml key m (es.map fun a => (.text a.1, .text a.2.verb)) = .ok (m.insertAll es) := by
  induction es generalizing m with
  | nil => rfl
  | cons a es ih =>
    rw [List.map_cons, actionsOfYaml]
    exact ih _

theorem key?_decimal (key : SequenceKey) : key? (.decimal key.value) = some key := by
  obtain ⟨x, hfinite, hzero⟩ := key
  unfold key? SequenceKey.ofFloat?
  dsimp only
  rw [dif_pos hfinite, dif_pos hzero]

theorem itemsOfYaml_map (l : ActionList) : itemsOfYaml (l.map entryYaml) = .ok l := by
  induction l with
  | nil => rfl
  | cons e l ih =>
    have hentry : entryOfYaml (.decimal e.key.value)
        (.mapping (e.actions.entries.map fun a => (.text a.1, .text a.2.verb))) = .ok e := by
      unfold entryOfYaml
      rw [key?_decimal]
      dsimp only
      rw [ofYaml_actions, AscendingMap.insertAll_empty]
      rfl
    rw [List.map_cons, entryYaml, itemsOfYaml, entriesOfYaml, hentry, ih]
    rfl

theorem ofYaml_toYaml (l : ActionList) : ofYaml l.toYaml = .ok l := by
  unfold toYaml ofYaml
  have hfind : Yaml.find? rootKey [(.text rootKey, .sequence (l.map entryYaml))] =
      some (.sequence (l.map entryYaml)) := if_pos (beq_self_eq_true rootKey)
  dsimp only
  rw [hfind]
  exact itemsOfYaml_map l

/-- A list is read from its text if its tree is. -/
theorem read_write {l : ActionList} (h : Yaml.read l.write = .ok l.toYaml) :
    ActionList.read l.write = .ok l := by
  unfold ActionList.read
  rw [h]
  exact congrArg (Except.mapError ManifestFault.manifest) (ofYaml_toYaml l)

/-- Every action list is read from its tree as it was, whatever keys it repeats and whatever their
order, and so it is from its text if the text is read as the tree. -/
theorem readBack (l : ActionList) :
    ofYaml l.toYaml = .ok l ∧ (Yaml.read l.write = .ok l.toYaml → ActionList.read l.write = .ok l) :=
  ⟨ofYaml_toYaml l, read_write⟩

theorem readBack_repeated :
    let key : SequenceKey := ⟨-2.5, by decide, by decide⟩
    let l : ActionList :=
      [⟨.zero, .empty⟩, ⟨key, (AscendingMap.empty.insert "/b: c" ⟨"on"⟩).insert "" .reload⟩,
      ⟨key, .empty⟩, ⟨.zero, AscendingMap.empty.insert "/b" ⟨""⟩⟩]
    Yaml.read l.write = .ok l.toYaml ∧ ActionList.read l.write = .ok l := by
  intro key l
  have hyaml : Yaml.read l.write = .ok l.toYaml := Yaml.read_eq_ok (by decide +kernel)
  exact ⟨hyaml, (readBack l).2 hyaml⟩

end ActionList

end UpdaterBootstrap
