import UpdaterBootstrap.Proofs.TomlTexts
import UpdaterBootstrap.Toml.Reader

/-!
# Lines in TOML

A document of lines that each give a new key its value is read as the table with those keys
(`Toml.readLines_lines`), whatever the values are, as long as each is read back up to the end of its
line.
-/

namespace UpdaterBootstrap

namespace Toml

/-! ## Values -/

structure IsWritten (v : Toml) (written : List Char) : Prop where
  read : ∀ fuel depth more, readValue (fuel + 1) depth (written ++ '\n' :: more) = some (v, '\n' :: more)
  solid : ∀ more, skipBlanks (written ++ '\n' :: more) = written ++ '\n' :: more

theorem skipBlanks_solid {c : Char} (h : isSpaceOrTab c = false) (cs : List Char) :
    skipBlanks (c :: cs) = c :: cs :=
  List.dropWhile_cons_of_neg (by simp [h])

theorem exists_writeChars (cs : List Char) : ∃ q ds, writeChars cs = q :: ds ∧ (q = '"' ∨ q = '\'') := by
  unfold writeChars
  dsimp only
  split
  next => exact ⟨_, _, rfl, .inl rfl⟩
  split
  next => exact ⟨_, _, rfl, .inr rfl⟩
  split
  next => exact ⟨_, _, rfl, .inl rfl⟩
  split
  next => exact ⟨_, _, rfl, .inr rfl⟩
  split
  next => exact ⟨_, _, rfl, .inl rfl⟩
  next => exact ⟨_, _, rfl, .inl rfl⟩

theorem isWritten_text (s : String) : IsWritten (.text s) (writeText s).toList := by
  have hread (more : List Char) : quoted? (writeChars s.toList ++ '\n' :: more) =
      some (s.toList, '\n' :: more) :=
    quoted?_writeChars (fun h => absurd (Option.some.inj h) (by decide)) fun h =>
      absurd (Option.some.inj h) (by decide)
  unfold writeText
  rw [String.toList_ofList]
  obtain ⟨q, ds, hq, hquote⟩ := exists_writeChars s.toList
  refine ⟨fun fuel depth more => ?_, fun more => ?_⟩
  · have hvalue : readValue (fuel + 1) depth (q :: (ds ++ '\n' :: more)) =
        (quoted? (q :: (ds ++ '\n' :: more))).map fun r => (.text (.ofList r.1), r.2) := by
      rcases hquote with rfl | rfl <;> rw [readValue]
    rw [hq, List.cons_append, hvalue, ← List.cons_append, ← hq, hread, Option.map_some]
    exact congrArg (fun t => some (Toml.text t, '\n' :: more)) String.ofList_toList
  · rw [hq, List.cons_append]
    rcases hquote with rfl | rfl <;> rfl

theorem scalarText_line {written : List Char} (h : ∀ c ∈ written, isScalarChar c = true) (more : List Char) :
    scalarText (written ++ '\n' :: more) = written := by
  have htake : (written ++ '\n' :: more).takeWhile isScalarChar = written := by
    rw [List.takeWhile_append_of_pos h, List.takeWhile_cons_of_neg (by decide), List.append_nil]
  unfold scalarText
  dsimp only
  rw [htake, List.drop_left]
  split
  next hspace => cases hspace
  next => rfl

/-- What is not quoted is read as a whole. -/
theorem isWritten_scalar {v : Toml} {written : List Char} (hne : written ≠ [])
    (h : ∀ c ∈ written, isScalarChar c = true)
    (hv : scalar? written = some v) : IsWritten v written := by
  obtain ⟨c, cs, rfl⟩ := List.exists_cons_of_ne_nil hne
  have hc := h c List.mem_cons_self
  refine ⟨fun fuel depth more => ?_, fun more => ?_⟩
  · have hvalue : readValue (fuel + 1) depth (c :: cs ++ '\n' :: more) =
        (scalar? (scalarText (c :: cs ++ '\n' :: more))).map
          fun v => (v, (c :: cs ++ '\n' :: more).drop (scalarText (c :: cs ++ '\n' :: more)).length) := by
      rw [List.cons_append, readValue]
      -- the other forms begin with a quote, a bracket or a brace
      all_goals
        intro _ hother
        obtain ⟨rfl, -⟩ := List.cons.inj hother
        cases hc
    rw [hvalue, scalarText_line h, hv, Option.map_some, List.drop_left]
  · refine skipBlanks_solid (Bool.eq_false_iff.2 fun hblank => ?_) _
    rw [isSpaceOrTab, Bool.or_eq_true, beq_iff_eq, beq_iff_eq] at hblank
    rcases hblank with rfl | rfl <;> cases hc

/-- A fixed word as a value. -/
theorem isWritten_word {v : Toml} {word : String} (hne : word.toList.isEmpty = false)
    (h : word.toList.all isScalarChar = true) (hv : scalar? word.toList = some v) : IsWritten v word.toList :=
  isWritten_scalar (List.isEmpty_eq_false_iff.1 hne) (List.all_eq_true.1 h) hv

/-! ## Lines -/

structure KeyLine where
  key : String
  value : Toml
  written : List Char

namespace KeyLine

def chars (l : KeyLine) : List Char :=
  l.key.toList ++ " = ".toList ++ l.written ++ ['\n']

def entry (l : KeyLine) : String × Toml :=
  (l.key, l.value)

def item (l : KeyLine) : String × Item :=
  (l.key, .value l.value)

structure IsReadable (l : KeyLine) : Prop where
  nonempty : l.key.toList ≠ []
  bare : ∀ c ∈ l.key.toList, isBareKey c = true
  written : IsWritten l.value l.written

end KeyLine

theorem ne_of_isBareKey {c d : Char} (h : isBareKey c = true) (hd : isBareKey d = false) : c ≠ d := by
  rintro rfl
  rw [h] at hd
  cases hd

theorem skipGap_bare {c : Char} (h : isBareKey c = true) (cs : List Char) :
    skipGap false (c :: cs) = some (c :: cs) := by
  have hne (d : Char) (hd : isBareKey d = false) : c ≠ d := ne_of_isBareKey h hd
  unfold skipGap
  split
  next hc => cases hc
  next hc => exact absurd (List.cons.inj hc).1 (hne '\n' rfl)
  next hc => exact absurd (List.cons.inj hc).1 (hne '\r' rfl)
  next hc =>
    obtain ⟨rfl, rfl⟩ := List.cons.inj hc
    simp [isSpaceOrTab, hne ' ' rfl, hne '\t' rfl, hne '#' rfl]

theorem readSimpleKey_line {key : List Char} (hne : key ≠ []) (h : ∀ c ∈ key, isBareKey c = true)
    (cs : List Char) :
    readSimpleKey (key ++ ' ' :: cs) = some (key, ' ' :: cs) := by
  have htake : (key ++ ' ' :: cs).takeWhile isBareKey = key := by
    rw [List.takeWhile_append_of_pos h, List.takeWhile_cons_of_neg (by decide), List.append_nil]
  obtain ⟨c, ds, rfl⟩ := List.exists_cons_of_ne_nil hne
  have hc := h c List.mem_cons_self
  have hquote (d : Char) (hd : isBareKey d = false) (tail : List Char)
      (heq : c :: ds ++ ' ' :: cs = d :: tail) : False :=
    ne_of_isBareKey hc hd (List.cons.inj heq).1
  unfold readSimpleKey
  split
  next heq => exact (hquote '"' rfl _ heq).elim
  next heq => exact (hquote '\'' rfl _ heq).elim
  next heq => exact (hquote '"' rfl _ heq).elim
  next heq => exact (hquote '\'' rfl _ heq).elim
  next =>
    dsimp only
    rw [htake, List.drop_left]
    rfl

theorem readKey_line {key : List Char} (hne : key ≠ []) (h : ∀ c ∈ key, isBareKey c = true) (cs : List Char) :
    readKey (key ++ ' ' :: '=' :: cs) = some ([], .ofList key, '=' :: cs) := by
  have hkey (fuel : Nat) : readKeyWith (fuel + 1) (key ++ ' ' :: '=' :: cs) =
      some ([], .ofList key, '=' :: cs) := by
    rw [readKeyWith, readSimpleKey_line hne h]
    rfl
  unfold readKey
  rw [hkey]
  rfl

theorem readLines_cons {l : KeyLine} (hl : l.IsReadable) (fuel : Nat) {es : Items}
    (hnew : es.lookup l.key = none) (cs : List Char) :
    readLines (fuel + 1) es [] (l.chars ++ cs) = readLines fuel (es ++ [l.item]) [] cs := by
  have hchars : l.chars ++ cs = l.key.toList ++ ' ' :: '=' :: ' ' :: (l.written ++ '\n' :: cs) := by
    simp [KeyLine.chars]
  have hkey := readKey_line hl.nonempty hl.bare (' ' :: (l.written ++ '\n' :: cs))
  have hblank : skipBlanks (' ' :: (l.written ++ '\n' :: cs)) = l.written ++ '\n' :: cs := hl.written.solid cs
  have hdefine : es.define (.ofList l.key.toList) l.value [] = some (es ++ [l.item]) := by
    rw [Items.define, String.ofList_toList, hnew]
    rfl
  have hend : skipLineEnd false ('\n' :: cs) = some cs := rfl
  obtain ⟨c, ds, hc⟩ := List.exists_cons_of_ne_nil hl.nonempty
  have hbare := hl.bare c (hc ▸ List.mem_cons_self)
  have hheader (tail : List Char) :
      c :: (ds ++ ' ' :: '=' :: ' ' :: (l.written ++ '\n' :: cs)) ≠ '[' :: tail :=
    fun h => ne_of_isBareKey hbare rfl (List.cons.inj h).1
  rw [hchars, readLines]
  rw [hc, List.cons_append] at hkey ⊢
  rw [skipGap_bare hbare, Option.bind_eq_bind, Option.bind_some]
  -- a line that starts with a bare key is neither the end nor a header
  split
  next h => cases h
  next h => exact (hheader _ h).elim
  next h => exact (hheader _ h).elim
  next =>
    rw [hkey]
    simp only [Option.bind_eq_bind, Option.bind_some, after?, beq_self_eq_true, if_true, hblank,
      hl.written.read, Items.within]
    rw [← hc, hdefine, hend]
    rfl

/-- Lines with different keys are read as the table of those keys. -/
theorem readLines_lines {ls : List KeyLine} (hls : ∀ l ∈ ls, l.IsReadable)
    (hkeys : (ls.map KeyLine.key).Nodup)
    {fuel : Nat} (hfuel : ls.length < fuel) {es : Items} (hes : ∀ l ∈ ls, es.lookup l.key = none) :
    readLines fuel es [] (ls.flatMap KeyLine.chars) = some (es ++ ls.map KeyLine.item) := by
  induction ls generalizing fuel es with
  | nil =>
    obtain ⟨fuel, rfl⟩ := Nat.exists_eq_succ_of_ne_zero (Nat.ne_of_gt hfuel)
    rw [List.flatMap_nil, List.map_nil, List.append_nil, readLines]
    rfl
  | cons l ls ih =>
    obtain ⟨fuel, rfl⟩ := Nat.exists_eq_succ_of_ne_zero (Nat.ne_of_gt (Nat.zero_lt_of_lt hfuel))
    obtain ⟨hne, hkeys⟩ := List.nodup_cons.1 hkeys
    have hrest : ∀ k ∈ ls, (es ++ [l.item]).lookup k.key = none := fun k hk => by
      have hkey : k.key ≠ l.key := fun h => hne (h ▸ List.mem_map_of_mem hk)
      rw [List.lookup_append, KeyLine.item, hes k (List.mem_cons_of_mem _ hk), List.lookup_cons,
        beq_false_of_ne hkey]
      rfl
    rw [List.flatMap_cons, readLines_cons (hls l List.mem_cons_self) _ (hes l List.mem_cons_self),
      ih (fun k hk => hls k (List.mem_cons_of_mem _ hk)) hkeys (Nat.lt_of_succ_lt_succ hfuel) hrest,
        List.map_cons,
      List.append_assoc]
    rfl

theorem itemsToToml_map_item (ls : List KeyLine) :
    itemsToToml (ls.map KeyLine.item) = ls.map KeyLine.entry := by
  induction ls with
  | nil => rfl
  | cons l ls ih => rw [List.map_cons, KeyLine.item, itemsToToml, Item.toToml, ih]; rfl

theorem head_lines {l : KeyLine} (hl : l.IsReadable) (ls : List KeyLine) :
    ∃ c cs, (l :: ls).flatMap KeyLine.chars = c :: cs ∧ isBareKey c = true := by
  obtain ⟨c, ds, hc⟩ := List.exists_cons_of_ne_nil hl.nonempty
  rw [List.flatMap_cons, KeyLine.chars, hc]
  exact ⟨c, _, rfl, hl.bare c (hc ▸ List.mem_cons_self)⟩

theorem length_le_lines (ls : List KeyLine) : ls.length ≤ (ls.flatMap KeyLine.chars).length := by
  induction ls with
  | nil => exact Nat.zero_le _
  | cons l ls ih =>
    rw [List.flatMap_cons, List.length_append, List.length_cons, KeyLine.chars, List.length_append,
      List.length_singleton]
    omega

/-- A document of lines with different keys is read as the table of those keys. -/
theorem read_lines {ls : List KeyLine} (hls : ∀ l ∈ ls, l.IsReadable) (hkeys : (ls.map KeyLine.key).Nodup) :
    read (.ofList (ls.flatMap KeyLine.chars)) = some (ls.map KeyLine.entry) := by
  have hlines : readLines ((ls.flatMap KeyLine.chars).length + 1) [] [] (ls.flatMap KeyLine.chars) =
      some (ls.map KeyLine.item) :=
    readLines_lines hls hkeys (Nat.lt_succ_of_le (length_le_lines ls)) fun _ _ => rfl
  have hmark (cs : List Char) : ls.flatMap KeyLine.chars ≠ '\uFEFF' :: cs := fun h => by
    cases ls with
    | nil => cases h
    | cons l ls =>
      obtain ⟨c, ds, heq, hbare⟩ := head_lines (hls l List.mem_cons_self) ls
      exact ne_of_isBareKey hbare rfl (List.cons.inj (heq.symm.trans h)).1
  rw [read, String.toList_ofList]
  split
  next cs h => exact (hmark cs h).elim
  next => rw [hlines, Option.map_some, itemsToToml_map_item]

end Toml

end UpdaterBootstrap
