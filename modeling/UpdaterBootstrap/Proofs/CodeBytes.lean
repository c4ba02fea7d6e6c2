import UpdaterBootstrap.Proofs.SameCode

/-!
# Bytes of the code

Two texts whose bytes are code at the same places, and are the same there, have the same code,
because the first bytes of a character tell where it ends. So their annotations and class headers
are the same, whatever their comments and quoted texts are (`findAnnotations_congr`).
-/

namespace UpdaterBootstrap

/-! ## Bytes of characters -/

theorem eq_of_utf8EncodeChar_append {c d : Char} {x y : List UInt8}
    (h : String.utf8EncodeChar c ++ x = String.utf8EncodeChar d ++ y) : c = d := by
  have hdecode (c : Char) (x : List UInt8) :
      (String.utf8EncodeChar c ++ x).toByteArray.utf8DecodeChar? 0 = some c := by
    rw [List.toByteArray_append]
    exact ByteArray.utf8DecodeChar?_utf8EncodeChar_append
  have hc := hdecode c x
  rw [h, hdecode d y] at hc
  exact (Option.some.inj hc).symm

/-- A character is known by as many bytes as the longer one has. -/
theorem eq_of_bytes {c d : Char} {x y : List UInt8} (hle : c.utf8Size ≤ d.utf8Size)
    (h : ∀ i < d.utf8Size, (String.utf8EncodeChar c ++ x)[i]? = (String.utf8EncodeChar d ++ y)[i]?) :
    c = d := by
  have htake : (String.utf8EncodeChar c ++ x).take d.utf8Size =
      (String.utf8EncodeChar d ++ y).take d.utf8Size := by
    apply List.ext_getElem?
    intro i
    rw [List.getElem?_take, List.getElem?_take]
    split
    · exact h i ‹_›
    · rfl
  rw [List.take_append, List.take_append, String.length_utf8EncodeChar, String.length_utf8EncodeChar,
    List.take_of_length_le (by rw [String.length_utf8EncodeChar]; exact hle),
    List.take_of_length_le (Nat.le_of_eq (String.length_utf8EncodeChar d))] at htake
  exact eq_of_utf8EncodeChar_append htake

/-! ## Bytes of marked texts -/

def maskOf (ms : List Marked) : List Bool :=
  ms.flatMap fun m => List.replicate m.1.utf8Size m.2

def bytesOf (ms : List Marked) : List UInt8 :=
  ms.flatMap fun m => String.utf8EncodeChar m.1

theorem maskOf_cons (c : Char) (code : Bool) (ms : List Marked) :
    maskOf ((c, code) :: ms) = List.replicate c.utf8Size code ++ maskOf ms := rfl

theorem bytesOf_cons (c : Char) (code : Bool) (ms : List Marked) :
    bytesOf ((c, code) :: ms) = String.utf8EncodeChar c ++ bytesOf ms := rfl

theorem head?_maskOf (c : Char) (code : Bool) (ms : List Marked) :
    (maskOf ((c, code) :: ms)).head? = some code := by
  have hpos := c.utf8Size_pos
  rw [maskOf_cons, List.head?_append_of_ne_nil _ (by simp; omega), List.head?_replicate, if_neg (by omega)]

theorem maskOf_hidden (a : List Char) (ms : List Marked) :
    maskOf (a.map (·, false) ++ ms) = List.replicate (byteLength a) false ++ maskOf ms := by
  rw [maskOf, List.flatMap_append, flatMap_replicate_mark]
  rfl

theorem length_bytesOf_hidden (a : List Char) : (bytesOf (a.map (·, false))).length = byteLength a := by
  induction a with
  | nil => rfl
  | cons c a ih =>
    rw [List.map_cons, bytesOf_cons, List.length_append, String.length_utf8EncodeChar, ih, byteLength_cons]

structure SameBytes (ms ns : List Marked) : Prop where
  mask : maskOf ms = maskOf ns
  bytes : ∀ i : Nat, (maskOf ms)[i]? = some true → (bytesOf ms)[i]? = (bytesOf ns)[i]?

theorem SameBytes.code {c d : Char} {ms ns : List Marked}
    (h : SameBytes ((c, true) :: ms) ((d, true) :: ns)) :
    c = d ∧ SameBytes ms ns := by
  have hcode (e : Char) (ls : List Marked) (i : Nat) (hi : i < e.utf8Size) :
      (maskOf ((e, true) :: ls))[i]? = some true := by
    rw [maskOf_cons, List.getElem?_append_left (by simpa using hi), List.getElem?_replicate, if_pos hi]
  obtain rfl : c = d := by
    rcases Nat.le_total c.utf8Size d.utf8Size with hle | hle
    · apply eq_of_bytes hle
      intro i hi
      apply h.bytes i
      rw [h.mask]
      exact hcode d ns i hi
    · symm
      apply eq_of_bytes hle
      intro i hi
      symm
      exact h.bytes i (hcode c ms i hi)
  refine ⟨rfl, List.append_cancel_left h.mask, ?_⟩
  intro i hi
  have hlater := h.bytes (c.utf8Size + i)
  rw [maskOf_cons, List.getElem?_append_right (by simp), List.length_replicate, Nat.add_sub_cancel_left,
    bytesOf_cons,
    bytesOf_cons, List.getElem?_append_right (by simp), List.getElem?_append_right (by simp),
    String.length_utf8EncodeChar, Nat.add_sub_cancel_left] at hlater
  exact hlater hi

theorem eq_of_replicate_append {k l : Nat} {x y : List Bool} (hx : x.head? ≠ some false)
    (hy : y.head? ≠ some false)
    (h : List.replicate k false ++ x = List.replicate l false ++ y) : k = l ∧ x = y := by
  induction k generalizing l with
  | zero =>
    cases l with
    | zero => exact ⟨rfl, h⟩
    | succ l =>
      rw [List.replicate_zero, List.nil_append] at h
      rw [h] at hx
      exact absurd rfl hx
  | succ k ih =>
    cases l with
    | zero =>
      rw [List.replicate_zero, List.nil_append] at h
      rw [← h] at hy
      exact absurd rfl hy
    | succ l =>
      obtain ⟨rfl, hrest⟩ := ih (List.cons.inj h).2
      exact ⟨rfl, hrest⟩

theorem SameBytes.hidden {a b : List Char} {ms ns : List Marked} (hms : (maskOf ms).head? ≠ some false)
    (hns : (maskOf ns).head? ≠ some false) (h : SameBytes (a.map (·, false) ++ ms) (b.map (·, false) ++ ns)) :
    byteLength a = byteLength b ∧ SameBytes ms ns := by
  have hmask := h.mask
  rw [maskOf_hidden, maskOf_hidden] at hmask
  obtain ⟨hlength, hrest⟩ := eq_of_replicate_append hms hns hmask
  refine ⟨hlength, hrest, ?_⟩
  intro i hi
  have hlater := h.bytes (byteLength a + i)
  rw [maskOf_hidden, List.getElem?_append_right (by simp), List.length_replicate,
    Nat.add_sub_cancel_left, bytesOf, bytesOf, List.flatMap_append, List.flatMap_append] at hlater
  have hskip (a : List Char) (ls : List Marked) (n : Nat) (hn : byteLength a = n) :
      (bytesOf (a.map (·, false)) ++ bytesOf ls)[n + i]? = (bytesOf ls)[i]? := by
    rw [List.getElem?_append_right (by rw [length_bytesOf_hidden]; omega), length_bytesOf_hidden, hn,
      Nat.add_sub_cancel_left]
  have hsame := hlater hi
  exact (hskip a ms _ rfl).symm.trans (hsame.trans (hskip b ns _ hlength.symm))

/-- Characters that are no code, up to the next one that is. -/
theorem exists_hidden (ms : List Marked) :
    ∃ (a : List Char) (ms' : List Marked), ms = a.map (·, false) ++ ms' ∧
      (maskOf ms').head? ≠ some false := by
  induction ms with
  | nil => exact ⟨[], [], rfl, nofun⟩
  | cons m ms ih =>
    obtain ⟨c, code⟩ := m
    cases code with
    | true =>
      refine ⟨[], (c, true) :: ms, rfl, ?_⟩
      rw [head?_maskOf]
      exact nofun
    | false =>
      obtain ⟨a, ms', rfl, hms'⟩ := ih
      exact ⟨c :: a, ms', rfl, hms'⟩

theorem sameCode_of_sameBytes {ms ns : List Marked} (h : SameBytes ms ns) : SameCode ms ns := by
  induction hn : ms.length using Nat.strongRecOn generalizing ms ns with
  | ind n ih =>
    subst hn
    have hhead := congrArg List.head? h.mask
    match ms, ns with
    | [], [] => exact .nil
    | [], (d, code) :: ns =>
      rw [head?_maskOf] at hhead
      cases hhead
    | (c, code) :: ms, [] =>
      rw [head?_maskOf] at hhead
      cases hhead
    | (c, true) :: ms, (d, code) :: ns =>
      rw [head?_maskOf, head?_maskOf] at hhead
      obtain rfl := Option.some.inj hhead
      obtain ⟨rfl, hrest⟩ := h.code
      exact .code c (ih ms.length (by simp) hrest rfl)
    | (c, false) :: ms, (d, code) :: ns =>
      rw [head?_maskOf, head?_maskOf] at hhead
      obtain rfl := Option.some.inj hhead
      -- hidden parts are compared as a whole: their characters need not have the same lengths
      obtain ⟨a, ms', rfl, hms'⟩ := exists_hidden ms
      obtain ⟨b, ns', rfl, hns'⟩ := exists_hidden ns
      obtain ⟨hlength, hrest⟩ := SameBytes.hidden (a := c :: a) (b := d :: b) hms' hns' h
      have hshort : ms'.length < ((c, false) :: (a.map (·, false) ++ ms')).length := by
        rw [List.length_cons, List.length_append]
        omega
      exact .hidden (List.cons_ne_nil c a) (List.cons_ne_nil d b) hlength (ih _ hshort hrest rfl)

/-! ## Texts -/

theorem bytesOf_marked (s : String) : bytesOf (marked s.toList) = s.toUTF8.data.toList := by
  have hbytes : bytesOf (marked s.toList) =
      ((marked s.toList).map Prod.fst).flatMap String.utf8EncodeChar := by
    rw [List.flatMap_map]
    rfl
  have hdata : s.toUTF8 = (s.toList.flatMap String.utf8EncodeChar).toByteArray := by
    rw [String.toUTF8, ← String.utf8Encode_toList]
    rfl
  rw [hbytes, map_fst_marked, hdata, List.toList_data_toByteArray]

/-- What is found in a text does not depend on its comments and quoted texts: where two texts are
code at the same bytes and agree there, their annotations have the same names, places and argument
lists or not, and their class headers are the same. -/
theorem findAnnotations_congr {s t : String} (hmask : codeMask s.toList = codeMask t.toList)
    (hbytes : ∀ i : Nat, (codeMask s.toList)[i]? = some true → s.toUTF8.data[i]? = t.toUTF8.data[i]?) :
    (findAnnotations s).map Occurrence.extent = (findAnnotations t).map Occurrence.extent ∧
      findClassHeader s = findClassHeader t := by
  have hsame : SameBytes (marked s.toList) (marked t.toList) := by
    refine ⟨hmask, ?_⟩
    intro i hi
    rw [bytesOf_marked, bytesOf_marked, Array.getElem?_toList, Array.getElem?_toList]
    exact hbytes i hi
  have hcode := sameCode_of_sameBytes hsame
  have hs : Bordered (marked s.toList) := bordered_markedFrom (Reading.reached_start _)
  have ht : Bordered (marked t.toList) := bordered_markedFrom (Reading.reached_start _)
  constructor
  · exact map_extent_eq hcode hs ht (fun _ _ => rfl) 0
  · exact classHeaderFrom_eq hcode hs ht (fun _ _ => rfl) 0

/-- A quote and a point, in a comment and in a quoted text. -/
theorem findAnnotations_congr_quoted :
    let s := "/*'.*/@B('(') class C"
    let t := "\"é@(\"@B(\"x\") class C"
    codeMask s.toList = codeMask t.toList ∧ (findAnnotations s).map Occurrence.extent = [("B", 6, 13, true)] ∧
      (findAnnotations t).map Occurrence.extent = [("B", 6, 13, true)] ∧
        findClassHeader t = findClassHeader s := by
  intro s t
  have hmask : codeMask s.toList = codeMask t.toList := by decide +kernel
  have hlength : (codeMask s.toList).length = 21 := by decide +kernel
  have hbytes : ∀ i < 21, (codeMask s.toList)[i]? = some true →
      s.toUTF8.data[i]? = t.toUTF8.data[i]? := by decide +kernel
  obtain ⟨hfound, hheader⟩ := findAnnotations_congr hmask fun i hi => by
    apply hbytes i _ hi
    rw [← hlength]
    exact (List.getElem?_eq_some_iff.1 hi).1
  have hs : (findAnnotations s).map Occurrence.extent = [("B", 6, 13, true)] := by decide +kernel
  exact ⟨hmask, hs, hfound ▸ hs, hheader.symm⟩

end UpdaterBootstrap
