import UpdaterBootstrap.Proofs.FoundAnnotations

/-!
# Bytes of recognized annotations

What is cut out of a text is what the recognized annotations found in it cover, byte for byte
(`encode_cuts`) and so character for character (`cuts_eq`).
-/

namespace UpdaterBootstrap

def coveredBy (os : List Occurrence) (offset : Nat) : Bool :=
  os.any fun o => isRecognized o.name.toList && (decide (o.start ≤ offset) && decide (offset < o.stop))

def isCovered (source : String) (offset : Nat) : Bool :=
  coveredBy (findAnnotations source) offset

theorem coveredBy_of_lt {offset i : Nat} {ps : List Piece} (h : i < offset) :
    coveredBy (occurrencesFrom offset ps) i = false := by
  unfold coveredBy
  rw [List.any_eq_false]
  intro o ho
  obtain ⟨before, name, arguments, after, _, rfl⟩ := mem_occurrencesFrom.1 ho
  have hstart : ¬ offset + byteLength (before.flatMap Piece.text) ≤ i := by omega
  simp [hstart]

/-! ## Bytes of a text -/

def utf8 (cs : List Char) : List UInt8 :=
  cs.flatMap String.utf8EncodeChar

theorem utf8_append (a b : List Char) : utf8 (a ++ b) = utf8 a ++ utf8 b :=
  List.flatMap_append

theorem utf8_cons (c : Char) (cs : List Char) : utf8 (c :: cs) = String.utf8EncodeChar c ++ utf8 cs := rfl

theorem length_utf8 (cs : List Char) : (utf8 cs).length = byteLength cs := by
  induction cs with
  | nil => rfl
  | cons c cs ih => rw [utf8_cons, List.length_append, String.length_utf8EncodeChar, ih, byteLength_cons]

theorem utf8_toList (s : String) : utf8 s.toList = s.toUTF8.data.toList := by
  rw [← bytesOf_marked, bytesOf, utf8, ← map_fst_marked s.toList, List.flatMap_map, map_fst_marked]

theorem encode_map_mark (a : List Char) (mark : Bool) :
    encode (a.map (·, mark)) = (utf8 a).map (·, mark) := by
  induction a with
  | nil => rfl
  | cons c a ih => rw [List.map_cons, encode_cons, ih, utf8_cons, List.map_append]

def coveredBytes (covered : Nat → Bool) (offset : Nat) (bs : List UInt8) : List MarkedByte :=
  (bs.zipIdx offset).map fun b => (b.1, covered b.2)

theorem coveredBytes_append (covered : Nat → Bool) (offset : Nat) (a b : List UInt8) :
    coveredBytes covered offset (a ++ b) =
      coveredBytes covered offset a ++ coveredBytes covered (offset + a.length) b := by
  rw [coveredBytes, List.zipIdx_append, List.map_append]
  rfl

theorem coveredBytes_const {covered : Nat → Bool} {offset : Nat} {bs : List UInt8} {mark : Bool}
    (h : ∀ i, offset ≤ i → i < offset + bs.length → covered i = mark) :
    coveredBytes covered offset bs = bs.map (·, mark) := by
  have hmarks : ∀ b ∈ bs.zipIdx offset, (b.1, covered b.2) = (b.1, mark) := by
    intro b hb
    obtain ⟨hlow, hhigh, _⟩ := List.mem_zipIdx hb
    rw [h b.2 hlow hhigh]
  rw [coveredBytes, List.map_congr_left hmarks]
  conv => rhs; rw [← List.zipIdx_map_fst offset bs, List.map_map]
  rfl

/-! ## Cuts -/

def Piece.isCut : Piece → Bool
  | .plain _ => false
  | .occurrence name _ => isRecognized name

theorem Piece.cuts_eq (p : Piece) : p.cuts = p.text.map (·, p.isCut) := by
  cases p <;> rfl

theorem coveredBy_piece {p : Piece} {offset i : Nat} (hlow : offset ≤ i)
    (hhigh : i < offset + byteLength p.text)
    (ps : List Piece) : coveredBy (occurrencesFrom offset (p :: ps)) i = p.isCut := by
  have hlater : coveredBy (occurrencesFrom (offset + byteLength p.text) ps) i = false := coveredBy_of_lt hhigh
  cases p with
  | plain c => exact hlater
  | occurrence name arguments =>
    rw [occurrencesFrom, coveredBy, List.any_cons, ← coveredBy, hlater, stop_eq, String.toList_ofList]
    simp [hlow, hhigh, Piece.isCut]

theorem coveredBy_later {p : Piece} {offset i : Nat} (h : offset + byteLength p.text ≤ i) (ps : List Piece) :
    coveredBy (occurrencesFrom offset (p :: ps)) i =
      coveredBy (occurrencesFrom (offset + byteLength p.text) ps) i := by
  cases p with
  | plain c => rfl
  | occurrence name arguments =>
    have hstop : ¬ i < offset + byteLength (Piece.occurrence name arguments).text := by omega
    rw [occurrencesFrom, coveredBy, List.any_cons, ← coveredBy, stop_eq]
    simp [hstop]

theorem encode_flatMap_cuts {covered : Nat → Bool} {offset : Nat} {ps : List Piece}
    (h : ∀ i, offset ≤ i → covered i = coveredBy (occurrencesFrom offset ps) i) :
    encode (ps.flatMap Piece.cuts) = coveredBytes covered offset (utf8 (ps.flatMap Piece.text)) := by
  induction ps generalizing offset with
  | nil => rfl
  | cons p ps ih =>
    have hpiece : encode p.cuts = coveredBytes covered offset (utf8 p.text) := by
      rw [p.cuts_eq, encode_map_mark, coveredBytes_const]
      intro i hlow hhigh
      rw [length_utf8] at hhigh
      rw [h i hlow, coveredBy_piece hlow hhigh]
    have hlater : encode (ps.flatMap Piece.cuts) =
        coveredBytes covered (offset + byteLength p.text) (utf8 (ps.flatMap Piece.text)) := by
      apply ih
      intro i hi
      rw [h i (by omega), coveredBy_later hi]
    rw [List.flatMap_cons, List.flatMap_cons, encode_append, utf8_append, coveredBytes_append,
      length_utf8, hpiece, hlater]

/-- The bytes that are cut out are those that recognized annotations cover. -/
theorem encode_cuts (source : String) :
    encode (cuts source.toList) = coveredBytes (isCovered source) 0 source.toUTF8.data.toList := by
  have htext : (pieces source.toList).flatMap Piece.text = source.toList := flatMap_text_piecesFrom false _ _
  have hcuts : encode (cuts source.toList) =
      coveredBytes (isCovered source) 0 (utf8 ((pieces source.toList).flatMap Piece.text)) :=
    encode_flatMap_cuts fun i _ => rfl
  rw [htext, utf8_toList] at hcuts
  exact hcuts

/-! ## Characters -/

def coveredChars (covered : Nat → Bool) (offset : Nat) : List Char → List Cut
  | [] => []
  | c :: cs => (c, covered offset) :: coveredChars covered (offset + c.utf8Size) cs

theorem eq_coveredChars {covered : Nat → Bool} {offset : Nat} {ms : List Cut}
    (h : encode ms = coveredBytes covered offset (utf8 (ms.map Prod.fst))) :
    ms = coveredChars covered offset (ms.map Prod.fst) := by
  induction ms generalizing offset with
  | nil => rfl
  | cons m ms ih =>
    obtain ⟨c, removed⟩ := m
    rw [encode_cons, List.map_cons, utf8_cons, coveredBytes_append] at h
    obtain ⟨hchar, hrest⟩ := List.append_inj h (by simp [coveredBytes])
    rw [String.length_utf8EncodeChar] at hrest
    have hmark : removed = covered offset := by
      cases hbytes : String.utf8EncodeChar c with
      | nil => exact absurd hbytes String.utf8EncodeChar_ne_nil
      | cons b bs =>
        rw [hbytes] at hchar
        exact congrArg Prod.snd (List.cons.inj hchar).1
    rw [List.map_cons, coveredChars, ← hmark, ← ih hrest]

theorem cuts_eq (source : String) : cuts source.toList = coveredChars (isCovered source) 0 source.toList := by
  have hchars : cuts source.toList =
      coveredChars (isCovered source) 0 ((cuts source.toList).map Prod.fst) := by
    apply eq_coveredChars
    rw [map_fst_cuts, utf8_toList]
    exact encode_cuts source
  rwa [map_fst_cuts] at hchars

theorem length_coveredChars (covered : Nat → Bool) (offset : Nat) (cs : List Char) :
    (coveredChars covered offset cs).length = cs.length := by
  induction cs generalizing offset with
  | nil => rfl
  | cons c cs ih => rw [coveredChars, List.length_cons, ih, List.length_cons]

theorem coveredChars_append (covered : Nat → Bool) (offset : Nat) (a b : List Char) :
    coveredChars covered offset (a ++ b) =
      coveredChars covered offset a ++ coveredChars covered (offset + byteLength a) b := by
  induction a generalizing offset with
  | nil => rfl
  | cons c a ih =>
    rw [byteLength_cons, ← Nat.add_assoc]
    exact congrArg _ (ih _)

end UpdaterBootstrap
