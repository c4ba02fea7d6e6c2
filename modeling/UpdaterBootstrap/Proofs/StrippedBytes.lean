import UpdaterBootstrap.Proofs.CoveredBytes
import UpdaterBootstrap.Proofs.LineStructure

/-!
# Stripping bytes

Annotations can be cut out of the bytes of a text, line by line, without a look at its characters.
What stays are the bytes of the stripped text (`strippedBytes_eq`), so they are a text again,
whatever characters the lines have.
-/

namespace UpdaterBootstrap

/-! ## Lines of bytes -/

def feedByte : UInt8 := '\n'.toUInt8

def byteLines : List MarkedByte → List (List MarkedByte)
  | [] => []
  | b :: bs =>
    if b.1 == feedByte then [b] :: byteLines bs
    else match byteLines bs with
      | [] => [[b]]
      | l :: ls => (b :: l) :: ls

theorem byteLines_line {a : List MarkedByte} (h : ∀ b ∈ a, b.1 ≠ feedByte) (removed : Bool)
    (bs : List MarkedByte) :
    byteLines (a ++ (feedByte, removed) :: bs) = (a ++ [(feedByte, removed)]) :: byteLines bs := by
  induction a with
  | nil => simp [byteLines]
  | cons b a ih =>
    obtain ⟨hb, ha⟩ := List.forall_mem_cons.1 h
    rw [List.cons_append, byteLines, if_neg (by simpa using hb), ih ha]
    rfl

theorem byteLines_last {a : List MarkedByte} (h : ∀ b ∈ a, b.1 ≠ feedByte) (hne : a ≠ []) :
    byteLines a = [a] := by
  induction a with
  | nil => exact absurd rfl hne
  | cons b a ih =>
    obtain ⟨hb, ha⟩ := List.forall_mem_cons.1 h
    rw [byteLines, if_neg (by simpa using hb)]
    cases a with
    | nil => rfl
    | cons d a => rw [ih ha (by simp)]

/-! ## What stays -/

def isAsciiBlankByte (b : UInt8) : Bool :=
  b == ' '.toUInt8 || b == '\t'.toUInt8 || b == '\n'.toUInt8 || b == '\x0c'.toUInt8 || b == '\r'.toUInt8

/-- Whether the line feed at the end of a line is cut out, if there is one. -/
def byteFeed? (line : List MarkedByte) : Option Bool :=
  (line.getLast?.filter (·.1 == feedByte)).map Prod.snd

def byteContent (line : List MarkedByte) : List MarkedByte :=
  if (byteFeed? line).isSome then line.dropLast else line

/-- What stays of a line whose marked bytes are cut out. A line that only blanks stay of goes, or
stays empty with the line count. A line feed that is cut out stays only with the line count. -/
def stayingBytes (keepLineCount : Bool) (line : List MarkedByte) : List UInt8 :=
  if !line.any (·.2) then line.map Prod.fst
  else
    let kept := ((byteContent line).filter fun b => !b.2).map Prod.fst
    let blank := kept.all isAsciiBlankByte
    let feedStays := (byteFeed? line).any fun removed => keepLineCount || (!blank && !removed)
    (if blank then [] else kept) ++ if feedStays then [feedByte] else []

def strippedBytes (source : String) (keepLineCount : Bool) : List UInt8 :=
  (byteLines (coveredBytes (isCovered source) 0 source.toUTF8.data.toList)).flatMap
    (stayingBytes keepLineCount)

/-! ## Bytes of characters -/

theorem ne_feedByte_of_mem_encode {cs : List Cut} (h : ∀ c ∈ cs, c.1 ≠ '\n') :
    ∀ b ∈ encode cs, b.1 ≠ feedByte := by
  intro b hb hfeed
  obtain ⟨c, hc, hbytes⟩ := List.mem_flatMap.1 hb
  obtain ⟨byte, hbyte, rfl⟩ := List.mem_map.1 hbytes
  obtain rfl : byte = '\n'.toUInt8 := hfeed
  exact h c hc (eq_of_mem_utf8EncodeChar (by decide) hbyte)

theorem all_utf8EncodeChar (c : Char) : (String.utf8EncodeChar c).all isAsciiBlankByte = isAsciiBlank c := by
  rw [Bool.eq_iff_iff, List.all_eq_true]
  constructor
  · intro h
    cases hbytes : String.utf8EncodeChar c with
    | nil => exact absurd hbytes String.utf8EncodeChar_ne_nil
    | cons b bs =>
      have hb : b ∈ String.utf8EncodeChar c := by simp [hbytes]
      have hblank := h b hb
      simp only [isAsciiBlankByte, Bool.or_eq_true, beq_iff_eq] at hblank
      rcases hblank with (((rfl | rfl) | rfl) | rfl) | rfl <;>
        rw [eq_of_mem_utf8EncodeChar (by decide) hb] <;> rfl
  · intro h
    simp only [isAsciiBlank, Bool.or_eq_true, beq_iff_eq] at h
    rw [← List.all_eq_true]
    rcases h with (((rfl | rfl) | rfl) | rfl) | rfl <;> rfl

theorem all_utf8 (cs : List Char) : (utf8 cs).all isAsciiBlankByte = cs.all isAsciiBlank := by
  induction cs with
  | nil => rfl
  | cons c cs ih => rw [utf8_cons, List.all_append, all_utf8EncodeChar, ih, List.all_cons]

theorem map_fst_encode (cs : List Cut) : (encode cs).map Prod.fst = utf8 (cs.map Prod.fst) := by
  induction cs with
  | nil => rfl
  | cons c cs ih =>
    rw [encode_cons, List.map_append, ih, List.map_map, List.map_cons, utf8_cons]
    exact congrArg (· ++ _) (List.map_id _)

theorem any_encode (cs : List Cut) : (encode cs).any (·.2) = cs.any (·.2) := by
  induction cs with
  | nil => rfl
  | cons c cs ih =>
    have hchar : ((String.utf8EncodeChar c.1).map (·, c.2)).any (·.2) = c.2 := by
      cases hbytes : String.utf8EncodeChar c.1 with
      | nil => exact absurd hbytes String.utf8EncodeChar_ne_nil
      | cons b bs => simp [List.any_map, Function.comp_def]
    rw [encode_cons, List.any_append, hchar, ih, List.any_cons]

theorem filter_encode (cs : List Cut) :
    (encode cs).filter (fun b => !b.2) = encode (cs.filter fun c => !c.2) := by
  induction cs with
  | nil => rfl
  | cons c cs ih =>
    obtain ⟨c, removed⟩ := c
    rw [encode_cons, List.filter_append, ih, List.filter_map]
    cases removed with
    | false => simp [Function.comp_def, encode_cons]
    | true => simp [Function.comp_def]

/-! ## Lines of a text -/

theorem any_encode_whole (l : CutLine) : (encode l.whole).any (·.2) = l.isTouched := by
  rw [any_encode, CutLine.whole, List.any_append, CutLine.isTouched]
  cases l.feed <;> simp

section
variable {l : CutLine} (h : ∀ c ∈ l.content, c.1 ≠ '\n')
include h

theorem byteFeed?_encode : byteFeed? (encode l.whole) = l.feed := by
  cases hfeed : l.feed with
  | none =>
    have hwhole : l.whole = l.content := by simp [CutLine.whole, hfeed]
    have hlast : (encode l.content).getLast?.filter (·.1 == feedByte) = none := by
      rw [Option.filter_eq_none_iff]
      intro b hb
      simpa using ne_feedByte_of_mem_encode h b (List.mem_of_getLast? hb)
    rw [byteFeed?, hwhole, hlast, Option.map_none]
  | some removed =>
    have hwhole : encode l.whole = encode l.content ++ [(feedByte, removed)] := by
      rw [CutLine.whole, hfeed, encode_append]
      rfl
    rw [byteFeed?, hwhole, List.getLast?_concat]
    rfl

theorem byteContent_encode : byteContent (encode l.whole) = encode l.content := by
  rw [byteContent, byteFeed?_encode h, CutLine.whole, encode_append]
  cases l.feed with
  | none => simp [encode]
  | some removed => exact List.dropLast_concat

/-- Of each line the bytes stay that its characters leave. -/
theorem stayingBytes_encode (keepLineCount : Bool) :
    stayingBytes keepLineCount (encode l.whole) = utf8 (l.rest keepLineCount) := by
  have hkept : ((encode l.content).filter fun b => !b.2).map Prod.fst = utf8 l.kept := by
    rw [filter_encode, map_fst_encode, CutLine.kept]
  rw [stayingBytes, any_encode_whole]
  cases htouched : l.isTouched with
  | false => rw [Bool.not_false, if_pos rfl, map_fst_encode, rest_of_untouched htouched]
  | true =>
    have hfeedByte : [feedByte] = utf8 ['\n'] := rfl
    have hnil : utf8 [] = [] := rfl
    rw [CutLine.rest, htouched, CutLine.feedText, byteFeed?_encode h, byteContent_encode h, hkept]
    dsimp only
    rw [all_utf8, hfeedByte]
    cases l.feed with
    | none => cases l.kept.all isAsciiBlank <;> simp [hnil]
    | some removed =>
      cases l.kept.all isAsciiBlank <;> cases keepLineCount <;> cases removed <;> simp [utf8_append, hnil]

end

theorem flatMap_stayingBytes (keepLineCount : Bool) (cs : List Cut) :
    (byteLines (encode cs)).flatMap (stayingBytes keepLineCount) =
      utf8 ((cutLines cs).flatMap (CutLine.rest keepLineCount)) := by
  induction cs using cuts_induction with
  | last a h =>
    by_cases hne : a = []
    · subst hne
      rfl
    · have hbytes : encode a ≠ [] := by
        obtain ⟨c, cs, rfl⟩ := List.exists_cons_of_ne_nil hne
        rw [encode_cons]
        simp [String.utf8EncodeChar_ne_nil]
      have hwhole : (⟨a, none⟩ : CutLine).whole = a := List.append_nil a
      have hline := stayingBytes_encode (l := ⟨a, none⟩) h keepLineCount
      rw [hwhole] at hline
      rw [byteLines_last (ne_feedByte_of_mem_encode h) hbytes, cutLines_last h hne, List.flatMap_singleton,
        List.flatMap_singleton, hline]
  | line a removed rest h ih =>
    have hbytes : encode (a ++ ('\n', removed) :: rest) = encode a ++ (feedByte, removed) :: encode rest := by
      rw [encode_append, encode_ascii (by decide)]
      rfl
    have hwhole : encode (⟨a, some removed⟩ : CutLine).whole = encode a ++ [(feedByte, removed)] := by
      rw [CutLine.whole, encode_append]
      rfl
    have hline := stayingBytes_encode (l := ⟨a, some removed⟩) h keepLineCount
    rw [hwhole] at hline
    rw [hbytes, byteLines_line (ne_feedByte_of_mem_encode h), cutLines_line h, List.flatMap_cons,
      List.flatMap_cons, utf8_append, ih, hline]

theorem strippedBytes_eq (source : String) (keepLineCount : Bool) :
    strippedBytes source keepLineCount = (stripAnnotations source keepLineCount).toUTF8.data.toList := by
  rw [strippedBytes, ← encode_cuts, flatMap_stayingBytes, ← utf8_toList, toList_stripAnnotations, stripChars]

end UpdaterBootstrap
