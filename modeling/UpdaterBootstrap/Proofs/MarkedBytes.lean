import UpdaterBootstrap.Proofs.CodeBytes

/-!
# Argument lists in bytes

An argument list is read from characters that are marked as code or not. Its parentheses can be
counted in the bytes as well (`isArgumentList_encoded`), because no other character has the byte of
one.
-/

namespace UpdaterBootstrap

/-! ## ASCII characters -/

theorem utf8EncodeChar_ascii {c : Char} (h : c.toNat < 128) : String.utf8EncodeChar c = [c.toUInt8] := by
  have hle : c.val.toNat ≤ 127 := Nat.le_of_lt_succ h
  unfold String.utf8EncodeChar
  rw [if_pos hle]
  rfl

theorem le_of_mem_utf8EncodeChar {c : Char} (h : 128 ≤ c.toNat) {b : UInt8}
    (hb : b ∈ String.utf8EncodeChar c) :
    128 ≤ b.toNat := by
  have hle : ¬ c.val.toNat ≤ 127 := Nat.not_le.2 h
  have hmod (n : Nat) (hn : 128 ≤ n % 256) : 128 ≤ (UInt8.ofNat n).toNat := hn
  unfold String.utf8EncodeChar at hb
  dsimp only at hb
  rw [if_neg hle] at hb
  -- the first byte of two, three or four is 192 or more, the others are 128 or more
  split at hb
  · simp only [List.mem_cons, List.not_mem_nil, or_false] at hb
    rcases hb with rfl | rfl <;> apply hmod <;> omega
  split at hb
  · simp only [List.mem_cons, List.not_mem_nil, or_false] at hb
    rcases hb with rfl | rfl | rfl <;> apply hmod <;> omega
  · simp only [List.mem_cons, List.not_mem_nil, or_false] at hb
    rcases hb with rfl | rfl | rfl | rfl <;> apply hmod <;> omega

/-- The byte of an ASCII character is a byte of no other character. -/
theorem eq_of_mem_utf8EncodeChar {a c : Char} (ha : a.toNat < 128) (h : a.toUInt8 ∈ String.utf8EncodeChar c) :
    c = a := by
  have hbyte {d : Char} (hd : d.toNat < 128) : d.toUInt8.toNat = d.toNat :=
    Nat.mod_eq_of_lt (show d.toNat < 256 by omega)
  by_cases hc : c.toNat < 128
  · rw [utf8EncodeChar_ascii hc, List.mem_singleton] at h
    have := congrArg UInt8.toNat h
    rw [hbyte ha, hbyte hc] at this
    exact (Char.toNat_inj.1 this).symm
  · have hle := le_of_mem_utf8EncodeChar (Nat.le_of_not_lt hc) h
    rw [hbyte ha] at hle
    omega

/-! ## Bytes with their marks -/

abbrev MarkedByte := UInt8 × Bool

def markedBytes (s : String) : List MarkedByte :=
  s.toUTF8.data.toList.zip (codeMask s.toList)

def encode (ms : List Marked) : List MarkedByte :=
  ms.flatMap fun m => (String.utf8EncodeChar m.1).map (·, m.2)

theorem encode_cons (c : Char) (code : Bool) (ms : List Marked) :
    encode ((c, code) :: ms) = (String.utf8EncodeChar c).map (·, code) ++ encode ms := rfl

theorem encode_ascii {c : Char} (h : c.toNat < 128) (code : Bool) (ms : List Marked) :
    encode ((c, code) :: ms) = (c.toUInt8, code) :: encode ms := by
  rw [encode_cons, utf8EncodeChar_ascii h]
  rfl

theorem encode_append (us vs : List Marked) : encode (us ++ vs) = encode us ++ encode vs :=
  List.flatMap_append

theorem length_encode (ms : List Marked) : (encode ms).length = byteLength (ms.map Prod.fst) := by
  induction ms with
  | nil => rfl
  | cons m ms ih =>
    rw [encode_cons, List.length_append, List.length_map, String.length_utf8EncodeChar, ih]
    rfl

theorem zip_bytesOf_maskOf (ms : List Marked) : (bytesOf ms).zip (maskOf ms) = encode ms := by
  induction ms with
  | nil => rfl
  | cons m ms ih =>
    obtain ⟨c, code⟩ := m
    have hchar : (String.utf8EncodeChar c).zip (List.replicate c.utf8Size code) =
        (String.utf8EncodeChar c).map (·, code) := by
      rw [← String.length_utf8EncodeChar, ← List.map_const', ← List.map_prod_left_eq_zip]
    rw [bytesOf_cons, maskOf_cons, List.zip_append (by simp), hchar, ih, encode_cons]

theorem markedBytes_eq (s : String) : markedBytes s = encode (marked s.toList) := by
  rw [markedBytes, ← bytesOf_marked]
  exact zip_bytesOf_maskOf (marked s.toList)

/-- Where the byte of an ASCII character stands, the character stands. -/
theorem getElem?_encode {a : Char} (ha : a.toNat < 128) {code : Bool} {ms : List Marked} {i : Nat} :
    (encode ms)[i]? = some (a.toUInt8, code) ↔
      ∃ us vs, ms = us ++ (a, code) :: vs ∧ byteLength (us.map Prod.fst) = i := by
  constructor
  · intro h
    induction ms generalizing i with
    | nil => cases h
    | cons m ms ih =>
      obtain ⟨c, code'⟩ := m
      rw [encode_cons] at h
      by_cases hi : i < ((String.utf8EncodeChar c).map (·, code')).length
      · rw [List.getElem?_append_left hi] at h
        obtain ⟨b, hb, heq⟩ := List.mem_map.1 (List.mem_of_getElem? h)
        obtain ⟨rfl, rfl⟩ := Prod.mk.inj heq
        obtain rfl := eq_of_mem_utf8EncodeChar ha hb
        rw [utf8EncodeChar_ascii ha] at hi
        obtain rfl : i = 0 := Nat.lt_one_iff.1 hi
        exact ⟨[], ms, rfl, rfl⟩
      · rw [List.getElem?_append_right (Nat.le_of_not_lt hi)] at h
        obtain ⟨us, vs, rfl, hus⟩ := ih h
        rw [List.length_map, String.length_utf8EncodeChar] at hi hus
        refine ⟨(c, code') :: us, vs, rfl, ?_⟩
        rw [List.map_cons, byteLength_cons, hus]
        exact Nat.add_sub_of_le (Nat.le_of_not_lt hi)
  · rintro ⟨us, vs, rfl, rfl⟩
    rw [encode_append, encode_ascii ha, ← length_encode, List.getElem?_append_right (Nat.le_refl _),
      Nat.sub_self]
    rfl

/-! ## The closing parenthesis -/

/-- Of the parentheses in code, `depth` more are closed than opened. -/
def IsBalanced (depth : Nat) (bs : List MarkedByte) : Prop :=
  depth + bs.count ('('.toUInt8, true) = bs.count (')'.toUInt8, true)

/-- So many bytes close all parentheses, `depth` of which were open before, and no fewer do. -/
def Closes (depth : Nat) (bs : List MarkedByte) (n : Nat) : Prop :=
  IsBalanced depth (bs.take n) ∧ ∀ k < n, ¬ IsBalanced depth (bs.take k)

theorem closes_zero {bs : List MarkedByte} {n : Nat} : Closes 0 bs n ↔ n = 0 := by
  constructor
  · intro h
    cases n with
    | zero => rfl
    | succ n => exact absurd rfl (h.2 0 (Nat.succ_pos n))
  · rintro rfl
    exact ⟨rfl, nofun⟩

theorem not_isBalanced_nil (depth : Nat) : ¬ IsBalanced (depth + 1) [] := by
  simp [IsBalanced]

/-- Nothing is closed yet before the first byte, so the rest decides, from the depth after it. -/
theorem closes_cons {depth depth' : Nat} {b : MarkedByte}
    (h : ∀ bs, IsBalanced (depth + 1) (b :: bs) ↔ IsBalanced depth' bs) {bs : List MarkedByte} {n : Nat} :
    Closes (depth + 1) (b :: bs) n ↔ ∃ m, n = m + 1 ∧ Closes depth' bs m := by
  constructor
  · rintro ⟨hclosed, hfirst⟩
    cases n with
    | zero => exact absurd hclosed (not_isBalanced_nil depth)
    | succ m =>
      refine ⟨m, rfl, (h _).1 hclosed, ?_⟩
      intro k hk hbalanced
      exact hfirst (k + 1) (Nat.succ_lt_succ hk) ((h _).2 hbalanced)
  · rintro ⟨m, rfl, hclosed, hfirst⟩
    refine ⟨(h _).2 hclosed, ?_⟩
    intro k hk
    cases k with
    | zero => exact not_isBalanced_nil depth
    | succ k =>
      intro hbalanced
      exact hfirst k (Nat.lt_of_succ_lt_succ hk) ((h _).1 hbalanced)

theorem closes_open {depth : Nat} {bs : List MarkedByte} {n : Nat} :
    Closes (depth + 1) (('('.toUInt8, true) :: bs) n ↔ ∃ m, n = m + 1 ∧ Closes (depth + 2) bs m := by
  apply closes_cons
  intro bs
  unfold IsBalanced
  rw [List.count_cons_self, List.count_cons_of_ne (by decide)]
  omega

theorem closes_close {depth : Nat} {bs : List MarkedByte} {n : Nat} :
    Closes (depth + 1) ((')'.toUInt8, true) :: bs) n ↔ ∃ m, n = m + 1 ∧ Closes depth bs m := by
  apply closes_cons
  intro bs
  unfold IsBalanced
  rw [List.count_cons_self, List.count_cons_of_ne (by decide)]
  omega

/-- Neither parenthesis in code is among the bytes. -/
theorem closes_append {depth : Nat} {a bs : List MarkedByte}
    (ha : ∀ b ∈ a, b ≠ ('('.toUInt8, true) ∧ b ≠ (')'.toUInt8, true)) {n : Nat} :
    Closes (depth + 1) (a ++ bs) n ↔ ∃ m, n = m + a.length ∧ Closes (depth + 1) bs m := by
  induction a generalizing n with
  | nil => simp
  | cons b a ih =>
    obtain ⟨hb, ha⟩ := List.forall_mem_cons.1 ha
    have hother : ∀ bs, IsBalanced (depth + 1) (b :: bs) ↔ IsBalanced (depth + 1) bs := by
      intro bs
      unfold IsBalanced
      rw [List.count_cons_of_ne hb.1, List.count_cons_of_ne hb.2]
    rw [List.cons_append, closes_cons hother]
    simp only [ih ha, List.length_cons]
    constructor
    · rintro ⟨_, rfl, m, rfl, h⟩
      exact ⟨m, rfl, h⟩
    · rintro ⟨m, rfl, h⟩
      exact ⟨m + a.length, rfl, m, rfl, h⟩

theorem closing?_map {o : Option (List Char)} {c : Char} {n : Nat} :
    (∃ inner, o.map (c :: ·) = some inner ∧ byteLength inner = n) ↔
      ∃ m, n = m + c.utf8Size ∧ ∃ inner, o = some inner ∧ byteLength inner = m := by
  constructor
  · rintro ⟨inner, hinner, rfl⟩
    obtain ⟨rest, rfl, rfl⟩ := Option.map_eq_some_iff.1 hinner
    exact ⟨byteLength rest, by rw [byteLength_cons, Nat.add_comm], rest, rfl, rfl⟩
  · rintro ⟨_, rfl, inner, rfl, rfl⟩
    exact ⟨c :: inner, rfl, by rw [byteLength_cons, Nat.add_comm]⟩

theorem closes_encode {depth : Nat} {ms : List Marked} {n : Nat} :
    Closes (depth + 1) (encode ms) n ↔ ∃ inner, closing? depth ms = some inner ∧ byteLength inner = n := by
  induction ms generalizing depth n with
  | nil =>
    constructor
    · rintro ⟨hclosed, _⟩
      exact absurd hclosed (by rw [encode, List.flatMap_nil, List.take_nil]; exact not_isBalanced_nil depth)
    · rintro ⟨_, h, _⟩
      cases h
  | cons m ms ih =>
    obtain ⟨c, code⟩ := m
    by_cases hopen : code = true ∧ c = '('
    · obtain ⟨rfl, rfl⟩ := hopen
      rw [encode_ascii (by decide), closes_open, closing?_open, closing?_map]
      simp only [ih]
      rfl
    by_cases hclose : code = true ∧ c = ')'
    · obtain ⟨rfl, rfl⟩ := hclose
      rw [encode_ascii (by decide), closes_close]
      cases depth with
      | zero =>
        simp only [closes_zero, closing?_last, Option.some.injEq, exists_eq_left', exists_eq_right]
        exact eq_comm
      | succ depth =>
        rw [closing?_close, closing?_map]
        simp only [ih]
        rfl
    -- none of the bytes of another character is that of a parenthesis
    · have hother : ∀ b ∈ (String.utf8EncodeChar c).map (·, code),
          b ≠ ('('.toUInt8, true) ∧ b ≠ (')'.toUInt8, true) := by
        rintro b hb
        obtain ⟨byte, hbyte, rfl⟩ := List.mem_map.1 hb
        constructor
        · intro heq
          obtain ⟨rfl, rfl⟩ := Prod.mk.inj heq
          exact hopen ⟨rfl, eq_of_mem_utf8EncodeChar (by decide) hbyte⟩
        · intro heq
          obtain ⟨rfl, rfl⟩ := Prod.mk.inj heq
          exact hclose ⟨rfl, eq_of_mem_utf8EncodeChar (by decide) hbyte⟩
      rw [encode_cons, closes_append hother, closing?_other, closing?_map]
      · simp only [ih, List.length_map, String.length_utf8EncodeChar]
      · intro hcode
        exact ⟨fun e => hopen ⟨hcode, e⟩, fun e => hclose ⟨hcode, e⟩⟩

/-! ## Argument lists -/

def IsBlankByte (b : MarkedByte) : Prop :=
  b.1 = ' '.toUInt8 ∨ b.1 = '\t'.toUInt8

def IsArgumentList (bs : List MarkedByte) (n : Nat) : Prop :=
  ∃ gap rest m, bs = gap ++ ('('.toUInt8, true) :: rest ∧ (∀ b ∈ gap, IsBlankByte b) ∧ Closes 1 rest m ∧
    n = gap.length + 1 + m

theorem isArgumentList_cons {b : MarkedByte} {bs : List MarkedByte} {n : Nat} :
    IsArgumentList (b :: bs) n ↔
      ∃ m, n = m + 1 ∧ (b = ('('.toUInt8, true) ∧ Closes 1 bs m ∨
        IsBlankByte b ∧ IsArgumentList bs m) := by
  constructor
  · rintro ⟨gap, rest, m, heq, hgap, hclosed, rfl⟩
    cases gap with
    | nil =>
      obtain ⟨rfl, rfl⟩ := List.cons.inj heq
      exact ⟨m, by simp; omega, .inl ⟨rfl, hclosed⟩⟩
    | cons d gap =>
      obtain ⟨rfl, rfl⟩ := List.cons.inj heq
      obtain ⟨hb, hgap⟩ := List.forall_mem_cons.1 hgap
      exact ⟨gap.length + 1 + m, by simp; omega, .inr ⟨hb, gap, rest, m, rfl, hgap, hclosed, rfl⟩⟩
  · rintro ⟨m, rfl, ⟨rfl, hclosed⟩ | ⟨hb, gap, rest, m, rfl, hgap, hclosed, rfl⟩⟩
    · exact ⟨[], bs, m, rfl, nofun, hclosed, by simp; omega⟩
    · exact ⟨b :: gap, rest, m, rfl, List.forall_mem_cons.2 ⟨hb, hgap⟩, hclosed, by simp; omega⟩

theorem isArgumentList_blank {c : Char} (hc : c = ' ' ∨ c = '\t') {code : Bool} {ms : List Marked} {n : Nat} :
    IsArgumentList (encode ((c, code) :: ms)) n ↔ ∃ m, n = m + 1 ∧ IsArgumentList (encode ms) m := by
  have hascii : c.toNat < 128 := by rcases hc with rfl | rfl <;> decide
  have hblank : IsBlankByte (c.toUInt8, code) := hc.imp (congrArg Char.toUInt8) (congrArg Char.toUInt8)
  have hopen : (c.toUInt8, code) ≠ ('('.toUInt8, true) := by
    intro heq
    have hbyte : c.toUInt8 = '('.toUInt8 := congrArg Prod.fst heq
    rcases hc with rfl | rfl <;> exact absurd hbyte (by decide)
  rw [encode_ascii hascii, isArgumentList_cons]
  simp only [hopen, false_and, false_or, hblank, true_and]

theorem isArgumentList_open {ms : List Marked} {n : Nat} :
    IsArgumentList (encode (('(', true) :: ms)) n ↔ ∃ m, n = m + 1 ∧ Closes 1 (encode ms) m := by
  have hblank : ¬ IsBlankByte ('('.toUInt8, true) := by
    rintro (h | h) <;> exact absurd h (by decide)
  rw [encode_ascii (by decide), isArgumentList_cons]
  simp only [hblank, false_and, or_false, true_and]

theorem not_isArgumentList {c : Char} {code : Bool} (hblank : ¬ (c = ' ' ∨ c = '\t'))
    (hopen : ¬ (c = '(' ∧ code = true))
    {ms : List Marked} {n : Nat} : ¬ IsArgumentList (encode ((c, code) :: ms)) n := by
  intro h
  cases hbytes : String.utf8EncodeChar c with
  | nil => exact absurd hbytes String.utf8EncodeChar_ne_nil
  | cons byte bytes =>
    have hmem : byte ∈ String.utf8EncodeChar c := by simp [hbytes]
    rw [encode_cons, hbytes, List.map_cons, List.cons_append, isArgumentList_cons] at h
    obtain ⟨m, rfl, ⟨heq, _⟩ | ⟨hb | hb, _⟩⟩ := h
    · obtain ⟨rfl, rfl⟩ := Prod.mk.inj heq
      exact hopen ⟨eq_of_mem_utf8EncodeChar (by decide) hmem, rfl⟩
    · obtain rfl : byte = _ := hb
      exact hblank (.inl (eq_of_mem_utf8EncodeChar (by decide) hmem))
    · obtain rfl : byte = _ := hb
      exact hblank (.inr (eq_of_mem_utf8EncodeChar (by decide) hmem))

/-- What the scan takes for an argument list is one in the bytes, and if it takes none, there is
none. -/
theorem isArgumentList_encode {ms : List Marked} {n : Nat} :
    IsArgumentList (encode ms) n ↔ argumentList ms ≠ [] ∧ byteLength (argumentList ms) = n := by
  induction ms generalizing n with
  | nil =>
    constructor
    · rintro ⟨gap, _, _, heq, _⟩
      cases gap <;> cases heq
    · rintro ⟨hne, _⟩
      exact absurd rfl hne
  | cons m ms ih =>
    obtain ⟨c, code⟩ := m
    rw [argumentList]
    by_cases hblank : c = ' ' ∨ c = '\t'
    -- a blank belongs to the list only if a list follows
    · have hsize : c.utf8Size = 1 := by rcases hblank with rfl | rfl <;> rfl
      rw [if_pos (by simpa using hblank), isArgumentList_blank hblank]
      simp only [ih]
      cases argumentList ms with
      | nil => simp
      | cons d ds =>
        rw [byteLength_cons c, hsize]
        simp
        omega
    rw [if_neg (by simpa using hblank)]
    by_cases hopen : c = '(' ∧ code = true
    · obtain ⟨rfl, rfl⟩ := hopen
      rw [if_pos (by decide), isArgumentList_open]
      simp only [closes_encode]
      cases closing? 0 ms with
      | none => simp
      | some inner =>
        have hsize : '('.utf8Size = 1 := rfl
        rw [byteLength_cons, hsize]
        simp
        omega
    · rw [if_neg (by simpa using hopen)]
      constructor
      · intro h
        exact absurd h (not_isArgumentList hblank hopen)
      · rintro ⟨hne, _⟩
        exact absurd rfl hne

end UpdaterBootstrap
