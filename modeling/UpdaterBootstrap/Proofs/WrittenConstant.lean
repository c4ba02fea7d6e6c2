import UpdaterBootstrap.Proofs.Inline

/-!
# Written constants

Constants are written as they may stand in the source of an annotation, and read back as what they
are (`readConstant_tokens`). Doubles, the least integer and references that begin with a truth value
cannot be written.
-/

namespace UpdaterBootstrap

namespace Constant

mutual

def write (style : QuoteStyle) : Constant → List Char
  | .text s => style.write s.toList
  | .integer n => (writeInteger n.toInt).toList
  | .decimal x => (writeFloat .message x).toList
  | .boolean b => (writeBoolean b).toList
  | .reference name => name.toList
  | .list items => '[' :: ([',', ' '].intercalate (writeAll style items) ++ [']'])

def writeAll (style : QuoteStyle) : List Constant → List (List Char)
  | [] => []
  | c :: cs => c.write style :: writeAll style cs

end

mutual

def tokens (line : Nat) : Constant → List Placed
  | .text s => [⟨.text s, line⟩]
  | .integer n =>
    (if n.toInt < 0 then [⟨.symbol '-', line⟩] else []) ++ [⟨.integer (.ofNat n.toInt.natAbs), line⟩]
  | .decimal x => [⟨.decimal x, line⟩]
  | .boolean b => [⟨.word (writeBoolean b), line⟩]
  | .reference name => nameTokens line name
  | .list items =>
    ⟨.symbol '[', line⟩ :: ([⟨.symbol ',', line⟩].intercalate (tokensAll line items) ++
      [⟨.symbol ']', line⟩])

def tokensAll (line : Nat) : List Constant → List (List Placed)
  | [] => []
  | c :: cs => c.tokens line :: tokensAll line cs

end

theorem writeAll_eq (style : QuoteStyle) (cs : List Constant) : writeAll style cs = cs.map (write style) := by
  induction cs with
  | nil => rfl
  | cons c cs ih => rw [writeAll, ih, List.map_cons]

theorem tokensAll_eq (line : Nat) (cs : List Constant) : tokensAll line cs = cs.map (tokens line) := by
  induction cs with
  | nil => rfl
  | cons c cs ih => rw [tokensAll, ih, List.map_cons]

inductive IsWritable : Constant → Prop
  | text (s : String) : IsWritable (.text s)
  /-- The least integer has no digits that fit into 64 bits. -/
  | integer {n : Int64} (h : Int64.minValue < n) : IsWritable (.integer n)
  | boolean (b : Bool) : IsWritable (.boolean b)
  | reference {name : String} (h : IsDottedName name.toList)
      (notTrue : firstSegment name.toList ≠ "true".toList)
      (notFalse : firstSegment name.toList ≠ "false".toList) : IsWritable (.reference name)
  | list {items : List Constant} (h : ∀ c ∈ items, IsWritable c) : IsWritable (.list items)

end Constant

/-! ## The text -/

theorem natAbs_le_maxValue {n : Int64} (h : Int64.minValue < n) :
    n.toInt.natAbs ≤ Int64.maxValue.toInt.toNat := by
  rw [Int64.lt_iff_toInt_lt, Int64.toInt_minValue] at h
  have := n.toInt_lt
  rw [Int64.toInt_maxValue]
  omega

theorem EndsValue.endsWord {rest : List Char} (h : EndsValue rest) : EndsWord rest := by
  obtain ⟨r, rfl | rfl | rfl⟩ := h <;> exact endsWord_cons (by decide) r

theorem inline_integer (line : Nat) {n : Int64} (hn : Int64.minValue < n) {rest : List Char}
    (hr : EndsValue rest) :
    Inline line (writeInteger n.toInt).toList ((Constant.integer n).tokens line) rest := by
  have hdigits := inline_digits line hr (natAbs_le_maxValue hn)
  have hwrite : (writeInteger n.toInt).toList = (if n.toInt < 0 then ['-'] else []) ++
      decimalDigits n.toInt.natAbs := by
    simp only [writeInteger]
    split <;> simp
  rw [hwrite, Constant.tokens]
  split
  · exact (inline_symbol line '-' _ (by decide) (forall_mem_of_all (by decide))).append hdigits
  · exact hdigits

theorem inline_constant {style : QuoteStyle} (hq : isQuote style.quote = true) (line : Nat) {v : Constant}
    (hv : v.IsWritable) {rest : List Char} (hr : EndsValue rest) :
    Inline line (v.write style) (v.tokens line) rest := by
  induction hv generalizing rest with
  | text s =>
    have := inline_text hq line s.toList hr
    rwa [String.ofList_toList] at this
  | integer hn => exact inline_integer line hn hr
  | boolean b =>
    have hword : isWord (writeBoolean b).toList = true := by cases b <;> decide
    have := inline_word line hword hr.endsWord
    rwa [String.ofList_toList] at this
  | reference hname => exact inline_name line hname hr.endsWord
  | @list items _ ih =>
    have hclose : EndsValue ([']'] ++ rest) := ⟨rest, .inr (.inr rfl)⟩
    have hitems := (inline_separated (fun c hc rest => ih c hc) hclose).append
      (inline_symbol line ']' rest (by decide) (forall_mem_of_all (by decide)))
    have := (inline_symbol line '[' _ (by decide) (forall_mem_of_all (by decide))).append hitems
    rwa [← Constant.writeAll_eq, ← Constant.tokensAll_eq] at this

/-! ## The value -/

theorem toInt_ofNat_natAbs {n : Int64} (hn : Int64.minValue < n) :
    (Int64.ofNat n.toInt.natAbs).toInt = n.toInt.natAbs := by
  refine Int64.toInt_ofNat_of_lt ?_
  have := natAbs_le_maxValue hn
  rw [Int64.toInt_maxValue] at this
  omega

theorem negate_natAbs {n : Int64} (hn : Int64.minValue < n) (hneg : n.toInt < 0) :
    negate (.integer (.ofNat n.toInt.natAbs)) = .ok (.integer n) := by
  have hvalue : -(Int64.ofNat n.toInt.natAbs).toInt = n.toInt := by
    rw [toInt_ofNat_natAbs hn]
    omega
  rw [negate, hvalue, exactInteger, if_pos ⟨n.minValue_le_toInt, n.toInt_le⟩, Int64.ofInt_toInt]

theorem ofNat_natAbs {n : Int64} (hn : Int64.minValue < n) (hpos : ¬ n.toInt < 0) :
    Int64.ofNat n.toInt.natAbs = n := by
  rw [← Int64.toInt_inj, toInt_ofNat_natAbs hn]
  omega

def EndsTokens (ts : List Placed) : Prop :=
  (current ts).token = .symbol ',' ∨ (current ts).token = .symbol ')' ∨ (current ts).token = .symbol ']'

theorem EndsTokens.operators {ts : List Placed} (h : EndsTokens ts) :
    sumOperator? ts = none ∧ productOperator? ts = none := by
  rcases h with h | h | h <;> simp [sumOperator?, productOperator?, isSymbolAt, h]

theorem EndsTokens.endsName {ts : List Placed} (h : EndsTokens ts) : EndsName ts := by
  rcases h with h | h | h <;> simp [EndsName, h]

theorem readSum_single {fuel : Nat} {ts rest : List Placed} {c : Constant} (hr : EndsTokens rest)
    (h : readSigned (fuel + 1) ts = .ok (c, rest)) : readSum (fuel + 3) ts = .ok (c, rest) := by
  obtain ⟨hsum, hproduct⟩ := hr.operators
  rw [readSum, readProduct, h, ok_bind]
  dsimp only
  rw [readProductRest, hproduct]
  dsimp only
  rw [ok_bind]
  dsimp only
  rw [readSumRest, hsum]

theorem readSigned_primary {fuel : Nat} {ts rest : List Placed} {c : Constant}
    (hs : isSymbolAt '-' ts = false) (hs' : isSymbolAt '+' ts = false)
    (h : readPrimary fuel ts = .ok (c, rest)) : readSigned (fuel + 1) ts = .ok (c, rest) := by
  rw [readSigned, hs, hs', if_neg Bool.false_ne_true, if_neg Bool.false_ne_true, h]

theorem readSigned_minus {fuel line : Nat} {ts rest : List Placed} {c d : Constant}
    (h : readSigned fuel ts = .ok (c, rest)) (hnegate : negate c = .ok d) :
    readSigned (fuel + 1) (⟨.symbol '-', line⟩ :: ts) = .ok (d, rest) := by
  have hminus : isSymbolAt '-' (⟨.symbol '-', line⟩ :: ts) = true := rfl
  rw [readSigned, if_pos hminus, List.tail_cons, h, ok_bind]
  dsimp only
  rw [hnegate]
  rfl

theorem readPrimary_reference {fuel line : Nat} {first name : String} {ts rest : List Placed}
    (htrue : first ≠ "true")
    (hfalse : first ≠ "false") (h : readDottedName (⟨.word first, line⟩ :: ts) = .ok (name, rest)) :
    readPrimary (fuel + 1) (⟨.word first, line⟩ :: ts) = .ok (.reference name, rest) := by
  have hword : (current (⟨.word first, line⟩ :: ts)).token = .word first := rfl
  rw [readPrimary, hword]
  dsimp only
  split
  · exact absurd rfl htrue
  · exact absurd rfl hfalse
  · rw [h]
    rfl

namespace Constant

theorem IsWritable.head_tokens {v : Constant} (h : v.IsWritable) (line : Nat) :
    ∃ t ts, v.tokens line = t :: ts ∧ (t.token == .symbol ']') = false := by
  cases h with
  | text s => exact ⟨_, _, rfl, rfl⟩
  | integer =>
    rw [tokens]
    split <;> exact ⟨_, _, rfl, rfl⟩
  | boolean b => exact ⟨_, _, rfl, rfl⟩
  | reference hname =>
    obtain ⟨ts, hts⟩ := nameTokens_eq line hname
    exact ⟨_, ts, hts, rfl⟩
  | list => exact ⟨_, _, rfl, rfl⟩

def ReadsBack (v : Constant) : Prop :=
  ∀ line fuel rest, 6 * (v.tokens line).length ≤ fuel → EndsTokens rest →
    readSigned fuel (v.tokens line ++ rest) = .ok (v, rest)

theorem ReadsBack.readSum {v : Constant} (h : v.ReadsBack) {line fuel : Nat} {rest : List Placed}
    (hfuel : 6 * (v.tokens line).length + 2 ≤ fuel) (hne : v.tokens line ≠ []) (hr : EndsTokens rest) :
    readSum fuel (v.tokens line ++ rest) = .ok (v, rest) := by
  have hpos := List.length_pos_iff.2 hne
  obtain ⟨fuel, rfl⟩ := Nat.exists_eq_add_of_le' (show 3 ≤ fuel by omega)
  exact readSum_single hr (h line _ rest (by omega) hr)

end Constant

theorem readItems_tokens {items : List Constant} (h : ∀ c ∈ items, c.IsWritable ∧ c.ReadsBack)
    (line : Nat) {fuel : Nat}
    (hfuel : 6 * ([⟨.symbol ',', line⟩].intercalate (items.map (Constant.tokens line))).length + 3 ≤ fuel)
    (done : List Constant) (rest : List Placed) :
    readItems fuel ']' done ([⟨.symbol ',', line⟩].intercalate (items.map (Constant.tokens line)) ++
      ⟨.symbol ']', line⟩ :: rest) = .ok (.list (done ++ items), rest) := by
  induction items generalizing fuel done with
  | nil =>
    obtain ⟨fuel, rfl⟩ := Nat.exists_eq_add_of_le' (Nat.le_trans (Nat.le_add_left 1 _) hfuel)
    rw [List.append_nil]
    rfl
  | cons c cs ih =>
    obtain ⟨⟨hwritable, hc⟩, hcs⟩ := List.forall_mem_cons.1 h
    obtain ⟨fuel, rfl⟩ := Nat.exists_eq_add_of_le' (Nat.le_trans (Nat.le_add_left 1 _) hfuel)
    obtain ⟨t, ts, htokens, hhead⟩ := hwritable.head_tokens line
    have hne : c.tokens line ≠ [] := by rw [htokens]; exact List.cons_ne_nil t ts
    -- an item does not begin with the closing bracket, so it is not taken for the end of the list
    have hopen (us : List Placed) : isSymbolAt ']' (c.tokens line ++ us) = false := by
      rw [htokens]
      exact hhead
    cases cs with
    | nil =>
      simp only [List.map_cons, List.map_nil, List.intercalate_singleton] at hfuel ⊢
      have hclose : EndsTokens (⟨.symbol ']', line⟩ :: rest) := .inr (.inr rfl)
      rw [readItems, if_neg (by rw [hopen]; exact Bool.false_ne_true), hc.readSum (by omega) hne hclose,
        ok_bind]
      rfl
    | cons d ds =>
      have hsplit : [⟨.symbol ',', line⟩].intercalate ((c :: d :: ds).map (Constant.tokens line)) =
          c.tokens line ++ (⟨.symbol ',', line⟩ :: [⟨.symbol ',', line⟩].intercalate
            ((d :: ds).map (Constant.tokens line))) := by
        simp [List.intercalate_cons_cons]
      rw [hsplit] at hfuel ⊢
      rw [List.length_append, List.length_cons] at hfuel
      rw [List.append_assoc, List.cons_append]
      have hcomma (us : List Placed) : EndsTokens (⟨.symbol ',', line⟩ :: us) := .inl rfl
      have hmore (us : List Placed) : isSymbolAt ',' (⟨.symbol ',', line⟩ :: us) = true := rfl
      rw [readItems, if_neg (by rw [hopen]; exact Bool.false_ne_true),
        hc.readSum (by omega) hne (hcomma _), ok_bind]
      dsimp only
      rw [if_pos (hmore _), List.tail_cons, ih hcs (by omega), List.append_assoc, List.singleton_append]

theorem Constant.IsWritable.readsBack {v : Constant} (h : v.IsWritable) : v.ReadsBack := by
  induction h with
  | text s =>
    intro line fuel rest hfuel _
    rw [Constant.tokens, List.length_singleton] at hfuel
    obtain ⟨fuel, rfl⟩ := Nat.exists_eq_add_of_le' (show 2 ≤ fuel by omega)
    exact readSigned_primary rfl rfl rfl
  | @integer n hn =>
    intro line fuel rest hfuel _
    -- the token holds the magnitude; the sign in front of it is read on its own
    have hdigits (fuel : Nat) : readSigned (fuel + 2) (⟨.integer (.ofNat n.toInt.natAbs), line⟩ :: rest) =
        .ok (.integer (.ofNat n.toInt.natAbs), rest) := readSigned_primary rfl rfl rfl
    have hpos : 3 ≤ fuel := by
      rw [Constant.tokens, List.length_append, List.length_singleton] at hfuel
      omega
    obtain ⟨fuel, rfl⟩ := Nat.exists_eq_add_of_le' hpos
    rw [Constant.tokens]
    split
    · rename_i hneg
      exact readSigned_minus (hdigits fuel) (negate_natAbs hn hneg)
    · rename_i hpos
      have := hdigits (fuel + 1)
      rwa [ofNat_natAbs hn hpos] at this ⊢
  | boolean b =>
    intro line fuel rest hfuel _
    rw [Constant.tokens, List.length_singleton] at hfuel
    obtain ⟨fuel, rfl⟩ := Nat.exists_eq_add_of_le' (show 2 ≤ fuel by omega)
    cases b <;> exact readSigned_primary rfl rfl rfl
  | @reference name hname htrue hfalse =>
    intro line fuel rest hfuel hr
    have hread := readDottedName_name line hname (readSegments_ends hr.endsName)
    obtain ⟨ts, hts⟩ := nameTokens_eq line hname
    rw [Constant.tokens, hts] at hfuel ⊢
    rw [hts] at hread
    rw [List.length_cons] at hfuel
    obtain ⟨fuel, rfl⟩ := Nat.exists_eq_add_of_le' (show 2 ≤ fuel by omega)
    have hne {word : String} (h : firstSegment name.toList ≠ word.toList) :
        String.ofList (firstSegment name.toList) ≠ word := by
      rintro rfl
      exact h String.toList_ofList.symm
    exact readSigned_primary rfl rfl (readPrimary_reference (hne htrue) (hne hfalse) hread)
  | @list items hitems ih =>
    intro line fuel rest hfuel _
    rw [Constant.tokens, Constant.tokensAll_eq] at hfuel ⊢
    rw [List.length_cons, List.length_append, List.length_singleton] at hfuel
    obtain ⟨fuel, rfl⟩ := Nat.exists_eq_add_of_le' (show 2 ≤ fuel by omega)
    -- what the brackets leave of the fuel still covers the items
    have henough : 6 * ([⟨.symbol ',', line⟩].intercalate (items.map (Constant.tokens line))).length +
        3 ≤ fuel := by
      omega
    have hread := readItems_tokens (fun c hc => ⟨hitems c hc, ih c hc⟩) line henough [] rest
    refine readSigned_primary rfl rfl ?_
    rw [List.cons_append, List.append_assoc]
    exact hread

/-- A constant is read back as what it was. -/
theorem readConstant_tokens {v : Constant} (hv : v.IsWritable) (line : Nat) {rest : List Placed}
    (hr : EndsTokens rest) :
    readConstant (v.tokens line ++ rest) = .ok (v, rest) := by
  obtain ⟨t, ts, htokens, _⟩ := hv.head_tokens line
  apply hv.readsBack.readSum _ (by rw [htokens]; exact List.cons_ne_nil t ts) hr
  rw [List.length_append]
  omega

end UpdaterBootstrap
