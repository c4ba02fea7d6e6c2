import UpdaterBootstrap.Proofs.DottedName
import UpdaterBootstrap.Proofs.Quoting

/-!
# Text on one line

What is written on one line without a parenthesis in code: words, symbols, quoted texts, numbers,
and several of them with commas between. The tokenizer reads the tokens it was written for, the scan
finds no parenthesis in it.
-/

namespace UpdaterBootstrap

/-- `a` is read as `ts` before `rest`, without a line end and without a parenthesis in code. -/
structure Inline (line : Nat) (a : List Char) (ts : List Placed) (rest : List Char) : Prop where
  reads : Reads line a ts line rest
  marks : ∃ ms, markedFrom .code (a ++ rest) = ms ++ markedFrom .code rest ∧ ms.map Prod.fst = a ∧
    Unbracketed ms
  oneLine : ∀ c ∈ a, c ≠ '\n' ∧ c ≠ '\r'

section
variable {line : Nat} {a b rest : List Char} {ts us : List Placed}

theorem Inline.append (ha : Inline line a ts (b ++ rest)) (hb : Inline line b us rest) :
    Inline line (a ++ b) (ts ++ us) rest := by
  refine ⟨ha.reads.append hb.reads, ?_, fun c hc => ?_⟩
  · obtain ⟨ms, hms, hfst, hun⟩ := ha.marks
    obtain ⟨ms', hms', hfst', hun'⟩ := hb.marks
    refine ⟨ms ++ ms', ?_, by rw [List.map_append, hfst, hfst'], fun m hm => ?_⟩
    · rw [List.append_assoc, hms, hms', List.append_assoc]
    · exact (List.mem_append.1 hm).elim (hun m) (hun' m)
  · exact (List.mem_append.1 hc).elim (ha.oneLine c) (hb.oneLine c)

theorem Inline.of_class {p : Char → Bool} (hr : Reads line a ts line rest) (h : ∀ c ∈ a, p c = true)
    (hp : ∀ c ∈ "/'\"()\n\r".toList, p c = false) : Inline line a ts rest := by
  have hne (c : Char) (hc : c ∈ a) (d : Char) (hd : d ∈ "/'\"()\n\r".toList) : c ≠ d :=
    ne_of_class (h c hc) (hp d hd)
  have hinert : ∀ c ∈ a, isInert c = true := fun c hc => by
    simp [isInert, hne c hc '/' (by decide), hne c hc '\'' (by decide), hne c hc '"' (by decide)]
  refine ⟨hr, ⟨_, markedFrom_inert hinert rest, map_fst_mark a true, ?_⟩, fun c hc =>
    ⟨hne c hc _ (by decide), hne c hc _ (by decide)⟩⟩
  exact unbracketed_map fun _ c hc => ⟨hne c hc _ (by decide), hne c hc _ (by decide)⟩

theorem inline_word (line : Nat) {w : List Char} (hw : isWord w = true) (hr : EndsWord rest) :
    Inline line w [⟨.word (.ofList w), line⟩] rest :=
  .of_class (p := isIdentPart) (reads_word line hw hr) (isIdentPart_of_isWord hw)
    (forall_mem_of_all (by decide))

theorem inline_symbol (line : Nat) (c : Char) (rest : List Char) (h : isSymbol c = true)
    (hc : ∀ d ∈ "/'\"()\n\r".toList, d ≠ c) : Inline line [c] [⟨.symbol c, line⟩] rest :=
  .of_class (p := (· == c)) (reads_symbol line c rest h (hc '/' (by decide)).symm) (by simp)
    (by simpa using hc)

theorem inline_blank (line : Nat) (rest : List Char) : Inline line [' '] [] rest :=
  .of_class (p := (· == ' ')) (reads_blank line rest (by decide) (by decide)) (by simp)
    (forall_mem_of_all (by decide))

end

/-! ## Names, texts and numbers -/

theorem inline_name (line : Nat) {name : String} (h : IsDottedName name.toList) {rest : List Char}
    (hr : EndsWord rest) : Inline line name.toList (nameTokens line name) rest := by
  apply Inline.of_class (p := fun c => isIdentPart c || c == '.') (reads_name line h hr)
  · intro c hc
    have hmem : c ∈ dottedName name.toList := by rwa [h.dottedName_eq]
    simpa using mem_dottedName hmem
  · exact forall_mem_of_all (by decide)

theorem escaped_oneLine {quote : Char} (hq : isQuote quote = true) {s : List Char} :
    ∀ c ∈ s.flatMap (escapeChar quote), c ≠ '\n' ∧ c ≠ '\r' := by
  have hquote : quote ≠ '\n' ∧ quote ≠ '\r' := ⟨ne_of_class hq (by decide), ne_of_class hq (by decide)⟩
  intro c hc
  obtain ⟨d, _, hd⟩ := List.mem_flatMap.1 hc
  unfold escapeChar at hd
  split at hd
  · rename_i h
    simp only [Bool.or_eq_true, beq_iff_eq] at h
    rcases h with rfl | rfl <;> simp at hd <;> rcases hd with rfl | rfl <;> first | exact hquote | decide
  rename_i hself
  split at hd
  · simp at hd
    rcases hd with rfl | rfl <;> decide
  rename_i hfeed
  split at hd
  · simp at hd
    rcases hd with rfl | rfl <;> decide
  rename_i hreturn
  split at hd
  · simp at hd
    rcases hd with rfl | rfl <;> decide
  · rw [List.mem_singleton.1 hd]
    exact ⟨by simpa using hfeed, by simpa using hreturn⟩

section
variable {style : QuoteStyle} (hq : isQuote style.quote = true)
include hq

theorem write_oneLine (s : List Char) : ∀ c ∈ style.write s, c ≠ '\n' ∧ c ≠ '\r' := by
  have hmarks : ∀ c ∈ style.marks, c ≠ '\n' ∧ c ≠ '\r' := fun c hc => by
    rw [List.eq_of_mem_replicate hc]
    exact ⟨ne_of_class hq (by decide), ne_of_class hq (by decide)⟩
  intro c hc
  rcases List.mem_append.1 hc with hc | hc
  · exact (List.mem_append.1 hc).elim (hmarks c) (escaped_oneLine hq c)
  · exact hmarks c hc

theorem inline_text (line : Nat) (s : List Char) {rest : List Char} (hr : EndsValue rest) :
    Inline line (style.write s) [⟨.text (.ofList s), line⟩] rest := by
  have hread := readText_write hq line s hr
  have honeLine := write_oneLine hq s
  obtain ⟨cs, hcs⟩ : ∃ cs, style.write s = style.quote :: cs := by
    have : style.write s ++ [] = _ := write_eq s []
    rw [List.append_nil] at this
    exact ⟨_, this⟩
  rw [hcs] at hread honeLine ⊢
  rw [List.cons_append, List.tail_cons] at hread
  refine ⟨?_, ?_, honeLine⟩
  · have htoken : readToken line style.quote (cs ++ rest) = .ok (.text (.ofList s), cs.length + 1) := by
      have hclass : isIdentStart style.quote = false ∧ style.quote.isDigit = false := by
        rcases quote_cases hq with h | h <;> rw [h] <;> decide
      have hquote : (style.quote == '\'' || style.quote == '"') = true := hq
      rw [readToken, hclass.1, hclass.2, if_neg Bool.false_ne_true, if_neg Bool.false_ne_true, if_pos hquote]
      exact hread
    have hblank : isBlank style.quote = false := by
      rcases quote_cases hq with h | h <;> rw [h] <;> decide
    have := reads_token line hblank (ne_of_class hq (by decide)) htoken
    rwa [lineFeeds_eq_zero fun hn => (honeLine _ (List.mem_cons_of_mem _ hn)).1 rfl] at this
  · obtain ⟨_, m, hm, _, hmarks⟩ := markedFrom_readText hq hread
    obtain rfl : cs.length = m := by simpa using hm
    rw [List.take_left, List.drop_left] at hmarks
    exact ⟨_, hmarks, map_fst_mark _ false, unbracketed_map (by simp)⟩

end

theorem inline_digits (line : Nat) {n : Nat} {rest : List Char} (hr : EndsValue rest)
    (hn : n ≤ Int64.maxValue.toInt.toNat) :
    Inline line (decimalDigits n) [⟨.integer (.ofNat n), line⟩] rest := by
  obtain ⟨c, cs, hdigits, hc, htoken⟩ := readToken_decimalDigits line n hr
  rw [readDigits, if_pos hn] at htoken
  have hreads := reads_token line (isBlank_of_isDigit hc) (ne_of_class hc (by decide)) htoken
  have hall : ∀ d ∈ c :: cs, d.isDigit = true := fun d hd => isDigit_of_mem_decimalDigits (hdigits ▸ hd)
  have hfeeds : lineFeeds cs = 0 :=
    lineFeeds_of_class (fun d hd => hall d (List.mem_cons_of_mem c hd)) (by decide)
  rw [hfeeds] at hreads
  rw [hdigits]
  exact .of_class hreads hall (forall_mem_of_all (by decide))

/-! ## With commas between -/

theorem inline_separated {α : Type} {line : Nat} {f : α → List Char} {g : α → List Placed} {xs : List α}
    (h : ∀ x ∈ xs, ∀ rest, EndsValue rest → Inline line (f x) (g x) rest) {rest : List Char}
    (hr : EndsValue rest) :
    Inline line ([',', ' '].intercalate (xs.map f)) ([⟨.symbol ',', line⟩].intercalate (xs.map g)) rest := by
  induction xs with
  | nil => exact ⟨reads_nil line _, ⟨[], rfl, rfl, nofun⟩, nofun⟩
  | cons x xs ih =>
    obtain ⟨hx, hxs⟩ := List.forall_mem_cons.1 h
    cases xs with
    | nil =>
      simp only [List.map_cons, List.map_nil, List.intercalate_singleton]
      exact hx rest hr
    | cons y ys =>
      have hcomma := (inline_symbol line ',' _ (by decide) (forall_mem_of_all (by decide))).append
        ((inline_blank line _).append (ih hxs))
      have hends : EndsValue ([','] ++ ([' '] ++ [',', ' '].intercalate ((y :: ys).map f)) ++ rest) :=
        ⟨_, .inl rfl⟩
      have := (hx _ hends).append hcomma
      simpa only [List.map_cons, List.intercalate_cons_cons, List.append_assoc, List.nil_append,
        List.singleton_append, List.cons_append] using this

end UpdaterBootstrap
