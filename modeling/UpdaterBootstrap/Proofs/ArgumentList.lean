import UpdaterBootstrap.Proofs.Nesting
import UpdaterBootstrap.Proofs.Spelling

/-!
# Argument lists in characters and in tokens

The scan takes an argument list up to the parenthesis in code that closes its first one. The tokens
of the same text have that parenthesis in the same place, whatever follows it.
-/

namespace UpdaterBootstrap

/-! ## The closing parenthesis -/

@[simp] theorem closing?_open (depth : Nat) (ms : List Marked) :
    closing? depth (('(', true) :: ms) = (closing? (depth + 1) ms).map ('(' :: ·) := by
  simp [closing?]

@[simp] theorem closing?_last (ms : List Marked) : closing? 0 ((')', true) :: ms) = some [')'] := by
  simp [closing?]

@[simp] theorem closing?_close (depth : Nat) (ms : List Marked) :
    closing? (depth + 1) ((')', true) :: ms) = (closing? depth ms).map (')' :: ·) := by
  simp [closing?]

theorem closing?_other {c : Char} {code : Bool} (h : code = true → c ≠ '(' ∧ c ≠ ')') (depth : Nat)
    (ms : List Marked) : closing? depth ((c, code) :: ms) = (closing? depth ms).map (c :: ·) := by
  cases code with
  | false => simp [closing?]
  | true => simp [closing?, h rfl]

def Unbracketed (ms : List Marked) : Prop :=
  ∀ m ∈ ms, m.2 = true → m.1 ≠ '(' ∧ m.1 ≠ ')'

theorem closing?_append {ms : List Marked} (h : Unbracketed ms) (depth : Nat) (rest : List Marked) :
    closing? depth (ms ++ rest) = (closing? depth rest).map (ms.map Prod.fst ++ ·) := by
  induction ms with
  | nil => simp
  | cons m ms ih =>
    rw [List.cons_append, closing?_other (h m (by simp)), ih fun d hd => h d (List.mem_cons_of_mem m hd),
      Option.map_map]
    rfl

theorem unbracketed_map {a : List Char} {code : Bool} (h : code = true → ∀ c ∈ a, c ≠ '(' ∧ c ≠ ')') :
    Unbracketed (a.map (·, code)) := by
  intro m hm
  obtain ⟨c, hc, rfl⟩ := List.mem_map.1 hm
  exact fun hcode => h hcode c hc

/-- One character of a closed list, by whether it closes it. Else what follows closes it from another
depth, and so it is if more parentheses are open before. -/
theorem closing?_cons {depth : Nat} {c : Char} {code : Bool} {ms : List Marked} {inner : List Char}
    (h : closing? depth ((c, code) :: ms) = some inner) :
    (c = ')' ∧ code = true ∧ depth = 0 ∧ inner = [')']) ∨
      ∃ depth' rest, inner = c :: rest ∧ closing? depth' ms = some rest ∧
        ∀ more ms', closing? (depth + more) ((c, code) :: ms') =
          (closing? (depth' + more) ms').map (c :: ·) := by
  have through (depth' : Nat)
      (hall : ∀ more ms', closing? (depth + more) ((c, code) :: ms') =
        (closing? (depth' + more) ms').map (c :: ·)) :
      ∃ depth' rest, inner = c :: rest ∧ closing? depth' ms = some rest ∧
        ∀ more ms', closing? (depth + more) ((c, code) :: ms') =
          (closing? (depth' + more) ms').map (c :: ·) := by
    have hfirst := hall 0 ms
    rw [Nat.add_zero, h] at hfirst
    obtain ⟨rest, hrest, rfl⟩ := Option.map_eq_some_iff.1 hfirst.symm
    exact ⟨depth', rest, rfl, hrest, hall⟩
  by_cases hopen : code = true ∧ c = '('
  · obtain ⟨rfl, rfl⟩ := hopen
    refine .inr (through (depth + 1) fun more ms' => ?_)
    rw [closing?_open, Nat.add_right_comm]
  by_cases hclose : code = true ∧ c = ')'
  · obtain ⟨rfl, rfl⟩ := hclose
    cases depth with
    | zero => exact .inl ⟨rfl, rfl, rfl, (Option.some.inj h).symm⟩
    | succ depth =>
      refine .inr (through depth fun more ms' => ?_)
      rw [Nat.add_right_comm, closing?_close]
  · exact .inr (through depth fun more ms' =>
      closing?_other (fun hcode => ⟨fun e => hopen ⟨hcode, e⟩, fun e => hclose ⟨hcode, e⟩⟩)
        (depth + more) ms')

theorem getLast?_of_closing? {depth : Nat} {ms : List Marked} {inner : List Char}
    (h : closing? depth ms = some inner) : inner.getLast? = some ')' := by
  induction ms generalizing depth inner with
  | nil => cases h
  | cons m ms ih =>
    obtain ⟨_, _, _, rfl⟩ | ⟨depth', rest, rfl, hrest, _⟩ := closing?_cons h
    · rfl
    · have := ih hrest
      rw [List.getLast?_cons, this]
      rfl

theorem closing?_isPrefix {depth : Nat} {ms : List Marked} {inner : List Char}
    (h : closing? depth ms = some inner) : inner <+: ms.map Prod.fst := by
  induction ms generalizing depth inner with
  | nil => cases h
  | cons m ms ih =>
    obtain ⟨hc, _, _, rfl⟩ | ⟨depth', rest, rfl, hrest, _⟩ := closing?_cons h
    · rw [List.map_cons, hc]
      exact ⟨_, rfl⟩
    · exact (List.prefix_cons_inj m.1).2 (ih hrest)

/-! ## Other text after it -/

theorem take_two_append {inner post post' : List Char} (h : inner.getLast? = some ')') {q : Char}
    (hq : isQuote q = true) :
    (inner ++ post).take 2 = [q, q] ↔ (inner ++ post').take 2 = [q, q] := by
  match inner, h with
  | [c], h =>
    obtain rfl : c = ')' := Option.some.inj h
    have hc : ')' ≠ q := fun e => absurd (e ▸ hq) (by decide)
    simp [hc]
  | c :: d :: inner, _ => simp

theorem step_parenthesis (r : Reading) (next next' : List Char) :
    (r.step ')' next).1 = (r.step ')' next').1 := by
  obtain ⟨n, region⟩ := r
  cases n with
  | succ n => rfl
  | zero =>
    cases region with
    | tripled q =>
      have hb : (')' == '\\') = false := rfl
      simp only [Reading.step, hb, Bool.false_eq_true, if_false]
      split <;> split <;> rfl
    | _ => rfl

/-- Text up to its closing parenthesis is read alike before any other text. -/
theorem closing?_before {depth : Nat} {r : Reading} {inner post : List Char}
    (hr : r.Reached (inner ++ post)) (h : closing? depth (markedFrom r (inner ++ post)) = some inner)
    (post' : List Char) : closing? depth (markedFrom r (inner ++ post')) = some inner := by
  induction inner generalizing depth r with
  | nil => cases getLast?_of_closing? h
  | cons c inner ih =>
    rw [List.cons_append, markedFrom_cons] at *
    obtain ⟨rfl, hcode, rfl, hinner⟩ | ⟨depth', rest, hinner, hrest, hall⟩ := closing?_cons h
    · rw [step_parenthesis r _ (inner ++ post), hcode, closing?_last, hinner]
    · obtain ⟨_, rfl⟩ := List.cons.inj hinner
      have hfirst := hall 0 (markedFrom (r.step c (inner ++ post)).2 (inner ++ post'))
      rw [Nat.add_zero, Nat.add_zero, ih hr.step hrest] at hfirst
      have hlast := getLast?_of_closing? hrest
      have hhead : (inner ++ post).head? = (inner ++ post').head? := by
        cases inner with
        | nil => cases hlast
        | cons d inner => rfl
      have hstep : r.step c (inner ++ post) = r.step c (inner ++ post') :=
        hr.step_congr hhead fun q hq => take_two_append hlast hq
      rw [← hstep, hfirst]
      rfl

/-! ## Its tokens -/

theorem isParenthesis_token {taken : List Char} {token? : Option Token} {code : Bool}
    (h : Lexeme taken token? code) :
    (∃ c, taken = [c] ∧ code = true ∧ token? = some (.symbol c) ∧ IsParenthesis (.symbol c)) ∨
      ((code = true → ∀ c ∈ taken, c ≠ '(' ∧ c ≠ ')') ∧
        ∀ t, token? = some t → ¬ IsParenthesis t) := by
  have apart {p : Char → Bool} {cs : List Char} (h : ∀ c ∈ cs, p c = true) (h₁ : p '(' = false)
      (h₂ : p ')' = false) : ∀ c ∈ cs, c ≠ '(' ∧ c ≠ ')' :=
    fun c hc => ⟨ne_of_class (h c hc) h₁, ne_of_class (h c hc) h₂⟩
  cases h with
  | blank h =>
    refine .inr ⟨fun _ => apart (p := isBlank) (by simpa using h) (by decide) (by decide),
      fun t ht => by cases ht⟩
  | lineComment h => exact .inr ⟨nofun, nofun⟩
  | blockComment => exact .inr ⟨nofun, nofun⟩
  | word h hs =>
    refine .inr ⟨fun _ => apart (p := isIdentPart) ?_ (by decide) (by decide), fun t ht => ?_⟩
    · exact List.forall_mem_cons.2 ⟨isIdentPart_of_isIdentStart h, hs⟩
    · rw [← Option.some.inj ht]
      rintro (h | h) <;> cases h
  | integer hne h =>
    refine .inr ⟨fun _ => apart h (by decide) (by decide), fun t ht => ?_⟩
    rw [← Option.some.inj ht]
    rintro (h | h) <;> cases h
  | decimal hne h =>
    refine .inr ⟨fun _ => apart h (by decide) (by decide), fun t ht => ?_⟩
    rw [← Option.some.inj ht]
    rintro (h | h) <;> cases h
  | text h =>
    refine .inr ⟨nofun, fun t ht => ?_⟩
    rw [← Option.some.inj ht]
    rintro (h | h) <;> cases h
  | @symbol c h =>
    -- only a symbol can be a parenthesis
    by_cases hc : IsParenthesis (.symbol c)
    · exact .inl ⟨c, rfl, rfl, rfl, hc⟩
    · refine .inr ⟨fun _ d hd => ?_, fun t ht => ?_⟩
      · rw [List.mem_singleton.1 hd]
        exact ⟨fun e => hc (.inl (congrArg _ e)), fun e => hc (.inr (congrArg _ e))⟩
      · rw [← Option.some.inj ht]
        exact hc

/-- A lexeme closes the list, or the search goes on behind it from the same depth among characters
and among tokens. -/
theorem StartsWith.closing {line : Nat} {cs taken rest : List Char} {ts ts' : List Placed}
    {token? : Option Token} {code : Bool} (hs : StartsWith line cs ts taken token? code rest ts')
    (depth : Nat) :
    (depth = 0 ∧ taken = [')'] ∧ code = true ∧ afterClosing? depth ts = some ts') ∨
      ∃ depth', (∀ ms, closing? depth (taken.map (·, code) ++ ms) = (closing? depth' ms).map (taken ++ ·)) ∧
        afterClosing? depth ts = afterClosing? depth' ts' := by
  rcases isParenthesis_token hs.lexeme with ⟨d, rfl, rfl, rfl, hd⟩ | ⟨hcs, hts⟩
  · have htokens : ts = ⟨.symbol d, line⟩ :: ts' := hs.tokens
    rcases hd with hd | hd
    · obtain rfl : d = '(' := by simpa using hd
      refine .inr ⟨depth + 1, fun ms => closing?_open depth ms, ?_⟩
      rw [htokens, afterClosing?_open rfl]
      rfl
    · obtain rfl : d = ')' := by simpa using hd
      cases depth with
      | zero =>
        refine .inl ⟨rfl, rfl, rfl, ?_⟩
        rw [htokens, afterClosing?_last rfl]
        rfl
      | succ depth =>
        refine .inr ⟨depth, fun ms => closing?_close depth ms, ?_⟩
        rw [htokens, afterClosing?_close rfl]
        rfl
  · refine .inr ⟨depth, fun ms => ?_, ?_⟩
    · rw [closing?_append (unbracketed_map hcs), map_fst_mark]
    · rw [hs.tokens]
      cases token? with
      | none => rfl
      | some t =>
        have hsame : SameDepth (⟨t, line⟩ :: ts') ts' := sameDepth_tail (hts t rfl)
        exact hsame depth

/-- Where the scan finds the closing parenthesis in a text with tokens, the tokens have it too. -/
theorem closing?_tokens {depth line : Nat} {cs inner : List Char} {ts : List Placed}
    (h : closing? depth (markedFrom .code cs) = some inner) (ht : tokensFrom line 0 cs = .ok ts) :
    ∃ rest ts', cs = inner ++ rest ∧ afterClosing? depth ts = some ts' ∧
      tokensFrom (line + lineFeeds inner) 0 rest = .ok ts' := by
  induction hn : cs.length using Nat.strongRecOn generalizing depth line cs inner ts with
  | ind k ih =>
    subst hn
    cases cs with
    | nil => cases h
    | cons c cs =>
      obtain ⟨taken, token?, code, rest, ts', hs⟩ := tokensFrom_cons ht
      have hlen : rest.length < (c :: cs).length := by
        rw [hs.text, List.length_append]
        have := List.length_pos_iff.2 hs.lexeme.ne_nil
        omega
      rw [hs.marks] at h
      rcases hs.closing depth with ⟨rfl, rfl, rfl, hafter⟩ | ⟨depth', hms, hts⟩
      · obtain rfl : [')'] = inner := Option.some.inj h
        exact ⟨rest, ts', hs.text, hafter, hs.following⟩
      · rw [hms] at h
        obtain ⟨inner, hinner, rfl⟩ := Option.map_eq_some_iff.1 h
        obtain ⟨rest', us, hrest, hafter, hus⟩ := ih _ hlen hinner hs.following rfl
        rw [Nat.add_assoc, ← lineFeeds_append] at hus
        exact ⟨rest', us, by rw [hs.text, hrest, List.append_assoc], hts.trans hafter, hus⟩

end UpdaterBootstrap
