import UpdaterBootstrap.Proofs.Nesting
import UpdaterBootstrap.Proofs.WrittenConstant

/-!
# Written argument lists

Arguments are written on one line, each with its field name. The tokenizer reads the tokens they
were written for, the scan finds no parenthesis in them, and the parser gives back the values.
-/

namespace UpdaterBootstrap

/-! ## Constants for fields -/

def writeField (style : QuoteStyle) (a : String × Constant) : List Char :=
  a.1.toList ++ ([' ', '=', ' '] ++ a.2.write style)

def writeFields (style : QuoteStyle) (as : List (String × Constant)) : List Char :=
  [',', ' '].intercalate (as.map (writeField style))

def fieldTokens (line : Nat) (a : String × Constant) : List Placed :=
  ⟨.word a.1, line⟩ :: ⟨.symbol '=', line⟩ :: a.2.tokens line

def fieldsTokens (line : Nat) (as : List (String × Constant)) : List Placed :=
  [⟨.symbol ',', line⟩].intercalate (as.map (fieldTokens line))

def AreWritable (as : List (String × Constant)) : Prop :=
  ∀ a ∈ as, isWord a.1.toList = true ∧ a.2.IsWritable

theorem writeFields_cons (style : QuoteStyle) (a b : String × Constant) (as : List (String × Constant)) :
    writeFields style (a :: b :: as) = writeField style a ++ ([',', ' '] ++ writeFields style (b :: as)) := by
  simp [writeFields, List.intercalate_cons_cons]

theorem fieldsTokens_cons (line : Nat) (a b : String × Constant) (as : List (String × Constant)) :
    fieldsTokens line (a :: b :: as) = fieldTokens line a ++
      (⟨.symbol ',', line⟩ :: fieldsTokens line (b :: as)) := by
  simp [fieldsTokens, List.intercalate_cons_cons]

theorem exists_fieldsTokens (line : Nat) (a : String × Constant) (as : List (String × Constant)) :
    ∃ ts, fieldsTokens line (a :: as) = ⟨.word a.1, line⟩ :: ⟨.symbol '=', line⟩ :: ts := by
  cases as with
  | nil => exact ⟨_, List.intercalate_singleton⟩
  | cons b bs => exact ⟨_, fieldsTokens_cons line a b bs⟩

theorem length_le_fieldsTokens (line : Nat) (as : List (String × Constant)) :
    as.length ≤ (fieldsTokens line as).length := by
  induction as with
  | nil => exact Nat.le_refl 0
  | cons a as ih =>
    cases as with
    | nil =>
      obtain ⟨ts, hts⟩ := exists_fieldsTokens line a []
      rw [hts, List.length_cons]
      exact Nat.succ_le_succ (Nat.zero_le _)
    | cons b as =>
      rw [fieldsTokens_cons]
      simp only [List.length_append, List.length_cons] at *
      omega

section
variable {style : QuoteStyle} (hq : isQuote style.quote = true) (line : Nat)
include hq

theorem inline_field {a : String × Constant} (ha : isWord a.1.toList = true ∧ a.2.IsWritable)
    {rest : List Char}
    (hr : EndsValue rest) : Inline line (writeField style a) (fieldTokens line a) rest := by
  have hvalue := inline_constant hq line ha.2 hr
  have hequals :=
    (inline_blank line _).append ((inline_symbol line '=' _ (by decide)
      (forall_mem_of_all (by decide))).append
    ((inline_blank line _).append hvalue))
  have := (inline_word line ha.1 (endsWord_cons (by decide) _)).append hequals
  rw [String.ofList_toList] at this
  exact this

theorem inline_fields {as : List (String × Constant)} (has : AreWritable as) (rest : List Char) :
    Inline line (writeFields style as) (fieldsTokens line as) (')' :: rest) :=
  inline_separated (fun a ha _ hr => inline_field hq line (has a ha) hr) ⟨rest, .inr (.inl rfl)⟩

end

theorem readNamedArguments_fields {as : List (String × Constant)} (has : AreWritable as) (hne : as ≠ [])
    (line : Nat)
    {fuel : Nat} (hfuel : as.length ≤ fuel) (done : List (String × Constant)) (rest : List Placed) :
    readNamedArguments fuel done (fieldsTokens line as ++ ⟨.symbol ')', line⟩ :: rest) =
      .ok (done ++ as, ⟨.symbol ')', line⟩ :: rest) := by
  induction as generalizing fuel done with
  | nil => exact absurd rfl hne
  | cons a as ih =>
    obtain ⟨ha, has⟩ := List.forall_mem_cons.1 has
    obtain ⟨fuel, rfl⟩ := Nat.exists_eq_add_of_le' (Nat.le_trans (Nat.succ_le_succ (Nat.zero_le _)) hfuel)
    have hfuel : as.length ≤ fuel := by simpa using hfuel
    -- one field is read whatever comes next, as long as that ends a value
    have hfield {ts : List Placed} (hts : EndsTokens ts) :
        readNamedArguments (fuel + 1) done (fieldTokens line a ++ ts) =
          (if !isSymbolAt ',' ts || isSymbolAt ')' ts.tail then
            .ok (done ++ [a], if isSymbolAt ',' ts then ts.tail else ts)
          else readNamedArguments fuel (done ++ [a]) ts.tail) := by
      have hvalue := readConstant_tokens ha.2 line hts
      have hword : readWord (fieldTokens line a ++ ts) =
          .ok (a.1, ⟨.symbol '=', line⟩ :: (a.2.tokens line ++ ts)) := rfl
      have hequals : expectSymbol '=' (⟨.symbol '=', line⟩ :: (a.2.tokens line ++ ts)) =
          .ok (a.2.tokens line ++ ts) := rfl
      rw [readNamedArguments, hword, ok_bind]
      dsimp only
      rw [hequals, ok_bind, hvalue, ok_bind]
      rfl
    cases as with
    | nil =>
      have hclose : EndsTokens (⟨.symbol ')', line⟩ :: rest) := .inr (.inl rfl)
      rw [fieldsTokens, List.map_singleton, List.intercalate_singleton]
      exact hfield hclose
    | cons b bs =>
      have hcomma : EndsTokens
          (⟨.symbol ',', line⟩ :: (fieldsTokens line (b :: bs) ++ ⟨.symbol ')', line⟩ :: rest)) :=
        .inl rfl
      -- the comma is not the last one: a field follows it
      have hopen : isSymbolAt ')' (fieldsTokens line (b :: bs) ++ ⟨.symbol ')', line⟩ :: rest) = false := by
        obtain ⟨ts, hts⟩ := exists_fieldsTokens line b bs
        rw [hts]
        rfl
      have hmore := hfield hcomma
      rw [List.tail_cons, hopen] at hmore
      rw [fieldsTokens_cons, List.append_assoc, List.cons_append]
      refine hmore.trans ?_
      rw [ih has (by simp) hfuel, List.append_assoc]
      rfl

theorem readArguments_fields {as : List (String × Constant)} (has : AreWritable as) (line : Nat)
    (rest : List Placed) :
    readArguments (⟨.symbol '(', line⟩ :: (fieldsTokens line as ++ ⟨.symbol ')', line⟩ :: rest)) =
      .ok (as, rest) := by
  cases as with
  | nil => rfl
  | cons a as =>
    have hnamed : startsNamedArgument (fieldsTokens line (a :: as) ++ ⟨.symbol ')', line⟩ :: rest) =
        true := by
      obtain ⟨ts, hts⟩ := exists_fieldsTokens line a as
      rw [hts]
      rfl
    have hlength : (a :: as).length ≤
        (fieldsTokens line (a :: as) ++ ⟨.symbol ')', line⟩ :: rest).length := by
      rw [List.length_append]
      exact Nat.le_add_right_of_le (length_le_fieldsTokens line _)
    rw [readArguments_open rfl, List.tail_cons, readBetween, if_pos hnamed,
      readNamedArguments_fields has (List.cons_ne_nil a as) line hlength, ok_bind]
    rfl

/-! ## Scalars for fields -/

inductive Scalar
  | text (s : String)
  | integer (n : Int64)
  | boolean (b : Bool)

namespace Scalar

def constant : Scalar → Constant
  | .text s => .text s
  | .integer n => .integer n
  | .boolean b => .boolean b

def write (style : QuoteStyle) : Scalar → List Char
  | .text s => style.write s.toList
  | .integer n => (writeInteger n.toInt).toList
  | .boolean b => (writeBoolean b).toList

/-- The least integer has no digits that fit into 64 bits. -/
def IsWritable : Scalar → Prop
  | .integer n => Int64.minValue < n
  | _ => True

theorem write_constant (style : QuoteStyle) (v : Scalar) : v.constant.write style = v.write style := by
  cases v <;> rw [constant, Constant.write, write]

theorem IsWritable.constant {v : Scalar} (h : v.IsWritable) : v.constant.IsWritable := by
  cases v with
  | text s => exact .text s
  | integer n => exact .integer h
  | boolean b => exact .boolean b

end Scalar

abbrev WrittenArguments := List (String × Scalar)

def writeArgument (style : QuoteStyle) (a : String × Scalar) : List Char :=
  a.1.toList ++ ([' ', '=', ' '] ++ a.2.write style)

def writeArguments (style : QuoteStyle) : WrittenArguments → List Char
  | [] => []
  | [a] => writeArgument style a
  | a :: as => writeArgument style a ++ ([',', ' '] ++ writeArguments style as)

namespace WrittenArguments

def IsWritable (as : WrittenArguments) : Prop :=
  ∀ a ∈ as, isWord a.1.toList = true ∧ a.2.IsWritable

def fields (as : WrittenArguments) : List (String × Constant) :=
  as.map fun a => (a.1, a.2.constant)

theorem IsWritable.fields {as : WrittenArguments} (h : as.IsWritable) : AreWritable as.fields := by
  intro a ha
  obtain ⟨b, hb, rfl⟩ := List.mem_map.1 ha
  exact ⟨(h b hb).1, (h b hb).2.constant⟩

end WrittenArguments

theorem writeArguments_eq (style : QuoteStyle) (as : WrittenArguments) :
    writeArguments style as = writeFields style as.fields := by
  have hfield (a : String × Scalar) : writeField style (a.1, a.2.constant) = writeArgument style a := by
    rw [writeField, writeArgument, Scalar.write_constant]
  induction as with
  | nil => rfl
  | cons a as ih =>
    cases as with
    | nil =>
      rw [writeArguments, ← hfield]
      exact List.intercalate_singleton.symm
    | cons b bs =>
      rw [writeArguments, ih, ← hfield]
      · exact (writeFields_cons style _ _ _).symm
      · simp

theorem inline_arguments {style : QuoteStyle} (hq : isQuote style.quote = true) (line : Nat)
    {as : WrittenArguments} (has : as.IsWritable) (rest : List Char) :
    Inline line (writeArguments style as) (fieldsTokens line as.fields) (')' :: rest) := by
  rw [writeArguments_eq]
  exact inline_fields hq line has.fields rest

/-! ## Annotations -/

def argumentText (style : QuoteStyle) (as : WrittenArguments) : List Char :=
  '(' :: (writeArguments style as ++ [')'])

theorem enclosed_argumentText {style : QuoteStyle} (hq : isQuote style.quote = true) {as : WrittenArguments}
    (has : as.IsWritable) : Enclosed (argumentText style as) := by
  refine ⟨[], writeArguments style as ++ [')'], rfl, nofun, fun post => ?_⟩
  obtain ⟨ms, hms, hfst, hun⟩ := (inline_arguments hq 1 has post).marks
  have hclose : markedFrom .code (')' :: post) = (')', true) :: markedFrom .code post := by
    rw [markedFrom_cons, step_inert (by decide)]
  rw [List.append_assoc, List.singleton_append, hms, hclose, closing?_append hun, closing?_last, hfst]
  rfl

end UpdaterBootstrap
