import UpdaterBootstrap.Proofs.DottedName
import UpdaterBootstrap.Proofs.SpelledExpression

/-!
# Written expressions

An expression is written with a pair of parentheses only where an operation stands at a place for
what is bound more tightly. The reader gives the value of the tree, or the first fault in it from
the left, and no other tokens that spell the tree have fewer parentheses (`readConstant_write`).
-/

namespace UpdaterBootstrap

/-! ## Tokens of an expression -/

def segmentTokens : List (List Char) → List Token
  | [] => []
  | [w] => [.word (.ofList w)]
  | w :: ws => .word (.ofList w) :: .symbol '.' :: segmentTokens ws

def Operator.level : Operator → Nat
  | .add | .subtract => 0
  | .multiply | .divide => 1

def enclose (ts : List Token) : List Token :=
  .symbol '(' :: (ts ++ [.symbol ')'])

mutual

/-- At level 0 any operation stands without parentheses, at level 1 only a product, and none at
level 2. An operator associates to the left, so its right operand is one level up. -/
def Expression.write (level : Nat) : Expression → List Token
  | .text s => [.text s]
  | .integer n => [.integer n]
  | .decimal x => [.decimal x]
  | .boolean b => [.word (writeBoolean b)]
  | .reference name => segmentTokens (splitOn '.' name.toList)
  | .list items => .symbol '[' :: ([.symbol ','].intercalate (Expression.writeAll items) ++ [.symbol ']'])
  | .negation operand => .symbol '-' :: operand.write 2
  | .operation op left right =>
    let ts := left.write op.level ++ .symbol op.symbol :: right.write (op.level + 1)
    if op.level < level then enclose ts else ts

def Expression.writeAll : List Expression → List (List Token)
  | [] => []
  | e :: es => e.write 0 :: Expression.writeAll es

end

theorem Expression.writeAll_eq (es : List Expression) :
    Expression.writeAll es = es.map (Expression.write 0) := by
  induction es with
  | nil => rfl
  | cons e es ih => rw [writeAll, ih, List.map_cons]

inductive Expression.IsWritable : Expression → Prop
  | text (s : String) : IsWritable (.text s)
  | integer (n : Int64) : IsWritable (.integer n)
  | decimal (x : Float) : IsWritable (.decimal x)
  | boolean (b : Bool) : IsWritable (.boolean b)
  | reference {name : String} (h : IsDottedName name.toList)
      (notTrue : firstSegment name.toList ≠ "true".toList)
      (notFalse : firstSegment name.toList ≠ "false".toList) : IsWritable (.reference name)
  | list {items : List Expression} (h : ∀ e ∈ items, IsWritable e) : IsWritable (.list items)
  | negation {operand : Expression} (h : IsWritable operand) : IsWritable (.negation operand)
  | operation {op : Operator} {left right : Expression} (hl : IsWritable left) (hr : IsWritable right) :
      IsWritable (.operation op left right)

/-! ## Names -/

theorem placed_cons {ts : List Placed} {t : Token} {us : List Token} (h : ts.map Placed.token = t :: us) :
    ∃ line vs, ts = ⟨t, line⟩ :: vs ∧ vs.map Placed.token = us := by
  obtain ⟨⟨_, line⟩, vs, rfl, rfl, hvs⟩ := List.map_eq_cons_iff.1 h
  exact ⟨line, vs, rfl, hvs⟩

theorem placed_one {ts : List Placed} {t : Token} (h : ts.map Placed.token = [t]) :
    ∃ line, ts = [⟨t, line⟩] := by
  obtain ⟨line, vs, rfl, hvs⟩ := placed_cons h
  obtain rfl := List.map_eq_nil_iff.1 hvs
  exact ⟨line, rfl⟩

section
variable {ts rest : List Placed}

theorem readSegments_map (he : EndsName rest) {w : List Char} {ws : List (List Char)}
    (h : ts.map Placed.token = .symbol '.' :: segmentTokens (w :: ws)) :
    readSegments (ts ++ rest) = (.ofList ('.' :: joinDots (w :: ws)), rest) := by
  obtain ⟨line, us, rfl, hus⟩ := placed_cons h
  clear h
  induction ws generalizing line us w with
  | nil =>
    obtain ⟨line', rfl⟩ := placed_one hus
    simp [readSegments, readSegments_ends he, joinDots]
  | cons v ws ih =>
    obtain ⟨line', us, rfl, hvs⟩ := placed_cons hus
    obtain ⟨line'', vs, rfl, hws⟩ := placed_cons hvs
    have hmore := ih line'' vs hws
    rw [List.cons_append] at hmore
    simp [readSegments, hmore, joinDots, String.ext_iff]

theorem readDottedName_map (he : EndsName rest) {w : List Char} {ws : List (List Char)}
    (h : ts.map Placed.token = segmentTokens (w :: ws)) :
    readDottedName (ts ++ rest) = .ok (.ofList (joinDots (w :: ws)), rest) := by
  have hfirst (line : Nat) (us : List Placed) : readDottedName (⟨.word (.ofList w), line⟩ :: us) =
      .ok (.ofList w ++ (readSegments us).1, (readSegments us).2) := rfl
  cases ws with
  | nil =>
    obtain ⟨line, rfl⟩ := placed_one h
    rw [List.singleton_append, hfirst, readSegments_ends he]
    simp [joinDots]
  | cons v ws =>
    obtain ⟨line, us, rfl, hus⟩ := placed_cons h
    rw [List.cons_append, hfirst, readSegments_map he hus]
    simp [joinDots]

theorem spells_reference {name : String} (hname : IsDottedName name.toList)
    (htrue : firstSegment name.toList ≠ "true".toList) (hfalse : firstSegment name.toList ≠ "false".toList)
    (he : EndsName rest) (h : ts.map Placed.token = segmentTokens (splitOn '.' name.toList)) :
    Spells .primary [.reference name] (ts ++ rest) rest := by
  obtain ⟨w, ws, hjoin, hsplit, hfirst, _⟩ := hname.exists_words
  rw [hsplit] at h
  rw [hfirst] at htrue hfalse
  have hread := readDottedName_map he h
  rw [← hjoin, String.ofList_toList] at hread
  have hne {word : String} (hw : w ≠ word.toList) : String.ofList w ≠ word := by
    rintro rfl
    exact hw String.toList_ofList.symm
  have hcurrent : (current (ts ++ rest)).token = .word (.ofList w) := by
    cases ws <;> obtain ⟨line, us, rfl, _⟩ := placed_cons h <;> rfl
  exact .reference hcurrent (hne htrue) (hne hfalse) hread

end

/-! ## What is written spells the expression -/

def levelRule : Nat → Rule
  | 0 => .sum
  | 1 => .product
  | _ => .signed

section
variable {e : Expression} {ts rest : List Placed}

/-- What is bound more tightly may stand at a place for what is bound less. -/
theorem Spells.at_level {level level' : Nat} (h : Spells (levelRule level') [e] ts rest)
    (hle : level ≤ level') :
    Spells (levelRule level) [e] ts rest := by
  match level, level' with
  | 0, 0 => exact h
  | 0, 1 => exact .product h
  | 0, _ + 2 => exact .product (.signed h)
  | 1, 1 => exact h
  | 1, _ + 2 => exact .signed h
  | _ + 2, _ + 2 => exact h

theorem Spells.signed_at (h : Spells .signed [e] ts rest) (level : Nat) :
    Spells (levelRule level) [e] ts rest := by
  have hhigh : Spells (levelRule (level + 2)) [e] ts rest := h
  exact hhigh.at_level (Nat.le_add_right _ _)

theorem spells_enclosed {us : List Token} (hts : ts.map Placed.token = enclose us)
    (h : ∀ vs rest, vs.map Placed.token = us → EndsName rest → Spells .sum [e] (vs ++ rest) rest) :
    Spells .primary [e] (ts ++ rest) rest := by
  obtain ⟨line, vs, rfl, hvs⟩ := placed_cons hts
  obtain ⟨inner, last, rfl, hinner, hlast⟩ := List.map_eq_append_iff.1 hvs
  obtain ⟨line', rfl⟩ := placed_one hlast
  have hclose : EndsName (⟨.symbol ')', line'⟩ :: rest) := by simp [EndsName, current]
  have hspells := h inner _ hinner hclose
  have hend : isSymbolAt ')' (⟨.symbol ')', line'⟩ :: rest) = true := rfl
  rw [List.cons_append, List.append_assoc]
  exact .parentheses rfl hspells hend

theorem spells_operation {op : Operator} {a b : Expression}
    (ha : ∀ ts rest, ts.map Placed.token = a.write op.level → EndsName rest →
      Spells (levelRule op.level) [a] (ts ++ rest) rest)
    (hb : ∀ ts rest, ts.map Placed.token = b.write (op.level + 1) → EndsName rest →
      Spells (levelRule (op.level + 1)) [b] (ts ++ rest) rest)
    (hts : ts.map Placed.token = a.write op.level ++ .symbol op.symbol :: b.write (op.level + 1))
    (he : EndsName rest) :
    Spells (levelRule op.level) [.operation op a b] (ts ++ rest) rest := by
  obtain ⟨us, _, rfl, hus, hmore⟩ := List.map_eq_append_iff.1 hts
  obtain ⟨line, vs, rfl, hvs⟩ := placed_cons hmore
  have hname : EndsName (⟨.symbol op.symbol, line⟩ :: (vs ++ rest)) := by
    cases op <;> simp [EndsName, current, Operator.symbol]
  have hleft := ha us _ hus hname
  have hright := hb vs rest hvs he
  rw [List.append_assoc]
  cases op with
  | add => exact .sum hleft rfl hright
  | subtract => exact .sum hleft rfl hright
  | multiply => exact .multiple hleft rfl hright
  | divide => exact .multiple hleft rfl hright

end

theorem spells_items {items : List Expression}
    (h : ∀ e ∈ items, ∀ ts rest, ts.map Placed.token = e.write 0 → EndsName rest →
      Spells .sum [e] (ts ++ rest) rest)
    {ts : List Placed} (line : Nat) (rest : List Placed)
    (hts : ts.map Placed.token = [.symbol ','].intercalate (items.map (Expression.write 0))) :
    Spells (.items ']') items (ts ++ ⟨.symbol ']', line⟩ :: rest) rest := by
  have hends {c : Char} (line : Nat) (us : List Placed) (hc : c ≠ '.') :
      EndsName (⟨.symbol c, line⟩ :: us) := by
    simp [EndsName, current, hc]
  induction items generalizing ts with
  | nil =>
    obtain rfl := List.map_eq_nil_iff.1 hts
    have hend : isSymbolAt ']' (⟨.symbol ']', line⟩ :: rest) = true := rfl
    exact .close hend
  | cons e es ih =>
    obtain ⟨hfirst, hes⟩ := List.forall_mem_cons.1 h
    cases es with
    | nil =>
      rw [List.map_singleton, List.intercalate_singleton] at hts
      exact .last (hfirst ts _ hts (hends line rest (by decide))) rfl
    | cons e' es =>
      have hsplit : [Token.symbol ','].intercalate ((e :: e' :: es).map (Expression.write 0)) =
          e.write 0 ++ .symbol ',' :: [Token.symbol ','].intercalate
            ((e' :: es).map (Expression.write 0)) := by
        simp [List.intercalate_cons_cons]
      rw [hsplit] at hts
      obtain ⟨us, _, rfl, hus, hmore⟩ := List.map_eq_append_iff.1 hts
      obtain ⟨line', vs, rfl, hvs⟩ := placed_cons hmore
      rw [List.append_assoc]
      exact .item (hfirst us _ hus (hends line' _ (by decide))) rfl (ih hes hvs)

theorem Expression.IsWritable.spells {e : Expression} (h : e.IsWritable) (level : Nat) (ts rest : List Placed)
    (hts : ts.map Placed.token = e.write level) (he : EndsName rest) :
    Spells (levelRule level) [e] (ts ++ rest) rest := by
  induction h generalizing level ts rest with
  | text s =>
    obtain ⟨line, rfl⟩ := placed_one hts
    exact .signed_at (.primary (.text rfl)) level
  | integer n =>
    obtain ⟨line, rfl⟩ := placed_one hts
    exact .signed_at (.primary (.integer rfl)) level
  | decimal x =>
    obtain ⟨line, rfl⟩ := placed_one hts
    exact .signed_at (.primary (.decimal rfl)) level
  | boolean b =>
    obtain ⟨line, rfl⟩ := placed_one hts
    cases b with
    | true => exact .signed_at (.primary (.true rfl)) level
    | false => exact .signed_at (.primary (.false rfl)) level
  | reference hname htrue hfalse =>
    exact .signed_at (.primary (spells_reference hname htrue hfalse he hts)) level
  | @list items _ ih =>
    rw [write, writeAll_eq] at hts
    obtain ⟨line, us, rfl, hus⟩ := placed_cons hts
    obtain ⟨inner, last, rfl, hinner, hlast⟩ := List.map_eq_append_iff.1 hus
    obtain ⟨line', rfl⟩ := placed_one hlast
    have hitems := spells_items (fun e he => ih e he 0) line' rest hinner
    rw [List.cons_append, List.append_assoc]
    exact .signed_at (.primary (.brackets rfl hitems)) level
  | @negation a _ ih =>
    rw [write] at hts
    obtain ⟨line, us, rfl, hus⟩ := placed_cons hts
    have hminus : Spells .signed [.negation a] (⟨.symbol '-', line⟩ :: (us ++ rest)) rest :=
      .minus rfl (ih 2 us rest hus he)
    exact hminus.signed_at level
  | @operation op a b _ _ iha ihb =>
    -- the right operand is one level up, because operations associate to the left
    have hplain (ts rest : List Placed)
        (hts : ts.map Placed.token = a.write op.level ++ .symbol op.symbol :: b.write (op.level + 1))
        (he : EndsName rest) : Spells (levelRule op.level) [.operation op a b] (ts ++ rest) rest :=
      spells_operation (iha op.level) (ihb (op.level + 1)) hts he
    rw [write] at hts
    split at hts
    -- in parentheses it is a primary, whatever the level asks for
    · refine .signed_at (.primary (spells_enclosed hts fun vs rest hvs he => ?_)) level
      exact (hplain vs rest hvs he).at_level (Nat.zero_le _)
    · rename_i hle
      exact (hplain ts rest hts he).at_level (Nat.le_of_not_lt hle)

/-! ## The fewest parentheses -/

def openings (ts : List Token) : Nat :=
  ts.count (.symbol '(')

@[simp] theorem openings_nil : openings [] = 0 := rfl

@[simp] theorem openings_append (ts us : List Token) : openings (ts ++ us) = openings ts + openings us :=
  List.count_append

@[simp] theorem openings_cons (t : Token) (ts : List Token) :
    openings (t :: ts) = openings ts + if t = .symbol '(' then 1 else 0 := by
  simp [openings, List.count_cons]

theorem openings_segmentTokens (ws : List (List Char)) : openings (segmentTokens ws) = 0 := by
  induction ws with
  | nil => rfl
  | cons w ws ih =>
    cases ws with
    | nil => simp [segmentTokens]
    | cons v ws => simp [segmentTokens, ih]

@[simp] theorem Operator.symbol_ne (op : Operator) : op.symbol ≠ '(' := by
  cases op <;> decide

def openingsAt (level : Nat) : List Expression → Nat
  | [] => 0
  | e :: es => openings (e.write level) + openingsAt level es

@[simp] theorem openingsAt_nil (level : Nat) : openingsAt level [] = 0 := rfl

@[simp] theorem openingsAt_cons (level : Nat) (e : Expression) (es : List Expression) :
    openingsAt level (e :: es) = openings (e.write level) + openingsAt level es := rfl

theorem openings_list (es : List Expression) (level : Nat) :
    openings ((Expression.list es).write level) = openingsAt 0 es := by
  rw [Expression.write, Expression.writeAll_eq]
  induction es with
  | nil => simp
  | cons e es ih =>
    cases es with
    | nil => simp
    | cons e' es => simpa [List.intercalate_cons_cons] using ih

theorem openings_operation (op : Operator) (a b : Expression) (level : Nat) :
    openings ((Expression.operation op a b).write level) =
      openings (a.write op.level) + openings (b.write (op.level + 1)) + if op.level < level then 1
        else 0 := by
  rw [Expression.write]
  split <;> simp [enclose]

theorem openings_write_mono (e : Expression) {level level' : Nat} (h : level ≤ level') :
    openings (e.write level) ≤ openings (e.write level') := by
  cases e with
  | operation op a b =>
    rw [openings_operation, openings_operation]
    split <;> split <;> omega
  | _ => simp [Expression.write]

theorem openings_write_le (e : Expression) (level : Nat) :
    openings (e.write level) ≤ openings (e.write 0) + 1 := by
  cases e with
  | operation op a b =>
    rw [openings_operation, openings_operation]
    split <;> omega
  | _ => simp [Expression.write]

theorem level_of_sum {ts : List Placed} {op : Operator} (h : sumOperator? ts = some op) : op.level = 0 := by
  unfold sumOperator? at h
  split at h
  · cases h
    rfl
  · split at h <;> cases h
    rfl

theorem level_of_product {ts : List Placed} {op : Operator} (h : productOperator? ts = some op) :
    op.level = 1 := by
  unfold productOperator? at h
  split at h
  · cases h
    rfl
  · split at h <;> cases h
    rfl

/-- The second list is what is left of the first after tokens with so many opening parentheses at
least. -/
def Takes (n : Nat) (ts rest : List Placed) : Prop :=
  ∃ taken, ts = taken ++ rest ∧ n ≤ openings (taken.map Placed.token)

section
variable {m n : Nat} {ts mid rest : List Placed}

theorem Takes.trans (h : Takes m ts mid) (h' : Takes n mid rest) : Takes (m + n) ts rest := by
  obtain ⟨taken, rfl, hm⟩ := h
  obtain ⟨taken', rfl, hn⟩ := h'
  refine ⟨taken ++ taken', (List.append_assoc _ _ _).symm, ?_⟩
  simp
  omega

theorem Takes.mono (h : Takes n ts rest) (hle : m ≤ n) : Takes m ts rest := by
  obtain ⟨taken, hts, hn⟩ := h
  exact ⟨taken, hts, Nat.le_trans hle hn⟩

theorem takes_tail (ts : List Placed) : Takes 0 ts ts.tail := by
  cases ts with
  | nil => exact ⟨[], rfl, Nat.zero_le _⟩
  | cons t ts => exact ⟨[t], rfl, Nat.zero_le _⟩

theorem takes_open (h : isSymbolAt '(' ts = true) : Takes 1 ts ts.tail := by
  cases ts with
  | nil => cases h
  | cons t ts =>
    have ht : t.token = .symbol '(' := isSymbolAt_eq.1 h
    exact ⟨[t], rfl, by simp [ht]⟩

end

def Rule.level : Rule → Nat
  | .sum | .items _ => 0
  | .product => 1
  | .signed | .primary => 2

/-- Whatever spells expressions has at least the parentheses with which they are written. -/
theorem Spells.takes {rule : Rule} {es : List Expression} {ts rest : List Placed}
    (h : Spells rule es ts rest) :
    Takes (openingsAt rule.level es) ts rest := by
  have operation {op : Operator} {a b : Expression} {ts mid rest : List Placed}
      (ha : Takes (openingsAt op.level [a]) ts mid)
      (hb : Takes (openingsAt (op.level + 1) [b]) mid.tail rest) :
      Takes (openingsAt op.level [.operation op a b]) ts rest := by
    refine (ha.trans ((takes_tail mid).trans hb)).mono ?_
    simp [openings_operation]
  induction h with
  | @product e _ _ _ ih => exact ih.mono (by simp [Rule.level, openings_write_mono])
  | @signed e _ _ _ ih => exact ih.mono (by simp [Rule.level, openings_write_mono])
  | @sum op _ _ _ _ _ _ hop _ iha ihb =>
    have hlevel : op.level = 0 := level_of_sum hop
    rw [Rule.level, ← hlevel] at iha ⊢
    refine operation iha ?_
    rwa [hlevel]
  | @multiple op _ _ _ _ _ _ hop _ iha ihb =>
    have hlevel : op.level = 1 := level_of_product hop
    rw [Rule.level, ← hlevel] at iha ⊢
    refine operation iha ?_
    rwa [hlevel]
  | minus _ _ ih => exact ((takes_tail _).trans ih).mono (by simp [Expression.write, Rule.level])
  | plus _ _ ih => exact ((takes_tail _).trans ih).mono (by simp [Rule.level])
  | primary _ ih => exact ih
  | text => exact (takes_tail _).mono (by simp [Expression.write])
  | integer => exact (takes_tail _).mono (by simp [Expression.write])
  | decimal => exact (takes_tail _).mono (by simp [Expression.write])
  | true => exact (takes_tail _).mono (by simp [Expression.write])
  | false => exact (takes_tail _).mono (by simp [Expression.write])
  | reference _ _ _ hn =>
    obtain ⟨taken, hts⟩ := (readDottedName_isSuffix hn).trans (List.tail_suffix _)
    exact ⟨taken, hts.symm, by simp [Expression.write, openings_segmentTokens]⟩
  | brackets _ _ ih => exact ((takes_tail _).trans ih).mono (by simp [openings_list, Rule.level])
  | braces _ _ ih => exact ((takes_tail _).trans ih).mono (by simp [openings_list, Rule.level])
  | @parentheses e _ _ hs _ _ ih =>
    -- at the highest level an expression is written with one pair more at most
    refine ((takes_open hs).trans (ih.trans (takes_tail _))).mono ?_
    have := openings_write_le e 2
    simp [Rule.level]
    omega
  | close => exact (takes_tail _).mono (by simp)
  | last _ _ ih => exact (ih.trans (takes_tail _)).mono (by simp [Rule.level])
  | item _ _ _ ih ihs => exact (ih.trans ((takes_tail _).trans ihs)).mono (by simp [Rule.level])

/-- An expression is read from the tokens that are written for it as its value, up to the
parenthesis after it, or the fault in it is reported; and no tokens that spell it have fewer
parentheses. -/
theorem readConstant_write {e : Expression} (he : e.IsWritable) {ts rest : List Placed}
    (hts : ts.map Placed.token = e.write 0) (hrest : isSymbolAt ')' rest = true) :
    (∀ c, e.value = .ok c → readConstant (ts ++ rest) = .ok (c, rest)) ∧
    (∀ fault, e.value = .error fault →
      ∃ line, readConstant (ts ++ rest) = .error ⟨line, .arithmetic fault⟩) ∧
    ∀ others after, Spells .sum [e] (others ++ after) after →
    openings (e.write 0) ≤ openings (others.map Placed.token) := by
  have hclose := isSymbolAt_eq.1 hrest
  have hname : EndsName rest := by simp [EndsName, hclose]
  have hne : rest ≠ [] := by
    rintro rfl
    cases hrest
  have hspells : Spells .sum [e] (ts ++ rest) rest := he.spells 0 ts rest hts hname
  have hgives := readConstant_of_spells hspells hne (endsSum_of_symbol hrest (by decide))
  refine ⟨fun c hc => ?_, fun fault hfault => ?_, fun others after hother => ?_⟩
  · rwa [hc] at hgives
  · rwa [hfault] at hgives
  · obtain ⟨taken, htaken, hle⟩ := hother.takes
    obtain rfl := List.append_cancel_right htaken
    simpa [Rule.level] using hle

/-- `9223372036854775807 + (1 - 1)`, which is in range. -/
def groupedSum : Expression :=
  .operation .add (.integer Int64.maxValue) (.operation .subtract (.integer 1) (.integer 1))

/-- `9223372036854775807 + 1 - 1`, which is not. -/
def chainedSum : Expression :=
  .operation .subtract (.operation .add (.integer Int64.maxValue) (.integer 1)) (.integer 1)

theorem readConstant_write_grouping :
    groupedSum.write 0 = [.integer Int64.maxValue, .symbol '+', .symbol '(', .integer 1, .symbol '-',
      .integer 1, .symbol ')'] ∧
    chainedSum.write 0 = [.integer Int64.maxValue, .symbol '+', .integer 1, .symbol '-', .integer 1] ∧
    readConstant ((groupedSum.write 0).map (⟨·, 1⟩) ++ [⟨.symbol ')', 2⟩]) =
      .ok (.integer Int64.maxValue, [⟨.symbol ')', 2⟩]) ∧
    ∃ line, readConstant ((chainedSum.write 0).map (⟨·, 1⟩) ++ [⟨.symbol ')', 2⟩]) =
      .error ⟨line, .arithmetic .overflow⟩ := by
  have hgrouped : groupedSum.IsWritable := .operation (.integer _) (.operation (.integer 1) (.integer 1))
  have hchained : chainedSum.IsWritable := .operation (.operation (.integer _) (.integer 1)) (.integer 1)
  refine ⟨rfl, rfl, ?_, ?_⟩
  · exact (readConstant_write hgrouped rfl rfl).1 _ rfl
  · exact (readConstant_write hchained rfl rfl).2.1 _ rfl

end UpdaterBootstrap
