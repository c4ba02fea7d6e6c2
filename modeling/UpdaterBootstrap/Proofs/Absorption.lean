import UpdaterBootstrap.Annotation.Field
import UpdaterBootstrap.Proofs.Nesting

/-!
# Names of constants in arguments

A name stands for a constant declared elsewhere, so no field takes it as a value. One operation hides
a name from the check of the fields: a text takes whatever is added on its right.
-/

namespace UpdaterBootstrap

/-! ## Names in expressions -/

mutual

def Expression.mentions : Expression → Bool
  | .reference _ => true
  | .list items => Expression.mentionsAny items
  | .negation operand => operand.mentions
  | .operation _ left right => left.mentions || right.mentions
  | _ => false

def Expression.mentionsAny : List Expression → Bool
  | [] => false
  | e :: es => e.mentions || Expression.mentionsAny es

end

/-! ## Operations on names -/

/-- The values that neither a field nor arithmetic takes. -/
def Constant.IsOpen : Constant → Prop
  | .reference _ | .list _ => True
  | _ => False

theorem fold_text_left {op : Operator} {s : String} {b c : Constant} (h : fold op (.text s) b = .ok c) :
    op = .add ∧ ∃ t, c = .text t := by
  cases op with
  | add => exact ⟨rfl, _, (Except.ok.inj h).symm⟩
  | _ => cases b <;> cases h

theorem fold_text_right {op : Operator} {a c : Constant} {s : String} (h : fold op a (.text s) = .ok c) :
    op = .add ∧ ∃ t, c = .text t := by
  cases a with
  | text t => exact fold_text_left h
  | integer n =>
    cases op with
    | add => exact ⟨rfl, _, (Except.ok.inj h).symm⟩
    | _ => cases h
  | decimal x =>
    cases op with
    | add => exact ⟨rfl, _, (Except.ok.inj h).symm⟩
    | _ => cases h
  | boolean b =>
    cases op with
    | add => exact ⟨rfl, _, (Except.ok.inj h).symm⟩
    | _ => cases h
  | reference name => cases op <;> cases h
  | list items => cases op <;> cases h

theorem not_fold_open_left {op : Operator} {a b c : Constant} (ha : a.IsOpen) : fold op a b ≠ .ok c := by
  intro h
  cases a with
  | reference name => cases op <;> cases b <;> cases h
  | list items => cases op <;> cases b <;> cases h
  | _ => exact ha

theorem fold_open_right {op : Operator} {a b c : Constant} (hb : b.IsOpen) (h : fold op a b = .ok c) :
    op = .add ∧ ∃ s, a = .text s := by
  cases a with
  | text s => exact ⟨(fold_text_left h).1, s, rfl⟩
  | _ =>
    cases b with
    | reference name => cases op <;> cases h
    | list items => cases op <;> cases h
    | _ => exact hb.elim

theorem not_negate_of_isOpen {a c : Constant} (ha : a.IsOpen) : negate a ≠ .ok c := by
  intro h
  cases a with
  | reference name => cases h
  | list items => cases h
  | _ => exact ha

/-! ## Names in values -/

/-- Whether a name is on the right of a sum whose left operand is a text. -/
def Expression.Absorbs : Expression → Prop
  | .operation .add left right =>
    ((∃ s, left.value = .ok (.text s)) ∧ right.mentions = true) ∨ left.Absorbs ∨ right.Absorbs
  | _ => False

/-- The value of an expression with a name in it: a text that has taken the name, or the name itself
or a list. -/
theorem value_of_mentions : ∀ {e : Expression} {c : Constant}, e.mentions = true → e.value = .ok c →
    (e.Absorbs ∧ ∃ s, c = .text s) ∨ (¬ e.Absorbs ∧ c.IsOpen)
  | .text _, _, hm, _ => by cases hm
  | .integer _, _, hm, _ => by cases hm
  | .decimal _, _, hm, _ => by cases hm
  | .boolean _, _, hm, _ => by cases hm
  | .reference name, c, _, hv => by
    obtain rfl := Except.ok.inj hv
    exact .inr ⟨id, trivial⟩
  | .list items, c, _, hv => by
    obtain ⟨cs, _, hc⟩ := bind_eq_ok.1 hv
    obtain rfl := pure_eq_ok.1 hc
    exact .inr ⟨id, trivial⟩
  | .negation a, c, hm, hv => by
    obtain ⟨x, hx, hc⟩ := bind_eq_ok.1 hv
    rcases value_of_mentions (e := a) hm hx with ⟨_, s, rfl⟩ | ⟨_, hopen⟩
    · cases hc
    · exact absurd hc (not_negate_of_isOpen hopen)
  | .operation op a b, c, hm, hv => by
    obtain ⟨x, hx, hb⟩ := bind_eq_ok.1 hv
    obtain ⟨y, hy, hc⟩ := bind_eq_ok.1 hb
    simp only [Expression.mentions, Bool.or_eq_true] at hm
    rcases hm with hma | hmb
    · rcases value_of_mentions hma hx with ⟨habs, s, rfl⟩ | ⟨_, hopen⟩
      · obtain ⟨rfl, htext⟩ := fold_text_left hc
        exact .inl ⟨.inr (.inl habs), htext⟩
      · exact absurd hc (not_fold_open_left hopen)
    · rcases value_of_mentions hmb hy with ⟨habs, s, rfl⟩ | ⟨_, hopen⟩
      · obtain ⟨rfl, htext⟩ := fold_text_right hc
        exact .inl ⟨.inr (.inr habs), htext⟩
      · obtain ⟨rfl, s, rfl⟩ := fold_open_right hopen hc
        exact .inl ⟨.inl ⟨⟨s, hx⟩, hmb⟩, (fold_text_left hc).2⟩

theorem coerce_text_iff {kind : AnnotationKind} {field : FieldSchema} {s : String} :
    (∃ v, coerce kind field (.text s) = .ok v) ↔ field.type = .text := by
  cases h : field.type <;> simp [coerce, FieldType.accept?, h]

theorem not_coerce_of_isOpen {kind : AnnotationKind} {field : FieldSchema} {c : Constant} (hc : c.IsOpen) :
    ¬ ∃ v, coerce kind field c = .ok v := by
  rintro ⟨v, hv⟩
  cases c with
  | reference name => cases hv
  | list items => cases h : field.type <;> simp [coerce, FieldType.accept?, h] at hv
  | _ => exact hc

/-- A field takes an expression with a name in it only as a text that has taken the name. -/
theorem coerce_of_mentions {e : Expression} {c : Constant} (hm : e.mentions = true) (hv : e.value = .ok c)
    (kind : AnnotationKind) (field : FieldSchema) :
    (∃ v, coerce kind field c = .ok v) ↔ field.type = .text ∧ e.Absorbs := by
  rcases value_of_mentions hm hv with ⟨habs, s, rfl⟩ | ⟨hnot, hopen⟩
  · rw [coerce_text_iff]
    exact ⟨fun h => ⟨h, habs⟩, And.left⟩
  · exact ⟨fun h => absurd h (not_coerce_of_isOpen hopen), fun h => absurd h.2 hnot⟩

/-! ## Names in arguments -/

structure WrittenArgument where
  field : String
  expression : Expression
  value : Constant
  valued : expression.value = .ok value

def WrittenArgument.argument (w : WrittenArgument) : String × Constant :=
  (w.field, w.value)

def SpellsNamed (w : WrittenArgument) (ts rest : List Placed) : Prop :=
  ∃ mid, readWord ts = .ok (w.field, mid) ∧ isSymbolAt '=' mid = true ∧
    Spells .sum [w.expression] mid.tail rest

inductive SpellsAllNamed : List WrittenArgument → List Placed → List Placed → Prop
  | last {w : WrittenArgument} {ts rest : List Placed} (h : SpellsNamed w ts rest) :
      SpellsAllNamed [w] ts rest
  | comma {w : WrittenArgument} {ts rest : List Placed} (h : SpellsNamed w ts rest)
      (hc : isSymbolAt ',' rest = true) : SpellsAllNamed [w] ts rest.tail
  | more {w : WrittenArgument} {ws : List WrittenArgument} {ts mid rest : List Placed}
      (h : SpellsNamed w ts mid) (hc : isSymbolAt ',' mid = true) (hs : SpellsAllNamed ws mid.tail rest) :
      SpellsAllNamed (w :: ws) ts rest

inductive SpellsArguments : List WrittenArgument → List Placed → List Placed → Prop
  | absent {ts : List Placed} (h : isSymbolAt '(' ts = false) : SpellsArguments [] ts ts
  | empty {ts : List Placed} (ho : isSymbolAt '(' ts = true) (hc : isSymbolAt ')' ts.tail = true) :
      SpellsArguments [] ts ts.tail.tail
  | positional {w : WrittenArgument} {ts rest : List Placed} (ho : isSymbolAt '(' ts = true)
      (hf : w.field = positionalField) (h : Spells .sum [w.expression] ts.tail rest)
      (hc : isSymbolAt ')' rest = true) : SpellsArguments [w] ts rest.tail
  | named {ws : List WrittenArgument} {ts rest : List Placed} (ho : isSymbolAt '(' ts = true)
      (h : SpellsAllNamed ws ts.tail rest) (hc : isSymbolAt ')' rest = true) : SpellsArguments ws ts rest.tail

theorem readNamedArguments_spells {fuel : Nat} {done result : List (String × Constant)}
    {ts rest : List Placed} (h : readNamedArguments fuel done ts = .ok (result, rest)) :
    ∃ ws, SpellsAllNamed ws ts rest ∧ result = done ++ ws.map WrittenArgument.argument := by
  induction fuel generalizing done ts with
  | zero => cases h
  | succ fuel ih =>
    rw [readNamedArguments] at h
    obtain ⟨⟨field, ts₁⟩, hw, hfield⟩ := bind_eq_ok.1 h
    obtain ⟨ts₂, heq, hvalue⟩ := bind_eq_ok.1 hfield
    obtain ⟨⟨value, ts₃⟩, hv, hend⟩ := bind_eq_ok.1 hvalue
    obtain ⟨hs, rfl⟩ := expectSymbol_eq_ok heq
    obtain ⟨e, he, hval⟩ := readConstant_spells hv
    have hspelled : SpellsNamed ⟨field, e, value, hval⟩ ts ts₃ := ⟨ts₁, hw, hs, he⟩
    dsimp only at hend
    split at hend
    · obtain ⟨rfl, rfl⟩ := Prod.mk.inj (pure_eq_ok.1 hend)
      split
      · exact ⟨[_], .comma hspelled ‹_›, rfl⟩
      · exact ⟨[_], .last hspelled, rfl⟩
    · rename_i hc
      simp only [Bool.or_eq_true, Bool.not_eq_true', not_or, Bool.not_eq_false] at hc
      obtain ⟨ws, hws, rfl⟩ := ih hend
      exact ⟨_ :: ws, .more hspelled hc.1 hws, by rw [List.append_assoc]; rfl⟩

theorem readArguments_spells {ts rest : List Placed} {arguments : List (String × Constant)}
    (h : readArguments ts = .ok (arguments, rest)) :
    ∃ ws, SpellsArguments ws ts rest ∧ arguments = ws.map WrittenArgument.argument := by
  cases ho : isSymbolAt '(' ts with
  | false =>
    rw [readArguments, ho] at h
    obtain ⟨rfl, rfl⟩ := Prod.mk.inj (Except.ok.inj h)
    exact ⟨[], .absent ho, rfl⟩
  | true =>
    rw [readArguments_open ho] at h
    obtain ⟨⟨as, mid⟩, hbetween, hclose⟩ := bind_eq_ok.1 h
    obtain ⟨end', hend, heq⟩ := map_eq_ok.1 hclose
    obtain ⟨rfl, rfl⟩ := Prod.mk.inj heq
    obtain ⟨hc, rfl⟩ := expectSymbol_eq_ok hend
    unfold readBetween at hbetween
    split at hbetween
    · obtain ⟨ws, hws, rfl⟩ := readNamedArguments_spells hbetween
      exact ⟨ws, .named ho hws hc, rfl⟩
    · split at hbetween
      · obtain ⟨rfl, rfl⟩ := Prod.mk.inj (Except.ok.inj hbetween)
        exact ⟨[], .empty ho hc, rfl⟩
      · obtain ⟨⟨value, ts'⟩, hv, hpositional⟩ := bind_eq_ok.1 hbetween
        obtain ⟨rfl, rfl⟩ := Prod.mk.inj (Except.ok.inj hpositional)
        obtain ⟨e, he, hval⟩ := readConstant_spells hv
        exact ⟨[⟨positionalField, e, value, hval⟩], .positional ho rfl he hc, rfl⟩

theorem coerce_of_collectFields {kind : AnnotationKind} {taken values : FieldValues}
    {arguments : List (String × Constant)} (h : collectFields kind taken arguments = .ok values) :
    ∀ argument ∈ arguments, ∃ field ∈ kind.fields, field.name = argument.1 ∧
      ∃ v, coerce kind field argument.2 = .ok v := by
  induction arguments generalizing taken with
  | nil => exact nofun
  | cons argument arguments ih =>
    rw [collectFields] at h
    split at h
    · cases h
    · rename_i field hfield
      split at h
      · cases h
      · obtain ⟨v, hv, hrest⟩ := bind_eq_ok.1 h
        refine List.forall_mem_cons.2 ⟨⟨field, List.mem_of_find?_eq_some hfield, ?_, v, hv⟩, ih hrest⟩
        simpa using List.find?_some hfield

/-- An annotation whose arguments get values has a name in an argument only where a text has taken
it; and where a text has taken it, a text field gets a value. -/
theorem argument_mentions_iff {ts rest : List Placed} {a : AnnotationTerm}
    (h : readAnnotationTerm ts = .ok (a, rest)) :
    ∃ us mid written, expectSymbol '@' ts = .ok us ∧ readDottedName us = .ok (a.name, mid) ∧
      SpellsArguments written mid rest ∧ a.arguments = written.map WrittenArgument.argument ∧
      ∀ w ∈ written, w.expression.mentions = true → ∀ kind : AnnotationKind,
        (∀ field, (∃ v, coerce kind field w.value = .ok v) ↔ field.type = .text ∧ w.expression.Absorbs) ∧
        ∀ values, kind.evaluate a.arguments = .ok values →
          w.expression.Absorbs ∧ ∃ field ∈ kind.fields, field.name = w.field ∧ field.type = .text := by
  obtain ⟨us, hat, hterm⟩ := bind_eq_ok.1 h
  obtain ⟨⟨name, mid⟩, hname, harguments⟩ := bind_eq_ok.1 hterm
  obtain ⟨⟨as, rest'⟩, hread, hend⟩ := bind_eq_ok.1 harguments
  obtain ⟨rfl, rfl⟩ := Prod.mk.inj (pure_eq_ok.1 hend)
  obtain ⟨written, hwritten, rfl⟩ := readArguments_spells hread
  refine ⟨us, mid, written, hat, hname, hwritten, rfl, fun w hw hm kind => ?_⟩
  have hiff := coerce_of_mentions hm w.valued kind
  refine ⟨hiff, fun values hvalues => ?_⟩
  obtain ⟨taken, hcollect, _⟩ := bind_eq_ok.1 hvalues
  obtain ⟨field, hfield, hfname, hv⟩ :=
    coerce_of_collectFields hcollect w.argument (List.mem_map_of_mem hw)
  obtain ⟨htype, habs⟩ := (hiff field).1 hv
  exact ⟨habs, field, hfield, hfname, htype⟩

def textBeforeNameTokens : List Placed :=
  [.symbol '@', .word "Updater", .symbol '(', .word "name", .symbol '=', .text "x", .symbol '+',
    .word "Names", .symbol '.', .word "FIX", .symbol ')', .finish].map (⟨·, 1⟩)

theorem argument_mentions_iff_text : ∃ a rest values, ∃ written : List WrittenArgument,
    readAnnotationTerm textBeforeNameTokens = .ok (a, rest) ∧
      AnnotationKind.updater.evaluate a.arguments = .ok values ∧
      a.arguments = written.map WrittenArgument.argument ∧
      ∀ w ∈ written, w.expression.mentions = true → w.expression.Absorbs := by
  have hread : readAnnotationTerm textBeforeNameTokens =
      .ok (⟨"Updater", [("name", .text "xNames.FIX")], 1⟩, [⟨.finish, 1⟩]) := rfl
  obtain ⟨_, _, written, _, _, _, harguments, hnames⟩ :=
    argument_mentions_iff hread
  exact ⟨_, _, _, written, hread, rfl, harguments, fun w hw hm => ((hnames w hw hm .updater).2 _ rfl).1⟩

/-- `'x' + Names.FIX`. -/
def textBeforeName : Expression :=
  .operation .add (.text "x") (.reference "Names.FIX")

theorem name_taken_by_text :
    textBeforeName.mentions = true ∧ ∃ mid rest a values w,
      tokens "@Updater(name = 'x' + Names.FIX)" = .ok textBeforeNameTokens ∧
        readAnnotationTerm textBeforeNameTokens = .ok (a, rest) ∧ w.expression = textBeforeName ∧
        SpellsArguments [w] mid rest ∧ a.arguments = [w.argument] ∧
        AnnotationKind.updater.evaluate a.arguments = .ok values ∧
        values.lookup "name" = some (.text "xNames.FIX") := by
  refine ⟨rfl, textBeforeNameTokens.drop 2, [⟨.finish, 1⟩],
    ⟨"Updater", [("name", .text "xNames.FIX")], 1⟩, _,
    ⟨"name", textBeforeName, .text "xNames.FIX", rfl⟩, ?_, rfl, rfl, ?_, rfl, rfl, rfl⟩
  · exact eq_ok_of_toOption (by decide +kernel)
  · have hleft : Spells .sum [.text "x"] (textBeforeNameTokens.drop 5) (textBeforeNameTokens.drop 6) :=
      .product (.signed (.primary (.text rfl)))
    have hright : Spells .product [.reference "Names.FIX"] (textBeforeNameTokens.drop 7)
        (textBeforeNameTokens.drop 10) :=
      .signed (.primary (.reference rfl (by decide) (by decide) rfl))
    have hnamed : SpellsAllNamed [⟨"name", textBeforeName, .text "xNames.FIX", rfl⟩]
        (textBeforeNameTokens.drop 3) (textBeforeNameTokens.drop 10) :=
      .last ⟨textBeforeNameTokens.drop 4, rfl, rfl, .sum hleft rfl hright⟩
    have hclose : isSymbolAt ')' (textBeforeNameTokens.drop 10) = true := rfl
    exact SpellsArguments.named rfl hnamed hclose

end UpdaterBootstrap
