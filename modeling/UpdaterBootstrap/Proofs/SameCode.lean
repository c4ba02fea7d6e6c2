import UpdaterBootstrap.Proofs.Borders

/-!
# Texts with the same code

Of two texts with the same code the same annotations are found and the same class header, at the
same bytes. The scan looks across the borders of the code in many places, but what it sees there are
marks.
-/

namespace UpdaterBootstrap

/-- The same characters of code, and between them parts that are no code and have the same length in
bytes. -/
inductive SameCode : List Marked → List Marked → Prop
  | nil : SameCode [] []
  | code (c : Char) {ms ns : List Marked} (h : SameCode ms ns) : SameCode ((c, true) :: ms) ((c, true) :: ns)
  | hidden {a b : List Char} {ms ns : List Marked} (ha : a ≠ []) (hb : b ≠ [])
      (hlength : byteLength a = byteLength b)
      (h : SameCode ms ns) : SameCode (a.map (·, false) ++ ms) (b.map (·, false) ++ ns)

def AfterCode (ms : List Marked) : Prop :=
  ∃ c, Bordered ((c, true) :: ms)

theorem Bordered.afterCode {c : Char} {ms : List Marked} (h : Bordered ((c, true) :: ms)) : AfterCode ms :=
  ⟨c, h⟩

theorem AfterCode.code {c : Char} {ms : List Marked} (h : AfterCode ((c, true) :: ms)) : AfterCode ms := by
  obtain ⟨_, h⟩ := h
  exact ⟨c, h.tail⟩

theorem AfterCode.isInert {c : Char} {ms : List Marked} (h : AfterCode ((c, false) :: ms)) :
    isInert c = false := by
  obtain ⟨_, h⟩ := h
  exact (List.isChain_cons_cons.1 h).1.1 rfl rfl

theorem SameCode.exists_code {c : Char} {ms ns : List Marked} (h : SameCode ((c, true) :: ms) ns) :
    ∃ ns', ns = (c, true) :: ns' := by
  generalize hfirst : (c, true) :: ms = first at h
  cases h with
  | nil => cases hfirst
  | code d h =>
    obtain ⟨heq, -⟩ := List.cons.inj hfirst
    rw [← heq]
    exact ⟨_, rfl⟩
  | @hidden a b _ _ ha =>
    obtain ⟨d, a, rfl⟩ := List.exists_cons_of_ne_nil ha
    cases hfirst

def EndsInMark (a : List Char) : Prop :=
  ∃ b d, a = b ++ [d] ∧ isInert d = false

theorem Bordered.last_mark {a : List Char} {c : Char} {ms : List Marked}
    (h : Bordered (a.map (·, false) ++ (c, true) :: ms)) (ha : a ≠ []) (hc : c ≠ '\n') : EndsInMark a := by
  refine ⟨a.dropLast, a.getLast ha, (List.dropLast_concat_getLast ha).symm, ?_⟩
  have hlast : (a.map (·, false)).getLast? = some (a.getLast ha, false) := by
    rw [List.getLast?_map, List.getLast?_eq_some_getLast ha]
    rfl
  have hborder := (List.isChain_append.1 h).2.2 _ hlast _ rfl
  exact (hborder.2 rfl rfl).resolve_right hc

theorem EndsInMark.pointAfter {a : List Char} (h : EndsInMark a) (afterPoint : Bool) :
    pointAfter afterPoint a = false := by
  obtain ⟨b, d, rfl, hd⟩ := h
  simp [UpdaterBootstrap.pointAfter, point_of_mark hd]

theorem SameCode.alike {ms ns : List Marked} (h : SameCode ms ns) (hms : AfterCode ms) (hns : AfterCode ns) :
    Alike (ms.map Prod.fst) (ns.map Prod.fst) := by
  induction h with
  | nil => exact .nil
  | code c h ih => exact .cons c (ih hms.code hns.code)
  | @hidden a b ms ns ha hb hlength h ih =>
    obtain ⟨c, a, rfl⟩ := List.exists_cons_of_ne_nil ha
    obtain ⟨d, b, rfl⟩ := List.exists_cons_of_ne_nil hb
    exact .border hms.isInert hns.isInert _ _

/-- Inert characters after code are code. -/
theorem SameCode.exists_of_inert {a cs : List Char} (ha : ∀ c ∈ a, UpdaterBootstrap.isInert c = true)
    {ms ns : List Marked}
    (h : SameCode ms ns) (hms : AfterCode ms) (hns : AfterCode ns) (hcs : ms.map Prod.fst = a ++ cs) :
    ∃ ms' ns', ms = a.map (·, true) ++ ms' ∧ ns = a.map (·, true) ++ ns' ∧ SameCode ms' ns' ∧
      AfterCode ms' ∧
      AfterCode ns' := by
  induction a generalizing ms ns with
  | nil => exact ⟨ms, ns, rfl, rfl, h, hms, hns⟩
  | cons c a ih =>
    obtain ⟨hc, hmore⟩ := List.forall_mem_cons.1 ha
    cases h with
    | nil => cases hcs
    | code d h =>
      obtain ⟨rfl, htail⟩ := List.cons.inj hcs
      obtain ⟨ms', ns', rfl, rfl, hafter⟩ := ih hmore h hms.code hns.code htail
      exact ⟨ms', ns', rfl, rfl, hafter⟩
    | @hidden x y ms ns hx _ _ _ =>
      obtain ⟨d, x, rfl⟩ := List.exists_cons_of_ne_nil hx
      obtain ⟨rfl, -⟩ := List.cons.inj hcs
      have hmark := hms.isInert
      rw [hc] at hmark
      cases hmark

/-! ## Argument lists -/

structure BeginAlike (ms ns : List Marked) (a b : List Char) : Prop where
  length : byteLength a = byteLength b
  split : ∃ us vs ms' ns', us.map Prod.fst = a ∧ vs.map Prod.fst = b ∧ ms = us ++ ms' ∧ ns = vs ++ ns' ∧
    SameCode ms' ns'

theorem BeginAlike.code {ms ns : List Marked} {a b : List Char} (h : BeginAlike ms ns a b) (c : Char) :
    BeginAlike ((c, true) :: ms) ((c, true) :: ns) (c :: a) (c :: b) := by
  obtain ⟨us, vs, ms', ns', rfl, rfl, rfl, rfl, hrest⟩ := h.split
  refine ⟨congrArg (c.utf8Size + ·) h.length, (c, true) :: us, (c, true) :: vs, ms', ns', rfl, rfl, rfl,
    rfl, hrest⟩

theorem BeginAlike.hidden {ms ns : List Marked} {a b x y : List Char} (h : BeginAlike ms ns a b)
    (hlength : byteLength x = byteLength y) :
    BeginAlike (x.map (·, false) ++ ms) (y.map (·, false) ++ ns) (x ++ a) (y ++ b) := by
  obtain ⟨us, vs, ms', ns', rfl, rfl, rfl, rfl, hrest⟩ := h.split
  constructor
  · rw [byteLength_append, byteLength_append, hlength, h.length]
  · refine ⟨x.map (·, false) ++ us, y.map (·, false) ++ vs, ms', ns', ?_, ?_, ?_, ?_, hrest⟩
    · rw [List.map_append, map_fst_mark]
    · rw [List.map_append, map_fst_mark]
    · rw [List.append_assoc]
    · rw [List.append_assoc]

theorem BeginAlike.append {ms ns : List Marked} {a b : List Char} (h : BeginAlike ms ns a b) (c : List Char) :
    BeginAlike (c.map (·, true) ++ ms) (c.map (·, true) ++ ns) (c ++ a) (c ++ b) := by
  induction c with
  | nil => exact h
  | cons d c ih => exact ih.code d

theorem SameCode.begin_closing? {ms ns : List Marked} (h : SameCode ms ns) (depth : Nat) :
    (closing? depth ms = none ∧ closing? depth ns = none) ∨
      ∃ a b, closing? depth ms = some a ∧ closing? depth ns = some b ∧ BeginAlike ms ns a b := by
  induction h generalizing depth with
  | nil => exact .inl ⟨rfl, rfl⟩
  | @code c ms ns h ih =>
    -- a character that does not end the list goes to the front of what is taken
    have through (depth' : Nat) (hms : closing? depth ((c, true) :: ms) = (closing? depth' ms).map (c :: ·))
        (hns : closing? depth ((c, true) :: ns) = (closing? depth' ns).map (c :: ·)) :
        (closing? depth ((c, true) :: ms) = none ∧ closing? depth ((c, true) :: ns) = none) ∨
          ∃ a b, closing? depth ((c, true) :: ms) = some a ∧ closing? depth ((c, true) :: ns) = some b ∧
            BeginAlike ((c, true) :: ms) ((c, true) :: ns) a b := by
      rw [hms, hns]
      rcases ih depth' with ⟨hm, hn⟩ | ⟨a, b, hm, hn, hbegin⟩
      · exact .inl ⟨by rw [hm]; rfl, by rw [hn]; rfl⟩
      · exact .inr ⟨c :: a, c :: b, by rw [hm]; rfl, by rw [hn]; rfl, hbegin.code c⟩
    by_cases hopen : c = '('
    · subst hopen
      exact through (depth + 1) (closing?_open depth ms) (closing?_open depth ns)
    by_cases hclose : c = ')'
    · subst hclose
      cases depth with
      | zero =>
        exact .inr ⟨[')'], [')'], closing?_last ms, closing?_last ns, rfl, [(')', true)], [(')', true)],
          ms, ns, rfl, rfl, rfl, rfl, h⟩
      | succ depth => exact through depth (closing?_close depth ms) (closing?_close depth ns)
    · have hother : true = true → c ≠ '(' ∧ c ≠ ')' := fun _ => ⟨hopen, hclose⟩
      exact through depth (closing?_other hother depth ms) (closing?_other hother depth ns)
  | @hidden x y ms ns _ _ hlength _ ih =>
    have hx : Unbracketed (x.map (·, false)) := unbracketed_map nofun
    have hy : Unbracketed (y.map (·, false)) := unbracketed_map nofun
    rw [closing?_append hx, closing?_append hy, map_fst_mark, map_fst_mark]
    rcases ih depth with ⟨hm, hn⟩ | ⟨a, b, hm, hn, hbegin⟩
    · exact .inl ⟨by rw [hm]; rfl, by rw [hn]; rfl⟩
    · exact .inr ⟨x ++ a, y ++ b, by rw [hm]; rfl, by rw [hn]; rfl, hbegin.hidden hlength⟩

theorem argumentList_mark {c : Char} (h : isInert c = false) (ms : List Marked) :
    argumentList ((c, false) :: ms) = [] := by
  have hblank : (c == ' ' || c == '\t') = false := by
    apply eq_false_of_mark _ h
    intro d hd
    simp only [Bool.or_eq_true, beq_iff_eq] at hd
    rcases hd with rfl | rfl <;> rfl
  simp [argumentList, hblank]

theorem SameCode.begin_argumentList {ms ns : List Marked} (h : SameCode ms ns) (hms : AfterCode ms)
    (hns : AfterCode ns) :
    BeginAlike ms ns (argumentList ms) (argumentList ns) ∧ (argumentList ms = [] ↔ argumentList ns = []) := by
  have nothing {ms ns : List Marked} (h : SameCode ms ns) : BeginAlike ms ns [] [] :=
    ⟨rfl, [], [], ms, ns, rfl, rfl, rfl, rfl, h⟩
  induction h with
  | nil => exact ⟨nothing .nil, Iff.rfl⟩
  | @code c ms ns h ih =>
    obtain ⟨hbegin, hnil⟩ := ih hms.code hns.code
    by_cases hblank : (c == ' ' || c == '\t') = true
    · rw [argumentList, argumentList, if_pos hblank, if_pos hblank]
      -- the blank belongs to the list in both texts or in neither
      cases hm : argumentList ms with
      | nil =>
        rw [hnil.1 hm]
        exact ⟨nothing (.code c h), Iff.rfl⟩
      | cons d ds =>
        cases hn : argumentList ns with
        | nil =>
          rw [hnil.2 hn] at hm
          cases hm
        | cons e es =>
          rw [hm, hn] at hbegin
          exact ⟨hbegin.code c, by simp⟩
    · rw [argumentList, argumentList, if_neg hblank, if_neg hblank]
      by_cases hopen : (c == '(' && true) = true
      · rw [if_pos hopen, if_pos hopen]
        rcases h.begin_closing? 0 with ⟨hm, hn⟩ | ⟨a, b, hm, hn, hclosed⟩
        · rw [hm, hn]
          exact ⟨nothing (.code c h), Iff.rfl⟩
        · rw [hm, hn]
          exact ⟨hclosed.code c, by simp⟩
      · rw [if_neg hopen, if_neg hopen]
        exact ⟨nothing (.code c h), Iff.rfl⟩
  | @hidden a b ms ns ha hb hlength h ih =>
    have hsame : SameCode (a.map (·, false) ++ ms) (b.map (·, false) ++ ns) := .hidden ha hb hlength h
    obtain ⟨c, a, rfl⟩ := List.exists_cons_of_ne_nil ha
    obtain ⟨d, b, rfl⟩ := List.exists_cons_of_ne_nil hb
    -- after code the first hidden character is a mark, and no list begins with one
    have hm := argumentList_mark hms.isInert (a.map (·, false) ++ ms)
    have hn := argumentList_mark hns.isInert (b.map (·, false) ++ ns)
    rw [List.map_cons, List.cons_append, List.map_cons, List.cons_append] at hsame ⊢
    rw [hm, hn]
    exact ⟨nothing hsame, Iff.rfl⟩

theorem getLast?_argumentList {ms : List Marked} (h : argumentList ms ≠ []) :
    (argumentList ms).getLast? = some ')' := by
  induction ms with
  | nil => exact absurd rfl h
  | cons m ms ih =>
    rw [argumentList] at h ⊢
    split at h
    · rename_i hblank
      rw [if_pos hblank]
      cases hm : argumentList ms with
      | nil =>
        rw [hm] at h
        exact absurd rfl h
      | cons d ds =>
        have hlast := ih (by rw [hm]; exact List.cons_ne_nil d ds)
        rw [hm] at hlast
        dsimp only
        rw [List.getLast?_cons, hlast]
        rfl
    · rename_i hblank
      rw [if_neg hblank]
      split at h
      · rename_i hopen
        rw [if_pos hopen]
        cases hm : closing? 0 ms with
        | none =>
          rw [hm] at h
          exact absurd rfl h
        | some inner =>
          dsimp only
          rw [List.getLast?_cons, getLast?_of_closing? hm]
          rfl
      · exact absurd rfl h

/-! ## Annotations -/

theorem SameCode.annotation_cases {ms ns : List Marked} (h : SameCode ms ns) (hms : AfterCode ms)
    (hns : AfterCode ns) (afterPoint : Bool) (c : Char) :
    (annotation? afterPoint ((c, true) :: ms) = none ∧ annotation? afterPoint ((c, true) :: ns) = none) ∨
      ∃ name a b, annotation? afterPoint ((c, true) :: ms) = some (name, a) ∧
        annotation? afterPoint ((c, true) :: ns) = some (name, b) ∧ (a = [] ↔ b = []) ∧
        BeginAlike ms ns (name ++ a) (name ++ b) ∧ pointAfter false (name ++ a) = false ∧
        pointAfter false (name ++ b) = false := by
  unfold annotation?
  dsimp only
  split
  · rw [← (h.alike hms hns).dottedName_eq]
    generalize hname : dottedName (ms.map Prod.fst) = name
    split
    · exact .inl ⟨rfl, rfl⟩
    · obtain ⟨cs, hcs⟩ := dottedName_isPrefix (ms.map Prod.fst)
      have hinert : ∀ d ∈ name, isInert d = true := by
        intro d hd
        rw [← hname] at hd
        exact isInert_of_mem_dottedName hd
      rw [hname] at hcs
      obtain ⟨ms', ns', rfl, rfl, hrest, hms', hns'⟩ := h.exists_of_inert hinert hms hns hcs.symm
      have hdrop (rest : List Marked) : (name.map (·, true) ++ rest).drop name.length = rest :=
        List.drop_left' (List.length_map _)
      obtain ⟨hbegin, hnil⟩ := hrest.begin_argumentList hms' hns'
      -- after an annotation no point is remembered: a name does not end in one, nor does a list
      have hlast (rest : List Marked) : pointAfter false (name ++ argumentList rest) = false := by
        apply pointAfter_of_getLast?
        by_cases hne : argumentList rest = []
        · rw [hne, List.append_nil, ← hname]
          exact getLast?_dottedName _
        · rw [List.getLast?_append, getLast?_argumentList hne]
          exact nofun
      rw [hdrop, hdrop]
      exact .inr ⟨name, argumentList ms', argumentList ns', rfl, rfl, hnil, hbegin.append name,
        hlast ms', hlast ns'⟩
  · exact .inl ⟨rfl, rfl⟩

theorem piecesFrom_hidden (afterPoint : Bool) (a : List Char) (ms : List Marked) :
    piecesFrom 0 afterPoint (a.map (·, false) ++ ms) = a.map .plain ++
      piecesFrom 0 (pointAfter afterPoint a) ms := by
  induction a generalizing afterPoint with
  | nil => rfl
  | cons c a ih =>
    have hnone : annotation? afterPoint ((c, false) :: (a.map (·, false) ++ ms)) = none := by
      simp [annotation?]
    rw [List.map_cons, List.cons_append, piecesFrom, hnone]
    dsimp only
    rw [ih]
    cases a <;> simp [pointAfter, List.getLast?_cons]

theorem occurrencesFrom_plain_append (offset : Nat) (a : List Char) (ps : List Piece) :
    occurrencesFrom offset (a.map .plain ++ ps) = occurrencesFrom (offset + byteLength a) ps := by
  induction a generalizing offset with
  | nil => rfl
  | cons c a ih =>
    rw [List.map_cons, List.cons_append, occurrencesFrom, ih, Nat.add_assoc]
    rfl

def Occurrence.extent (o : Occurrence) : String × Nat × Nat × Bool :=
  (o.name, o.start, o.stop, o.hasArguments)

theorem utf8ByteSize_ofList (cs : List Char) : (String.ofList cs).utf8ByteSize = byteLength cs := by
  induction cs with
  | nil => rfl
  | cons c cs ih =>
    have hfirst : String.ofList (c :: cs) = String.singleton c ++ String.ofList cs := by
      rw [String.singleton_eq_ofList, ← String.ofList_append]
      rfl
    rw [hfirst, String.utf8ByteSize_append, String.utf8ByteSize_singleton, ih, byteLength_cons]

theorem isEmpty_ofList (cs : List Char) : (String.ofList cs).isEmpty = decide (cs = []) := by
  rw [String.isEmpty_eq_utf8ByteSize_beq_zero]
  cases cs with
  | nil => rfl
  | cons c cs =>
    have := c.utf8Size_pos
    rw [utf8ByteSize_ofList, byteLength_cons]
    simp
    omega

theorem extent_eq {name a b : List Char} (hlength : byteLength a = byteLength b)
    (hnil : a = [] ↔ b = []) (offset : Nat) :
    Occurrence.extent ⟨.ofList name, .ofList a, offset⟩ =
      Occurrence.extent ⟨.ofList name, .ofList b, offset⟩ := by
  simp only [Occurrence.extent, Occurrence.stop, Occurrence.text, Occurrence.hasArguments,
    String.utf8ByteSize_append, utf8ByteSize_ofList, hlength, isEmpty_ofList, hnil]

/-- Whether a point stands before the text matters only at an annotation. -/
theorem map_extent_eq {ms ns : List Marked} (h : SameCode ms ns) (hms : Bordered ms) (hns : Bordered ns)
    {p p' : Bool} (hpoint : ∀ ms', ms = ('@', true) :: ms' → p = p') (offset : Nat) :
    (occurrencesFrom offset (piecesFrom 0 p ms)).map Occurrence.extent =
      (occurrencesFrom offset (piecesFrom 0 p' ns)).map Occurrence.extent := by
  -- on the texts part by part; an annotation takes its arguments as a whole
  induction hn : ms.length using Nat.strongRecOn generalizing ms ns p p' offset with
  | ind n ih =>
    subst hn
    cases h with
    | nil => rfl
    | @code c ms ns h =>
      by_cases hat : c = '@'
      · subst hat
        obtain rfl := hpoint ms rfl
        rcases h.annotation_cases hms.afterCode hns.afterCode p '@' with ⟨hm, hn⟩ |
          ⟨name, a, b, hm, hn, hnil, hbegin, hlast, hlast'⟩
        · rw [piecesFrom_of_none hm, piecesFrom_of_none hn]
          exact ih ms.length (by simp) h hms.tail hns.tail (fun _ _ => rfl) _ rfl
        · obtain ⟨us, vs, ms', ns', hus, hvs, rfl, rfl, hrest⟩ := hbegin.split
          have hlength : byteLength a = byteLength b := by
            have := hbegin.length
            rw [byteLength_append, byteLength_append] at this
            omega
          rw [piecesFrom_of_some hm hus hlast, piecesFrom_of_some hn hvs hlast', occurrencesFrom,
            occurrencesFrom, List.map_cons, List.map_cons, extent_eq hlength hnil]
          have hnext : byteLength (Piece.occurrence name a).text =
              byteLength (Piece.occurrence name b).text := by
            rw [Piece.text, Piece.text, List.cons_append, List.cons_append, byteLength_cons, byteLength_cons,
              hbegin.length]
          rw [hnext]
          refine congrArg _ (ih ms'.length ?_ hrest ?_ ?_ (fun _ _ => rfl) _ rfl)
          · rw [List.length_cons, List.length_append]
            omega
          · exact hms.suffix ⟨('@', true) :: us, rfl⟩
          · exact hns.suffix ⟨('@', true) :: vs, rfl⟩
      · rw [piecesFrom_of_none (annotation?_of_ne hat), piecesFrom_of_none (annotation?_of_ne hat)]
        exact ih ms.length (by simp) h hms.tail hns.tail (fun _ _ => rfl) _ rfl
    | @hidden a b ms ns ha hb hlength h =>
      rw [piecesFrom_hidden, piecesFrom_hidden, occurrencesFrom_plain_append,
        occurrencesFrom_plain_append, hlength]
      refine ih ms.length ?_ h (hms.suffix ⟨_, rfl⟩) (hns.suffix ⟨_, rfl⟩) ?_ _ rfl
      · have := List.length_pos_iff.2 ha
        simp
        omega
      · rintro ms' rfl
        obtain ⟨ns', rfl⟩ := h.exists_code
        rw [(hms.last_mark ha (by decide)).pointAfter, (hns.last_mark hb (by decide)).pointAfter]

/-! ## The class header -/

def wordAfter (inWord : Bool) (a : List Char) : Bool :=
  (a.getLast?.map fun c => isIdentPart c || c == '.').getD inWord

theorem EndsInMark.wordAfter {a : List Char} (h : EndsInMark a) (inWord : Bool) :
    wordAfter inWord a = false := by
  obtain ⟨b, d, rfl, hd⟩ := h
  simp [UpdaterBootstrap.wordAfter, isIdentPart_of_mark hd, point_of_mark hd]

theorem wordAfter_cons (inWord : Bool) (c : Char) (a : List Char) :
    wordAfter inWord (c :: a) = wordAfter (isIdentPart c || c == '.') a := by
  cases a <;> simp [wordAfter, List.getLast?_cons]

theorem classHeaderFrom_hidden (offset : Nat) (inWord : Bool) (a : List Char) (ms : List Marked) :
    classHeaderFrom offset inWord (a.map (·, false) ++ ms) =
      classHeaderFrom (offset + byteLength a) (wordAfter inWord a) ms := by
  induction a generalizing offset inWord with
  | nil => rfl
  | cons c a ih =>
    rw [List.map_cons, List.cons_append, classHeaderFrom_cons, ih, byteLength_cons, ← Nat.add_assoc,
      wordAfter_cons]
    rfl

/-- Whether a word stands before the text matters only at the keyword. -/
theorem classHeaderFrom_eq {ms ns : List Marked} (h : SameCode ms ns) (hms : Bordered ms) (hns : Bordered ns)
    {w w' : Bool} (hword : ∀ ms', ms = ('c', true) :: ms' → w = w') (offset : Nat) :
    classHeaderFrom offset w ms = classHeaderFrom offset w' ns := by
  induction h generalizing w w' offset with
  | nil => rfl
  | @code c ms ns h ih =>
    have hlater :=
      ih hms.tail hns.tail (w := isIdentPart c || c == '.') (fun _ _ => rfl) (offset + c.utf8Size)
    rw [classHeaderFrom_cons, classHeaderFrom_cons, hlater,
      (h.alike hms.afterCode hns.afterCode).declaredAfter?_eq]
    by_cases hc : c = 'c'
    · subst hc
      rw [hword ms rfl]
    · simp [hc]
  | @hidden a b ms ns ha hb hlength h ih =>
    rw [classHeaderFrom_hidden, classHeaderFrom_hidden, hlength]
    apply ih (hms.suffix ⟨_, rfl⟩) (hns.suffix ⟨_, rfl⟩)
    rintro ms' rfl
    obtain ⟨ns', rfl⟩ := h.exists_code
    rw [(hms.last_mark ha (by decide)).wordAfter, (hns.last_mark hb (by decide)).wordAfter]

end UpdaterBootstrap
