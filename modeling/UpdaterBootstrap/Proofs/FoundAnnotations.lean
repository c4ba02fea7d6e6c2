import UpdaterBootstrap.Proofs.DottedName
import UpdaterBootstrap.Proofs.Emergence
import UpdaterBootstrap.Proofs.MarkedBytes

/-!
# Which annotations are found

An annotation begins at an `@` in code with no point before it and a dotted name other than
`interface` after it, and takes the argument list after the name along. What is found in a text are
those that begin within no other one (`findAnnotations_spec`). All of it is said in bytes.
-/

namespace UpdaterBootstrap

structure BeginsAnnotation (s : String) (i : Nat) (name : List Char) : Prop where
  atSign : (markedBytes s)[i]? = some ('@'.toUInt8, true)
  noPoint : ∀ j code, j + 1 = i → (markedBytes s)[j]? ≠ some ('.'.toUInt8, code)
  name_after : ∃ before after, s.toList = before ++ after ∧ byteLength before = i + 1 ∧
    IsLongestName name after
  proper : name ≠ "interface".toList

/-- What has a name up to a byte ends past the argument list there, or there if there is none. -/
def EndsAnnotation (s : String) (nameEnd stop : Nat) (hasArguments : Bool) : Prop :=
  (∃ n, IsArgumentList ((markedBytes s).drop nameEnd) n ∧ stop = nameEnd + n ∧ hasArguments = true) ∨
    (∀ n, ¬ IsArgumentList ((markedBytes s).drop nameEnd) n) ∧ stop = nameEnd ∧ hasArguments = false

structure IsAnnotation (s : String) (o : Occurrence) : Prop where
  begins : BeginsAnnotation s o.start o.name.toList
  ends : EndsAnnotation s (o.start + 1 + o.name.utf8ByteSize) o.stop o.hasArguments
  text : ∃ before after, s = before ++ o.text ++ after ∧ before.utf8ByteSize = o.start

/-! ## Positions in bytes -/

theorem append_inj_of_byteLength {a b c d : List Char} (h : a ++ b = c ++ d)
    (hlength : byteLength a = byteLength c) :
    a = c ∧ b = d := by
  induction a generalizing c with
  | nil =>
    cases c with
    | nil => exact ⟨rfl, h⟩
    | cons e c =>
      have := e.utf8Size_pos
      rw [byteLength_cons] at hlength
      exact absurd hlength (by change 0 ≠ _; omega)
  | cons e a ih =>
    cases c with
    | nil =>
      have := e.utf8Size_pos
      rw [byteLength_cons] at hlength
      exact absurd hlength (by change _ ≠ 0; omega)
    | cons e' c =>
      obtain ⟨rfl, htail⟩ := List.cons.inj h
      rw [byteLength_cons, byteLength_cons] at hlength
      obtain ⟨rfl, rfl⟩ := ih htail (Nat.add_left_cancel hlength)
      exact ⟨rfl, rfl⟩

/-- A text is read up to a position and on from there. -/
theorem exists_markedFrom_append (r : Reading) (a b : List Char) :
    ∃ us r', us.map Prod.fst = a ∧ markedFrom r (a ++ b) = us ++ markedFrom r' b := by
  induction a generalizing r with
  | nil => exact ⟨[], r, rfl, rfl⟩
  | cons c a ih =>
    obtain ⟨us, r', hfst, heq⟩ := ih (r.step c (a ++ b)).2
    refine ⟨(c, (r.step c (a ++ b)).1) :: us, r', by rw [List.map_cons, hfst], ?_⟩
    rw [List.cons_append, markedFrom_cons, heq, List.cons_append]

theorem append_inj_of_markedFrom {r r' : Reading} {us vs : List Marked} {a b : List Char}
    (h : us ++ markedFrom r a = vs ++ markedFrom r' b) (hfst : us.map Prod.fst = vs.map Prod.fst) :
    us = vs ∧ markedFrom r a = markedFrom r' b := by
  apply List.append_inj h
  have := congrArg List.length hfst
  rwa [List.length_map, List.length_map] at this

/-! ## Where an annotation begins -/

theorem pointAfter_eq_true {us : List Marked} (h : pointAfter false (us.map Prod.fst) = true) :
    ∃ vs code, us = vs ++ [('.', code)] := by
  cases hlast : us.getLast? with
  | none =>
    rw [List.getLast?_eq_none_iff.1 hlast] at h
    cases h
  | some m =>
    obtain ⟨c, code⟩ := m
    obtain ⟨vs, rfl⟩ := List.getLast?_eq_some_iff.1 hlast
    refine ⟨vs, code, ?_⟩
    simp [pointAfter] at h
    rw [h]

theorem beginsAnnotation_iff {s : String} {i : Nat} {name : List Char} :
    BeginsAnnotation s i name ↔ ∃ us after, marked s.toList = us ++ markedFrom .code ('@' :: after) ∧
      byteLength (us.map Prod.fst) = i ∧ pointAfter false (us.map Prod.fst) = false ∧
      dottedName after = name ∧ name ≠ [] ∧ name ≠ "interface".toList := by
  constructor
  · rintro ⟨hat, hpoint, ⟨before, after, htext, hbefore, hname⟩, hproper⟩
    rw [markedBytes_eq] at hat hpoint
    obtain ⟨us, vs, hms, rfl⟩ := (getElem?_encode (by decide)).1 hat
    have hchars := congrArg (List.map Prod.fst) hms
    rw [map_fst_marked, List.map_append, List.map_cons] at hchars
    obtain ⟨rfl, rfl⟩ : before = us.map Prod.fst ++ ['@'] ∧ after = vs.map Prod.fst := by
      apply append_inj_of_byteLength
      · rw [← htext, hchars, List.append_assoc, List.singleton_append]
      · rw [hbefore, byteLength_append]
        rfl
    obtain ⟨us', r, hfst, hread⟩ :=
      exists_markedFrom_append (.start s.toList) (us.map Prod.fst) ('@' :: vs.map Prod.fst)
    have hmarked : marked s.toList = us' ++ markedFrom r ('@' :: vs.map Prod.fst) := by
      rw [← hread, ← hchars]
      rfl
    -- the mark of the `@` tells the reading position
    obtain ⟨rfl, hmarks⟩ : us = us' ∧ ('@', true) :: vs = markedFrom r ('@' :: vs.map Prod.fst) := by
      apply List.append_inj (hms.symm.trans hmarked)
      have := congrArg List.length hfst
      rwa [List.length_map, List.length_map, eq_comm] at this
    rw [markedFrom_cons] at hmarks
    have hcode : (r.step '@' (vs.map Prod.fst)).1 = true := (congrArg Prod.snd (List.cons.inj hmarks).1).symm
    obtain rfl := eq_code_of_step hcode (by decide)
    obtain ⟨hdotted, hne⟩ := isLongestName_iff.1 hname
    refine ⟨us, vs.map Prod.fst, hmarked, rfl, ?_, hdotted, hne, hproper⟩
    rw [← Bool.not_eq_true]
    intro hafter
    obtain ⟨ws, code, rfl⟩ := pointAfter_eq_true hafter
    apply hpoint (byteLength (ws.map Prod.fst)) code
    · rw [List.map_append, byteLength_append]
      rfl
    · rw [hms, List.append_assoc]
      exact (getElem?_encode (by decide)).2 ⟨ws, _, rfl, rfl⟩
  · rintro ⟨us, after, hms, rfl, hpoint, hname, hne, hproper⟩
    have hchars := congrArg (List.map Prod.fst) hms
    rw [map_fst_marked, List.map_append, map_fst_markedFrom] at hchars
    refine ⟨?_, ?_, ⟨us.map Prod.fst ++ ['@'], after, ?_, ?_, isLongestName_iff.2 ⟨hname, hne⟩⟩,
      hproper⟩
    · rw [markedBytes_eq, hms, markedFrom_cons, step_inert (by decide)]
      exact (getElem?_encode (by decide)).2 ⟨us, _, rfl, rfl⟩
    · intro j code hj hbyte
      rw [markedBytes_eq] at hbyte
      obtain ⟨vs, ws, hvs, rfl⟩ := (getElem?_encode (by decide)).1 hbyte
      have hsplit : us.map Prod.fst ++ '@' :: after = (vs.map Prod.fst ++ ['.']) ++ ws.map Prod.fst := by
        rw [← hchars, ← map_fst_marked s.toList, hvs, List.map_append, List.append_assoc]
        rfl
      have hlead : us.map Prod.fst = vs.map Prod.fst ++ ['.'] := by
        refine (append_inj_of_byteLength hsplit ?_).1
        rw [← hj, byteLength_append]
        rfl
      rw [hlead, pointAfter_append] at hpoint
      cases hpoint
    · rw [hchars, List.append_assoc, List.singleton_append]
    · rw [byteLength_append]
      rfl

/-! ## The scan in parts -/

theorem SplitsOff.exists_marks {afterPoint afterPoint' : Bool} {r r' : Reading} {p : Piece} {rest : List Char}
    (h : SplitsOff afterPoint r p afterPoint' r' rest) :
    ∃ ms, ms.map Prod.fst = p.text ∧ markedFrom r (p.text ++ rest) = ms ++ markedFrom r' rest := by
  obtain ⟨ms, _, hms⟩ := h.marks
  refine ⟨ms, ?_, hms⟩
  have hfst := congrArg (List.map Prod.fst) hms
  rw [List.map_append, map_fst_markedFrom, map_fst_markedFrom] at hfst
  exact (List.append_cancel_right hfst).symm

/-- After some pieces the scan goes on as if it had begun there. -/
theorem exists_resumed {afterPoint : Bool} {r : Reading} {cs : List Char} {before after : List Piece}
    (h : piecesFrom 0 afterPoint (markedFrom r cs) = before ++ after) :
    ∃ us r' rest, us.map Prod.fst = before.flatMap Piece.text ∧ markedFrom r cs = us ++ markedFrom r' rest ∧
      piecesFrom 0 (pointAfter afterPoint (before.flatMap Piece.text)) (markedFrom r' rest) = after := by
  induction before generalizing afterPoint r cs with
  | nil => exact ⟨[], r, cs, rfl, rfl, h⟩
  | cons p before ih =>
    -- one piece is split off, whichever it is, and the induction goes on behind it
    have splits {afterPoint' : Bool} {r' : Reading} {rest : List Char}
      (hs : SplitsOff afterPoint r p afterPoint' r' rest)
        (heq : cs = p.text ++ rest) : ∃ us r' rest, us.map Prod.fst = (p :: before).flatMap Piece.text ∧
          markedFrom r cs = us ++ markedFrom r' rest ∧
          piecesFrom 0 (pointAfter afterPoint ((p :: before).flatMap Piece.text)) (markedFrom r' rest) =
            after := by
      subst heq
      obtain ⟨ms, hfst, hms⟩ := hs.exists_marks
      rw [hs.pieces] at h
      obtain ⟨us, r'', rest', hus, hread, hafter⟩ := ih (List.cons.inj h).2
      refine ⟨ms ++ us, r'', rest', ?_, ?_, ?_⟩
      · rw [List.map_append, hfst, hus, List.flatMap_cons]
      · rw [hms, hread, List.append_assoc]
      · rw [List.flatMap_cons, pointAfter_append, hs.point, hafter]
    cases cs with
    | nil => cases h
    | cons c cs =>
      rcases piecesFrom_cases afterPoint r c cs with ⟨_, hplain⟩ |
        ⟨name, arguments, rest, rfl, rfl, rfl, rfl, hcaptured, hoccurrence⟩
      · obtain rfl : .plain c = p := (List.cons.inj (hplain.symm.trans h)).1
        exact splits (splitsOff_plain hplain) rfl
      · obtain rfl : .occurrence name arguments = p := (List.cons.inj (hoccurrence.symm.trans h)).1
        exact splits hcaptured.splitsOff (text_occurrence_append name arguments rest).symm

theorem exists_captured {s : String} {o : Occurrence} (h : o ∈ findAnnotations s) :
    ∃ us name arguments rest, marked s.toList = us ++
      markedFrom .code ('@' :: (name ++ (arguments ++ rest))) ∧
      pointAfter false (us.map Prod.fst) = false ∧ CapturedFrom (name ++ (arguments ++ rest)) name arguments ∧
      o = ⟨.ofList name, .ofList arguments, byteLength (us.map Prod.fst)⟩ := by
  obtain ⟨before, name, arguments, after, hpieces, rfl⟩ := mem_occurrencesFrom.1 h
  obtain ⟨us, r, cs, hus, hms, hafter⟩ := exists_resumed hpieces
  rw [← hus] at hafter ⊢
  cases cs with
  | nil => cases hafter
  | cons c cs =>
    rcases piecesFrom_cases (pointAfter false (us.map Prod.fst)) r c cs with ⟨_, hplain⟩ |
      ⟨name', arguments', rest, rfl, hpoint, rfl, rfl, hcaptured, hoccurrence⟩
    · cases (List.cons.inj (hplain.symm.trans hafter)).1
    · obtain ⟨rfl, rfl⟩ := Piece.occurrence.inj (List.cons.inj (hoccurrence.symm.trans hafter)).1
      exact ⟨us, _, _, rest, hms, hpoint, hcaptured, by rw [Nat.zero_add]⟩

/-- Where an annotation begins, the scan does not pass a single character. -/
theorem not_plain {s : String} {us : List Marked} {rest : List Char} {before after : List Piece} {c : Char}
    (hms : marked s.toList = us ++ markedFrom .code ('@' :: rest))
    (hpoint : pointAfter false (us.map Prod.fst) = false)
    (hne : dottedName rest ≠ []) (hproper : dottedName rest ≠ "interface".toList)
    (hbefore : before.flatMap Piece.text = us.map Prod.fst) :
    pieces s.toList ≠ before ++ .plain c :: after := by
  intro hpieces
  obtain ⟨vs, r, cs, hvs, hread, hafter⟩ := exists_resumed hpieces
  obtain ⟨rfl, hcode⟩ := append_inj_of_markedFrom (hms.symm.trans hread) (hbefore.symm.trans hvs.symm)
  have hcaptured : CapturedFrom rest (dottedName rest) _ := ⟨rfl, ⟨hne, hproper⟩, rfl⟩
  obtain ⟨rest', hrest⟩ := hcaptured.exists_rest
  rw [hbefore, hpoint, ← hcode, hrest, piecesFrom_captured (hrest ▸ hcaptured)] at hafter
  cases hafter

/-- Each character of the text is in one piece. -/
theorem exists_piece {ps : List Piece} {a b : List Char} {c : Char}
    (h : ps.flatMap Piece.text = a ++ c :: b) :
    ∃ before p after u v, ps = before ++ p :: after ∧ p.text = u ++ c :: v ∧
      a = before.flatMap Piece.text ++ u := by
  induction ps generalizing a with
  | nil => simp at h
  | cons p ps ih =>
    have later {a' : List Char} (ha : a = p.text ++ a') (hrest : ps.flatMap Piece.text = a' ++ c :: b) :
        ∃ before q after u v, p :: ps = before ++ q :: after ∧ q.text = u ++ c :: v ∧
          a = before.flatMap Piece.text ++ u := by
      obtain ⟨before, q, after, u, v, rfl, hq, rfl⟩ := ih hrest
      refine ⟨p :: before, q, after, u, v, rfl, hq, ?_⟩
      rw [ha, List.flatMap_cons, List.append_assoc]
    rw [List.flatMap_cons] at h
    rcases List.append_eq_append_iff.1 h with ⟨a', rfl, hrest⟩ | ⟨v, hp, hrest⟩
    · exact later rfl hrest
    · cases v with
      | nil =>
        have ha : a = p.text ++ [] := by rw [hp, List.append_nil, List.append_nil]
        exact later ha hrest.symm
      | cons d v =>
        obtain ⟨rfl, _⟩ := List.cons.inj hrest
        exact ⟨[], p, ps, a, v, rfl, hp, rfl⟩

/-! ## What is found -/

theorem stop_eq (name arguments : List Char) (start : Nat) :
    Occurrence.stop ⟨.ofList name, .ofList arguments, start⟩ =
      start + byteLength (Piece.occurrence name arguments).text := by
  have htext : Occurrence.text ⟨.ofList name, .ofList arguments, start⟩ =
      .ofList (Piece.occurrence name arguments).text := by
    simp [Occurrence.text, Piece.text, String.ext_iff]
  rw [Occurrence.stop, htext, utf8ByteSize_ofList]

theorem pairwise_occurrencesFrom (offset : Nat) (ps : List Piece) :
    (occurrencesFrom offset ps).Pairwise fun o p => o.start < p.start ∧ o.stop ≤ p.start := by
  induction ps generalizing offset with
  | nil => exact .nil
  | cons p ps ih =>
    cases p with
    | plain c => exact ih _
    | occurrence name arguments =>
      refine List.pairwise_cons.2 ⟨?_, ih _⟩
      intro q hq
      obtain ⟨before, name', arguments', after, rfl, rfl⟩ := mem_occurrencesFrom.1 hq
      rw [stop_eq]
      have hpos : 0 < byteLength (Piece.occurrence name arguments).text :=
        Nat.lt_of_lt_of_le Nat.one_pos (Nat.le_add_right 1 _)
      dsimp only
      omega

theorem not_within_of_pairwise {os : List Occurrence}
    (h : os.Pairwise fun o p => o.start < p.start ∧ o.stop ≤ p.start) {o p : Occurrence} (ho : o ∈ os)
    (hp : p ∈ os) :
    ¬ (o.start < p.start ∧ p.start < o.stop) := by
  obtain ⟨i, hi, rfl⟩ := List.mem_iff_getElem.1 ho
  obtain ⟨j, hj, rfl⟩ := List.mem_iff_getElem.1 hp
  have hall := List.pairwise_iff_getElem.1 h
  rintro ⟨hlow, hhigh⟩
  rcases Nat.lt_trichotomy i j with hlt | rfl | hgt
  · have := hall i j hi hj hlt
    omega
  · omega
  · have := hall j i hj hi hgt
    omega

theorem endsAnnotation_of_captured {s : String} {us : List Marked} {name arguments rest : List Char}
    (hms : marked s.toList = us ++ markedFrom .code ('@' :: (name ++ (arguments ++ rest))))
    (h : CapturedFrom (name ++ (arguments ++ rest)) name arguments) :
    EndsAnnotation s (byteLength (us.map Prod.fst) + 1 + byteLength name)
      (byteLength (us.map Prod.fst) + 1 + byteLength name + byteLength arguments)
        (!decide (arguments = [])) := by
  have hinert : ∀ c ∈ '@' :: name, isInert c = true := by
    refine List.forall_mem_cons.2 ⟨by decide, ?_⟩
    rw [← h.hname]
    intro c hc
    exact isInert_of_mem_dottedName hc
  have hdrop : (markedBytes s).drop (byteLength (us.map Prod.fst) + 1 + byteLength name) =
      encode (markedFrom .code (arguments ++ rest)) := by
    rw [markedBytes_eq, hms, ← List.cons_append, markedFrom_inert hinert, ← List.append_assoc, encode_append]
    apply List.drop_left'
    rw [length_encode, List.map_append, map_fst_mark, byteLength_append, byteLength_cons, Nat.add_assoc]
    rfl
  have harguments : argumentList (markedFrom .code (arguments ++ rest)) = arguments := by
    have := h.harguments
    rwa [List.drop_left] at this
  unfold EndsAnnotation
  simp only [hdrop, isArgumentList_encode, harguments]
  by_cases hne : arguments = []
  · subst hne
    exact .inr ⟨fun n hn => hn.1 rfl, rfl, rfl⟩
  · exact .inl ⟨_, ⟨hne, rfl⟩, rfl, by simp [hne]⟩

theorem isAnnotation_of_mem {s : String} {o : Occurrence} (h : o ∈ findAnnotations s) : IsAnnotation s o := by
  obtain ⟨us, name, arguments, rest, hms, hpoint, hcaptured, rfl⟩ := exists_captured h
  obtain ⟨hne, hproper⟩ := hcaptured.proper
  refine ⟨?_, ?_, ?_⟩
  · rw [String.toList_ofList]
    exact beginsAnnotation_iff.2 ⟨us, _, hms, rfl, hpoint, hcaptured.hname, hne, hproper⟩
  · have hends := endsAnnotation_of_captured hms hcaptured
    rw [stop_eq, Occurrence.hasArguments, isEmpty_ofList, utf8ByteSize_ofList, Piece.text, byteLength_append,
      byteLength_cons]
    have hsign : '@'.utf8Size = 1 := rfl
    rwa [hsign, ← Nat.add_assoc, ← Nat.add_assoc]
  · have hchars := congrArg (List.map Prod.fst) hms
    rw [map_fst_marked, List.map_append, map_fst_markedFrom] at hchars
    refine ⟨.ofList (us.map Prod.fst), .ofList rest, ?_, utf8ByteSize_ofList _⟩
    rw [String.ext_iff, hchars]
    simp [Occurrence.text]

theorem exists_of_begins {s : String} {i : Nat} {name : List Char} (h : BeginsAnnotation s i name)
    (houtside : ∀ o ∈ findAnnotations s, ¬ (o.start < i ∧ i < o.stop)) :
    ∃ o ∈ findAnnotations s, o.start = i := by
  obtain ⟨us, rest, hms, rfl, hpoint, rfl, hne, hproper⟩ := beginsAnnotation_iff.1 h
  have htext : (pieces s.toList).flatMap Piece.text = us.map Prod.fst ++ '@' :: rest := by
    rw [pieces, marked_eq, flatMap_text_piecesFrom]
    have hchars := congrArg (List.map Prod.fst) hms
    rwa [map_fst_marked, List.map_append, map_fst_markedFrom] at hchars
  obtain ⟨before, p, after, u, v, hpieces, hp, hus⟩ := exists_piece htext
  cases p with
  | plain c =>
    cases u with
    | nil =>
      rw [List.append_nil] at hus
      exact absurd hpieces (not_plain hms hpoint hne hproper hus.symm)
    | cons d u =>
      have := congrArg List.length hp
      simp [Piece.text] at this
  | occurrence name arguments =>
    refine ⟨_, mem_occurrencesFrom.2 ⟨before, name, arguments, after, hpieces, rfl⟩, ?_⟩
    have hnot := houtside _ (mem_occurrencesFrom.2 ⟨before, name, arguments, after, hpieces, rfl⟩)
    rw [stop_eq, hp, byteLength_append, byteLength_cons] at hnot
    rw [hus, byteLength_append] at hnot ⊢
    have := '@'.utf8Size_pos
    dsimp only at hnot ⊢
    omega

/-- The annotations found are one after the other, none of them empty, from character to character,
each with the longest name at its `@` and up to the end of its argument list. Every one that begins
in the text is found, unless it begins within another. -/
theorem findAnnotations_spec (s : String) :
    (findAnnotations s).Pairwise (fun o p => o.start < p.start ∧ o.stop ≤ p.start) ∧
      (∀ o ∈ findAnnotations s, o.start < o.stop ∧ (⟨o.start⟩ : String.Pos.Raw).IsValid s ∧
        (⟨o.stop⟩ : String.Pos.Raw).IsValid s ∧ IsAnnotation s o) ∧
      ∀ i, (∃ o ∈ findAnnotations s, o.start = i) ↔
        (∃ name, BeginsAnnotation s i name) ∧ ∀ o ∈ findAnnotations s, ¬ (o.start < i ∧ i < o.stop) := by
  have hpairwise := pairwise_occurrencesFrom 0 (pieces s.toList)
  refine ⟨hpairwise, ?_, ?_⟩
  · intro o ho
    have hfound := isAnnotation_of_mem ho
    obtain ⟨before, after, htext, hbefore⟩ := hfound.text
    have hpos : 0 < o.text.utf8ByteSize := by
      rw [Occurrence.text, String.utf8ByteSize_append, String.utf8ByteSize_append]
      exact Nat.lt_of_lt_of_le Nat.one_pos (Nat.le_add_right_of_le (Nat.le_add_right 1 _))
    refine ⟨Nat.lt_add_of_pos_right hpos, ?_, ?_, hfound⟩
    · rw [String.Pos.Raw.isValid_iff_exists_append]
      refine ⟨before, o.text ++ after, ?_, ?_⟩
      · rw [htext, String.append_assoc]
      · rw [← hbefore]
        rfl
    · rw [String.Pos.Raw.isValid_iff_exists_append]
      refine ⟨before ++ o.text, after, htext, ?_⟩
      rw [Occurrence.stop, ← hbefore, ← String.utf8ByteSize_append]
      rfl
  · intro i
    constructor
    · rintro ⟨o, ho, rfl⟩
      refine ⟨⟨_, (isAnnotation_of_mem ho).begins⟩, ?_⟩
      intro p hp
      exact not_within_of_pairwise hpairwise hp ho
    · rintro ⟨⟨name, hbegins⟩, houtside⟩
      exact exists_of_begins hbegins houtside

end UpdaterBootstrap
