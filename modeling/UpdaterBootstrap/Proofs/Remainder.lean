import UpdaterBootstrap.Proofs.Pieces

/-!
# What stays of a stripped text

Which characters of a text stay when its recognized annotations are cut out, and at which place of
the result each of them stands. A text that has no recognized annotation is its own remainder, and
only such a text is.
-/

namespace UpdaterBootstrap

/-! ## Selections -/

def select (mask : List Bool) (cs : List Char) : List Char :=
  ((cs.zip mask).filter (·.2)).map Prod.fst

theorem select_append {mask mask' : List Bool} {cs cs' : List Char} (h : mask.length = cs.length) :
    select (mask ++ mask') (cs ++ cs') = select mask cs ++ select mask' cs' := by
  simp [select, List.zip_append h.symm]

theorem length_select {mask : List Bool} {cs : List Char} (h : mask.length = cs.length) :
    (select mask cs).length = mask.count true := by
  induction mask generalizing cs with
  | nil => simp [select]
  | cons m mask ih =>
    cases cs with
    | nil => cases h
    | cons c cs =>
      have ih := ih (Nat.succ.inj h)
      cases m <;> simpa [select] using ih

theorem exists_place {mask : List Bool} {cs : List Char} {place : Nat} {c : Char}
    (h : (select mask cs)[place]? = some c) :
    ∃ i, mask[i]? = some true ∧ cs[i]? = some c ∧ (mask.take i).count true = place := by
  induction mask generalizing cs place with
  | nil => simp [select] at h
  | cons m mask ih =>
    cases cs with
    | nil => simp [select] at h
    | cons d cs =>
      cases m with
      | false =>
        have hrest : (select mask cs)[place]? = some c := by simpa [select] using h
        obtain ⟨i, hm, hc, hplace⟩ := ih hrest
        exact ⟨i + 1, hm, hc, by simpa using hplace⟩
      | true =>
        cases place with
        | zero => exact ⟨0, rfl, by simpa [select] using h, rfl⟩
        | succ place =>
          have hrest : (select mask cs)[place]? = some c := by simpa [select] using h
          obtain ⟨i, hm, hc, hplace⟩ := ih hrest
          exact ⟨i + 1, hm, hc, by simpa using hplace⟩

/-! ## Characters that stay -/

def CutLine.stays (keepLineCount : Bool) (l : CutLine) : List Bool :=
  if !l.isTouched then List.replicate l.whole.length true
  else
    let blank := l.kept.all isAsciiBlank
    l.content.map (fun c => !blank && !c.2) ++
      l.feed.toList.map fun removed => keepLineCount || (!blank && !removed)

def stays (keepLineCount : Bool) (cs : List Char) : List Bool :=
  (cutLines (cuts cs)).flatMap (CutLine.stays keepLineCount)

/-- Where in the result the character stands that is at place `i` of the text. -/
def placeAfter (keepLineCount : Bool) (cs : List Char) (i : Nat) : Nat :=
  ((stays keepLineCount cs).take i).count true

theorem CutLine.length_stays (keepLineCount : Bool) (l : CutLine) :
    (l.stays keepLineCount).length = l.whole.length := by
  rw [stays]
  split
  · exact List.length_replicate
  · simp [whole]

theorem select_replicate (cs : List Char) : select (List.replicate cs.length true) cs = cs := by
  induction cs with
  | nil => rfl
  | cons c cs ih => exact congrArg (c :: ·) ih

theorem select_map (p : Cut → Bool) (cs : List Cut) :
    select (cs.map p) (cs.map Prod.fst) = (cs.filter p).map Prod.fst := by
  induction cs with
  | nil => rfl
  | cons c cs ih =>
    cases hp : p c with
    | false =>
      rw [List.filter_cons_of_neg (by simp [hp]), ← ih]
      simp [select, hp]
    | true =>
      rw [List.filter_cons_of_pos hp, List.map_cons, List.map_cons, List.map_cons, ← ih]
      simp [select, hp]

theorem CutLine.rest_eq_select (keepLineCount : Bool) (l : CutLine) :
    l.rest keepLineCount = select (l.stays keepLineCount) (l.whole.map Prod.fst) := by
  cases htouched : l.isTouched with
  | false =>
    rw [rest_of_untouched htouched, stays, htouched, Bool.not_false, if_pos rfl,
      ← List.length_map Prod.fst, select_replicate]
  | true =>
    have hcontent : select (l.content.map fun c => !l.kept.all isAsciiBlank && !c.2)
      (l.content.map Prod.fst) =
        if l.kept.all isAsciiBlank then [] else l.kept := by
      rw [select_map, kept]
      cases (List.map Prod.fst (l.content.filter fun c => !c.2)).all isAsciiBlank <;> simp
    have hfeed (p : Bool → Bool) :
        select (l.feed.toList.map p) ((l.feed.toList.map fun removed => ('\n', removed)).map Prod.fst) =
        if l.feed.any p then ['\n'] else [] := by
      cases hf : l.feed with
      | none => simp [select]
      | some removed => cases hp : p removed <;> simp [select, hp]
    rw [rest, stays, htouched, Bool.not_true, if_neg Bool.false_ne_true, if_neg Bool.false_ne_true,
      whole, List.map_append, select_append (by simp), hcontent, hfeed]
    cases hf : l.feed with
    | none => simp [feedText, hf]
    | some removed => cases removed <;> simp [feedText, hf]

theorem length_stays (keepLineCount : Bool) (cs : List Char) :
    (stays keepLineCount cs).length = cs.length := by
  have hlength : ((cutLines (cuts cs)).flatMap CutLine.whole).length = cs.length := by
    rw [flatMap_whole, ← List.length_map Prod.fst, map_fst_cuts]
  rw [← hlength, stays, List.length_flatMap, List.length_flatMap]
  simp only [CutLine.length_stays]

theorem stripChars_eq_select (keepLineCount : Bool) (cs : List Char) :
    stripChars keepLineCount cs = select (stays keepLineCount cs) cs := by
  have hlines (ls : List CutLine) : ls.flatMap (CutLine.rest keepLineCount) =
      select (ls.flatMap (CutLine.stays keepLineCount)) ((ls.flatMap CutLine.whole).map Prod.fst) := by
    induction ls with
    | nil => rfl
    | cons l ls ih =>
      rw [List.flatMap_cons, List.flatMap_cons, List.flatMap_cons, List.map_append,
        select_append (by rw [l.length_stays, List.length_map]), ← l.rest_eq_select, ih]
  rw [stripChars, hlines, stays, flatMap_whole, map_fst_cuts]

theorem CutLine.eq_feed_of_stays {keepLineCount : Bool} {l : CutLine} :
    ∀ x ∈ l.whole.zip (l.stays keepLineCount), x.1.2 = true → x.2 = true → x.1.1 = '\n' := by
  rintro ⟨⟨c, removed⟩, stay⟩ hx (rfl : removed = true) (rfl : stay = true)
  rw [stays] at hx
  split at hx
  · rename_i huntouched
    have hmem := (List.of_mem_zip hx).1
    have htouched : l.isTouched = true := by
      rcases List.mem_append.1 hmem with hc | hfeed
      · simp only [isTouched, Bool.or_eq_true, List.any_eq_true]
        exact .inl ⟨_, hc, rfl⟩
      · obtain ⟨removed, hfeed, heq⟩ := List.mem_map.1 hfeed
        obtain ⟨_, rfl⟩ := Prod.mk.inj heq
        simp [isTouched, Option.mem_toList.1 hfeed]
    rw [htouched] at huntouched
    cases huntouched
  · dsimp only at hx
    rw [whole, List.zip_append (by simp)] at hx
    -- of what is cut out nothing stays but the line feed, with the line count
    rcases List.mem_append.1 hx with hc | hfeed
    · have hzip (p : Cut → Bool) : l.content.zip (l.content.map p) = l.content.map fun c => (c, p c) := by
        have := List.zip_map' (f := id) (g := p) (l := l.content)
        rwa [List.map_id] at this
      rw [hzip] at hc
      obtain ⟨d, _, heq⟩ := List.mem_map.1 hc
      obtain ⟨rfl, hstay⟩ := Prod.mk.inj heq
      simp at hstay
    · obtain ⟨removed, _, heq⟩ := List.mem_map.1 (List.of_mem_zip hfeed).1
      exact (Prod.mk.inj heq).1.symm

/-- Of what is cut out only line feeds stay. -/
theorem eq_feed_of_stays {keepLineCount : Bool} {cs : List Char} {i : Nat} {c : Char}
    (hcut : (cuts cs)[i]? = some (c, true)) (hstay : (stays keepLineCount cs)[i]? = some true) :
    c = '\n' := by
  have hlines (ls : List CutLine) :
      ∀ x ∈ (ls.flatMap CutLine.whole).zip (ls.flatMap (CutLine.stays keepLineCount)),
      x.1.2 = true → x.2 = true → x.1.1 = '\n' := by
    induction ls with
    | nil => exact nofun
    | cons l ls ih =>
      rw [List.flatMap_cons, List.flatMap_cons, List.zip_append (l.length_stays keepLineCount).symm]
      exact List.forall_mem_append.2 ⟨CutLine.eq_feed_of_stays, ih⟩
  have hzip : ((cuts cs).zip (stays keepLineCount cs))[i]? = some ((c, true), true) := by
    rw [List.getElem?_zip_eq_some]
    exact ⟨hcut, hstay⟩
  have hall := hlines (cutLines (cuts cs))
  rw [flatMap_whole] at hall
  exact hall _ (List.mem_of_getElem? hzip) rfl rfl

/-! ## Clean texts -/

def IsClean (cs : List Char) : Prop :=
  ∀ name arguments, .occurrence name arguments ∈ pieces cs → isRecognized name = false

theorem isClean_iff {source : String} :
    IsClean source.toList ↔ ∀ o ∈ findAnnotations source, AnnotationKind.ofName? o.name = none := by
  constructor
  · intro h o ho
    obtain ⟨before, name, arguments, after, hpieces, rfl⟩ := mem_occurrencesFrom.1 ho
    simpa [isRecognized] using h name arguments (by rw [hpieces]; simp)
  · intro h name arguments hmem
    obtain ⟨before, after, hpieces⟩ := List.append_of_mem hmem
    have := h _ (mem_occurrencesFrom.2 ⟨before, name, arguments, after, hpieces, rfl⟩)
    simp [isRecognized, this]

theorem stripChars_of_isClean {cs : List Char} (h : IsClean cs) (keepLineCount : Bool) :
    stripChars keepLineCount cs = cs := by
  have huncut : ∀ c ∈ cuts cs, c.2 = false := by
    intro c hc
    obtain ⟨p, hp, hc⟩ := List.mem_flatMap.1 hc
    obtain ⟨d, _, rfl⟩ := List.mem_map.1 hc
    cases p with
    | plain d => rfl
    | occurrence name arguments => exact h name arguments hp
  rw [stripChars, flatMap_rest_uncut keepLineCount huncut, map_fst_cuts]

theorem isClean_of_stripChars {keepLineCount : Bool} {cs : List Char} (h : stripChars keepLineCount cs = cs) :
    IsClean cs := by
  have hcount : (stays keepLineCount cs).count true = (stays keepLineCount cs).length := by
    rw [← length_select (length_stays keepLineCount cs), ← stripChars_eq_select, h, length_stays]
  have hall : ∀ stay ∈ stays keepLineCount cs, stay = true :=
    fun stay hstay => (List.count_eq_length.1 hcount stay hstay).symm
  intro name arguments hmem
  rw [← Bool.not_eq_true]
  intro hrecognized
  have hat : ('@', true) ∈ cuts cs := by
    refine List.mem_flatMap.2 ⟨_, hmem, ?_⟩
    simp [Piece.cuts, Piece.text, hrecognized]
  obtain ⟨i, hi⟩ := List.getElem?_of_mem hat
  have hlength : i < (stays keepLineCount cs).length := by
    rw [length_stays, ← map_fst_cuts cs, List.length_map]
    exact (List.getElem?_eq_some_iff.1 hi).1
  have hstay : (stays keepLineCount cs)[i]? = some true := by
    rw [List.getElem?_eq_getElem hlength, hall _ (List.getElem_mem hlength)]
  exact absurd (eq_feed_of_stays hi hstay) (by decide)

/-- The clean texts are those that stripping leaves as they are. -/
theorem stripAnnotations_eq_self_iff {source : String} {keepLineCount : Bool} :
    stripAnnotations source keepLineCount = source ↔ IsClean source.toList := by
  have hself : stripAnnotations source keepLineCount = source ↔
      stripChars keepLineCount source.toList = source.toList := by
    rw [stripAnnotations, String.ext_iff, String.toList_ofList]
  rw [hself]
  exact ⟨isClean_of_stripChars, fun h => stripChars_of_isClean h keepLineCount⟩

end UpdaterBootstrap
