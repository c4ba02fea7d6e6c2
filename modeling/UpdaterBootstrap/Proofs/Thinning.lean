import UpdaterBootstrap.Proofs.Agreement
import UpdaterBootstrap.Proofs.Remainder

/-!
# Texts with gaps

What stays of a text where every cut follows a character that joins nothing. Next to the cuts only
blanks of their lines go, so that every gap in the text has such a character before it.
-/

namespace UpdaterBootstrap

inductive Before
  | joining
  /-- Nothing, or a character that joins nothing. -/
  | apart
  /-- Characters that do not stay, after what is `apart`. -/
  | gap
  deriving DecidableEq

def Before.after (c : Char) : Before :=
  if isJoining c then joining else apart

def LeadsToCut (cs : List Cut) : Prop :=
  ∃ (blanks : List Char) (c : Char) (rest : List Cut), cs = blanks.map (·, false) ++ (c, true) :: rest ∧
    ∀ d ∈ blanks, isAsciiBlank d = true ∧ d ≠ '\n'

/-- What stays of a text with cuts: gaps are opened by cuts and by the blanks that lead to them. -/
inductive Thins : Before → List Cut → List Char → Prop
  | nil (before : Before) : Thins before [] []
  | keep {before : Before} {c : Char} {cs : List Cut} {ds : List Char} (h : Thins (.after c) cs ds) :
      Thins before ((c, false) :: cs) (c :: ds)
  | cut {before : Before} {c : Char} {cs : List Cut} {ds : List Char} (hb : before ≠ .joining)
      (h : Thins .gap cs ds) : Thins before ((c, true) :: cs) ds
  | feed {before : Before} {cs : List Cut} {ds : List Char} (hb : before ≠ .joining) (h : Thins .gap cs ds) :
      Thins before (('\n', true) :: cs) ('\n' :: ds)
  | blank {c : Char} {cs : List Cut} {ds : List Char} (hc : isAsciiBlank c = true) (h : Thins .gap cs ds) :
      Thins .gap ((c, false) :: cs) ds
  | lead {c : Char} {cs : List Cut} {ds : List Char} (hc : isAsciiBlank c = true) (hfeed : c ≠ '\n')
      (hlead : LeadsToCut cs) (h : Thins .gap cs ds) : Thins .apart ((c, false) :: cs) ds

theorem Before.after_ne_gap (c : Char) : Before.after c ≠ .gap := by
  unfold Before.after
  split <;> exact nofun

theorem Before.after_eq_joining {c : Char} : Before.after c = .joining ↔ isJoining c = true := by
  unfold Before.after
  split <;> simp_all

theorem LeadsToCut.isAsciiBlank {a : List Char} {cs : List Cut} (h : LeadsToCut (a.map (·, false) ++ cs)) :
    ∀ c ∈ a, isAsciiBlank c = true := by
  obtain ⟨blanks, d, rest, heq, hblanks⟩ := h
  induction a generalizing blanks with
  | nil => exact nofun
  | cons c a ih =>
    cases blanks with
    | nil => cases (List.cons.inj heq).1
    | cons e blanks =>
      obtain ⟨he, hmore⟩ := List.forall_mem_cons.1 hblanks
      obtain ⟨hc, heq⟩ := List.cons.inj heq
      refine List.forall_mem_cons.2 ⟨?_, ih blanks heq hmore⟩
      rw [(Prod.mk.inj hc).1]
      exact he.1

/-- Before the next gap the text is as it was. -/
theorem Thins.agrees {cs : List Cut} {ds : List Char} (h : Thins .joining cs ds) :
    Agrees (cs.map Prod.fst) ds := by
  generalize hb : Before.joining = before at h
  induction h with
  | nil => exact .nil
  | @keep _ c cs ds _ ih =>
    by_cases hc : isJoining c = true
    · exact .cons c (ih (Before.after_eq_joining.2 hc).symm)
    · exact .apart (Bool.not_eq_true _ ▸ hc) _ ds
  | cut hne => exact absurd hb.symm hne
  | feed hne => exact absurd hb.symm hne
  | blank => cases hb
  | lead => cases hb

/-- In a gap only line feeds stay of what is cut out. -/
theorem Thins.of_gap {a : List Char} {cs : List Cut} {ds : List Char}
    (h : Thins .gap (a.map (·, true) ++ cs) ds) :
    ∃ fs ds', ds = fs ++ ds' ∧ (∀ c ∈ fs, c = '\n') ∧ Thins .gap cs ds' := by
  induction a generalizing ds with
  | nil => exact ⟨[], ds, rfl, nofun, h⟩
  | cons c a ih =>
    rw [List.map_cons, List.cons_append] at h
    cases h with
    | cut _ h => exact ih h
    | feed _ h =>
      obtain ⟨fs, ds', rfl, hfs, hrest⟩ := ih h
      exact ⟨'\n' :: fs, ds', rfl, List.forall_mem_cons.2 ⟨rfl, hfs⟩, hrest⟩

def Before.afterText (before : Before) (a : List Char) : Before :=
  (a.getLast?.map after).getD before

/-- A text that ends in no blank stays as a whole if no gap is before it. -/
theorem Thins.of_kept {before : Before} {a : List Char} {cs : List Cut} {ds : List Char} (hb : before ≠ .gap)
    (hlast : ∀ c, a.getLast? = some c → UpdaterBootstrap.isAsciiBlank c = false)
    (h : Thins before (a.map (·, false) ++ cs) ds) :
    ∃ ds', ds = a ++ ds' ∧ Thins (before.afterText a) cs ds' := by
  induction a generalizing before ds with
  | nil => exact ⟨ds, rfl, h⟩
  | cons c a ih =>
    rw [List.map_cons, List.cons_append] at h
    cases h with
    | keep h =>
      have hrest : ∀ d, a.getLast? = some d → UpdaterBootstrap.isAsciiBlank d = false := fun d hd =>
        hlast d (by rw [List.getLast?_cons, hd]; rfl)
      obtain ⟨ds', rfl, hds'⟩ := ih (Before.after_ne_gap c) hrest h
      have hafter : before.afterText (c :: a) = (Before.after c).afterText a := by
        rw [Before.afterText, Before.afterText, List.getLast?_cons]
        cases a.getLast? <;> rfl
      exact ⟨ds', rfl, hafter ▸ hds'⟩
    | blank hc h => exact absurd rfl hb
    | lead hc hfeed hlead h =>
      have hall : ∀ d ∈ c :: a, UpdaterBootstrap.isAsciiBlank d = true :=
        List.forall_mem_cons.2 ⟨hc, hlead.isAsciiBlank⟩
      have hlast := hlast _ (List.getLast?_eq_some_getLast (List.cons_ne_nil c a))
      rw [hall _ (List.getLast_mem _)] at hlast
      cases hlast

theorem Before.afterText_ne_gap {before : Before} (hb : before ≠ .gap) (a : List Char) :
    before.afterText a ≠ .gap := by
  unfold afterText
  cases a.getLast? with
  | none => exact hb
  | some c => exact after_ne_gap c

/-! ## Separated cuts -/

/-- Whether every cut follows another cut, a character that joins nothing, or what is before the
text if that is `apart`. -/
def isSeparatedFrom : Bool → List Cut → Bool
  | _, [] => true
  | apart, (_, true) :: cs => apart && isSeparatedFrom true cs
  | _, (c, false) :: cs => isSeparatedFrom (!isJoining c) cs

def Before.isApart (before : Before) : Bool :=
  before != .joining

theorem Before.isApart_iff {before : Before} : before.isApart = true ↔ before ≠ .joining := by
  simp [isApart]

theorem isSeparatedFrom_append {apart removed : Bool} {a cs : List Cut}
    (h : isSeparatedFrom apart (a ++ ('\n', removed) :: cs) = true) : isSeparatedFrom true cs = true := by
  induction a generalizing apart with
  | nil =>
    cases removed with
    | false => exact h
    | true => exact (Bool.and_eq_true_iff.1 h).2
  | cons c a ih =>
    obtain ⟨c, r⟩ := c
    cases r with
    | false => exact ih h
    | true => exact ih (Bool.and_eq_true_iff.1 h).2

/-! ## Lines -/

theorem Thins.kept {before : Before} {a cs : List Cut} {ds : List Char}
    (hs : isSeparatedFrom before.isApart (a ++ cs) = true)
    (h : ∀ before, isSeparatedFrom before.isApart cs = true → Thins before cs ds) :
    Thins before (a ++ cs) ((a.filter fun c => !c.2).map Prod.fst ++ ds) := by
  induction a generalizing before with
  | nil => exact h before hs
  | cons c a ih =>
    obtain ⟨c, removed⟩ := c
    cases removed with
    | false =>
      have hafter : (Before.after c).isApart = !isJoining c := by
        cases hc : isJoining c <;> simp [Before.after, hc, Before.isApart]
      exact .keep (ih (by rw [hafter]; exact hs))
    | true =>
      obtain ⟨hb, hs⟩ := Bool.and_eq_true_iff.1 hs
      exact .cut (Before.isApart_iff.1 hb) (ih hs)

theorem Thins.blanks {a cs : List Cut} {ds : List Char} (ha : ∀ c ∈ a, c.2 = false → isAsciiBlank c.1 = true)
    (h : Thins .gap cs ds) : Thins .gap (a ++ cs) ds := by
  induction a with
  | nil => exact h
  | cons c a ih =>
    obtain ⟨c, removed⟩ := c
    obtain ⟨hc, hrest⟩ := List.forall_mem_cons.1 ha
    cases removed with
    | false => exact .blank (hc rfl) (ih hrest)
    | true => exact .cut (by decide) (ih hrest)

theorem leadsToCut {a cs : List Cut} (ha : ∀ c ∈ a, c.1 ≠ '\n' ∧ (c.2 = false → isAsciiBlank c.1 = true))
    (h : (∃ c ∈ a, c.2 = true) ∨ ∃ c rest, cs = (c, true) :: rest) : LeadsToCut (a ++ cs) := by
  induction a with
  | nil =>
    rcases h with ⟨_, hc, _⟩ | ⟨c, rest, rfl⟩
    · cases hc
    · exact ⟨[], c, rest, rfl, nofun⟩
  | cons c a ih =>
    obtain ⟨c, removed⟩ := c
    obtain ⟨⟨hfeed, hc⟩, hrest⟩ := List.forall_mem_cons.1 ha
    cases removed with
    | true => exact ⟨[], c, a ++ cs, rfl, nofun⟩
    | false =>
      have hlater : (∃ c ∈ a, c.2 = true) ∨ ∃ c rest, cs = (c, true) :: rest := by
        rcases h with ⟨d, hd, hcut⟩ | h
        · rcases List.mem_cons.1 hd with rfl | hd
          · cases hcut
          · exact .inl ⟨d, hd, hcut⟩
        · exact .inr h
      obtain ⟨blanks, d, rest, heq, hblanks⟩ := ih hrest hlater
      exact ⟨c :: blanks, d, rest, by rw [List.cons_append, heq]; rfl,
        List.forall_mem_cons.2 ⟨⟨hc rfl, hfeed⟩, hblanks⟩⟩

/-- A line that only blanks are left of goes up to its line feed. -/
theorem Thins.blankLine {before : Before} {a cs : List Cut} {ds : List Char} (hb : before ≠ .joining)
    (ha : ∀ c ∈ a, c.1 ≠ '\n' ∧ (c.2 = false → isAsciiBlank c.1 = true))
    (hcut : (∃ c ∈ a, c.2 = true) ∨ ∃ c rest, cs = (c, true) :: rest)
    (h : ∀ before, before ≠ .joining →
      (a ≠ [] → before = .gap) → Thins before cs ds) : Thins before (a ++ cs) ds := by
  have hgap (hne : a ≠ []) : Thins .gap cs ds := h .gap (by decide) fun _ => rfl
  cases a with
  | nil => exact h before hb fun hne => absurd rfl hne
  | cons c a =>
    obtain ⟨c, removed⟩ := c
    obtain ⟨⟨hfeed, hc⟩, hlater⟩ := List.forall_mem_cons.1 ha
    have hrest : Thins .gap (a ++ cs) ds := .blanks (fun d hd => (hlater d hd).2) (hgap (by simp))
    cases removed with
    | true => exact .cut hb hrest
    | false =>
      cases before with
      | joining => exact absurd rfl hb
      | gap => exact .blank (hc rfl) hrest
      | apart =>
        refine .lead (hc rfl) hfeed (leadsToCut hlater ?_) hrest
        rcases hcut with ⟨d, hd, hcut⟩ | hcut
        · rcases List.mem_cons.1 hd with rfl | hd
          · cases hcut
          · exact .inl ⟨d, hd, hcut⟩
        · exact .inr hcut

namespace CutLine

theorem rest_of_blank {l : CutLine} (htouched : l.isTouched = true) (hblank : l.kept.all isAsciiBlank = true)
    (keepLineCount : Bool) : l.rest keepLineCount = if keepLineCount then l.feedText else [] := by
  rw [rest, htouched, hblank]
  simp

theorem rest_of_solid {l : CutLine} (h : l.isTouched = false ∨ l.kept.all isAsciiBlank = false)
    (keepLineCount : Bool) :
    l.rest keepLineCount = l.kept ++ if keepLineCount || l.feed != some true then l.feedText else [] := by
  cases htouched : l.isTouched with
  | true =>
    have hblank : l.kept.all isAsciiBlank = false := h.resolve_left (by simp [htouched])
    rw [rest, htouched, hblank]
    simp
  | false =>
    have huncut := htouched
    simp only [isTouched, Bool.or_eq_false_iff, List.any_eq_false] at huncut
    have hkept : l.kept = l.content.map Prod.fst := by
      rw [kept, List.filter_eq_self.2 fun c hc => by simpa using huncut.1 c hc]
    have hfeed : (l.feed != some true) = true := by
      rw [bne, huncut.2, Bool.not_false]
    rw [rest, htouched, hkept, hfeed, Bool.or_true]
    rfl

variable (keepLineCount : Bool) {l : CutLine} {cs : List Cut} {ds : List Char}
  (hnext : ∀ before, before ≠ .joining → Thins before cs ds) (hlast : l.feed = none → cs = [] ∧ ds = [])
include hnext hlast

theorem thins_feed {before : Before}
    (hs : isSeparatedFrom before.isApart ((l.feed.toList.map fun removed => ('\n', removed)) ++ cs) = true) :
    Thins before ((l.feed.toList.map fun removed => ('\n', removed)) ++ cs)
      ((if keepLineCount || l.feed != some true then l.feedText else []) ++ ds) := by
  cases hfeed : l.feed with
  | none =>
    obtain ⟨rfl, rfl⟩ := hlast hfeed
    simpa [feedText, hfeed] using Thins.nil before
  | some removed =>
    rw [hfeed] at hs
    cases removed with
    | false =>
      have : Thins (.after '\n') cs ds := hnext _ (by decide)
      simpa [feedText, hfeed] using Thins.keep this
    | true =>
      have hb := Before.isApart_iff.1 (Bool.and_eq_true_iff.1 hs).1
      cases keepLineCount with
      | false => simpa using Thins.cut hb (hnext .gap (by decide))
      | true => simpa [feedText, hfeed] using Thins.feed hb (hnext .gap (by decide))

theorem thins_feed_of_blank {before : Before} (hb : before ≠ .joining) (htouched : l.isTouched = true)
    (hgap : l.content ≠ [] → before = .gap) :
    Thins before ((l.feed.toList.map fun removed => ('\n', removed)) ++ cs)
      ((if keepLineCount then l.feedText else []) ++ ds) := by
  cases hfeed : l.feed with
  | none =>
    obtain ⟨rfl, rfl⟩ := hlast hfeed
    simpa [feedText, hfeed] using Thins.nil before
  | some removed =>
    cases removed with
    | false =>
      have hne : l.content ≠ [] := by
        intro hnil
        simp [isTouched, hnil, hfeed] at htouched
      obtain rfl := hgap hne
      cases keepLineCount with
      | false => simpa using Thins.blank (c := '\n') (by decide) (hnext .gap (by decide))
      | true =>
        have : Thins (.after '\n') cs ds := hnext _ (by decide)
        simpa [feedText, hfeed] using Thins.keep this
    | true =>
      cases keepLineCount with
      | false => simpa using Thins.cut hb (hnext .gap (by decide))
      | true => simpa [feedText, hfeed] using Thins.feed hb (hnext .gap (by decide))

theorem thins {before : Before} (hb : before ≠ .joining) (hcontent : ∀ c ∈ l.content, c.1 ≠ '\n')
    (hs : isSeparatedFrom before.isApart (l.whole ++ cs) = true) :
    Thins before (l.whole ++ cs) (l.rest keepLineCount ++ ds) := by
  rw [whole, List.append_assoc] at hs ⊢
  by_cases h : l.isTouched = true ∧ l.kept.all isAsciiBlank = true
  · obtain ⟨htouched, hblank⟩ := h
    have hall : ∀ c ∈ l.content, c.1 ≠ '\n' ∧ (c.2 = false → isAsciiBlank c.1 = true) := by
      refine fun c hc => ⟨hcontent c hc, fun huncut => List.all_eq_true.1 hblank _ ?_⟩
      exact List.mem_map.2 ⟨c, List.mem_filter.2 ⟨hc, by simp [huncut]⟩, rfl⟩
    have hcut : (∃ c ∈ l.content, c.2 = true) ∨
        ∃ c rest, (l.feed.toList.map fun removed => ('\n', removed)) ++ cs = (c, true) :: rest := by
      simp only [isTouched, Bool.or_eq_true, List.any_eq_true, beq_iff_eq] at htouched
      refine htouched.imp_right fun hfeed => ⟨'\n', cs, ?_⟩
      rw [hfeed]
      rfl
    rw [rest_of_blank htouched hblank]
    exact .blankLine hb hall hcut fun before hb => thins_feed_of_blank keepLineCount hnext hlast hb htouched
  · have hsolid : l.isTouched = false ∨ l.kept.all isAsciiBlank = false := by
      rw [← Bool.not_eq_true, ← Bool.not_eq_true]
      exact Classical.not_and_iff_not_or_not.1 h
    rw [rest_of_solid hsolid, List.append_assoc]
    exact .kept hs fun before hs => thins_feed keepLineCount hnext hlast hs

end CutLine

theorem exists_line (cs : List Cut) :
    (∀ c ∈ cs, c.1 ≠ '\n') ∨
      ∃ a removed rest, cs = a ++ ('\n', removed) :: rest ∧ ∀ c ∈ a, c.1 ≠ '\n' := by
  induction cs with
  | nil => exact .inl nofun
  | cons c cs ih =>
    obtain ⟨c, removed⟩ := c
    by_cases hc : c = '\n'
    · exact .inr ⟨[], removed, cs, by rw [hc]; rfl, nofun⟩
    · rcases ih with h | ⟨a, removed', rest, rfl, ha⟩
      · exact .inl (List.forall_mem_cons.2 ⟨hc, h⟩)
      · exact .inr ⟨(c, removed) :: a, removed', rest, rfl, List.forall_mem_cons.2 ⟨hc, ha⟩⟩

theorem cutLines_last {a : List Cut} (h : ∀ c ∈ a, c.1 ≠ '\n') (hne : a ≠ []) :
    cutLines a = [⟨a, none⟩] := by
  induction a with
  | nil => exact absurd rfl hne
  | cons c a ih =>
    obtain ⟨c, removed⟩ := c
    obtain ⟨hc, ha⟩ := List.forall_mem_cons.1 h
    rw [cutLines, if_neg (by simpa using hc)]
    cases a with
    | nil => rfl
    | cons d a => rw [ih ha (by simp)]

theorem thins_cutLines {before : Before} {cs : List Cut} (hb : before ≠ .joining)
    (hs : isSeparatedFrom before.isApart cs = true) (keepLineCount : Bool) :
    Thins before cs ((cutLines cs).flatMap (CutLine.rest keepLineCount)) := by
  induction hn : cs.length using Nat.strongRecOn generalizing before cs with
  | ind n ih =>
    subst hn
    rcases exists_line cs with h | ⟨a, removed, rest, rfl, ha⟩
    · by_cases hne : cs = []
      · rw [hne]
        exact .nil before
      · have :=
          CutLine.thins keepLineCount (l := ⟨cs, none⟩) (fun before _ => .nil before)
            (fun _ => ⟨rfl, rfl⟩) hb h
          (by simpa [CutLine.whole] using hs)
        simpa [cutLines_last h hne, CutLine.whole] using this
    · have hrest : isSeparatedFrom true rest = true := isSeparatedFrom_append hs
      have hnext (before : Before) (hb : before ≠ .joining) :
          Thins before rest ((cutLines rest).flatMap (CutLine.rest keepLineCount)) :=
        ih rest.length (by simp; omega) hb (by rw [Before.isApart_iff.2 hb]; exact hrest) rfl
      have := CutLine.thins keepLineCount (l := ⟨a, some removed⟩) hnext (fun h => by cases h) hb ha
        (by simpa [CutLine.whole] using hs)
      rw [cutLines_line ha, List.flatMap_cons]
      simpa [CutLine.whole] using this

end UpdaterBootstrap
