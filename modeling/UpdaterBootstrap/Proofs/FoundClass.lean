import UpdaterBootstrap.Proofs.AnnouncedClass
import UpdaterBootstrap.Proofs.UnitTokens

/-!
# The class header of a unit

The text of a unit declares its class after everything else it says, and the scan takes the first
word `class` that is followed by blanks and a word. So the scan finds the class of the unit if
nothing but blanks stand between keyword and name and no such word comes before, and only then,
unless what it finds before has the name of the class (`findClassHeader_parseUnit`).
-/

namespace UpdaterBootstrap

structure Declaration (ps : List Part) (className : String) where
  before : List Part
  keyword : Part
  gap : List Part
  name : Part
  after : List Part
  parts : ps = before ++ keyword :: (gap ++ name :: after)
  keyword_word : keyword.word? = some "class"
  name_word : name.word? = some className
  gap_tokens : ∀ p ∈ gap, p.placed? = none
  after_words : ∀ p ∈ after, p.word? = none
  /-- The keyword is joined to nothing before it. -/
  apart : ∀ p ∈ before.getLast?, p.joins = false

/-! ## Tokens among parts -/

theorem Part.joins_of_placed? {p : Part} (h : ∀ t ∈ p.placed?, t.token.joins = false) : p.joins = false := by
  unfold placed? at h
  unfold joins
  cases htoken : p.use.token? with
  | none => rfl
  | some t =>
    rw [htoken] at h
    exact h _ rfl

theorem Part.word?_of_placed? {p : Part} {t : Placed} (h : p.placed? = some t) : p.word? = t.token.word? := by
  obtain ⟨t, ht, rfl⟩ := Option.map_eq_some_iff.1 h
  unfold word?
  rw [ht]
  rfl

theorem Part.word?_of_placed?_none {p : Part} (h : p.placed? = none) : p.word? = none := by
  unfold word?
  rw [Option.map_eq_none_iff.1 h]
  rfl

theorem joins_of_getLast? {ps : List Part}
    (h : ∀ t ∈ (ps.filterMap Part.placed?).getLast?, t.token.joins = false) :
    ∀ p ∈ ps.getLast?, p.joins = false := by
  intro p hp
  obtain ⟨ps', rfl⟩ := List.getLast?_eq_some_iff.1 hp
  refine Part.joins_of_placed? fun t ht => h t ?_
  rw [List.filterMap_append, List.filterMap_cons_some ht, List.filterMap_nil, List.getLast?_concat]
  rfl

theorem Lexeme.ne_finish {cs : List Char} {code : Bool} {t : Token} (h : Lexeme cs (some t) code) :
    t ≠ .finish := by
  rintro rfl
  cases h

theorem append_eq_of_not_mem {α : Type} {a b rest : List α} {x y : α} (h : a ++ [x] = b ++ y :: rest)
    (hy : y ∉ a) :
    a = b := by
  rcases List.append_eq_append_iff.1 h with ⟨c, rfl, hc⟩ | ⟨c, rfl, hc⟩
  · cases c with
    | nil => exact (List.append_nil a).symm
    | cons z c =>
      have hlength := congrArg List.length hc
      simp at hlength
  · cases c with
    | nil => exact List.append_nil b
    | cons z c =>
      rw [List.cons_append] at hc
      rw [(List.cons.inj hc).1] at hy
      exact absurd (List.mem_append_right b List.mem_cons_self) hy

theorem nonempty_declaration {ps : List Part} {line : Nat} {u : ParsedUnit}
    (hlexemes : ∀ p ∈ ps, Lexeme p.chars p.use.token? p.use.isCode)
    (h : readUnit (ps.filterMap Part.placed? ++ [⟨.finish, line⟩]) = .ok u) :
    Nonempty (Declaration ps u.className) := by
  obtain ⟨before, keyword, name, after, finish, rest, hts, hapart, hkeyword, hname, hafter, hfinish⟩ :=
    readUnit_tokens h
  -- No part is the end of the text, so the declaration lies among the parts.
  have hnot : finish ∉ ps.filterMap Part.placed? := by
    intro hmem
    obtain ⟨p, hp, hplaced⟩ := List.mem_filterMap.1 hmem
    obtain ⟨t, ht, rfl⟩ := Option.map_eq_some_iff.1 hplaced
    have hlexeme := hlexemes p hp
    rw [ht] at hlexeme
    exact hlexeme.ne_finish hfinish
  have hsplit : ps.filterMap Part.placed? ++ [⟨.finish, line⟩] =
      (before ++ keyword :: name :: after) ++ finish :: rest := by
    rw [hts, List.append_assoc, List.cons_append, List.cons_append]
  have hparts : ps.filterMap Part.placed? = before ++ keyword :: name :: after :=
    append_eq_of_not_mem hsplit hnot
  obtain ⟨ps₁, ps₂, rfl, rfl, hrest⟩ := List.filterMap_eq_append_iff.1 hparts
  obtain ⟨skipped, k, ps₃, rfl, hskipped, hk, hrest⟩ := List.filterMap_eq_cons_iff.1 hrest
  obtain ⟨gap, n, ps₄, rfl, hgap, hn, hrest⟩ := List.filterMap_eq_cons_iff.1 hrest
  exact ⟨{
    before := ps₁ ++ skipped
    keyword := k
    gap := gap
    name := n
    after := ps₄
    parts := by simp
    keyword_word := by rw [Part.word?_of_placed? hk, hkeyword]; rfl
    name_word := by rw [Part.word?_of_placed? hn, hname]; rfl
    gap_tokens := hgap
    after_words := by
      intro p hp
      cases hplaced : p.placed? with
      | none => exact Part.word?_of_placed?_none hplaced
      | some t =>
        rw [Part.word?_of_placed? hplaced]
        exact hafter t (hrest ▸ List.mem_filterMap.2 ⟨p, hp, hplaced⟩)
    apart := by
      refine joins_of_getLast? ?_
      rw [List.filterMap_append, List.filterMap_eq_nil_iff.2 hskipped, List.append_nil]
      exact hapart }⟩

/-- The parts of the text of a unit declare its class. -/
theorem declaration_of_parseUnit {text : String} {u : ParsedUnit} (h : parseUnit text = .ok u) :
    ∃ ts ps, tokens text = .ok ts ∧ parts text = .ok ps ∧ Nonempty (Declaration ps u.className) := by
  obtain ⟨ts, hts, hunit⟩ := bind_eq_ok.1 h
  obtain ⟨ps, hps, rfl, hlexemes, -, -⟩ := codeMask_of_tokens hts
  exact ⟨_, ps, hts, hps, nonempty_declaration hlexemes hunit⟩

/-! ## What a declaration announces -/

theorem Part.isBlank_of_word? {p : Part} {w : String} (h : p.word? = some w) : p.isBlank = false := by
  obtain ⟨use, line, cs⟩ := p
  cases use with
  | blank => cases h
  | comment => rfl
  | token t => rfl

theorem nextWord?_append {p : Part} (hp : p.isBlank = false) (xs ys : List Part) :
    nextWord? (xs ++ p :: ys) = nextWord? (xs ++ [p]) := by
  induction xs with
  | nil => simp [nextWord?, hp]
  | cons q xs ih => simp only [List.cons_append, nextWord?, ih]

/-- Where a part is joined to nothing, what is announced before it does not depend on what follows. -/
theorem announced_append {p : Part} (hp : p.isBlank = false) {joined : Bool} {xs : List Part}
    (hjoined : xs.getLast?.elim joined Part.joins = false) (ys : List Part) :
    announced joined (xs ++ p :: ys) = announced joined (xs ++ [p]) ++ announced false (p :: ys) := by
  induction xs generalizing joined with
  | nil =>
    obtain rfl : joined = false := hjoined
    simp [announced, nextWord?]
  | cons q xs ih =>
    have hlast : xs.getLast?.elim q.joins Part.joins = false := by
      rw [List.getLast?_cons] at hjoined
      cases hxs : xs.getLast? <;> simpa [hxs] using hjoined
    rw [List.cons_append, List.cons_append, announced, announced, nextWord?_append hp, ih hlast,
      List.append_assoc]

section
variable {xs : List Part} (h : ∀ p ∈ xs, p.word? = none)
include h

theorem nextWord?_wordless : nextWord? xs = none := by
  induction xs with
  | nil => rfl
  | cons p xs ih =>
    obtain ⟨hp, hxs⟩ := List.forall_mem_cons.1 h
    rw [nextWord?, hp, ih hxs, ite_self]

theorem announced_wordless_append (joined : Bool) (ys : List Part) :
    ∃ joined', announced joined (xs ++ ys) = announced joined' ys := by
  induction xs generalizing joined with
  | nil => exact ⟨joined, rfl⟩
  | cons p xs ih =>
    obtain ⟨hp, hxs⟩ := List.forall_mem_cons.1 h
    obtain ⟨joined', heq⟩ := ih hxs p.joins
    refine ⟨joined', ?_⟩
    rw [List.cons_append, announced_of_joined fun hne => absurd hp hne, heq]

theorem announced_wordless (joined : Bool) : announced joined xs = [] := by
  obtain ⟨joined', heq⟩ := announced_wordless_append h joined []
  rwa [List.append_nil] at heq

theorem nextWord?_wordless_append {p : Part} {w : String} (hp : p.word? = some w) (ys : List Part) :
    nextWord? (xs ++ p :: ys) = if xs.all Part.isBlank then some w else none := by
  induction xs with
  | nil => rw [List.nil_append, nextWord?, Part.isBlank_of_word? hp, hp]; rfl
  | cons q xs ih =>
    obtain ⟨hq, hxs⟩ := List.forall_mem_cons.1 h
    rw [List.cons_append, nextWord?, ih hxs, hq, List.all_cons]
    cases q.isBlank <;> rfl

end

namespace Declaration

variable {ps : List Part} {className : String} (d : Declaration ps className)

def earlier : List String :=
  announced false (d.before ++ [d.keyword])

/-- The declaration is announced if nothing but blanks stand between keyword and name. -/
theorem announced_eq :
    announced false ps = d.earlier ++ if d.gap.all Part.isBlank then [className] else [] := by
  have hgap : ∀ p ∈ d.gap, p.word? = none := fun p hp => Part.word?_of_placed?_none (d.gap_tokens p hp)
  have hjoined : d.before.getLast?.elim false Part.joins = false := by
    cases hlast : d.before.getLast? with
    | none => rfl
    | some p => exact d.apart p hlast
  obtain ⟨joined, hname⟩ := announced_wordless_append hgap d.keyword.joins (d.name :: d.after)
  -- The name may be the word `class` itself, but no word comes after it.
  have hlast : announced joined (d.name :: d.after) = [] := by
    rw [announced, nextWord?_wordless d.after_words, announced_wordless d.after_words]
    split <;> rfl
  have hdeclared : announced false (d.keyword :: (d.gap ++ d.name :: d.after)) =
      if d.gap.all Part.isBlank then [className] else [] := by
    rw [announced, if_pos ⟨d.keyword_word, rfl⟩, nextWord?_wordless_append hgap d.name_word, hname, hlast]
    split <;> rfl
  calc announced false ps = announced false (d.before ++ d.keyword :: (d.gap ++ d.name :: d.after)) :=
        congrArg (announced false) d.parts
    _ = d.earlier ++ announced false (d.keyword :: (d.gap ++ d.name :: d.after)) :=
        announced_append (Part.isBlank_of_word? d.keyword_word) hjoined _
    _ = d.earlier ++ if d.gap.all Part.isBlank then [className] else [] := by rw [hdeclared]

end Declaration

/-! ## What the scan finds -/

theorem findClassHeader_parts {text : String} {ts : List Placed} {ps : List Part} (hts : tokens text = .ok ts)
    (hps : parts text = .ok ps) :
    (findClassHeader text).map ClassHeader.name = (announced false ps).head? := by
  unfold findClassHeader
  rw [marked_eq, start_of_tokens hts]
  exact declaredClass?_parts hps fun _ _ _ => rfl

/-- In the text of a unit the scan finds the first word that is announced. This is the class of the
unit if nothing is announced before the declaration and only blanks stand in it between keyword and
name, or if what is announced first is a word `class` followed by the name of the class. -/
theorem findClassHeader_parseUnit {text : String} {u : ParsedUnit} (h : parseUnit text = .ok u) :
    ∃ ps, parts text = .ok ps ∧ ∃ d : Declaration ps u.className,
      (findClassHeader text).map ClassHeader.name =
        (d.earlier ++ if d.gap.all Part.isBlank then [u.className] else []).head? ∧
      ((findClassHeader text).map ClassHeader.name = some u.className ↔
        d.earlier.head? = some u.className ∨ d.earlier = [] ∧ ∀ p ∈ d.gap, p.isBlank = true) := by
  obtain ⟨ts, ps, hts, hps, ⟨d⟩⟩ := declaration_of_parseUnit h
  have hfound := findClassHeader_parts hts hps
  rw [d.announced_eq] at hfound
  refine ⟨ps, hps, d, hfound, ?_⟩
  rw [hfound, ← List.all_eq_true]
  cases d.earlier with
  | nil => cases d.gap.all Part.isBlank <;> simp
  | cons name names => simp

def crowdedUnit : String :=
  "import p.class as class_;\n@A(x = class)\n/* class X */ final class\n\tB \x7b\x7d"

theorem findClassHeader_parseUnit_crowded :
    (findClassHeader crowdedUnit).map ClassHeader.name = some "B" ∧
      ∃ u, parseUnit crowdedUnit = .ok u ∧ u.className = "B" ∧
        ∃ ps, parts crowdedUnit = .ok ps ∧ ∃ d : Declaration ps u.className,
          (findClassHeader crowdedUnit).map ClassHeader.name =
            (d.earlier ++ if d.gap.all Part.isBlank then [u.className] else []).head? ∧
          ((findClassHeader crowdedUnit).map ClassHeader.name = some u.className ↔
            d.earlier.head? = some u.className ∨ d.earlier = [] ∧ ∀ p ∈ d.gap, p.isBlank = true) := by
  have h : (parseUnit crowdedUnit).toOption.map ParsedUnit.className = some "B" := by decide +kernel
  obtain ⟨u, hu, hname⟩ := Option.map_eq_some_iff.1 h
  exact ⟨by decide +kernel, u, eq_ok_of_toOption hu, hname, findClassHeader_parseUnit (eq_ok_of_toOption hu)⟩

/-- A comment before the name hides the class, and an annotation named like the keyword declares
another one. -/
theorem findClassHeader_missed :
    (parseUnit "@A class /* x */ B \x7b\x7d").toOption.map ParsedUnit.className = some "B" ∧
      findClassHeader "@A class /* x */ B \x7b\x7d" = none ∧
      (parseUnit "@class public class A \x7b\x7d").toOption.map ParsedUnit.className = some "A" ∧
      (findClassHeader "@class public class A \x7b\x7d").map ClassHeader.name = some "public" := by
  decide +kernel

end UpdaterBootstrap
