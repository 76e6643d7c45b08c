/-
**Where the fixes of the texts of a menu end.**

A text that has more than punctuation, and does not begin with a letter without an upper case, is
fixed. A text of punctuation only, or with such a letter, is fixed where white space that is no
blank and no tab keeps the fixes from it.

* `Settled`: white space at the boundaries stays as it is.
* `Stops`: the punctuation at the end goes up to white space that stays.
* `Mends`: the condition; `trimmed` is a text without white space around it, where a blank or a tab
  is there.
* `fixable_ends`: other texts are always fixed.
* `stuck_ends_iff`: **a text that begins with a letter without an upper case**; each fix keeps the
  condition.
* `stops_pass`, `puncts_ends_iff`: **a text of punctuation**; each pass keeps the condition.
* `fix_iff` — the fixes work if and only if each part mends; `dots_and_kra` are two texts that they
  do not work for.
-/

import Gebr.Menu.TextGaps

namespace Gebr.Menu

open Gebr.Lib.Gaps Gebr.Lib.Passes

section Statements

/-- White space at the boundaries stays as it is: it begins and ends with no blank and no tab, in
front of the punctuation at the end, and is one character each if white space is put together. -/
structure Settled (lead : Text) (rest : List (Char × Text)) : Prop where
  begins : beginsBlank lead = false
  ends : endsBlank (rear lead (kept rest)) = false
  calm : (∃ gap ∈ gapsOf lead rest, Doubled gap) → lead.length < 2 ∧ (rear lead (kept rest)).length < 2

/-- **The punctuation at the end goes up to white space that stays**: that in front of it, that at
the boundaries, one character that stays as it is, or a gap that is never put together. -/
def Stops (lead : Text) (rest : List (Char × Text)) : Prop :=
  (kept rest = [] ∧ lead ≠ []) ∨ (kept rest ≠ [] ∧ Settled lead rest) ∨
    (∃ pair ∈ (kept rest).dropLast, Single pair.2) ∨
    (endsBlank (rear lead (kept rest)) = true ∧ (∃ pair ∈ (kept rest).dropLast, HardEnd pair.2) ∧
      (∀ gap ∈ gapsOf lead rest, ¬ [' ', ' '] <:+: gap) ∧ ∀ pair ∈ (kept rest).dropLast,
        ¬ Doubled pair.2)

/-- Without the white space around it, where a blank or a tab is at a boundary. -/
def trimmed (lead : Text) (rest : List (Char × Text)) : Text × List (Char × Text) :=
  if beginsBlank lead || endsBlank (rear lead rest) then ([], closed rest) else (lead, rest)

variable (unicode : Unicode)

/-- **A text mends**: one of punctuation only stops, where there is to be none at the end; and one
that begins with a letter without an upper case has settled white space in front of it, where it is
to begin with an upper case. -/
structure Mends (flags : Finset Check) (text : Text) : Prop where
  ends : .nopnt ∈ flags → visible unicode text ≠ [] →
    (∀ c ∈ visible unicode text, isEndPunct c = true) →
      Stops (trimmed (leadOf unicode text) (restOf unicode text)).1
        (trimmed (leadOf unicode text) (restOf unicode text)).2
  begins : .capit ∈ flags → ∀ c, (visible unicode text).head? = some c → unicode.isLower c = true →
    unicode.upper c = [c] → leadOf unicode text ≠ [] ∧ Settled (leadOf unicode text)
      (restOf unicode text)

end Statements

section Fixable

variable {unicode : Unicode} {name : CaseName} {flags : Finset Check} {text after : Text}

/-- A text is not punctuation only, where there is to be none at the end; and its first letter has
an upper case, where it is to have one. -/
structure Fixable (unicode : Unicode) (flags : Finset Check) (text : Text) : Prop where
  ends : .nopnt ∈ flags → visible unicode text = [] ∨ ∃ c ∈ visible unicode text, isEndPunct c = false
  begins : .capit ∈ flags → ∀ c, (visible unicode text).head? = some c → unicode.isLower c = true →
    unicode.upper c ≠ [c]

theorem Fixable.of_visible (fixable : Fixable unicode flags text)
    (same : visible unicode after = visible unicode text) : Fixable unicode flags after :=
  ⟨fun is => same ▸ fixable.ends is, fun is => same ▸ fixable.begins is⟩

theorem fixable_capit (noUrl : .url ∉ flags) (fixable : Fixable unicode flags text)
    (listed : .capit ∈ flags) (failed : passes unicode .capit text = false) :
    ∃ after, change unicode .capit text = some after ∧ Fixable unicode flags after ∧
      level unicode flags after < level unicode flags text := by
  obtain ⟨c, rest, rfl, lower, begins⟩ := lower_of_failed failed
  have other : unicode.upper c ≠ [c] := fixable.begins listed c (by rw [begins]; rfl) lower
  obtain ⟨d, more, upper, high⟩ := unicode.upper_head c lower other
  have solid := unicode.upper_solid c lower
  have now : visible unicode (unicode.upper c ++ rest) = d :: more ++ visible unicode rest := by
    rw [visible_append, visible_of_solid fun e member => (solid e member).1, upper]
  refine ⟨_, rfl, ⟨fun _ => .inr ⟨d, ?_, ?_⟩, ?_⟩, level_lt_capit noUrl lower other⟩
  · rw [now]
    exact List.mem_cons_self
  · exact not_isEndPunct_of_isAsciiPunct (solid d (upper ▸ List.mem_cons_self)).2
  · intro _ e head is
    rw [now] at head
    obtain rfl := Option.some.inj head
    exact nomatch high.symm.trans is

/-- The punctuation at the end goes, and something stays. -/
theorem fixable_nopnt (noUrl : .url ∉ flags) (fixable : Fixable unicode flags text)
    (listed : .nopnt ∈ flags) (failed : passes unicode .nopnt text = false) :
    ∃ after, change unicode .nopnt text = some after ∧ Fixable unicode flags after ∧
      level unicode flags after < level unicode flags text := by
  have parts : visible unicode text = visible unicode (text.rdropWhile isEndPunct) ++
      text.rtakeWhile isEndPunct :=
    visible_of_puncts unicode List.rdropWhile_append_rtakeWhile.symm fun c member =>
      List.mem_rtakeWhile_imp member
  have more : ∃ c ∈ visible unicode text, isEndPunct c = false := by
    refine (fixable.ends listed).resolve_left fun none => ?_
    have passed : checkNoPunctuationAtEnd text = true :=
      (checkNoPunctuationAtEnd_iff unicode text).2 (by rw [restOf_eq_nil.2 none]; rfl)
    exact nomatch passed.symm.trans failed
  obtain ⟨c, seen, stays⟩ := more
  have still : c ∈ visible unicode (text.rdropWhile isEndPunct) := by
    rw [parts] at seen
    refine (List.mem_append.1 seen).resolve_right fun inside => ?_
    exact nomatch (List.mem_rtakeWhile_imp inside).symm.trans stays
  have nonempty : text.rdropWhile isEndPunct ≠ [] := List.ne_nil_of_mem (List.mem_of_mem_filter still)
  have head : (visible unicode text).head? = (visible unicode (text.rdropWhile isEndPunct)).head? := by
    rw [parts, List.head?_append_of_ne_nil _ (List.ne_nil_of_mem still)]
  exact ⟨_, if_neg nonempty, ⟨fun _ => .inr ⟨c, still, stays⟩, fun is => head ▸ fixable.begins is⟩,
    level_lt_nopnt noUrl failed⟩

/-- Each fix goes down, and leaves a text that can be fixed. -/
theorem fixable_change (noUrl : .url ∉ flags) (fixable : Fixable unicode flags text) {check : Check}
    (known : check ∈ fixes) (failed : fails unicode flags check text = true) :
    ∃ after, change unicode check text = some after ∧ Fixable unicode flags after ∧
      level unicode flags after < level unicode flags text := by
  have blanks {check : Check} (known : check ∈ [.noblk, .mtblk, .tabs])
      (failed : fails unicode flags check text = true) {after : Text}
        (changed : change unicode check text = some after) :
      ∃ after, change unicode check text = some after ∧ Fixable unicode flags after ∧
        level unicode flags after < level unicode flags text := by
    have other : check ∉ [.capit, .nopnt, .url] := by
      revert known
      cases check <;> decide
    exact ⟨after, changed, fixable.of_visible (visible_change other changed),
      level_lt_blanks noUrl known failed changed⟩
  obtain ⟨listed, failed'⟩ := (fails_iff check).1 failed
  cases check with
  | capit => exact fixable_capit noUrl fixable listed failed'
  | nopnt => exact fixable_nopnt noUrl fixable listed failed'
  | noblk | mtblk | tabs => exact blanks (by decide) failed rfl
  | url => exact absurd listed noUrl
  | empty | email | filen | labelHotkey => exact absurd known (by decide)

/-- Only an address has a scheme, and it has no other check with a fix. -/
theorem eq_programUrl (listed : .url ∈ flagsOf name) : name = .programUrl := by
  revert listed
  cases name <;> decide

/-- **Such a text is always fixed.** -/
theorem fixable_ends (fixable : Fixable unicode (flagsOf name) text) : Ends unicode name text := by
  by_cases url : .url ∈ flagsOf name
  · obtain rfl := eq_programUrl url
    have makes : ∀ check ∈ fixes, ∀ text, True → fails unicode (flagsOf .programUrl) check text =
        true → ∃ after, change unicode check text = some after ∧ True ∧
          level unicode (flagsOf .programUrl) after < level unicode (flagsOf .programUrl) text := by
      intro check known text _ failed
      obtain ⟨listed, failed⟩ := (fails_iff check).1 failed
      obtain rfl : check = .url := by
        revert known listed
        cases check <;> decide
      have scheme : checkIsUrl text = false := failed
      refine ⟨changeUrl text, rfl, trivial, level_lt_of_pending ?_⟩
      unfold pending
      rw [if_pos url, if_pos url, if_pos (checkIsUrl_changeUrl text), scheme,
        if_neg Bool.false_ne_true]
      exact Nat.one_pos
    obtain ⟨fuel, fixed, done, -⟩ := untilDone_total makes trivial
    exact ⟨fuel, fixed, done⟩
  · obtain ⟨fuel, fixed, done, -⟩ := untilDone_total
      (fun check known text fixable failed => fixable_change url fixable known failed) fixable
    exact ⟨fuel, fixed, done⟩

end Fixable

section Settled

variable {lead : Text} {rest : List (Char × Text)}

/-- What the fix of the end takes away has no gaps. -/
theorem exists_gapsOf_kept {p : Text → Prop} (empty : ¬ p []) :
    (∃ gap ∈ gapsOf lead (kept rest), p gap) ↔ ∃ gap ∈ gapsOf lead rest, p gap := by
  rw [exists_gapsOf, exists_gapsOf]
  refine or_congr_right
    ⟨fun ⟨pair, member, holds⟩ => ⟨pair, (kept_front rest).subset member, holds⟩, ?_⟩
  rintro ⟨pair, member, holds⟩
  rw [← List.rdropWhile_append_rtakeWhile (p := bare) (l := rest)] at member
  rcases List.mem_append.1 member with inside | behind
  · exact ⟨pair, inside, holds⟩
  · have is : bare pair = true := List.mem_rtakeWhile_imp behind
    have none := List.isEmpty_iff.1 (Bool.and_eq_true_iff.1 is).2
    exact absurd (none ▸ holds) empty

theorem not_doubled_nil : ¬ Doubled [] := not_doubled_of_short Nat.two_pos

theorem Settled.boundaries (settled : Settled lead rest) :
    (beginsBlank lead || endsBlank (rear lead rest)) = false := by
  refine Bool.or_eq_false_iff.2 ⟨settled.begins, ?_⟩
  rcases List.eq_nil_or_concat' rest with rfl | ⟨front, pair, rfl⟩
  · exact settled.ends
  · cases is : bare pair with
    | true =>
      rw [rear_concat, List.isEmpty_iff.1 (Bool.and_eq_true_iff.1 is).2]
      rfl
    | false =>
      have same : kept (front ++ [pair]) = front ++ [pair] := List.rdropWhile_concat_neg _ _ _
        (by simp [is])
      exact same ▸ settled.ends

/-- White space of one character that is no blank and no tab, or none. -/
theorem short_iff {gap : Text} {unicode : Unicode} (spaces : ∀ c ∈ gap, unicode.isSpace c = true)
    (blank : Text → Bool) (one : blank [' '] = true) :
    blank (changeMultipleBlanks unicode gap) = false ↔ gap.length < 2 ∧ blank gap = false := by
  rw [changeMultipleBlanks_eq spaces]
  by_cases short : gap.length < 2
  · rw [if_pos short]
    exact (and_iff_right short).symm
  · rw [if_neg short, one]
    simp [short]

variable {unicode : Unicode}

theorem rear_mem (lead : Text) (rest : List (Char × Text)) :
    rear lead (kept rest) ∈ gapsOf lead rest := by
  rcases List.eq_nil_or_concat' (kept rest) with none | ⟨front, pair, parts⟩
  · rw [none]
    exact List.mem_cons_self
  · rw [parts, rear_concat]
    refine List.mem_cons_of_mem lead (List.mem_map_of_mem ((kept_front rest).subset ?_))
    rw [parts]
    exact List.mem_append_right front List.mem_cons_self

/-- Where white space is put together, the same is settled. -/
theorem settled_changeMultipleBlanks
    (spaces : ∀ gap ∈ gapsOf lead rest, ∀ c ∈ gap, unicode.isSpace c = true)
    (doubled : ∃ gap ∈ gapsOf lead rest, Doubled gap) :
    Settled (changeMultipleBlanks unicode lead) (mapGaps (changeMultipleBlanks unicode) rest) ↔
    Settled lead rest := by
  have front := short_iff (spaces lead List.mem_cons_self) beginsBlank rfl
  have back := short_iff (spaces _ (rear_mem lead rest)) endsBlank rfl
  have kept_eq : kept (mapGaps (changeMultipleBlanks unicode) rest) =
      mapGaps (changeMultipleBlanks unicode) (kept rest) :=
        kept_mapGaps (fun _ => changeMultipleBlanks_eq_nil) rest
  have shorter (gap : Text) : (changeMultipleBlanks unicode gap).length ≤ gap.length :=
    Gebr.Lib.Squeeze.length_squeeze_le _ _ Nat.two_pos gap
  constructor
  · rintro ⟨begins, ends, -⟩
    rw [kept_eq, rear_mapGaps] at ends
    exact ⟨(front.1 begins).2, (back.1 ends).2, fun _ => ⟨(front.1 begins).1, (back.1 ends).1⟩⟩
  · rintro ⟨begins, ends, calm⟩
    obtain ⟨first, last⟩ := calm doubled
    refine ⟨front.2 ⟨first, begins⟩, ?_, fun _ => ?_⟩
    · rw [kept_eq, rear_mapGaps]
      exact back.2 ⟨last, ends⟩
    · rw [kept_eq, rear_mapGaps]
      exact ⟨(shorter lead).trans_lt first, (shorter _).trans_lt last⟩

/-- Where tabs become blanks, the same is settled. -/
theorem settled_changeTabs : Settled (changeTabs lead) (mapGaps changeTabs rest) ↔
    Settled lead rest := by
  have doubled : (∃ gap ∈ gapsOf (changeTabs lead) (mapGaps changeTabs rest), Doubled gap) ↔
      ∃ gap ∈ gapsOf lead rest, Doubled gap := by
    rw [exists_gapsOf, exists_gapsOf, exists_mapGaps, doubled_changeTabs]
    simp only [doubled_changeTabs]
  have kept_eq : kept (mapGaps changeTabs rest) = mapGaps changeTabs (kept rest) :=
    kept_mapGaps (fun _ => changeTabs_eq_nil) rest
  have length (begins : beginsBlank lead = false) (ends : endsBlank (rear lead (kept rest)) = false) :
      ((changeTabs lead).length < 2 ∧ (changeTabs (rear lead (kept rest))).length < 2) ↔
        (lead.length < 2 ∧ (rear lead (kept rest)).length < 2) := by
    refine and_congr (length_changeTabs_iff (.inl begins)) ?_
    by_cases empty : rear lead (kept rest) = []
    · rw [empty]
      decide
    · exact length_changeTabs_iff (.inr ⟨empty, ends⟩)
  constructor
  · rintro ⟨begins, ends, calm⟩
    rw [beginsBlank_changeTabs] at begins
    rw [kept_eq, rear_mapGaps, endsBlank_changeTabs] at ends
    rw [doubled, kept_eq, rear_mapGaps, length begins ends] at calm
    exact ⟨begins, ends, calm⟩
  · rintro ⟨begins, ends, calm⟩
    refine ⟨(beginsBlank_changeTabs lead).trans begins, ?_, ?_⟩
    · rw [kept_eq, rear_mapGaps, endsBlank_changeTabs]
      exact ends
    · rw [doubled, kept_eq, rear_mapGaps, length begins ends]
      exact calm

/-- Without the punctuation at the end, the same is settled. -/
theorem settled_kept : Settled lead (kept rest) ↔ Settled lead rest := by
  constructor
  · rintro ⟨begins, ends, calm⟩
    rw [kept_kept] at ends calm
    exact ⟨begins, ends, fun doubled => calm ((exists_gapsOf_kept not_doubled_nil).2 doubled)⟩
  · rintro ⟨begins, ends, calm⟩
    refine ⟨begins, ?_, fun doubled => ?_⟩
    · rw [kept_kept]
      exact ends
    · rw [kept_kept]
      exact calm ((exists_gapsOf_kept not_doubled_nil).1 doubled)

variable {name : CaseName} {text : Text}

/-- The cases that look at the end or at the first letter look at all white space, and at no
scheme. -/
theorem blanks_mem (listed : .nopnt ∈ flagsOf name ∨ .capit ∈ flagsOf name) :
    .nopnt ∈ flagsOf name ∧ .noblk ∈ flagsOf name ∧ .mtblk ∈ flagsOf name ∧ .tabs ∈ flagsOf name ∧
      .url ∉ flagsOf name := by
  revert listed
  cases name <;> decide

/-- **A text that no fix objects to is settled.** -/
theorem settled_of_fine (listed : .nopnt ∈ flagsOf name ∨ .capit ∈ flagsOf name)
    (fine : ∀ check ∈ fixes, fails unicode (flagsOf name) check text = false) :
    Settled (leadOf unicode text) (restOf unicode text) ∧
      kept (restOf unicode text) = restOf unicode text := by
  obtain ⟨nopnt, noblk, mtblk, tabs, -⟩ := blanks_mem listed
  have passed {check : Check} (known : check ∈ fixes) (inside : check ∈ flagsOf name) :
      passes unicode check text = true := by
    cases is : passes unicode check text with
    | true => rfl
    | false => exact nomatch (fine check known).symm.trans ((fails_iff check).2 ⟨inside, is⟩)
  have boundaries : checkNoBlanksAtBoundaries text = true := passed (by decide) noblk
  have multiple : checkNoMultipleBlanks text = true := passed (by decide) mtblk
  have noTabs : checkTabs text = true := passed (by decide) tabs
  have same := (checkNoPunctuationAtEnd_iff unicode text).1 (passed (by decide) nopnt)
  rw [checkNoBlanksAtBoundaries_eq unicode, Bool.not_eq_true', Bool.or_eq_false_iff] at boundaries
  refine ⟨⟨boundaries.1, same.symm ▸ boundaries.2, ?_⟩, same⟩
  rintro ⟨gap, member, doubled⟩
  by_cases blanks : [' ', ' '] <:+: gap
  · exact nomatch multiple.symm.trans
      ((checkNoMultipleBlanks_iff unicode text).2 ⟨gap, member, blanks⟩)
  · exact nomatch noTabs.symm.trans ((checkTabs_iff unicode text).2 ⟨gap, member, doubled.tab blanks⟩)

end Settled

section Stuck

variable {unicode : Unicode} {name : CaseName} {text after : Text} {c : Char}

/-- White space is in front of the text, and settled. -/
def Hidden (unicode : Unicode) (text : Text) : Prop :=
  leadOf unicode text ≠ [] ∧ Settled (leadOf unicode text) (restOf unicode text)

theorem leadOf_cons (solid : unicode.isSpace c = false) (text : Text) :
    leadOf unicode (c :: text) = [] := by
  rw [leadOf, gaps, solid, if_neg Bool.false_ne_true]

/-- A fix that is made of a text which begins so: it begins so again, is as hidden as before, and
goes down where it is hidden. -/
theorem stuck_change (listed : .capit ∈ flagsOf name) (lower : unicode.isLower c = true)
    (same : unicode.upper c = [c]) {check : Check} (known : check ∈ fixes)
    (head : (visible unicode text).head? = some c)
    (failed : fails unicode (flagsOf name) check text = true) :
      ∃ after, change unicode check text = some after ∧ (visible unicode after).head? = some c ∧
      (Hidden unicode after ↔ Hidden unicode text) ∧
      (Hidden unicode text → level unicode (flagsOf name) after <
      level unicode (flagsOf name) text) := by
  obtain ⟨-, -, -, -, noUrl⟩ := blanks_mem (.inr listed)
  obtain ⟨inside, failed'⟩ := (fails_iff check).1 failed
  have spaces : ∀ gap ∈ gapsOf (leadOf unicode text) (restOf unicode text), ∀ c ∈ gap,
      unicode.isSpace c = true :=
    fun gap member => spaces_of_mem member
  cases check with
  | capit =>
    -- The letter is its own upper case.
    obtain ⟨d, rest, rfl, -, seen⟩ := lower_of_failed failed'
    obtain rfl : d = c := Option.some.inj ((seen ▸ head : (d :: visible unicode rest).head? = some c))
    have still : change unicode .capit (d :: rest) = some (d :: rest) := by
      change some (unicode.upper d ++ rest) = _
      rw [same, List.singleton_append]
    exact ⟨_, still, head, Iff.rfl,
      fun hidden => absurd (leadOf_cons (unicode.lower_solid d lower).1 rest) hidden.1⟩
  | noblk =>
    -- What is at a boundary is not settled, and nothing hides a text that is trimmed.
    have seen := visible_changeNoBlanksAtBoundaries unicode text
    have open_ : ¬ Hidden unicode text := fun hidden => by
      have passed := checkNoBlanksAtBoundaries_eq unicode text
      rw [hidden.2.boundaries] at passed
      exact nomatch failed'.symm.trans passed
    have bare : leadOf unicode (changeNoBlanksAtBoundaries unicode text) = [] := by
      cases trim : changeNoBlanksAtBoundaries unicode text with
      | nil => rfl
      | cons d front => exact leadOf_cons (head_changeNoBlanksAtBoundaries (by rw [trim]; rfl)) front
    exact ⟨_, rfl, seen ▸ head, iff_of_false (fun hidden => hidden.1 bare) open_, fun hidden =>
      absurd hidden open_⟩
  | mtblk =>
    have seen := visible_changeMultipleBlanks unicode text
    have parts := gaps_changeMultipleBlanks unicode text
    obtain ⟨gap, member, blanks⟩ := (checkNoMultipleBlanks_iff unicode text).1 failed'
    refine ⟨_, rfl, seen ▸ head, ?_, fun _ => level_lt_blanks noUrl (by decide) failed rfl⟩
    unfold Hidden
    rw [parts.1, parts.2, settled_changeMultipleBlanks spaces ⟨gap, member, .inl blanks⟩, Ne,
      changeMultipleBlanks_eq_nil]
  | nopnt =>
    have seen : visible unicode text = visible unicode (text.rdropWhile isEndPunct) ++
        text.rtakeWhile isEndPunct :=
      visible_of_puncts unicode List.rdropWhile_append_rtakeWhile.symm fun c member =>
        List.mem_rtakeWhile_imp member
    have still : (visible unicode (text.rdropWhile isEndPunct)).head? = some c := by
      rw [seen, List.head?_append] at head
      cases first : (visible unicode (text.rdropWhile isEndPunct)).head? with
      | some d => rwa [first, Option.some_or] at head
      | none =>
        rw [first, Option.none_or] at head
        have punct : isEndPunct c = true := List.mem_rtakeWhile_imp (List.mem_of_mem_head? head)
        exact (lower_not_endPunct unicode lower punct).elim
    have nonempty : text.rdropWhile isEndPunct ≠ [] := by
      intro none
      rw [none] at still
      exact nomatch still
    have parts := gaps_rdropWhile_isEndPunct unicode text
    refine ⟨_, if_neg nonempty, still, ?_, fun _ => level_lt_nopnt noUrl failed'⟩
    unfold Hidden
    rw [parts.1, parts.2, settled_kept]
  | tabs =>
    have seen := visible_changeTabs unicode text
    have parts := gaps_changeTabs unicode text
    refine ⟨_, rfl, seen ▸ head, ?_, fun _ => level_lt_blanks noUrl (by decide) failed rfl⟩
    unfold Hidden
    rw [parts.1, parts.2, settled_changeTabs, Ne, changeTabs_eq_nil]
  | url => exact absurd inside noUrl
  | empty | email | filen | labelHotkey => exact absurd known (by decide)

/-- **A text that begins with a letter without an upper case** is fixed if and only if it is
hidden. -/
theorem stuck_ends_iff (listed : .capit ∈ flagsOf name) (lower : unicode.isLower c = true)
    (same : unicode.upper c = [c]) (head : (visible unicode text).head? = some c) :
    Ends unicode name text ↔ Hidden unicode text := by
  constructor
  · rintro ⟨fuel, fixed, done⟩
    by_contra bare
    have keeps : ∀ check ∈ fixes, ∀ text after,
        (visible unicode text).head? = some c ∧ ¬ Hidden unicode text →
        fails unicode (flagsOf name) check text = true → change unicode check text = some after →
        (visible unicode after).head? = some c ∧ ¬ Hidden unicode after := by
      rintro check known text after ⟨head, bare⟩ failed changed
      obtain ⟨other, changed', head', iff, -⟩ := stuck_change listed lower same known head failed
      obtain rfl : other = after := Option.some.inj (changed'.symm.trans changed)
      exact ⟨head', iff.not.2 bare⟩
    have objects : ∀ text, (visible unicode text).head? = some c ∧ ¬ Hidden unicode text →
        ∃ check ∈ fixes, fails unicode (flagsOf name) check text = true := by
      rintro text ⟨head, bare⟩
      by_contra none
      push Not at none
      have fine : ∀ check ∈ fixes, fails unicode (flagsOf name) check text = false :=
        fun check known => Bool.eq_false_iff.2 (none check known)
      -- Nothing is in front of the letter, which is in lower case.
      have settled := (settled_of_fine (.inr listed) fine).1
      have begins : leadOf unicode text = [] := by
        by_contra some_space
        exact bare ⟨some_space, settled⟩
      have first : text.head? = some c := by
        have whole := head?_eq unicode.isSpace text
        change text.head? = (leadOf unicode text).head?.or
          ((restOf unicode text).head?.map Prod.fst) at whole
        rw [whole, begins, ← List.head?_map, map_fst_restOf, head]
        rfl
      obtain ⟨behind, rfl⟩ := List.head?_eq_some_iff.1 first
      refine Bool.false_ne_true ((fine .capit (by decide)).symm.trans ((fails_iff _).2 ⟨listed, ?_⟩))
      change checkNoLowerCase unicode (c :: behind) = false
      simp [checkNoLowerCase, lower]
    have never := untilDone_none (fun text after _ holds passed => onePass_keeps keeps holds passed)
      objects ⟨head, bare⟩ fuel
    exact absurd (done.symm.trans never) (Option.some_ne_none fixed)
  · intro hidden
    have makes : ∀ check ∈ fixes, ∀ text, (visible unicode text).head? = some c ∧ Hidden unicode text →
        fails unicode (flagsOf name) check text = true → ∃ after, change unicode check text =
          some after ∧ ((visible unicode after).head? = some c ∧ Hidden unicode after) ∧
          level unicode (flagsOf name) after < level unicode (flagsOf name) text := by
      rintro check known text ⟨head, hidden⟩ failed
      obtain ⟨after, changed, head', iff, down⟩ := stuck_change listed lower same known head failed
      exact ⟨after, changed, ⟨head', iff.2 hidden⟩, down hidden⟩
    obtain ⟨fuel, fixed, done, -⟩ := untilDone_total makes ⟨head, hidden⟩
    exact ⟨fuel, fixed, done⟩

end Stuck

section Punctuation

variable {lead : Text} {rest inner : List (Char × Text)} {c : Char}

/-- All visible characters are punctuation that is not to be at the end. -/
def Puncts (rest : List (Char × Text)) : Prop := ∀ pair ∈ rest, isEndPunct pair.1 = true

theorem bare_iff (puncts : Puncts rest) {pair : Char × Text} (member : pair ∈ rest) :
    bare pair = true ↔ pair.2 = [] := by
  rw [bare, puncts pair member, Bool.true_and, List.isEmpty_iff]

/-- The last of what is kept has something behind it. -/
theorem kept_cases (puncts : Puncts rest) :
    kept rest = [] ∨ ∃ front pair, kept rest = front ++ [pair] ∧ pair.2 ≠ [] := by
  rcases List.eq_nil_or_concat' (kept rest) with none | ⟨front, pair, parts⟩
  · exact .inl none
  · refine .inr ⟨front, pair, parts, fun empty => ?_⟩
    have member : pair ∈ rest := (kept_front rest).subset
      (parts ▸ List.mem_append_right front List.mem_cons_self)
    have stops : bare pair = false := by
      cases is : bare pair with
      | false => rfl
      | true =>
        have fewer : kept (front ++ [pair]) = kept front := List.rdropWhile_concat_pos _ _ _ is
        have shorter := (kept_front front).length_le
        rw [← fewer, ← parts, kept_kept, parts, List.length_append, List.length_singleton] at shorter
        omega
    exact nomatch stops.symm.trans ((bare_iff puncts member).2 empty)

theorem exists_kept {p : Text → Prop} (empty : ¬ p []) (rest : List (Char × Text)) :
    (∃ pair ∈ kept rest, p pair.2) ↔ ∃ pair ∈ rest, p pair.2 := by
  have both := @exists_gapsOf_kept [] rest p empty
  rwa [exists_gapsOf, exists_gapsOf, or_iff_right empty, or_iff_right empty] at both

theorem not_hardEnd_nil : ¬ HardEnd [] := fun hard => hard.1 rfl

/-- **Behind a fix of the boundaries** the punctuation goes up to a gap that stays, where the gaps
have no tabs. -/
theorem stops_closed (puncts : Puncts (inner ++ [(c, [])]))
    (plain : ∀ pair ∈ inner, Doubled pair.2 → [' ', ' '] <:+: pair.2) :
      Stops [] (inner ++ [(c, [])]) ↔ (∃ pair ∈ inner, Single pair.2) ∨
      ((∃ pair ∈ inner, HardEnd pair.2) ∧ ∀ pair ∈ inner, ¬ Doubled pair.2) := by
  have last : kept (inner ++ [(c, [])]) = kept inner :=
    List.rdropWhile_concat_pos _ _ _
      ((bare_iff puncts (List.mem_append_right inner List.mem_cons_self)).2 rfl)
  have inside : Puncts inner := fun pair member => puncts pair (List.mem_append_left _ member)
  have doubled : (∃ gap ∈ gapsOf [] (inner ++ [(c, [])]), Doubled gap) ↔ ∃ pair ∈ kept inner,
      Doubled pair.2 := by
    rw [← exists_gapsOf_kept not_doubled_nil, last, exists_gapsOf, or_iff_right not_doubled_nil]
  rw [← exists_kept (fun single : Single [] => not_hardEnd_nil single.1) inner,
    ← exists_kept not_hardEnd_nil inner]
  have calm : (∀ pair ∈ inner, ¬ Doubled pair.2) ↔ ∀ pair ∈ kept inner, ¬ Doubled pair.2 := by
    have either := (exists_kept not_doubled_nil inner).not
    push Not at either
    exact either.symm
  rw [calm]
  unfold Stops
  rw [last]
  rcases kept_cases inside with none | ⟨front, pair, parts, behind⟩
  · rw [none]
    simp
  · have blanks : (∀ gap ∈ gapsOf [] (inner ++ [(c, [])]), ¬ [' ', ' '] <:+: gap) ↔
        ∀ pair ∈ kept inner, ¬ Doubled pair.2 := by
      constructor
      · intro none pair member twice
        have there : pair ∈ inner := (kept_front inner).subset member
        refine none pair.2
          (List.mem_cons_of_mem [] (List.mem_map_of_mem (List.mem_append_left _ there))) ?_
        exact plain pair there twice
      · intro none gap member twice
        obtain ⟨pair, there, twice⟩ := doubled.1 ⟨gap, member, .inl twice⟩
        exact none pair there twice
    have settled : Settled [] (inner ++ [(c, [])]) ↔
        endsBlank pair.2 = false ∧ ((∃ pair ∈ kept inner, Doubled pair.2) → pair.2.length < 2) := by
      have at_end : rear [] (kept (inner ++ [(c, [])])) = pair.2 := by rw [last, parts, rear_concat]
      constructor
      · rintro ⟨-, ends, calm⟩
        rw [at_end] at ends
        rw [doubled, at_end] at calm
        exact ⟨ends, fun twice => (calm twice).2⟩
      · rintro ⟨ends, calm⟩
        refine ⟨rfl, at_end ▸ ends, fun twice => ?_⟩
        rw [at_end]
        exact ⟨Nat.two_pos, calm (doubled.1 twice)⟩
    have some_pair : front ++ [pair] ≠ [] := List.append_ne_nil_of_right_ne_nil front
      (List.cons_ne_nil pair [])
    have at_end : pair ∈ front ++ [pair] := List.mem_append_right front List.mem_cons_self
    rw [blanks, settled, parts, rear_concat, List.dropLast_concat]
    constructor
    · rintro (⟨none, -⟩ | ⟨-, ends, calm⟩ | ⟨other, member, single⟩ | ⟨-, ⟨other, member, hard⟩,
        calm, -⟩)
      · exact absurd none some_pair
      · by_cases twice : ∃ other ∈ front ++ [pair], Doubled other.2
        · exact .inl ⟨pair, at_end, ⟨behind, ends⟩, calm twice⟩
        · push Not at twice
          exact .inr ⟨⟨pair, at_end, behind, ends⟩, twice⟩
      · exact .inl ⟨other, List.mem_append_left _ member, single⟩
      · exact .inr ⟨⟨other, List.mem_append_left _ member, hard⟩, calm⟩
    · rintro (⟨other, member, single⟩ | ⟨⟨other, member, hard⟩, calm⟩)
      · rcases List.mem_append.1 member with before | last
        · exact .inr (.inr (.inl ⟨other, before, single⟩))
        · obtain rfl := List.mem_singleton.1 last
          exact .inr (.inl ⟨some_pair, single.1.2, fun _ => single.2⟩)
      · cases ends : endsBlank pair.2 with
        | false =>
          exact .inr (.inl
            ⟨some_pair, rfl, fun ⟨pair, member, twice⟩ => absurd twice (calm pair member)⟩)
        | true =>
          rcases List.mem_append.1 member with before | last
          · exact .inr (.inr (.inr ⟨rfl, ⟨other, before, hard⟩, calm,
              fun pair inside => calm pair (List.mem_append_left _ inside)⟩))
          · obtain rfl := List.mem_singleton.1 last
            exact nomatch ends.symm.trans hard.2

theorem puncts_kept (puncts : Puncts rest) : Puncts (kept rest) :=
  fun pair member => puncts pair ((kept_front rest).subset member)

theorem puncts_mapGaps (puncts : Puncts rest) (f : Text → Text) : Puncts (mapGaps f rest) :=
  List.forall_mem_map.2 puncts

/-- What is behind a fix of the boundaries, of other gaps. -/
theorem closed_mapGaps_concat (f : Text → Text) (front : List (Char × Text)) (pair : Char × Text) :
    closed (mapGaps f (front ++ [pair])) = mapGaps f front ++ [(pair.1, [])] := by
  rw [mapGaps, List.map_append, List.map_singleton, closed_concat]
  rfl

theorem puncts_closed {front : List (Char × Text)} {pair : Char × Text}
    (puncts : Puncts (front ++ [pair])) (f : Text → Text) :
    Puncts (mapGaps f front ++ [(pair.1, [])]) := by
  intro other member
  rcases List.mem_append.1 member with before | last
  · exact puncts_mapGaps (fun pair inside => puncts pair (List.mem_append_left _ inside))
      f other before
  · rw [List.mem_singleton.1 last]
    exact puncts pair (List.mem_append_right front List.mem_cons_self)

section Squeezed

variable {unicode : Unicode} {gap : Text}

/-- What a pass makes of a gap, where white space is put together. -/
def squeezed (unicode : Unicode) (gap : Text) : Text := changeTabs (changeMultipleBlanks unicode gap)

theorem squeezed_eq_nil : squeezed unicode gap = [] ↔ gap = [] :=
  changeTabs_eq_nil.trans changeMultipleBlanks_eq_nil

theorem length_squeezed (spaces : ∀ c ∈ gap, unicode.isSpace c = true) :
    (squeezed unicode gap).length < 2 := by
  refine (length_changeTabs_le _).trans_lt ?_
  rw [changeMultipleBlanks_eq spaces]
  split
  · assumption
  · exact Nat.one_lt_two

theorem single_squeezed (spaces : ∀ c ∈ gap, unicode.isSpace c = true) :
    Single (squeezed unicode gap) ↔ Single gap := by
  have ends : endsBlank (squeezed unicode gap) = false ↔ gap.length < 2 ∧ endsBlank gap = false := by
    rw [squeezed, endsBlank_changeTabs]
    exact short_iff spaces endsBlank rfl
  unfold Single HardEnd
  rw [Ne, squeezed_eq_nil, ends, iff_true_intro (length_squeezed spaces)]
  tauto

theorem squeezed_parts (rest : List (Char × Text)) :
    mapGaps changeTabs (kept (mapGaps (changeMultipleBlanks unicode) rest)) = mapGaps
    (squeezed unicode) (kept rest) := by
  rw [kept_mapGaps (fun _ => changeMultipleBlanks_eq_nil), mapGaps, mapGaps, List.map_map]
  rfl

/-- **A pass in which white space is put together** keeps what stops. -/
theorem stops_squeezed (puncts : Puncts rest)
    (spaces : ∀ gap ∈ gapsOf lead rest, ∀ c ∈ gap, unicode.isSpace c = true)
    (blanks : ∃ gap ∈ gapsOf lead rest, [' ', ' '] <:+: gap) (some_kept : kept rest ≠ []) :
    Stops (trimmed (squeezed unicode lead) (mapGaps (squeezed unicode) (kept rest))).1
        (trimmed (squeezed unicode lead) (mapGaps (squeezed unicode) (kept rest))).2 ↔
        Stops lead rest := by
  obtain ⟨twice, member, together⟩ := blanks
  have doubled : ∃ gap ∈ gapsOf lead rest, Doubled gap := ⟨twice, member, .inl together⟩
  have same : Settled (squeezed unicode lead) (mapGaps (squeezed unicode) (kept rest)) ↔
      Settled lead rest := by
    rw [← squeezed_parts]
    exact settled_changeTabs.trans (settled_kept.trans (settled_changeMultipleBlanks spaces doubled))
  have whole : kept (mapGaps (squeezed unicode) (kept rest)) = mapGaps (squeezed unicode)
      (kept rest) := by
    rw [kept_mapGaps (fun _ => squeezed_eq_nil), kept_kept]
  by_cases settled : Settled lead rest
  · have there := same.2 settled
    rw [trimmed, there.boundaries, if_neg Bool.false_ne_true]
    refine iff_of_true (.inr (.inl ⟨?_, there⟩)) (.inr (.inl ⟨some_kept, settled⟩))
    rw [whole, Ne, mapGaps_eq_nil]
    exact some_kept
  · obtain ⟨front, pair, parts, -⟩ := (kept_cases puncts).resolve_left some_kept
    have inside {other : Char × Text} (member : other ∈ front) : other.2 ∈ gapsOf lead rest := by
      refine List.mem_cons_of_mem lead (List.mem_map_of_mem ((kept_front rest).subset ?_))
      rw [parts]
      exact List.mem_append_left _ member
    have short : ∀ gap ∈ gapsOf (squeezed unicode lead) (mapGaps (squeezed unicode) (kept rest)),
        gap.length < 2 := by
      intro gap member
      rw [gapsOf_mapGaps] at member
      obtain ⟨other, there, rfl⟩ := List.mem_map.1 member
      refine length_squeezed (spaces other ?_)
      rcases List.mem_cons.1 there with rfl | behind
      · exact List.mem_cons_self
      · exact List.mem_cons_of_mem lead (((kept_front rest).map _).subset behind)
    -- Nothing is doubled any more, so that it is the boundaries that are not settled.
    have boundaries : (beginsBlank (squeezed unicode lead) ||
        endsBlank (rear (squeezed unicode lead) (mapGaps (squeezed unicode) (kept rest)))) = true := by
      rw [← Bool.not_eq_false, Bool.or_eq_false_iff]
      rintro ⟨begins, ends⟩
      refine settled (same.1 ⟨begins, whole.symm ▸ ends, ?_⟩)
      rintro ⟨gap, member, twice⟩
      exact absurd twice (not_doubled_of_short (short gap member))
    have plain : ∀ other ∈ mapGaps (squeezed unicode) front, other.2.length < 2 :=
      List.forall_mem_map.2 fun other member => length_squeezed (spaces _ (inside member))
    have closed := stops_closed (puncts_closed (parts ▸ puncts_kept puncts) (squeezed unicode))
      fun other member twice => absurd twice (not_doubled_of_short (plain other member))
    have singles : (∃ other ∈ mapGaps (squeezed unicode) front, Single other.2) ↔ ∃ other ∈ front,
        Single other.2 := by
      rw [exists_mapGaps]
      exact exists_congr fun other => and_congr_right fun member =>
        single_squeezed (spaces _ (inside member))
    rw [trimmed, boundaries, if_pos rfl]
    dsimp only
    rw [parts, closed_mapGaps_concat, closed, singles, Stops, parts, List.dropLast_concat]
    constructor
    · rintro (single | ⟨⟨other, member, hard⟩, -⟩)
      · exact .inr (.inr (.inl single))
      · exact .inr (.inr (.inl (singles.1 ⟨other, member, hard, plain other member⟩)))
    · rintro (⟨none, -⟩ | ⟨-, is⟩ | single | ⟨-, -, none, -⟩)
      · exact absurd none (List.append_ne_nil_of_right_ne_nil front (List.cons_ne_nil pair []))
      · exact absurd is settled
      · exact .inl single
      · exact absurd together (none twice member)

end Squeezed

/-- **A pass in which no white space is put together** keeps what stops. -/
theorem stops_tabs (puncts : Puncts rest) (begins : beginsBlank lead = false)
    (none : ∀ gap ∈ gapsOf lead rest, ¬ [' ', ' '] <:+: gap) (some_kept : kept rest ≠ []) :
    Stops (trimmed (changeTabs lead) (mapGaps changeTabs (kept rest))).1
        (trimmed (changeTabs lead) (mapGaps changeTabs (kept rest))).2 ↔ Stops lead rest := by
  have whole : kept (mapGaps changeTabs (kept rest)) = mapGaps changeTabs (kept rest) := by
    rw [kept_mapGaps (fun _ => changeTabs_eq_nil), kept_kept]
  rw [trimmed, beginsBlank_changeTabs, begins, Bool.false_or, rear_mapGaps, endsBlank_changeTabs]
  cases ends : endsBlank (rear lead (kept rest)) with
  | false =>
    have same : Settled (changeTabs lead) (mapGaps changeTabs (kept rest)) ↔ Settled lead rest :=
      settled_changeTabs.trans settled_kept
    rw [if_neg Bool.false_ne_true]
    unfold Stops
    dsimp only
    rw [whole, same, dropLast_mapGaps, exists_mapGaps, rear_mapGaps, endsBlank_changeTabs, ends]
    simp only [ne_eq, mapGaps_eq_nil, single_changeTabs, some_kept, Bool.false_eq_true, false_and]
  | true =>
    obtain ⟨front, pair, parts, -⟩ := (kept_cases puncts).resolve_left some_kept
    have closed := stops_closed (puncts_closed (parts ▸ puncts_kept puncts) changeTabs)
      (List.forall_mem_map.2 fun other member twice =>
        (blanks_changeTabs other.2).2 (doubled_changeTabs.1 twice))
    have calm : (∀ other ∈ mapGaps changeTabs front, ¬ Doubled other.2) ↔ ∀ other ∈ front,
        ¬ Doubled other.2 := by
      rw [mapGaps, List.forall_mem_map]
      simp only [doubled_changeTabs]
    have open_ : ¬ Settled lead rest := fun settled => Bool.noConfusion (ends.symm.trans settled.ends)
    rw [if_pos rfl]
    dsimp only
    rw [parts, closed_mapGaps_concat, closed, exists_mapGaps, exists_mapGaps, calm, Stops, ends, parts,
      List.dropLast_concat]
    simp only [single_changeTabs, hardEnd_changeTabs, List.append_ne_nil_of_right_ne_nil front
      (List.cons_ne_nil pair []), open_, false_and, and_false, false_or, true_and]
    exact or_congr_right (and_congr_right fun _ => (and_iff_right none).symm)

end Punctuation

section Passes

variable {unicode : Unicode} {name : CaseName} {text after : Text}

/-- The fix of the boundaries, where it is made. -/
def trimText (unicode : Unicode) (text : Text) : Text :=
  if checkNoBlanksAtBoundaries text then text else changeNoBlanksAtBoundaries unicode text

/-- The fix of several blanks, where it is made. -/
def squeezeText (unicode : Unicode) (text : Text) : Text :=
  if checkNoMultipleBlanks text then text else changeMultipleBlanks unicode text

/-- The fix of the end, where it is made. -/
def peelText (text : Text) : Option Text :=
  if checkNoPunctuationAtEnd text then some text else changeNoPunctuationAtEnd text

/-- A text of punctuation and white space. -/
def OnlyPuncts (unicode : Unicode) (text : Text) : Prop :=
  ∀ c ∈ visible unicode text, isEndPunct c = true

theorem OnlyPuncts.rest (only : OnlyPuncts unicode text) : Puncts (restOf unicode text) := by
  intro pair member
  refine only pair.1 ?_
  rw [← map_fst_restOf]
  exact List.mem_map_of_mem member

theorem fails_of_mem {flags : Finset Check} {check : Check} (listed : check ∈ flags) (text : Text) :
    fails unicode flags check text = !passes unicode check text := by
  rw [fails, decide_eq_true listed, Bool.true_and]

/-- **A pass over a text of punctuation.** -/
theorem onePass_puncts (listed : .nopnt ∈ flagsOf name) (only : OnlyPuncts unicode text) :
    (onePass (fails unicode (flagsOf name)) (change unicode) fixes text false).map Prod.fst =
      (peelText (squeezeText unicode (trimText unicode text))).map changeTabs := by
  obtain ⟨nopnt, noblk, mtblk, tabs, noUrl⟩ := blanks_mem (.inl listed)
  have high : fails unicode (flagsOf name) .capit text = false := by
    cases failed : fails unicode (flagsOf name) .capit text with
    | false => rfl
    | true =>
      obtain ⟨c, rest, -, lower, seen⟩ := lower_of_failed ((fails_iff _).1 failed).2
      have punct := only c (seen ▸ List.mem_cons_self)
      exact (lower_not_endPunct unicode lower punct).elim
  have address (text : Text) : fails unicode (flagsOf name) .url text = false := by
    rw [fails, decide_eq_false noUrl, Bool.false_and]
  have some_ite (kind : Bool) (kept changed : Text) :
      (if (!kind) = true then some changed else some kept) =
          some (if kind then kept else changed) := by
    cases kind <;> rfl
  have trim : (if fails unicode (flagsOf name) .noblk text then
      change unicode .noblk text else some text) = some (trimText unicode text) := by
    rw [fails_of_mem noblk]
    exact some_ite _ _ _
  have put (text : Text) :
      (if fails unicode (flagsOf name) .mtblk text then change unicode .mtblk text else some text) =
          some (squeezeText unicode text) := by
    rw [fails_of_mem mtblk]
    exact some_ite _ _ _
  have peel (text : Text) :
      (if fails unicode (flagsOf name) .nopnt text then change unicode .nopnt text else some text) =
          peelText text := by
    rw [fails_of_mem nopnt, peelText]
    change (if (!checkNoPunctuationAtEnd text) = true then changeNoPunctuationAtEnd text else
      some text) = _
    cases checkNoPunctuationAtEnd text <;> rfl
  have blank (text : Text) :
      (if fails unicode (flagsOf name) .tabs text then change unicode .tabs text else some text) =
          some (changeTabs text) := by
    rw [fails_of_mem tabs]
    refine (some_ite _ _ _).trans (congrArg some ?_)
    split
    · rename_i none
      exact (changeTabs_of_none (by simpa [passes, checkTabs] using none)).symm
    · rfl
  rw [onePass_map_fst]
  simp only [fixes, List.foldlM_cons, List.foldlM_nil, high, trim, put, peel, address, blank,
    Bool.false_eq_true, if_false, Option.bind_eq_bind, Option.bind_some, Option.pure_def]
  cases peelText (squeezeText unicode (trimText unicode text)) <;> rfl

theorem gaps_trimText (only : OnlyPuncts unicode text) (seen : visible unicode text ≠ []) :
    (leadOf unicode (trimText unicode text), restOf unicode (trimText unicode text)) =
      trimmed (leadOf unicode text) (restOf unicode text) := by
  have plain : ∀ c ∈ visible unicode text, isNewline c = false := by
    intro c member
    have ascii : isAsciiPunct c = true := (Bool.and_eq_true_iff.1 (only c member)).2
    unfold isAsciiPunct at ascii
    unfold isNewline
    simp only [Bool.or_eq_true, Bool.and_eq_true, decide_eq_true_eq] at ascii
    simp only [Bool.or_eq_false_iff, Bool.and_eq_false_iff, decide_eq_false_iff_not]
    omega
  have parts := gaps_changeNoBlanksAtBoundaries seen plain
  rw [trimText, trimmed, checkNoBlanksAtBoundaries_eq unicode]
  cases beginsBlank (leadOf unicode text) ||
    endsBlank (rear (leadOf unicode text) (restOf unicode text)) with
  | false => rfl
  | true => exact congrArg₂ Prod.mk parts.1 parts.2

theorem visible_trimText (unicode : Unicode) (text : Text) :
    visible unicode (trimText unicode text) = visible unicode text := by
  unfold trimText
  split
  · rfl
  · exact visible_changeNoBlanksAtBoundaries unicode text

theorem visible_squeezeText (unicode : Unicode) (text : Text) :
    visible unicode (squeezeText unicode text) = visible unicode text := by
  unfold squeezeText
  split
  · rfl
  · exact visible_changeMultipleBlanks unicode text

/-- What the fix of the end leaves. -/
theorem peelText_some (unicode : Unicode) (peeled : peelText text = some after) :
    after = text.rdropWhile isEndPunct ∧
      (visible unicode text ≠ [] → kept (restOf unicode text) = [] → leadOf unicode text ≠ []) := by
  have parts := gaps_rdropWhile_isEndPunct unicode text
  unfold peelText at peeled
  split at peeled
  · rename_i passed
    have same := (checkNoPunctuationAtEnd_iff unicode text).1 passed
    obtain rfl := Option.some.inj peeled
    refine ⟨?_, fun seen none => absurd (restOf_eq_nil.1 (same ▸ none)) seen⟩
    rw [← spell_gaps unicode.isSpace (text.rdropWhile isEndPunct)]
    change text = spell (leadOf unicode (text.rdropWhile isEndPunct))
      (restOf unicode (text.rdropWhile isEndPunct))
    rw [parts.1, parts.2, same]
    exact (spell_gaps unicode.isSpace text).symm
  · unfold changeNoPunctuationAtEnd at peeled
    simp only [Option.ite_none_left_eq_some, Option.some.injEq] at peeled
    obtain ⟨nonempty, rfl⟩ := peeled
    refine ⟨rfl, fun _ none empty => nonempty ?_⟩
    rw [← spell_gaps unicode.isSpace (text.rdropWhile isEndPunct)]
    change spell (leadOf unicode (text.rdropWhile isEndPunct))
      (restOf unicode (text.rdropWhile isEndPunct)) = []
    rw [parts.1, parts.2, empty, none]
    rfl

/-- Where it looks in front of the text. -/
theorem peelText_none (unicode : Unicode) (peeled : peelText text = none) :
    visible unicode text ≠ [] ∧ leadOf unicode text = [] ∧ kept (restOf unicode text) = [] := by
  have parts := gaps_rdropWhile_isEndPunct unicode text
  unfold peelText at peeled
  split at peeled
  · exact nomatch peeled
  · rename_i failed
    have none : text.rdropWhile isEndPunct = [] := by
      by_contra some_char
      rw [changeNoPunctuationAtEnd, if_neg some_char] at peeled
      exact nomatch peeled
    rw [none] at parts
    refine ⟨fun unseen => failed ?_, parts.1.symm, parts.2.symm⟩
    rw [checkNoPunctuationAtEnd_iff unicode, restOf_eq_nil.2 unseen]
    rfl

/-- Nothing is seen, or what is there stops. -/
def Well (unicode : Unicode) (text : Text) : Prop :=
  visible unicode text = [] ∨
    Stops (trimmed (leadOf unicode text) (restOf unicode text)).1
      (trimmed (leadOf unicode text) (restOf unicode text)).2

/-- The gaps behind a pass, and whether white space was put together. -/
theorem gaps_squeezeText (text : Text) :
    ((∃ gap ∈ gapsOf (leadOf unicode text) (restOf unicode text), [' ', ' '] <:+: gap) ∧
        leadOf unicode (squeezeText unicode text) = changeMultipleBlanks unicode
        (leadOf unicode text) ∧ restOf unicode (squeezeText unicode text) = mapGaps
      (changeMultipleBlanks unicode) (restOf unicode text)) ∨
        ((∀ gap ∈ gapsOf (leadOf unicode text) (restOf unicode text), ¬ [' ', ' '] <:+: gap) ∧
        squeezeText unicode text = text) := by
  have iff := checkNoMultipleBlanks_iff unicode text
  unfold squeezeText
  cases passed : checkNoMultipleBlanks text with
  | false => exact .inl ⟨iff.1 passed, gaps_changeMultipleBlanks unicode text⟩
  | true =>
    refine .inr ⟨fun gap member blanks => ?_, rfl⟩
    exact nomatch passed.symm.trans (iff.2 ⟨gap, member, blanks⟩)

theorem kept_squeezeText (text : Text) :
    (kept (restOf unicode (squeezeText unicode text)) = [] ↔ kept (restOf unicode text) = []) ∧
      (leadOf unicode (squeezeText unicode text) = [] ↔ leadOf unicode text = []) := by
  rcases gaps_squeezeText text with ⟨-, front, behind⟩ | ⟨-, same⟩
  · rw [front, behind, kept_mapGaps (fun _ => changeMultipleBlanks_eq_nil), mapGaps_eq_nil]
    exact ⟨Iff.rfl, changeMultipleBlanks_eq_nil⟩
  · rw [same]
    exact ⟨Iff.rfl, Iff.rfl⟩

theorem trimmed_begins (lead : Text) (rest : List (Char × Text)) :
    beginsBlank (trimmed lead rest).1 = false := by
  unfold trimmed
  cases boundary : beginsBlank lead || endsBlank (rear lead rest) with
  | true => rfl
  | false => exact (Bool.or_eq_false_iff.1 boundary).1

/-- A pass that can be made keeps what stops. -/
theorem well_pass (only : OnlyPuncts unicode text) (seen : visible unicode text ≠ []) {fixed : Text}
    (peeled : peelText (squeezeText unicode (trimText unicode text)) = some fixed) :
    Well unicode (changeTabs fixed) ↔ Well unicode text := by
  have parts := gaps_trimText only seen
  have seen' : visible unicode (trimText unicode text) ≠ [] :=
    (visible_trimText unicode text).symm ▸ seen
  have only' : OnlyPuncts unicode (trimText unicode text) := fun c member =>
    only c (visible_trimText unicode text ▸ member)
  have begins : beginsBlank (leadOf unicode (trimText unicode text)) = false := by
    rw [show leadOf unicode (trimText unicode text) = _ from congrArg Prod.fst parts]
    exact trimmed_begins _ _
  have well : Well unicode text ↔ Stops (leadOf unicode (trimText unicode text))
      (restOf unicode (trimText unicode text)) := by
    rw [Well, or_iff_right seen, ← parts]
  rw [well]
  generalize trimText unicode text = trim at *
  obtain ⟨rfl, inside⟩ := peelText_some unicode peeled
  have peeled' := gaps_rdropWhile_isEndPunct unicode (squeezeText unicode trim)
  have blanked := gaps_changeTabs unicode ((squeezeText unicode trim).rdropWhile isEndPunct)
  rw [peeled'.1, peeled'.2] at blanked
  have unseen : visible unicode (changeTabs ((squeezeText unicode trim).rdropWhile isEndPunct)) = [] ↔
      kept (restOf unicode trim) = [] := by
    rw [← restOf_eq_nil, blanked.2, mapGaps_eq_nil, (kept_squeezeText trim).1]
  by_cases none : kept (restOf unicode trim) = []
  · -- What is left is white space.
    refine iff_of_true (.inl (unseen.2 none)) (.inl ⟨none, fun empty => ?_⟩)
    refine inside ?_ ((kept_squeezeText trim).1.2 none) ((kept_squeezeText trim).2.2 empty)
    rw [visible_squeezeText]
    exact seen'
  · rw [Well, or_iff_right (unseen.not.2 none), blanked.1, blanked.2]
    rcases gaps_squeezeText trim with ⟨blanks, front, behind⟩ | ⟨single, same⟩
    · rw [front, behind, squeezed_parts]
      exact stops_squeezed only'.rest (fun gap member => spaces_of_mem member) blanks none
    · rw [same]
      exact stops_tabs only'.rest begins single none

/-- A pass that looks in front of the text did not stop. -/
theorem not_well_of_unmade (only : OnlyPuncts unicode text)
    (peeled : peelText (squeezeText unicode (trimText unicode text)) = none) :
    ¬ Well unicode text := by
  obtain ⟨seen, empty, none⟩ := peelText_none unicode peeled
  rw [visible_squeezeText, visible_trimText] at seen
  have parts := gaps_trimText only seen
  have bare := (kept_squeezeText _).1.1 none
  rw [Well, or_iff_right seen, ← parts]
  rintro (⟨-, some_space⟩ | ⟨some_kept, -⟩ | ⟨pair, member, -⟩ | ⟨-, ⟨pair, member, -⟩, -⟩)
  · exact some_space ((kept_squeezeText _).2.1 empty)
  · exact some_kept bare
  · rw [bare] at member
    exact nomatch member
  · rw [bare] at member
    exact nomatch member

/-- **A text of punctuation** is fixed if and only if something stops the fix of its end. -/
theorem puncts_ends_iff (listed : .nopnt ∈ flagsOf name) (only : OnlyPuncts unicode text) :
    Ends unicode name text ↔ Well unicode text := by
  obtain ⟨-, -, -, -, noUrl⟩ := blanks_mem (.inl listed)
  have makes : ∀ check ∈ fixes, ∀ text after, OnlyPuncts unicode text →
      fails unicode (flagsOf name) check text = true → change unicode check text = some after →
      OnlyPuncts unicode after ∧ level unicode (flagsOf name) after <
          level unicode (flagsOf name) text := by
    intro check known text after only failed changed
    obtain ⟨inside, failed'⟩ := (fails_iff check).1 failed
    have blanks (blank : check ∈ [.noblk, .mtblk, .tabs]) :
        OnlyPuncts unicode after ∧ level unicode (flagsOf name) after <
            level unicode (flagsOf name) text := by
      have other : check ∉ [.capit, .nopnt, .url] := by
        revert blank
        cases check <;> decide
      have seen := visible_change other changed
      exact ⟨fun c member => only c (seen ▸ member), level_lt_blanks noUrl blank failed changed⟩
    cases check with
    | capit =>
      obtain ⟨c, rest, -, lower, seen⟩ := lower_of_failed failed'
      have punct := only c (seen ▸ List.mem_cons_self)
      exact (lower_not_endPunct unicode lower punct).elim
    | noblk | mtblk | tabs => exact blanks (by decide)
    | nopnt =>
      change changeNoPunctuationAtEnd text = some after at changed
      unfold changeNoPunctuationAtEnd at changed
      simp only [Option.ite_none_left_eq_some, Option.some.injEq] at changed
      obtain ⟨-, rfl⟩ := changed
      refine ⟨fun c member => only c ?_, level_lt_nopnt noUrl failed'⟩
      exact ((List.rdropWhile_prefix isEndPunct text).sublist.filter _).subset member
    | url => exact absurd inside noUrl
    | empty | email | filen | labelHotkey => exact absurd known (by decide)
  refine untilDone_iff makes (fun text after _ only passed => ?_) (fun text only passed => ?_)
    (fun text only fine => ?_) only
  · have made := onePass_puncts listed only
    rw [passed, Option.map_some] at made
    obtain ⟨fixed, peeled, rfl⟩ := Option.map_eq_some_iff.1 made.symm
    by_cases seen : visible unicode text = []
    · refine iff_of_true (.inl ?_) (.inl seen)
      obtain ⟨rfl, -⟩ := peelText_some unicode peeled
      rw [visible_changeTabs]
      have fewer := ((List.rdropWhile_prefix isEndPunct
        (squeezeText unicode (trimText unicode text))).sublist.filter fun c =>
          !unicode.isSpace c).subset
      refine List.eq_nil_iff_forall_not_mem.2 fun c member => ?_
      have there : c ∈ visible unicode (squeezeText unicode (trimText unicode text)) := fewer member
      rw [visible_squeezeText, visible_trimText, seen] at there
      exact nomatch there
    · exact well_pass only seen peeled
  · have made := onePass_puncts listed only
    rw [passed, Option.map_none] at made
    exact not_well_of_unmade only (Option.map_eq_none_iff.1 made.symm)
  · by_cases seen : visible unicode text = []
    · exact .inl seen
    · obtain ⟨settled, same⟩ := settled_of_fine (.inl listed) fine
      refine .inr ?_
      rw [trimmed, settled.boundaries, if_neg Bool.false_ne_true]
      refine .inr (.inl ⟨?_, settled⟩)
      rw [same]
      exact fun none => seen (restOf_eq_nil.1 none)

end Passes

section Result

variable {unicode : Unicode} {name : CaseName} {text : Text}

/-- **The passes over a part end if and only if it mends.** -/
theorem ends_iff : Ends unicode name text ↔ Mends unicode (flagsOf name) text := by
  by_cases puncts : .nopnt ∈ flagsOf name ∧ visible unicode text ≠ [] ∧ OnlyPuncts unicode text
  · obtain ⟨listed, seen, only⟩ := puncts
    rw [puncts_ends_iff listed only, Well, or_iff_right seen]
    refine ⟨fun stops => ⟨fun _ _ _ => stops, fun _ c head lower _ => ?_⟩, fun mends =>
      mends.ends listed seen only⟩
    have punct := only c (List.mem_of_mem_head? head)
    exact (lower_not_endPunct unicode lower punct).elim
  · have ends (listed : .nopnt ∈ flagsOf name) :
        visible unicode text = [] ∨ ∃ c ∈ visible unicode text, isEndPunct c = false := by
      refine or_iff_not_imp_left.2 fun seen => ?_
      by_contra none
      push Not at none
      exact puncts ⟨listed, seen, fun c member => by simpa using none c member⟩
    by_cases stuck : ∃ c, .capit ∈ flagsOf name ∧ (visible unicode text).head? = some c ∧
        unicode.isLower c = true ∧ unicode.upper c = [c]
    · obtain ⟨c, listed, head, lower, same⟩ := stuck
      rw [stuck_ends_iff listed lower same head]
      refine ⟨fun hidden =>
        ⟨fun is seen only => absurd ⟨is, seen, only⟩ puncts, fun _ _ _ _ _ => hidden⟩, fun mends =>
          mends.begins listed c head lower same⟩
    · refine iff_of_true (fixable_ends ⟨ends, fun listed c head lower same => ?_⟩)
        ⟨fun is seen only => absurd ⟨is, seen, only⟩ puncts, fun listed c head lower same => ?_⟩
      · exact stuck ⟨c, listed, head, lower, same⟩
      · exact absurd ⟨c, listed, head, lower, same⟩ stuck

/-- **Where the fixes work**: for the texts whose parts mend. -/
theorem fix_iff (unicode : Unicode) (name : CaseName) (value : Text) : Works unicode name value ↔
    (canFix name value = true → ∀ part ∈ partsOf name value, Mends unicode (flagsOf name) part) := by
  simp only [works_iff, ends_iff]

/-- Three points are looked for in front of the text, and a letter without an upper case is fixed
for ever. -/
theorem dots_and_kra :
    ¬ Works smallUnicode .title "...".toList ∧ ¬ Works smallUnicode .title ['ĸ'] := by
  constructor
  · intro works
    have mends := ends_iff.1 (works_iff.1 works rfl _ List.mem_cons_self)
    have parts : trimmed (leadOf smallUnicode "...".toList) (restOf smallUnicode "...".toList) =
        ([], [('.', []), ('.', []), ('.', [])]) := by decide +kernel
    have puncts : (visible smallUnicode "...".toList).all isEndPunct = true := by decide +kernel
    have stops := mends.ends (by decide) (by decide +kernel) (List.all_eq_true.1 puncts)
    rw [parts, Stops, show kept [('.', []), ('.', []), ('.', [])] = [] from by decide] at stops
    simp at stops
  · intro works
    have mends := ends_iff.1 (works_iff.1 works rfl _ List.mem_cons_self)
    exact (mends.begins (by decide) 'ĸ' (by decide +kernel) (by decide +kernel)
      (by decide +kernel)).1 (by decide +kernel)

end Result

end Gebr.Menu
