/-
**The white space of a text that is fixed.**

A text is white space, and visible characters each with the white space behind it. The checks and
fixes of white space look at these gaps, and the fix of the end at the characters with nothing
behind them.

* `leadOf`, `restOf`: the gap in front, and the visible characters with their gaps.
* `kept`: what is left without the punctuation at the end.
* `Doubled`: a gap with two blanks next to each other, once its tabs are blanks.
* `HardEnd`, `Single`: a gap that ends in white space which is no blank and no tab, and one that is
  nothing else.
* `length_changeTabs_iff`, `blanks_changeTabs`, …: what becomes of a gap.
* `gaps_changeTabs`, `gaps_changeMultipleBlanks`, `gaps_changeNoBlanksAtBoundaries`,
  `gaps_rdropWhile_isEndPunct`: **what becomes of a text**.
* `checkNoBlanksAtBoundaries_eq`, `checkNoMultipleBlanks_iff`, `checkTabs_iff`,
  `checkNoPunctuationAtEnd_iff`: what the checks look at.
-/

import Gebr.Lib.Gaps
import Gebr.Menu.CaseFix

namespace Gebr.Menu

open Gebr.Lib.Gaps Gebr.Lib.Squeeze

section Definitions

/-- The white space in front. -/
def leadOf (unicode : Unicode) (text : Text) : Text := (gaps unicode.isSpace text).1

/-- The visible characters, each with the white space behind it. -/
def restOf (unicode : Unicode) (text : Text) : List (Char × Text) := (gaps unicode.isSpace text).2

/-- Punctuation with nothing behind it. -/
def bare (pair : Char × Text) : Bool := isEndPunct pair.1 && pair.2.isEmpty

/-- What is left without the punctuation at the end. -/
def kept (rest : List (Char × Text)) : List (Char × Text) := rest.rdropWhile bare

/-- All gaps. -/
def gapsOf (lead : Text) (rest : List (Char × Text)) : List Text := lead :: rest.map Prod.snd

def beginsBlank (gap : Text) : Bool := gap.head?.any isBlank

def endsBlank (gap : Text) : Bool := gap.getLast?.any isBlank

/-- Two blanks next to each other, once tabs are blanks; tabs next to each other become one. -/
def Doubled (gap : Text) : Prop := [' ', ' '] <:+: gap ∨ [' ', '\t'] <:+: gap ∨ ['\t', ' '] <:+: gap

/-- The last of the white space is no blank and no tab. -/
def HardEnd (gap : Text) : Prop := gap ≠ [] ∧ endsBlank gap = false

/-- White space of one character, which is no blank and no tab. -/
def Single (gap : Text) : Prop := HardEnd gap ∧ gap.length < 2

end Definitions

section Gaps

variable {gap : Text}

theorem beginsBlank_changeTabs (gap : Text) : beginsBlank (changeTabs gap) = beginsBlank gap := by
  unfold beginsBlank changeTabs
  rw [head?_squeeze_one]
  cases gap.head? with
  | none => rfl
  | some c =>
    by_cases tab : c = '\t'
    · subst tab
      rfl
    · simp [tab]

theorem endsBlank_changeTabs (gap : Text) : endsBlank (changeTabs gap) = endsBlank gap := by
  unfold endsBlank changeTabs
  rw [getLast?_squeeze_one]
  cases gap.getLast? with
  | none => rfl
  | some c =>
    by_cases tab : c = '\t'
    · subst tab
      rfl
    · simp [tab]

theorem not_tab {c : Char} (other : c ≠ '\t') : (fun d : Char => decide (d = '\t')) c = false :=
  decide_eq_false other

theorem changeTabs_cons {c : Char} (other : c ≠ '\t') (text : Text) :
    changeTabs (c :: text) = c :: changeTabs text :=
  squeeze_cons_neg Nat.one_pos (not_tab other)

theorem changeTabs_append_cons {c : Char} (other : c ≠ '\t') (front back : Text) :
    changeTabs (front ++ c :: back) = changeTabs front ++ c :: changeTabs back :=
  @squeeze_append_cons _ _ 1 ' ' _ (not_tab other) front back

theorem changeTabs_eq_nil : changeTabs gap = [] ↔ gap = [] := squeeze_eq_nil Nat.one_pos

theorem hardEnd_changeTabs : HardEnd (changeTabs gap) ↔ HardEnd gap := by
  unfold HardEnd
  rw [endsBlank_changeTabs, Ne, changeTabs_eq_nil]

theorem changeTabs_of_none {text : Text} (none : '\t' ∉ text) : changeTabs text = text :=
  squeeze_of_other Nat.one_pos fun _ member => decide_eq_false (ne_of_mem_of_not_mem member none)

/-- A gap that begins or ends with other white space stays as long as one character, or longer. -/
theorem length_changeTabs_iff (other : beginsBlank gap = false ∨ HardEnd gap) :
    (changeTabs gap).length < 2 ↔ gap.length < 2 := by
  refine ⟨fun short => Nat.not_le.1 fun long => ?_, (length_changeTabs_le gap).trans_lt⟩
  rcases other with begins | ⟨some_space, ends⟩
  · match gap, long with
    | a :: b :: more, _ =>
      have other : a ≠ '\t' := by
        rintro rfl
        exact nomatch begins
      rw [changeTabs_cons other, List.length_cons] at short
      have empty : changeTabs (b :: more) = [] := List.length_eq_zero_iff.1 (by omega)
      exact nomatch changeTabs_eq_nil.1 empty
  · obtain ⟨front, c, rfl⟩ := (List.eq_nil_or_concat' gap).resolve_left some_space
    have other : c ≠ '\t' := by
      rintro rfl
      simp [endsBlank, isBlank] at ends
    rw [changeTabs_append_cons other, List.length_append, List.length_cons] at short
    rw [List.length_append, List.length_singleton] at long
    have empty : changeTabs front = [] := List.length_eq_zero_iff.1 (by omega)
    rw [changeTabs_eq_nil.1 empty] at long
    exact absurd long (by decide)

theorem single_changeTabs : Single (changeTabs gap) ↔ Single gap := by
  unfold Single
  rw [hardEnd_changeTabs]
  exact and_congr_right fun hard => length_changeTabs_iff (.inr hard)

theorem pair_cons_iff (a b c : Char) (text : Text) :
    [a, b] <:+: c :: text ↔ (a = c ∧ text.head? = some b) ∨ [a, b] <:+: text := by
  rw [List.infix_cons_iff, List.cons_prefix_cons]
  refine or_congr_left (and_congr_right fun _ => ?_)
  cases text with
  | nil => simp
  | cons d text => simp [List.cons_prefix_cons, eq_comm]

theorem head?_changeTabs_iff (text : Text) :
    (changeTabs text).head? = some ' ' ↔ text.head? = some ' ' ∨ text.head? = some '\t' := by
  unfold changeTabs
  rw [head?_squeeze_one]
  cases text.head? with
  | none => simp
  | some c => by_cases tab : c = '\t' <;> simp [tab]

theorem doubled_cons_iff (c : Char) (text : Text) : Doubled (c :: text) ↔
    (c = ' ' ∧ (text.head? = some ' ' ∨ text.head? = some '\t')) ∨ (c = '\t' ∧ text.head? = some ' ') ∨
      Doubled text := by
  unfold Doubled
  rw [pair_cons_iff, pair_cons_iff, pair_cons_iff, @eq_comm _ ' ', @eq_comm _ '\t']
  tauto

/-- Two blanks stand next to each other behind the fix of tabs. -/
theorem blanks_changeTabs (gap : Text) : [' ', ' '] <:+: changeTabs gap ↔ Doubled gap := by
  induction gap with
  | nil => exact iff_of_false (by decide) (not_or.2 ⟨by decide, not_or.2 ⟨by decide, by decide⟩⟩)
  | cons c gap ih =>
    rw [doubled_cons_iff]
    by_cases tab : c = '\t'
    · subst tab
      cases gap with
      | nil =>
        have one : changeTabs ['\t'] = [' '] := squeeze_singleton rfl
        rw [one, ← ih]
        decide
      | cons d gap =>
        by_cases second : d = '\t'
        · subst second
          have same : changeTabs ('\t' :: '\t' :: gap) = changeTabs ('\t' :: gap) :=
            @squeeze_cons_cons _ _ ' ' _ _ rfl rfl gap
          rw [same, ih]
          simp
        · have next : changeTabs ('\t' :: d :: gap) = ' ' :: changeTabs (d :: gap) :=
            @squeeze_cons_pos_neg _ (· = '\t') ' ' _ _ rfl (not_tab second) gap
          have head : (changeTabs (d :: gap)).head? = some ' ' ↔ (d :: gap).head? = some ' ' := by
            rw [head?_changeTabs_iff]
            simp [second]
          rw [next, pair_cons_iff, ih, head]
          simp
    · rw [changeTabs_cons tab, pair_cons_iff, ih, head?_changeTabs_iff, @eq_comm _ ' ']
      simp [tab]

theorem doubled_changeTabs : Doubled (changeTabs gap) ↔ Doubled gap := by
  rw [← blanks_changeTabs, changeTabs_of_none (not_mem_changeTabs gap), blanks_changeTabs]

theorem not_doubled_of_short (short : gap.length < 2) : ¬ Doubled gap := by
  have long {a b : Char} (occurs : [a, b] <:+: gap) : False := absurd occurs.length_le
    (Nat.not_le.2 short)
  rintro (blanks | tab | tab)
  · exact long blanks
  · exact long tab
  · exact long tab

theorem Doubled.tab (doubled : Doubled gap) (none : ¬ [' ', ' '] <:+: gap) : '\t' ∈ gap := by
  rcases doubled with blanks | tab | tab
  · exact absurd blanks none
  · exact tab.subset (by simp)
  · exact tab.subset (by simp)

variable {unicode : Unicode}

/-- A gap of two or more characters becomes a blank. -/
theorem changeMultipleBlanks_eq (spaces : ∀ c ∈ gap, unicode.isSpace c = true) :
    changeMultipleBlanks unicode gap = if gap.length < 2 then gap else [' '] :=
  squeeze_of_kind spaces

theorem changeMultipleBlanks_eq_nil : changeMultipleBlanks unicode gap = [] ↔ gap = [] :=
  squeeze_eq_nil Nat.two_pos

end Gaps

section Lists

variable {f : Text → Text} {rest : List (Char × Text)}

theorem kept_front (rest : List (Char × Text)) : kept rest <+: rest := List.rdropWhile_prefix _ _

theorem kept_kept (rest : List (Char × Text)) : kept (kept rest) = kept rest :=
  List.rdropWhile_idempotent _ _

/-- The punctuation at the end is where it was. -/
theorem kept_mapGaps (empty : ∀ gap, f gap = [] ↔ gap = []) (rest : List (Char × Text)) :
    kept (mapGaps f rest) = mapGaps f (kept rest) := by
  have same (pair : Char × Text) : bare (pair.1, f pair.2) = bare pair := by
    unfold bare
    rw [Bool.eq_iff_iff]
    simp [empty]
  unfold kept mapGaps
  induction rest using List.reverseRecOn with
  | nil => rfl
  | append_singleton rest pair ih =>
    rw [List.map_append, List.map_singleton]
    cases is : bare pair with
    | true =>
      rw [List.rdropWhile_concat_pos _ _ _ (by rw [same, is]), List.rdropWhile_concat_pos _ _ _ is, ih]
    | false =>
      rw [List.rdropWhile_concat_neg _ _ _ (by rw [same, is]; exact Bool.false_ne_true),
        List.rdropWhile_concat_neg _ _ _ (by rw [is]; exact Bool.false_ne_true), List.map_append,
          List.map_singleton]

theorem exists_gapsOf {p : Text → Prop} {lead : Text} :
    (∃ gap ∈ gapsOf lead rest, p gap) ↔ p lead ∨ ∃ pair ∈ rest, p pair.2 := by
  rw [gapsOf, List.exists_mem_cons_iff]
  refine or_congr_right ⟨?_, fun ⟨pair, member, holds⟩ => ⟨pair.2, List.mem_map_of_mem member, holds⟩⟩
  rintro ⟨gap, member, holds⟩
  obtain ⟨pair, inside, rfl⟩ := List.mem_map.1 member
  exact ⟨pair, inside, holds⟩

theorem gapsOf_mapGaps (f : Text → Text) (lead : Text) (rest : List (Char × Text)) :
    gapsOf (f lead) (mapGaps f rest) = (gapsOf lead rest).map f := by
  unfold gapsOf mapGaps
  rw [List.map_cons, List.map_map, List.map_map]
  rfl

theorem exists_mapGaps {p : Text → Prop} :
    (∃ pair ∈ mapGaps f rest, p pair.2) ↔ ∃ pair ∈ rest, p (f pair.2) := by
  simp [mapGaps]

theorem dropLast_mapGaps (f : Text → Text) (rest : List (Char × Text)) :
    (mapGaps f rest).dropLast = mapGaps f rest.dropLast :=
  List.map_dropLast.symm

theorem mapGaps_eq_nil : mapGaps f rest = [] ↔ rest = [] := List.map_eq_nil_iff

end Lists

section Texts

variable {unicode : Unicode} {text : Text}

theorem not_isBlank_of_solid {c : Char} (solid : unicode.isSpace c = false) : isBlank c = false := by
  cases blank : isBlank c with
  | false => rfl
  | true => exact nomatch solid.symm.trans (isSpace_of_isBlank unicode blank)

theorem spaces_of_mem {gap : Text}
    (member : gap ∈ gapsOf (leadOf unicode text) (restOf unicode text)) :
    ∀ c ∈ gap, unicode.isSpace c = true := by
  have formed := gaps_formed unicode.isSpace text
  rcases List.mem_cons.1 member with rfl | behind
  · exact formed.lead
  · obtain ⟨pair, inside, rfl⟩ := List.mem_map.1 behind
    exact formed.gap pair inside

theorem map_fst_restOf (unicode : Unicode) (text : Text) :
    (restOf unicode text).map Prod.fst = visible unicode text :=
  map_fst_gaps unicode.isSpace text

theorem restOf_eq_nil : restOf unicode text = [] ↔ visible unicode text = [] := by
  rw [← map_fst_restOf, List.map_eq_nil_iff]

theorem gaps_changeTabs (unicode : Unicode) (text : Text) :
    leadOf unicode (changeTabs text) = changeTabs (leadOf unicode text) ∧
      restOf unicode (changeTabs text) = mapGaps changeTabs (restOf unicode text) := by
  have both := @gaps_squeeze _ unicode.isSpace (· = '\t') 1 ' '
    (fun c tab => of_decide_eq_true tab ▸ isSpace_tab unicode) (isSpace_blank unicode) text
  exact ⟨congrArg Prod.fst both, congrArg Prod.snd both⟩

theorem gaps_changeMultipleBlanks (unicode : Unicode) (text : Text) :
    leadOf unicode (changeMultipleBlanks unicode text) = changeMultipleBlanks unicode
      (leadOf unicode text) ∧ restOf unicode (changeMultipleBlanks unicode text) = mapGaps
      (changeMultipleBlanks unicode) (restOf unicode text) := by
  have both := @gaps_squeeze _ unicode.isSpace unicode.isSpace 2 ' ' (fun _ => id)
    (isSpace_blank unicode) text
  exact ⟨congrArg Prod.fst both, congrArg Prod.snd both⟩

theorem gaps_rdropWhile_isEndPunct (unicode : Unicode) (text : Text) :
    leadOf unicode (text.rdropWhile isEndPunct) = leadOf unicode text ∧
      restOf unicode (text.rdropWhile isEndPunct) = kept (restOf unicode text) := by
  have both : gaps unicode.isSpace (text.rdropWhile isEndPunct) =
      (leadOf unicode text, kept (restOf unicode text)) :=
    gaps_rdropWhile_solid (fun c => not_isSpace_of_isEndPunct unicode) text
  exact ⟨(congrArg Prod.fst both :), (congrArg Prod.snd both :)⟩

/-- What is trimmed has no gap in front and at the end, where its last visible character is no line
break. -/
theorem gaps_changeNoBlanksAtBoundaries (seen : visible unicode text ≠ [])
    (other : ∀ c ∈ visible unicode text, isNewline c = false) :
    leadOf unicode (changeNoBlanksAtBoundaries unicode text) = [] ∧
      restOf unicode (changeNoBlanksAtBoundaries unicode text) = closed (restOf unicode text) := by
  have front := gaps_dropWhile unicode.isSpace text
  have some_solid : (gaps unicode.isSpace (text.dropWhile unicode.isSpace)).2 ≠ [] := by
    rw [front]
    exact fun empty => seen (restOf_eq_nil.1 empty)
  have back := gaps_rdropWhile some_solid
  have trim : changeNoBlanksAtBoundaries unicode text = (text.dropWhile unicode.isSpace).rdropWhile
      unicode.isSpace := by
    unfold changeNoBlanksAtBoundaries trimEnd
    rcases List.eq_nil_or_concat' (text.dropWhile unicode.isSpace) with none | ⟨before, c, whole⟩
    · rw [none]
      exact (List.rdropWhile_nil _).symm
    · have plain : (isNewline c && !unicode.isSpace c) = false := by
        cases space : unicode.isSpace c with
        | true => rw [Bool.not_true, Bool.and_false]
        | false =>
          have member : c ∈ visible unicode text := by
            rw [← visible_dropWhile, whole, visible_append, visible_cons_of_not_space space]
            exact List.mem_append_right _ List.mem_cons_self
          rw [other c member, Bool.false_and]
      rw [whole, List.getLast?_concat]
      dsimp only
      rw [plain, if_neg Bool.false_ne_true]
  rw [front] at back
  unfold leadOf restOf
  rw [trim, back]
  exact ⟨rfl, rfl⟩

/-- **The check of the boundaries** looks at the first and at the last gap. -/
theorem checkNoBlanksAtBoundaries_eq (unicode : Unicode) (text : Text) :
    checkNoBlanksAtBoundaries text =
      !(beginsBlank (leadOf unicode text) ||
      endsBlank (rear (leadOf unicode text) (restOf unicode text))) := by
  have solid (pair : Option (Char × Text)) (member : ∀ given ∈ pair, given ∈ restOf unicode text) :
      (pair.map Prod.fst).any isBlank = false := by
    cases pair with
    | none => rfl
    | some given =>
      exact not_isBlank_of_solid ((gaps_formed unicode.isSpace text).solid given (member given rfl))
  have either (first : Option Char) (second : Option Char) (other : second.any isBlank = false) :
      (first.or second).any isBlank = first.any isBlank := by
    cases first with
    | none => exact other
    | some c => rfl
  have first : text.head?.any isBlank = beginsBlank (leadOf unicode text) := by
    rw [head?_eq unicode.isSpace text]
    exact either _ _ (solid _ fun given same => List.mem_of_mem_head? same)
  have last : text.getLast?.any isBlank =
      endsBlank (rear (leadOf unicode text) (restOf unicode text)) := by
    rw [getLast?_eq unicode.isSpace text]
    exact either _ _ (solid _ fun given same => List.mem_of_mem_getLast? same)
  rw [checkNoBlanksAtBoundaries, first, last]

/-- The check of several blanks looks at each gap. -/
theorem checkNoMultipleBlanks_iff (unicode : Unicode) (text : Text) :
    checkNoMultipleBlanks text = false ↔ ∃ gap ∈ gapsOf (leadOf unicode text) (restOf unicode text),
    [' ', ' '] <:+: gap := by
  have spaces : ∀ c ∈ [' ', ' '], unicode.isSpace c = true := by simp [isSpace_blank]
  unfold checkNoMultipleBlanks
  rw [Bool.not_eq_false', decide_eq_true_eq, infix_iff spaces text, exists_gapsOf]
  rfl

theorem checkTabs_iff (unicode : Unicode) (text : Text) :
    checkTabs text = false ↔ ∃ gap ∈ gapsOf (leadOf unicode text) (restOf unicode text),
    '\t' ∈ gap := by
  unfold checkTabs
  rw [Bool.not_eq_false', List.contains_iff_mem, mem_iff (isSpace_tab unicode) text, exists_gapsOf]
  rfl

/-- The check of the end looks at the last character, if nothing is behind it. -/
theorem checkNoPunctuationAtEnd_iff (unicode : Unicode) (text : Text) :
    checkNoPunctuationAtEnd text = true ↔ kept (restOf unicode text) = restOf unicode text := by
  have formed := gaps_formed unicode.isSpace text
  have space {c : Char} (is : unicode.isSpace c = true) : isEndPunct c = false := by
    cases punct : isEndPunct c with
    | false => rfl
    | true => exact nomatch is.symm.trans (not_isSpace_of_isEndPunct unicode punct)
  unfold checkNoPunctuationAtEnd kept
  rw [getLast?_eq unicode.isSpace text]
  change (!((rear (leadOf unicode text) (restOf unicode text)).getLast?.or
    ((restOf unicode text).getLast?.map Prod.fst)).any isEndPunct) = true ↔ _
  rcases List.eq_nil_or_concat' (restOf unicode text) with none | ⟨front, ⟨b, gap⟩, parts⟩
  · rw [none]
    refine iff_of_true ?_ rfl
    rcases List.eq_nil_or_concat' (leadOf unicode text) with empty | ⟨before, c, whole⟩
    · rw [empty]
      rfl
    · have is := formed.lead c (show c ∈ leadOf unicode text by rw [whole]; simp)
      rw [whole]
      simp [rear, space is]
  · rw [parts, rear_concat, List.getLast?_concat]
    rcases List.eq_nil_or_concat' gap with rfl | ⟨before, c, rfl⟩
    · cases punct : isEndPunct b with
      | true =>
        have shorter := length_rdropWhile_le
        rw [List.rdropWhile_concat_pos _ _ _ (by simp [bare, punct])]
        refine iff_of_false (by simp [punct]) fun same => ?_
        have long := congrArg List.length same
        have short := (List.rdropWhile_prefix bare front).length_le
        rw [List.length_append, List.length_singleton] at long
        omega
      | false =>
        exact iff_of_true (by simp [punct]) (List.rdropWhile_concat_neg _ _ _ (by simp [bare, punct]))
    · have is := formed.gap (b, before ++ [c]) (show _ ∈ restOf unicode text by rw [parts]; simp) c
        (by simp)
      exact iff_of_true (by simp [space is]) (List.rdropWhile_concat_neg _ _ _ (by simp [bare]))

end Texts

end Gebr.Menu
