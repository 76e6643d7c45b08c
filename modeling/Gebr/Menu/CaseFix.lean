/-
**The automatic fixes of the texts of a menu.**

A pass over a text makes the fixes of the checks that the text fails, one after the other; passes
are made until one makes no fix. The parts of a category are fixed one by one.

* `change`, `fixes`: the fix of each check, and their order.
* `caseFixAux`, `caseFixAuxIter`, `caseFix`: one pass, the passes, and the whole; `none` is an index
  outside of the text, or too few passes.
* `Works`: the fixes end, fail no check but that for emptiness, and make nothing of what is fixed.
* `visible_change`: most fixes change white space only.
* `level_lt_blanks`, `level_lt_nopnt`, `level_lt_capit`: a fix goes down, unless it changes nothing.
* `works_iff`: **the fixes work if and only if they end** for each part of the text.
-/

import Gebr.Lib.Passes
import Gebr.Lib.Squeeze
import Gebr.Menu.ValidateCase
import Mathlib.Data.List.DropRight
import Mathlib.Data.Prod.Lex

namespace Gebr.Menu

open Gebr.Lib.Passes Gebr.Lib.Squeeze

section Model

variable (unicode : Unicode)

/-- `gebr_validate_change_first_to_upper`. -/
def changeFirstToUpper : Text → Option Text
  | [] => none
  | c :: rest => some (unicode.upper c ++ rest)

/-- A line break of a regular expression. -/
def isNewline (c : Char) : Bool :=
  (10 ≤ c.toNat && c.toNat ≤ 13) || c.toNat = 0x85 || c.toNat = 0x2028 || c.toNat = 0x2029

/-- The white space at the end, without that in front of a line break that is none itself: `$` is
there too. -/
def trimEnd (text : Text) : Text :=
  match text.getLast? with
  | none => []
  | some c =>
    if isNewline c && !unicode.isSpace c then text.dropLast.rdropWhile unicode.isSpace ++ [c]
    else text.rdropWhile unicode.isSpace

/-- `gebr_validate_change_no_blanks_at_boundaries`. -/
def changeNoBlanksAtBoundaries (sentence : Text) : Text :=
  trimEnd unicode (sentence.dropWhile unicode.isSpace)

/-- `gebr_validate_change_multiple_blanks`. -/
def changeMultipleBlanks (sentence : Text) : Text := squeeze unicode.isSpace 2 ' ' sentence

/-- `gebr_validate_change_no_punctuation_at_end`; a text that is nothing else is left at its
front. -/
def changeNoPunctuationAtEnd (sentence : Text) : Option Text :=
  let kept := sentence.rdropWhile isEndPunct
  if kept = [] then none else some kept

/-- `gebr_validate_change_tabs`. -/
def changeTabs (sentence : Text) : Text := squeeze (· = '\t') 1 ' ' sentence

/-- `gebr_validate_change_url`. -/
def changeUrl (sentence : Text) : Text :=
  if checkIsEmail sentence then "mailto:".toList ++ sentence
  else if "ftp.".toList.isPrefixOf sentence then "ftp://".toList ++ sentence
  else if "/".toList.isPrefixOf sentence then "file://".toList ++ sentence
  else "http://".toList ++ sentence

/-- The fix of a check; the others have none. -/
def change : Check → Text → Option Text
  | .capit, fix => changeFirstToUpper unicode fix
  | .noblk, fix => some (changeNoBlanksAtBoundaries unicode fix)
  | .mtblk, fix => some (changeMultipleBlanks unicode fix)
  | .nopnt, fix => changeNoPunctuationAtEnd fix
  | .url, fix => some (changeUrl fix)
  | .tabs, fix => some (changeTabs fix)
  | .empty, fix | .email, fix | .filen, fix | .labelHotkey, fix => some fix

/-- The checks with a fix, in the order of `gebr_validate_case_fix_aux`. -/
def fixes : List Check := [.capit, .noblk, .mtblk, .nopnt, .url, .tabs]

/-- A check of a case fails. -/
def fails (flags : Finset Check) (check : Check) (text : Text) : Bool :=
  check ∈ flags && !passes unicode check text

/-- `gebr_validate_case_fix_aux`; it gives `has_fix` too. -/
def caseFixAux (name : CaseName) (value : Text) : Option (Text × Bool) :=
  onePass (fails unicode (flagsOf name)) (change unicode) fixes value false

/-- `gebr_validate_case_fix_aux_iter`, with so many passes. -/
def caseFixAuxIter (fuel : ℕ) (name : CaseName) (value : Text) : Option Text :=
  untilDone (fails unicode (flagsOf name)) (change unicode) fixes fuel value

/-- `gebr_validate_case_fix`, with so many passes for each part; it gives `NULL` where nothing can
be fixed. -/
def caseFix (fuel : ℕ) (name : CaseName) (value : Text) : Option (Option Text) :=
  if canFix name value = false then some none
  else if name = .category then
    ((splitCategory value).mapM (caseFixAuxIter unicode fuel name)).map fun parts =>
      some (['|'].intercalate parts)
  else (caseFixAuxIter unicode fuel name value).map some

end Model

section Statements

variable (unicode : Unicode)

/-- The fixes of a text end inside of it; what they give fails no check but that for emptiness, and
is fixed. -/
def Works (name : CaseName) (value : Text) : Prop :=
  ∃ fuel result, caseFix unicode fuel name value = some result ∧ ∀ fixed, result = some fixed →
    checkValue unicode name fixed ⊆ {.empty} ∧
      ∃ fuel, caseFix unicode fuel name fixed = some (if fixed = [] then none else some fixed)

/-- What is no white space. -/
def visible (text : Text) : Text := text.filter fun c => !unicode.isSpace c

/-- The passes over a part come to their end, inside of it. -/
def Ends (name : CaseName) (part : Text) : Prop :=
  ∃ fuel fixed, caseFixAuxIter unicode fuel name part = some fixed

end Statements

section Characters

variable (unicode : Unicode) {c : Char}

theorem isSpace_of_isBlank (blank : isBlank c = true) : unicode.isSpace c = true := by
  unfold isBlank at blank
  rcases Bool.or_eq_true_iff.1 blank with is | is
  · rw [of_decide_eq_true is, unicode.space_ascii ' ' (by decide)]
    rfl
  · rw [of_decide_eq_true is, unicode.space_ascii '\t' (by decide)]
    rfl

theorem isSpace_blank : unicode.isSpace ' ' = true := isSpace_of_isBlank unicode rfl

theorem isSpace_tab : unicode.isSpace '\t' = true := isSpace_of_isBlank unicode rfl

theorem not_isSpace_of_isEndPunct (punct : isEndPunct c = true) : unicode.isSpace c = false := by
  have ascii : isAsciiPunct c = true := (Bool.and_eq_true_iff.1 punct).2
  unfold isAsciiPunct at ascii
  simp only [Bool.or_eq_true, Bool.and_eq_true, decide_eq_true_eq] at ascii
  rw [unicode.space_ascii c (by omega)]
  unfold isAsciiSpace
  simp only [Bool.or_eq_false_iff, Bool.and_eq_false_iff, decide_eq_false_iff_not]
  omega

theorem not_isEndPunct_of_isAsciiPunct (other : isAsciiPunct c = false) : isEndPunct c = false := by
  unfold isEndPunct
  rw [other, Bool.and_false]

/-- A letter in lower case is no punctuation. -/
theorem lower_not_endPunct (unicode : Unicode) {c : Char} (lower : unicode.isLower c = true)
    (punct : isEndPunct c = true) : False := by
  rw [not_isEndPunct_of_isAsciiPunct (unicode.lower_solid c lower).2] at punct
  cases punct

end Characters

section Visible

variable {unicode : Unicode} {text front back : Text} {c : Char}

theorem visible_cons_of_not_space (solid : unicode.isSpace c = false) :
    visible unicode (c :: text) = c :: visible unicode text :=
  List.filter_cons_of_pos (by simp [solid])

theorem visible_append (front back : Text) :
    visible unicode (front ++ back) = visible unicode front ++ visible unicode back :=
  List.filter_append front back

theorem visible_of_spaces (spaces : ∀ c ∈ text, unicode.isSpace c = true) :
    visible unicode text = [] :=
  List.filter_eq_nil_iff.2 fun c member => by simp [spaces c member]

theorem visible_of_solid (solid : ∀ c ∈ text, unicode.isSpace c = false) :
    visible unicode text = text :=
  List.filter_eq_self.2 fun c member => by simp [solid c member]

theorem visible_dropWhile (text : Text) : visible unicode (text.dropWhile unicode.isSpace) =
    visible unicode text := by
  conv_rhs => rw [← List.takeWhile_append_dropWhile (p := unicode.isSpace) (l := text), visible_append]
  rw [visible_of_spaces fun c member => List.mem_takeWhile_imp member, List.nil_append]

theorem visible_rdropWhile (text : Text) : visible unicode (text.rdropWhile unicode.isSpace) =
    visible unicode text := by
  conv_rhs => rw [← List.rdropWhile_append_rtakeWhile (p := unicode.isSpace) (l := text),
    visible_append]
  rw [visible_of_spaces fun c member => List.mem_rtakeWhile_imp member, List.append_nil]

theorem visible_trimEnd (text : Text) :
    visible unicode (trimEnd unicode text) = visible unicode text := by
  unfold trimEnd
  rcases List.eq_nil_or_concat' text with rfl | ⟨front, c, rfl⟩
  · rfl
  · rw [List.getLast?_concat]
    dsimp only
    split
    · rw [List.dropLast_concat, visible_append, visible_rdropWhile, visible_append]
    · exact visible_rdropWhile _

/-- **White space is all that three of the fixes change.** -/
theorem visible_changeNoBlanksAtBoundaries (unicode : Unicode) (text : Text) :
    visible unicode (changeNoBlanksAtBoundaries unicode text) = visible unicode text :=
  (visible_trimEnd _).trans (visible_dropWhile text)

theorem visible_changeMultipleBlanks (unicode : Unicode) (text : Text) :
    visible unicode (changeMultipleBlanks unicode text) = visible unicode text :=
  filter_squeeze (fun c solid => by simpa using solid) (by simp [isSpace_blank]) text

theorem visible_changeTabs (unicode : Unicode) (text : Text) :
    visible unicode (changeTabs text) = visible unicode text := by
  refine filter_squeeze (fun c solid => ?_) (by simp [isSpace_blank]) text
  refine decide_eq_false fun tab => ?_
  rw [tab, isSpace_tab] at solid
  exact nomatch solid

theorem head?_of_front {c : Char} {front : Text} (begins : front <+: text)
    (head : front.head? = some c) : text.head? = some c := by
  obtain ⟨behind, rfl⟩ := begins
  rw [List.head?_append, head, Option.some_or]

/-- No white space is left in front. -/
theorem head_changeNoBlanksAtBoundaries {c : Char}
    (head : (changeNoBlanksAtBoundaries unicode text).head? = some c) : unicode.isSpace c = false := by
  have solid {d : Char} (first : (text.dropWhile unicode.isSpace).head? = some d) :
      unicode.isSpace d = false := by
    have stops := List.head?_dropWhile_not unicode.isSpace text
    rwa [first] at stops
  unfold changeNoBlanksAtBoundaries trimEnd at head
  rcases List.eq_nil_or_concat' (text.dropWhile unicode.isSpace) with none | ⟨front, d, whole⟩
  · rw [none] at head
    exact nomatch head
  · rw [whole] at head solid
    rw [List.getLast?_concat] at head
    dsimp only at head
    split at head
    · rename_i newline
      rw [List.dropLast_concat, List.head?_append] at head
      cases first : (front.rdropWhile unicode.isSpace).head? with
      | none =>
        rw [first, Option.none_or] at head
        obtain rfl : d = c := Option.some.inj head
        simpa using (Bool.and_eq_true_iff.1 newline).2
      | some e =>
        rw [first, Option.some_or] at head
        obtain rfl : e = c := Option.some.inj head
        exact solid (head?_of_front
          ((List.rdropWhile_prefix _ front).trans (List.prefix_append front [d])) first)
    · exact solid (head?_of_front (List.rdropWhile_prefix _ _) head)

/-- The fixes that keep the letters and the punctuation change nothing else than white space. -/
theorem visible_change {check : Check} (other : check ∉ [.capit, .nopnt, .url])
    (changed : change unicode check text = some front) :
    visible unicode front = visible unicode text := by
  cases check with
  | noblk => exact Option.some.inj changed ▸ visible_changeNoBlanksAtBoundaries unicode text
  | mtblk => exact Option.some.inj changed ▸ visible_changeMultipleBlanks unicode text
  | tabs => exact Option.some.inj changed ▸ visible_changeTabs unicode text
  | empty | email | filen | labelHotkey => exact Option.some.inj changed ▸ rfl
  | capit | nopnt | url => exact absurd (by decide) other

/-- What is in front of the punctuation at the end. -/
theorem changeNoPunctuationAtEnd_eq_some (kept : changeNoPunctuationAtEnd text = some front) :
    front ≠ [] ∧ ∃ behind, text = front ++ behind ∧ ∀ c ∈ behind, isEndPunct c = true := by
  unfold changeNoPunctuationAtEnd at kept
  simp only [Option.ite_none_left_eq_some, Option.some.injEq] at kept
  obtain ⟨nonempty, rfl⟩ := kept
  exact ⟨nonempty, text.rtakeWhile isEndPunct, List.rdropWhile_append_rtakeWhile.symm,
    fun c member => List.mem_rtakeWhile_imp member⟩

theorem visible_of_puncts (unicode : Unicode) {behind : Text} (whole : text = front ++ behind)
    (puncts : ∀ c ∈ behind, isEndPunct c = true) :
    visible unicode text = visible unicode front ++ behind := by
  rw [whole, visible_append, visible_of_solid fun c member => not_isSpace_of_isEndPunct unicode
    (puncts c member)]

end Visible

section Lengths

variable {unicode : Unicode} {text : Text}

theorem length_rdropWhile_le (p : Char → Bool) (text : Text) :
    (text.rdropWhile p).length ≤ text.length :=
  (List.rdropWhile_prefix p text).length_le

theorem length_trimEnd_le (unicode : Unicode) (text : Text) :
    (trimEnd unicode text).length ≤ text.length := by
  unfold trimEnd
  rcases List.eq_nil_or_concat' text with rfl | ⟨front, c, rfl⟩
  · exact le_rfl
  · rw [List.getLast?_concat]
    dsimp only
    split
    · have short := length_rdropWhile_le unicode.isSpace front
      rw [List.dropLast_concat, List.length_append, List.length_append]
      omega
    · exact length_rdropWhile_le _ _

theorem length_trimEnd_lt {c : Char} (front : Text) (space : unicode.isSpace c = true) :
    (trimEnd unicode (front ++ [c])).length < (front ++ [c]).length := by
  have short := length_rdropWhile_le unicode.isSpace front
  unfold trimEnd
  rw [List.getLast?_concat]
  dsimp only
  rw [space, Bool.not_true, Bool.and_false, if_neg Bool.false_ne_true,
    List.rdropWhile_concat_pos _ _ _ space, List.length_append, List.length_singleton]
  omega

theorem length_changeNoBlanksAtBoundaries_lt (failed : checkNoBlanksAtBoundaries text = false) :
    (changeNoBlanksAtBoundaries unicode text).length < text.length := by
  unfold checkNoBlanksAtBoundaries at failed
  rw [Bool.not_eq_false', Bool.or_eq_true_iff] at failed
  have short := (List.dropWhile_suffix unicode.isSpace (l := text)).length_le
  rcases failed with first | last
  · obtain ⟨c, head, blank⟩ := (Option.any_eq_true _ _).1 first
    obtain ⟨rest, rfl⟩ := List.head?_eq_some_iff.1 head
    have behind := (List.dropWhile_suffix unicode.isSpace (l := rest)).length_le
    have trimmed := length_trimEnd_le unicode (rest.dropWhile unicode.isSpace)
    unfold changeNoBlanksAtBoundaries
    rw [List.dropWhile_cons_of_pos (isSpace_of_isBlank unicode blank), List.length_cons]
    omega
  · obtain ⟨c, end_, blank⟩ := (Option.any_eq_true _ _).1 last
    obtain ⟨dropped, whole⟩ := List.dropWhile_suffix unicode.isSpace (l := text)
    unfold changeNoBlanksAtBoundaries
    rcases List.eq_nil_or_concat' (text.dropWhile unicode.isSpace) with none | ⟨front, d, same⟩
    · obtain ⟨before, rfl⟩ := List.getLast?_eq_some_iff.1 end_
      rw [none]
      exact List.length_pos_of_ne_nil
        (List.append_ne_nil_of_right_ne_nil before (List.cons_ne_nil c []))
    · obtain rfl : d = c := by
        rw [← whole, same, ← List.append_assoc, List.getLast?_concat] at end_
        exact Option.some.inj end_
      rw [same] at short ⊢
      exact (length_trimEnd_lt front (isSpace_of_isBlank unicode blank)).trans_le short

theorem length_changeMultipleBlanks_lt (failed : checkNoMultipleBlanks text = false) :
    (changeMultipleBlanks unicode text).length < text.length := by
  unfold checkNoMultipleBlanks at failed
  rw [Bool.not_eq_false', decide_eq_true_eq] at failed
  exact length_squeeze_lt failed (isSpace_blank unicode) (isSpace_blank unicode)

theorem length_changeTabs_le (text : Text) : (changeTabs text).length ≤ text.length :=
  length_squeeze_le _ _ Nat.one_pos text

theorem not_mem_changeTabs (text : Text) : '\t' ∉ changeTabs text := by
  intro member
  rcases mem_squeeze_one member with other | new
  · exact of_decide_eq_false other rfl
  · exact absurd new (by decide)

end Lengths

section Descent

variable (unicode : Unicode) (flags : Finset Check)

/-- The first letter is in lower case, or a scheme is missing. -/
def pending (text : Text) : ℕ :=
  if .url ∈ flags then if checkIsUrl text then 0 else 1
  else if (visible unicode text).head?.any unicode.isLower then 1 else 0

def tabsLeft (text : Text) : ℕ := if '\t' ∈ text then 1 else 0

/-- What goes down with each fix. -/
def level (text : Text) : ℕ ×ₗ ℕ ×ₗ ℕ :=
  toLex (pending unicode flags text, toLex (text.length, tabsLeft text))

variable {unicode flags} {text after : Text}

theorem level_lt_of_pending (down : pending unicode flags after < pending unicode flags text) :
    level unicode flags after < level unicode flags text :=
  Prod.Lex.toLex_lt_toLex.2 (.inl down)

theorem level_lt_of_length (stays : pending unicode flags after ≤ pending unicode flags text)
    (down : after.length < text.length) : level unicode flags after < level unicode flags text := by
  rcases Nat.lt_or_eq_of_le stays with less | same
  · exact level_lt_of_pending less
  · exact Prod.Lex.toLex_lt_toLex.2 (.inr ⟨same, Prod.Lex.toLex_lt_toLex.2 (.inl down)⟩)

theorem level_lt_of_tabs (stays : pending unicode flags after ≤ pending unicode flags text)
    (short : after.length ≤ text.length) (down : tabsLeft after < tabsLeft text) :
    level unicode flags after < level unicode flags text := by
  rcases Nat.lt_or_eq_of_le short with less | same
  · exact level_lt_of_length stays less
  · rcases Nat.lt_or_eq_of_le stays with less | same'
    · exact level_lt_of_pending less
    · exact Prod.Lex.toLex_lt_toLex.2 (.inr ⟨same', Prod.Lex.toLex_lt_toLex.2 (.inr ⟨same, down⟩)⟩)

theorem pending_of_visible (noUrl : .url ∉ flags)
    (same : visible unicode after = visible unicode text) :
    pending unicode flags after = pending unicode flags text := by
  unfold pending
  rw [if_neg noUrl, if_neg noUrl, same]

theorem fails_iff (check : Check) :
    fails unicode flags check text = true ↔ check ∈ flags ∧ passes unicode check text = false := by
  unfold fails
  rw [Bool.and_eq_true_iff, decide_eq_true_eq, Bool.not_eq_true']

/-- A text that fails to begin with a letter in upper case begins with one in lower case, which is
seen. -/
theorem lower_of_failed (failed : passes unicode .capit text = false) :
    ∃ c rest, text = c :: rest ∧ unicode.isLower c = true ∧ visible unicode text =
    c :: visible unicode rest := by
  cases text with
  | nil => exact nomatch failed
  | cons c rest =>
    have lower : unicode.isLower c = true := by simpa [passes, checkNoLowerCase] using failed
    exact ⟨c, rest, rfl, lower, visible_cons_of_not_space (unicode.lower_solid c lower).1⟩

theorem level_lt_blanks (noUrl : .url ∉ flags) {check : Check}
    (known : check ∈ [.noblk, .mtblk, .tabs]) (failed : fails unicode flags check text = true)
    (changed : change unicode check text = some after) :
    level unicode flags after < level unicode flags text := by
  have other : check ∉ [.capit, .nopnt, .url] := by
    revert known
    cases check <;> decide
  have stays := (pending_of_visible noUrl (visible_change other changed)).le
  obtain ⟨-, failed⟩ := (fails_iff check).1 failed
  cases check with
  | noblk =>
    obtain rfl := Option.some.inj changed
    exact level_lt_of_length stays (length_changeNoBlanksAtBoundaries_lt failed)
  | mtblk =>
    obtain rfl := Option.some.inj changed
    exact level_lt_of_length stays (length_changeMultipleBlanks_lt failed)
  | tabs =>
    obtain rfl := Option.some.inj changed
    have tab : '\t' ∈ text := by simpa [passes, checkTabs] using failed
    refine level_lt_of_tabs stays (length_changeTabs_le text) ?_
    unfold tabsLeft
    rw [if_neg (not_mem_changeTabs text), if_pos tab]
    exact Nat.one_pos
  | empty | capit | nopnt | email | filen | labelHotkey | url => exact absurd known (by decide)

theorem level_lt_nopnt (noUrl : .url ∉ flags) (failed : checkNoPunctuationAtEnd text = false) :
    level unicode flags (text.rdropWhile isEndPunct) < level unicode flags text := by
  obtain ⟨e, last, punct⟩ : ∃ e, text.getLast? = some e ∧ isEndPunct e = true := by
    unfold checkNoPunctuationAtEnd at failed
    rw [Bool.not_eq_false'] at failed
    exact (Option.any_eq_true _ _).1 failed
  obtain ⟨before, rfl⟩ := List.getLast?_eq_some_iff.1 last
  refine level_lt_of_length ?_ ?_
  · unfold pending
    rw [if_neg noUrl, if_neg noUrl]
    have parts : visible unicode (before ++ [e]) =
        visible unicode ((before ++ [e]).rdropWhile isEndPunct) ++
            (before ++ [e]).rtakeWhile isEndPunct :=
      visible_of_puncts unicode List.rdropWhile_append_rtakeWhile.symm fun c member =>
        List.mem_rtakeWhile_imp member
    cases head : (visible unicode ((before ++ [e]).rdropWhile isEndPunct)).head? with
    | none => exact Nat.zero_le _
    | some c => rw [parts, List.head?_append, head, Option.some_or]
  · have short := length_rdropWhile_le isEndPunct before
    rw [List.rdropWhile_concat_pos _ _ _ punct, List.length_append, List.length_singleton]
    omega

/-- What begins with another letter in upper case is no longer pending. -/
theorem level_lt_capit (noUrl : .url ∉ flags) {c : Char} {rest : Text}
    (lower : unicode.isLower c = true) (other : unicode.upper c ≠ [c]) :
    level unicode flags (unicode.upper c ++ rest) < level unicode flags (c :: rest) := by
  obtain ⟨d, more, upper, high⟩ := unicode.upper_head c lower other
  have solid := unicode.upper_solid c lower
  have now : visible unicode (unicode.upper c ++ rest) = d :: more ++ visible unicode rest := by
    rw [visible_append, visible_of_solid fun e member => (solid e member).1, upper]
  refine level_lt_of_pending ?_
  unfold pending
  rw [if_neg noUrl, if_neg noUrl, now, visible_cons_of_not_space (unicode.lower_solid c lower).1]
  simp [high, lower]

end Descent

section Ends

variable {unicode : Unicode} {name : CaseName} {text after value : Text}

theorem checkIsUrl_changeUrl (text : Text) : checkIsUrl (changeUrl text) = true := by
  unfold changeUrl
  split
  · rfl
  · split
    · rfl
    · split
      · rfl
      · rfl

theorem changeUrl_eq (text : Text) : ∃ scheme, '|' ∉ scheme ∧ changeUrl text = scheme ++ text := by
  unfold changeUrl
  split
  · exact ⟨_, by decide, rfl⟩
  · split
    · exact ⟨_, by decide, rfl⟩
    · split
      · exact ⟨_, by decide, rfl⟩
      · exact ⟨_, by decide, rfl⟩

theorem mem_trimEnd {c : Char} (member : c ∈ trimEnd unicode text) : c ∈ text := by
  unfold trimEnd at member
  rcases List.eq_nil_or_concat' text with rfl | ⟨front, d, rfl⟩
  · exact member
  · rw [List.getLast?_concat] at member
    dsimp only at member
    split at member
    · rw [List.dropLast_concat] at member
      rcases List.mem_append.1 member with before | last
      · exact List.mem_append_left _ ((List.rdropWhile_prefix _ _).subset before)
      · exact List.mem_append_right _ last
    · exact (List.rdropWhile_prefix _ _).subset member

/-- **What a fix puts into a text**: a blank, or the upper case of a letter. -/
theorem mem_change {check : Check} {c : Char} (noUrl : check ≠ .url)
    (failed : passes unicode check text = false) (changed : change unicode check text = some after)
    (member : c ∈ after) : c ∈ text ∨ c = ' ' ∨ ∃ d, unicode.isLower d = true ∧
    c ∈ unicode.upper d := by
  cases check with
  | capit =>
    obtain ⟨d, rest, rfl, lower, -⟩ := lower_of_failed failed
    rw [← Option.some.inj changed] at member
    rcases List.mem_append.1 member with upper | behind
    · exact .inr (.inr ⟨d, lower, upper⟩)
    · exact .inl (List.mem_cons_of_mem d behind)
  | noblk =>
    rw [← Option.some.inj changed] at member
    exact .inl ((List.dropWhile_suffix _).subset (mem_trimEnd member))
  | mtblk =>
    rw [← Option.some.inj changed] at member
    exact (mem_squeeze member).imp_right Or.inl
  | nopnt =>
    obtain ⟨-, behind, rfl, -⟩ := changeNoPunctuationAtEnd_eq_some changed
    exact .inl (List.mem_append_left behind member)
  | tabs =>
    rw [← Option.some.inj changed] at member
    exact (mem_squeeze member).imp_right Or.inl
  | url => exact absurd rfl noUrl
  | empty | email | filen | labelHotkey => exact .inl (Option.some.inj changed ▸ member)

/-- A fix makes no new separator of categories. -/
theorem change_clean {flags : Finset Check} {check : Check}
    (failed : fails unicode flags check text = true)
    (changed : change unicode check text = some after) (clean : '|' ∉ text) : '|' ∉ after := by
  intro member
  by_cases url : check = .url
  · subst url
    obtain ⟨scheme, none, whole⟩ := changeUrl_eq text
    rw [← Option.some.inj changed] at member
    have either : '|' ∈ scheme ++ text := whole ▸ member
    exact (List.mem_append.1 either).elim none clean
  · rcases mem_change url ((fails_iff check).1 failed).2 changed
      member with old | blank | ⟨d, lower, upper⟩
    · exact clean old
    · exact absurd blank (by decide)
    · exact absurd (unicode.upper_solid d lower '|' upper).2 (by decide)

/-- A part that no fix objects to fails no check but that for emptiness. -/
theorem eq_empty_of_fine (can : .email ∉ flagsOf name ∧ .filen ∉ flagsOf name)
    (fine : ∀ check ∈ fixes, fails unicode (flagsOf name) check text = false) {check : Check}
    (listed : check ∈ flagsOf name) (failed : passes unicode check text = false) : check = .empty := by
  by_cases known : check ∈ fixes
  · exact nomatch (fine check known).symm.trans ((fails_iff check).2 ⟨listed, failed⟩)
  · cases check with
    | empty => rfl
    | email => exact absurd listed can.1
    | filen => exact absurd listed can.2
    | labelHotkey => exact nomatch failed
    | capit | noblk | mtblk | nopnt | url | tabs => exact absurd (by decide) known

theorem canFix_iff : canFix name value = true ↔ value ≠ [] ∧ .email ∉ flagsOf name ∧
    .filen ∉ flagsOf name := by
  unfold canFix
  simp only [Bool.not_eq_true', Bool.or_eq_false_iff, List.isEmpty_eq_false_iff,
    decide_eq_false_iff_not, and_assoc]

theorem caseFixAuxIter_succ (fuel : ℕ) :
    caseFixAuxIter unicode (fuel + 1) name text =
      (caseFixAux unicode name text).bind fun (fix, hasFix) =>
        if hasFix then caseFixAuxIter unicode fuel name fix else some fix :=
  rfl

theorem caseFixAuxIter_fine (fine : ∀ check ∈ fixes, fails unicode (flagsOf name) check text = false) :
    caseFixAuxIter unicode 1 name text = some text := by
  have pass : caseFixAux unicode name text = some (text, false) := onePass_fine fine
  rw [caseFixAuxIter_succ, pass]
  rfl

theorem mapM_imp {f g : Text → Option Text}
    (imp : ∀ part fixed, f part = some fixed → g part = some fixed) (parts : List Text)
    {fixed : List Text} (done : parts.mapM f = some fixed) : parts.mapM g = some fixed := by
  induction parts generalizing fixed with
  | nil => exact done
  | cons part parts ih =>
    rw [List.mapM_cons] at done ⊢
    obtain ⟨first, one, rest⟩ := Option.bind_eq_some_iff.1 done
    obtain ⟨later, others, whole⟩ := Option.bind_eq_some_iff.1 rest
    rw [imp part first one, ih others]
    exact whole

theorem mapM_caseFixAuxIter (parts : List Text) (each : ∀ part ∈ parts, Ends unicode name part) :
    ∃ fuel fixed, parts.mapM (caseFixAuxIter unicode fuel name) = some fixed := by
  induction parts with
  | nil => exact ⟨0, [], rfl⟩
  | cons part parts ih =>
    obtain ⟨fuel, first, done⟩ := each part List.mem_cons_self
    obtain ⟨fuel', fixed, dones⟩ := ih fun part member => each part (List.mem_cons_of_mem _ member)
    have whole : caseFixAuxIter unicode (fuel + fuel') name part = some first :=
      untilDone_mono fuel' done
    have behind : parts.mapM (caseFixAuxIter unicode (fuel + fuel') name) = some fixed := by
      rw [Nat.add_comm]
      exact mapM_imp (fun part fixed ends => untilDone_mono fuel ends) parts dones
    refine ⟨fuel + fuel', first :: fixed, ?_⟩
    rw [List.mapM_cons, whole, behind]
    rfl

theorem forall₂_of_mapM {f : Text → Option Text} {parts fixed : List Text}
    (done : parts.mapM f = some fixed) :
    List.Forall₂ (fun part after => f part = some after) parts fixed := by
  induction parts generalizing fixed with
  | nil =>
    obtain rfl := Option.some.inj done
    exact .nil
  | cons part parts ih =>
    rw [List.mapM_cons] at done
    obtain ⟨first, one, rest⟩ := Option.bind_eq_some_iff.1 done
    obtain ⟨later, others, whole⟩ := Option.bind_eq_some_iff.1 rest
    obtain rfl := Option.some.inj whole
    exact .cons one (ih others)

theorem mapM_fine (parts : List Text)
    (fine : ∀ part ∈ parts, ∀ check ∈ fixes, fails unicode (flagsOf name) check part = false) :
    parts.mapM (caseFixAuxIter unicode 1 name) = some parts := by
  induction parts with
  | nil => rfl
  | cons part parts ih =>
    rw [List.mapM_cons, caseFixAuxIter_fine (fine part List.mem_cons_self),
      ih fun part member => fine part (List.mem_cons_of_mem _ member)]
    rfl

/-- No fix objects to a part of a text. -/
def Fine (unicode : Unicode) (name : CaseName) (value : Text) : Prop :=
  ∀ part ∈ partsOf name value, ∀ check ∈ fixes, fails unicode (flagsOf name) check part = false

/-- Such a text fails no check but that for emptiness, and is left as it is. -/
theorem Fine.works (fine : Fine unicode name value)
    (can : .email ∉ flagsOf name ∧ .filen ∉ flagsOf name) : checkValue unicode name value ⊆ {.empty} ∧
      caseFix unicode 1 name value = some (if value = [] then none else some value) := by
  constructor
  · intro check member
    obtain ⟨listed, part, member, failed⟩ := mem_checkValue.1 member
    exact Finset.mem_singleton.2 (eq_empty_of_fine can (fine part member) listed failed)
  · unfold caseFix
    by_cases empty : value = []
    · have cannot : canFix name value = false := by rw [empty]; rfl
      rw [if_pos cannot, if_pos empty]
    · have able : ¬ canFix name value = false := by simp [canFix_iff.2 ⟨empty, can⟩]
      rw [if_neg able, if_neg empty]
      by_cases category : name = .category
      · have parts : partsOf name value = value.splitOn '|' := by
          unfold partsOf splitCategory
          rw [if_pos category, if_neg empty]
        have cats : splitCategory value = value.splitOn '|' := if_neg empty
        rw [if_pos category, cats, mapM_fine _ (parts ▸ fine), Option.map_some,
          List.intercalate_splitOn]
      · have parts : partsOf name value = [value] := if_neg category
        rw [if_neg category,
          caseFixAuxIter_fine (fine value (parts ▸ List.mem_singleton_self value)), Option.map_some]

/-- What comes out of a part has no separator of categories where the part has none, and no fix
objects to it. -/
theorem clean_of_done {fuel : ℕ} {part fixed : Text}
    (done : caseFixAuxIter unicode fuel name part = some fixed) :
    ('|' ∉ part → '|' ∉ fixed) ∧ ∀ check ∈ fixes, fails unicode (flagsOf name) check fixed =
    false := by
  have keeps : ∀ check ∈ fixes, ∀ text after : Text, '|' ∉ text →
      fails unicode (flagsOf name) check text = true → change unicode check text = some after →
          '|' ∉ after :=
    fun check _ text after clean failed changed => change_clean failed changed clean
  exact ⟨fun clean => @untilDone_keeps _ _ _ _ _ _ _ (fun text => '|' ∉ text) keeps clean _ done,
    untilDone_fine done⟩

/-- What comes out of the parts of a category is fine. -/
theorem fine_of_mapM {parts fixed : List Text} {fuel : ℕ}
    (done : parts.mapM (caseFixAuxIter unicode fuel name) = some fixed) (some_part : parts ≠ [])
    (clean : ∀ part ∈ parts, '|' ∉ part) (category : name = .category) :
    Fine unicode name (['|'].intercalate fixed) := by
  have pairs := forall₂_of_mapM done
  have each {after : Text} (member : after ∈ fixed) :
      '|' ∉ after ∧ ∀ check ∈ fixes, fails unicode (flagsOf name) check after = false := by
    obtain ⟨place, small, rfl⟩ := List.getElem_of_mem member
    have small' : place < parts.length := pairs.length_eq ▸ small
    have here := clean_of_done (pairs.get small' small)
    exact ⟨here.1 (clean _ (List.getElem_mem small')), here.2⟩
  have some_fixed : fixed ≠ [] := by
    rintro rfl
    exact some_part (List.length_eq_zero_iff.1 pairs.length_eq)
  intro part member
  unfold partsOf splitCategory at member
  rw [if_pos category] at member
  split at member
  · exact nomatch member
  · rw [List.splitOn_intercalate '|' (fun part inside => (each inside).1) some_fixed] at member
    exact (each member).2

/-- **The fixes work if and only if they end** for each part that is fixed. -/
theorem works_iff : Works unicode name value ↔
    (canFix name value = true → ∀ part ∈ partsOf name value, Ends unicode name part) := by
  cases able : canFix name value with
  | false => exact iff_of_true ⟨0, none, if_pos able, nofun⟩ fun never => nomatch never
  | true =>
    obtain ⟨nonempty, can⟩ := canFix_iff.1 able
    have unable : ¬ canFix name value = false := by simp [able]
    refine Iff.trans ?_ (forall_prop_of_true rfl).symm
    unfold Works
    by_cases category : name = .category
    · have fixes (fuel : ℕ) : caseFix unicode fuel name value =
          ((value.splitOn '|').mapM (caseFixAuxIter unicode fuel name)).map fun parts =>
            some (['|'].intercalate parts) := by
        unfold caseFix splitCategory
        rw [if_neg unable, if_pos category, if_neg nonempty]
      have parts : partsOf name value = value.splitOn '|' := by
        unfold partsOf splitCategory
        rw [if_pos category, if_neg nonempty]
      rw [parts]
      constructor
      · rintro ⟨fuel, result, done, -⟩ part member
        rw [fixes] at done
        obtain ⟨fixed, dones, -⟩ := Option.map_eq_some_iff.1 done
        obtain ⟨place, small, rfl⟩ := List.getElem_of_mem member
        have pairs := forall₂_of_mapM dones
        exact ⟨fuel, _, pairs.get small (pairs.length_eq ▸ small)⟩
      · intro each
        obtain ⟨fuel, fixed, done⟩ := mapM_caseFixAuxIter _ each
        refine ⟨fuel, some (['|'].intercalate fixed), by rw [fixes, done, Option.map_some], ?_⟩
        rintro _ ⟨rfl⟩
        have fine := fine_of_mapM done (List.splitOn_ne_nil _ _)
          (fun part member inside => (mem_of_mem_splitOn value member inside).2 rfl) category
        exact ⟨(fine.works can).1, 1, (fine.works can).2⟩
    · have fixes (fuel : ℕ) : caseFix unicode fuel name value =
          (caseFixAuxIter unicode fuel name value).map some := by
        unfold caseFix
        rw [if_neg unable, if_neg category]
      have parts : partsOf name value = [value] := if_neg category
      rw [parts, List.forall_mem_singleton]
      constructor
      · rintro ⟨fuel, result, done, -⟩
        rw [fixes] at done
        obtain ⟨fixed, one, -⟩ := Option.map_eq_some_iff.1 done
        exact ⟨fuel, fixed, one⟩
      · rintro ⟨fuel, fixed, done⟩
        refine ⟨fuel, some fixed, by rw [fixes, done, Option.map_some], ?_⟩
        rintro _ ⟨rfl⟩
        have fine : Fine unicode name fixed := by
          intro part member
          rw [partsOf, if_neg category] at member
          exact List.mem_singleton.1 member ▸ (clean_of_done done).2
        exact ⟨(fine.works can).1, 1, (fine.works can).2⟩

end Ends

end Gebr.Menu
