/-
**The checks of the texts of a menu.**

A case says which checks a field of a menu is to pass. A category is checked part by part.

* `Unicode`: what is taken from the tables of characters.
* `passes`: the checks, each of one text.
* `flagsOf`: the cases and their checks.
* `checkValue`, `mem_checkValue`: the checks that a text of a case fails.

A text is valid UTF-8, so that it is a list of characters; a test of its first or last byte for an
ASCII character is one of its first or last character.
-/

import Mathlib.Data.Finset.Basic
import Mathlib.Data.Finset.Filter

namespace Gebr.Menu

abbrev Text := List Char

section Characters

/-- `g_ascii_ispunct`. -/
def isAsciiPunct (c : Char) : Bool :=
  (33 ≤ c.toNat && c.toNat ≤ 47) || (58 ≤ c.toNat && c.toNat ≤ 64) || (91 ≤ c.toNat && c.toNat ≤ 96) ||
    (123 ≤ c.toNat && c.toNat ≤ 126)

/-- The white space of ASCII. -/
def isAsciiSpace (c : Char) : Bool := (9 ≤ c.toNat && c.toNat ≤ 13) || c.toNat = 32

/-- What the tables of characters say, with what holds in all of them: a letter in lower case is no
white space and no punctuation of ASCII, and neither is anything in its text in upper case, which
begins with another letter in lower case for no letter. Some letters have no upper case, and stay
what they are. -/
structure Unicode where
  /-- `g_unichar_islower`. -/
  isLower : Char → Bool
  /-- `g_utf8_strup`, of one character. -/
  upper : Char → Text
  /-- `[[:space:]]`, in a regular expression of GLib. -/
  isSpace : Char → Bool
  space_ascii : ∀ c, c.toNat < 128 → isSpace c = isAsciiSpace c
  lower_solid : ∀ c, isLower c = true → isSpace c = false ∧ isAsciiPunct c = false
  upper_solid : ∀ c, isLower c = true → ∀ d ∈ upper c, isSpace d = false ∧ isAsciiPunct d = false
  upper_head : ∀ c, isLower c = true → upper c ≠ [c] → ∃ d rest, upper c = d :: rest ∧
    isLower d = false

/-- The letters of ASCII in lower case. -/
def asciiLetters : Text := "abcdefghijklmnopqrstuvwxyz".toList

/-- The letters of a small table: one of them has no upper case. -/
def smallLetters : Text := 'ĸ' :: asciiLetters

def smallUpper (c : Char) : Text := if c ∈ asciiLetters then [c.toUpper] else [c]

theorem small_solid : ∀ c, decide (c ∈ smallLetters) = true → isAsciiSpace c = false ∧
    isAsciiPunct c = false := by
  intro c lower
  have all : smallLetters.all (fun c => !isAsciiSpace c && !isAsciiPunct c) = true := by decide +kernel
  simpa using List.all_eq_true.1 all c (of_decide_eq_true lower)

theorem small_upper_solid : ∀ c, decide (c ∈ smallLetters) = true → ∀ d ∈ smallUpper c,
    isAsciiSpace d = false ∧ isAsciiPunct d = false := by
  intro c lower d member
  have all : smallLetters.all
      (fun c => (smallUpper c).all fun d => !isAsciiSpace d && !isAsciiPunct d) = true := by
    decide +kernel
  simpa using List.all_eq_true.1 (List.all_eq_true.1 all c (of_decide_eq_true lower)) d member

theorem small_upper_head : ∀ c, decide (c ∈ smallLetters) = true → smallUpper c ≠ [c] →
    ∃ d rest, smallUpper c = d :: rest ∧ decide (d ∈ smallLetters) = false := by
  intro c lower changed
  have all : asciiLetters.all (fun c => !smallLetters.contains c.toUpper) = true := by decide +kernel
  rcases List.mem_cons.1 (of_decide_eq_true lower) with rfl | ascii
  · exact absurd (by decide) changed
  · refine ⟨c.toUpper, [], if_pos ascii, ?_⟩
    simpa using List.all_eq_true.1 all c ascii

/-- A small table of characters. -/
def smallUnicode : Unicode where
  isLower c := decide (c ∈ smallLetters)
  upper := smallUpper
  isSpace := isAsciiSpace
  space_ascii _ _ := rfl
  lower_solid := small_solid
  upper_solid := small_upper_solid
  upper_head := small_upper_head

end Characters

section Checks

/-- `GebrValidateCheckFlags`. -/
inductive Check where
  | empty
  | capit
  | noblk
  | mtblk
  | nopnt
  | email
  | filen
  | labelHotkey
  | url
  | tabs
  deriving DecidableEq, Repr

/-- `gebr_validate_check_is_not_empty`. -/
def checkIsNotEmpty (str : Text) : Bool := !str.isEmpty

/-- `gebr_validate_check_no_lower_case`. -/
def checkNoLowerCase (unicode : Unicode) (sentence : Text) : Bool :=
  match sentence with
  | [] => true
  | c :: _ => !unicode.isLower c

/-- `gebr_validate_check_tabs`. -/
def checkTabs (str : Text) : Bool := !str.contains '\t'

/-- `gebr_validate_check_no_multiple_blanks`. -/
def checkNoMultipleBlanks (str : Text) : Bool := !decide ([' ', ' '] <:+: str)

/-- A blank or a tab. -/
def isBlank (c : Char) : Bool := c = ' ' || c = '\t'

/-- `gebr_validate_check_no_blanks_at_boundaries`. -/
def checkNoBlanksAtBoundaries (str : Text) : Bool :=
  !(str.head?.any isBlank || str.getLast?.any isBlank)

/-- Punctuation that is not to be at the end. -/
def isEndPunct (c : Char) : Bool := c ≠ ')' && isAsciiPunct c

/-- `gebr_validate_check_no_punctuation_at_end`. -/
def checkNoPunctuationAtEnd (str : Text) : Bool := !str.getLast?.any isEndPunct

/-- `g_path_get_basename`. -/
def pathGetBasename (path : Text) : Text :=
  if path = [] then ['.']
  else
    let name := (path.reverse.dropWhile (· = '/')).takeWhile (· ≠ '/')
    if name = [] then ['/'] else name.reverse

/-- `gebr_validate_check_menu_filename`. -/
def checkMenuFilename (str : Text) : Bool := pathGetBasename str = str && ".mnu".toList.isSuffixOf str

/-- `[a-z0-9]`, in both cases. -/
def isAsciiAlnum (c : Char) : Bool :=
  (97 ≤ c.toNat && c.toNat ≤ 122) || (65 ≤ c.toNat && c.toNat ≤ 90) || (48 ≤ c.toNat && c.toNat ≤ 57)

/-- `gebr_validate_check_is_email`: a name, an at sign and a domain with a word behind its last
point. -/
def checkIsEmail (str : Text) : Bool :=
  str.isEmpty ||
    let name := str.takeWhile (· ≠ '@')
    let domain := (str.dropWhile (· ≠ '@')).tail
    let word := (domain.reverse.takeWhile (· ≠ '.')).reverse
    name ≠ [] && name.all (fun c => isAsciiAlnum c || c = '_' || c = '.' || c = '-') &&
      domain.all (fun c => isAsciiAlnum c || c = '.' || c = '-') && domain.contains '.' && word ≠ []

/-- `gebr_validate_check_is_url`. -/
def checkIsUrl (str : Text) : Bool :=
  "http://".toList.isPrefixOf str || "mailto:".toList.isPrefixOf str ||
    "file://".toList.isPrefixOf str || "ftp://".toList.isPrefixOf str

/-- A text passes a check; a repeated hotkey is no matter of one text. -/
def passes (unicode : Unicode) : Check → Text → Bool
  | .empty, str => checkIsNotEmpty str
  | .capit, str => checkNoLowerCase unicode str
  | .noblk, str => checkNoBlanksAtBoundaries str
  | .mtblk, str => checkNoMultipleBlanks str
  | .nopnt, str => checkNoPunctuationAtEnd str
  | .email, str => checkIsEmail str
  | .filen, str => checkMenuFilename str
  | .labelHotkey, _ => true
  | .url, str => checkIsUrl str
  | .tabs, str => checkTabs str

end Checks

section Cases

/-- `GebrValidateCaseName`. -/
inductive CaseName where
  | author
  | category
  | date
  | description
  | filename
  | help
  | title
  | email
  | programBinary
  | programDescription
  | programTitle
  | programUrl
  | programVersion
  | parameterKeyword
  | parameterLabel
  deriving DecidableEq, Repr

/-- The checks of a title, which many cases have. -/
def titleFlags : Finset Check := {.empty, .capit, .noblk, .mtblk, .nopnt, .tabs}

/-- `validate_cases`. -/
def flagsOf : CaseName → Finset Check
  | .filename => {.noblk, .mtblk, .filen}
  | .title => titleFlags
  | .description => titleFlags
  | .author => titleFlags
  | .date => {.empty}
  | .help => {.empty}
  | .category => titleFlags
  | .email => {.email}
  | .programTitle => titleFlags
  | .programDescription => titleFlags
  | .programBinary => {.empty}
  | .programVersion => {.empty, .noblk, .nopnt, .mtblk, .tabs}
  | .programUrl => {.empty, .url}
  | .parameterLabel => insert .labelHotkey titleFlags
  | .parameterKeyword => {.empty}

/-- `g_strsplit` at each `'|'`. -/
def splitCategory (value : Text) : List Text := if value = [] then [] else value.splitOn '|'

/-- `gebr_validate_case_check_value_aux`. -/
def checkValueAux (unicode : Unicode) (flags : Finset Check) (value : Text)
    (failed : Finset Check) : Finset Check :=
  failed ∪ flags.filter fun check => passes unicode check value = false

/-- What `gebr_validate_case_check_value` says of an automatic fix. -/
def canFix (name : CaseName) (value : Text) : Bool :=
  !(value.isEmpty || .email ∈ flagsOf name || .filen ∈ flagsOf name)

/-- `gebr_validate_case_check_value`. -/
def checkValue (unicode : Unicode) (name : CaseName) (value : Text) : Finset Check :=
  if name = .category then
    (splitCategory value).foldl (fun failed cat => checkValueAux unicode (flagsOf name) cat failed) ∅
  else checkValueAux unicode (flagsOf name) value ∅

/-- The parts of a text that are checked. -/
def partsOf (name : CaseName) (value : Text) : List Text :=
  if name = .category then splitCategory value else [value]

/-- What a part of a category has: no separator. -/
theorem mem_of_mem_splitOn {part : Text} {d : Char} (value : Text) (member : part ∈ value.splitOn '|')
    (inside : d ∈ part) : d ∈ value ∧ d ≠ '|' := by
  induction value generalizing part with
  | nil =>
    rw [List.mem_singleton.1 member] at inside
    exact absurd inside List.not_mem_nil
  | cons c value ih =>
    have behind {part : Text} (member : part ∈ value.splitOn '|') (inside : d ∈ part) :
        d ∈ c :: value ∧ d ≠ '|' :=
      (ih member inside).imp_left (List.mem_cons_of_mem c)
    rw [List.splitOn_cons_eq_if_modifyHead] at member
    split at member
    · rcases List.mem_cons.1 member with rfl | later
      · exact absurd inside List.not_mem_nil
      · exact behind later inside
    · rename_i other
      cases split : value.splitOn '|' with
      | nil => exact absurd split (List.splitOn_ne_nil _ _)
      | cons first parts =>
        rw [split] at behind
        rw [split, List.modifyHead_cons] at member
        rcases List.mem_cons.1 member with rfl | later
        · rcases List.mem_cons.1 inside with rfl | within
          · exact ⟨List.mem_cons_self, fun same => other (beq_iff_eq.2 same)⟩
          · exact behind List.mem_cons_self within
        · exact behind (List.mem_cons_of_mem first later) inside

variable {unicode : Unicode} {check : Check}

theorem mem_checkValueAux {flags failed : Finset Check} {value : Text} :
    check ∈ checkValueAux unicode flags value failed ↔
      check ∈ failed ∨ check ∈ flags ∧ passes unicode check value = false := by
  unfold checkValueAux
  rw [Finset.mem_union, Finset.mem_filter]

theorem mem_checkValues {flags : Finset Check} (parts : List Text) (failed : Finset Check) :
    check ∈ parts.foldl (fun failed part => checkValueAux unicode flags part failed) failed ↔
      check ∈ failed ∨ check ∈ flags ∧ ∃ part ∈ parts, passes unicode check part = false := by
  induction parts generalizing failed with
  | nil => simp
  | cons part parts ih =>
    rw [List.foldl_cons, ih, mem_checkValueAux, List.exists_mem_cons_iff, and_or_left, or_assoc]

/-- **The checks that a text fails** are those of its case that one of its parts fails. -/
theorem mem_checkValue {name : CaseName} {value : Text} :
    check ∈ checkValue unicode name value ↔
      check ∈ flagsOf name ∧ ∃ part ∈ partsOf name value, passes unicode check part = false := by
  unfold checkValue partsOf
  by_cases category : name = .category
  · rw [if_pos category, if_pos category, mem_checkValues]
    simp
  · rw [if_neg category, if_neg category, mem_checkValueAux]
    simp

end Cases

end Gebr.Menu
