/-
**The variables of a number expression.**

`gebr_arith_expr_extract_vars` goes through the matches of `([a-z][0-9a-z_]*)\s*(.?)`: an
identifier, the blanks behind it and one more character, by which a function is known. That
character is not looked at again.

* `Identifier`: an identifier of a text, and what comes after it.
* `extractVars_eq`: the loop over the matches.
* `Extracts`: each identifier is recognised, and the names are those that are not called.
* `extracts_iff` — **when they are**: no identifier is behind another one with only blanks between.
* `lost_identifier`: the second of two identifiers is not seen.
-/

import Gebr.Lib.Words
import Gebr.Validator.Evaluate

namespace Gebr.Validator.Evaluate

open Gebr.Lib.CString (ascii gAsciiIsspace)
open Gebr.Lib.Words
open Gebr.Validator.Scoping
open Gebr.Validator.StringExpr (Text)

section Model

/-- An identifier of an expression, and what comes after it. -/
def Identifier (expr name after : Text) : Prop := Occurs isLetter isWordByte expr name after

/-- An identifier is called as a function: a bracket opens behind it. -/
def Called (after : Text) : Prop := (after.dropWhile gAsciiIsspace).head? = some 40

instance (after : Text) : Decidable (Called after) := inferInstanceAs (Decidable (_ = _))

/-- The matches of the regular expression, each with the identifier and what comes after it. -/
def regexMatches (expr : Text) : List (Text × Text) :=
  wordMatches isLetter isWordByte gAsciiIsspace expr

/-- What the loop makes of a match. -/
def addMatch (vars : List Text) (found : Text × Text) : List Text :=
  if Called found.2 ∨ found.1 ∈ vars then vars else vars ++ [found.1]

/-- An identifier is behind another one, with only blanks between. -/
def Follows (after : Text) : Prop := ∃ b ∈ (after.dropWhile gAsciiIsspace).head?, isLetter b = true

/-- **Each identifier is recognised, the names that are found are those that are not called**, and
none of them is undefined where the references are checked. -/
structure Extracts (expr : Text) : Prop where
  recognised : ∀ name after, Identifier expr name after → (name, after) ∈ regexMatches expr
  exactly : ∀ name, name ∈ extractVars expr ↔ ∃ after, Identifier expr name after ∧ ¬ Called after
  once : (extractVars expr).Nodup
  defined : ∀ (dicts : Dictionaries) myName type scope,
    dicts.wellDefined myName type scope (extractVars expr) = true →
      ∀ name after, Identifier expr name after → ¬ Called after →
        ∃ depScope, dicts.getDepParam myName scope name = some depScope

end Model

section Loop

variable {word after expr : Text} {vars : List Text} {b : UInt8}

theorem isWordByte_of_isLetter {b : UInt8} (letter : isLetter b = true) : isWordByte b = true := by
  rw [isWordByte, letter]
  rfl

/-- A blank is no letter. -/
theorem isLetter_of_isspace {b : UInt8} (blank : gAsciiIsspace b = true) : isLetter b = false := by
  simp only [gAsciiIsspace, Bool.or_eq_true, decide_eq_true_eq] at blank
  rcases blank with (((rfl | rfl) | rfl) | rfl) | rfl <;> rfl

theorem extractLoop_word (some_word : word ≠ []) :
    extractLoop word false vars expr =
      extractLoop (word ++ expr.takeWhile isWordByte) false vars (expr.dropWhile isWordByte) := by
  induction expr generalizing word with
  | nil => rw [List.takeWhile_nil, List.dropWhile_nil, List.append_nil]
  | cons b expr ih =>
    by_cases inside : isWordByte b = true
    · rw [List.takeWhile_cons_of_pos inside, List.dropWhile_cons_of_pos inside, extractLoop,
        if_neg some_word, Bool.not_false, Bool.true_and, if_pos inside,
        ih (List.append_ne_nil_of_right_ne_nil word (List.cons_ne_nil b [])), List.append_assoc]
      rfl
    · rw [List.takeWhile_cons_of_neg inside, List.dropWhile_cons_of_neg inside, List.append_nil]

/-- The blanks behind an identifier and one more character are read. -/
theorem extractLoop_after (some_word : word ≠ []) {ended : Bool}
    (stops : ended = true ∨ ∀ b ∈ after.head?, isWordByte b = false) :
    extractLoop word ended vars after =
      extractLoop [] false (addMatch vars (word, after)) (behind gAsciiIsspace after) := by
  induction after generalizing ended with
  | nil =>
    have other : ¬ Called [] := by decide
    have done : extractLoop [] false (addMatch vars (word, [])) (behind gAsciiIsspace []) =
        addMatch vars (word, []) := if_pos (.inl rfl)
    rw [done, extractLoop, addMatch]
    simp only [some_word, other, false_or]
  | cons b after ih =>
    have no_more : (!ended && isWordByte b) = false := by
      rcases stops with rfl | stops
      · rfl
      · rw [stops b rfl, Bool.and_false]
    rw [extractLoop, if_neg some_word, no_more, if_neg Bool.false_ne_true]
    by_cases blank : gAsciiIsspace b = true
    · have called : Called (b :: after) ↔ Called after := by
        rw [Called, Called, List.dropWhile_cons_of_pos blank]
      have same : addMatch vars (word, b :: after) = addMatch vars (word, after) := by
        unfold addMatch
        simp only [called]
      rw [if_pos blank, ih (.inl rfl), same, behind, behind, List.dropWhile_cons_of_pos blank]
    · have called : Called (b :: after) ↔ b = 40 := by
        rw [Called, List.dropWhile_cons_of_neg blank, List.head?_cons, Option.some_inj]
      rw [if_neg blank, behind, List.dropWhile_cons_of_neg blank, List.tail_cons, addMatch]
      simp only [called]

/-- **The loop over the matches.** -/
theorem extractLoop_eq (vars : List Text) (expr : Text) :
    extractLoop [] false vars expr = (regexMatches expr).foldl addMatch vars := by
  unfold regexMatches
  induction expr using wordMatches.induct isLetter isWordByte gAsciiIsspace generalizing vars with
  | case1 =>
    rw [wordMatches_nil]
    rfl
  | case2 b expr letter ih =>
    rw [wordMatches_letter letter, List.foldl_cons, ← ih, extractLoop, if_pos rfl, if_pos letter,
      extractLoop_word (List.cons_ne_nil b []), List.singleton_append]
    exact extractLoop_after (List.cons_ne_nil b _) (.inr (head_dropWhile isWordByte expr))
  | case3 b expr other ih => rw [wordMatches_other other, extractLoop, if_pos rfl, if_neg other, ih]

theorem extractVars_eq (expr : Text) : extractVars expr = (regexMatches expr).foldl addMatch [] :=
  extractLoop_eq [] expr

end Loop

section Found

variable {found : List (Text × Text)} {vars : List Text} {name : Text}

theorem mem_addMatch {match' : Text × Text} :
    name ∈ addMatch vars match' ↔ name ∈ vars ∨ name = match'.1 ∧ ¬ Called match'.2 := by
  unfold addMatch
  split_ifs with skipped
  · constructor
    · exact .inl
    · rintro (there | ⟨rfl, other⟩)
      · exact there
      · exact skipped.resolve_left other
  · rw [not_or] at skipped
    rw [List.mem_append, List.mem_singleton]
    exact or_congr_right (iff_self_and.2 fun _ => skipped.1)

/-- The names are those of the matches that are not called. -/
theorem mem_foldl_addMatch :
    name ∈ found.foldl addMatch vars ↔ name ∈ vars ∨ ∃ after, (name, after) ∈ found ∧
    ¬ Called after := by
  induction found generalizing vars with
  | nil => simp
  | cons one found ih =>
    rw [List.foldl_cons, ih, mem_addMatch, or_assoc]
    refine or_congr_right ⟨?_, ?_⟩
    · rintro (⟨rfl, other⟩ | ⟨after, member, other⟩)
      · exact ⟨one.2, List.mem_cons_self, other⟩
      · exact ⟨after, List.mem_cons_of_mem one member, other⟩
    · rintro ⟨after, member, other⟩
      rcases List.mem_cons.1 member with rfl | later
      · exact .inl ⟨rfl, other⟩
      · exact .inr ⟨after, later, other⟩

theorem nodup_foldl_addMatch (nodup : vars.Nodup) : (found.foldl addMatch vars).Nodup := by
  induction found generalizing vars with
  | nil => exact nodup
  | cons one found ih =>
    rw [List.foldl_cons]
    apply ih
    unfold addMatch
    split_ifs with skipped
    · exact nodup
    · rw [not_or] at skipped
      exact List.nodup_append.2 ⟨nodup, List.nodup_singleton _, fun a there b new same =>
        skipped.2 (List.mem_singleton.1 new ▸ same ▸ there)⟩

theorem getDepParam_of_wellDefined {dicts : Dictionaries} {myName : Option Text} {type : VarType}
    {scope : Scope} {names : List Text} (well : dicts.wellDefined myName type scope names = true) :
    ∀ name ∈ names, ∃ depScope, dicts.getDepParam myName scope name = some depScope := by
  intro name member
  rw [wellDefined_eq, List.all_eq_true] at well
  have here := well name member
  unfold refers at here
  split at here
  · cases here
  · cases place : dicts.getDepParam myName scope name with
    | none =>
      rw [place] at here
      cases here
    | some depScope => exact ⟨depScope, rfl⟩

end Found

section Extracted

/-- **When the variables of an expression are found**: no identifier is behind another one with only
blanks between. -/
theorem extracts_iff (expr : Text) :
    Extracts expr ↔ ∀ name after, Identifier expr name after → ¬ Follows after := by
  have inner := @isWordByte_of_isLetter
  have blanks := @isLetter_of_isspace
  have apart : (∀ m ∈ words isLetter isWordByte expr, Apart isLetter gAsciiIsspace m.2) ↔
      ∀ name after, Identifier expr name after → ¬ Follows after := by
    constructor
    · rintro apart name after identifier ⟨b, head, letter⟩
      have none := apart _ ((mem_words_iff @inner).2 identifier) b head
      exact Bool.false_ne_true (none.symm.trans letter)
    · rintro none ⟨name, after⟩ member b head
      exact Bool.eq_false_iff.2 fun letter =>
        none name after ((mem_words_iff @inner).1 member) ⟨b, head, letter⟩
  rw [← apart, ← words_subset_iff @inner @blanks]
  constructor
  · rintro extracts ⟨name, after⟩ member
    exact extracts.recognised name after ((mem_words_iff @inner).1 member)
  · intro all
    have same := wordMatches_eq @blanks ((words_subset_iff @inner @blanks).1 all)
    have identifiers : ∀ name, name ∈ extractVars expr ↔
        ∃ after, Identifier expr name after ∧ ¬ Called after := by
      intro name
      rw [extractVars_eq, mem_foldl_addMatch, regexMatches, same]
      simp only [List.not_mem_nil, false_or]
      exact exists_congr fun after => and_congr_left' (mem_words_iff @inner)
    refine ⟨fun name after identifier => all ((mem_words_iff @inner).2 identifier), identifiers, ?_,
      ?_⟩
    · rw [extractVars_eq]
      exact nodup_foldl_addMatch List.nodup_nil
    · intro dicts myName type scope well name after identifier other
      exact getDepParam_of_wellDefined well name ((identifiers name).2 ⟨after, identifier, other⟩)

/-- **The second of two identifiers** is not found. -/
theorem lost_identifier : extractVars (ascii "a b") = [ascii "a"] ∧
    Identifier (ascii "a b") (ascii "b") [] ∧ ¬ Extracts (ascii "a b") := by
  have second : Identifier (ascii "a b") (ascii "b") [] := by
    refine ⟨⟨98, [], rfl, rfl, nofun⟩, nofun, [97, 32], rfl, fun front run split all => ?_⟩
    have blank : (32 : UInt8) ∉ run := fun there => absurd (all 32 there) (by decide)
    rcases List.suffix_cons_iff.1 (⟨front, split.symm⟩ : run <:+ [97, 32]) with rfl | shorter
    · exact absurd (by decide) blank
    · rcases List.suffix_cons_iff.1 shorter with rfl | none
      · exact absurd (by decide) blank
      · rw [List.suffix_nil.1 none]
        exact nofun
  refine ⟨by decide, second, fun extracts => ?_⟩
  have there := (extracts.exactly (ascii "b")).2 ⟨[], second, by decide⟩
  exact absurd there (by decide)

end Extracted

end Gebr.Validator.Evaluate
