/-
**The two parsers of string expressions.**

The validator has `translate_string_expr`, the library has `gebr_str_expr_extract_vars`. Both go
through the text byte by byte and look one byte ahead for doubled brackets.

* `Expression`: the language of string expressions, with the names of a text in their order.
* `translateDeps`: the answer of the first parser, and the names that it leaves.
* `gebrStrExprExtractVars`: the second parser.
* `translateDeps_iff`: the first one reads the language.
* `extract_iff`: the second one reads the expressions without an empty name.
* `parsers_iff` — **both parsers on every text**.
-/

import Gebr.Validator.StringExpr

namespace Gebr.Validator.StringExpr

section Model

/-- **The language**: bytes other than brackets, doubled brackets, and names in brackets; with the
names. -/
inductive Expression : Text → List Text → Prop where
  | done : Expression [] []
  | char {b : UInt8} {rest : Text} {names : List Text} :
      b ≠ 91 → b ≠ 93 → Expression rest names → Expression (b :: rest) names
  | openBracket {rest : Text} {names : List Text} :
      Expression rest names → Expression (91 :: 91 :: rest) names
  | closeBracket {rest : Text} {names : List Text} :
      Expression rest names → Expression (93 :: 93 :: rest) names
  | var {name rest : Text} {names : List Text} :
      NoBracket name → Expression rest names → Expression (91 :: (name ++ 93 :: rest)) (name :: names)

/-- `translate_string_expr`: whether it succeeds, and its list of names, which it frees when it
fails. -/
def translateDeps (expr : Text) : Bool × List Text :=
  match translateStringExpr expr with
  | .ok items => (true, references items)
  | .error _ => (false, [])

/-- The errors that `gebr_str_expr_extract_vars` gives. -/
inductive GebrExprError where
  | none
  | errorSyntax
  | emptyVar
  deriving DecidableEq, Repr

/-- The states of `gebr_str_expr_extract_vars`. `STATE_MATCHED` looks at no other byte than the one
that `STATE_READING_VAR` has stopped at. -/
inductive ExtractState where
  | starting
  | openBracket
  | readingVar (word : Text)

/-- The loop of `gebr_str_expr_extract_vars`. -/
def extractStrLoop : ExtractState → List Text → Text → GebrExprError × List Text
  | .starting, vars, [] => (.none, vars)
  | .starting, vars, b :: str =>
    if b = 91 then extractStrLoop .openBracket vars str
    else if b = 93 then
      match str with
      | [] => (.errorSyntax, vars)
      | c :: rest => if c = 93 then extractStrLoop .starting vars rest else (.errorSyntax, vars)
    else extractStrLoop .starting vars str
  | .openBracket, vars, [] => (.errorSyntax, vars)
  | .openBracket, vars, b :: str =>
    if b = 91 then extractStrLoop .starting vars str
    -- The byte is read again in `STATE_READING_VAR`, where the word is empty.
    else if b = 93 then (.emptyVar, vars)
    else extractStrLoop (.readingVar [b]) vars str
  | .readingVar _, vars, [] => (.errorSyntax, vars)
  | .readingVar word, vars, b :: str =>
    if b = 93 then
      if word = [] then (.emptyVar, vars) else extractStrLoop .starting (vars ++ [word]) str
    else if b = 91 then (.errorSyntax, vars)
    else extractStrLoop (.readingVar (word ++ [b])) vars str

/-- `gebr_str_expr_extract_vars`. -/
def gebrStrExprExtractVars (str : Text) : GebrExprError × List Text := extractStrLoop .starting [] str

end Model

section Translate

variable {expr : Text} {found : List Text}

/-- A text without brackets in front of an expression. -/
theorem Expression.append_text {t : Text} (plain : NoBracket t) (formed : Expression expr found) :
    Expression (t ++ expr) found := by
  induction t with
  | nil => exact formed
  | cons b t ih =>
    have left : b ≠ 91 := fun same => plain.1 (same ▸ List.mem_cons_self)
    have right : b ≠ 93 := fun same => plain.2 (same ▸ List.mem_cons_self)
    exact .char left right (ih ⟨fun member => plain.1 (List.mem_cons_of_mem b member),
      fun member => plain.2 (List.mem_cons_of_mem b member)⟩)

/-- Well-formed pieces are written as an expression of their names. -/
theorem expression_render {pieces : List Piece} (formed : ∀ piece ∈ pieces, piece.WellFormed) :
    Expression (render pieces) (names pieces) := by
  induction pieces with
  | nil => exact .done
  | cons piece pieces ih =>
    have here := formed piece List.mem_cons_self
    have later := ih fun other member => formed other (List.mem_cons_of_mem piece member)
    rw [render, List.flatMap_cons, ← render]
    cases piece with
    | text t => exact later.append_text here
    | openBracket => exact .openBracket later
    | closeBracket => exact .closeBracket later
    | var name =>
      rw [Piece.write, List.append_assoc]
      exact .var here later

/-- An expression is written by pieces. -/
theorem Expression.exists_pieces (formed : Expression expr found) :
    ∃ pieces : List Piece, (∀ piece ∈ pieces, piece.WellFormed) ∧ render pieces = expr ∧
      names pieces = found := by
  induction formed with
  | done => exact ⟨[], nofun, rfl, rfl⟩
  | @char b rest found left right _ ih =>
    obtain ⟨pieces, all, rfl, rfl⟩ := ih
    have plain : NoBracket [b] := ⟨by simpa using Ne.symm left, by simpa using Ne.symm right⟩
    exact ⟨.text [b] :: pieces, List.forall_mem_cons.2 ⟨plain, all⟩, rfl, rfl⟩
  | openBracket _ ih =>
    obtain ⟨pieces, all, rfl, rfl⟩ := ih
    exact ⟨.openBracket :: pieces, List.forall_mem_cons.2 ⟨trivial, all⟩, rfl, rfl⟩
  | closeBracket _ ih =>
    obtain ⟨pieces, all, rfl, rfl⟩ := ih
    exact ⟨.closeBracket :: pieces, List.forall_mem_cons.2 ⟨trivial, all⟩, rfl, rfl⟩
  | @var name rest found plain _ ih =>
    obtain ⟨pieces, all, rfl, rfl⟩ := ih
    refine ⟨.var name :: pieces, List.forall_mem_cons.2 ⟨plain, all⟩, ?_, rfl⟩
    rw [render, List.flatMap_cons, ← render, Piece.write, List.append_assoc]
    rfl

/-- **The parser of the validator reads the language**, and finds the names in their order. -/
theorem translateDeps_iff : translateDeps expr = (true, found) ↔ Expression expr found := by
  constructor
  · intro read
    unfold translateDeps at read
    cases result : translateStringExpr expr with
    | error error =>
      rw [result] at read
      exact absurd (congrArg Prod.fst read) Bool.false_ne_true
    | ok items =>
      rw [result] at read
      obtain ⟨pieces, formed, rfl⟩ := exists_render result
      rw [translate_render formed] at result
      obtain rfl := Except.ok.inj result
      have found_eq : names pieces = found :=
        (references_compile none pieces).symm.trans (congrArg Prod.snd read)
      exact found_eq ▸ expression_render formed
  · intro formed
    obtain ⟨pieces, all, rfl, rfl⟩ := formed.exists_pieces
    rw [translateDeps, translate_render all]
    exact congrArg (true, ·) (references_compile none pieces)

/-- A parser that fails leaves no names. -/
theorem translateDeps_failed (failed : (translateDeps expr).1 = false) :
    (translateDeps expr).2 = [] := by
  unfold translateDeps at failed ⊢
  cases result : translateStringExpr expr with
  | error error => rfl
  | ok items =>
    rw [result] at failed
    exact absurd failed Bool.false_ne_true.symm

end Translate

section Extract

variable {vars all found : List Text} {str rest name word : Text}

/-- What the loop reads from a state, when it goes to the end. -/
def Extracts (all : List Text) : ExtractState → List Text → Text → Prop
  | .starting, vars, str => ∃ found, Expression str found ∧ [] ∉ found ∧ all = vars ++ found
  | .openBracket, vars, str => ∃ found, Expression (91 :: str) found ∧ [] ∉ found ∧ all = vars ++ found
  | .readingVar word, vars, str => ∃ name rest found, str = name ++ 93 :: rest ∧ NoBracket name ∧
      word ++ name ≠ [] ∧ Expression rest found ∧ [] ∉ found ∧ all = vars ++ (word ++ name) :: found

theorem extract_open :
    extractStrLoop .starting vars (91 :: str) = extractStrLoop .openBracket vars str := by
  conv_lhs => unfold extractStrLoop
  exact if_pos rfl

theorem extract_name (plain : NoBracket name) (given : word ++ name ≠ []) :
    extractStrLoop (.readingVar word) vars (name ++ 93 :: rest) =
      extractStrLoop .starting (vars ++ [word ++ name]) rest := by
  induction name generalizing word with
  | nil =>
    rw [List.append_nil] at given ⊢
    rw [List.nil_append, extractStrLoop, if_pos rfl, if_neg given]
  | cons b name ih =>
    have left : b ≠ 91 := fun same => plain.1 (same ▸ List.mem_cons_self)
    have right : b ≠ 93 := fun same => plain.2 (same ▸ List.mem_cons_self)
    have later : NoBracket name := ⟨fun member => plain.1 (List.mem_cons_of_mem b member),
      fun member => plain.2 (List.mem_cons_of_mem b member)⟩
    have more := @ih (word ++ [b]) later (by simp)
    rw [List.cons_append, extractStrLoop, if_neg right, if_neg left, more, List.append_assoc]
    rfl

/-- An expression without an empty name is read to its end. -/
theorem extract_of_expression (formed : Expression str found) (named : [] ∉ found) :
    extractStrLoop .starting vars str = (.none, vars ++ found) := by
  induction formed generalizing vars with
  | done => rw [extractStrLoop, List.append_nil]
  | char left right _ ih =>
    conv_lhs => unfold extractStrLoop
    rw [if_neg left, if_neg right]
    exact ih named
  | openBracket _ ih =>
    rw [extract_open, extractStrLoop, if_pos rfl]
    exact ih named
  | closeBracket _ ih =>
    conv_lhs => unfold extractStrLoop
    rw [if_neg (by decide), if_pos rfl]
    exact (if_pos rfl).trans (ih named)
  | @var name rest found plain _ ih =>
    have given : name ≠ [] := fun same => named (same ▸ List.mem_cons_self)
    have rest_eq := @ih (vars ++ [name]) fun member => named (List.mem_cons_of_mem name member)
    obtain ⟨b, name, rfl⟩ := List.exists_cons_of_ne_nil given
    have left : b ≠ 91 := fun same => plain.1 (same ▸ List.mem_cons_self)
    have right : b ≠ 93 := fun same => plain.2 (same ▸ List.mem_cons_self)
    have later : NoBracket name := ⟨fun member => plain.1 (List.mem_cons_of_mem b member),
      fun member => plain.2 (List.mem_cons_of_mem b member)⟩
    rw [extract_open, List.cons_append, extractStrLoop, if_neg left, if_neg right,
      extract_name later (List.cons_ne_nil b name)]
    refine rest_eq.trans ?_
    rw [List.append_assoc]
    rfl

/-- What is read to its end is an expression without an empty name. -/
theorem extracts_of_extract {state : ExtractState}
    (read : extractStrLoop state vars str = (.none, all)) : Extracts all state vars str := by
  induction state, vars, str using extractStrLoop.induct with
  | case1 vars =>
    rw [extractStrLoop] at read
    obtain rfl := congrArg Prod.snd read
    exact ⟨[], .done, List.not_mem_nil, (List.append_nil _).symm⟩
  | case2 vars str ih =>
    conv_lhs at read => unfold extractStrLoop
    rw [if_pos rfl] at read
    exact ih read
  | case3 | case5 =>
    conv_lhs at read => unfold extractStrLoop
    simp_all
  | case4 vars rest other ih =>
    conv_lhs at read => unfold extractStrLoop
    rw [if_neg other, if_pos rfl] at read
    obtain ⟨found, formed, named, same⟩ := ih ((if_pos rfl).symm.trans read)
    exact ⟨found, .closeBracket formed, named, same⟩
  | case6 vars b str left right ih =>
    conv_lhs at read => unfold extractStrLoop
    rw [if_neg left, if_neg right] at read
    obtain ⟨found, formed, named, same⟩ := ih read
    exact ⟨found, .char left right formed, named, same⟩
  | case7 => cases read
  | case8 vars str ih =>
    rw [extractStrLoop, if_pos rfl] at read
    obtain ⟨found, formed, named, same⟩ := ih read
    exact ⟨found, .openBracket formed, named, same⟩
  | case9 vars str other =>
    rw [extractStrLoop, if_neg other, if_pos rfl] at read
    cases read
  | case10 vars b str left right ih =>
    rw [extractStrLoop, if_neg left, if_neg right] at read
    obtain ⟨name, rest, found, rfl, plain, -, formed, named, same⟩ := ih read
    have whole : NoBracket (b :: name) := ⟨by simpa [Ne.symm left] using plain.1,
      by simpa [Ne.symm right] using plain.2⟩
    refine ⟨(b :: name) :: found, .var whole formed, ?_, same⟩
    exact fun member => (List.mem_cons.1 member).elim (List.cons_ne_nil b name).symm named
  | case11 => cases read
  | case12 vars str =>
    rw [extractStrLoop, if_pos rfl, if_pos rfl] at read
    cases read
  | case13 word vars str given ih =>
    rw [extractStrLoop, if_pos rfl, if_neg given] at read
    obtain ⟨found, formed, named, same⟩ := ih read
    refine ⟨[], str, found, rfl, by decide, ?_, formed, named, ?_⟩
    · rwa [List.append_nil]
    · rw [same, List.append_nil, List.append_assoc]
      rfl
  | case14 word vars str other =>
    rw [extractStrLoop, if_neg other, if_pos rfl] at read
    cases read
  | case15 word vars b str right left ih =>
    rw [extractStrLoop, if_neg right, if_neg left] at read
    obtain ⟨name, rest, found, rfl, plain, given, formed, named, same⟩ := ih read
    rw [List.append_assoc, List.singleton_append] at given same
    exact ⟨b :: name, rest, found, rfl, ⟨by simpa [Ne.symm left] using plain.1,
      by simpa [Ne.symm right] using plain.2⟩, given, formed, named, same⟩

/-- **The parser of the library** reads the expressions without an empty name, and finds their
names. -/
theorem extract_iff :
    gebrStrExprExtractVars str = (.none, found) ↔ Expression str found ∧ [] ∉ found := by
  constructor
  · intro read
    obtain ⟨others, formed, named, same⟩ := extracts_of_extract read
    rw [List.nil_append] at same
    exact same ▸ ⟨formed, named⟩
  · rintro ⟨formed, named⟩
    exact extract_of_expression formed named

end Extract

section Both

/-- **Both parsers on every text.** The one of the validator succeeds exactly on the language, with
the names in their order, and leaves none when it fails; the one of the library succeeds on the same
texts with the same names, but for those with an empty name. -/
theorem parsers_iff (text : Text) (found : List Text) :
    (translateDeps text = (true, found) ↔ Expression text found) ∧
      ((translateDeps text).1 = false → (translateDeps text).2 = []) ∧
      (gebrStrExprExtractVars text = (.none, found) ↔ Expression text found ∧ [] ∉ found) :=
  ⟨translateDeps_iff, translateDeps_failed, extract_iff⟩

/-- **An empty name**: the first parser finds it, the second one has an error for it. -/
theorem empty_name : translateDeps [91, 93] = (true, [[]]) ∧ gebrStrExprExtractVars [91, 93] =
    (.emptyVar, []) ∧ ¬ ∀ text found, gebrStrExprExtractVars text = (.none, found) ↔
    Expression text found := by
  refine ⟨rfl, rfl, fun same => ?_⟩
  have formed : Expression [91, 93] [[]] := @Expression.var [] [] [] (by decide) .done
  exact absurd ((same _ _).2 formed) (by decide)

end Both

end Gebr.Validator.StringExpr
