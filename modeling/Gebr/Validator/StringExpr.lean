/-
**String expressions and the `print` statement of bc.**

A string expression is text with references: `[name]` stands for the value of a variable, `[[` and
`]]` for single brackets. The validator turns it into a `print` statement of bc.

* `Piece`, `render`: the grammar of string expressions.
* `translateStringExpr`: the state machine, which gives the items of the statement.
* `interpret`: the escapes that `print` knows.
* `translate_render` — **the items of a well-formed expression** are its pieces: each text is
  printed as it is written, whatever quotes and backslashes it has.
* `references_compile`: the names that are found are those of the pieces.
* `exists_render` — **what is read was written by the grammar**.
* `translate_strip`: an expression that is read is read without the blanks around it, and refers to
  the same names.
-/

import Gebr.Lib.CString

namespace Gebr.Validator.StringExpr

open Gebr.Lib.CString (ascii gStrstrip gAsciiIsspace)

section Model

abbrev Text : Type := List UInt8

/-- An item of a `print` statement: a string constant as it is written between its quotes, or a
reference. -/
inductive PrintItem where
  | constant (raw : Text)
  | reference (name : Text)
  deriving DecidableEq, Repr

/-- What is wrong with an expression. -/
inductive SyntaxError where
  | unmatchedRight
  | unmatchedLeft
  deriving DecidableEq, Repr

/-- The states of `translate_string_expr`. `text none` is `INIT` and `START`, where no string
constant is open; `text (some raw)` is `TEXT`, and `var` is `VAR` with what was read of the name. -/
inductive State where
  | text (raw : Option Text)
  | var (name : Text)

/-- The string constant that is open ends. -/
def closeConstant (raw : Option Text) : List PrintItem := raw.toList.map .constant

/-- How a byte is written in a string constant. -/
def escape (b : UInt8) : Text :=
  if b = 34 then [92, 113] else if b = 92 then [92, 92] else [b]

/-- The loop of `translate_string_expr`, with the items written from here on. -/
def translateLoop : State → Text → Except SyntaxError (List PrintItem)
  | .text raw, [] => .ok (closeConstant raw)
  | .text raw, b :: expr =>
    if b = 91 then
      match expr with
      | [] => (translateLoop (.var []) []).map (closeConstant raw ++ ·)
      | c :: rest =>
        if c = 91 then translateLoop (.text (some (raw.getD [] ++ [91]))) rest
        else (translateLoop (.var []) (c :: rest)).map (closeConstant raw ++ ·)
    else if b = 93 then
      match expr with
      | [] => .error .unmatchedRight
      | c :: rest =>
        if c = 93 then translateLoop (.text (some (raw.getD [] ++ [93]))) rest
        else .error .unmatchedRight
    else translateLoop (.text (some (raw.getD [] ++ escape b))) expr
  | .var name, [] => .error (if name = [] then .unmatchedLeft else .unmatchedRight)
  | .var name, b :: expr =>
    if b = 93 then (translateLoop (.text none) expr).map (.reference name :: ·)
    else if b = 91 then .error .unmatchedLeft
    else translateLoop (.var (name ++ [b])) expr

/-- `translate_string_expr`, without the line end that it writes last. -/
def translateStringExpr (expr : Text) : Except SyntaxError (List PrintItem) :=
  translateLoop (.text none) expr

/-- The names that `translate_string_expr` finds. -/
def references (items : List PrintItem) : List Text :=
  items.filterMap fun item =>
    match item with
    | .constant _ => none
    | .reference name => some name

/-- The character that an escape of a `print` statement stands for; another one stands for
nothing. -/
def escapeValue (b : UInt8) : Text :=
  if b = 97 then [7] else if b = 98 then [8] else if b = 102 then [12] else if b = 110 then [10]
  else if b = 113 then [34] else if b = 114 then [13] else if b = 116 then [9]
  else if b = 92 then [92] else []

/-- How `print` prints a string constant. -/
def interpret : Text → Text
  | [] => []
  | b :: raw =>
    if b = 92 then
      match raw with
      | [] => [92]
      | c :: rest => escapeValue c ++ interpret rest
    else b :: interpret raw

end Model

section Grammar

/-- A piece of a string expression. -/
inductive Piece where
  | text (text : Text)
  | openBracket
  | closeBracket
  | var (name : Text)
  deriving DecidableEq, Repr

/-- Bytes that are no brackets. -/
def NoBracket (text : Text) : Prop := 91 ∉ text ∧ 93 ∉ text

instance (text : Text) : Decidable (NoBracket text) := inferInstanceAs (Decidable (_ ∧ _))

/-- A piece of the grammar: a text and a name have no brackets. -/
def Piece.WellFormed : Piece → Prop
  | text t => NoBracket t
  | var name => NoBracket name
  | _ => True

instance (piece : Piece) : Decidable piece.WellFormed :=
  match piece with
  | .text t => inferInstanceAs (Decidable (NoBracket t))
  | .var name => inferInstanceAs (Decidable (NoBracket name))
  | .openBracket => isTrue trivial
  | .closeBracket => isTrue trivial

/-- How a piece is written. -/
def Piece.write : Piece → Text
  | text t => t
  | openBracket => [91, 91]
  | closeBracket => [93, 93]
  | var name => 91 :: name ++ [93]

/-- How an expression is written. -/
def render (pieces : List Piece) : Text := pieces.flatMap Piece.write

/-- The names that an expression refers to. -/
def names (pieces : List Piece) : List Text :=
  pieces.filterMap fun piece =>
    match piece with
    | .var name => some name
    | _ => none

/-- What an expression stands for when a name stands for a value. -/
def substitute (value : Text → Text) (pieces : List Piece) : Text :=
  pieces.flatMap fun piece =>
    match piece with
    | .text t => t
    | .openBracket => [91]
    | .closeBracket => [93]
    | .var name => value name

end Grammar

section Escapes

theorem interpret_escape (b : UInt8) (rest : Text) :
    interpret (escape b ++ rest) = b :: interpret rest := by
  unfold escape
  by_cases quote : b = 34
  · subst quote
    rfl
  by_cases backslash : b = 92
  · subst backslash
    rfl
  · rw [if_neg quote, if_neg backslash, List.singleton_append]
    conv_lhs => unfold interpret
    rw [if_neg backslash]

/-- **What is escaped is printed as it was.** -/
@[simp] theorem interpret_flatMap_escape (text : Text) : interpret (text.flatMap escape) = text := by
  induction text with
  | nil => rfl
  | cons b text ih => rw [List.flatMap_cons, interpret_escape, ih]

theorem escape_bracket {b : UInt8} (bracket : b = 91 ∨ b = 93) : escape b = [b] := by
  rcases bracket with rfl | rfl <;> rfl

end Escapes

section Steps

variable (raw : Option Text) (name rest : Text) {b c : UInt8}

/-- Two opening brackets are one of the text. -/
theorem translateLoop_open : translateLoop (.text raw) (91 :: 91 :: rest) =
    translateLoop (.text (some (raw.getD [] ++ [91]))) rest := by
  conv_lhs => unfold translateLoop
  rw [if_pos rfl]
  exact if_pos rfl

/-- One opening bracket begins a name. -/
theorem translateLoop_begin (other : c ≠ 91) : translateLoop (.text raw) (91 :: c :: rest) =
    (translateLoop (.var []) (c :: rest)).map (closeConstant raw ++ ·) := by
  conv_lhs => unfold translateLoop
  rw [if_pos rfl]
  exact if_neg other

/-- Two closing brackets are one of the text. -/
theorem translateLoop_close : translateLoop (.text raw) (93 :: 93 :: rest) =
    translateLoop (.text (some (raw.getD [] ++ [93]))) rest := by
  conv_lhs => unfold translateLoop
  rw [if_neg (by decide), if_pos rfl]
  exact if_pos rfl

/-- One closing bracket is an error. -/
theorem translateLoop_unmatched (other : c ≠ 93) :
    translateLoop (.text raw) (93 :: c :: rest) = .error .unmatchedRight := by
  conv_lhs => unfold translateLoop
  rw [if_neg (by decide), if_pos rfl]
  exact if_neg other

/-- Another byte is part of the text. -/
theorem translateLoop_plain (left : b ≠ 91) (right : b ≠ 93) :
    translateLoop (.text raw) (b :: rest) =
      translateLoop (.text (some (raw.getD [] ++ escape b))) rest := by
  conv_lhs => unfold translateLoop
  rw [if_neg left, if_neg right]

/-- A closing bracket ends a name. -/
theorem translateLoop_ended : translateLoop (.var name) (93 :: rest) =
    (translateLoop (.text none) rest).map (.reference name :: ·) := by
  conv_lhs => unfold translateLoop
  rw [if_pos rfl]

/-- An opening bracket within a name is an error. -/
theorem translateLoop_nested : translateLoop (.var name) (91 :: rest) = .error .unmatchedLeft := by
  conv_lhs => unfold translateLoop
  rw [if_neg (by decide), if_pos rfl]

/-- Another byte is part of the name. -/
theorem translateLoop_name (left : b ≠ 91) (right : b ≠ 93) :
    translateLoop (.var name) (b :: rest) = translateLoop (.var (name ++ [b])) rest := by
  conv_lhs => unfold translateLoop
  rw [if_neg right, if_neg left]

end Steps

section Translate

/-- What is printed when a name is printed as a value. -/
def printed (value : Text → Text) (items : List PrintItem) : Text :=
  items.flatMap fun item =>
    match item with
    | .constant raw => interpret raw
    | .reference name => value name

/-- The items of an expression, when `begun` was read of a text before. -/
def compile : Option Text → List Piece → List PrintItem
  | begun, [] => closeConstant (begun.map (·.flatMap escape))
  | begun, .text t :: pieces => compile (if t = [] then begun else some (begun.getD [] ++ t)) pieces
  | begun, .openBracket :: pieces => compile (some (begun.getD [] ++ [91])) pieces
  | begun, .closeBracket :: pieces => compile (some (begun.getD [] ++ [93])) pieces
  | begun, .var name :: pieces =>
    closeConstant (begun.map (·.flatMap escape)) ++ .reference name :: compile none pieces

variable {begun : Option Text} {rest : Text}

/-- The text that was begun goes on. -/
theorem begun_append (begun : Option Text) (b : UInt8) :
    some ((begun.map (·.flatMap escape)).getD [] ++ escape b) =
      (some (begun.getD [] ++ [b])).map (·.flatMap escape) := by
  cases begun <;> simp

theorem loop_text {t : Text} (plain : NoBracket t) :
    translateLoop (.text (begun.map (·.flatMap escape))) (t ++ rest) =
      translateLoop (.text ((if t = [] then begun else some (begun.getD [] ++ t)).map
        (·.flatMap escape))) rest := by
  induction t generalizing begun with
  | nil => rfl
  | cons b t ih =>
    have left : b ≠ 91 := fun same => plain.1 (same ▸ List.mem_cons_self)
    have right : b ≠ 93 := fun same => plain.2 (same ▸ List.mem_cons_self)
    have plain' : NoBracket t := ⟨fun member => plain.1 (List.mem_cons_of_mem b member),
      fun member => plain.2 (List.mem_cons_of_mem b member)⟩
    rw [List.cons_append, translateLoop_plain _ _ left right, begun_append, ih plain']
    by_cases last : t = []
    · simp [last]
    · simp [last]

theorem loop_open : translateLoop (.text (begun.map (·.flatMap escape))) (91 :: 91 :: rest) =
    translateLoop (.text ((some (begun.getD [] ++ [91])).map (·.flatMap escape))) rest := by
  rw [translateLoop_open, ← begun_append, escape_bracket (.inl rfl)]

theorem loop_close : translateLoop (.text (begun.map (·.flatMap escape))) (93 :: 93 :: rest) =
    translateLoop (.text ((some (begun.getD [] ++ [93])).map (·.flatMap escape))) rest := by
  rw [translateLoop_close, ← begun_append, escape_bracket (.inr rfl)]

theorem loop_name {front name : Text} (plain : NoBracket name) :
    translateLoop (.var front) (name ++ 93 :: rest) =
      (translateLoop (.text none) rest).map (.reference (front ++ name) :: ·) := by
  induction name generalizing front with
  | nil =>
    rw [List.nil_append, List.append_nil, translateLoop_ended]
  | cons b name ih =>
    have left : b ≠ 91 := fun same => plain.1 (same ▸ List.mem_cons_self)
    have right : b ≠ 93 := fun same => plain.2 (same ▸ List.mem_cons_self)
    rw [List.cons_append, translateLoop_name _ _ left right,
      ih ⟨fun member => plain.1 (List.mem_cons_of_mem b member),
        fun member => plain.2 (List.mem_cons_of_mem b member)⟩, List.append_assoc]
    rfl

theorem loop_var {name : Text} (plain : NoBracket name) :
    translateLoop (.text (begun.map (·.flatMap escape))) (91 :: name ++ [93] ++ rest) =
      (translateLoop (.text none) rest).map fun items =>
        closeConstant (begun.map (·.flatMap escape)) ++ .reference name :: items := by
  rw [List.append_assoc, List.cons_append, List.singleton_append]
  have named := @loop_name rest [] name plain
  cases name with
  | nil =>
    rw [List.nil_append] at named ⊢
    rw [translateLoop_begin _ _ (by decide), named]
    cases translateLoop (.text none) rest <;> rfl
  | cons b name =>
    have left : b ≠ 91 := fun same => plain.1 (same ▸ List.mem_cons_self)
    rw [List.cons_append] at named ⊢
    rw [translateLoop_begin _ _ left, named]
    cases translateLoop (.text none) rest <;> rfl

theorem loop_render {pieces : List Piece} (formed : ∀ piece ∈ pieces, piece.WellFormed) :
    translateLoop (.text (begun.map (·.flatMap escape))) (render pieces) = .ok
    (compile begun pieces) := by
  induction pieces generalizing begun with
  | nil => rfl
  | cons piece pieces ih =>
    have here := formed piece List.mem_cons_self
    have later : ∀ begun, translateLoop (.text (Option.map (·.flatMap escape) begun)) (render pieces) =
        .ok (compile begun pieces) :=
      fun begun => @ih begun fun other member => formed other (List.mem_cons_of_mem piece member)
    rw [render, List.flatMap_cons, ← render]
    cases piece with
    | text t => exact (loop_text here).trans (later _)
    | openBracket => exact loop_open.trans (later _)
    | closeBracket => exact loop_close.trans (later _)
    | var name =>
      refine (loop_var here).trans ?_
      have none := later none
      rw [Option.map_none] at none
      rw [none]
      rfl

/-- **The items of a well-formed expression.** -/
theorem translate_render {pieces : List Piece} (formed : ∀ piece ∈ pieces, piece.WellFormed) :
    translateStringExpr (render pieces) = .ok (compile none pieces) :=
  @loop_render none pieces formed

@[simp] theorem references_closeConstant (raw : Option Text) :
    references (closeConstant raw) = [] := by
  cases raw <;> rfl

/-- The names that are found are those of the pieces. -/
theorem references_compile (begun : Option Text) (pieces : List Piece) :
    references (compile begun pieces) = names pieces := by
  induction pieces generalizing begun with
  | nil => exact references_closeConstant _
  | cons piece pieces ih =>
    cases piece with
    | var name =>
      have cut : references (closeConstant (begun.map (·.flatMap escape)) ++
          .reference name :: compile none pieces) = references (closeConstant (begun.map
            (·.flatMap escape))) ++ name :: references (compile none pieces) := List.filterMap_append
      rw [compile, cut, references_closeConstant, ih]
      rfl
    | _ => exact ih _

theorem printed_closeConstant (value : Text → Text) (begun : Option Text) :
    printed value (closeConstant (begun.map (·.flatMap escape))) = begun.getD [] := by
  cases begun with
  | none => rfl
  | some t => simp [printed, closeConstant]

/-- **An expression is printed as its pieces**, whatever its references are printed as. -/
theorem printed_compile (value : Text → Text) (begun : Option Text) (pieces : List Piece) :
    printed value (compile begun pieces) = begun.getD [] ++ substitute value pieces := by
  induction pieces generalizing begun with
  | nil => rw [compile, printed_closeConstant]; exact (List.append_nil _).symm
  | cons piece pieces ih =>
    rw [substitute, List.flatMap_cons, ← substitute, ← List.append_assoc]
    cases piece with
    | text t =>
      rw [compile, ih]
      by_cases nothing : t = []
      · simp [nothing]
      · simp [nothing]
    | openBracket => rw [compile, ih]; rfl
    | closeBracket => rw [compile, ih]; rfl
    | var name =>
      have cut : printed value (closeConstant (begun.map (·.flatMap escape)) ++
          .reference name :: compile none pieces) = printed value (closeConstant (begun.map
            (·.flatMap escape))) ++ (value name ++ printed value (compile none pieces)) :=
        List.flatMap_append
      rw [compile, cut, printed_closeConstant, ih, ← List.append_assoc]
      rfl

end Translate

section Read

/-- What an expression is whose rest is read from a state. -/
def Written : State → Text → Prop
  | .text _, expr => ∃ pieces : List Piece, (∀ piece ∈ pieces, piece.WellFormed) ∧ render pieces = expr
  | .var _, expr => ∃ (name : Text) (pieces : List Piece), NoBracket name ∧
      (∀ piece ∈ pieces, piece.WellFormed) ∧ name ++ 93 :: render pieces = expr

theorem written_cons {raw : Option Text} {piece : Piece} {rest : Text} (formed : piece.WellFormed)
    (later : Written (.text raw) rest) : Written (.text none) (piece.write ++ rest) := by
  obtain ⟨pieces, all, rfl⟩ := later
  refine ⟨piece :: pieces, ?_, rfl⟩
  rintro other (_ | ⟨_, member⟩)
  · exact formed
  · exact all other member

theorem map_eq_ok {α β : Type} {f : α → β} {result : Except SyntaxError α} {b : β}
    (ok : result.map f = .ok b) : ∃ a, result = .ok a := by
  cases result with
  | error _ => cases ok
  | ok a => exact ⟨a, rfl⟩

theorem written_of_loop {state : State} {expr : Text} {items : List PrintItem}
    (read : translateLoop state expr = .ok items) : Written state expr := by
  induction state, expr using translateLoop.induct generalizing items with
  | case1 => exact ⟨[], nofun, rfl⟩
  | case2 raw ih =>
    conv_lhs at read => unfold translateLoop
    rw [if_pos rfl] at read
    obtain ⟨_, later⟩ := map_eq_ok read
    obtain ⟨name, pieces, -, -, same⟩ := ih later
    exact absurd same (by simp)
  | case3 raw rest ih =>
    rw [translateLoop_open] at read
    exact @written_cons _ .openBracket _ trivial (ih read)
  | case4 raw c rest other ih =>
    rw [translateLoop_begin _ _ other] at read
    obtain ⟨_, later⟩ := map_eq_ok read
    obtain ⟨name, pieces, plain, formed, same⟩ := ih later
    have whole : Piece.write (.var name) ++ render pieces = 91 :: c :: rest := by
      rw [← same, Piece.write, List.append_assoc]
      rfl
    rw [← whole]
    exact @written_cons none _ _ plain ⟨pieces, formed, rfl⟩
  | case5 raw other =>
    conv_lhs at read => unfold translateLoop
    rw [if_neg other, if_pos rfl] at read
    cases read
  | case6 raw rest other ih =>
    rw [translateLoop_close] at read
    exact @written_cons _ .closeBracket _ trivial (ih read)
  | case7 raw c rest differ other =>
    rw [translateLoop_unmatched _ _ differ] at read
    cases read
  | case8 raw b rest left right ih =>
    rw [translateLoop_plain _ _ left right] at read
    have plain : NoBracket [b] := ⟨by simpa using Ne.symm left, by simpa using Ne.symm right⟩
    exact @written_cons _ (.text [b]) _ plain (ih read)
  | case9 name =>
    conv_lhs at read => unfold translateLoop
    cases read
  | case10 name rest ih =>
    rw [translateLoop_ended] at read
    obtain ⟨_, later⟩ := map_eq_ok read
    obtain ⟨pieces, formed, rfl⟩ := ih later
    exact ⟨[], pieces, by decide, formed, rfl⟩
  | case11 name rest other =>
    rw [translateLoop_nested] at read
    cases read
  | case12 name b rest right left ih =>
    rw [translateLoop_name _ _ left right] at read
    obtain ⟨tail, pieces, plain, formed, rfl⟩ := ih read
    refine ⟨b :: tail, pieces, ⟨?_, ?_⟩, formed, rfl⟩
    · simpa [Ne.symm left] using plain.1
    · simpa [Ne.symm right] using plain.2

/-- **What is read was written by the grammar.** -/
theorem exists_render {expr : Text} {items : List PrintItem}
    (read : translateStringExpr expr = .ok items) :
    ∃ pieces : List Piece, (∀ piece ∈ pieces, piece.WellFormed) ∧ render pieces = expr :=
  written_of_loop read

/-- Another expression that refers to the same names. -/
def SameNames (pieces : List Piece) (expr : Text) : Prop :=
  ∃ others : List Piece, (∀ piece ∈ others, piece.WellFormed) ∧ render others = expr ∧
    names others = names pieces

theorem names_append (front back : List Piece) : names (front ++ back) = names front ++ names back :=
  List.filterMap_append

theorem render_append (front back : List Piece) :
    render (front ++ back) = render front ++ render back :=
  List.flatMap_append

theorem sameNames_dropWhile {pieces : List Piece} (formed : ∀ piece ∈ pieces, piece.WellFormed) :
    SameNames pieces ((render pieces).dropWhile gAsciiIsspace) := by
  induction pieces with
  | nil => exact ⟨[], nofun, rfl, rfl⟩
  | cons piece pieces ih =>
    have here := formed piece List.mem_cons_self
    cases piece with
    | text t =>
      rw [render, List.flatMap_cons, ← render, List.dropWhile_append]
      by_cases blank : (t.dropWhile gAsciiIsspace).isEmpty = true
      · rw [Piece.write, if_pos blank]
        exact ih fun other member => formed other (List.mem_cons_of_mem _ member)
      · rw [Piece.write, if_neg blank]
        have part : ∀ b, b ∉ t → b ∉ t.dropWhile gAsciiIsspace :=
          fun b outside member => outside ((List.dropWhile_suffix _).subset member)
        refine ⟨.text (t.dropWhile gAsciiIsspace) :: pieces, ?_, rfl, rfl⟩
        rintro other (_ | ⟨_, member⟩)
        · exact ⟨part 91 here.1, part 93 here.2⟩
        · exact formed other (List.mem_cons_of_mem _ member)
    | openBracket => exact ⟨.openBracket :: pieces, formed, rfl, rfl⟩
    | closeBracket => exact ⟨.closeBracket :: pieces, formed, rfl, rfl⟩
    | var name => exact ⟨.var name :: pieces, formed, rfl, rfl⟩

theorem rdropWhile_append (front back : Text) : (front ++ back).rdropWhile gAsciiIsspace =
    if back.rdropWhile gAsciiIsspace = [] then front.rdropWhile gAsciiIsspace
    else front ++ back.rdropWhile gAsciiIsspace := by
  unfold List.rdropWhile
  rw [List.reverse_append, List.dropWhile_append]
  by_cases blank : back.reverse.dropWhile gAsciiIsspace = []
  · rw [blank]
    rfl
  · rw [if_neg (by simpa using blank), if_neg (by simpa using blank), List.reverse_append,
      List.reverse_reverse]

theorem sameNames_rdropWhile {pieces : List Piece} (formed : ∀ piece ∈ pieces, piece.WellFormed) :
    SameNames pieces ((render pieces).rdropWhile gAsciiIsspace) := by
  induction pieces using List.reverseRecOn with
  | nil => exact ⟨[], nofun, rfl, rfl⟩
  | append_singleton pieces piece ih =>
    have here := formed piece (by simp)
    have last : render [piece] = piece.write := List.append_nil _
    have kept : ∀ back : Text, piece.write.rdropWhile gAsciiIsspace = back → piece.write = back →
        back ≠ [] → SameNames (pieces ++ [piece])
            ((render pieces ++ piece.write).rdropWhile gAsciiIsspace) := by
      intro back cut same given
      refine ⟨pieces ++ [piece], formed, ?_, rfl⟩
      rw [rdropWhile_append, cut, if_neg given, render_append, last, same]
    rw [render_append, last]
    cases piece with
    | text t =>
      rw [Piece.write, rdropWhile_append]
      by_cases blank : t.rdropWhile gAsciiIsspace = []
      · rw [if_pos blank]
        obtain ⟨others, formed', rendered, same⟩ :=
          ih fun other member => formed other (List.mem_append_left _ member)
        refine ⟨others, formed', rendered, ?_⟩
        rw [same, names_append]
        exact (List.append_nil _).symm
      · rw [if_neg blank]
        have part : ∀ b, b ∉ t → b ∉ t.rdropWhile gAsciiIsspace :=
          fun b outside member => outside ((List.rdropWhile_prefix _ _).subset member)
        refine ⟨pieces ++ [.text (t.rdropWhile gAsciiIsspace)], ?_, ?_, ?_⟩
        · intro other member
          rcases List.mem_append.1 member with member | member
          · exact formed other (List.mem_append_left _ member)
          · rw [List.mem_singleton.1 member]
            exact ⟨part 91 here.1, part 93 here.2⟩
        · rw [render_append]
          exact congrArg _ (List.append_nil _)
        · rw [names_append, names_append]
          rfl
    | openBracket => exact kept [91, 91] rfl rfl nofun
    | closeBracket => exact kept [93, 93] rfl rfl nofun
    | var name =>
      refine kept (91 :: name ++ [93]) ?_ rfl nofun
      rw [Piece.write, List.rdropWhile_concat_neg]
      decide

/-- **The blanks around an expression** are nothing to how it is read. -/
theorem translate_strip {expr : Text} {items : List PrintItem} (ends : 0 ∉ expr)
    (read : translateStringExpr expr = .ok items) :
    ∃ others, translateStringExpr (gStrstrip expr) = .ok others ∧ references others =
    references items := by
  obtain ⟨pieces, formed, rfl⟩ := exists_render read
  have whole : (render pieces).takeWhile (fun b => b ≠ 0) = render pieces :=
    List.takeWhile_eq_self_iff.2 fun b member => decide_eq_true (ne_of_mem_of_not_mem member ends)
  obtain ⟨front, formed', rendered, same⟩ := sameNames_dropWhile formed
  obtain ⟨back, formed'', rendered', same'⟩ := sameNames_rdropWhile formed'
  have stripped : gStrstrip (render pieces) = render back := by
    unfold gStrstrip
    rw [whole, ← rendered, rendered']
  rw [translate_render formed] at read
  cases read
  refine ⟨compile none back, ?_, ?_⟩
  · rw [stripped, translate_render formed'']
  · rw [references_compile, references_compile, same', same]

end Read

end Gebr.Validator.StringExpr
