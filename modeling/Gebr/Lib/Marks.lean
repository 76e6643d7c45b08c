/-
**Marks in a text.**

A mark is a word that begins with a byte that it has nowhere else, so two marks never overlap,
except for one that is the beginning of the other.

* `count`: how often a word occurs in a text.
* `count_mark`: a mark is what an occurrence lies in front of, at, or behind.
* `join`: a text with marks, and a piece of text behind each of them.
* `Clean`: no piece has one of the marks, and no mark is the beginning of another one.
* `Clean.once`, `Once.clean`: **the marks of a text are clean iff each of them occurs once**.
* `Once.not_infix_front`: a mark is first found at its own place.
* `Clean.change`: the pieces may be changed, as long as none of them has a mark.
-/

import Mathlib.Data.List.Infix

namespace Gebr.Lib.Marks

variable {α : Type*} [DecidableEq α]

section Count

/-- How often a word that is not empty occurs in a text. -/
def count (word : List α) : List α → ℕ
  | [] => 0
  | b :: s => (if word <+: b :: s then 1 else 0) + count word s

/-- A mark: its first byte is not a later one. -/
def IsMark (head : α) (word : List α) : Prop := ∃ rest, word = head :: rest ∧ head ∉ rest

variable {head : α} {word mark front rest : List α}

@[simp] theorem count_nil (word : List α) : count word [] = 0 := rfl

theorem count_cons (word : List α) (b : α) (s : List α) :
    count word (b :: s) = (if word <+: b :: s then 1 else 0) + count word s := rfl

omit [DecidableEq α] in
theorem IsMark.ne_nil (good : IsMark head word) : word ≠ [] := by
  obtain ⟨rest, rfl, -⟩ := good
  exact List.cons_ne_nil head rest

theorem count_eq_zero (some_byte : word ≠ []) {s : List α} : count word s = 0 ↔ ¬ word <:+: s := by
  induction s with
  | nil =>
    rw [List.infix_nil]
    exact iff_of_true rfl some_byte
  | cons b s ih =>
    rw [count_cons, List.infix_cons_iff, not_or, ← ih, Nat.add_eq_zero_iff]
    refine and_congr ?_ Iff.rfl
    split <;> simp_all

omit [DecidableEq α] in
/-- A word without the first byte of the mark is in front of it wherever it begins there. -/
theorem prefix_append_cons_iff (clean : head ∉ word) :
    word <+: front ++ head :: rest ↔ word <+: front := by
  refine ⟨fun begins => ?_, fun begins => begins.trans (List.prefix_append _ _)⟩
  rcases List.prefix_or_prefix_of_prefix begins (List.prefix_append front (head :: rest)) with
    inside | ⟨more, rfl⟩
  · exact inside
  · rw [List.prefix_append_right_inj] at begins
    cases more with
    | nil => rw [List.append_nil]
    | cons b more =>
      rw [List.cons_prefix_cons] at begins
      exact absurd (List.mem_append_right front (begins.1 ▸ List.mem_cons_self)) clean

/-- No occurrence goes over the first byte of a mark. -/
theorem count_append_cons (good : IsMark head word) (front rest : List α) :
    count word (front ++ head :: rest) = count word front + count word (head :: rest) := by
  obtain ⟨tail, rfl, clean⟩ := good
  induction front with
  | nil => rw [List.nil_append, count_nil, Nat.zero_add]
  | cons b front ih =>
    have here : head :: tail <+: b :: (front ++ head :: rest) ↔ head :: tail <+: b :: front := by
      rw [List.cons_prefix_cons, List.cons_prefix_cons, prefix_append_cons_iff clean]
    rw [List.cons_append, count_cons, count_cons, ih, Nat.add_assoc]
    simp only [here]

/-- No mark begins where its first byte is not. -/
theorem count_append_of_notMem (good : IsMark head word) (clean : head ∉ front) (rest : List α) :
    count word (front ++ rest) = count word rest := by
  obtain ⟨tail, rfl, -⟩ := good
  induction front with
  | nil => rfl
  | cons b front ih =>
    rw [List.mem_cons, not_or] at clean
    rw [List.cons_append, count_cons, if_neg, Nat.zero_add, ih clean.2]
    exact fun begins => clean.1 (List.cons_prefix_cons.1 begins).1

/-- **An occurrence is in front of a mark, at the mark, or behind it.** -/
theorem count_mark (good : IsMark head word) (other : IsMark head mark) (front rest : List α) :
    count word (front ++ (mark ++ rest)) =
      count word front + ((if word <+: mark ++ rest then 1 else 0) + count word rest) := by
  obtain ⟨tail, rfl, clean⟩ := other
  rw [List.cons_append, count_append_cons good, count_cons, count_append_of_notMem good clean]

theorem count_self (good : IsMark head word) (front rest : List α) :
    count word (front ++ (word ++ rest)) = count word front + (1 + count word rest) := by
  rw [count_mark good good, if_pos (List.prefix_append word rest)]

/-- The beginning of a mark does not make one more. -/
theorem not_infix_append_dropLast (good : IsMark head word) (absent : ¬ word <:+: front) :
    ¬ word <:+: front ++ word.dropLast := by
  have some_byte := good.ne_nil
  have positive := List.length_pos_of_ne_nil some_byte
  have short : ¬ word <:+: word.dropLast := by
    intro inside
    have shorter := inside.length_le
    rw [List.length_dropLast] at shorter
    omega
  rw [← count_eq_zero some_byte] at absent short ⊢
  cases begin_eq : word.dropLast with
  | nil => rwa [List.append_nil]
  | cons b begins =>
    have first : b = head := by
      obtain ⟨rest, rfl, -⟩ := good
      have starts : b :: begins <+: head :: rest := begin_eq ▸ List.dropLast_prefix _
      exact (List.cons_prefix_cons.1 starts).1
    subst first
    rw [count_append_cons good, absent, ← begin_eq, short]

end Count

section Join

/-- A text: what is in front of the marks, and each mark with the piece behind it. -/
def join (front : List α) : List (List α × List α) → List α
  | [] => front
  | part :: parts => front ++ (part.1 ++ join part.2 parts)

/-- No piece of a text has one of its marks, and no mark is the beginning of another one. -/
structure Clean (front : List α) (parts : List (List α × List α)) : Prop where
  front : ∀ part ∈ parts, ¬ part.1 <:+: front
  pieces : ∀ part ∈ parts, ∀ other ∈ parts, ¬ part.1 <:+: other.2
  apart : parts.Pairwise fun part other => ¬ part.1 <+: other.1 ∧ ¬ other.1 <+: part.1

/-- Each mark of a text occurs once. -/
def Once (front : List α) (parts : List (List α × List α)) : Prop :=
  ∀ part ∈ parts, count part.1 (join front parts) = 1

variable {head : α} {word front : List α} {part : List α × List α} {parts : List (List α × List α)}

omit [DecidableEq α] in
theorem join_append (front : List α) (before : List (List α × List α)) (part : List α × List α)
    (after : List (List α × List α)) :
    join front (before ++ part :: after) = join front before ++ (part.1 ++ join part.2 after) := by
  induction before generalizing front with
  | nil => rfl
  | cons first before ih =>
    rw [List.cons_append, join, ih, join, List.append_assoc, List.append_assoc]

/-- What is apart from all marks, and in no piece, does not occur. -/
theorem count_join_eq_zero (good : IsMark head word) (marks : ∀ part ∈ parts, IsMark head part.1)
    (inFront : ¬ word <:+: front) (inPieces : ∀ part ∈ parts, ¬ word <:+: part.2)
    (apart : ∀ part ∈ parts, ¬ word <+: part.1 ∧ ¬ part.1 <+: word) :
    count word (join front parts) = 0 := by
  induction parts generalizing front with
  | nil => exact (count_eq_zero good.ne_nil).2 inFront
  | cons part parts ih =>
    have here := apart part List.mem_cons_self
    have later := ih (fun other member => marks other (List.mem_cons_of_mem part member))
      (inPieces part List.mem_cons_self)
        (fun other member => inPieces other (List.mem_cons_of_mem part member))
      (fun other member => apart other (List.mem_cons_of_mem part member))
    rw [join, count_mark good (marks part List.mem_cons_self), later,
      (count_eq_zero good.ne_nil).2 inFront, if_neg]
    intro begins
    rcases List.prefix_or_prefix_of_prefix begins (List.prefix_append part.1 _) with inside | longer
    · exact here.1 inside
    · exact here.2 longer

omit [DecidableEq α] in
theorem Clean.tail (clean : Clean front (part :: parts)) : Clean part.2 parts where
  front other member := clean.pieces other (List.mem_cons_of_mem part member) part List.mem_cons_self
  pieces other member piece there := clean.pieces other (List.mem_cons_of_mem part member) piece
    (List.mem_cons_of_mem part there)
  apart := (List.pairwise_cons.1 clean.apart).2

/-- The first mark is not in what is behind it. -/
theorem Clean.count_behind (clean : Clean front (part :: parts))
    (marks : ∀ other ∈ part :: parts, IsMark head other.1) : count part.1 (join part.2 parts) = 0 :=
  count_join_eq_zero (marks part List.mem_cons_self)
    (fun other member => marks other (List.mem_cons_of_mem part member))
    (clean.pieces part List.mem_cons_self part List.mem_cons_self)
    (fun other member => clean.pieces part List.mem_cons_self other (List.mem_cons_of_mem part member))
    (List.pairwise_cons.1 clean.apart).1

/-- **Clean marks occur once.** -/
theorem Clean.once (clean : Clean front parts) (marks : ∀ part ∈ parts, IsMark head part.1) :
    Once front parts := by
  induction parts generalizing front with
  | nil => exact fun part member => absurd member List.not_mem_nil
  | cons part parts ih =>
    have later := ih clean.tail fun other member => marks other (List.mem_cons_of_mem part member)
    have apart := (List.pairwise_cons.1 clean.apart).1
    intro other member
    have good := marks other member
    have absent := (count_eq_zero good.ne_nil).2 (clean.front other member)
    rcases List.mem_cons.1 member with rfl | behind
    · rw [join, count_self good, absent, clean.count_behind marks]
    · rw [join, count_mark good (marks part List.mem_cons_self), absent, later other behind, if_neg]
      intro begins
      rcases List.prefix_or_prefix_of_prefix begins (List.prefix_append part.1 _) with inside | longer
      · exact (apart other behind).2 inside
      · exact (apart other behind).1 longer

omit [DecidableEq α] in
theorem infix_join (member : part ∈ parts) :
    part.1 <:+: join front parts ∧ part.2 <:+: join front parts := by
  obtain ⟨before, after, rfl⟩ := List.append_of_mem member
  have begins : part.2 <+: join part.2 after := by
    cases after with
    | nil => exact List.prefix_rfl
    | cons other after => exact List.prefix_append _ _
  obtain ⟨rest, whole⟩ := begins
  rw [join_append]
  exact ⟨⟨join front before, join part.2 after, List.append_assoc _ _ _⟩,
    ⟨join front before ++ part.1, rest, by rw [← whole]; simp only [List.append_assoc]⟩⟩

/-- **Marks that occur once are clean.** -/
theorem Once.clean (once : Once front parts) (marks : ∀ part ∈ parts, IsMark head part.1) :
    Clean front parts := by
  induction parts generalizing front with
  | nil => exact ⟨fun _ member => absurd member List.not_mem_nil,
      fun _ member => absurd member List.not_mem_nil, List.Pairwise.nil⟩
  | cons part parts ih =>
    have goodHere := marks part List.mem_cons_self
    have goodLater := fun other member => marks other (List.mem_cons_of_mem part member)
    have here : count part.1 front = 0 ∧ count part.1 (join part.2 parts) = 0 := by
      have total := once part List.mem_cons_self
      rw [join, count_self goodHere] at total
      omega
    have behind : ∀ other ∈ parts, count other.1 front = 0 ∧ ¬ other.1 <+: part.1 ∧
        count other.1 (join part.2 parts) = 1 := by
      intro other member
      have good := goodLater other member
      have total := once other (List.mem_cons_of_mem part member)
      have found : count other.1 (join part.2 parts) ≠ 0 := fun none =>
        (count_eq_zero good.ne_nil).1 none (infix_join member).1
      rw [join, count_mark good goodHere] at total
      refine ⟨by omega, fun inside => ?_, by omega⟩
      rw [if_pos (inside.trans (List.prefix_append _ _))] at total
      omega
    have later := ih (fun other member => (behind other member).2.2) goodLater
    have absent := (count_eq_zero goodHere.ne_nil).1 here.2
    refine ⟨?_, ?_, List.pairwise_cons.2
      ⟨fun other member => ⟨fun inside => ?_, (behind other member).2.1⟩, later.apart⟩⟩
    · refine List.forall_mem_cons.2 ⟨(count_eq_zero goodHere.ne_nil).1 here.1, fun other member => ?_⟩
      exact (count_eq_zero (goodLater other member).ne_nil).1 (behind other member).1
    · have own : ¬ part.1 <:+: part.2 := by
        intro inside
        apply absent
        cases parts with
        | nil => exact inside
        | cons other parts => exact inside.trans (List.prefix_append _ _).isInfix
      refine List.forall_mem_cons.2 ⟨List.forall_mem_cons.2 ⟨own, fun other member inside =>
        absent (inside.trans (infix_join member).2)⟩, fun other member =>
          List.forall_mem_cons.2 ⟨later.front other member, later.pieces other member⟩⟩
    · exact absent (inside.isInfix.trans (infix_join member).1)

/-- **A mark is not in front of its own place.** -/
theorem Once.not_infix_front {before after : List (List α × List α)}
    (once : Once front (before ++ part :: after)) (good : IsMark head part.1) :
    ¬ part.1 <:+: join front before := by
  have total := once part (List.mem_append_right before List.mem_cons_self)
  rw [join_append, count_self good] at total
  rw [← count_eq_zero good.ne_nil]
  omega

omit [DecidableEq α] in
/-- **The pieces may be changed**, as long as none of them has a mark. -/
theorem Clean.change {changed : List (List α × List α)} (clean : Clean front parts)
    (marks : changed.map Prod.fst = parts.map Prod.fst)
    (pieces : ∀ part ∈ changed, ∀ other ∈ changed, ¬ part.1 <:+: other.2) : Clean front changed where
  front part member := by
    have inside : part.1 ∈ parts.map Prod.fst := marks ▸ List.mem_map_of_mem member
    obtain ⟨other, there, same⟩ := List.mem_map.1 inside
    exact same ▸ clean.front other there
  pieces := pieces
  apart := by
    have apart : (parts.map Prod.fst).Pairwise fun mark other => ¬ mark <+: other ∧ ¬ other <+: mark :=
      List.pairwise_map.2 clean.apart
    rw [← marks] at apart
    exact List.pairwise_map.1 apart

end Join

end Gebr.Lib.Marks
