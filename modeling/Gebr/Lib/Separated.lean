/-
**Words joined by a separator, and what occurs in the text.**

* `tail_eq_dropLast`: a separator before each word, without the first, is one after each word,
  without the last.
* `infix_of_mem`: each word occurs in the text.
* `infix_flatMap_iff`, `infix_intercalate_iff`: what has no separator occurs in the text only where
  it occurs in a word.
* `head?_intercalate`, `getLast?_intercalate`: the text begins with its first word and ends with its
  last one.
-/

import Mathlib.Data.List.Infix

namespace Gebr.Lib.Separated

variable {α : Type*} {sep : α} {word : List α} {words : List (List α)}

/-- The separators are those after the words, or those before them. -/
theorem cons_flatMap (sep : α) (words : List (List α)) :
    words.flatMap (sep :: ·) ++ [sep] = sep :: words.flatMap (· ++ [sep]) := by
  induction words with
  | nil => rfl
  | cons word words ih =>
    rw [List.flatMap_cons, List.flatMap_cons, List.append_assoc, ih, List.cons_append,
      List.append_assoc, List.singleton_append]

theorem tail_eq_dropLast (sep : α) (words : List (List α)) :
    (words.flatMap (sep :: ·)).tail = (words.flatMap (· ++ [sep])).dropLast := by
  have same := congrArg (fun text => text.tail.dropLast) (cons_flatMap sep words)
  cases words with
  | nil => rfl
  | cons word words => simpa [List.dropLast_append_of_ne_nil] using same

/-- **Each word occurs in the text.** -/
theorem infix_of_mem (member : word ∈ words) : word <:+: (words.flatMap (· ++ [sep])).dropLast := by
  obtain ⟨front, back, rfl⟩ := List.append_of_mem member
  refine ⟨front.flatMap (· ++ [sep]), (sep :: back.flatMap (· ++ [sep])).dropLast, ?_⟩
  rw [List.flatMap_append, List.flatMap_cons, List.append_assoc word, List.singleton_append,
    ← List.append_assoc, List.dropLast_append_of_ne_nil (List.cons_ne_nil _ _)]

theorem infix_flatMap_of_mem (sep : α) (member : word ∈ words) :
    word <:+: words.flatMap (sep :: ·) := by
  obtain ⟨front, back, rfl⟩ := List.append_of_mem member
  refine ⟨front.flatMap (sep :: ·) ++ [sep], back.flatMap (sep :: ·), ?_⟩
  rw [List.flatMap_append, List.flatMap_cons, List.append_assoc, List.append_assoc,
    List.singleton_append, List.cons_append]

/-- What has no separator occurs before one or after it. -/
theorem infix_cut {front back : List α} (clean : sep ∉ word)
    (occurs : word <:+: front ++ sep :: back) : word <:+: front ∨ word <:+: back := by
  obtain ⟨before, after, same⟩ := occurs
  rcases List.append_eq_append_iff.1 same with ⟨rest, rfl, -⟩ | ⟨rest, left, right⟩
  · exact Or.inl ⟨before, rest, rfl⟩
  · cases rest with
    | nil => exact Or.inl ⟨before, [], by rw [List.append_nil, left, List.append_nil]⟩
    | cons first rest =>
      obtain ⟨rfl, rfl⟩ := List.cons.inj right
      rcases List.append_eq_append_iff.1 left with ⟨inner, -, rfl⟩ | ⟨inner, -, tail⟩
      · exact absurd (List.mem_append_right inner List.mem_cons_self) clean
      · cases inner with
        | nil =>
          rw [List.nil_append] at tail
          exact absurd (tail ▸ List.mem_cons_self) clean
        | cons first inner =>
          obtain ⟨-, rfl⟩ := List.cons.inj tail
          exact Or.inr ⟨inner, after, rfl⟩

/-- **What has no separator and is not empty occurs in the text where it occurs in a word.** -/
theorem infix_flatMap_iff (clean : sep ∉ word) (some_item : word ≠ []) :
    word <:+: words.flatMap (sep :: ·) ↔ ∃ other ∈ words, word <:+: other := by
  constructor
  · intro occurs
    induction words with
    | nil => exact absurd (List.infix_nil.1 occurs) some_item
    | cons first words ih =>
      rw [List.flatMap_cons, List.cons_append] at occurs
      have later : word <:+: first ++ words.flatMap (sep :: ·) := by
        have cut : word <:+: [] ∨ word <:+: first ++ words.flatMap (sep :: ·) := infix_cut clean occurs
        rcases cut with empty | later
        · exact absurd (List.infix_nil.1 empty) some_item
        · exact later
      cases words with
      | nil =>
        rw [List.flatMap_nil, List.append_nil] at later
        exact ⟨first, List.mem_cons_self, later⟩
      | cons second words =>
        rw [List.flatMap_cons, List.cons_append] at later
        rcases infix_cut clean later with here | there
        · exact ⟨first, List.mem_cons_self, here⟩
        · obtain ⟨other, member, occurs⟩ := ih (by
            rw [List.flatMap_cons, List.cons_append]
            exact List.infix_cons there)
          exact ⟨other, List.mem_cons_of_mem first member, occurs⟩
  · rintro ⟨other, member, occurs⟩
    exact occurs.trans (infix_flatMap_of_mem sep member)

/-- A separator before each word but the first one. -/
theorem intercalate_cons (sep : α) (word : List α) (words : List (List α)) :
    [sep].intercalate (word :: words) = word ++ words.flatMap (sep :: ·) := by
  induction words generalizing word with
  | nil => rw [List.intercalate_singleton, List.flatMap_nil, List.append_nil]
  | cons next words ih =>
    rw [List.intercalate_cons_cons, ih, List.flatMap_cons, List.append_assoc, List.singleton_append,
      List.cons_append]

theorem infix_intercalate_iff (clean : sep ∉ word) (some_item : word ≠ []) :
    word <:+: [sep].intercalate words ↔ ∃ other ∈ words, word <:+: other := by
  rw [← infix_flatMap_iff clean some_item]
  cases words with
  | nil => rfl
  | cons first words =>
    rw [intercalate_cons, List.flatMap_cons, List.cons_append]
    refine ⟨List.infix_cons, fun occurs => ?_⟩
    have cut : word <:+: [] ∨ word <:+: first ++ words.flatMap (sep :: ·) := infix_cut clean occurs
    exact cut.resolve_left fun empty => some_item (List.infix_nil.1 empty)

theorem head?_intercalate {first : List α} (some_item : first ≠ []) (sep : α) (words : List (List α)) :
    ([sep].intercalate (first :: words)).head? = first.head? := by
  rw [intercalate_cons, List.head?_append_of_ne_nil _ some_item]

/-- The text ends with its last word, where that is not empty. -/
theorem getLast?_intercalate {last : List α} (some_item : last ≠ []) (sep : α)
    (words : List (List α)) : ([sep].intercalate (words ++ [last])).getLast? = last.getLast? := by
  cases words with
  | nil => rw [List.nil_append, List.intercalate_singleton]
  | cons first words =>
    rw [List.cons_append, intercalate_cons, List.flatMap_append, List.flatMap_singleton,
      ← List.append_assoc, List.getLast?_append_of_ne_nil _ (List.cons_ne_nil _ _),
        List.getLast?_cons_of_ne_nil some_item]

end Gebr.Lib.Separated
