/-
**Lines that are taken from a buffer.**

A text that arrives bit by bit is kept until a line of it is complete.

* `cut`: the complete lines of a text, and what is behind the last of them.
* `flatMap_cut`: together they are the text.
* `cut_append` — **more text behind**: the lines that were complete stay, and what was behind them
  goes on.
* `cut_lines`: what is written as lines is cut into them.
-/

import Mathlib.Data.List.Basic

namespace Gebr.Lib.LineBuffer

variable {α : Type} [DecidableEq α] {sep : α}

/-- The lines of a text that end with a separator, and what is behind the last separator. -/
def cut (sep : α) : List α → List (List α) × List α
  | [] => ([], [])
  | b :: text =>
    if b = sep then ([] :: (cut sep text).1, (cut sep text).2)
    else
      match (cut sep text).1 with
      | [] => ([], b :: (cut sep text).2)
      | line :: lines => ((b :: line) :: lines, (cut sep text).2)

@[simp] theorem cut_nil : cut sep [] = ([], []) := rfl

theorem cut_cons_sep (text : List α) :
    cut sep (sep :: text) = ([] :: (cut sep text).1, (cut sep text).2) := by
  rw [cut, if_pos rfl]

theorem not_mem_rest (text : List α) : sep ∉ (cut sep text).2 := by
  induction text with
  | nil => exact List.not_mem_nil
  | cons b text ih =>
    by_cases ends : b = sep
    · rw [ends, cut_cons_sep]
      exact ih
    · rw [cut, if_neg ends]
      cases (cut sep text).1 with
      | nil => exact fun member => (List.mem_cons.1 member).elim (fun same => ends same.symm) ih
      | cons line lines => exact ih

theorem not_mem_line (text : List α) : ∀ line ∈ (cut sep text).1, sep ∉ line := by
  induction text with
  | nil => exact fun _ member => absurd member List.not_mem_nil
  | cons b text ih =>
    by_cases ends : b = sep
    · rw [ends, cut_cons_sep]
      exact List.forall_mem_cons.2 ⟨List.not_mem_nil, ih⟩
    · rw [cut, if_neg ends]
      cases found : (cut sep text).1 with
      | nil => exact fun _ member => absurd member List.not_mem_nil
      | cons line lines =>
        rw [found, List.forall_mem_cons] at ih
        refine List.forall_mem_cons.2 ⟨fun member => ?_, ih.2⟩
        exact (List.mem_cons.1 member).elim (fun same => ends same.symm) ih.1

/-- The lines with their separators, and what is behind them, are the text. -/
theorem flatMap_cut (sep : α) (text : List α) :
    (cut sep text).1.flatMap (· ++ [sep]) ++ (cut sep text).2 = text := by
  induction text with
  | nil => rfl
  | cons b text ih =>
    by_cases ends : b = sep
    · rw [ends, cut_cons_sep, List.flatMap_cons, List.append_assoc, ih]
      rfl
    · rw [cut, if_neg ends]
      cases found : (cut sep text).1 with
      | nil =>
        rw [found] at ih
        exact congrArg (b :: ·) ih
      | cons line lines =>
        rw [found, List.flatMap_cons] at ih
        rw [List.flatMap_cons]
        exact congrArg (b :: ·) ih

theorem cut_clean {text : List α} (clean : sep ∉ text) : cut sep text = ([], text) := by
  induction text with
  | nil => rfl
  | cons b text ih =>
    rw [List.mem_cons, not_or] at clean
    rw [cut, if_neg (Ne.symm clean.1), ih clean.2]

/-- **A line in front of a text.** -/
theorem cut_line {line : List α} (clean : sep ∉ line) (text : List α) :
    cut sep (line ++ sep :: text) = (line :: (cut sep text).1, (cut sep text).2) := by
  induction line with
  | nil => exact cut_cons_sep text
  | cons b line ih =>
    rw [List.mem_cons, not_or] at clean
    rw [List.cons_append, cut, if_neg (Ne.symm clean.1), ih clean.2]

/-- **What is written as lines is cut into them.** -/
theorem cut_lines {lines : List (List α)} (clean : ∀ line ∈ lines, sep ∉ line) (text : List α) :
    cut sep (lines.flatMap (· ++ [sep]) ++ text) = (lines ++ (cut sep text).1, (cut sep text).2) := by
  induction lines with
  | nil => rfl
  | cons line lines ih =>
    rw [List.forall_mem_cons] at clean
    rw [List.flatMap_cons, List.append_assoc, List.append_assoc, List.singleton_append,
      cut_line clean.1, ih clean.2, List.cons_append]

/-- **More text behind**: the lines that were complete stay, and what was behind them goes on. -/
theorem cut_append (front back : List α) :
    cut sep (front ++ back) =
      ((cut sep front).1 ++ (cut sep ((cut sep front).2 ++ back)).1,
      (cut sep ((cut sep front).2 ++ back)).2) := by
  conv_lhs => rw [← flatMap_cut sep front, List.append_assoc, cut_lines (not_mem_line front)]

end Gebr.Lib.LineBuffer
