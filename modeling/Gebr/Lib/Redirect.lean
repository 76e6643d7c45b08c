/-
**Files that the turns of a loop write.**

Each turn opens the file that it names, and adds to it (`>>`) or replaces it (`>`); one file may be
emptied before the first turn.

* `turns`: what is in the files after the turns, in some order.
* `turns_append`, `turns_replace`: what a file holds then.
* `Kept`: a file that is named holds what this loop wrote to it, and nothing else.
* `kept_append_iff` — **turns that add** do so iff all of them name the file that was emptied.
* `kept_replace_iff` — **turns that replace** do so iff no two of them name the same file.
-/

import Mathlib.Data.List.Induction
import Mathlib.Data.List.Nodup
import Mathlib.Logic.Function.Basic

namespace Gebr.Lib.Redirect

variable {File Chunk : Type*} [DecidableEq File]

/-- The files, each with what was written to it, in order. -/
abbrev Store (File Chunk : Type*) : Type _ := File → List Chunk

section Turns

variable (names : ℕ → File) (outs : ℕ → Chunk)

/-- What a turn leaves. -/
def turn (append : Bool) (store : Store File Chunk) (counter : ℕ) : Store File Chunk :=
  Function.update store (names counter)
    (if append then store (names counter) ++ [outs counter] else [outs counter])

/-- What the turns leave, in their order. -/
def turns (append : Bool) (order : List ℕ) (store : Store File Chunk) : Store File Chunk :=
  order.foldl (turn names outs append) store

/-- What the turns that name a file wrote. -/
def written (order : List ℕ) (file : File) : List Chunk :=
  (order.filter fun counter => names counter = file).map outs

variable {names outs} {order : List ℕ} {store : Store File Chunk} {file : File}

@[simp] theorem turns_nil (append : Bool) : turns names outs append [] store = store := rfl

@[simp] theorem turns_cons (append : Bool) (counter : ℕ) :
    turns names outs append (counter :: order) store =
      turns names outs append order (turn names outs append store counter) := rfl

theorem turns_append : turns names outs true order store file = store file ++
    written names outs order file := by
  induction order generalizing store with
  | nil => simp [written]
  | cons counter order ih =>
    rw [turns_cons, ih, turn, Function.update_apply]
    by_cases here : names counter = file
    · subst here
      simp [written]
    · simp [written, here, Ne.symm here]

theorem turns_replace : turns names outs false order store file =
    (written names outs order file).getLast?.elim (store file) fun chunk => [chunk] := by
  induction order using List.reverseRecOn with
  | nil => rfl
  | append_singleton order counter ih =>
    have last : turns names outs false (order ++ [counter]) store =
        turn names outs false (turns names outs false order store) counter := List.foldl_append
    rw [last, turn, Function.update_apply]
    by_cases here : names counter = file
    · subst here
      simp [written]
    · simp only [if_neg (Ne.symm here), ih]
      simp [written, here]

end Turns

section Kept

variable {names : ℕ → File} {order : List ℕ}

/-- **Each file that is named holds what the turns wrote**, whatever was in it before. -/
def Kept (names : ℕ → File) (append : Bool) (emptied : Option File) (order : List ℕ) : Prop :=
  ∀ (Chunk : Type) (outs : ℕ → Chunk) (store : Store File Chunk), ∀ counter ∈ order,
    turns names outs append order (emptied.elim store fun file => Function.update store file [])
        (names counter) = written names outs order (names counter)

theorem kept_append_iff {emptied : File} :
    Kept names true (some emptied) order ↔ ∀ counter ∈ order, names counter = emptied := by
  constructor
  · intro kept counter member
    by_contra other
    have stale := kept Unit (fun _ => ()) (fun _ => [()]) counter member
    rw [turns_append, Option.elim_some, Function.update_of_ne other] at stale
    have lengths := congrArg List.length stale
    simp at lengths
  · intro same Chunk outs store counter member
    rw [turns_append, Option.elim_some, same counter member, Function.update_self, List.nil_append]

theorem mem_written {Chunk : Type} {outs : ℕ → Chunk} {counter : ℕ} (member : counter ∈ order) :
    outs counter ∈ written names outs order (names counter) :=
  List.mem_map_of_mem (List.mem_filter.2 ⟨member, decide_eq_true rfl⟩)

theorem kept_replace_iff {emptied : Option File} (nodup : order.Nodup) :
    Kept names false emptied order ↔
      ∀ counter ∈ order, ∀ other ∈ order, names counter = names other → counter = other := by
  constructor
  · intro kept counter member other member' same
    have all := kept ℕ id (fun _ => []) counter member
    have mine : counter ∈ written names id order (names counter) := mem_written member
    have others : other ∈ written names id order (names counter) := by
      rw [same]
      exact mem_written member'
    rw [turns_replace] at all
    cases last : (written names id order (names counter)).getLast? with
    | none =>
      rw [List.getLast?_eq_none_iff.1 last] at mine
      cases mine
    | some chunk =>
      rw [last, Option.elim_some] at all
      rw [← all, List.mem_singleton] at mine others
      rw [mine, others]
  · intro apart Chunk outs store counter member
    have single : order.filter (fun other => names other = names counter) = [counter] := by
      have unique : ∀ other ∈ order.filter (fun other => names other = names counter),
          other = counter := by
        intro other inside
        have here := List.mem_filter.1 inside
        exact apart other here.1 counter member (of_decide_eq_true here.2)
      have has : counter ∈ order.filter (fun other => names other = names counter) :=
        List.mem_filter.2 ⟨member, decide_eq_true rfl⟩
      have same := List.eq_replicate_of_mem unique
      have once := nodup.filter fun other => names other = names counter
      rw [same, List.nodup_replicate] at once
      have some := List.length_pos_of_mem has
      rw [same, show (order.filter fun other => names other = names counter).length = 1 by omega]
      rfl
    rw [turns_replace, written, single]
    rfl

end Kept

end Gebr.Lib.Redirect
