/-
**The nodes below one parent.**

No node is there twice. A node is moved by giving the one that it is to stand in front of.

* `following`, `preceding`: the nodes on both sides of a node, the nearest one first.
* `insertBefore`: the move.
* `insertBefore_head` — **where the node is then**: in front of what was given, and the others as
  they were.
* `Inserted`: nothing but one node is somewhere else.
* `lastWhile`: a walk that ends in front of the first node which is not wanted.
-/

import Gebr.Lib.ListMove

namespace Gebr.Lib.Siblings

open Gebr.Lib.ListMove

variable {α : Type*}

section Model

variable [DecidableEq α]

/-- The nodes behind a node. -/
def following (x : α) (list : List α) : List α := list.drop (list.idxOf x + 1)

/-- The nodes in front of a node, from the nearest one on. -/
def preceding (x : α) (list : List α) : List α := (list.take (list.idxOf x)).reverse

/-- A node of the list is put in front of another one of it, or behind all others. -/
def insertBefore (x : α) (position : Option α) (list : List α) : List α :=
  match position with
  | none => list.erase x ++ [x]
  | some r => if x = r then list else insertAt ((list.erase x).idxOf r) x (list.erase x)

end Model

section Splits

variable {x : α} {front rest list : List α}

/-- A node of a list stands between what is in front of it and what is behind it. -/
theorem exists_split (nodup : list.Nodup) (member : x ∈ list) :
    ∃ front rest, list = front ++ x :: rest ∧ x ∉ front ∧ x ∉ rest := by
  obtain ⟨front, rest, rfl⟩ := List.append_of_mem member
  have apart := List.nodup_middle.1 nodup
  have away := (List.nodup_cons.1 apart).1
  exact ⟨front, rest, rfl, fun here => away (List.mem_append_left rest here),
    fun here => away (List.mem_append_right front here)⟩

variable [DecidableEq α]

theorem idxOf_split (away : x ∉ front) : (front ++ x :: rest).idxOf x = front.length := by
  rw [List.idxOf_append_of_notMem away, List.idxOf_cons_self, Nat.add_zero]

theorem following_split (away : x ∉ front) : following x (front ++ x :: rest) = rest := by
  unfold following
  rw [idxOf_split away]
  simp

theorem preceding_split (away : x ∉ front) : preceding x (front ++ x :: rest) = front.reverse := by
  unfold preceding
  rw [idxOf_split away, List.take_left]

theorem erase_split (away : x ∉ front) : (front ++ x :: rest).erase x = front ++ rest := by
  rw [List.erase_append_right _ away, List.erase_cons_head]

end Splits

section Insert

variable [DecidableEq α] {x : α} {list front rest : List α}

/-- **Where the node is then.** The others are given as what is to stand in front of it and what
behind. -/
theorem insertBefore_head (nodup : list.Nodup) (others : list.erase x = front ++ rest) :
    insertBefore x rest.head? list = front ++ x :: rest := by
  cases rest with
  | nil =>
    show list.erase x ++ [x] = front ++ [x]
    rw [others, List.append_nil]
  | cons r rest =>
    have apart : x ≠ r := by
      rintro rfl
      refine List.Nodup.not_mem_erase (a := x) nodup ?_
      rw [others]
      exact List.mem_append_right front List.mem_cons_self
    have away : r ∉ front := by
      have distinct := nodup.erase x
      rw [others] at distinct
      exact fun here => List.disjoint_of_nodup_append distinct here List.mem_cons_self
    show (if x = r then list else _) = _
    rw [if_neg apart, others, idxOf_split away]
    unfold insertAt
    simp

theorem insertBefore_self (x : α) (list : List α) : insertBefore x (some x) list = list := if_pos rfl

/-- The others are as they were, and the node is among them. -/
def Inserted (x : α) (before after : List α) : Prop :=
  ∃ front rest, before.erase x = front ++ rest ∧ after = front ++ x :: rest

theorem Inserted.refl (nodup : list.Nodup) (member : x ∈ list) : Inserted x list list := by
  obtain ⟨front, rest, rfl, away, -⟩ := exists_split nodup member
  exact ⟨front, rest, erase_split away, rfl⟩

variable {before after : List α}

/-- **The same nodes.** -/
theorem Inserted.perm (inserted : Inserted x before after) (member : x ∈ before) :
    after.Perm before := by
  obtain ⟨front, rest, others, rfl⟩ := inserted
  have back := (List.perm_cons_erase member).symm
  rw [others] at back
  exact List.perm_middle.trans back

/-- **The others keep their order.** -/
theorem Inserted.erase (inserted : Inserted x before after) (nodup : before.Nodup) :
    after.erase x = before.erase x := by
  obtain ⟨front, rest, others, rfl⟩ := inserted
  have away : x ∉ front := by
    intro here
    refine List.Nodup.not_mem_erase (a := x) nodup ?_
    rw [others]
    exact List.mem_append_left rest here
  rw [erase_split away, others]

end Insert

section Walk

/-- The last node of a walk that starts at a node and ends in front of one that is not wanted. -/
def lastWhile (wanted : α → Bool) (x : α) : List α → α
  | [] => x
  | y :: rest => if wanted y then lastWhile wanted y rest else x

variable {wanted : α → Bool} {x : α} {run rest : List α}

/-- The walk goes to the end of a run of wanted nodes. -/
theorem lastWhile_run (all : ∀ y ∈ run, wanted y = true) (stop : ∀ y ∈ rest.head?, wanted y = false) :
    lastWhile wanted x (run ++ rest) = (x :: run).getLast (List.cons_ne_nil x run) := by
  induction run generalizing x with
  | nil =>
    cases rest with
    | nil => rfl
    | cons y rest =>
      show (if wanted y then _ else x) = x
      rw [if_neg (by simp [stop y rfl])]
  | cons y run ih =>
    show (if wanted y then lastWhile wanted y (run ++ rest) else x) = _
    rw [if_pos (all y List.mem_cons_self), ih fun z member => all z (List.mem_cons_of_mem y member)]
    rfl

end Walk

end Gebr.Lib.Siblings
