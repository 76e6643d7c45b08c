/-
**Forests given by a parent function, and splicing a node out.**

A forest over `α` is a partial parent function whose links are well-founded
(`Acyclic`). `splice parent x` removes the node `x`: every child of `x` is handed to the parent
of `x`, every other link stays.

* `splice_acyclic`: splicing keeps the links well-founded, whatever the node.
-/

import Mathlib.Logic.Relation
import Mathlib.Order.WellFounded

namespace Gebr.Lib.Forest

variable {α : Type*}

/-- `Link parent a b`: `a` is the parent of `b`. -/
def Link (parent : α → Option α) (a b : α) : Prop := parent b = some a

/-- **No infinite ascent** along parent links. -/
def Acyclic (parent : α → Option α) : Prop := WellFounded (Link parent)

/-- A parent function with a strictly decreasing rank along its links is acyclic. -/
theorem acyclic_of_rank {parent : α → Option α} (rank : α → ℕ)
    (decreases : ∀ a b, parent b = some a → rank a < rank b) : Acyclic parent :=
  Subrelation.wf (fun {a b} link => decreases a b link) (measure rank).wf

namespace Acyclic

variable {parent : α → Option α}

theorem not_self (acyclic : Acyclic parent) (a : α) : parent a ≠ some a := fun loop =>
  acyclic.irrefl.irrefl a loop

end Acyclic

section Splice

variable [DecidableEq α]

/-- **The parent function with `x` taken out**: the children of `x` get the parent of `x`. -/
def splice (parent : α → Option α) (x : α) (b : α) : Option α :=
  if parent b = some x then parent x else parent b

/-- A link of the spliced function is a link, or a link through the node taken out. -/
theorem splice_link {parent : α → Option α} {x a b : α} (link : Link (splice parent x) a b) :
    Relation.TransGen (Link parent) a b := by
  unfold Link splice at link
  by_cases child : parent b = some x
  · rw [if_pos child] at link
    exact Relation.TransGen.tail (Relation.TransGen.single link) child
  · rw [if_neg child] at link
    exact Relation.TransGen.single link

/-- **Splicing a node out of a forest leaves a forest.** -/
theorem splice_acyclic {parent : α → Option α} (acyclic : Acyclic parent) (x : α) :
    Acyclic (splice parent x) :=
  Subrelation.wf (fun {_ _} link => splice_link link) acyclic.transGen

end Splice

end Gebr.Lib.Forest
