/-
**A lock and who is in its section.**

The lock is a flag that any process can read; who is in the section is a predicate on processes. The
two belong together as long as the flag is raised by a process that finds it down, and is lowered by
the process that leaves.

* `Exclusive`: the flag is up just when a process is in the section, and no two are.
* `Exclusive.congr`, `Exclusive.acquire`, `Exclusive.release`: the three ways to move on.
-/

import Mathlib.Logic.Basic

namespace Gebr.Lib

variable {ι : Type*} {lock : Bool} {owns owns' : ι → Prop}

/-- **The flag answers for exactly one process.** -/
structure Exclusive (lock : Bool) (owns : ι → Prop) : Prop where
  held : lock = true → ∃ p, owns p
  raised : ∀ p, owns p → lock = true
  unique : ∀ p q, owns p → owns q → p = q

theorem Exclusive.congr (exclusive : Exclusive lock owns) (same : ∀ p, owns' p ↔ owns p) :
    Exclusive lock owns' where
  held up := (exclusive.held up).imp fun p => (same p).2
  raised p inside := exclusive.raised p ((same p).1 inside)
  unique p q first second := exclusive.unique p q ((same p).1 first) ((same q).1 second)

/-- **Acquiring**: the flag was down, and one process has come in. -/
theorem Exclusive.acquire (exclusive : Exclusive false owns) {p : ι}
    (entered : ∀ q, owns' q ↔ q = p ∨ owns q) : Exclusive true owns' where
  held _ := ⟨p, (entered p).2 (Or.inl rfl)⟩
  raised _ _ := rfl
  unique q r first second := by
    have only : ∀ q, owns' q → q = p := by
      intro q inside
      rcases (entered q).1 inside with same | before
      · exact same
      · exact absurd (exclusive.raised q before) Bool.false_ne_true
    rw [only q first, only r second]

/-- **Releasing**: the process that was inside has left. -/
theorem Exclusive.release (exclusive : Exclusive lock owns) {p : ι} (inside : owns p)
    (left : ∀ q, owns' q ↔ owns q ∧ q ≠ p) : Exclusive false owns' where
  held down := nomatch down
  raised q still := by
    obtain ⟨before, other⟩ := (left q).1 still
    exact absurd (exclusive.unique q p before inside) other
  unique q r first second := exclusive.unique q r ((left q).1 first).1 ((left r).1 second).1

end Gebr.Lib
