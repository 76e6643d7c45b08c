/-
**Logs in which everything is defined before it is used.**

The entries of a log define keys and use keys.

* `DefinedFirst.append`: a log may go on with entries whose keys are defined in it.
* `Defined.append`: what is defined stays defined.
-/

import Mathlib.Data.List.Basic

namespace Gebr.Lib

variable {α κ : Type*} {defines uses : α → κ → Prop} {log more : List α}

/-- Some entry of the log defines the key. -/
def Defined (defines : α → κ → Prop) (log : List α) (key : κ) : Prop :=
  ∃ entry ∈ log, defines entry key

/-- **Before each entry, the keys that it uses are defined.** -/
def DefinedFirst (defines uses : α → κ → Prop) (log : List α) : Prop :=
  ∀ before entry after, log = before ++ entry :: after →
    ∀ key, uses entry key → Defined defines before key

theorem Defined.append {key : κ} (defined : Defined defines log key) (more : List α) :
    Defined defines (log ++ more) key := by
  obtain ⟨entry, member, here⟩ := defined
  exact ⟨entry, List.mem_append_left _ member, here⟩

theorem definedFirst_nil : DefinedFirst defines uses [] := by
  intro before entry after split
  exact absurd split.symm (List.append_ne_nil_of_right_ne_nil _ (List.cons_ne_nil _ _))

/-- **A log goes on with one entry.** -/
theorem DefinedFirst.concat (sound : DefinedFirst defines uses log) {entry : α}
    (ready : ∀ key, uses entry key → Defined defines log key) :
    DefinedFirst defines uses (log ++ [entry]) := by
  intro before other after split key used
  rcases List.eq_nil_or_concat' after with rfl | ⟨rest, last, rfl⟩
  · obtain ⟨rfl, same⟩ := List.append_inj' split rfl
    obtain rfl : entry = other := (List.cons.inj same).1
    exact ready key used
  · rw [← List.cons_append, ← List.append_assoc] at split
    obtain ⟨rfl, -⟩ := List.append_inj' split rfl
    exact sound before other rest rfl key used

/-- **A log goes on with entries that use what it defines.** -/
theorem DefinedFirst.append (sound : DefinedFirst defines uses log)
    (ready : ∀ entry ∈ more, ∀ key, uses entry key → Defined defines log key) :
    DefinedFirst defines uses (log ++ more) := by
  induction more generalizing log with
  | nil =>
    rw [List.append_nil]
    exact sound
  | cons entry more ih =>
    rw [List.forall_mem_cons] at ready
    rw [← List.singleton_append, ← List.append_assoc]
    refine ih (sound.concat ready.1) fun other member key used => ?_
    exact (ready.2 other member key used).append [entry]

end Gebr.Lib
