/-
**Repairs that are made again and again, until a pass changes nothing.**

A repair has a test and a change, which may fail. A pass goes over a list of repairs and makes those
whose test says so; passes are made until one makes no repair.

* `onePass`, `untilDone`: a pass, and the passes with a bound on their number.
* `onePass_map_fst`: what a pass makes of a state.
* `onePass_keeps`: what every repair keeps, a pass keeps.
* `onePass_total`, `onePass_descends`: a pass goes through, and goes down when it makes a repair.
* `untilDone_fine`, `untilDone_keeps`: what holds where the passes end.
* `untilDone_total`: **passes that go down end**, if each can be made.
* `untilDone_iff`: passes that go down end if and only if they began well, where each keeps that.
* `untilDone_none`: passes that keep a state with a repair to make never end.
-/

import Mathlib.Order.Lattice

namespace Gebr.Lib.Passes

variable {α ι : Type*} (test : ι → α → Bool) (change : ι → α → Option α)

/-- A pass; it tells whether there was anything to repair. -/
def onePass : List ι → α → Bool → Option (α × Bool)
  | [], a, repaired => some (a, repaired)
  | i :: repairs, a, repaired =>
    if test i a then (change i a).bind fun b => onePass repairs b true else onePass repairs a repaired

/-- The passes until nothing was repaired, at most so many. -/
def untilDone (repairs : List ι) : ℕ → α → Option α
  | 0, _ => none
  | fuel + 1, a =>
    (onePass test change repairs a false).bind fun (b, repaired) => if repaired then
      untilDone repairs fuel b else some b

variable {test change} {repairs : List ι} {a b : α} {repaired repaired' : Bool}

theorem onePass_cons_pos {i : ι} (objects : test i a = true) :
    onePass test change (i :: repairs) a repaired =
      (change i a).bind fun b => onePass test change repairs b true := by
  conv_lhs => unfold onePass
  rw [if_pos objects]

theorem onePass_cons_neg {i : ι} (fine : test i a = false) :
    onePass test change (i :: repairs) a repaired = onePass test change repairs a repaired := by
  conv_lhs => unfold onePass
  rw [fine, if_neg Bool.false_ne_true]

/-- What a pass makes of a state: each repair in turn, where its test objects. -/
theorem onePass_map_fst : (onePass test change repairs a repaired).map Prod.fst =
    repairs.foldlM (fun a i => if test i a then change i a else some a) a := by
  induction repairs generalizing a repaired with
  | nil => rfl
  | cons i repairs ih =>
    rw [List.foldlM_cons]
    cases objects : test i a with
    | false =>
      rw [onePass_cons_neg objects, ih, if_neg Bool.false_ne_true]
      rfl
    | true =>
      rw [onePass_cons_pos objects, if_pos rfl]
      cases change i a with
      | none => rfl
      | some b => exact ih

/-- **What every repair keeps, a pass keeps.** -/
theorem onePass_keeps {inv : α → Prop}
    (makes : ∀ i ∈ repairs, ∀ a b, inv a → test i a = true → change i a = some b → inv b)
    (start : inv a) (passed : onePass test change repairs a repaired = some (b, repaired')) :
    inv b := by
  induction repairs generalizing a repaired with
  | nil =>
    obtain ⟨rfl, -⟩ := Prod.mk.inj (Option.some.inj passed)
    exact start
  | cons i repairs ih =>
    have rest := fun j member => makes j (List.mem_cons_of_mem i member)
    cases objects : test i a with
    | false => exact ih rest start (onePass_cons_neg objects ▸ passed)
    | true =>
      rw [onePass_cons_pos objects] at passed
      obtain ⟨c, changed, behind⟩ := Option.bind_eq_some_iff.1 passed
      exact ih rest (makes i List.mem_cons_self a c start objects changed) behind

/-- A pass that can make its repairs goes through. -/
theorem onePass_total {inv : α → Prop}
    (makes : ∀ i ∈ repairs, ∀ a, inv a → test i a = true → ∃ b, change i a = some b ∧ inv b)
    (start : inv a) : ∃ b repaired', onePass test change repairs a repaired = some (b, repaired') ∧
    inv b := by
  induction repairs generalizing a repaired with
  | nil => exact ⟨a, repaired, rfl, start⟩
  | cons i repairs ih =>
    have rest := fun j member => makes j (List.mem_cons_of_mem i member)
    cases objects : test i a with
    | false =>
      rw [onePass_cons_neg objects]
      exact ih rest start
    | true =>
      obtain ⟨c, changed, holds⟩ := makes i List.mem_cons_self a start objects
      rw [onePass_cons_pos objects, changed]
      exact ih rest holds

/-- A pass without a repair changes nothing, and no test objects. -/
theorem onePass_false (passed : onePass test change repairs a repaired = some (b, false)) :
    b = a ∧ repaired = false ∧ ∀ i ∈ repairs, test i a = false := by
  induction repairs generalizing a repaired with
  | nil =>
    obtain ⟨rfl, rfl⟩ := Prod.mk.inj (Option.some.inj passed)
    exact ⟨rfl, rfl, fun _ member => absurd member List.not_mem_nil⟩
  | cons i repairs ih =>
    cases objects : test i a with
    | false =>
      rw [onePass_cons_neg objects] at passed
      obtain ⟨same, before, rest⟩ := ih passed
      refine ⟨same, before, fun j member => ?_⟩
      rcases List.mem_cons.1 member with rfl | inside
      · exact objects
      · exact rest j inside
    | true =>
      rw [onePass_cons_pos objects] at passed
      obtain ⟨c, -, rest⟩ := Option.bind_eq_some_iff.1 passed
      exact nomatch (ih rest).2.1

/-- No test objects, so that a pass changes nothing. -/
theorem onePass_fine (fine : ∀ i ∈ repairs, test i a = false) :
    onePass test change repairs a repaired = some (a, repaired) := by
  induction repairs with
  | nil => rfl
  | cons i repairs ih =>
    rw [onePass_cons_neg (fine i List.mem_cons_self)]
    exact ih fun j member => fine j (List.mem_cons_of_mem i member)

theorem untilDone_succ (fuel : ℕ) (a : α) :
    untilDone test change repairs (fuel + 1) a = (onePass test change repairs a false).bind
      fun (b, repaired) => if repaired then untilDone test change repairs fuel b else some b :=
  rfl

/-- **Where the passes end**, no test objects. -/
theorem untilDone_fine {fuel : ℕ} (done : untilDone test change repairs fuel a = some b) :
    ∀ i ∈ repairs, test i b = false := by
  induction fuel generalizing a with
  | zero => exact nomatch done
  | succ fuel ih =>
    rw [untilDone_succ] at done
    obtain ⟨⟨c, repaired⟩, passed, rest⟩ := Option.bind_eq_some_iff.1 done
    cases repaired with
    | true => exact ih rest
    | false =>
      obtain ⟨rfl, -, fine⟩ := onePass_false passed
      obtain rfl : c = b := Option.some.inj rest
      exact fine

/-- **What every repair keeps** holds where the passes end. -/
theorem untilDone_keeps {inv : α → Prop}
    (makes : ∀ i ∈ repairs, ∀ a b, inv a → test i a = true → change i a = some b → inv b)
    (start : inv a) {fuel : ℕ} (done : untilDone test change repairs fuel a = some b) : inv b := by
  induction fuel generalizing a with
  | zero => exact nomatch done
  | succ fuel ih =>
    rw [untilDone_succ] at done
    obtain ⟨⟨c, repaired⟩, passed, rest⟩ := Option.bind_eq_some_iff.1 done
    have kept := onePass_keeps makes start passed
    cases repaired with
    | true => exact ih kept rest
    | false =>
      obtain rfl : c = b := Option.some.inj rest
      exact kept

section Descent

variable {γ : Type*} [Preorder γ] {size : α → γ} {inv : α → Prop}

theorem onePass_descends
    (makes : ∀ i ∈ repairs, ∀ a b, inv a → test i a = true → change i a = some b → inv b ∧
    size b < size a) (start : inv a) (passed :
    onePass test change repairs a repaired = some (b, repaired')) : size b ≤ size a ∧
    (repaired = false → repaired' = true → size b < size a) := by
  induction repairs generalizing a repaired with
  | nil =>
    obtain ⟨rfl, rfl⟩ := Prod.mk.inj (Option.some.inj passed)
    exact ⟨le_rfl, fun before after => nomatch before.symm.trans after⟩
  | cons i repairs ih =>
    have rest := fun j member => makes j (List.mem_cons_of_mem i member)
    cases objects : test i a with
    | false => exact ih rest start (onePass_cons_neg objects ▸ passed)
    | true =>
      rw [onePass_cons_pos objects] at passed
      obtain ⟨c, changed, behind⟩ := Option.bind_eq_some_iff.1 passed
      obtain ⟨holds, down⟩ := makes i List.mem_cons_self a c start objects changed
      have low := (ih rest holds behind).1.trans_lt down
      exact ⟨low.le, fun _ _ => low⟩

/-- **Passes that go down end**, with a state that no test objects to. -/
theorem untilDone_total [WellFoundedLT γ]
    (makes : ∀ i ∈ repairs, ∀ a, inv a → test i a = true → ∃ b, change i a = some b ∧ inv b ∧
    size b < size a) (start : inv a) :
    ∃ fuel b, untilDone test change repairs fuel a = some b ∧ inv b ∧ ∀ i ∈ repairs,
    test i b = false := by
  induction level : size a using WellFoundedLT.induction generalizing a with
  | ind level ih =>
    have through : ∃ b repaired, onePass test change repairs a false = some (b, repaired) ∧ inv b :=
      onePass_total (fun i member a start objects => by
        obtain ⟨b, changed, holds, -⟩ := makes i member a start objects
        exact ⟨b, changed, holds⟩) start
    obtain ⟨b, repaired, passed, holds⟩ := through
    cases repaired with
    | false =>
      obtain ⟨rfl, -, fine⟩ := onePass_false passed
      refine ⟨1, b, ?_, holds, fine⟩
      unfold untilDone
      rw [passed]
      rfl
    | true =>
      have lower : ∀ i ∈ repairs, ∀ a b, inv a → test i a = true → change i a = some b → inv b ∧
          size b < size a := by
        intro i member a b start objects changed
        obtain ⟨c, changed', holds, down⟩ := makes i member a start objects
        obtain rfl : c = b := Option.some.inj (changed'.symm.trans changed)
        exact ⟨holds, down⟩
      have down := (onePass_descends lower start passed).2 rfl rfl
      obtain ⟨fuel, c, done, holds', fine⟩ := ih (size b) (level ▸ down) holds rfl
      refine ⟨fuel + 1, c, ?_, holds', fine⟩
      unfold untilDone
      rw [passed]
      exact done

/-- **Passes that go down end if and only if they began well**, where each pass keeps what is well,
one that cannot be made did not begin so, and a state that no test objects to is so. -/
theorem untilDone_iff [WellFoundedLT γ] {well : α → Prop}
    (makes : ∀ i ∈ repairs, ∀ a b, inv a → test i a = true → change i a = some b → inv b ∧
    size b < size a) (kept : ∀ a b repaired, inv a → onePass test change repairs a false =
    some (b, repaired) → (well b ↔ well a)) (unmade :
    ∀ a, inv a → onePass test change repairs a false = none → ¬ well a) (fine :
    ∀ a, inv a → (∀ i ∈ repairs, test i a = false) → well a) (start : inv a) :
    (∃ fuel b, untilDone test change repairs fuel a = some b) ↔ well a := by
  constructor
  · rintro ⟨fuel, b, done⟩
    induction fuel generalizing a with
    | zero => exact nomatch done
    | succ fuel ih =>
      rw [untilDone_succ] at done
      obtain ⟨⟨c, repaired⟩, passed, rest⟩ := Option.bind_eq_some_iff.1 done
      cases repaired with
      | true =>
        have holds := onePass_keeps (fun i member a b start objects changed =>
          (makes i member a b start objects changed).1) start passed
        exact (kept a c true start passed).1 (ih holds rest)
      | false => exact fine a start (onePass_false passed).2.2
  · intro begins
    induction level : size a using WellFoundedLT.induction generalizing a with
    | ind level ih =>
      cases passed : onePass test change repairs a false with
      | none => exact absurd begins (unmade a start passed)
      | some pair =>
        obtain ⟨b, repaired⟩ := pair
        cases repaired with
        | false => exact ⟨1, b, by rw [untilDone_succ, passed]; rfl⟩
        | true =>
          have down := (onePass_descends makes start passed).2 rfl rfl
          have holds := onePass_keeps (fun i member a b start objects changed =>
            (makes i member a b start objects changed).1) start passed
          obtain ⟨fuel, c, done⟩ := ih (size b) (level ▸ down) holds
            ((kept a b true start passed).2 begins) rfl
          exact ⟨fuel + 1, c, by rw [untilDone_succ, passed]; exact done⟩

end Descent

theorem untilDone_mono {fuel : ℕ} (more : ℕ) (done : untilDone test change repairs fuel a = some b) :
    untilDone test change repairs (fuel + more) a = some b := by
  induction fuel generalizing a with
  | zero => exact nomatch done
  | succ fuel ih =>
    unfold untilDone at done
    rw [Nat.add_right_comm]
    unfold untilDone
    cases passed : onePass test change repairs a false with
    | none => exact nomatch (passed ▸ done)
    | some result =>
      obtain ⟨c, repaired⟩ := result
      rw [passed] at done
      cases repaired with
      | false => exact done
      | true => exact ih done

/-- **Passes that keep a state with a repair to make never end.** -/
theorem untilDone_none {inv : α → Prop}
    (keeps : ∀ a b repaired, inv a → onePass test change repairs a false = some (b, repaired) → inv b)
    (objects : ∀ a, inv a → ∃ i ∈ repairs, test i a = true) (start : inv a) (fuel : ℕ) :
    untilDone test change repairs fuel a = none := by
  induction fuel generalizing a with
  | zero => rfl
  | succ fuel ih =>
    unfold untilDone
    cases passed : onePass test change repairs a false with
    | none => rfl
    | some result =>
      obtain ⟨b, repaired⟩ := result
      cases repaired with
      | false =>
        obtain ⟨i, member, some⟩ := objects a start
        exact nomatch some.symm.trans ((onePass_false passed).2.2 i member)
      | true => exact ih (keeps a b true start passed)

end Gebr.Lib.Passes
