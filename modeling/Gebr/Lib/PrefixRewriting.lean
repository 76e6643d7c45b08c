/-
**Rewriting the front of a word.**

A step that looks at no more than the first letters of a word, and puts other letters in their
place. The letters come from a finite set, and the word may grow.

* `Looks`: the step sees so many letters, and keeps what is behind them.
* `ComesBack`: the same first letters come again, and the word was never shorter in between.
* `not_ends_of_comesBack`: then the steps go on like that for ever.
* `comesBack_of_not_ends`: among the shortest words that are still to come, two begin alike.
* `ends_iff_not_comesBack` — **the rewriting ends iff it does not come back**.
-/

import Gebr.Lib.PartialSteps
import Mathlib.Data.Set.Finite.List
import Mathlib.Order.Preorder.Finite

namespace Gebr.Lib.PrefixRewriting

open Gebr.Lib.PartialSteps

variable {α : Type*} {step : List α → Option (List α)} {look : ℕ} {word : List α}

section Definitions

/-- The step sees so many letters, and keeps what is behind them. -/
def Looks (step : List α → Option (List α)) (look : ℕ) : Prop :=
  ∀ front rest, look ≤ front.length → step (front ++ rest) = (step front).map (· ++ rest)

/-- The steps come from a word to one that begins alike, and in between the word is not shorter. -/
def ComesBack (step : List α → Option (List α)) (look : ℕ) (word : List α) : Prop :=
  ∃ m n first second, m < n ∧ steps step m word = some first ∧ steps step n word = some second ∧
    first.take look = second.take look ∧
    ∀ k between, m ≤ k → k ≤ n → steps step k word = some between → first.length ≤ between.length

end Definitions

section Loop

/-- Steps that always leave enough letters do the same in front of any rest. -/
theorem steps_append (looks : Looks step look) {n : ℕ} {front result : List α}
    (long : ∀ k < n, ∀ between, steps step k front = some between → look ≤ between.length)
    (taken : steps step n front = some result) (rest : List α) :
    steps step n (front ++ rest) = some (result ++ rest) := by
  induction n generalizing result with
  | zero =>
    obtain rfl := Option.some.inj taken
    rfl
  | succ n ih =>
    rw [steps_succ] at taken ⊢
    obtain ⟨before, first, last⟩ := Option.bind_eq_some_iff.1 taken
    rw [ih (fun k less => long k (less.trans n.lt_succ_self)) first, Option.bind_some,
      looks before rest (long n n.lt_succ_self before first), last, Option.map_some]

/-- Steps that always leave enough letters do the same without the rest. -/
theorem steps_of_append (looks : Looks step look) {n : ℕ} {front rest result : List α}
    (long : ∀ k ≤ n, ∀ between, steps step k (front ++ rest) = some between →
      look + rest.length ≤ between.length)
    (taken : steps step n (front ++ rest) = some result) :
    ∃ shorter, steps step n front = some shorter ∧ result = shorter ++ rest := by
  induction n generalizing result with
  | zero =>
    obtain rfl := Option.some.inj taken
    exact ⟨front, rfl, rfl⟩
  | succ n ih =>
    rw [steps_succ] at taken
    obtain ⟨before, first, last⟩ := Option.bind_eq_some_iff.1 taken
    obtain ⟨shorter, there, rfl⟩ := ih (fun k le => long k (le.trans n.le_succ)) first
    have letters : look ≤ shorter.length := by
      have total := long n n.le_succ (shorter ++ rest) first
      rw [List.length_append] at total
      omega
    rw [looks shorter rest letters, Option.map_eq_some_iff] at last
    obtain ⟨next, goes, rfl⟩ := last
    exact ⟨next, by rw [steps_succ, there, Option.bind_some, goes], rfl⟩

/-- **A front that only grows goes on for ever.** -/
theorem not_ends_of_grows (looks : Looks step look) {n : ℕ} (some_step : 0 < n) {front more : List α}
    (long : ∀ k < n, ∀ between, steps step k front = some between → look ≤ between.length)
    (grows : steps step n front = some (front ++ more)) (rest : List α) :
    ¬ Ends step (front ++ rest) := by
  rw [ends_iff_steps]
  rintro ⟨k, none⟩
  have again : ∀ j, ∃ rest', steps step (j * n) (front ++ rest) = some (front ++ rest') := by
    intro j
    induction j with
    | zero => exact ⟨rest, by rw [Nat.zero_mul, steps_zero]⟩
    | succ j ih =>
      obtain ⟨rest', there⟩ := ih
      refine ⟨more ++ rest', ?_⟩
      rw [Nat.succ_mul, steps_add, there, Option.bind_some, steps_append looks long grows,
        List.append_assoc]
  obtain ⟨rest', there⟩ := again k
  have later : k * n = k + (k * n - k) :=
    (Nat.add_sub_cancel' (Nat.le_mul_of_pos_right k some_step)).symm
  rw [later, steps_add, none, Option.bind_none] at there
  exact absurd there nofun

/-- **What comes back does not end.** -/
theorem not_ends_of_comesBack (looks : Looks step look) (back : ComesBack step look word) :
    ¬ Ends step word := by
  obtain ⟨m, n, first, second, less, atFirst, atSecond, alike, longer⟩ := back
  rw [ends_iff_of_reaches (reaches_of_steps atFirst)]
  obtain ⟨same, first_eq, taken⟩ := steps_of_le less.le atSecond
  obtain rfl : first = same := Option.some.inj (atFirst.symm.trans first_eq)
  have later : ∀ k ≤ n - m, ∀ between, steps step k first = some between → first.length ≤
      between.length := by
    intro k le between there
    refine longer (m + k) between (Nat.le_add_right m k) (by omega) ?_
    rw [steps_add, atFirst, Option.bind_some, there]
  by_cases short : first.length < look
  · -- The whole word is seen, so it comes again as it is.
    have whole : first = second := by
      rw [List.take_of_length_le short.le] at alike
      have length := congrArg List.length alike
      rw [List.length_take] at length
      rw [alike, List.take_of_length_le (by omega)]
    rw [← whole] at taken
    exact not_ends_of_cycle .refl (reaches₁_of_steps (Nat.sub_pos_of_lt less) taken)
  · obtain ⟨front, rest, rfl, width⟩ : ∃ front rest, first = front ++ rest ∧ front.length = look :=
      ⟨first.take look, first.drop look, (List.take_append_drop look first).symm,
        by rw [List.length_take]; omega⟩
    rw [List.length_append, width] at later
    have apart : ∀ k ≤ n - m, ∀ between, steps step k (front ++ rest) = some between →
        ∃ shorter, steps step k front = some shorter ∧ between = shorter ++ rest :=
      fun k le between there => steps_of_append looks (fun j less => later j (less.trans le)) there
    obtain ⟨shorter, grows, rfl⟩ := apart (n - m) le_rfl second taken
    have total := later (n - m) le_rfl _ taken
    rw [List.length_append] at total
    have begins : shorter = front ++ shorter.drop look := by
      rw [List.take_append_of_le_length (by omega), List.take_append_of_le_length (by omega),
        List.take_of_length_le width.le] at alike
      rw [alike, List.take_append_drop]
    rw [begins] at grows
    refine not_ends_of_grows looks (Nat.sub_pos_of_lt less) ?_ grows rest
    intro k below between there
    obtain ⟨whole, atWhole, -⟩ := steps_of_le below.le taken
    obtain ⟨shorter', there', rfl⟩ := apart k below.le whole atWhole
    obtain rfl := Option.some.inj (there.symm.trans there')
    have enough := later k below.le _ atWhole
    rw [List.length_append] at enough
    omega

end Loop

section Search

/-- The words of so many letters of a finite set. -/
theorem finite_words {letters : Set α} (finite : letters.Finite) (n : ℕ) :
    {w : List α | w.length ≤ n ∧ ∀ letter ∈ w, letter ∈ letters}.Finite := by
  have : Finite letters := finite
  refine ((List.finite_length_le letters n).image (List.map Subtype.val)).subset ?_
  rintro w ⟨short, inside⟩
  have same : (w.attachWith _ inside).map Subtype.val = w := List.attachWith_map_subtype_val inside
  refine ⟨w.attachWith _ inside, ?_, same⟩
  exact List.length_attachWith.trans_le short

/-- Beyond every place of a sequence of words there is one behind which no word is shorter. -/
theorem exists_low (words : ℕ → List α) (place : ℕ) :
    ∃ low, place < low ∧ ∀ n, low ≤ n → (words low).length ≤ (words n).length := by
  have lengths : ∃ k n, place < n ∧ (words n).length = k := ⟨_, place + 1, place.lt_succ_self, rfl⟩
  classical
  obtain ⟨low, later, least⟩ := Nat.find_spec lengths
  exact ⟨low, later, fun n le => least ▸ Nat.find_min' lengths ⟨n, lt_of_lt_of_le later le, rfl⟩⟩

/-- **What does not end comes back**, with letters of a finite set. -/
theorem comesBack_of_not_ends {letters : Set α} (finite : letters.Finite)
    (inside : ∀ n result, steps step n word = some result → ∀ letter ∈ result, letter ∈ letters)
    (look : ℕ) (endless : ¬ Ends step word) : ComesBack step look word := by
  rw [ends_iff_steps, not_exists] at endless
  choose words there using fun n => Option.ne_none_iff_exists'.1 (endless n)
  have infinite : {low | ∀ n, low ≤ n → (words low).length ≤ (words n).length}.Infinite :=
    Set.infinite_of_forall_exists_gt fun place => by
      obtain ⟨low, later, least⟩ := exists_low words place
      exact ⟨low, least, later⟩
  have begins : Set.MapsTo (fun n => (words n).take look)
      {low | ∀ n, low ≤ n → (words low).length ≤ (words n).length}
          {w | w.length ≤ look ∧ ∀ letter ∈ w, letter ∈ letters} := fun n _ =>
    ⟨List.length_take_le look _, fun letter member =>
      inside n _ (there n) letter (List.mem_of_mem_take member)⟩
  obtain ⟨m, low, n, -, less, alike⟩ := infinite.exists_lt_map_eq_of_mapsTo begins
    (finite_words finite look)
  refine ⟨m, n, words m, words n, less, there m, there n, alike, fun k between le _ atPlace => ?_⟩
  obtain rfl := Option.some.inj ((there k).symm.trans atPlace)
  exact low k le

/-- **The rewriting ends iff it does not come back.** -/
theorem ends_iff_not_comesBack {letters : Set α} (looks : Looks step look) (finite : letters.Finite)
    (inside : ∀ n result, steps step n word = some result → ∀ letter ∈ result, letter ∈ letters) :
    Ends step word ↔ ¬ ComesBack step look word := by
  refine ⟨fun ends back => not_ends_of_comesBack looks back ends, fun noReturn => ?_⟩
  by_contra endless
  exact noReturn (comesBack_of_not_ends finite inside look endless)

end Search

end Gebr.Lib.PrefixRewriting
