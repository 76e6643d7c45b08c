/-
**The division of a loop flow into sub-flows.**

A flow with a `for` program runs its other programs once for each iteration of the loop: `n` times,
with the values `ini`, `ini + step` and so on. Where the iterations do not depend on each other, the
flow is divided into sub-flows of consecutive iterations.

* `gebrGeoxmlFlowCalculateProportionalN`: how many iterations each weight is worth.
* `gebrGeoxmlFlowDivideFlows`: the sub-flows of a list of numbers of iterations.
* `flatMap_divideLoop`: the sub-flows run the first iterations of the flow, as many as the numbers
  in front of the first zero add up to.

The bounds of a loop are the numbers the validator evaluates them to.
-/

import Gebr.Lib.Shares
import Mathlib.Algebra.Order.Field.Rat
import Mathlib.Tactic.Ring

namespace Gebr.Flow

open Gebr.Lib.Shares

section Model

inductive GebrGeoXmlProgramStatus where
  | configured | unconfigured | disabled
  deriving DecidableEq, Repr

inductive GebrGeoXmlProgramControl where
  | unknown | ordinary | for
  deriving DecidableEq, Repr

/-- A program of a flow; the bounds are those of a `for` program. -/
structure GebrGeoXmlProgram where
  control : GebrGeoXmlProgramControl
  status : GebrGeoXmlProgramStatus
  stdout : Bool
  ini : ℚ
  step : ℚ
  n : ℕ
  deriving DecidableEq, Repr

structure GebrGeoXmlFlow where
  programs : List GebrGeoXmlProgram
  output : String
  deriving DecidableEq, Repr

/-- A program that is neither ordinary nor of an unknown kind. -/
def GebrGeoXmlProgram.isControl (program : GebrGeoXmlProgram) : Bool :=
  program.control != .ordinary && program.control != .unknown

/-- `gebr_geoxml_flow_get_control_program`: the first program that controls the others. -/
def gebrGeoxmlFlowGetControlProgram (flow : GebrGeoXmlFlow) : Option GebrGeoXmlProgram :=
  flow.programs.find? GebrGeoXmlProgram.isControl

/-- The `stdout` of the last configured ordinary program. -/
def hasStdout (programs : List GebrGeoXmlProgram) : Bool :=
  programs.foldl (fun found program =>
    if program.control = .ordinary ∧ program.status = .configured then program.stdout else found)
    false

/-- `gebr_geoxml_flow_is_parallelizable`; `useIter` is `gebr_validator_use_iter` for a text. -/
def gebrGeoxmlFlowIsParallelizable (useIter : String → Bool) (flow : GebrGeoXmlFlow) : Bool :=
  match gebrGeoxmlFlowGetControlProgram flow with
  | none => false
  | some program =>
    if program.status ≠ .configured then false
    else if flow.output = "" then true
    else if ¬ hasStdout flow.programs then true
    else useIter flow.output

/-- `gebr_geoxml_flow_calculate_proportional_n`. The source computes the first `k` twice. -/
def gebrGeoxmlFlowCalculateProportionalN (totalN : ℕ) (weights : List ℚ) : List ℕ :=
  let distributedN := weights.map fun weight => ⌊(totalN : ℚ) * weight⌋₊
  let auxTotalN := totalN - distributedN.sum
  let k := if totalN ≤ weights.length then totalN - 1 else weights.length - 1
  dealDown auxTotalN k distributedN

/-- `gebr_geoxml_program_control_set_n` on the control program of a clone of the flow. -/
def setN (step ini : ℚ) (n : ℕ) : List GebrGeoXmlProgram → List GebrGeoXmlProgram
  | [] => []
  | program :: programs =>
    if program.isControl then { program with step, ini, n } :: programs
    else program :: setN step ini n programs

/-- The loop of `gebr_geoxml_flow_divide_flows`: it stops at the first share of no iterations. -/
def divideLoop (flow : GebrGeoXmlFlow) (step : ℚ) : ℚ → List ℕ → List GebrGeoXmlFlow
  | _, [] => []
  | ini, share :: distributedN =>
    if share ≤ 0 then []
    else
      { flow with programs := setN step ini share flow.programs } ::
        divideLoop flow step (share * step + ini) distributedN

/-- `gebr_geoxml_flow_divide_flows`: a flow that is not parallelizable stays whole. -/
def gebrGeoxmlFlowDivideFlows (useIter : String → Bool) (flow : GebrGeoXmlFlow)
    (distributedN : List ℕ) : List GebrGeoXmlFlow :=
  if ¬ gebrGeoxmlFlowIsParallelizable useIter flow then [flow]
  else
    match gebrGeoxmlFlowGetControlProgram flow with
    | none => []
    | some loop => divideLoop flow loop.step loop.ini distributedN

end Model

section Iterations

/-- The values a loop runs through. -/
def iterations (ini step : ℚ) (n : ℕ) : List ℚ := (List.range n).map fun i : ℕ => ini + (i : ℚ) * step

/-- The iterations of a flow: those of its control program. -/
def GebrGeoXmlFlow.iterations (flow : GebrGeoXmlFlow) : List ℚ :=
  match gebrGeoxmlFlowGetControlProgram flow with
  | none => []
  | some loop => Flow.iterations loop.ini loop.step loop.n

@[simp] theorem length_iterations (ini step : ℚ) (n : ℕ) : (iterations ini step n).length = n := by
  simp [iterations]

theorem iterations_nodup (ini : ℚ) {step : ℚ} (moves : step ≠ 0) (n : ℕ) :
    (iterations ini step n).Nodup := by
  refine List.Nodup.map (fun first second same => ?_) List.nodup_range
  have products : (first : ℚ) * step = second * step := add_left_cancel same
  exact_mod_cast mul_right_cancel₀ moves products

/-- The first iterations of a loop, and then the others. -/
theorem iterations_add (ini step : ℚ) (first others : ℕ) :
    iterations ini step (first + others) =
      iterations ini step first ++ iterations (first * step + ini) step others := by
  unfold iterations
  rw [List.range_add, List.map_append, List.map_map]
  congr 1
  apply List.map_congr_left
  intro i _
  show ini + ((first + i : ℕ) : ℚ) * step = first * step + ini + i * step
  push_cast
  ring

theorem iterations_prefix (ini step : ℚ) {fewer n : ℕ} (le : fewer ≤ n) :
    iterations ini step fewer <+: iterations ini step n := by
  obtain ⟨others, rfl⟩ := Nat.exists_eq_add_of_le le
  rw [iterations_add]
  exact List.prefix_append _ _

end Iterations

section Division

variable {flow : GebrGeoXmlFlow} {loop : GebrGeoXmlProgram}

/-- The control program of a clone has the new bounds. -/
theorem control_setN (step ini : ℚ) (n : ℕ)
    (controlled : gebrGeoxmlFlowGetControlProgram flow = some loop) :
    gebrGeoxmlFlowGetControlProgram { flow with programs := setN step ini n flow.programs } =
      some { loop with step, ini, n } := by
  unfold gebrGeoxmlFlowGetControlProgram at controlled ⊢
  show (setN step ini n flow.programs).find? GebrGeoXmlProgram.isControl = _
  generalize flow.programs = programs at controlled
  induction programs with
  | nil => exact nomatch controlled
  | cons program programs ih =>
    rw [setN]
    by_cases here : program.isControl
    · rw [List.find?_cons_of_pos here] at controlled
      obtain rfl := Option.some.inj controlled
      rw [if_pos here]
      exact List.find?_cons_of_pos here
    · rw [List.find?_cons_of_neg here] at controlled
      rw [if_neg here, List.find?_cons_of_neg here]
      exact ih controlled

theorem iterations_setN (step ini : ℚ) (n : ℕ)
    (controlled : gebrGeoxmlFlowGetControlProgram flow = some loop) :
    GebrGeoXmlFlow.iterations { flow with programs := setN step ini n flow.programs } =
      iterations ini step n := by
  rw [GebrGeoXmlFlow.iterations, control_setN step ini n controlled]

/-- **The sub-flows run the first iterations of the loop.** They are as many as the shares in front
of the first empty one add up to. -/
theorem flatten_divideLoop (controlled : gebrGeoxmlFlowGetControlProgram flow = some loop)
    (step ini : ℚ) (shares : List ℕ) :
    ((divideLoop flow step ini shares).map GebrGeoXmlFlow.iterations).flatten =
      iterations ini step (leading shares).sum := by
  induction shares generalizing ini with
  | nil => rfl
  | cons share shares ih =>
    rcases Nat.eq_zero_or_pos share with rfl | positive
    · rw [leading_cons_zero]
      rfl
    · rw [divideLoop, if_neg (Nat.not_le.2 positive), leading_cons_pos positive, List.sum_cons,
        iterations_add, List.map_cons, List.flatten_cons, ih,
          iterations_setN step ini share controlled]

/-- Each sub-flow has as many iterations as its share. -/
theorem lengths_divideLoop (controlled : gebrGeoxmlFlowGetControlProgram flow = some loop)
    (step ini : ℚ) (shares : List ℕ) :
    (divideLoop flow step ini shares).map (fun part => part.iterations.length) = leading shares := by
  induction shares generalizing ini with
  | nil => rfl
  | cons share shares ih =>
    rcases Nat.eq_zero_or_pos share with rfl | positive
    · rw [leading_cons_zero]
      rfl
    · rw [divideLoop, if_neg (Nat.not_le.2 positive), leading_cons_pos positive, List.map_cons, ih,
        iterations_setN step ini share controlled, length_iterations]

end Division

section Proportional

variable {totalN : ℕ} {weights : List ℚ}

@[simp] theorem length_calculateProportionalN (totalN : ℕ) (weights : List ℚ) :
    (gebrGeoxmlFlowCalculateProportionalN totalN weights).length = weights.length := by
  simp [gebrGeoxmlFlowCalculateProportionalN]

/-- **The shares add up to the total**, for weights that add up to at most one. -/
theorem sum_calculateProportionalN (nonempty : weights ≠ []) (enough : weights.length ≤ totalN)
    (nonneg : ∀ weight ∈ weights, 0 ≤ weight) (bounded : weights.sum ≤ 1) :
    (gebrGeoxmlFlowCalculateProportionalN totalN weights).sum = totalN := by
  have some_weight : 0 < weights.length := List.length_pos_iff.2 nonempty
  have wholes := sum_wholes_le totalN nonneg bounded
  unfold gebrGeoxmlFlowCalculateProportionalN
  rw [sum_dealDown]
  · omega
  · rw [List.length_map]
    split <;> omega

/-- **A weight is left without a share just when it is worth less than one iteration, and what is
left over does not reach down to it.** -/
theorem calculateProportionalN_pos_iff (enough : weights.length ≤ totalN) {k share : ℕ} {weight : ℚ}
    (weighed : weights[k]? = some weight)
    (shared : (gebrGeoxmlFlowCalculateProportionalN totalN weights)[k]? = some share) :
    0 < share ↔ 1 ≤ (totalN : ℚ) * weight ∨
      weights.length ≤
        totalN - (weights.map fun weight => ⌊(totalN : ℚ) * weight⌋₊).sum + k := by
  have inside : k < weights.length := (List.getElem?_eq_some_iff.1 weighed).1
  have last : (if totalN ≤ weights.length then totalN - 1 else weights.length - 1) =
      weights.length - 1 := by
    split <;> omega
  have whole : (weights.map fun weight => ⌊(totalN : ℚ) * weight⌋₊)[k]? =
      some ⌊(totalN : ℚ) * weight⌋₊ := by
    rw [List.getElem?_map, weighed]
    rfl
  unfold gebrGeoxmlFlowCalculateProportionalN at shared
  simp only [last] at shared
  rw [dealDown_pos_iff _ (show k ≤ weights.length - 1 by omega) whole shared, Nat.floor_pos]
  exact or_congr_right (by omega)

end Proportional

end Gebr.Flow
