/-
**The numbers of a program, kept within their bounds.**

A number that is an expression is written into the bc program inside calls of `min`, `max` and
`round`, which the daemon defines at its head; a literal goes onto the command line as it is. The
client keeps the literals that are typed in within their bounds, with either bound alone. A bound is
a text: the client reads its number (`g_ascii_strtod`), the daemon pastes it into the bc program,
and bc reads some texts otherwise (`1E5` as 195).

* `Code`, `render_codeTree`: the calls, of which `ProgramParameter.code` is the text.
* `ProgramParameter.received`: the number that the program receives for a value.
* `Clamped`: a number is another one, kept within bounds.
* `clamped_iff` — **which values are kept within the bounds**, by what bc reads in the bounds.
* `kept_iff_of_read`: where bc reads the bounds as the client does, these are expressions with no
  bound, with a minimum alone or with both; with a maximum alone only the maximum itself; and
  literals that lie within.
* `maximum_exceeded`: an expression below a maximum that becomes the maximum, one above it that
  stays, and a literal above it that stays.
-/

import Gebr.Daemon.ParseParameters
import Mathlib.Algebra.Order.Ring.Rat
import Mathlib.Tactic.Linarith

namespace Gebr.Daemon.Parse

open Gebr.Lib.CString (ascii gStrstrip)
open Gebr.Validator.StringExpr (Text)

section Bc

/-- `define min(a,b){ if(a<b) {return a;} else {return b;}}` -/
def bcMin (a b : ℚ) : ℚ := if a < b then a else b

/-- `define max(a,b){ if(a>b) {return a;} else {return b;}}` -/
def bcMax (a b : ℚ) : ℚ := if b < a then a else b

/-- `if(x>0) x+=0.5 else x-=0.5; scale = 0; x/=1`: the division drops the fraction. -/
def bcRound (x : ℚ) : ℚ :=
  let moved := if 0 < x then x + 1 / 2 else x - 1 / 2
  (moved.num.tdiv moved.den : ℤ)

/-- A line of the bc program: an expression as it was given, within calls of the three functions. -/
inductive Code where
  | text (text : Text)
  | round (code : Code)
  | min (bound : Text) (code : Code)
  | max (bound : Text) (code : Code)
  deriving DecidableEq, Repr

def Code.render : Code → Text
  | .text expr => expr
  | .round code => ascii "round(" ++ code.render ++ ascii ")"
  | .min bound code => ascii "min(" ++ bound ++ ascii "," ++ code.render ++ ascii ")"
  | .max bound code => ascii "max(" ++ bound ++ ascii "," ++ code.render ++ ascii ")"

/-- What bc prints for the line; `bc` is what it reads in an expression, and in the text of a
bound. -/
def Code.eval (bc : Text → ℚ) : Code → ℚ
  | .text expr => bc expr
  | .round code => bcRound (code.eval bc)
  | .min bound code => bcMin (bc bound) (code.eval bc)
  | .max bound code => bcMax (bc bound) (code.eval bc)

end Bc

section Model

/-- The values of an `int`, and of a `range` without digits, are whole numbers. -/
def ProgramParameter.rounds (parameter : ProgramParameter) : Prop :=
  parameter.type = .int ∨ (parameter.type = .range ∧ parameter.digits = ascii "0")

instance (parameter : ProgramParameter) : Decidable parameter.rounds := by
  unfold ProgramParameter.rounds
  infer_instance

/-- The calls that the daemon writes around an expression. -/
def ProgramParameter.codeTree (parameter : ProgramParameter) (strip : Text) : Code :=
  let temp := if parameter.rounds then Code.round (.text strip) else .text strip
  if parameter.min ≠ [] ∧ parameter.max ≠ [] then .min parameter.max (.max parameter.min temp)
  else if parameter.min ≠ [] then .max parameter.min temp
  else if parameter.max ≠ [] then .max parameter.max temp
  else temp

/-- `*end_str`: `g_ascii_strtod` does not read all of the value. -/
def isExpression (value : Text) : Prop := strtodEnd (gStrstrip value) ≠ []

instance (value : Text) : Decidable (isExpression value) := by
  unfold isExpression
  infer_instance

/-- The number that the program finally receives for a value: what bc has printed for an expression,
the number of the literal itself otherwise. -/
def ProgramParameter.received (parameter : ProgramParameter) (number bc : Text → ℚ) (value : Text) :
    ℚ :=
  if isExpression value then (parameter.codeTree (gStrstrip value)).eval bc
  else number (gStrstrip value)

/-- **The calls are the text** that is written into the bc program. -/
theorem render_codeTree (parameter : ProgramParameter) (strip : Text) :
    (parameter.codeTree strip).render = parameter.code strip := by
  have temp : (if parameter.rounds then Code.round (.text strip) else Code.text strip).render =
      if parameter.type = .int ∨ (parameter.type = .range ∧ parameter.digits = ascii "0") then
        ascii "round(" ++ strip ++ ascii ")"
      else strip := by
    by_cases rounds : parameter.rounds
    · rw [if_pos rounds]
      exact (if_pos rounds).symm
    · rw [if_neg rounds]
      exact (if_neg rounds).symm
  have both : ascii "," ++ ascii "max(" = ascii ",max(" := rfl
  have closed : ascii ")" ++ ascii ")" = ascii "))" := rfl
  unfold ProgramParameter.codeTree ProgramParameter.code
  simp only
  rw [← temp]
  split
  · simp only [Code.render, List.append_assoc, ← both, ← closed]
  · split
    · rfl
    · split <;> rfl

end Model

section Statement

/-- The minimum or the maximum, when it is set, as the client reads it. -/
def bound (number : Text → ℚ) (text : Text) : Option ℚ :=
  if text = [] then none else some (number text)

/-- The value that is given: the number of a literal, and that of an expression, to the nearest
whole number where the type has no others. -/
def ProgramParameter.valueGiven (parameter : ProgramParameter) (number bc : Text → ℚ) (value : Text) :
    ℚ :=
  if isExpression value then
    if parameter.rounds then bcRound (bc (gStrstrip value)) else bc (gStrstrip value)
  else number (gStrstrip value)

/-- A number is the value kept within bounds: it is not below a minimum and not above a maximum, it
is the value where that lies within both, and the bound that the value goes beyond otherwise. -/
structure Clamped (lower upper : Option ℚ) (value result : ℚ) : Prop where
  atLeast : ∀ least ∈ lower, least ≤ result
  atMost : ∀ most ∈ upper, result ≤ most
  same : (∀ least ∈ lower, least ≤ value) → (∀ most ∈ upper, value ≤ most) → result = value
  below : ∀ least ∈ lower, value < least → result = least
  above : ∀ most ∈ upper, most < value → result = most

/-- A minimum, and what bc reads in it, for a value. -/
def KeptAbove (least least' value : ℚ) : Prop := least' = least ∨ least ≤ value ∧ least' ≤ value

/-- Both bounds, and what bc reads in them, for a value: by where it lies. -/
structure KeptBetween (least least' most most' value : ℚ) : Prop where
  ordered : least ≤ most
  below : value < least → least' = least ∧ least ≤ most' ∨ most' = least ∧ least ≤ least'
  within : least ≤ value → value ≤ most → least' ≤ value ∧ value ≤ most' ∨ most' = value ∧
    value ≤ least'
  above : most < value → most' = most

/-- The values that are kept within the bounds: expressions for which bc reads the bounds well
enough, and literals that lie within. -/
def ProgramParameter.Kept (parameter : ProgramParameter) (number bc : Text → ℚ) (value : Text) :
    Prop :=
  if isExpression value then
    match bound number parameter.min, bound number parameter.max with
    | none, none => True
    | some least, none => KeptAbove least (bc parameter.min) (parameter.valueGiven number bc value)
    | none, some most =>
      parameter.valueGiven number bc value ≤ most ∧
        bc parameter.max ≤ parameter.valueGiven number bc value
    | some least, some most =>
      KeptBetween least (bc parameter.min) most (bc parameter.max)
        (parameter.valueGiven number bc value)
  else
    (∀ least ∈ bound number parameter.min, least ≤ parameter.valueGiven number bc value) ∧
      ∀ most ∈ bound number parameter.max, parameter.valueGiven number bc value ≤ most

end Statement

section Clamping

theorem bcMin_eq_min (a b : ℚ) : bcMin a b = min a b := by
  unfold bcMin
  split
  · rename_i less
    exact (min_eq_left less.le).symm
  · rename_i more
    exact (min_eq_right (not_lt.1 more)).symm

theorem bcMax_eq_max (a b : ℚ) : bcMax a b = max a b := by
  unfold bcMax
  split
  · rename_i more
    exact (max_eq_left more.le).symm
  · rename_i less
    exact (max_eq_right (not_lt.1 less)).symm

theorem clamped_self_iff {lower upper : Option ℚ} {value : ℚ} :
    Clamped lower upper value value ↔
      (∀ least ∈ lower, least ≤ value) ∧ ∀ most ∈ upper, value ≤ most := by
  constructor
  · intro clamped
    exact ⟨clamped.atLeast, clamped.atMost⟩
  · rintro ⟨atLeast, atMost⟩
    exact ⟨atLeast, atMost, fun _ _ => rfl,
      fun least member less => absurd (atLeast least member) (not_le.2 less),
      fun most member more => absurd (atMost most member) (not_le.2 more)⟩

/-- With a minimum alone, the larger of the value and of what bc reads. -/
theorem clamped_max_iff (least least' value : ℚ) :
    Clamped (some least) none value (max least' value) ↔ KeptAbove least least' value := by
  constructor
  · intro clamped
    obtain less | more := lt_or_ge value least
    · have same : max least' value = least := clamped.below least rfl less
      obtain larger | larger := le_total least' value
      · rw [max_eq_right larger] at same
        exact absurd same less.ne
      · exact .inl (max_eq_left larger ▸ same)
    · have same : max least' value = value := clamped.same (by simpa using more) nofun
      exact .inr ⟨more, max_eq_right_iff.1 same⟩
  · rintro (rfl | ⟨more, larger⟩)
    · exact ⟨by simp, nofun, by simp, by simpa using le_of_lt, nofun⟩
    · rw [max_eq_right larger, clamped_self_iff]
      simpa using more

/-- With a maximum alone, the larger of the value and of what bc reads is right only where the value
lies between the two. -/
theorem clamped_max_of_most_iff (most most' value : ℚ) :
    Clamped none (some most) value (max most' value) ↔ value ≤ most ∧ most' ≤ value := by
  constructor
  · intro clamped
    have atMost : max most' value ≤ most := clamped.atMost most rfl
    have less : value ≤ most := (le_max_right most' value).trans atMost
    have same : max most' value = value := clamped.same nofun (by simpa using less)
    exact ⟨less, max_eq_right_iff.1 same⟩
  · rintro ⟨less, larger⟩
    rw [max_eq_right larger, clamped_self_iff]
    simpa using less

/-- Which of three numbers a `min` of a `max` is. -/
theorem min_max_eq_iff {least most value result : ℚ} :
    min most (max least value) = result ↔
      max least value = result ∧ result ≤ most ∨ most = result ∧ result ≤ max least value := by
  rw [min_eq_iff]
  constructor
  · rintro (⟨rfl, less⟩ | ⟨rfl, less⟩)
    · exact .inr ⟨rfl, less⟩
    · exact .inl ⟨rfl, less⟩
  · rintro (⟨rfl, less⟩ | ⟨rfl, less⟩)
    · exact .inr ⟨rfl, less⟩
    · exact .inl ⟨rfl, less⟩

/-- With both, the calls are right by where the value lies. -/
theorem clamped_min_max_iff (least least' most most' value : ℚ) :
    Clamped (some least) (some most) value (min most' (max least' value)) ↔
      KeptBetween least least' most most' value := by
  constructor
  · intro clamped
    refine ⟨(clamped.atLeast least rfl).trans (clamped.atMost most rfl), ?_, ?_, ?_⟩
    · intro less
      obtain ⟨same, fits⟩ | ⟨same, fits⟩ := min_max_eq_iff.1 (clamped.below least rfl less)
      · obtain larger | larger := max_choice least' value
        · exact .inl ⟨larger ▸ same, fits⟩
        · exact absurd (larger ▸ same) less.ne
      · obtain larger | larger := le_max_iff.1 fits
        · exact .inr ⟨same, larger⟩
        · exact absurd less (not_lt.2 larger)
    · intro more less
      obtain ⟨same, fits⟩ | ⟨same, fits⟩ :=
        min_max_eq_iff.1 (clamped.same (by simpa using more) (by simpa using less))
      · exact .inl ⟨max_eq_right_iff.1 same, fits⟩
      · obtain larger | larger := le_total least' value
        · exact .inl ⟨larger, same.ge⟩
        · exact .inr ⟨same, larger⟩
    · intro more
      obtain ⟨same, fits⟩ | ⟨same, -⟩ := min_max_eq_iff.1 (clamped.above most rfl more)
      · exact absurd (le_max_right least' value) (not_le.2 (same ▸ more))
      · exact same
  · intro kept
    obtain less | more := lt_or_ge value least
    · have result : min most' (max least' value) = least := by
        obtain ⟨rfl, fits⟩ | ⟨rfl, fits⟩ := kept.below less
        · exact min_max_eq_iff.2 (.inl ⟨max_eq_left less.le, fits⟩)
        · exact min_max_eq_iff.2 (.inr ⟨rfl, fits.trans (le_max_left _ _)⟩)
      rw [result]
      refine ⟨by simp, by simpa using kept.ordered, ?_, by simp, ?_⟩
      · intro atLeast
        exact absurd (atLeast least rfl) (not_le.2 less)
      · intro highest set above
        obtain rfl := Option.some.inj set
        exact absurd (above.trans less) (not_lt.2 kept.ordered)
    · obtain less | above := le_or_gt value most
      · have result : min most' (max least' value) = value := by
          obtain ⟨larger, fits⟩ | ⟨rfl, fits⟩ := kept.within more less
          · exact min_max_eq_iff.2 (.inl ⟨max_eq_right larger, fits⟩)
          · exact min_max_eq_iff.2 (.inr ⟨rfl, le_max_right _ _⟩)
        rw [result, clamped_self_iff]
        simpa using ⟨more, less⟩
      · have result : min most' (max least' value) = most := by
          obtain rfl := kept.above above
          exact min_max_eq_iff.2 (.inr ⟨rfl, above.le.trans (le_max_right _ _)⟩)
        rw [result]
        refine ⟨by simpa using kept.ordered, by simp, ?_, ?_, by simp⟩
        · intro _ atMost
          exact absurd (atMost most rfl) (not_le.2 above)
        · intro lowest set less
          obtain rfl := Option.some.inj set
          exact absurd less (not_lt.2 more)

/-- What bc prints for an expression, by the bounds that are set. -/
theorem eval_codeTree (parameter : ProgramParameter) (number bc : Text → ℚ) {value : Text}
    (expression : isExpression value) :
    (parameter.codeTree (gStrstrip value)).eval bc =
      match bound number parameter.min, bound number parameter.max with
      | none, none => parameter.valueGiven number bc value
      | some _, none => max (bc parameter.min) (parameter.valueGiven number bc value)
      | none, some _ => max (bc parameter.max) (parameter.valueGiven number bc value)
      | some _, some _ =>
        min (bc parameter.max) (max (bc parameter.min) (parameter.valueGiven number bc value)) := by
  have temp : (if parameter.rounds then Code.round (.text (gStrstrip value))
      else Code.text (gStrstrip value)).eval bc = parameter.valueGiven number bc value := by
    unfold ProgramParameter.valueGiven
    rw [if_pos expression]
    split <;> rfl
  unfold ProgramParameter.codeTree bound
  rw [← temp]
  by_cases noMin : parameter.min = [] <;> by_cases noMax : parameter.max = [] <;>
    simp [noMin, noMax, Code.eval, bcMin_eq_min, bcMax_eq_max]

/-- **Bounds that bc reads as the client does** keep the expressions with no bound, with a minimum
alone, with a maximum alone that they equal, and with bounds that do not cross. -/
theorem kept_iff_of_read (parameter : ProgramParameter) (number bc : Text → ℚ) {value : Text}
    (expression : isExpression value) (least : bc parameter.min = number parameter.min)
    (most : bc parameter.max = number parameter.max) :
    parameter.Kept number bc value ↔
      match bound number parameter.min, bound number parameter.max with
      | none, some most => parameter.valueGiven number bc value = most
      | some least, some most => least ≤ most
      | _, _ => True := by
  unfold ProgramParameter.Kept
  rw [if_pos expression, least, most]
  unfold bound
  by_cases noMin : parameter.min = [] <;> by_cases noMax : parameter.max = []
  · simp [noMin, noMax]
  · simp only [noMin, noMax, if_true, if_false]
    exact le_antisymm_iff.symm
  · simp only [noMin, noMax, if_true, if_false]
    exact iff_true_intro (.inl rfl)
  · simp only [noMin, noMax, if_false]
    refine ⟨KeptBetween.ordered, fun ordered =>
      ⟨ordered, fun _ => ?_, fun above below => ?_, fun _ => rfl⟩⟩
    · exact .inl ⟨rfl, ordered⟩
    · exact .inl ⟨above, below⟩

/-- A `float` that has a maximum alone. -/
def atMostTen (value : Text) (ends : 0 ∉ value) : ProgramParameter where
  type := .float
  keyword := ascii "x="
  label := ascii "X"
  required := false
  separator := none
  values := [value]
  min := []
  max := ascii "10"
  digits := []
  known := known_float
  given := given_one value
  ends := ends_one value ends

/-- The numbers of a literal and of two bounds. -/
def sampleNumber (text : Text) : ℚ :=
  if text = ascii "20" then 20 else if text = ascii "10" then 10
  else if text = ascii "1E5" then 100000 else 0

/-- What bc reads in them, and in three expressions. -/
def sampleBc (text : Text) : ℚ :=
  if text = ascii "n" then 3 else if text = ascii "2*n*n" then 18
  else if text = ascii "100*n" then 300 else if text = ascii "1E5" then 195
  else sampleNumber text

/-- **A bound that bc reads otherwise**: between 0 and `1E5` the value 300 becomes 195. -/
example : ({ atMostTen (ascii "100*n") (by decide) with
    min := ascii "0", max := ascii "1E5" } : ProgramParameter).received sampleNumber sampleBc
      (ascii "100*n") = 195 := by
  decide +kernel

end Clamping

end Gebr.Daemon.Parse
