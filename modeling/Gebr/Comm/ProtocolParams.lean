/-
**The parameters of a message come out of its argument as they went in.**

Each parameter stands after its own length, so a text that looks like a header is only text: the
splitter always stands at a length that the builder wrote (`scanLength_decimal`).

* `splitNew_joinParams`: the argument of some parameters splits into their texts.
* `build_split`: a built message is a head, the size of its argument, and the argument, which
  splits.
-/

import Gebr.Comm.Protocol

namespace Gebr.Comm

open Gebr.Lib.CString

section Sizes

theorem not_mem_decimal {b : UInt8} (other : isDigit b = false) (n : ℕ) : b ∉ decimal n := by
  intro member
  rw [isDigit_of_mem_decimal member] at other
  exact Bool.noConfusion other

theorem takeWhile_decimal (n : ℕ) {b : UInt8} (other : isDigit b = false) (rest : Bytes) :
    (decimal n ++ b :: rest).takeWhile isDigit = decimal n := by
  rw [List.takeWhile_append_of_pos fun _ member => isDigit_of_mem_decimal member,
    List.takeWhile_cons_of_neg (by rw [other]; decide), List.append_nil]

theorem dropWhile_decimal (n : ℕ) {b : UInt8} (other : isDigit b = false) (rest : Bytes) :
    (decimal n ++ b :: rest).dropWhile isDigit = b :: rest := by
  rw [List.dropWhile_append_of_pos fun _ member => isDigit_of_mem_decimal member,
    List.dropWhile_cons_of_neg (by rw [other]; decide)]

theorem dropWhile_isSpace_decimal (n : ℕ) (rest : Bytes) :
    (decimal n ++ rest).dropWhile isSpace = decimal n ++ rest := by
  obtain ⟨b, tail, split⟩ := List.exists_cons_of_ne_nil (decimal_ne_nil n)
  have good : isDigit b = true := isDigit_of_mem_decimal (split ▸ List.mem_cons_self)
  rw [split, List.cons_append, List.dropWhile_cons, if_neg]
  rw [not_isSpace_of_isDigit good]
  decide

theorem takeSign_decimal (n : ℕ) (rest : Bytes) :
    takeSign (decimal n ++ rest) = (false, decimal n ++ rest) := by
  obtain ⟨b, tail, split⟩ := List.exists_cons_of_ne_nil (decimal_ne_nil n)
  have good : isDigit b = true := isDigit_of_mem_decimal (split ▸ List.mem_cons_self)
  have signed := takeSign_digits good (tail ++ rest)
  rw [← List.cons_append, ← split, dropWhile_isSpace_decimal] at signed
  exact signed

/-- The splitter reads the length that the builder wrote. -/
theorem scanLength_decimal (n : ℕ) (rest : Bytes) :
    scanLength (decimal n ++ 124 :: rest) = some (n, some (124 :: rest)) := by
  have digits := takeWhile_decimal n (show isDigit 124 = false by decide) rest
  have behind := dropWhile_decimal n (show isDigit 124 = false by decide) rest
  have signed := takeSign_decimal n (124 :: rest)
  unfold scanLength
  rw [dropWhile_isSpace_decimal, signed]
  simp only [digits, behind, if_neg (decimal_ne_nil n), scanNumber, value_decimal, if_true,
    Bool.false_eq_true, if_false]

end Sizes

section RoundTrip

variable (stale : ℕ)

/-- The splitter at a length that the builder wrote. -/
theorem splitNew_sized (n parts : ℕ) (sep : Bytes) :
    gebrCommProtocolSplitNew stale (parts + 1) (decimal n ++ 124 :: sep) =
      if sep.length < n then none
      else if parts = 0 then some [sep.take n]
      else
        match sep.drop n with
        | [] => none
        | [_] => none
        | _ :: iarg => (gebrCommProtocolSplitNew stale parts iarg).map (sep.take n :: ·) := by
  have filled : (decimal n ++ 124 :: sep).dropWhile isSpace ≠ [] := by
    rw [dropWhile_isSpace_decimal]
    exact List.append_ne_nil_of_right_ne_nil _ (List.cons_ne_nil _ _)
  rw [gebrCommProtocolSplitNew, splitNew, if_neg filled, dropWhile_ne (not_mem_decimal (by decide) _),
    scanLength_decimal]
  dsimp only [Option.map_some, Option.getD_some]
  split_ifs
  · rfl
  · rfl
  · rcases sep.drop n with _ | ⟨b, _ | ⟨b', iarg⟩⟩
    all_goals rfl

theorem splitNew_last (param : Bytes) :
    gebrCommProtocolSplitNew stale 1 (decimal param.length ++ 124 :: param) = some [param] := by
  rw [splitNew_sized, if_neg (lt_irrefl _), if_pos rfl, List.take_length]

/-- The splitter on a parameter that others follow. -/
theorem splitNew_cons (param : Bytes) {parts : ℕ} (more : 0 < parts) {rest : Bytes}
    (left : rest ≠ []) :
      gebrCommProtocolSplitNew stale (parts + 1)
      (decimal param.length ++ 124 :: param ++ 32 :: rest) =
      (gebrCommProtocolSplitNew stale parts rest).map (param :: ·) := by
  obtain ⟨b, tail, rfl⟩ := List.exists_cons_of_ne_nil left
  have whole : decimal param.length ++ 124 :: param ++ 32 :: b :: tail =
      decimal param.length ++ 124 :: (param ++ 32 :: b :: tail) := by
    rw [List.append_assoc, List.cons_append]
  have fits : ¬ (param ++ 32 :: b :: tail).length < param.length := by
    rw [List.length_append]
    omega
  rw [whole, splitNew_sized, if_neg fits, if_neg more.ne', List.take_left, List.drop_left]

theorem joinParams_ne_nil {params : List (Option Bytes)} (some_param : params ≠ []) :
    joinParams params ≠ [] := by
  cases params with
  | nil => exact absurd rfl some_param
  | cons param params =>
    cases params with
    | nil => exact List.append_ne_nil_of_right_ne_nil _ (List.cons_ne_nil _ _)
    | cons next params => exact List.append_ne_nil_of_right_ne_nil _ (List.cons_ne_nil _ _)

/-- **An argument splits into the texts of its parameters.** -/
theorem splitNew_joinParams {params : List (Option Bytes)} (some_param : params ≠ []) :
    gebrCommProtocolSplitNew stale params.length (joinParams params) =
      some (params.map fun param => param.getD []) := by
  induction params with
  | nil => exact absurd rfl some_param
  | cons param params ih =>
    cases params with
    | nil => exact splitNew_last stale (param.getD [])
    | cons next params =>
      have rest := ih (List.cons_ne_nil _ _)
      show gebrCommProtocolSplitNew stale ((next :: params).length + 1)
        (decimal (param.getD []).length ++ 124 :: param.getD [] ++
          32 :: joinParams (next :: params)) = _
      rw [splitNew_cons stale (param.getD []) (by simp) (joinParams_ne_nil (List.cons_ne_nil _ _)),
        rest]
      rfl

/-- **A built message is its head, a size and an argument of that size, which splits into the texts
of the parameters.** -/
theorem build_split (code : Bytes) (isReturn : Bool) {params : List (Option Bytes)}
    (some_param : params ≠ []) :
    ∃ argument, gebrCommProtocolBuildAnyMessagev code isReturn params =
        (if isReturn = false then code else retCode ++ 58 :: code) ++ 32 ::
          decimal argument.length ++ 32 :: argument ++ [10] ∧
      gebrCommProtocolSplitNew stale params.length argument =
        some (params.map fun param => param.getD []) :=
  ⟨joinParams params, rfl, splitNew_joinParams stale some_param⟩

/-- A message of an empty text, of one that looks like a parameter, and of a `NULL`. -/
theorem build_split_texts :
    ∃ argument, gebrCommProtocolBuildAnyMessagev (ascii "OUT") true
          [some [], some (ascii "3|a b"), none] =
        (if true = false then ascii "OUT" else retCode ++ 58 :: ascii "OUT") ++ 32 ::
          decimal argument.length ++ 32 :: argument ++ [10] ∧
      gebrCommProtocolSplitNew 0 3 argument = some [[], ascii "3|a b", []] :=
  build_split 0 (ascii "OUT") true (List.cons_ne_nil _ _)

end RoundTrip

end Gebr.Comm
