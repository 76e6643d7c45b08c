/-
**The backspaces that nested strings leave, taken out in place.**

A nested string prints its value, one byte more and a backspace. The text is cleaned in its own
buffer, with one index that reads and one that writes.

* `cleanPass`, `cleanStringInPlace`: the loop over the buffer; `none` is a byte outside of it.
* `Kept`: no backspace comes where nothing is left to take.
* `cleanStringInPlace_eq` — **the loop is `cleanString`**, where no backspace is too many.
* `Assembled`: texts of literal bytes and nested strings.
* `cleans_assembled` — **what is left are the literal bytes and the nested strings**.
-/

import Gebr.Validator.BcOutput

namespace Gebr.Validator.CleanString

open Gebr.Validator.BcOutput
open Gebr.Validator.StringExpr (Text)

section Model

/-- `strlen`. -/
def strlen (buffer : Text) : ℕ := (buffer.takeWhile (· ≠ 0)).length

/-- The loop of `clean_string` from one index on, with a bound on how often it is done; it gives the
buffer, `i` and `b`. -/
def cleanPass : ℕ → Text → ℕ → ℕ → Option (Text × ℕ × ℕ)
  | 0, _, _, _ => none
  | fuel + 1, str, i, b =>
    if i < strlen str then do
      let b := if (← str[i + b]?) = 8 then b + 1 else b
      let byte ← str[i + b]?
      if i < b then none else cleanPass fuel (str.set (i - b) byte) (i + 1) b
    else some (str, i, b)

/-- The end that is written behind the loop, and the text that is left. -/
def closeString (str : Text) (i b : ℕ) : Option Text :=
  if i < b ∨ str.length ≤ i - b then none else some ((str.set (i - b) 0).takeWhile (· ≠ 0))

/-- `clean_string`, on a text with its end. -/
def cleanStringInPlace (text : Text) : Option Text :=
  (cleanPass (text.length + 1) (text ++ [0]) 0 0).bind fun (str, i, b) => closeString str i b

end Model

section Refinement

/-- No backspace comes where nothing is left to take. -/
def Kept (front : Text) : Text → Prop
  | [] => True
  | b :: rest =>
    if b = 8 then
      front ≠ [] ∧
        match rest with
        | [] => True
        | c :: rest => Kept (front.dropLast ++ [c]) rest
    else Kept (front ++ [b]) rest

variable {front junk rest : Text}

theorem kept_cons {b : UInt8} (plain : b ≠ 8) : Kept front (b :: rest) ↔ Kept (front ++ [b]) rest := by
  conv_lhs => unfold Kept
  rw [if_neg plain]

theorem kept_backspace {b : UInt8} (begins : rest.head? ≠ some 8) :
    Kept (front ++ [b]) (8 :: rest) ↔ Kept front rest := by
  conv_lhs => unfold Kept
  rw [if_pos rfl, List.dropLast_concat]
  have before : front ++ [b] ≠ [] := List.append_ne_nil_of_right_ne_nil front (List.cons_ne_nil b [])
  cases rest with
  | nil => exact ⟨fun _ => trivial, fun _ => ⟨before, trivial⟩⟩
  | cons c rest =>
    have plain : c ≠ 8 := fun same => begins (congrArg some same)
    rw [kept_cons plain]
    exact and_iff_right before

theorem strlen_append (nonzero : 0 ∉ front) (rest : Text) :
    strlen (front ++ 0 :: rest) = front.length := by
  unfold strlen
  rw [List.takeWhile_append_of_pos, List.takeWhile_cons_of_neg (by simp), List.append_nil]
  intro b member
  exact decide_eq_true fun same => nonzero (same ▸ member)

theorem set_front (front : Text) (c : UInt8) (junk rest : Text) :
    ∃ other, (front ++ junk ++ c :: rest).set front.length c = front ++ [c] ++ other ++ rest ∧
      other.length = junk.length ∧ ∀ b ∈ other, b ∈ junk ∨ b = c := by
  cases junk with
  | nil => exact ⟨[], by simp, rfl, nofun⟩
  | cons b junk =>
    refine ⟨junk ++ [c], by simp, by simp, ?_⟩
    intro other member
    rcases List.mem_append.1 member with inside | last
    · exact .inl (List.mem_cons_of_mem b inside)
    · exact .inr (List.mem_singleton.1 last)

theorem closeString_eq (nonzero : 0 ∉ front) (rest : Text) {i b : ℕ} (inside : front.length + b ≤ i)
    (short : i < front.length + 1 + rest.length + b) :
    closeString (front ++ 0 :: rest) i b = some front := by
  have fits : ¬ (i < b ∨ (front ++ 0 :: rest).length ≤ i - b) := by
    rw [List.length_append, List.length_cons]
    omega
  have written : ∃ other, (front ++ 0 :: rest).set (i - b) 0 = front ++ 0 :: other := by
    rw [List.set_append_right _ _ (by omega)]
    cases i - b - front.length with
    | zero => exact ⟨rest, rfl⟩
    | succ place => exact ⟨rest.set place 0, rfl⟩
  obtain ⟨other, same⟩ := written
  unfold closeString
  rw [if_neg fits, same, List.takeWhile_append_of_pos, List.takeWhile_cons_of_neg (by simp),
    List.append_nil]
  intro b member
  exact decide_eq_true fun zero => nonzero (zero ▸ member)

/-- What stands behind other bytes. -/
theorem getElem?_behind (before : Text) (c : UInt8) (rest : Text) :
    (before ++ c :: rest)[before.length]? = some c := by
  rw [List.getElem?_append_right (Nat.le_refl _), Nat.sub_self]
  rfl

/-- The end is not before the bytes that are none. -/
theorem le_strlen (nonzero : 0 ∉ front) (rest : Text) : front.length ≤ strlen (front ++ rest) := by
  unfold strlen
  rw [List.takeWhile_append_of_pos, List.length_append]
  · exact Nat.le_add_right _ _
  · intro b member
    exact decide_eq_true fun same => nonzero (same ▸ member)

/-- Another byte is read, and written behind the front. -/
theorem cleanPass_byte {fuel b : ℕ} {c : UInt8} (nonzero : 0 ∉ front ++ junk)
    (size : junk.length = 2 * b) (rest : Text) (more : c ≠ 0 ∨ 0 < b) (plain : c ≠ 8) :
    ∃ other, cleanPass (fuel + 1) (front ++ junk ++ c :: rest) (front.length + b) b =
        cleanPass fuel (front ++ [c] ++ other ++ rest) (front.length + b + 1) b ∧
      other.length = junk.length ∧ ∀ d ∈ other, d ∈ junk ∨ d = c := by
  have wide : (front ++ junk).length = front.length + b + b := by
    rw [List.length_append, size]
    omega
  have inside : front.length + b < strlen (front ++ junk ++ c :: rest) := by
    rcases more with more | more
    · have whole : 0 ∉ front ++ junk ++ [c] := by
        rw [List.mem_append, List.mem_singleton]
        exact fun member => member.elim nonzero fun same => more same.symm
      have reach := le_strlen whole rest
      rw [← List.append_cons, List.length_append, wide, List.length_singleton] at reach
      omega
    · have reach := le_strlen nonzero (c :: rest)
      omega
  have read : (front ++ junk ++ c :: rest)[front.length + b + b]? = some c := by
    rw [← wide]
    exact getElem?_behind _ c rest
  have before : ¬ front.length + b < b := by omega
  have place : front.length + b - b = front.length := by omega
  obtain ⟨other, written, same⟩ := set_front front c junk rest
  refine ⟨other, ?_, same⟩
  rw [← written]
  conv_lhs => unfold cleanPass
  simp only [if_pos inside, read, Option.bind_eq_bind, Option.bind_some, if_neg plain,
    if_neg before, place]

/-- The byte behind a backspace is read, and written in the place of the one before it. -/
theorem cleanPass_backspace {fuel b : ℕ} {a c : UInt8} (nonzero : 0 ∉ front ++ (a :: junk))
    (size : junk.length = 2 * b) (rest : Text) :
    ∃ other, cleanPass (fuel + 1) (front ++ (a :: junk) ++ 8 :: c :: rest) (front.length + 1 + b) b =
        cleanPass fuel (front ++ [c] ++ other ++ rest) (front.length + 1 + b + 1) (b + 1) ∧
      other.length = junk.length + 2 ∧ ∀ d ∈ other, d ∈ a :: junk ++ [8] ∨ d = c := by
  have wide : (front ++ (a :: junk)).length = front.length + 1 + b + b := by
    rw [List.length_append, List.length_cons, size]
    omega
  have whole : 0 ∉ front ++ (a :: junk) ++ [8] := by
    rw [List.mem_append]
    exact fun member => member.elim nonzero (by decide)
  have inside : front.length + 1 + b < strlen (front ++ (a :: junk) ++ 8 :: c :: rest) := by
    have reach := le_strlen whole (c :: rest)
    rw [← List.append_cons, List.length_append, wide, List.length_singleton] at reach
    omega
  have read : (front ++ (a :: junk) ++ 8 :: c :: rest)[front.length + 1 + b + b]? = some 8 := by
    rw [← wide]
    exact getElem?_behind _ 8 _
  have next : (front ++ (a :: junk) ++ 8 :: c :: rest)[front.length + 1 + b + (b + 1)]? = some c := by
    have behind := getElem?_behind (front ++ (a :: junk) ++ [8]) c rest
    rwa [List.length_append, wide, ← List.append_cons] at behind
  have before : ¬ front.length + 1 + b < b + 1 := by omega
  have place : front.length + 1 + b - (b + 1) = front.length := by omega
  obtain ⟨other, written, long, same⟩ := set_front front c (a :: junk ++ [8]) rest
  rw [← List.append_assoc, ← List.append_cons] at written
  refine ⟨other, ?_, by rw [long]; simp, same⟩
  rw [← written]
  conv_lhs => unfold cleanPass
  simp only [if_pos inside, read, Option.bind_eq_bind, Option.bind_some, if_true, next,
    if_neg before, place]

/-- Nothing is read where the end is not behind the index. -/
theorem cleanPass_ended {fuel i b : ℕ} (nonzero : 0 ∉ front) (rest : Text) (ended : front.length ≤ i) :
    cleanPass (fuel + 1) (front ++ 0 :: rest) i b = some (front ++ 0 :: rest, i, b) := by
  have outside : ¬ i < strlen (front ++ 0 :: rest) := by
    rw [strlen_append nonzero]
    omega
  conv_lhs => unfold cleanPass
  rw [if_neg outside]

/-- **The loop over the buffer** is the loop over the text: what is left so far is in front, and
behind it are two bytes for each backspace. -/
theorem cleanPass_eq {fuel b : ℕ} (kept : Kept front rest) (nonzero : 0 ∉ front ++ junk ++ rest)
    (size : junk.length = 2 * b) (enough : rest.length + 1 + min b 1 ≤ fuel) :
    ((cleanPass fuel (front ++ junk ++ (rest ++ [0])) (front.length + b) b).bind fun (str, i, b) =>
      closeString str i b) = some (cleanLoop front rest) := by
  induction front, rest using cleanLoop.induct generalizing junk b fuel with
  | case1 front =>
    have before : 0 ∉ front ++ junk := fun member => nonzero (List.mem_append_left _ member)
    have plain : 0 ∉ front := fun member => before (List.mem_append_left _ member)
    unfold cleanLoop
    rw [List.nil_append]
    cases b with
    | zero =>
      obtain rfl : junk = [] := List.length_eq_zero_iff.1 size
      obtain ⟨fuel, rfl⟩ : ∃ more, fuel = more + 1 :=
        ⟨fuel - 1, by simp only [List.length_nil] at enough; omega⟩
      rw [List.append_nil, cleanPass_ended plain [] (Nat.le_add_right _ _)]
      exact closeString_eq plain [] (Nat.le_refl _) (by simp)
    | succ b =>
      -- The end is copied behind the front, and the loop ends there.
      obtain ⟨fuel, rfl⟩ : ∃ more, fuel = more + 2 :=
        ⟨fuel - 2, by simp only [List.length_nil] at enough; omega⟩
      obtain ⟨other, once, long, _⟩ := cleanPass_byte (c := 0) before size []
        (.inr (Nat.succ_pos b)) (by decide)
      rw [once, List.append_nil, ← List.append_cons, cleanPass_ended plain other (by omega)]
      exact closeString_eq plain other (by omega) (by omega)
  | case2 front =>
    obtain ⟨front, a, rfl⟩ : ∃ before last, front = before ++ [last] :=
      ⟨_, _, (List.dropLast_append_getLast (by simpa [Kept] using kept)).symm⟩
    have before : 0 ∉ front ++ (a :: junk) := by
      rw [List.append_cons]
      exact fun member => nonzero (List.mem_append_left _ member)
    have plain : 0 ∉ front := fun member => before (List.mem_append_left _ member)
    obtain ⟨fuel, rfl⟩ : ∃ more, fuel = more + 2 :=
      ⟨fuel - 2, by simp only [List.length_singleton] at enough; omega⟩
    obtain ⟨other, once, long, _⟩ := cleanPass_backspace (c := 0) before size []
    unfold cleanLoop
    rw [if_pos rfl, List.dropLast_concat, List.length_append, List.length_singleton,
      ← List.append_cons, List.singleton_append, once, List.append_nil, ← List.append_cons,
        cleanPass_ended plain other (by omega)]
    exact closeString_eq plain other (by omega) (by omega)
  | case3 front c rest ih =>
    obtain ⟨nonempty, later⟩ : front ≠ [] ∧ Kept (front.dropLast ++ [c]) rest := by
      simpa [Kept] using kept
    obtain ⟨front, a, rfl⟩ : ∃ before last, front = before ++ [last] :=
      ⟨_, _, (List.dropLast_append_getLast nonempty).symm⟩
    rw [List.dropLast_concat] at ih later
    have before : 0 ∉ front ++ (a :: junk) := by
      rw [List.append_cons]
      exact fun member => nonzero (List.mem_append_left _ member)
    have behind : 0 ∉ c :: rest := fun member =>
      nonzero (List.mem_append_right _ (List.mem_cons_of_mem 8 member))
    obtain ⟨fuel, rfl⟩ : ∃ more, fuel = more + 1 :=
      ⟨fuel - 1, by simp only [List.length_cons] at enough; omega⟩
    obtain ⟨other, once, long, same⟩ := cleanPass_backspace (c := c) before size (rest ++ [0])
    have still : 0 ∉ front ++ [c] ++ other ++ rest := by grind
    have next := @ih other fuel (b + 1) later still (by omega)
      (by simp only [List.length_cons] at enough; omega)
    rw [List.length_append, List.length_singleton] at next
    unfold cleanLoop
    rw [if_pos rfl, List.dropLast_concat, List.length_append, List.length_singleton,
      ← List.append_cons, List.cons_append, List.cons_append, once]
    exact next
  | case4 front a rest plain ih =>
    have later := (kept_cons plain).1 kept
    have before : 0 ∉ front ++ junk := fun member => nonzero (List.mem_append_left _ member)
    have behind : 0 ∉ a :: rest := fun member => nonzero (List.mem_append_right _ member)
    have some : a ≠ 0 := fun same => behind (same ▸ List.mem_cons_self)
    obtain ⟨fuel, rfl⟩ : ∃ more, fuel = more + 1 :=
      ⟨fuel - 1, by simp only [List.length_cons] at enough; omega⟩
    obtain ⟨other, once, long, same⟩ := cleanPass_byte before size (rest ++ [0]) (.inl some) plain
    have still : 0 ∉ front ++ [a] ++ other ++ rest := by grind
    have next := @ih other fuel b later still (by omega)
      (by simp only [List.length_cons] at enough; omega)
    rw [List.length_append, List.length_singleton, Nat.add_right_comm] at next
    rw [cleanLoop_cons front rest plain, List.cons_append, once]
    exact next

/-- **The cleaning in place** never writes before the text, and is `cleanString`. -/
theorem cleanStringInPlace_eq {text : Text} (nonzero : 0 ∉ text) (kept : Kept [] text) :
    cleanStringInPlace text = some (cleanString text) := by
  have long : text.length + 1 + min 0 1 ≤ text.length + 1 := Nat.le_refl _
  exact cleanPass_eq (b := 0) kept nonzero List.length_nil long

end Refinement

section Nested

variable {raw clean : Text}

/-- A text of literal bytes and nested strings, each followed by a byte that is printed and a
backspace; with the literal bytes and the nested strings. -/
inductive Assembled : Text → Text → Prop
  | empty : Assembled [] []
  | literal {raw clean : Text} {b : UInt8} : Assembled raw clean → b ≠ 0 → b ≠ 8 →
      Assembled (raw ++ [b]) (clean ++ [b])
  | nested {raw clean inner result : Text} {printed : UInt8} : Assembled raw clean →
    Assembled inner result → printed ≠ 0 → printed ≠ 8 → Assembled (raw ++ inner ++ [printed, 8])
      (clean ++ result)

theorem Assembled.spoils (assembled : Assembled raw clean) : Spoils raw clean := by
  induction assembled with
  | empty => exact spoils_text List.not_mem_nil
  | literal _ _ plain ih => exact ih.append (spoils_text (by simpa using plain.symm))
  | nested _ _ _ plain first second =>
    rw [List.append_assoc]
    exact first.append (second.nested plain)

theorem Assembled.nonzero (assembled : Assembled raw clean) : 0 ∉ raw := by
  induction assembled with
  | empty => exact List.not_mem_nil
  | literal _ some _ ih => simpa [some.symm] using ih
  | nested _ _ some _ first second => simpa [some.symm] using ⟨first, second⟩

/-- Such a text takes nothing from what is before it. -/
theorem Assembled.kept (assembled : Assembled raw clean) {front rest : Text}
    (begins : rest.head? ≠ some 8) : Kept front (raw ++ rest) ↔ Kept (front ++ clean) rest := by
  induction assembled generalizing front rest with
  | empty => rw [List.nil_append, List.append_nil]
  | @literal raw clean b _ _ plain ih =>
    have begins' : ([b] ++ rest).head? ≠ some 8 := fun same => plain (Option.some.inj same)
    rw [List.append_assoc, ih begins', List.singleton_append, kept_cons plain, List.append_assoc]
  | @nested raw clean inner result printed first second _ plain ihFirst ihSecond =>
    have begins' : ([printed, 8] ++ rest).head? ≠ some 8 := fun same => plain (Option.some.inj same)
    have begins'' : (inner ++ ([printed, 8] ++ rest)).head? ≠ some 8 := by
      rw [List.head?_append]
      cases inner with
      | nil => exact begins'
      | cons b inner => exact second.spoils.begins
    rw [List.append_assoc, List.append_assoc, ihFirst begins'', ihSecond begins', List.cons_append,
      kept_cons plain, List.singleton_append, kept_backspace begins, List.append_assoc]

/-- **What is left are the literal bytes and the nested strings**, and nothing is written before the
text. -/
theorem cleans_assembled (assembled : Assembled raw clean) : cleanStringInPlace raw = some clean := by
  have kept : Kept [] raw := by
    have begins : ([] : Text).head? ≠ some 8 := nofun
    rw [← List.append_nil raw]
    exact (assembled.kept begins).2 trivial
  rw [cleanStringInPlace_eq assembled.nonzero kept, assembled.spoils.cleanString_eq]

/-- A letter, a nested string with an empty one in it, and another letter. -/
theorem cleans_letters : cleanStringInPlace [97, 98, 48, 8, 48, 8, 99] = some [97, 98, 99] := by
  have letter (b : UInt8) (some : b ≠ 0) (plain : b ≠ 8) : Assembled [b] [b] :=
    .literal .empty some plain
  have inner : Assembled ([98] ++ [] ++ [48, 8]) ([98] ++ []) :=
    .nested (letter 98 (by decide) (by decide)) .empty (by decide) (by decide)
  have outer : Assembled ([97] ++ [98, 48, 8] ++ [48, 8]) ([97] ++ [98]) :=
    .nested (letter 97 (by decide) (by decide)) inner (by decide) (by decide)
  exact cleans_assembled (outer.literal (b := 99) (by decide) (by decide))

end Nested

end Gebr.Validator.CleanString
