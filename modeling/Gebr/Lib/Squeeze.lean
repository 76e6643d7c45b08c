/-
**Runs of a list, each put as one element.**

Every run of elements of a kind that is long enough is replaced by one element, as a global
replacement of a regular expression does with the longest matches.

* `squeeze`: the replacement.
* `length_squeeze_le`, `length_squeeze_lt`: a list gets no longer, and shorter where two elements of
  the kind are next to each other.
* `filter_squeeze`: what is neither of the kind nor the new element stays as it is.
* `squeeze_append_cons`, `squeeze_of_kind`, `squeeze_of_other`: an element of another kind, a list
  of the kind, and one of others.
* `squeeze_cons_cons`, `head?_squeeze_one`, `getLast?_squeeze_one`: where every run is replaced.
* `mem_squeeze`, `mem_squeeze_one`: which elements there are.
-/

import Mathlib.Data.List.Basic

namespace Gebr.Lib.Squeeze

variable {α : Type*} (p : α → Bool) (least : ℕ) (one : α)

/-- A run behind its last element. -/
def flush (run : List α) : List α := if run.length < least then run else [one]

/-- The replacement behind a part of a run. -/
def squeezeFrom : List α → List α → List α
  | run, [] => flush least one run
  | run, a :: text => if p a then squeezeFrom (run ++ [a]) text else flush least one run ++
      a :: squeezeFrom [] text

/-- Every run of at least so many elements of the kind is replaced. -/
def squeeze (text : List α) : List α := squeezeFrom p least one [] text

variable {p least one} {run text : List α}

theorem squeezeFrom_cons_pos {a : α} (kind : p a = true) :
    squeezeFrom p least one run (a :: text) = squeezeFrom p least one (run ++ [a]) text := by
  conv_lhs => unfold squeezeFrom
  rw [if_pos kind]

theorem squeezeFrom_cons_neg {a : α} (other : p a = false) :
    squeezeFrom p least one run (a :: text) = flush least one run ++
    a :: squeeze p least one text := by
  conv_lhs => unfold squeezeFrom
  rw [other, if_neg Bool.false_ne_true]
  rfl

theorem flush_nil (positive : 0 < least) : flush least one ([] : List α) = [] := if_pos positive

theorem squeeze_cons_neg {a : α} (positive : 0 < least) (other : p a = false) :
    squeeze p least one (a :: text) = a :: squeeze p least one text := by
  conv_lhs => unfold squeeze
  rw [squeezeFrom_cons_neg other, flush_nil positive, List.nil_append]

theorem squeezeFrom_append_cons {a : α} (other : p a = false) (run front back : List α) :
    squeezeFrom p least one run (front ++ a :: back) =
      squeezeFrom p least one run front ++ a :: squeeze p least one back := by
  induction front generalizing run with
  | nil =>
    rw [List.nil_append, squeezeFrom_cons_neg other]
    rfl
  | cons b front ih =>
    rw [List.cons_append]
    cases kind : p b with
    | true => rw [squeezeFrom_cons_pos kind, squeezeFrom_cons_pos kind, ih]
    | false =>
      rw [squeezeFrom_cons_neg kind, squeezeFrom_cons_neg kind, squeeze, ih, List.append_assoc,
        List.cons_append]
      rfl

/-- **An element of another kind** stands between what is squeezed. -/
theorem squeeze_append_cons {a : α} (other : p a = false) (front back : List α) :
    squeeze p least one (front ++ a :: back) = squeeze p least one front ++
    a :: squeeze p least one back :=
  squeezeFrom_append_cons other [] front back

theorem squeezeFrom_of_kind {text : List α} (kind : ∀ a ∈ text, p a = true) (run : List α) :
    squeezeFrom p least one run text = flush least one (run ++ text) := by
  induction text generalizing run with
  | nil => rw [List.append_nil, squeezeFrom]
  | cons a text ih =>
    obtain ⟨is, kind⟩ := List.forall_mem_cons.1 kind
    rw [squeezeFrom_cons_pos is, ih kind, List.append_assoc, List.singleton_append]

theorem squeeze_of_kind {text : List α} (kind : ∀ a ∈ text, p a = true) :
    squeeze p least one text = flush least one text :=
  squeezeFrom_of_kind kind []

theorem squeeze_of_other (positive : 0 < least) {text : List α} (other : ∀ a ∈ text, p a = false) :
    squeeze p least one text = text := by
  induction text with
  | nil => exact flush_nil positive
  | cons a text ih =>
    obtain ⟨is, other⟩ := List.forall_mem_cons.1 other
    rw [squeeze_cons_neg positive is, ih other]

theorem squeeze_eq_nil (positive : 0 < least) {text : List α} :
    squeeze p least one text = [] ↔ text = [] := by
  refine ⟨fun empty => ?_, fun empty => by rw [empty]; exact flush_nil positive⟩
  by_cases kind : ∀ a ∈ text, p a = true
  · rw [squeeze_of_kind kind] at empty
    unfold flush at empty
    split at empty
    · exact empty
    · exact nomatch empty
  · push Not at kind
    obtain ⟨a, member, other⟩ := kind
    obtain ⟨front, back, rfl⟩ := List.append_of_mem member
    rw [squeeze_append_cons (Bool.eq_false_iff.2 other)] at empty
    exact nomatch (List.append_eq_nil_iff.1 empty).2

section EveryRun

theorem flush_one (some_run : run ≠ []) : flush 1 one run = [one] :=
  if_neg (Nat.not_lt.2 (List.length_pos_of_ne_nil some_run))

theorem squeezeFrom_one_congr {run' : List α} (some_run : run ≠ []) (some_run' : run' ≠ [])
    (text : List α) : squeezeFrom p 1 one run text = squeezeFrom p 1 one run' text := by
  induction text generalizing run run' with
  | nil => rw [squeezeFrom, squeezeFrom, flush_one some_run, flush_one some_run']
  | cons a text ih =>
    cases kind : p a with
    | true =>
      rw [squeezeFrom_cons_pos kind, squeezeFrom_cons_pos kind]
      exact ih (List.append_ne_nil_of_left_ne_nil some_run _)
        (List.append_ne_nil_of_left_ne_nil some_run' _)
    | false =>
      rw [squeezeFrom_cons_neg kind, squeezeFrom_cons_neg kind, flush_one some_run,
        flush_one some_run']

/-- The second of two elements of the kind makes no difference. -/
theorem squeeze_cons_cons {a b : α} (first : p a = true) (second : p b = true) (text : List α) :
    squeeze p 1 one (a :: b :: text) = squeeze p 1 one (b :: text) := by
  rw [squeeze, squeeze, squeezeFrom_cons_pos first, squeezeFrom_cons_pos second,
    squeezeFrom_cons_pos second]
  exact squeezeFrom_one_congr (List.cons_ne_nil _ _) (List.cons_ne_nil _ _) text

theorem squeeze_cons_pos_neg {a b : α} (first : p a = true) (second : p b = false) (text : List α) :
    squeeze p 1 one (a :: b :: text) = one :: squeeze p 1 one (b :: text) := by
  rw [squeeze_cons_neg Nat.one_pos second, squeeze, squeezeFrom_cons_pos first,
    squeezeFrom_cons_neg second,
      flush_one (List.append_ne_nil_of_right_ne_nil [] (List.cons_ne_nil a []))]
  rfl

theorem squeeze_singleton {a : α} (kind : p a = true) : squeeze p 1 one [a] = [one] := by
  rw [squeeze_of_kind (by simpa using kind), flush_one (List.cons_ne_nil a [])]

/-- **The first element**, where every run is replaced. -/
theorem head?_squeeze_one (text : List α) :
    (squeeze p 1 one text).head? = text.head?.map fun a => if p a then one else a := by
  induction text with
  | nil => rfl
  | cons a text ih =>
    cases kind : p a with
    | false => rw [squeeze_cons_neg Nat.one_pos kind]; simp [kind]
    | true =>
      cases text with
      | nil => rw [squeeze_singleton kind]; simp [kind]
      | cons b text =>
        cases second : p b with
        | false => rw [squeeze_cons_pos_neg kind second]; simp [kind]
        | true => rw [squeeze_cons_cons kind second, ih]; simp [kind, second]

/-- **The last element**, where every run is replaced. -/
theorem getLast?_squeeze_one (text : List α) :
    (squeeze p 1 one text).getLast? = text.getLast?.map fun a => if p a then one else a := by
  induction text with
  | nil => rfl
  | cons a text ih =>
    cases text with
    | nil =>
      cases kind : p a with
      | false => rw [squeeze_of_other Nat.one_pos (by simpa using kind)]; simp [kind]
      | true => rw [squeeze_singleton kind]; simp [kind]
    | cons b text =>
      have more : squeeze p 1 one (b :: text) ≠ [] :=
        fun empty => List.cons_ne_nil b text ((squeeze_eq_nil Nat.one_pos).1 empty)
      rw [List.getLast?_cons_cons, ← ih]
      cases kind : p a with
      | false => rw [squeeze_cons_neg Nat.one_pos kind, List.getLast?_cons_of_ne_nil more]
      | true =>
        cases second : p b with
        | false => rw [squeeze_cons_pos_neg kind second, List.getLast?_cons_of_ne_nil more]
        | true => rw [squeeze_cons_cons kind second]

end EveryRun

section Lengths

theorem length_flush_le (one : α) (positive : 0 < least) (run : List α) :
    (flush least one run).length ≤ run.length := by
  unfold flush
  split
  · exact Nat.le_refl _
  · rw [List.length_singleton]
    omega

theorem length_squeezeFrom_le (p : α → Bool) (one : α) (positive : 0 < least) (run text : List α) :
    (squeezeFrom p least one run text).length ≤ run.length + text.length := by
  induction text generalizing run with
  | nil => exact length_flush_le one positive run
  | cons a text ih =>
    cases kind : p a with
    | true =>
      have rest := ih (run ++ [a])
      rw [squeezeFrom_cons_pos kind]
      simp only [List.length_append, List.length_cons, List.length_nil] at rest ⊢
      omega
    | false =>
      have short := length_flush_le one positive run
      have rest := ih []
      rw [squeezeFrom_cons_neg kind]
      simp only [List.length_append, List.length_cons, List.length_nil] at rest ⊢
      unfold squeeze
      omega

theorem length_squeeze_le (p : α → Bool) (one : α) (positive : 0 < least) (text : List α) :
    (squeeze p least one text).length ≤ text.length := by
  have whole := length_squeezeFrom_le p one positive [] text
  rwa [List.length_nil, Nat.zero_add] at whole

theorem length_squeezeFrom_lt (one : α) (run text front : List α) {back : List α} {a b : α}
    (pair : run ++ text = front ++ a :: b :: back) (first : p a = true) (second : p b = true) :
    (squeezeFrom p 2 one run text).length < run.length + text.length := by
  induction text generalizing run front with
  | nil =>
    have long : 2 ≤ run.length := by
      rw [← List.append_nil run, pair, List.length_append, List.length_cons, List.length_cons]
      omega
    unfold squeezeFrom flush
    rw [if_neg (by omega), List.length_singleton, List.length_nil]
    omega
  | cons c text ih =>
    cases kind : p c with
    | true =>
      have rest := ih (run ++ [c]) front (by rw [← pair, List.append_assoc, List.singleton_append])
      rw [squeezeFrom_cons_pos kind]
      simp only [List.length_append, List.length_cons, List.length_nil] at rest ⊢
      omega
    | false =>
      have notFirst : a ≠ c := fun same => nomatch (same ▸ first).symm.trans kind
      have notSecond : b ≠ c := fun same => nomatch (same ▸ second).symm.trans kind
      rw [squeezeFrom_cons_neg kind, List.length_append, List.length_cons, List.length_cons]
      -- The two are in the run that ends here, or behind it.
      rcases List.append_eq_append_iff.1 pair with ⟨between, -, behind⟩ | ⟨between, inside, behind⟩
      · cases between with
        | nil => exact absurd (List.cons.inj behind).1.symm notFirst
        | cons d between =>
          have rest := ih [] between (List.cons.inj behind).2
          have short := length_flush_le one Nat.two_pos run
          rw [List.length_nil, Nat.zero_add] at rest
          unfold squeeze
          omega
      · match between with
        | [] => exact absurd (List.cons.inj behind).1 notFirst
        | [d] => exact absurd (List.cons.inj (List.cons.inj behind).2).1 notSecond
        | d :: e :: between =>
          have long : 2 ≤ run.length := by
            rw [inside]
            simp only [List.length_append, List.length_cons]
            omega
          have rest := length_squeeze_le p one Nat.two_pos text
          unfold flush
          rw [if_neg (by omega), List.length_singleton]
          omega

/-- A list with two elements of the kind next to each other gets shorter. -/
theorem length_squeeze_lt {a b : α} (pair : [a, b] <:+: text) (first : p a = true)
    (second : p b = true) : (squeeze p 2 one text).length < text.length := by
  obtain ⟨front, back, rfl⟩ := pair
  have whole := length_squeezeFrom_lt one [] (front ++ [a, b] ++ back) front
    (List.append_assoc front [a, b] back) first second
  rwa [List.length_nil, Nat.zero_add] at whole

end Lengths

section Elements

/-- Which elements a part of a run and what follows it has. -/
theorem mem_squeezeFrom {a : α} (run text : List α) (member : a ∈ squeezeFrom p least one run text) :
    a ∈ run ∨ a ∈ text ∨ a = one := by
  have flushed (run : List α) (member : a ∈ flush least one run) : a ∈ run ∨ a = one := by
    unfold flush at member
    split at member
    · exact .inl member
    · exact .inr (List.mem_singleton.1 member)
  induction text generalizing run with
  | nil =>
    rcases flushed run member with inside | new
    · exact .inl inside
    · exact .inr (.inr new)
  | cons b text ih =>
    cases kind : p b with
    | true =>
      rw [squeezeFrom_cons_pos kind] at member
      rcases ih (run ++ [b]) member with before | behind
      · rcases List.mem_append.1 before with inside | last
        · exact .inl inside
        · exact .inr (.inl (List.mem_cons.2 (.inl (List.mem_singleton.1 last))))
      · exact .inr (behind.imp_left (List.mem_cons_of_mem b))
    | false =>
      rw [squeezeFrom_cons_neg kind] at member
      rcases List.mem_append.1 member with before | behind
      · exact (flushed run before).imp_right .inr
      · rcases List.mem_cons.1 behind with rfl | later
        · exact .inr (.inl List.mem_cons_self)
        · rcases ih [] later with none | rest
          · exact absurd none List.not_mem_nil
          · exact .inr (rest.imp_left (List.mem_cons_of_mem b))

theorem mem_squeeze {a : α} (member : a ∈ squeeze p least one text) : a ∈ text ∨ a = one :=
  (mem_squeezeFrom [] text member).resolve_left List.not_mem_nil

/-- Where every run is long enough, no other element of the kind is left. -/
theorem mem_squeezeFrom_one {a : α} (run text : List α) (member : a ∈ squeezeFrom p 1 one run text) :
    p a = false ∨ a = one := by
  have flushed (run : List α) (member : a ∈ flush 1 one run) : a = one := by
    unfold flush at member
    split at member
    · rename_i short
      rw [List.length_eq_zero_iff.1 (Nat.lt_one_iff.1 short)] at member
      exact absurd member List.not_mem_nil
    · exact List.mem_singleton.1 member
  induction text generalizing run with
  | nil => exact .inr (flushed run member)
  | cons b text ih =>
    cases kind : p b with
    | true =>
      rw [squeezeFrom_cons_pos kind] at member
      exact ih (run ++ [b]) member
    | false =>
      rw [squeezeFrom_cons_neg kind] at member
      rcases List.mem_append.1 member with before | behind
      · exact .inr (flushed run before)
      · rcases List.mem_cons.1 behind with rfl | later
        · exact .inl kind
        · exact ih [] later

theorem mem_squeeze_one {a : α} (member : a ∈ squeeze p 1 one text) : p a = false ∨ a = one :=
  mem_squeezeFrom_one [] text member

variable {q : α → Bool}

/-- **What is neither of the kind nor the new element** stays as it is. -/
theorem filter_squeezeFrom (apart : ∀ a, q a = true → p a = false) (new : q one = false)
    (run text : List α) (kind : ∀ a ∈ run, p a = true) :
    (squeezeFrom p least one run text).filter q = text.filter q := by
  have none (a : α) (is : p a = true) : q a = false := by
    cases known : q a with
    | true => exact nomatch is.symm.trans (apart a known)
    | false => rfl
  have flushed (run : List α) (kind : ∀ a ∈ run, p a = true) : (flush least one run).filter q =
      [] := by
    unfold flush
    split
    · exact List.filter_eq_nil_iff.2 fun a member => by simp [none a (kind a member)]
    · exact List.filter_eq_nil_iff.2 fun a member => by simp [List.mem_singleton.1 member, new]
  induction text generalizing run with
  | nil => exact flushed run kind
  | cons b text ih =>
    cases is : p b with
    | true =>
      rw [squeezeFrom_cons_pos is, List.filter_cons_of_neg (by simp [none b is])]
      refine ih (run ++ [b]) fun a member => ?_
      rcases List.mem_append.1 member with inside | last
      · exact kind a inside
      · exact List.mem_singleton.1 last ▸ is
    | false =>
      rw [squeezeFrom_cons_neg is, List.filter_append, flushed run kind, List.nil_append,
        List.filter_cons, List.filter_cons]
      rw [show (squeeze p least one text).filter q = text.filter q from ih [] fun a member =>
        nomatch member]

theorem filter_squeeze (apart : ∀ a, q a = true → p a = false) (new : q one = false) (text : List α) :
    (squeeze p least one text).filter q = text.filter q :=
  filter_squeezeFrom apart new [] text fun _ member => nomatch member

end Elements

end Gebr.Lib.Squeeze
