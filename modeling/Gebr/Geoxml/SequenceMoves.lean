/-
**Moves within a sequence.**

The elements below one parent are of several kinds. A sequence is what `gebr_geoxml_sequence_next`
and `gebr_geoxml_sequence_previous` go through, and they end at a sibling of another kind.

* `Siblings`: the elements, each there once.
* `apply`: `gebr_geoxml_sequence_move_before`, `_move_after`, `_move_up` and `_move_down`.
* `Allowed`, `Placed`: when an operation succeeds, and where the element is then.
* `apply_moves`: one operation.
* `run_moves` — **every operation in every run**.
* `null_pivot`: the end of the sequence is in front of a sibling of another kind.
-/

import Gebr.Geoxml.DictSplit
import Gebr.Lib.Siblings

namespace Gebr.Geoxml.Moves

open Gebr.Lib.Siblings

section Model

/-- The name of an element. The first ones are those that `__gebr_geoxml_sequence_check` knows. -/
inductive Tag
  | server
  | value
  | default
  | option
  | program
  | parameter
  | parameters
  | category
  | revision
  | flow
  | path
  | line
  | other (name : Text)
  deriving DecidableEq

structure Element where
  tag : Tag
  /-- The node of the document. -/
  id : ℕ
  deriving DecidableEq

/-- The elements below one parent. Those that are parameters are in no group. -/
structure Siblings where
  list : List Element
  nodup : list.Nodup

inductive Retv
  | success
  | notASequence
  | differentSequences
  | invalidIndex
  deriving DecidableEq

/-- `__gebr_geoxml_sequence_check`. -/
def Tag.isSequence : Tag → Bool
  | .other _ => false
  | _ => true

/-- `__gebr_geoxml_next_element`. -/
def nextElement (x : Element) (list : List Element) : Option Element := (following x list).head?

/-- `__gebr_geoxml_next_same_element`. -/
def nextSameElement (x : Element) (list : List Element) : Option Element :=
  (nextElement x list).filter fun y => y.tag = x.tag

/-- `__gebr_geoxml_previous_same_element`. -/
def previousSameElement (x : Element) (list : List Element) : Option Element :=
  (preceding x list).head?.filter fun y => y.tag = x.tag

/-- `__gebr_geoxml_sequence_move_before`. -/
def sequenceMoveBefore (sequence : Element) (position : Option Element) (list : List Element) :
    List Element :=
  match position with
  | none =>
    let last := lastWhile (fun y => y.tag = sequence.tag) sequence (following sequence list)
    if last ≠ sequence then insertBefore sequence (nextElement last list) list else list
  | some position => if sequence ≠ position then insertBefore sequence (some position) list else list

/-- `__gebr_geoxml_sequence_move_after`. -/
def sequenceMoveAfter (sequence : Element) (position : Option Element) (list : List Element) :
    List Element :=
  match position with
  | none =>
    let first := lastWhile (fun y => y.tag = sequence.tag) sequence (preceding sequence list)
    if first ≠ sequence then insertBefore sequence (some first) list else list
  | some position =>
    if sequence ≠ position then insertBefore sequence (nextElement position list) list else list

/-- `__gebr_geoxml_sequence_move_up`. -/
def sequenceMoveUp (sequence : Element) (list : List Element) : Retv × List Element :=
  match previousSameElement sequence list with
  | none => (.invalidIndex, list)
  | some previous => (.success, insertBefore sequence (some previous) list)

/-- `__gebr_geoxml_sequence_move_down`. -/
def sequenceMoveDown (sequence : Element) (list : List Element) : Retv × List Element :=
  match nextSameElement sequence list with
  | none => (.invalidIndex, list)
  | some next => (.success, insertBefore sequence (nextElement next list) list)

inductive Op
  | moveBefore (sequence : Element) (position : Option Element)
  | moveAfter (sequence : Element) (position : Option Element)
  | moveUp (sequence : Element)
  | moveDown (sequence : Element)

/-- The element that is moved. -/
def Op.sequence : Op → Element
  | .moveBefore sequence _ => sequence
  | .moveAfter sequence _ => sequence
  | .moveUp sequence => sequence
  | .moveDown sequence => sequence

/-- The element next to which it is put, where one is given. -/
def Op.position : Op → Option Element
  | .moveBefore _ position => position
  | .moveAfter _ position => position
  | .moveUp _ => none
  | .moveDown _ => none

/-- What is done behind the checks. -/
def Op.act (list : List Element) : Op → Retv × List Element
  | .moveBefore sequence position => (.success, sequenceMoveBefore sequence position list)
  | .moveAfter sequence position => (.success, sequenceMoveAfter sequence position list)
  | .moveUp sequence => sequenceMoveUp sequence list
  | .moveDown sequence => sequenceMoveDown sequence list

/-- `gebr_geoxml_sequence_move_before`, `gebr_geoxml_sequence_move_after`,
`gebr_geoxml_sequence_move_up` and `gebr_geoxml_sequence_move_down`. -/
def apply (list : List Element) (op : Op) : Retv × List Element :=
  if !op.sequence.tag.isSequence then (.notASequence, list)
  else if op.position.any fun position => position.tag ≠ op.sequence.tag then
    (.differentSequences, list)
  else op.act list

/-- The elements that are given are among the siblings. -/
def Op.Among (op : Op) (list : List Element) : Prop :=
  op.sequence ∈ list ∧ ∀ position ∈ op.position, position ∈ list

instance (op : Op) (list : List Element) : Decidable (op.Among list) :=
  inferInstanceAs (Decidable (_ ∧ _))

end Model

section Statement

/-- When an operation succeeds. -/
def Allowed (list : List Element) (op : Op) : Prop :=
  op.sequence.tag.isSequence = true ∧
    match op with
    | .moveBefore x position => ∀ p ∈ position, p.tag = x.tag
    | .moveAfter x position => ∀ p ∈ position, p.tag = x.tag
    | .moveUp x => ∃ front y rest, list = front ++ y :: x :: rest ∧ y.tag = x.tag
    | .moveDown x => ∃ front y rest, list = front ++ x :: y :: rest ∧ y.tag = x.tag

/-- Where the element is then: directly next to the one that was given; behind or in front of the
run of siblings of its kind that it was in; at the place of its neighbour. -/
def Placed (before after : List Element) : Op → Prop
  | .moveBefore x (some p) => x = p ∨ [x, p] <:+: after
  | .moveAfter x (some p) => x = p ∨ [p, x] <:+: after
  | .moveBefore x none => ∃ front run rest,
      (∀ y ∈ run, y.tag = x.tag) ∧ (∀ y ∈ rest.head?, y.tag ≠ x.tag) ∧
        before = front ++ x :: (run ++ rest) ∧ after = front ++ (run ++ x :: rest)
  | .moveAfter x none => ∃ front run rest,
      (∀ y ∈ run, y.tag = x.tag) ∧ (∀ y ∈ front.getLast?, y.tag ≠ x.tag) ∧
        before = front ++ (run ++ x :: rest) ∧ after = front ++ x :: (run ++ rest)
  | .moveUp x => ∃ front y rest, before = front ++ y :: x :: rest ∧ after = front ++ x :: y :: rest
  | .moveDown x => ∃ front y rest, before = front ++ x :: y :: rest ∧ after = front ++ y :: x :: rest

/-- The operation that takes back a step up or down. -/
def Op.inverse : Op → Option Op
  | .moveUp x => some (.moveDown x)
  | .moveDown x => some (.moveUp x)
  | _ => none

/-- **What an operation does**: the same elements, the others in their order, and the element at its
place; if it fails it does nothing. -/
structure Lawful (before : List Element) (op : Op) : Prop where
  perm : (apply before op).2.Perm before
  others : (apply before op).2.erase op.sequence = before.erase op.sequence
  success : (apply before op).1 = .success ↔ Allowed before op
  failure : (apply before op).1 ≠ .success → (apply before op).2 = before
  placed : (apply before op).1 = .success → Placed before (apply before op).2 op
  back : (apply before op).1 = .success → ∀ inverse ∈ op.inverse,
    apply (apply before op).2 inverse = (.success, before)

end Statement

section Functions

variable {x p : Element} {list : List Element}

theorem moveBefore_position (nodup : list.Nodup) (there : p ∈ list) (apart : x ≠ p) :
    ∃ front rest, list.erase x = front ++ p :: rest ∧
      sequenceMoveBefore x (some p) list = front ++ x :: p :: rest := by
  obtain ⟨front, rest, others⟩ := List.append_of_mem ((List.mem_erase_of_ne apart.symm).2 there)
  refine ⟨front, rest, others, ?_⟩
  unfold sequenceMoveBefore
  dsimp only
  rw [if_pos apart]
  exact insertBefore_head nodup others

/-- The element that is directly in front of the moved one has it as the next one; then nothing
moves. -/
theorem moveAfter_position (nodup : list.Nodup) (member : x ∈ list) (there : p ∈ list)
    (apart : x ≠ p) : ∃ front rest, list.erase x = front ++ p :: rest ∧
      sequenceMoveAfter x (some p) list = front ++ p :: x :: rest := by
  unfold sequenceMoveAfter nextElement
  dsimp only
  rw [if_pos apart]
  obtain ⟨left, right, rfl, away, -⟩ := exists_split nodup there
  rw [following_split away]
  by_cases inLeft : x ∈ left
  · have others : (left ++ p :: right).erase x = (left.erase x ++ [p]) ++ right := by
      rw [List.erase_append_left _ inLeft, List.append_assoc]
      rfl
    exact ⟨left.erase x, right, others.trans (List.append_assoc _ _ _),
      (insertBefore_head nodup others).trans (List.append_assoc _ _ _)⟩
  · have inRight : x ∈ right :=
      (List.mem_cons.1 ((List.mem_append.1 member).resolve_left inLeft)).resolve_left apart
    have others : (left ++ p :: right).erase x = left ++ p :: right.erase x := by
      rw [List.erase_append_right _ inLeft, List.erase_cons_tail (by simpa using apart.symm)]
    cases right with
    | nil => cases inRight
    | cons r right =>
      by_cases next : r = x
      · subst next
        rw [List.erase_cons_head] at others
        exact ⟨left, right, others, insertBefore_self r _⟩
      · rw [List.erase_cons_tail (by simpa using next)] at others
        have behind : (left ++ p :: r :: right).erase x = (left ++ [p]) ++ r :: right.erase x := by
          rw [others, List.append_assoc]
          rfl
        refine ⟨left, r :: right.erase x, others, ?_⟩
        exact (insertBefore_head nodup behind).trans (List.append_assoc _ _ _)

/-- The siblings of a kind behind an element, up to one of another kind. -/
theorem exists_run (x : Element) (list : List Element) :
    ∃ run rest, list = run ++ rest ∧ (∀ y ∈ run, y.tag = x.tag) ∧ ∀ y ∈ rest.head?, y.tag ≠ x.tag := by
  refine ⟨list.takeWhile fun y => y.tag = x.tag, list.dropWhile fun y => y.tag = x.tag,
    List.takeWhile_append_dropWhile.symm, fun y member => ?_, fun y first => ?_⟩
  · simpa using List.mem_takeWhile_imp member
  · have stop := List.head?_dropWhile_not (fun y : Element => decide (y.tag = x.tag)) list
    rw [Option.mem_def.1 first] at stop
    simpa using stop

theorem lastWhile_sequence {run rest : List Element} (same : ∀ y ∈ run, y.tag = x.tag)
    (stop : ∀ y ∈ rest.head?, y.tag ≠ x.tag) :
    lastWhile (fun y => y.tag = x.tag) x (run ++ rest) = (x :: run).getLast (List.cons_ne_nil x run) :=
  lastWhile_run (fun y inside => decide_eq_true (same y inside)) fun y first =>
    decide_eq_false (stop y first)

/-- **To the end of the sequence.** -/
theorem moveBefore_null (nodup : list.Nodup) (member : x ∈ list) :
    ∃ front run rest, (∀ y ∈ run, y.tag = x.tag) ∧ (∀ y ∈ rest.head?, y.tag ≠ x.tag) ∧
      list = front ++ x :: (run ++ rest) ∧
      sequenceMoveBefore x none list = front ++ (run ++ x :: rest) := by
  obtain ⟨front, behind, rfl, away, apart⟩ := exists_split nodup member
  obtain ⟨run, rest, rfl, same, stop⟩ := exists_run x behind
  refine ⟨front, run, rest, same, stop, rfl, ?_⟩
  have last := lastWhile_sequence same stop
  unfold sequenceMoveBefore
  dsimp only
  rw [following_split away, last]
  rcases List.eq_nil_or_concat' run with rfl | ⟨init, l, rfl⟩
  · rw [if_neg (by simp)]
    rfl
  · have others : (front ++ x :: (init ++ [l] ++ rest)).erase x = (front ++ (init ++ [l])) ++
        rest := by
      rw [erase_split away, List.append_assoc front]
    have split : front ++ x :: (init ++ [l] ++ rest) = (front ++ x :: init) ++ l :: rest := by simp
    have other : l ≠ x := by
      rintro rfl
      exact apart (by simp)
    have unseen : l ∉ front ++ x :: init := by
      rw [split] at nodup
      exact fun here => List.disjoint_of_nodup_append nodup here List.mem_cons_self
    have end_of_run : (x :: (init ++ [l])).getLast (List.cons_ne_nil _ _) = l := by simp
    unfold nextElement
    rw [end_of_run, if_pos other, split, following_split unseen, ← split,
      insertBefore_head nodup others, List.append_assoc]

/-- **To its beginning.** -/
theorem moveAfter_null (nodup : list.Nodup) (member : x ∈ list) :
    ∃ front run rest, (∀ y ∈ run, y.tag = x.tag) ∧ (∀ y ∈ front.getLast?, y.tag ≠ x.tag) ∧
      list = front ++ (run ++ x :: rest) ∧
      sequenceMoveAfter x none list = front ++ x :: (run ++ rest) := by
  obtain ⟨ahead, rest, rfl, away, -⟩ := exists_split nodup member
  obtain ⟨back, far, reversed, same, stop⟩ := exists_run x ahead.reverse
  have order : ahead = far.reverse ++ back.reverse := by
    rw [← List.reverse_append, ← reversed, List.reverse_reverse]
  refine ⟨far.reverse, back.reverse, rest, fun y inside => same y (List.mem_reverse.1 inside), ?_,
    ?_, ?_⟩
  · rwa [List.getLast?_reverse]
  · rw [order, List.append_assoc]
  · have first := lastWhile_sequence same stop
    unfold sequenceMoveAfter
    dsimp only
    rw [preceding_split away, reversed, first]
    rcases List.eq_nil_or_concat' back with rfl | ⟨init, f, rfl⟩
    · rw [if_neg (by simp), order]
      simp
    · have others : (ahead ++ x :: rest).erase x = far.reverse ++ f :: (init.reverse ++ rest) := by
        rw [erase_split away, order]
        simp
      have other : f ≠ x := by
        rintro rfl
        exact away (by rw [order]; simp)
      have start_of_run : (x :: (init ++ [f])).getLast (List.cons_ne_nil _ _) = f := by simp
      rw [start_of_run, if_pos other]
      refine (insertBefore_head nodup others).trans ?_
      simp

/-- **One place up.** -/
theorem moveUp_split {front rest : List Element} {y : Element}
    (nodup : (front ++ y :: x :: rest).Nodup) (same : y.tag = x.tag) :
    sequenceMoveUp x (front ++ y :: x :: rest) = (.success, front ++ x :: y :: rest) := by
  have split : front ++ y :: x :: rest = (front ++ [y]) ++ x :: rest := by simp
  have away : x ∉ front ++ [y] := by
    rw [split] at nodup
    exact fun here => List.disjoint_of_nodup_append nodup here List.mem_cons_self
  have others : (front ++ y :: x :: rest).erase x = front ++ y :: rest := by
    rw [split, erase_split away, List.append_assoc]
    rfl
  have previous : previousSameElement x (front ++ y :: x :: rest) = some y := by
    unfold previousSameElement
    rw [split, preceding_split away, List.reverse_append]
    exact Option.filter_eq_some_iff.2 ⟨rfl, decide_eq_true same⟩
  unfold sequenceMoveUp
  rw [previous]
  exact congrArg (Prod.mk _) (insertBefore_head nodup others)

/-- **One place down.** -/
theorem moveDown_split {front rest : List Element} {y : Element}
    (nodup : (front ++ x :: y :: rest).Nodup) (same : y.tag = x.tag) :
    sequenceMoveDown x (front ++ x :: y :: rest) = (.success, front ++ y :: x :: rest) := by
  have split : front ++ x :: y :: rest = (front ++ [x]) ++ y :: rest := by simp
  have away : x ∉ front := fun here => List.disjoint_of_nodup_append nodup here List.mem_cons_self
  have unseen : y ∉ front ++ [x] := by
    rw [split] at nodup
    exact fun here => List.disjoint_of_nodup_append nodup here List.mem_cons_self
  have others : (front ++ x :: y :: rest).erase x = (front ++ [y]) ++ rest := by
    rw [erase_split away, List.append_assoc]
    rfl
  have next : nextSameElement x (front ++ x :: y :: rest) = some y := by
    unfold nextSameElement nextElement
    rw [following_split away]
    exact Option.filter_eq_some_iff.2 ⟨rfl, decide_eq_true same⟩
  have behind : nextElement y (front ++ x :: y :: rest) = rest.head? := by
    unfold nextElement
    rw [split, following_split unseen]
  unfold sequenceMoveDown
  rw [next]
  dsimp only
  rw [behind, insertBefore_head nodup others, List.append_assoc]
  rfl

theorem exists_previous {y : Element} (nodup : list.Nodup) (member : x ∈ list)
    (found : previousSameElement x list = some y) :
    ∃ front rest, list = front ++ y :: x :: rest ∧ y.tag = x.tag := by
  obtain ⟨ahead, rest, rfl, away, -⟩ := exists_split nodup member
  unfold previousSameElement at found
  rw [preceding_split away, List.head?_reverse, Option.filter_eq_some_iff] at found
  obtain ⟨last, same⟩ := found
  obtain ⟨front, rfl⟩ := List.getLast?_eq_some_iff.1 last
  exact ⟨front, rest, by simp, of_decide_eq_true same⟩

theorem exists_next {y : Element} (nodup : list.Nodup) (member : x ∈ list)
    (found : nextSameElement x list = some y) :
    ∃ front rest, list = front ++ x :: y :: rest ∧ y.tag = x.tag := by
  obtain ⟨front, behind, rfl, away, -⟩ := exists_split nodup member
  unfold nextSameElement nextElement at found
  rw [following_split away, Option.filter_eq_some_iff] at found
  obtain ⟨first, same⟩ := found
  obtain ⟨rest, rfl⟩ := List.head?_eq_some_iff.1 first
  exact ⟨front, rest, rfl, of_decide_eq_true same⟩

end Functions

section Apply

variable {x : Element} {list : List Element} {op : Op}

/-- The element is put somewhere else, next to such a sibling. -/
def PutBeside (x : Element) (near : Element → Prop) (before after : List Element) : Prop :=
  ∃ front rest y, before.erase x = front ++ rest ∧ after = front ++ x :: rest ∧ near y ∧
    (front.getLast? = some y ∨ rest.head? = some y)

theorem beside_moveBefore (nodup : list.Nodup) (member : x ∈ list) {position : Option Element}
    (there : ∀ p ∈ position, p ∈ list) : sequenceMoveBefore x position list = list ∨
      PutBeside x (fun y => y.tag = x.tag ∨ position = some y) list
      (sequenceMoveBefore x position list) := by
  cases position with
  | none =>
    obtain ⟨front, run, rest, same, -, rfl, result⟩ := moveBefore_null nodup member
    have away : x ∉ front := fun here => List.disjoint_of_nodup_append nodup here List.mem_cons_self
    rw [result]
    rcases List.eq_nil_or_concat' run with rfl | ⟨init, l, rfl⟩
    · exact .inl rfl
    · exact .inr ⟨front ++ (init ++ [l]), rest, l, by rw [erase_split away, List.append_assoc front],
        (List.append_assoc _ _ _).symm, .inl (same l (by simp)), .inl (by simp)⟩
  | some p =>
    by_cases itself : x = p
    · exact .inl (if_neg (not_not.2 itself))
    · obtain ⟨front, rest, others, result⟩ := moveBefore_position nodup (there p rfl) itself
      exact .inr ⟨front, p :: rest, p, others, result, .inr rfl, .inr rfl⟩

theorem beside_moveAfter (nodup : list.Nodup) (member : x ∈ list) {position : Option Element}
    (there : ∀ p ∈ position, p ∈ list) : sequenceMoveAfter x position list = list ∨
      PutBeside x (fun y => y.tag = x.tag ∨ position = some y) list
      (sequenceMoveAfter x position list) := by
  cases position with
  | none =>
    obtain ⟨front, run, rest, same, -, split, result⟩ := moveAfter_null nodup member
    have assoc : list = (front ++ run) ++ x :: rest := by rw [split, List.append_assoc]
    have away : x ∉ front ++ run := by
      rw [assoc] at nodup
      exact fun here => List.disjoint_of_nodup_append nodup here List.mem_cons_self
    rw [result]
    cases run with
    | nil => exact .inl split.symm
    | cons f run =>
      exact .inr ⟨front, f :: run ++ rest, f, by rw [assoc, erase_split away, List.append_assoc], rfl,
        .inl (same f List.mem_cons_self), .inr rfl⟩
  | some p =>
    by_cases itself : x = p
    · exact .inl (if_neg (not_not.2 itself))
    · obtain ⟨front, rest, others, result⟩ := moveAfter_position nodup member (there p rfl) itself
      exact .inr ⟨front ++ [p], rest, p, by rw [others, List.append_assoc]; rfl,
        by rw [result, List.append_assoc]; rfl, .inr rfl, .inl List.getLast?_concat⟩

/-- A step up is one place up, or there is no sibling of the kind in front. -/
theorem moveUp_cases (nodup : list.Nodup) (member : x ∈ list) :
    (∃ front y rest, list = front ++ y :: x :: rest ∧ y.tag = x.tag ∧
      sequenceMoveUp x list = (.success, front ++ x :: y :: rest)) ∨
    (previousSameElement x list = none ∧ sequenceMoveUp x list = (.invalidIndex, list)) := by
  cases found : previousSameElement x list with
  | none =>
    refine .inr ⟨rfl, ?_⟩
    unfold sequenceMoveUp
    rw [found]
  | some y =>
    obtain ⟨front, rest, rfl, same⟩ := exists_previous nodup member found
    exact .inl ⟨front, y, rest, rfl, same, moveUp_split nodup same⟩

theorem moveDown_cases (nodup : list.Nodup) (member : x ∈ list) :
    (∃ front y rest, list = front ++ x :: y :: rest ∧ y.tag = x.tag ∧
      sequenceMoveDown x list = (.success, front ++ y :: x :: rest)) ∨
    (nextSameElement x list = none ∧ sequenceMoveDown x list = (.invalidIndex, list)) := by
  cases found : nextSameElement x list with
  | none =>
    refine .inr ⟨rfl, ?_⟩
    unfold sequenceMoveDown
    rw [found]
  | some y =>
    obtain ⟨front, rest, rfl, same⟩ := exists_next nodup member found
    exact .inl ⟨front, y, rest, rfl, same, moveDown_split nodup same⟩

/-- **The element stays, or is put next to a sibling** of its kind or to the one that is given. -/
theorem beside_act (nodup : list.Nodup) (among : op.Among list) : (op.act list).2 = list ∨
    PutBeside op.sequence (fun y => y.tag = op.sequence.tag ∨ op.position = some y) list
    (op.act list).2 := by
  obtain ⟨member, there⟩ := among
  cases op with
  | moveBefore x position => exact beside_moveBefore nodup member there
  | moveAfter x position => exact beside_moveAfter nodup member there
  | moveUp x =>
    rcases moveUp_cases nodup (x := x) member with ⟨front, y, rest, rfl, same, result⟩ | ⟨-, result⟩
    · have split : front ++ y :: x :: rest = (front ++ [y]) ++ x :: rest := by simp
      have away : x ∉ front ++ [y] := by
        rw [split] at nodup
        exact fun here => List.disjoint_of_nodup_append nodup here List.mem_cons_self
      exact .inr ⟨front, y :: rest, y,
        by rw [split, Op.sequence, erase_split away, List.append_assoc]; rfl, congrArg Prod.snd result, .inl same, .inr rfl⟩
    · exact .inl (congrArg Prod.snd result)
  | moveDown x =>
    rcases moveDown_cases nodup (x := x) member with ⟨front, y, rest, rfl, same, result⟩ | ⟨-, result⟩
    · have away : x ∉ front := fun here => List.disjoint_of_nodup_append nodup here List.mem_cons_self
      exact .inr ⟨front ++ [y], rest, y, by rw [Op.sequence, erase_split away, List.append_assoc]; rfl,
        (congrArg Prod.snd result).trans (by simp [Op.sequence]), .inl same, .inl List.getLast?_concat⟩
    · exact .inl (congrArg Prod.snd result)

/-- **Nothing but the element is somewhere else.** -/
theorem inserted_act (nodup : list.Nodup) (among : op.Among list) :
    Inserted op.sequence list (op.act list).2 := by
  rcases beside_act nodup among with same | ⟨front, rest, -, others, result, -, -⟩
  · rw [same]
    exact Inserted.refl nodup among.1
  · exact ⟨front, rest, others, result⟩

/-- Whether the position is of the kind of the element. -/
def Op.SameKind (op : Op) : Prop := ∀ position ∈ op.position, position.tag = op.sequence.tag

theorem any_iff : (op.position.any fun position => position.tag ≠ op.sequence.tag) = true ↔
    ¬ op.SameKind := by
  unfold Op.SameKind
  cases op.position <;> simp

theorem apply_cases (list : List Element) (op : Op) :
    (op.sequence.tag.isSequence = true ∧ op.SameKind ∧ apply list op = op.act list) ∨
    ((op.sequence.tag.isSequence = false ∨ ¬ op.SameKind) ∧ (apply list op).1 ≠ .success ∧
      (apply list op).2 = list) := by
  unfold apply
  by_cases known : op.sequence.tag.isSequence = true
  · by_cases same : op.SameKind
    · refine .inl ⟨known, same, ?_⟩
      rw [if_neg (by simp [known]), if_neg fun differ => any_iff.1 differ same]
    · refine .inr ⟨.inr same, ?_⟩
      rw [if_neg (by simp [known]), if_pos (any_iff.2 same)]
      exact ⟨nofun, rfl⟩
  · rw [Bool.not_eq_true] at known
    refine .inr ⟨.inl known, ?_⟩
    rw [if_pos (by simp [known])]
    exact ⟨nofun, rfl⟩

/-- Behind the checks the two moves succeed, and a step does where there is a neighbour. -/
theorem act_success_iff (nodup : list.Nodup) (among : op.Among list)
    (known : op.sequence.tag.isSequence = true) (same : op.SameKind) :
    (op.act list).1 = .success ↔ Allowed list op := by
  obtain ⟨member, -⟩ := among
  cases op with
  | moveBefore x position => exact ⟨fun _ => ⟨known, same⟩, fun _ => rfl⟩
  | moveAfter x position => exact ⟨fun _ => ⟨known, same⟩, fun _ => rfl⟩
  | moveUp x =>
    show (sequenceMoveUp x list).1 = .success ↔ _
    constructor
    · intro success
      rcases moveUp_cases nodup (x := x) member with ⟨front, y, rest, split, kind, -⟩ | ⟨-, result⟩
      · exact ⟨known, front, y, rest, split, kind⟩
      · rw [result] at success
        cases success
    · rintro ⟨-, front, y, rest, rfl, kind⟩
      rw [moveUp_split nodup kind]
  | moveDown x =>
    show (sequenceMoveDown x list).1 = .success ↔ _
    constructor
    · intro success
      rcases moveDown_cases nodup (x := x) member with ⟨front, y, rest, split, kind, -⟩ | ⟨-, result⟩
      · exact ⟨known, front, y, rest, split, kind⟩
      · rw [result] at success
        cases success
    · rintro ⟨-, front, y, rest, rfl, kind⟩
      rw [moveDown_split nodup kind]

theorem sameKind_of_allowed (allowed : Allowed list op) : op.SameKind := by
  cases op with
  | moveBefore x position => exact allowed.2
  | moveAfter x position => exact allowed.2
  | moveUp x => exact nofun
  | moveDown x => exact nofun

theorem act_failure (nodup : list.Nodup) (among : op.Among list)
    (failed : (op.act list).1 ≠ .success) : (op.act list).2 = list := by
  obtain ⟨member, -⟩ := among
  cases op with
  | moveBefore x position => exact absurd rfl failed
  | moveAfter x position => exact absurd rfl failed
  | moveUp x =>
    rcases moveUp_cases nodup (x := x) member with ⟨front, y, rest, -, -, result⟩ | ⟨-, result⟩
    · exact absurd (congrArg Prod.fst result) failed
    · exact congrArg Prod.snd result
  | moveDown x =>
    rcases moveDown_cases nodup (x := x) member with ⟨front, y, rest, -, -, result⟩ | ⟨-, result⟩
    · exact absurd (congrArg Prod.fst result) failed
    · exact congrArg Prod.snd result

theorem infix_pair (front rest : List Element) (x y : Element) : [x, y] <:+: front ++ x :: y :: rest :=
  ⟨front, rest, by simp⟩

/-- **Where the element is then.** -/
theorem placed_act (nodup : list.Nodup) (among : op.Among list)
    (success : (op.act list).1 = .success) : Placed list (op.act list).2 op := by
  obtain ⟨member, there⟩ := among
  cases op with
  | moveBefore x position =>
    cases position with
    | none => exact moveBefore_null nodup member
    | some p =>
      refine or_iff_not_imp_left.2 fun apart => ?_
      obtain ⟨front, rest, -, result⟩ := moveBefore_position nodup (x := x) (there p rfl) apart
      show [x, p] <:+: sequenceMoveBefore x (some p) list
      rw [result]
      exact infix_pair front rest x p
  | moveAfter x position =>
    cases position with
    | none => exact moveAfter_null nodup member
    | some p =>
      refine or_iff_not_imp_left.2 fun apart => ?_
      obtain ⟨front, rest, -, result⟩ := moveAfter_position nodup (x := x) member (there p rfl) apart
      show [p, x] <:+: sequenceMoveAfter x (some p) list
      rw [result]
      exact infix_pair front rest p x
  | moveUp x =>
    rcases moveUp_cases nodup (x := x) member with ⟨front, y, rest, split, -, result⟩ | ⟨-, result⟩
    · exact ⟨front, y, rest, split, congrArg Prod.snd result⟩
    · cases (congrArg Prod.fst result).symm.trans success
  | moveDown x =>
    rcases moveDown_cases nodup (x := x) member with ⟨front, y, rest, split, -, result⟩ | ⟨-, result⟩
    · exact ⟨front, y, rest, split, congrArg Prod.snd result⟩
    · cases (congrArg Prod.fst result).symm.trans success

theorem apply_step {op : Op} (known : op.sequence.tag.isSequence = true) (alone : op.position = none) :
    apply list op = op.act list := by
  rcases apply_cases list op with ⟨-, -, result⟩ | ⟨refused | refused, -, -⟩
  · exact result
  · rw [known] at refused
    cases refused
  · exact absurd (fun p given => by rw [alone] at given; cases given) refused

/-- **A step is taken back.** -/
theorem back_act (nodup : list.Nodup) (among : op.Among list)
    (known : op.sequence.tag.isSequence = true) (success : (op.act list).1 = .success) :
    ∀ inverse ∈ op.inverse, apply (op.act list).2 inverse = (.success, list) := by
  have distinct := ((inserted_act nodup among).perm among.1).nodup_iff.2 nodup
  obtain ⟨member, -⟩ := among
  cases op with
  | moveBefore x position => exact fun inverse none => absurd none (Option.not_mem_none inverse)
  | moveAfter x position => exact fun inverse none => absurd none (Option.not_mem_none inverse)
  | moveUp x =>
    rintro inverse ⟨rfl⟩
    rw [show apply _ (.moveDown x) = _ from apply_step known rfl]
    rcases moveUp_cases nodup (x := x) member with ⟨front, y, rest, rfl, kind, result⟩ | ⟨-, result⟩
    · have after : (Op.moveUp x).act (front ++ y :: x :: rest) = _ := result
      rw [after] at distinct ⊢
      exact moveDown_split distinct kind
    · cases (congrArg Prod.fst result).symm.trans success
  | moveDown x =>
    rintro inverse ⟨rfl⟩
    rw [show apply _ (.moveUp x) = _ from apply_step known rfl]
    rcases moveDown_cases nodup (x := x) member with ⟨front, y, rest, rfl, kind, result⟩ | ⟨-, result⟩
    · have after : (Op.moveDown x).act (front ++ x :: y :: rest) = _ := result
      rw [after] at distinct ⊢
      exact moveUp_split distinct kind
    · cases (congrArg Prod.fst result).symm.trans success

/-- **One operation.** -/
theorem apply_lawful (nodup : list.Nodup) (among : op.Among list) : Lawful list op := by
  rcases apply_cases list op with ⟨known, same, result⟩ | ⟨refused, failed, unchanged⟩
  · have inserted := inserted_act nodup among
    rw [← result] at inserted
    refine ⟨inserted.perm among.1, inserted.erase nodup, ?_, ?_, ?_, ?_⟩
    all_goals rw [result]
    · exact act_success_iff nodup among known same
    · exact act_failure nodup among
    · exact placed_act nodup among
    · exact back_act nodup among known
  · refine ⟨by rw [unchanged], by rw [unchanged],
      ⟨fun success => absurd success failed, fun allowed => ?_⟩, fun _ => unchanged, fun success =>
        absurd success failed, fun success => absurd success failed⟩
    rcases refused with unknown | differ
    · exact absurd allowed.1 (by rw [unknown]; decide)
    · exact absurd (sameKind_of_allowed allowed) differ

end Apply

section Run

/-- One operation on the siblings. An element that is not among them is not there to be given. -/
def step (self : Siblings) (op : Op) : Siblings :=
  if among : op.Among self.list then
    { list := (apply self.list op).2
      nodup := ((apply_lawful self.nodup among).perm).nodup_iff.2 self.nodup }
  else self

/-- Operations, one after another. -/
def run (self : Siblings) (ops : List Op) : Siblings := ops.foldl step self

theorem step_perm (self : Siblings) (op : Op) : (step self op).list.Perm self.list := by
  unfold step
  split
  · rename_i among
    exact (apply_lawful self.nodup among).perm
  · exact List.Perm.refl _

theorem run_perm (self : Siblings) (ops : List Op) : (run self ops).list.Perm self.list := by
  induction ops generalizing self with
  | nil => exact List.Perm.refl _
  | cons op ops ih => exact (ih (step self op)).trans (step_perm self op)

/-- **Every operation in every run.** -/
theorem run_moves (self : Siblings) (ops : List Op) {op : Op} (among : op.Among (run self ops).list) :
    (run self ops).list.Perm self.list ∧ Lawful (run self ops).list op :=
  ⟨run_perm self ops, apply_lawful (run self ops).nodup among⟩

/-- Two programs in front of a revision. -/
def programs : Siblings where
  list := [⟨.program, 0⟩, ⟨.program, 1⟩, ⟨.revision, 2⟩]
  nodup := by decide

theorem run_moves_programs :
    (run programs [.moveUp ⟨.program, 1⟩]).list.Perm programs.list ∧
      Lawful (run programs [.moveUp ⟨.program, 1⟩]).list (.moveBefore ⟨.program, 1⟩ none) :=
  run_moves programs [.moveUp ⟨.program, 1⟩] (by decide)

/-- **The end of the sequence is in front of a sibling of another kind**: a program that is moved to
the end stays, and the last one of its kind is behind the revision. -/
theorem null_pivot :
    apply [⟨.program, 0⟩, ⟨.revision, 1⟩, ⟨.program, 2⟩] (.moveBefore ⟨.program, 0⟩ none) =
        (.success, [⟨.program, 0⟩, ⟨.revision, 1⟩, ⟨.program, 2⟩]) ∧
      ([⟨.program, 0⟩, ⟨.revision, 1⟩, ⟨.program, 2⟩].filter fun y : Element => y.tag =
        .program).getLast? ≠ some ⟨.program, 0⟩ := by decide

end Run

end Gebr.Geoxml.Moves
