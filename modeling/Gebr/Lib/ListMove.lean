/-
**Elements that move within a list.**

* `insertAt`: an element at a place, or at the end of a list that is too short.
* `moveBefore`, `moveAfter`: the element at one place next to the element at another one, as a
  document moves a node: it is taken out first.
* `map_insertAt`, `map_moveBefore`, `map_moveAfter` — **the same move of the images**: what is kept
  in step with a list by a function stays in step with it.
* `getElem?_moveBefore`, `getElem?_moveAfter`: the moves that leave the other element in its place.
* `exists_split`: a list around one of its places.
* `eraseIdx_insertAt_front`, `eraseIdx_insertAt_behind`: an element put in, and another one taken
  out.
-/

import Mathlib.Algebra.Order.Group.Nat
import Mathlib.Data.List.Basic
import Mathlib.Data.List.Nodup
import Mathlib.Data.List.InsertIdx

namespace Gebr.Lib.ListMove

variable {α β : Type*}

section Insert

/-- The element at a place of the list; a place past the end is the end. -/
def insertAt (place : ℕ) (a : α) (list : List α) : List α := list.take place ++ a :: list.drop place

@[simp] theorem map_insertAt (f : α → β) (place : ℕ) (a : α) (list : List α) :
    (insertAt place a list).map f = insertAt place (f a) (list.map f) := by
  rw [insertAt, insertAt, List.map_append, List.map_cons, List.map_take, List.map_drop]

theorem insertAt_perm (place : ℕ) (a : α) (list : List α) :
    (insertAt place a list).Perm (a :: list) := by
  have whole : list.take place ++ list.drop place = list := List.take_append_drop place list
  exact List.perm_middle.trans (by rw [whole])

theorem insertAt_end (a : α) (list : List α) : insertAt list.length a list = list ++ [a] := by
  rw [insertAt, List.take_length, List.drop_length]

theorem insertAt_past {place : ℕ} {list : List α} (a : α) (past : list.length ≤ place) :
    insertAt place a list = list ++ [a] := by
  rw [insertAt, List.take_of_length_le past, List.drop_of_length_le past]

theorem insertAt_append_left {place : ℕ} {front : List α} (a : α) (rest : List α)
    (inside : place ≤ front.length) : insertAt place a (front ++ rest) = insertAt place a front ++
    rest := by
  rw [insertAt, insertAt, List.take_append_of_le_length inside, List.drop_append_of_le_length inside,
    List.append_assoc, List.cons_append]

theorem insertAt_append_right {place : ℕ} {front : List α} (a : α) (rest : List α)
    (past : front.length ≤ place) :
    insertAt place a (front ++ rest) = front ++ insertAt (place - front.length) a rest := by
  obtain ⟨more, rfl⟩ := Nat.exists_eq_add_of_le past
  rw [insertAt, insertAt, Nat.add_sub_cancel_left, List.take_length_add_append,
    List.drop_length_add_append, List.append_assoc]

theorem mem_insertAt {place : ℕ} {a b : α} {list : List α} :
    b ∈ insertAt place a list ↔ b = a ∨ b ∈ list := by
  rw [(insertAt_perm place a list).mem_iff, List.mem_cons]

theorem nodup_insertAt {place : ℕ} {a : α} {list : List α} (fresh : a ∉ list) (nodup : list.Nodup) :
    (insertAt place a list).Nodup :=
  (insertAt_perm place a list).nodup_iff.2 (List.nodup_cons.2 ⟨fresh, nodup⟩)

theorem getElem?_insertAt {place : ℕ} {list : List α} (inside : place ≤ list.length) (a : α) :
    (insertAt place a list)[place]? = some a := by
  rw [insertAt, List.getElem?_append_right (List.length_take_le place list), List.length_take,
    min_eq_left inside, Nat.sub_self]
  rfl

theorem getElem?_insertAt_front {place index : ℕ} {list : List α} (a : α)
    (inside : place ≤ list.length) (front : index < place) :
    (insertAt place a list)[index]? = list[index]? := by
  rw [insertAt, List.getElem?_append_left (by rw [List.length_take, min_eq_left inside]; exact front),
    List.getElem?_take_of_lt front]

theorem getElem?_insertAt_behind {place index : ℕ} {list : List α} (a : α)
    (inside : place ≤ list.length) (behind : place ≤ index) :
    (insertAt place a list)[index + 1]? = list[index]? := by
  have front : (list.take place).length = place := by rw [List.length_take, min_eq_left inside]
  rw [insertAt, List.getElem?_append_right (by omega), front, Nat.sub_add_comm behind,
    List.getElem?_cons_succ, List.getElem?_drop, Nat.add_sub_cancel' behind]

/-- **A list around one of its places**: what is in front of it, the element there and what is
behind it. -/
theorem exists_split {list : List α} {place : ℕ} {a : α} (here : list[place]? = some a) :
    ∃ front rest, list = front ++ a :: rest ∧ front.length = place := by
  obtain ⟨inside, same⟩ := List.getElem?_eq_some_iff.1 here
  refine ⟨list.take place, list.drop (place + 1), ?_, List.length_take_of_le inside.le⟩
  rw [← same, List.getElem_cons_drop inside, List.take_append_drop]

theorem eraseIdx_split (front : List α) (a : α) (rest : List α) :
    (front ++ a :: rest).eraseIdx front.length = front ++ rest := by
  rw [List.eraseIdx_append_of_length_le le_rfl, Nat.sub_self, List.eraseIdx_cons_zero]

theorem modify_split (front : List α) (a : α) (rest : List α) (f : α → α) :
    (front ++ a :: rest).modify front.length f = front ++ f a :: rest := by
  induction front with
  | nil => rfl
  | cons b front ih => exact congrArg (b :: ·) ih

/-- An element put in, and one behind it taken out. -/
theorem eraseIdx_insertAt_front {place other : ℕ} (a : α) {list : List α} (order : place ≤ other)
    (inside : other < list.length) :
    (insertAt place a list).eraseIdx (other + 1) = insertAt place a (list.eraseIdx other) := by
  obtain ⟨front, rest, whole, rfl⟩ := exists_split (List.getElem?_eq_getElem inside)
  have longer : (insertAt place a front).length = front.length + 1 :=
    (insertAt_perm place a front).length_eq
  rw [whole, insertAt_append_left a _ order, ← longer, eraseIdx_split, eraseIdx_split,
    insertAt_append_left a _ order]

/-- An element put in, and one in front of it taken out. -/
theorem eraseIdx_insertAt_behind {place other : ℕ} (a : α) {list : List α} (order : other < place)
    (inside : place ≤ list.length) :
    (insertAt place a list).eraseIdx other = insertAt (place - 1) a (list.eraseIdx other) := by
  obtain ⟨b, here⟩ : ∃ b, list[other]? = some b :=
    ⟨_, List.getElem?_eq_getElem (order.trans_le inside)⟩
  obtain ⟨front, rest, rfl, rfl⟩ := exists_split here
  obtain ⟨more, rfl⟩ := Nat.exists_eq_add_of_lt order
  have behind : insertAt (front.length + more + 1) a (front ++ b :: rest) = front ++
      b :: insertAt more a rest := by
    have place : front.length + more + 1 - front.length = more + 1 := by omega
    rw [insertAt_append_right a _ (by omega), place]
    rfl
  have less : front.length + more - front.length = more := by omega
  rw [behind, eraseIdx_split, eraseIdx_split, Nat.add_sub_cancel,
    insertAt_append_right a _ (by omega), less]

end Insert

section Places

variable [DecidableEq α]

theorem idxOf_eq {list : List α} {a : α} {place : ℕ} (nodup : list.Nodup)
    (here : list[place]? = some a) : list.idxOf a = place := by
  obtain ⟨inside, same⟩ := List.getElem?_eq_some_iff.1 here
  rw [← same]
  exact nodup.idxOf_getElem place inside

theorem getElem?_idxOf {list : List α} {a : α} (member : a ∈ list) :
    list[list.idxOf a]? = some a := by
  have inside := List.idxOf_lt_length_of_mem member
  rw [List.getElem?_eq_getElem inside, List.getElem_idxOf]

theorem idxOf_insertAt {list : List α} {a : α} {place : ℕ} (fresh : a ∉ list)
    (nodup : list.Nodup) (inside : place ≤ list.length) :
    (insertAt place a list).idxOf a = place :=
  idxOf_eq (nodup_insertAt fresh nodup) (getElem?_insertAt inside a)

end Places

section Move

/-- The element at `source` moves to right before the one at `place`. -/
def moveBefore (source place : ℕ) (list : List α) : List α :=
  match list[source]? with
  | none => list
  | some a =>
    if source = place then list
    else insertAt (if source < place then place - 1 else place) a (list.eraseIdx source)

/-- The element at `source` moves to right after the one at `place`. -/
def moveAfter (source place : ℕ) (list : List α) : List α :=
  match list[source]? with
  | none => list
  | some a =>
    if source = place then list
    else insertAt (if source < place then place else place + 1) a (list.eraseIdx source)

/-- The element at `source` is taken out and put back at `target`, but for a move next to itself. -/
def moved (source place target : ℕ) (list : List α) : List α :=
  match list[source]? with
  | none => list
  | some a => if source = place then list else insertAt target a (list.eraseIdx source)

theorem moveBefore_eq (source place : ℕ) (list : List α) : moveBefore source place list =
    moved source place (if source < place then place - 1 else place) list := rfl

theorem moveAfter_eq (source place : ℕ) (list : List α) : moveAfter source place list =
    moved source place (if source < place then place else place + 1) list := rfl

theorem map_moved (f : α → β) (source place target : ℕ) (list : List α) :
    (moved source place target list).map f = moved source place target (list.map f) := by
  unfold moved
  rw [List.getElem?_map]
  cases list[source]? with
  | none => rfl
  | some a =>
    rw [Option.map_some]
    by_cases same : source = place
    · simp only [if_pos same]
    · simp only [if_neg same, map_insertAt, List.eraseIdx_map]

/-- **The same move of the images.** -/
theorem map_moveBefore (f : α → β) (source place : ℕ) (list : List α) :
    (moveBefore source place list).map f = moveBefore source place (list.map f) := by
  rw [moveBefore_eq, moveBefore_eq, map_moved]

theorem map_moveAfter (f : α → β) (source place : ℕ) (list : List α) :
    (moveAfter source place list).map f = moveAfter source place (list.map f) := by
  rw [moveAfter_eq, moveAfter_eq, map_moved]

/-- An element that was taken out can be put back anywhere. -/
theorem cons_eraseIdx_perm {list : List α} {source : ℕ} {a : α} (here : list[source]? = some a) :
    (a :: list.eraseIdx source).Perm list := by
  obtain ⟨inside, same⟩ := List.getElem?_eq_some_iff.1 here
  rw [List.eraseIdx_eq_take_drop_succ]
  refine List.perm_middle.symm.trans ?_
  rw [← same, List.getElem_cons_drop inside, List.take_append_drop]

theorem moved_perm (source place target : ℕ) (list : List α) :
    (moved source place target list).Perm list := by
  unfold moved
  cases here : list[source]? with
  | none => exact List.Perm.refl list
  | some a =>
    by_cases same : source = place
    · simp only [if_pos same]
      exact List.Perm.refl list
    · simp only [if_neg same]
      exact (insertAt_perm target a _).trans (cons_eraseIdx_perm here)

theorem moveBefore_perm (source place : ℕ) (list : List α) :
    (moveBefore source place list).Perm list := by
  rw [moveBefore_eq]
  exact moved_perm source place _ list

theorem moveAfter_perm (source place : ℕ) (list : List α) :
    (moveAfter source place list).Perm list := by
  rw [moveAfter_eq]
  exact moved_perm source place _ list

/-- An element that moves towards the end leaves the one that it moves before where it is. -/
theorem getElem?_moveBefore {list : List α} {source place : ℕ} (order : source ≤ place)
    (inside : place < list.length) : (moveBefore source place list)[place]? = list[place]? := by
  unfold moveBefore
  rw [List.getElem?_eq_getElem (lt_of_le_of_lt order inside)]
  rcases eq_or_lt_of_le order with same | ahead
  · simp only [if_pos same]
  · simp only [if_neg ahead.ne, if_pos ahead]
    have shorter : (list.eraseIdx source).length = list.length - 1 :=
      List.length_eraseIdx_of_lt (lt_trans ahead inside)
    obtain ⟨before, rfl⟩ : ∃ before, place = before + 1 := ⟨place - 1, by omega⟩
    rw [Nat.add_sub_cancel, getElem?_insertAt_behind _ (by omega) le_rfl,
      List.getElem?_eraseIdx_of_ge (Nat.le_of_lt_succ ahead)]

/-- An element that moves towards the front leaves the one that it moves after where it is. -/
theorem getElem?_moveAfter {list : List α} {source place : ℕ} (order : place ≤ source)
    (inside : source < list.length) : (moveAfter source place list)[place]? = list[place]? := by
  unfold moveAfter
  rw [List.getElem?_eq_getElem inside]
  rcases eq_or_lt_of_le order with same | behind
  · simp only [if_pos same.symm]
  · simp only [if_neg behind.ne', if_neg behind.not_gt]
    have shorter : (list.eraseIdx source).length = list.length - 1 :=
      List.length_eraseIdx_of_lt inside
    rw [getElem?_insertAt_front _ (by omega) (Nat.lt_succ_self place),
      List.getElem?_eraseIdx_of_lt behind]

end Move

end Gebr.Lib.ListMove
