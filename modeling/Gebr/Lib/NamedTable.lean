/-
**A list of named entries as a map.**

An entry is found by its name from the front; what is set is put in place of the entry, or at the
end.

* `get`, `put`: the two.
* `get_put` — **what is set is what is found**, and nothing else changes.
* `get_filter`, `get_append`: entries taken away and added.
* `put_of_notMem`: a new name is put at the end.
* `nodup_put`: distinct names stay distinct.
-/

import Mathlib.Logic.Function.Basic
import Mathlib.Data.List.Nodup

namespace Gebr.Lib.NamedTable

variable {κ ν : Type*} [DecidableEq κ]

/-- The first entry of a name. -/
def get (name : κ) : List (κ × ν) → Option ν
  | [] => none
  | entry :: entries => if entry.1 = name then some entry.2 else get name entries

/-- The first entry of a name set, or a new one at the end. -/
def put (name : κ) (value : ν) : List (κ × ν) → List (κ × ν)
  | [] => [(name, value)]
  | entry :: entries =>
    if entry.1 = name then (entry.1, value) :: entries else entry :: put name value entries

/-- The names. -/
def names (entries : List (κ × ν)) : List κ := entries.map Prod.fst

variable {name other : κ} {value : ν} {entries more : List (κ × ν)}

theorem get_cons (name : κ) (entry : κ × ν) (entries : List (κ × ν)) :
    get name (entry :: entries) = if entry.1 = name then some entry.2 else get name entries := rfl

/-- **What is set is what is found.** -/
theorem get_put (name : κ) (value : ν) (entries : List (κ × ν)) :
    (fun other => get other (put name value entries)) =
      Function.update (fun other => get other entries) name (some value) := by
  funext other
  induction entries with
  | nil =>
    by_cases same : name = other
    · subst same
      simp [get, put]
    · simp [get, put, same, Function.update_of_ne (Ne.symm same)]
  | cons entry entries ih =>
    unfold put
    by_cases here : entry.1 = name
    · rw [if_pos here]
      by_cases same : other = name
      · subst same
        simp [get, here]
      · have apart : entry.1 ≠ other := fun equal => same (equal.symm.trans here)
        simp [get, apart, Function.update_of_ne same]
    · rw [if_neg here]
      by_cases same : other = name
      · subst same
        simpa [get, here] using ih
      · rw [Function.update_of_ne same] at ih ⊢
        simp only [get, ih]

theorem get_filter (keep : κ → Bool) (name : κ) (entries : List (κ × ν)) :
    get name (entries.filter fun entry => keep entry.1) =
      if keep name = true then get name entries else none := by
  induction entries with
  | nil => simp [get]
  | cons entry entries ih =>
    by_cases kept : keep entry.1 = true
    · rw [List.filter_cons, if_pos kept, get_cons, get_cons]
      by_cases same : entry.1 = name
      · rw [if_pos same, if_pos same, ← same, if_pos kept]
      · rw [if_neg same, if_neg same, ih]
    · rw [List.filter_cons, if_neg kept, ih]
      by_cases same : entry.1 = name
      · rw [← same, if_neg kept, if_neg kept]
      · rw [get_cons, if_neg same]

/-- Entries behind others are found where those have none of the name. -/
theorem get_append (name : κ) (entries more : List (κ × ν)) :
    get name (entries ++ more) = (get name entries).or (get name more) := by
  induction entries with
  | nil => rfl
  | cons entry entries ih =>
    rw [List.cons_append, get_cons, get_cons]
    by_cases same : entry.1 = name
    · rw [if_pos same, if_pos same]
      rfl
    · rw [if_neg same, if_neg same, ih]

theorem mem_names_put : other ∈ names (put name value entries) ↔ other = name ∨
    other ∈ names entries := by
  induction entries with
  | nil => simp [names, put]
  | cons entry entries ih =>
    unfold put
    by_cases same : entry.1 = name
    · rw [if_pos same]
      simp only [names, List.map_cons, List.mem_cons, same]
      tauto
    · rw [if_neg same]
      simp only [names, List.map_cons, List.mem_cons] at ih ⊢
      rw [ih]
      tauto

theorem put_of_notMem (fresh : name ∉ names entries) :
    put name value entries = entries ++ [(name, value)] := by
  induction entries with
  | nil => rfl
  | cons entry entries ih =>
    obtain ⟨other, rest⟩ := not_or.1 fun inside => fresh (List.mem_cons.2 inside)
    rw [put, if_neg (Ne.symm other), ih rest, List.cons_append]

theorem mem_of_get (found : get name entries = some value) : (name, value) ∈ entries := by
  induction entries with
  | nil => exact absurd found nofun
  | cons entry entries ih =>
    rw [get_cons] at found
    split at found
    · rename_i here
      obtain rfl := Option.some.inj found
      rw [← here]
      exact List.mem_cons_self
    · exact List.mem_cons_of_mem entry (ih found)

/-- What holds of all values still does when one is set of which it holds. -/
theorem forall_put {p : ν → Prop} (all : ∀ entry ∈ entries, p entry.2) (here : p value) :
    ∀ entry ∈ put name value entries, p entry.2 := by
  induction entries with
  | nil => exact List.forall_mem_singleton.2 here
  | cons entry entries ih =>
    obtain ⟨first, rest⟩ := List.forall_mem_cons.1 all
    unfold put
    split
    · exact List.forall_mem_cons.2 ⟨here, rest⟩
    · exact List.forall_mem_cons.2 ⟨first, ih rest⟩

/-- **Distinct names stay distinct.** -/
theorem nodup_put (distinct : (names entries).Nodup) : (names (put name value entries)).Nodup := by
  induction entries with
  | nil => exact List.nodup_singleton name
  | cons entry entries ih =>
    obtain ⟨away, rest⟩ := List.nodup_cons.1 distinct
    unfold put
    by_cases same : entry.1 = name
    · rwa [if_pos same]
    · rw [if_neg same]
      refine List.nodup_cons.2 ⟨fun member => ?_, ih rest⟩
      exact (mem_names_put.1 member).elim same away

end Gebr.Lib.NamedTable
