/-
**Key files.**

A key file has groups of keys. A string that is set for a key is the one that is found; a group
whose name cannot stand in brackets is not made.

* `GKeyFile`: the groups, all with names that can stand in brackets.
* `getString`, `setString`, `hasGroup`: a string found and set, and whether there is a group.
* `value_setString` — **what is set is what is found**, and nothing else changes.
-/

import Gebr.Lib.NamedTable
import Gebr.Lib.Utf8

namespace Gebr.Lib.KeyFile

open Gebr.Lib.NamedTable Gebr.Lib.Utf8

section Definitions

/-- What is behind the equals sign: the string, and whether every escape in it is a known one. -/
structure Value where
  string : List UInt8
  known : Bool
  deriving DecidableEq

/-- `g_key_file_is_group_name`. -/
def isGroupName (name : List UInt8) : Bool :=
  name ≠ [] && name.all fun b => b ≠ 91 ∧ b ≠ 93 ∧ 32 ≤ b ∧ b ≠ 127

/-- The groups in the order of the file. -/
structure GKeyFile where
  groups : List (List UInt8 × List (List UInt8 × Value))
  named : ∀ name ∈ names groups, isGroupName name
  deriving DecidableEq

/-- A key file without groups. -/
def empty : GKeyFile := ⟨[], nofun⟩

/-- The value of a key. -/
def value (file : GKeyFile) (group key : List UInt8) : Option Value :=
  (get group file.groups).bind (get key)

/-- `g_key_file_has_group`. -/
def hasGroup (file : GKeyFile) (group : List UInt8) : Bool := (get group file.groups).isSome

/-- `g_key_file_get_string`: the string, and whether an error is set. -/
def getString (file : GKeyFile) (group key : List UInt8) : Option (List UInt8) × Bool :=
  match value file group key with
  | none => (none, true)
  | some found => if validate found.string then (some found.string, !found.known) else (none, true)

/-- A key set in a group. -/
def setValue (groups : List (List UInt8 × List (List UInt8 × Value))) (group key string : List UInt8) :
    List (List UInt8 × List (List UInt8 × Value)) :=
  put group (put key ⟨string, true⟩ ((get group groups).getD [])) groups

theorem named_setValue {file : GKeyFile} {group : List UInt8} (good : isGroupName group)
    (key string : List UInt8) : ∀ name ∈ names (setValue file.groups group key string),
    isGroupName name := by
  intro name member
  rcases mem_names_put.1 member with rfl | member
  · exact good
  · exact file.named name member

/-- `g_key_file_set_string`. -/
def setString (file : GKeyFile) (group key string : List UInt8) : GKeyFile :=
  if good : isGroupName group then
    ⟨setValue file.groups group key string, named_setValue good key string⟩ else file

end Definitions

section Strings

variable {file : GKeyFile} {group key string other : List UInt8}

theorem mem_names_of_hasGroup (found : hasGroup file group) : group ∈ names file.groups := by
  unfold hasGroup at found
  generalize file.groups = groups at found
  induction groups with
  | nil => exact absurd found nofun
  | cons entry groups ih =>
    rw [get_cons] at found
    split at found
    · rename_i here
      exact List.mem_map.2 ⟨entry, List.mem_cons_self, here⟩
    · exact List.mem_cons_of_mem _ (ih found)

/-- A group that there is can stand in brackets. -/
theorem isGroupName_of_hasGroup (found : hasGroup file group) : isGroupName group :=
  file.named group (mem_names_of_hasGroup found)

theorem hasGroup_of_value {found : Value} (here : value file group key = some found) :
    hasGroup file group := by
  obtain ⟨keys, there, -⟩ := Option.bind_eq_some_iff.1 here
  unfold hasGroup
  rw [there]
  rfl

/-- **What is set is what is found**, and nothing else changes. -/
theorem value_setString (good : isGroupName group) (file : GKeyFile)
    (key string other otherKey : List UInt8) : value (setString file group key string) other otherKey =
      if other = group ∧ otherKey = key then some ⟨string, true⟩ else value file other otherKey := by
  have groups := congrFun
    (get_put group (put key ⟨string, true⟩ ((get group file.groups).getD [])) file.groups) other
  have keys := congrFun (get_put key ⟨string, true⟩ ((get group file.groups).getD [])) otherKey
  unfold value setString
  rw [dif_pos good]
  dsimp only [setValue] at groups keys ⊢
  rw [groups]
  by_cases sameGroup : other = group
  · rw [sameGroup, Function.update_self, Option.bind_some, keys]
    by_cases sameKey : otherKey = key
    · rw [sameKey, Function.update_self, if_pos ⟨rfl, rfl⟩]
    · rw [Function.update_of_ne sameKey, if_neg fun both => sameKey both.2]
      cases get group file.groups <;> rfl
  · rw [Function.update_of_ne sameGroup, if_neg fun both => sameGroup both.1]

theorem hasGroup_setString (good : isGroupName group) (file : GKeyFile)
    (key string other : List UInt8) : hasGroup (setString file group key string) other =
    (decide (other = group) || hasGroup file other) := by
  have groups := congrFun
    (get_put group (put key ⟨string, true⟩ ((get group file.groups).getD [])) file.groups) other
  unfold hasGroup setString
  rw [dif_pos good]
  dsimp only [setValue] at groups ⊢
  rw [groups]
  by_cases sameGroup : other = group
  · rw [sameGroup, Function.update_self, decide_eq_true rfl]
    rfl
  · rw [Function.update_of_ne sameGroup, decide_eq_false sameGroup, Bool.false_or]

theorem setString_of_not_name (bad : ¬ isGroupName group) (file : GKeyFile) (key string : List UInt8) :
    setString file group key string = file := dif_neg bad

theorem getString_of_value {found : Value} (here : value file group key = some found)
    (valid : validate found.string) :
    getString file group key = (some found.string, !found.known) := by
  unfold getString
  rw [here]
  exact if_pos valid

theorem getString_congr {other : GKeyFile} (same : value other group key = value file group key) :
    getString other group key = getString file group key := by
  unfold getString
  rw [same]

/-- **A valid string that is set is read**, without an error. -/
theorem getString_setString (good : isGroupName group) (valid : validate string) (file : GKeyFile)
    (key : List UInt8) : getString (setString file group key string) group key =
    (some string, false) :=
  getString_of_value ((value_setString good file key string group key).trans (if_pos ⟨rfl, rfl⟩)) valid

theorem value_of_getString (read : (getString file group key).1 = some string) :
    ∃ found, value file group key = some found ∧ found.string = string ∧ validate string := by
  unfold getString at read
  cases here : value file group key with
  | none =>
    rw [here] at read
    exact absurd read nofun
  | some found =>
    rw [here] at read
    dsimp only at read
    split at read
    · rename_i valid
      obtain rfl := Option.some.inj read
      exact ⟨found, rfl, rfl, valid⟩
    · exact absurd read nofun

end Strings

end Gebr.Lib.KeyFile
