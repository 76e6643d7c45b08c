/-
**Paths with aliases.**

A line has aliases for paths, and the target of an alias may begin with another alias. To resolve a
path, the alias in front is replaced by its target, again and again. To relativise a path, the front
that is the longest target is replaced by its alias, again and again.

* `resolveStep`, `gebrResolveRelativePath`: one replacement by a target, and all of them.
* `relativiseStep`, `gebrRelativisePathRecursive`, `gebrRelativisePath`: the same by an alias.
* `refers`: the alias that the target of an alias begins with.
* `picked`: the alias that is put in front of a path.
* `aliasOf_some`, `resolveStep_append`: the alias in front of a path, and what is behind it.
* `picked_some`, `relativiseStep_some`: the target in front of a path, and what is behind it.
-/

import Gebr.Geoxml.DictSplit
import Gebr.Lib.Components
import Gebr.Lib.PartialSteps

namespace Gebr.Geoxml.PathAliases

open Gebr.Lib.CString (ascii gStrsplit)
open Gebr.Lib.Components Gebr.Lib.PartialSteps

section Model

/-- An alias of a path. -/
structure Alias where
  target : Text
  name : Text
  deriving DecidableEq

/-- An alias as it stands in a path. -/
def Alias.tmp (a : Alias) : Text := ascii "<" ++ a.name ++ ascii ">"

/-- The first alias whose name is in front of a path. -/
def aliasOf (pvector : List Alias) (path : Text) : Option Alias :=
  pvector.find? fun a => (gStrsplit 47 0 path).head? = some a.tmp

/-- The path that `gebr_resolve_relative_path` calls itself with. -/
def resolveStep (pvector : List Alias) (path : Text) : Option Text :=
  (aliasOf pvector path).map fun a => a.target ++ path.drop a.tmp.length

/-- `gebr_resolve_relative_path`, with a bound on the calls. -/
def gebrResolveRelativePath (pvector : List Alias) (fuel : ℕ) (path : Text) : Option Text :=
  runFor (resolveStep pvector) fuel path

/-- How many first components are the same. -/
def commonLength : List Text → List Text → ℕ
  | dir :: dirspath, other :: dirtmp => if dir = other then commonLength dirspath dirtmp + 1 else 0
  | _, _ => 0

/-- `max_size`, and the alias at `max_index` where it is not zero, after one more alias. -/
def longer (dirspath : List Text) (best : ℕ × Option Alias) (a : Alias) : ℕ × Option Alias :=
  let dirtmp := gStrsplit 47 0 a.target
  let j := commonLength dirspath dirtmp
  if j = dirtmp.length ∧ best.1 < j then (j, some a) else best

/-- The longest target, and the first alias that has it. -/
def longest (dirspath : List Text) (pvector : List Alias) : ℕ × Option Alias :=
  pvector.foldl (longer dirspath) (0, none)

/-- The path that `gebr_relativise_path_recursive` calls itself with. -/
def relativiseStep (pvector : List Alias) (path : Text) : Option Text :=
  (longest (gStrsplit 47 0 path) pvector).2.map fun a =>
    a.tmp ++ path.drop (if [47] <:+ a.target then a.target.length - 1 else a.target.length)

/-- `gebr_relativise_path_recursive`, with a bound on the calls. -/
def gebrRelativisePathRecursive (pvector : List Alias) (fuel : ℕ) (path : Text) : Option Text :=
  runFor (relativiseStep pvector) fuel path

/-- `gebr_remove_path_prefix`. -/
def gebrRemovePathPrefix (mountPoint : Option Text) (path : Text) : Text :=
  match mountPoint with
  | none => path
  | some front => if front <+: path then path.drop front.length else path

/-- `gebr_relativise_path`. -/
def gebrRelativisePath (pvector : List Alias) (mountPoint : Option Text) (fuel : ℕ)
    (pathString : Text) : Option Text :=
  if pathString = [] then some []
  else (gebrResolveRelativePath pvector fuel pathString).bind fun path =>
    gebrRelativisePathRecursive pvector fuel (gebrRemovePathPrefix mountPoint path)

end Model

section Abstract

/-- The alias that the target of an alias begins with. -/
def refers (pvector : List Alias) (a : Alias) : Option Alias := aliasOf pvector a.target

/-- The alias that is put in front of a path. -/
def picked (pvector : List Alias) (path : Text) : Option Alias :=
  (longest (gStrsplit 47 0 path) pvector).2

end Abstract

section Fronts

variable {pvector : List Alias} {a : Alias} {path rest : Text}

theorem Alias.tmp_ne_nil (a : Alias) : a.tmp ≠ [] := List.cons_ne_nil _ _

theorem Alias.mem_tmp (a : Alias) : 47 ∈ a.tmp ↔ 47 ∈ a.name := by
  unfold Alias.tmp
  rw [List.mem_append, List.mem_append]
  have first : (47 : UInt8) ∉ ascii "<" := by decide
  have last : (47 : UInt8) ∉ ascii ">" := by decide
  tauto

theorem Alias.tmp_inj {b : Alias} : a.tmp = b.tmp ↔ a.name = b.name := by
  unfold Alias.tmp
  rw [List.append_left_inj, List.append_right_inj]

/-- **The alias that a path begins with.** -/
theorem aliasOf_some (found : aliasOf pvector path = some a) :
    a ∈ pvector ∧ 47 ∉ a.name ∧ ∃ rest, Behind 47 rest ∧ path = a.tmp ++ rest := by
  have first := List.find?_some found
  rw [decide_eq_true_iff, head?_gStrsplit_iff a.tmp_ne_nil, a.mem_tmp] at first
  exact ⟨List.mem_of_find?_eq_some found, first⟩

theorem aliasOf_append (pvector : List Alias) (path : Text) (behind : Behind 47 rest) :
    aliasOf pvector (path ++ rest) = aliasOf pvector path := by
  unfold aliasOf
  congr 1
  funext a
  exact decide_eq_decide.2 (head?_gStrsplit_append behind a.tmp_ne_nil path)

/-- **One step of resolving keeps what is behind the path.** -/
theorem resolveStep_append (pvector : List Alias) (path : Text) (behind : Behind 47 rest) :
    resolveStep pvector (path ++ rest) = (resolveStep pvector path).map (· ++ rest) := by
  unfold resolveStep
  rw [aliasOf_append pvector path behind, Option.map_map]
  cases found : aliasOf pvector path with
  | none => rfl
  | some a =>
    obtain ⟨-, -, more, -, rfl⟩ := aliasOf_some found
    rw [Option.map_some, Option.map_some, Function.comp_apply, List.append_assoc, List.drop_left,
      List.drop_left, List.append_assoc]

theorem returns_append {resolved : Text} (behind : Behind 47 rest)
    (returns : Returns (resolveStep pvector) path resolved) :
    Returns (resolveStep pvector) (path ++ rest) (resolved ++ rest) :=
  returns.map fun path => resolveStep_append pvector path behind

theorem resolveStep_tmp (found : aliasOf pvector a.tmp = some a) (behind : Behind 47 rest) :
    resolveStep pvector (a.tmp ++ rest) = some (a.target ++ rest) := by
  rw [resolveStep_append pvector a.tmp behind]
  unfold resolveStep
  rw [found, Option.map_some, Option.map_some, List.drop_length, List.append_nil]

end Fronts

section Picks

variable {pvector : List Alias} {a : Alias} {path next : Text}

theorem commonLength_eq_iff {dirspath dirtmp : List Text} :
    commonLength dirspath dirtmp = dirtmp.length ↔ dirtmp <+: dirspath := by
  induction dirspath generalizing dirtmp with
  | nil =>
    cases dirtmp with
    | nil => exact iff_of_true rfl List.prefix_rfl
    | cons other dirtmp =>
      exact iff_of_false nofun fun begins => absurd (List.prefix_nil.1 begins) nofun
  | cons dir dirspath ih =>
    cases dirtmp with
    | nil => exact iff_of_true rfl List.nil_prefix
    | cons other dirtmp =>
      unfold commonLength
      rw [List.cons_prefix_cons, ← ih, List.length_cons, eq_comm (a := other)]
      split
      · rename_i same
        rw [Nat.add_right_cancel_iff]
        exact ⟨fun rest => ⟨same, rest⟩, And.right⟩
      · rename_i differ
        exact iff_of_false nofun fun both => differ both.1

/-- What is behind as many components does not count. -/
theorem commonLength_append {dirspath dirtmp : List Text} (short : dirtmp.length ≤ dirspath.length)
    (rest : List Text) : commonLength (dirspath ++ rest) dirtmp = commonLength dirspath dirtmp := by
  induction dirspath generalizing dirtmp with
  | nil =>
    rw [List.length_nil, Nat.le_zero, List.length_eq_zero_iff] at short
    rw [short]
    cases rest with
    | nil => rfl
    | cons dir rest => rfl
  | cons dir dirspath ih =>
    cases dirtmp with
    | nil => rfl
    | cons other dirtmp =>
      rw [List.cons_append]
      unfold commonLength
      rw [ih (Nat.le_of_succ_le_succ short)]

/-- The alias of the longest target is one of the aliases, and its target begins the path. -/
theorem longest_some {dirspath : List Text} (found : (longest dirspath pvector).2 = some a) :
    a ∈ pvector ∧ gStrsplit 47 0 a.target <+: dirspath ∧ gStrsplit 47 0 a.target ≠ [] := by
  unfold longest at found
  induction pvector using List.reverseRecOn with
  | nil => exact absurd found nofun
  | append_singleton aliases last ih =>
    rw [List.foldl_append, List.foldl_cons, List.foldl_nil, longer] at found
    split at found
    · rename_i better
      obtain rfl := Option.some.inj found
      refine ⟨List.mem_append_right aliases List.mem_cons_self, commonLength_eq_iff.1 better.1,
        fun none => ?_⟩
      have length := better.2
      rw [better.1, none] at length
      exact absurd length (Nat.not_lt_zero _)
    · exact (ih found).imp_left (List.mem_append_left [last])

/-- **The alias that is put in front of a path has a target with which the path begins.** -/
theorem picked_some (found : picked pvector path = some a) :
    a ∈ pvector ∧ a.target ≠ [] ∧ ∃ rest, Behind 47 rest ∧ path = a.target ++ rest := by
  obtain ⟨member, begins, some_dir⟩ := longest_some found
  have target : a.target ≠ [] := fun none => some_dir (by rw [none]; rfl)
  have some_byte : path ≠ [] := by
    rintro rfl
    exact some_dir (List.prefix_nil.1 begins)
  rw [gStrsplit_of_ne_nil target, gStrsplit_of_ne_nil some_byte] at begins
  exact ⟨member, target, splitOn_prefix_iff.1 begins⟩

/-- What is taken off a path: the target without a separator at its end. -/
def Alias.base (a : Alias) : Text := if [47] <:+ a.target then a.target.dropLast else a.target

theorem Alias.length_base (a : Alias) :
    a.base.length = if [47] <:+ a.target then a.target.length - 1 else a.target.length := by
  unfold Alias.base
  split
  · exact List.length_dropLast
  · rfl

/-- **One step of relativising**: the base of a target is replaced by the alias. -/
theorem relativiseStep_some (taken : relativiseStep pvector path = some next) :
    ∃ a rest, picked pvector path = some a ∧ Behind 47 rest ∧ path = a.base ++ rest ∧ next =
    a.tmp ++ rest := by
  obtain ⟨a, found, rfl⟩ := Option.map_eq_some_iff.1 taken
  obtain ⟨-, -, rest, behind, rfl⟩ := picked_some found
  rw [← a.length_base]
  by_cases slash : [47] <:+ a.target
  · obtain ⟨base, target⟩ := slash
    have base_eq : a.base = base := by
      unfold Alias.base
      rw [if_pos ⟨base, target⟩, ← target, List.dropLast_concat]
    refine ⟨a, 47 :: rest, found, .inr ⟨rest, rfl⟩, ?_, ?_⟩
    · rw [base_eq, ← target, List.append_assoc, List.singleton_append]
    · rw [base_eq, ← target, List.append_assoc, List.drop_left, List.singleton_append]
  · have base_eq : a.base = a.target := if_neg slash
    exact ⟨a, rest, found, behind, by rw [base_eq], by rw [base_eq, List.drop_left]⟩

end Picks

end Gebr.Geoxml.PathAliases
