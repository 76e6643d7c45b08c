/-
**When paths with aliases come to an end.**

Nothing bounds the replacements. An alias that refers to itself is replaced by its target for ever;
and a path can come back to a front that it had, or grow for ever.

* `ends_resolve_iff`: to resolve a path ends iff the aliases that it refers to do not refer back.
* `ComesBack`: a path comes back to first components that it had, and was not shorter in between.
* `ends_relativise_iff`: to relativise a path ends iff it does not come back.
* `ends_of_acyclic`: where no alias refers back to itself, to relativise ends too.
* `alias_ends_iff` — **when the two functions return**, for a path and for all paths.
* `self_reference`: an alias that refers to itself.
-/

import Gebr.Geoxml.PathAliases
import Gebr.Lib.PrefixRewriting

namespace Gebr.Geoxml.PathAliases

open Gebr.Lib.CString (ascii gStrsplit)
open Gebr.Lib Gebr.Lib.Components Gebr.Lib.PartialSteps
open StateTransition (Reaches Reaches₁)

variable {pvector : List Alias} {a b : Alias} {path next rest : Text}

section Resolve

/-- Resolving goes from alias to alias. -/
theorem aliasOf_resolveStep (found : aliasOf pvector path = some a) :
    ∃ next, resolveStep pvector path = some next ∧ aliasOf pvector next = refers pvector a := by
  obtain ⟨-, -, rest, behind, rfl⟩ := aliasOf_some found
  refine ⟨a.target ++ rest, ?_, aliasOf_append pvector a.target behind⟩
  unfold resolveStep
  rw [found, Option.map_some, List.drop_left]

theorem steps_resolve_iff (n : ℕ) (found : aliasOf pvector path = some a) :
    steps (resolveStep pvector) (n + 1) path = none ↔ steps (refers pvector) n a = none := by
  induction n generalizing path a with
  | zero =>
    obtain ⟨next, taken, -⟩ := aliasOf_resolveStep found
    rw [steps_succ, steps_zero, steps_zero, Option.bind_some, taken]
    exact iff_of_false nofun nofun
  | succ n ih =>
    obtain ⟨next, taken, later⟩ := aliasOf_resolveStep found
    show (resolveStep pvector path).bind (steps (resolveStep pvector) (n + 1)) = none ↔
      (refers pvector a).bind (steps (refers pvector) n) = none
    rw [taken, Option.bind_some]
    cases referred : refers pvector a with
    | none =>
      have stop : resolveStep pvector next = none := by
        unfold resolveStep
        rw [later, referred, Option.map_none]
      show (resolveStep pvector next).bind _ = none ↔ _
      rw [stop]
      exact iff_of_true rfl rfl
    | some b => exact ih (later.trans referred)

theorem ends_resolve_of_alias (found : aliasOf pvector path = some a) :
    Ends (resolveStep pvector) path ↔ Ends (refers pvector) a := by
  rw [ends_iff_steps, ends_iff_steps]
  constructor
  · rintro ⟨n, stopped⟩
    cases n with
    | zero => exact absurd stopped nofun
    | succ n => exact ⟨n, (steps_resolve_iff n found).1 stopped⟩
  · rintro ⟨n, stopped⟩
    exact ⟨n + 1, (steps_resolve_iff n found).2 stopped⟩

theorem mem_of_reaches (way : Reaches (refers pvector) a b) : b = a ∨ b ∈ pvector := by
  cases way with
  | refl => exact .inl rfl
  | tail _ last => exact .inr (aliasOf_some last).1

/-- **To resolve a path ends iff the aliases that it refers to do not refer back.** -/
theorem ends_resolve_iff : Ends (resolveStep pvector) path ↔
    ¬ ∃ a b, aliasOf pvector path = some a ∧ Reaches (refers pvector) a b ∧ Reaches₁
    (refers pvector) b b := by
  cases found : aliasOf pvector path with
  | none =>
    have stop : resolveStep pvector path = none := by
      unfold resolveStep
      rw [found, Option.map_none]
    exact iff_of_true ⟨path, returns_stop stop⟩ nofun
  | some a =>
    have finite : {b | Reaches (refers pvector) a b}.Finite :=
      ((List.finite_toSet pvector).insert a).subset fun b way => mem_of_reaches way
    rw [ends_resolve_of_alias found, ends_iff_no_cycle finite]
    refine not_congr ⟨fun ⟨b, way, cycle⟩ => ⟨a, b, rfl, way, cycle⟩, ?_⟩
    rintro ⟨_, b, same, way, cycle⟩
    obtain rfl := Option.some.inj same
    exact ⟨b, way, cycle⟩

end Resolve

section Relativise

/-- The components that are taken off a path. -/
def Alias.dirs (a : Alias) : ℕ :=
  if [47] <:+ a.target then (gStrsplit 47 0 a.target).length - 1 else (gStrsplit 47 0 a.target).length

/-- One step of relativising, on the components of a path. -/
def dirStep (pvector : List Alias) (dirs : List Text) : Option (List Text) :=
  (longest dirs pvector).2.map fun a => gStrsplit 47 0 a.tmp ++ dirs.drop a.dirs

/-- No target has more components. -/
def look (pvector : List Alias) : ℕ :=
  (pvector.map fun a => (gStrsplit 47 0 a.target).length).foldr max 0

/-- A path comes back to first components that it had, as many as a target has at most, and in
between it never had fewer components. -/
def ComesBack (pvector : List Alias) (path : Text) : Prop :=
  ∃ m n first second, m < n ∧ steps (relativiseStep pvector) m path = some first ∧
    steps (relativiseStep pvector) n path = some second ∧
    (gStrsplit 47 0 first).take (look pvector) = (gStrsplit 47 0 second).take (look pvector) ∧
    ∀ k between, m ≤ k → k ≤ n → steps (relativiseStep pvector) k path = some between →
      (gStrsplit 47 0 first).length ≤ (gStrsplit 47 0 between).length

/-- The base of a target has the components that are taken off. -/
theorem Alias.length_splitOn_base (some_byte : a.target ≠ []) :
    (a.base.splitOn 47).length = a.dirs := by
  unfold Alias.base Alias.dirs
  rw [gStrsplit_of_ne_nil some_byte]
  split
  · rename_i slash
    obtain ⟨base, target⟩ := slash
    rw [← target, List.dropLast_concat, List.splitOn_append_cons_self, List.splitOn_nil,
      List.length_append, List.length_singleton, Nat.add_sub_cancel]
  · rfl

/-- **Relativising works on the components.** -/
theorem dirStep_gStrsplit (pvector : List Alias) (path : Text) :
    dirStep pvector (gStrsplit 47 0 path) = (relativiseStep pvector path).map (gStrsplit 47 0) := by
  cases taken : relativiseStep pvector path with
  | none =>
    unfold relativiseStep at taken
    unfold dirStep
    rw [Option.map_eq_none_iff] at taken
    rw [taken]
    rfl
  | some next =>
    obtain ⟨a, rest, found, behind, rfl, rfl⟩ := relativiseStep_some taken
    obtain ⟨-, target, more, -, whole⟩ := picked_some found
    have some_byte : a.base ++ rest ≠ [] := by
      rw [whole]
      exact List.append_ne_nil_of_left_ne_nil target more
    unfold dirStep
    show (picked pvector (a.base ++ rest)).map _ = _
    rw [found, Option.map_some, Option.map_some,
      gStrsplit_of_ne_nil (List.append_ne_nil_of_left_ne_nil a.tmp_ne_nil rest),
      gStrsplit_of_ne_nil a.tmp_ne_nil, gStrsplit_of_ne_nil some_byte, splitOn_append behind,
        splitOn_append behind,
      ← Alias.length_splitOn_base target, List.drop_left]

theorem length_le_look (member : a ∈ pvector) : (gStrsplit 47 0 a.target).length ≤ look pvector := by
  induction pvector with
  | nil => exact absurd member List.not_mem_nil
  | cons first pvector ih =>
    show _ ≤ max _ (look pvector)
    rcases List.mem_cons.1 member with rfl | later
    · exact le_max_left _ _
    · exact (ih later).trans (le_max_right _ _)

/-- **A step looks at no more components than a target has.** -/
theorem looks_dirStep (pvector : List Alias) :
    PrefixRewriting.Looks (dirStep pvector) (look pvector) := by
  intro front rest enough
  have same : longest (front ++ rest) pvector = longest front pvector := by
    refine List.foldl_ext _ _ _ fun best a member => ?_
    unfold longer
    dsimp only
    rw [commonLength_append ((length_le_look member).trans enough)]
  unfold dirStep
  rw [same, Option.map_map]
  cases found : (longest front pvector).2 with
  | none => rfl
  | some a =>
    have fits : a.dirs ≤ front.length := by
      refine le_trans ?_ (longest_some found).2.1.length_le
      unfold Alias.dirs
      split
      · exact Nat.sub_le _ _
      · exact le_rfl
    rw [Option.map_some, Option.map_some, Function.comp_apply, List.drop_append_of_le_length fits,
      List.append_assoc]

/-- The components of all paths that are made of a path. -/
def letters (pvector : List Alias) (path : Text) : List Text :=
  gStrsplit 47 0 path ++ pvector.flatMap fun a => gStrsplit 47 0 a.tmp

theorem mem_letters (n : ℕ) {dirs : List Text}
    (there : steps (dirStep pvector) n (gStrsplit 47 0 path) = some dirs) :
    ∀ dir ∈ dirs, dir ∈ letters pvector path := by
  induction n generalizing dirs with
  | zero =>
    obtain rfl := Option.some.inj there
    exact fun dir member => List.mem_append_left _ member
  | succ n ih =>
    rw [steps_succ] at there
    obtain ⟨before, first, last⟩ := Option.bind_eq_some_iff.1 there
    obtain ⟨a, found, rfl⟩ := Option.map_eq_some_iff.1 last
    intro dir member
    rcases List.mem_append.1 member with new | old
    · exact List.mem_append_right _ (List.mem_flatMap.2 ⟨a, (longest_some found).1, new⟩)
    · exact ih first dir (List.mem_of_mem_drop old)

/-- **To relativise a path ends iff it does not come back.** -/
theorem ends_relativise_iff : Ends (relativiseStep pvector) path ↔ ¬ ComesBack pvector path := by
  rw [← ends_map_iff (dirStep_gStrsplit pvector), PrefixRewriting.ends_iff_not_comesBack
    (looks_dirStep pvector) (List.finite_toSet (letters pvector path)) fun n dirs there =>
      mem_letters n there]
  refine not_congr ⟨?_, ?_⟩
  · rintro ⟨m, n, firstDirs, secondDirs, less, atFirst, atSecond, alike, longer⟩
    rw [steps_map (dirStep_gStrsplit pvector), Option.map_eq_some_iff] at atFirst atSecond
    obtain ⟨first, atFirst, rfl⟩ := atFirst
    obtain ⟨second, atSecond, rfl⟩ := atSecond
    refine ⟨m, n, first, second, less, atFirst, atSecond, alike, fun k between low high there => ?_⟩
    refine longer k _ low high ?_
    rw [steps_map (dirStep_gStrsplit pvector), there, Option.map_some]
  · rintro ⟨m, n, first, second, less, atFirst, atSecond, alike, longer⟩
    refine ⟨m, n, _, _, less, ?_, ?_, alike, fun k dirs low high there => ?_⟩
    · rw [steps_map (dirStep_gStrsplit pvector), atFirst, Option.map_some]
    · rw [steps_map (dirStep_gStrsplit pvector), atSecond, Option.map_some]
    · rw [steps_map (dirStep_gStrsplit pvector), Option.map_eq_some_iff] at there
      obtain ⟨between, there, rfl⟩ := there
      exact longer k between low high there

end Relativise

section Tables

/-- No alias refers back to itself. -/
def Acyclic (pvector : List Alias) : Prop := ∀ a, ¬ Reaches₁ (refers pvector) a a

theorem mem_of_cycle (cycle : Reaches₁ (refers pvector) a a) : a ∈ pvector := by
  obtain ⟨before, -, last⟩ := Relation.TransGen.tail'_iff.1 cycle
  exact (aliasOf_some last).1

/-- References that come to an end do not lead back. -/
theorem acyclic_of_steps (n : ℕ) (ends : ∀ a ∈ pvector, steps (refers pvector) n a = none) :
    Acyclic pvector :=
  fun a cycle => not_ends_of_cycle .refl cycle (ends_iff_steps.2 ⟨n, ends a (mem_of_cycle cycle)⟩)

theorem ends_resolve_of_acyclic (acyclic : Acyclic pvector) (path : Text) :
    Ends (resolveStep pvector) path :=
  ends_resolve_iff.2 fun ⟨_, b, _, _, cycle⟩ => acyclic b cycle

/-- An alias without a separator in its name is found by it. -/
theorem aliasOf_tmp (distinct : (pvector.map Alias.name).Nodup) (member : a ∈ pvector)
    (plain : 47 ∉ a.name) : aliasOf pvector a.tmp = some a := by
  have here : (gStrsplit 47 0 a.tmp).head? = some a.tmp :=
    (head?_gStrsplit_iff a.tmp_ne_nil).2
      ⟨a.mem_tmp.not.2 plain, [], .inl rfl, (List.append_nil _).symm⟩
  cases found : aliasOf pvector a.tmp with
  | none => exact absurd (decide_eq_true here) (List.find?_eq_none.1 found a member)
  | some b =>
    have same := List.find?_some found
    rw [decide_eq_true_iff, here, Option.some.injEq, Alias.tmp_inj] at same
    rw [List.inj_on_of_nodup_map distinct member (aliasOf_some found).1 same]

/-- **What is picked behind an alias refers to it.** -/
theorem refers_of_picked (distinct : (pvector.map Alias.name).Nodup) (member : a ∈ pvector)
    (plain : 47 ∉ a.name) (behind : Behind 47 rest)
    (found : picked pvector (a.tmp ++ rest) = some b) : refers pvector b = some a := by
  obtain ⟨-, -, more, behind', whole⟩ := picked_some found
  unfold refers
  rw [← aliasOf_append pvector b.target behind', ← whole, aliasOf_append pvector a.tmp behind,
    aliasOf_tmp distinct member plain]

/-- Relativising picks only aliases without a separator in their names. -/
def PicksPlain (pvector : List Alias) (path : Text) : Prop :=
  ∀ other a, Reaches (relativiseStep pvector) path other → picked pvector other = some a → 47 ∉ a.name

theorem PicksPlain.step (plain : PicksPlain pvector path)
    (taken : relativiseStep pvector path = some next) : PicksPlain pvector next :=
  fun other a way => plain other a (.head taken way)

theorem wellFounded_refers (acyclic : Acyclic pvector) :
    WellFounded fun b a : {a // a ∈ pvector} => refers pvector b = some a.1 := by
  have : Finite {a // a ∈ pvector} := (List.finite_toSet pvector).to_subtype
  refine wellFounded_of_no_cycle fun a cycle => acyclic a.1 ?_
  exact Relation.TransGen.lift Subtype.val (fun _ _ referred => referred) _ _ cycle

/-- **Where no alias refers back to itself, to relativise a path ends.** -/
theorem ends_relativise_of_acyclic (distinct : (pvector.map Alias.name).Nodup)
    (acyclic : Acyclic pvector) (plain : PicksPlain pvector path) :
    Ends (relativiseStep pvector) path := by
  have front : ∀ (a : {a // a ∈ pvector}) rest, 47 ∉ a.1.name → Behind 47 rest →
      PicksPlain pvector (a.1.tmp ++ rest) → Ends (relativiseStep pvector) (a.1.tmp ++ rest) := by
    intro a
    induction a using (wellFounded_refers acyclic).induction with
    | h a ih =>
      intro rest good behind plain
      cases taken : relativiseStep pvector (a.1.tmp ++ rest) with
      | none => exact ⟨_, returns_stop taken⟩
      | some next =>
        obtain ⟨b, more, found, behind', -, rfl⟩ := relativiseStep_some taken
        have referred := refers_of_picked distinct a.2 good behind found
        rw [ends_step taken]
        exact ih ⟨b, (picked_some found).1⟩ referred more (plain _ b .refl found) behind'
          (plain.step taken)
  cases taken : relativiseStep pvector path with
  | none => exact ⟨path, returns_stop taken⟩
  | some next =>
    obtain ⟨a, rest, found, behind, -, rfl⟩ := relativiseStep_some taken
    rw [ends_step taken]
    exact front ⟨a, (picked_some found).1⟩ rest (plain path a .refl found) behind (plain.step taken)

theorem picksPlain_of_plain (plain : ∀ a ∈ pvector, 47 ∉ a.name) (path : Text) :
    PicksPlain pvector path :=
  fun _ a _ found => plain a (picked_some found).1

/-- **All paths end iff no alias refers back to itself.** -/
theorem ends_all_iff (distinct : (pvector.map Alias.name).Nodup) (plain : ∀ a ∈ pvector, 47 ∉ a.name) :
    (∀ path, Ends (resolveStep pvector) path ∧ Ends (relativiseStep pvector) path) ↔
    Acyclic pvector := by
  constructor
  · intro ends a cycle
    have member : a ∈ pvector := mem_of_cycle cycle
    refine ends_resolve_iff.1 (ends a.tmp).1 ⟨a, a, ?_, .refl, cycle⟩
    exact aliasOf_tmp distinct member (plain a member)
  · exact fun acyclic path => ⟨ends_resolve_of_acyclic acyclic path,
      ends_relativise_of_acyclic distinct acyclic (picksPlain_of_plain plain path)⟩

theorem ends_iff_isSome {step : Text → Option Text} :
    Ends step path ↔ ∃ fuel, (runFor step fuel path).isSome := by
  rw [ends_iff_steps]
  exact exists_congr fun n => (runFor_isSome_iff n path).symm

/-- **When the two functions return.** -/
theorem alias_ends_iff (pvector : List Alias) (path : Text) :
    ((∃ fuel, (gebrResolveRelativePath pvector fuel path).isSome) ↔
      ¬ ∃ a b, aliasOf pvector path = some a ∧ Reaches (refers pvector) a b ∧ Reaches₁
    (refers pvector) b b) ∧
    ((∃ fuel, (gebrRelativisePathRecursive pvector fuel path).isSome) ↔ ¬ ComesBack pvector path) ∧
      ((pvector.map Alias.name).Nodup → (∀ a ∈ pvector, 47 ∉ a.name) →
        ((∀ path, (∃ fuel, (gebrResolveRelativePath pvector fuel path).isSome) ∧ ∃ fuel,
        (gebrRelativisePathRecursive pvector fuel path).isSome) ↔ Acyclic pvector)) := by
  refine ⟨ends_iff_isSome.symm.trans ends_resolve_iff, ends_iff_isSome.symm.trans ends_relativise_iff,
    fun distinct plain => ?_⟩
  rw [← ends_all_iff distinct plain]
  exact forall_congr' fun path => and_congr ends_iff_isSome.symm ends_iff_isSome.symm

/-- The aliases of a line whose base is in the home directory. -/
def baseAliases : List Alias := [⟨ascii "/home/u", ascii "HOME"⟩, ⟨ascii "<HOME>/line", ascii "BASE"⟩]

theorem alias_ends_iff_base :
    (∃ fuel, (gebrResolveRelativePath baseAliases fuel (ascii "<BASE>/x")).isSome) ∧ ∃ fuel,
    (gebrRelativisePathRecursive baseAliases fuel (ascii "<BASE>/x")).isSome := by
  have acyclic : Acyclic baseAliases := acyclic_of_steps 2 (by decide)
  exact ((alias_ends_iff baseAliases (ascii "<BASE>/x")).2.2 (by decide) (by decide)).2 acyclic _

/-- **An alias that refers to itself**: neither function returns. -/
theorem self_reference :
    (∀ fuel, gebrResolveRelativePath [⟨ascii "<A>/x", ascii "A"⟩] fuel (ascii "<A>/y") = none) ∧
      ∀ fuel, gebrRelativisePathRecursive [⟨ascii "<A>", ascii "A"⟩] fuel (ascii "<A>/y") = none := by
  have resolve : ¬ Ends (resolveStep [⟨ascii "<A>/x", ascii "A"⟩]) (ascii "<A>/y") :=
    fun ends => ends_resolve_iff.1 ends
      ⟨⟨ascii "<A>/x", ascii "A"⟩, ⟨ascii "<A>/x", ascii "A"⟩, by decide, .refl, .single (by decide)⟩
  have relativise : ¬ Ends (relativiseStep [⟨ascii "<A>", ascii "A"⟩]) (ascii "<A>/y") :=
    not_ends_of_cycle .refl (.single (by decide))
  constructor
  · intro fuel
    by_contra some_result
    exact resolve (ends_iff_isSome.2 ⟨fuel, Option.isSome_iff_ne_none.2 some_result⟩)
  · intro fuel
    by_contra some_result
    exact relativise (ends_iff_isSome.2 ⟨fuel, Option.isSome_iff_ne_none.2 some_result⟩)

end Tables

end Gebr.Geoxml.PathAliases
