/-
**What a path means after it is relativised.**

To relativise a path, it is resolved first. Each target that is then replaced by its alias comes
back when the result is resolved, except that a target with a separator at its end comes back with
one more.

* `returns_relativise_iff`: to relativise is to resolve, and then to put aliases in front.
* `resolve_relativised`: without such targets, what is resolved comes back.
* `longer_relativised`: with one of them, something longer comes back.
* `keepsMeaning_iff` — **a path keeps its meaning iff no such target is replaced**.
* `slash_target`: a path that does not.
-/

import Gebr.Geoxml.AliasEnds

namespace Gebr.Geoxml.PathAliases

open Gebr.Lib.CString (ascii gStrsplit)
open Gebr.Lib.Components Gebr.Lib.PartialSteps
open StateTransition (Reaches Reaches₁)

variable {pvector : List Alias} {a : Alias} {path next resolved relative : Text}
    {mountPoint : Option Text}

section Calls

theorem resolveStep_nil (pvector : List Alias) : resolveStep pvector [] = none := by
  unfold resolveStep
  cases found : aliasOf pvector [] with
  | none => rfl
  | some a =>
    obtain ⟨-, -, rest, -, same⟩ := aliasOf_some found
    exact absurd same.symm (List.append_ne_nil_of_left_ne_nil a.tmp_ne_nil rest)

theorem relativiseStep_nil (pvector : List Alias) : relativiseStep pvector [] = none := by
  cases found : picked pvector [] with
  | none => exact Option.map_eq_none_iff.2 found
  | some a =>
    obtain ⟨-, target, rest, -, same⟩ := picked_some found
    exact absurd same.symm (List.append_ne_nil_of_left_ne_nil target rest)

theorem gebrRemovePathPrefix_none (noMount : mountPoint.getD [] = []) (path : Text) :
    gebrRemovePathPrefix mountPoint path = path := by
  cases mountPoint with
  | none => rfl
  | some front =>
    obtain rfl : front = [] := noMount
    unfold gebrRemovePathPrefix
    dsimp only
    rw [if_pos List.nil_prefix, List.length_nil, List.drop_zero]

/-- **To relativise a path** is to resolve it, and then to put aliases in front. -/
theorem returns_relativise_iff (noMount : mountPoint.getD [] = []) :
    (∃ fuel, gebrRelativisePath pvector mountPoint fuel path = some relative) ↔
      ∃ resolved, Returns (resolveStep pvector) path resolved ∧
        Returns (relativiseStep pvector) resolved relative := by
  unfold gebrRelativisePath
  by_cases empty : path = []
  · simp only [if_pos empty, Option.some.injEq]
    rw [empty]
    constructor
    · rintro ⟨-, rfl⟩
      exact ⟨[], returns_stop (resolveStep_nil pvector), returns_stop (relativiseStep_nil pvector)⟩
    · rintro ⟨resolved, first, second⟩
      obtain rfl := first.unique (returns_stop (resolveStep_nil pvector))
      exact ⟨0, (second.unique (returns_stop (relativiseStep_nil pvector))).symm⟩
  · simp only [if_neg empty, gebrRemovePathPrefix_none noMount]
    constructor
    · rintro ⟨fuel, result⟩
      obtain ⟨resolved, first, second⟩ := Option.bind_eq_some_iff.1 result
      exact ⟨resolved, ⟨fuel, first⟩, ⟨fuel, second⟩⟩
    · rintro ⟨resolved, ⟨m, first⟩, ⟨n, second⟩⟩
      refine ⟨max m n, Option.bind_eq_some_iff.2 ⟨resolved, ?_, ?_⟩⟩
      · exact runFor_mono (le_max_left m n) first
      · exact runFor_mono (le_max_right m n) second

end Calls

section Steps

/-- Relativising picks only aliases whose targets have no separator at the end. -/
def PicksWhole (pvector : List Alias) (path : Text) : Prop :=
  ∀ other a, Reaches (relativiseStep pvector) path other → picked pvector other = some a →
    ¬ [47] <:+ a.target

theorem PicksWhole.step (whole : PicksWhole pvector path)
    (taken : relativiseStep pvector path = some next) : PicksWhole pvector next :=
  fun other a way => whole other a (.head taken way)

theorem picksWhole_of_step (taken : relativiseStep pvector path = some next)
    (here : ∀ a, picked pvector path = some a → ¬ [47] <:+ a.target)
    (later : PicksWhole pvector next) : PicksWhole pvector path := by
  intro other a way found
  rcases Relation.ReflTransGen.cases_head way with rfl | ⟨first, step, way⟩
  · exact here a found
  · obtain rfl := Option.some.inj (taken.symm.trans step)
    exact later other a way found

theorem picksWhole_of_stop (stop : relativiseStep pvector path = none) : PicksWhole pvector path := by
  intro other a way found
  rcases Relation.ReflTransGen.cases_head way with rfl | ⟨first, step, -⟩
  · rw [show picked pvector path = none from Option.map_eq_none_iff.1 stop] at found
    exact absurd found nofun
  · exact absurd (stop.symm.trans step) nofun

theorem Alias.base_eq (whole : ¬ [47] <:+ a.target) : a.base = a.target := if_neg whole

theorem Alias.target_eq (slash : [47] <:+ a.target) : a.target = a.base ++ [47] := by
  obtain ⟨base, target⟩ := slash
  unfold Alias.base
  rw [if_pos ⟨base, target⟩, ← target, List.dropLast_concat]

/-- **What one step put in front is resolved to the target.** -/
theorem resolve_next (distinct : (pvector.map Alias.name).Nodup) (plain : PicksPlain pvector path)
    (taken : relativiseStep pvector path = some next) : ∃ a rest, picked pvector path = some a ∧
      Behind 47 rest ∧ path = a.base ++ rest ∧ resolveStep pvector next = some (a.target ++ rest) := by
  obtain ⟨a, rest, found, behind, rfl, rfl⟩ := relativiseStep_some taken
  have alias_found := aliasOf_tmp distinct (picked_some found).1 (plain _ a .refl found)
  exact ⟨a, rest, found, behind, rfl, resolveStep_tmp alias_found behind⟩

/-- **Whole targets come back.** -/
theorem resolve_relativised (distinct : (pvector.map Alias.name).Nodup)
    (plain : PicksPlain pvector path) (whole : PicksWhole pvector path)
    (put : Returns (relativiseStep pvector) path relative)
    (back : Returns (resolveStep pvector) path resolved) :
    Returns (resolveStep pvector) relative resolved := by
  obtain ⟨way, -⟩ := returns_iff.1 put
  induction way using Relation.ReflTransGen.head_induction_on with
  | refl => exact back
  | @head path next taken way ih =>
    have step : relativiseStep pvector path = some next := taken
    obtain ⟨a, rest, found, behind, same, undone⟩ := resolve_next distinct plain step
    rw [← Alias.base_eq (whole path a .refl found), ← same] at undone
    exact ih (plain.step step) (whole.step step) ((returns_step step).1 put)
      ((returns_step undone).2 back)

/-- What a step does to the path that comes back: nothing, or the separator of the target is there
once more. -/
theorem resolved_next (distinct : (pvector.map Alias.name).Nodup) (acyclic : Acyclic pvector)
    (plain : PicksPlain pvector path) (step : relativiseStep pvector path = some next)
    (back : Returns (resolveStep pvector) path resolved) : ∃ a, picked pvector path = some a ∧
      (¬ [47] <:+ a.target ∧ Returns (resolveStep pvector) next resolved ∨
        [47] <:+ a.target ∧ ∃ front rest, path = a.base ++ rest ∧ resolved = front ++ rest ∧
          Returns (resolveStep pvector) next (front ++ 47 :: rest)) := by
  obtain ⟨a, rest, found, behind, same, undone⟩ := resolve_next distinct plain step
  refine ⟨a, found, ?_⟩
  by_cases slash : [47] <:+ a.target
  · obtain ⟨front, frontResolved⟩ := ends_resolve_of_acyclic acyclic a.base
    refine .inr ⟨slash, front, rest, same, back.unique (same ▸ returns_append behind frontResolved),
      ?_⟩
    rw [returns_step undone, Alias.target_eq slash, List.append_assoc, List.singleton_append]
    exact returns_append (.inr ⟨rest, rfl⟩) frontResolved
  · rw [← Alias.base_eq slash, ← same] at undone
    exact .inl ⟨slash, (returns_step undone).2 back⟩

/-- **A target with a separator at its end comes back with one more.** -/
theorem longer_relativised (distinct : (pvector.map Alias.name).Nodup) (acyclic : Acyclic pvector)
    (plain : PicksPlain pvector path) (put : Returns (relativiseStep pvector) path relative)
    (back : Returns (resolveStep pvector) path resolved) :
      ∃ other, Returns (resolveStep pvector) relative other ∧ resolved.length ≤ other.length ∧
      (¬ PicksWhole pvector path → resolved.length < other.length) := by
  obtain ⟨way, stop⟩ := returns_iff.1 put
  induction way using Relation.ReflTransGen.head_induction_on generalizing resolved with
  | refl =>
    exact ⟨resolved, back, le_rfl, fun some_slash => absurd (picksWhole_of_stop stop) some_slash⟩
  | @head path next taken way ih =>
    have step : relativiseStep pvector path = some next := taken
    have further := (returns_step step).1 put
    obtain ⟨a, found, ⟨whole, kept⟩ | ⟨-, front, rest, -, here, there⟩⟩ :=
      resolved_next distinct acyclic plain step back
    · obtain ⟨other, returns, le, less⟩ := ih (plain.step step) further kept
      refine ⟨other, returns, le, fun some_slash => less fun all => some_slash ?_⟩
      refine picksWhole_of_step step (fun b again => ?_) all
      obtain rfl := Option.some.inj (found.symm.trans again)
      exact whole
    · obtain ⟨other, returns, le, -⟩ := ih (plain.step step) further there
      rw [List.length_append, List.length_cons] at le
      rw [here, List.length_append]
      exact ⟨other, returns, by omega, fun _ => by omega⟩

end Steps

section Meaning

/-- A path is resolved and relativised; what it is relativised to is resolved as the path is, and
relativised to itself. -/
def KeepsMeaning (pvector : List Alias) (mountPoint : Option Text) (path : Text) : Prop :=
  ∃ resolved relative,
  (∃ fuel, gebrResolveRelativePath pvector fuel path = some resolved) ∧
  (∃ fuel, gebrRelativisePath pvector mountPoint fuel path = some relative) ∧
  (∃ fuel, gebrResolveRelativePath pvector fuel relative = some resolved) ∧
  ∃ fuel, gebrRelativisePath pvector mountPoint fuel relative = some relative

theorem keepsMeaning_iff_returns (noMount : mountPoint.getD [] = []) :
    KeepsMeaning pvector mountPoint path ↔ ∃ resolved relative, Returns
      (resolveStep pvector) path resolved ∧ Returns (relativiseStep pvector) resolved relative ∧
      Returns (resolveStep pvector) relative resolved := by
  unfold KeepsMeaning
  simp only [returns_relativise_iff noMount]
  constructor
  · rintro ⟨resolved, relative, first, ⟨other, again, put⟩, back, -⟩
    obtain rfl : resolved = other := Returns.unique first again
    exact ⟨resolved, relative, first, put, back⟩
  · rintro ⟨resolved, relative, first, put, back⟩
    exact ⟨resolved, relative, first, ⟨resolved, first, put⟩, back, ⟨resolved, back, put⟩⟩

theorem returns_self (first : Returns (resolveStep pvector) path resolved) :
    Returns (resolveStep pvector) resolved resolved := returns_stop (returns_iff.1 first).2

/-- **When a path keeps its meaning.** -/
theorem keepsMeaning_iff (distinct : (pvector.map Alias.name).Nodup) (acyclic : Acyclic pvector)
    (noMount : mountPoint.getD [] = []) (path : Text) :
    ((∀ resolved, (∃ fuel, gebrResolveRelativePath pvector fuel path = some resolved) →
      PicksPlain pvector resolved ∧ PicksWhole pvector resolved) →
    KeepsMeaning pvector mountPoint path) ∧
      ((∀ a ∈ pvector, 47 ∉ a.name) →
        (KeepsMeaning pvector mountPoint path ↔ ∀ resolved,
        (∃ fuel, gebrResolveRelativePath pvector fuel path = some resolved) →
        PicksWhole pvector resolved)) := by
  obtain ⟨resolved, first⟩ := ends_resolve_of_acyclic acyclic path
  have keeps : PicksPlain pvector resolved → PicksWhole pvector resolved →
      KeepsMeaning pvector mountPoint path := by
    intro plain whole
    obtain ⟨relative, put⟩ := ends_relativise_of_acyclic distinct acyclic plain
    rw [keepsMeaning_iff_returns noMount]
    exact ⟨resolved, relative, first, put, resolve_relativised distinct plain whole put
      (returns_self first)⟩
  refine ⟨fun good => keeps (good resolved first).1 (good resolved first).2, fun plain =>
    ⟨?_, fun whole => ?_⟩⟩
  · rw [keepsMeaning_iff_returns noMount]
    rintro ⟨resolved, relative, first, put, back⟩ other again
    obtain rfl : resolved = other := first.unique again
    by_contra some_slash
    obtain ⟨longer, returns, -, less⟩ := longer_relativised distinct acyclic
      (picksPlain_of_plain plain resolved) put (returns_self first)
    rw [returns.unique back] at less
    exact absurd (less some_slash) (lt_irrefl _)
  · exact keeps (picksPlain_of_plain plain resolved) (whole resolved first)

theorem keepsMeaning_iff_base :
    ((∀ resolved, (∃ fuel, gebrResolveRelativePath baseAliases fuel (ascii "<BASE>/x") =
      some resolved) → PicksPlain baseAliases resolved ∧ PicksWhole baseAliases resolved) →
        KeepsMeaning baseAliases (some []) (ascii "<BASE>/x")) ∧
    ((∀ a ∈ baseAliases, 47 ∉ a.name) → (KeepsMeaning baseAliases (some []) (ascii "<BASE>/x") ↔
      ∀ resolved, (∃ fuel, gebrResolveRelativePath baseAliases fuel (ascii "<BASE>/x") =
        some resolved) → PicksWhole baseAliases resolved)) :=
  keepsMeaning_iff (by decide) (acyclic_of_steps 2 (by decide)) rfl (ascii "<BASE>/x")

/-- **A target with a separator at its end** comes back with one more; and a name with a separator
does not come back. -/
theorem slash_target :
    (let pvector := [⟨ascii "/a/", ascii "A"⟩]
    Acyclic pvector ∧ gebrResolveRelativePath pvector 5 (ascii "<A>") = some (ascii "/a/") ∧
      gebrRelativisePath pvector none 5 (ascii "<A>") = some (ascii "<A>/") ∧
      gebrResolveRelativePath pvector 5 (ascii "<A>/") = some (ascii "/a//") ∧
      gebrRelativisePath pvector none 5 (ascii "<A>/") = some (ascii "<A>//") ∧
      ¬ KeepsMeaning pvector none (ascii "<A>")) ∧
    (let pvector := [⟨ascii "/x", ascii "a/b"⟩]
    Acyclic pvector ∧ gebrResolveRelativePath pvector 5 (ascii "/x/y") = some (ascii "/x/y") ∧
      gebrRelativisePath pvector none 5 (ascii "/x/y") = some (ascii "<a/b>/y") ∧
      gebrResolveRelativePath pvector 5 (ascii "<a/b>/y") = some (ascii "<a/b>/y")) := by
  refine ⟨⟨acyclic_of_steps 1 (by decide), by decide, by decide, by decide, by decide, ?_⟩,
    acyclic_of_steps 1 (by decide), by decide, by decide, by decide⟩
  rw [keepsMeaning_iff_returns rfl]
  rintro ⟨resolved, relative, first, put, back⟩
  obtain rfl : resolved = ascii "/a/" := first.unique ⟨5, by decide⟩
  obtain rfl : relative = ascii "<A>/" := put.unique ⟨5, by decide⟩
  have longer : ascii "/a/" = ascii "/a//" := back.unique ⟨5, by decide⟩
  exact absurd longer (by decide)

end Meaning

end Gebr.Geoxml.PathAliases
