/-
**The mount point in front of a path.**

The files of a server are seen below a mount point. Before aliases are put in front of a path, the
text of the mount point is taken off, also where it ends inside a name or with a separator.

* `fileOf`: the file that a path is the path of.
* `onServer`: the file on the server that a path below the mount point is the path of.
* `CutWhole`: the mount point is in front of the path, with a separator behind it, or the path is
  not below it.
* `fileOf_cut_iff`: what is left is the path on the server iff that is so.
* `fileOf_relativised`: aliases in front of a path do not change its file.
* `mountCut_iff` — **when the mount point is taken off right**.
* `look_alike`: a directory beside the mount point.
-/

import Gebr.Geoxml.RelativisePath

namespace Gebr.Geoxml.PathAliases

open Gebr.Lib.CString (ascii)
open Gebr.Lib.Components Gebr.Lib.PartialSteps

variable {pvector : List Alias} {a : Alias} {mount path next rest front resolved relative : Text}
  {mountPoint : Option Text}

section Files

/-- A file: whether its path is from the root, and the names on the way. -/
structure File where
  absolute : Bool
  names : List Text
  deriving DecidableEq

/-- The file that a path is the path of. The empty path is the path of none. -/
def fileOf (path : Text) : Option File :=
  if path = [] then none else some ⟨path.head? = some 47, names 47 path⟩

/-- The names of the mount point are the first ones of the path. -/
def Below (mount path : Text) : Prop :=
  mount ≠ [] ∧ path ≠ [] ∧ (mount.head? = some 47 ↔ path.head? = some 47) ∧
    names 47 mount <+: names 47 path

instance (mount path : Text) : Decidable (Below mount path) := by
  unfold Below
  infer_instance

/-- The file on the server that a path is the path of, when the root of the server is at the mount
point. -/
def onServer (mountPoint : Option Text) (path : Text) : Option File :=
  match mountPoint with
  | none => fileOf path
  | some mount =>
    if Below mount path then some ⟨true, (names 47 path).drop (names 47 mount).length⟩ else fileOf path

theorem fileOf_of_ne_nil (some_byte : path ≠ []) :
    fileOf path = some ⟨path.head? = some 47, names 47 path⟩ :=
  if_neg some_byte

theorem fileOf_separator (rest : Text) : fileOf (47 :: rest) = some ⟨true, names 47 rest⟩ := by
  rw [fileOf_of_ne_nil (List.cons_ne_nil 47 rest), names_cons]
  rfl

theorem onServer_of_below (below : Below mount path) :
    onServer (some mount) path = some ⟨true, (names 47 path).drop (names 47 mount).length⟩ :=
  if_pos below

theorem onServer_of_not_below (beside : ¬ Below mount path) :
    onServer (some mount) path = fileOf path :=
  if_neg beside

/-- One more separator does not change the file. -/
theorem fileOf_append_separator (front rest : Text) :
    fileOf (front ++ 47 :: 47 :: rest) = fileOf (front ++ 47 :: rest) := by
  cases front with
  | nil => rw [List.nil_append, List.nil_append, fileOf_separator, fileOf_separator, names_cons]
  | cons b front =>
    rw [List.cons_append, fileOf_of_ne_nil (List.cons_ne_nil _ _), List.cons_append,
      fileOf_of_ne_nil (List.cons_ne_nil _ _), ← List.cons_append, ← List.cons_append,
        names_append_cons, names_append_cons, names_cons]
    rfl

end Files

section Cut

/-- The mount point stands in front of the path, with a separator behind it, or the path is not
below it. -/
def CutWhole (mountPoint : Option Text) (path : Text) : Prop :=
  ∀ mount, mountPoint = some mount → mount ≠ [] →
  (mount <+: path → ∃ rest, path = mount ++ 47 :: rest) ∧
    (Below mount path → mount <+: path ∨ names 47 mount = [])

theorem below_append (some_byte : mount ≠ []) (rest : Text) : Below mount (mount ++ 47 :: rest) := by
  refine ⟨some_byte, List.append_ne_nil_of_left_ne_nil some_byte _, ?_, ?_⟩
  · rw [List.head?_append_of_ne_nil mount some_byte]
  · rw [names_append_cons]
    exact List.prefix_append _ _

/-- Only separators are above every path from the root. -/
theorem absolute_of_names_nil (some_byte : mount ≠ []) (none : names 47 mount = []) :
    mount.head? = some 47 := by
  obtain ⟨b, mount, rfl⟩ := List.exists_cons_of_ne_nil some_byte
  rw [List.head?_cons, names_eq_nil_iff.1 none b List.mem_cons_self]

theorem cut_mount (rest : Text) : gebrRemovePathPrefix (some mount) (mount ++ rest) = rest := by
  unfold gebrRemovePathPrefix
  dsimp only
  rw [if_pos (List.prefix_append mount rest), List.drop_left]

theorem cut_elsewhere (other : ¬ mount <+: path) : gebrRemovePathPrefix (some mount) path = path :=
  if_neg other

theorem cut_separator (some_byte : mount ≠ []) (rest : Text) :
    fileOf (47 :: rest) = onServer (some mount) (mount ++ 47 :: rest) := by
  rw [onServer_of_below (below_append some_byte rest), fileOf_separator, names_append_cons,
    List.drop_left]

/-- What is left is not the path on the server unless it begins with a separator. -/
theorem separator_of_cut (some_byte : mount ≠ [])
    (same : fileOf rest = onServer (some mount) (mount ++ rest)) : ∃ more, rest = 47 :: more := by
  have path : mount ++ rest ≠ [] := List.append_ne_nil_of_left_ne_nil some_byte rest
  by_cases empty : rest = []
  · have below : Below mount (mount ++ []) := by
      rw [List.append_nil]
      exact ⟨some_byte, some_byte, Iff.rfl, List.prefix_rfl⟩
    rw [empty, onServer_of_below below] at same
    exact absurd same nofun
  obtain ⟨b, more, rfl⟩ := List.exists_cons_of_ne_nil empty
  rw [fileOf_of_ne_nil empty] at same
  by_cases below : Below mount (mount ++ b :: more)
  · rw [onServer_of_below below] at same
    have absolute := congrArg File.absolute (Option.some.inj same)
    obtain rfl := Option.some.inj (of_decide_eq_true absolute)
    exact ⟨more, rfl⟩
  · rw [onServer_of_not_below below, fileOf_of_ne_nil path] at same
    have sameNames : names 47 (b :: more) = names 47 (mount ++ b :: more) := congrArg File.names
      (Option.some.inj same)
    -- the mount point has no byte that is not a separator, so every path from the root is below it
    have flat := congrArg List.flatten sameNames
    rw [flatten_names, flatten_names, List.filter_append, eq_comm, List.append_left_eq_self] at flat
    have none : names 47 mount = [] :=
      names_eq_nil_iff.2 fun b member => by simpa using List.filter_eq_nil_iff.1 flat b member
    have absolute := absolute_of_names_nil some_byte none
    refine absurd ⟨some_byte, path, ?_, ?_⟩ below
    · rw [List.head?_append_of_ne_nil mount some_byte]
    · rw [none]
      exact List.nil_prefix

/-- **What is left is the path on the server** iff a separator is behind the mount point, or the
path is not below it. -/
theorem fileOf_cut_iff (mountPoint : Option Text) (path : Text) :
    fileOf (gebrRemovePathPrefix mountPoint path) = onServer mountPoint path ↔
    CutWhole mountPoint path := by
  cases mountPoint with
  | none => exact iff_of_true rfl nofun
  | some mount =>
    by_cases noMount : mount = []
    · obtain rfl := noMount
      refine iff_of_true ?_ fun _ same some_byte => absurd (Option.some.inj same).symm some_byte
      rw [gebrRemovePathPrefix_none rfl]
      exact (onServer_of_not_below fun below => below.1 rfl).symm
    constructor
    · rintro same other here -
      obtain rfl := Option.some.inj here
      by_cases begins : mount <+: path
      · refine ⟨fun _ => ?_, fun _ => .inl begins⟩
        obtain ⟨rest, rfl⟩ := begins
        rw [cut_mount] at same
        obtain ⟨more, rfl⟩ := separator_of_cut noMount same
        exact ⟨more, rfl⟩
      · refine ⟨fun here => absurd here begins, fun below => .inr ?_⟩
        rw [cut_elsewhere begins, fileOf_of_ne_nil below.2.1, onServer_of_below below] at same
        have length : (names 47 path).length = ((names 47 path).drop (names 47 mount).length).length :=
          congrArg (fun file => file.names.length) (Option.some.inj same)
        have le := below.2.2.2.length_le
        rw [List.length_drop] at length
        exact List.length_eq_zero_iff.1 (by omega)
    · intro whole
      obtain ⟨separated, found⟩ := whole mount rfl noMount
      by_cases begins : mount <+: path
      · obtain ⟨rest, rfl⟩ := separated begins
        rw [cut_mount, cut_separator noMount]
      · rw [cut_elsewhere begins]
        by_cases below : Below mount path
        · have none := (found below).resolve_left begins
          have absolute := below.2.2.1.1 (absolute_of_names_nil noMount none)
          rw [onServer_of_below below, fileOf_of_ne_nil below.2.1, none, List.length_nil,
            List.drop_zero, decide_eq_true absolute]
        · exact (onServer_of_not_below below).symm

/-- Only a path below the mount point is changed. -/
theorem below_of_cut (whole : CutWhole mountPoint path)
    (changed : gebrRemovePathPrefix mountPoint path ≠ path) :
    ∃ mount, mountPoint = some mount ∧ Below mount path := by
  cases mountPoint with
  | none => exact absurd rfl changed
  | some mount =>
    have some_byte : mount ≠ [] := by
      rintro rfl
      exact changed (gebrRemovePathPrefix_none rfl path)
    by_cases begins : mount <+: path
    · obtain ⟨rest, rfl⟩ := (whole mount rfl some_byte).1 begins
      exact ⟨mount, rfl, below_append some_byte rest⟩
    · exact absurd (cut_elsewhere begins) changed

end Cut

section Aliases

/-- What is behind a target with a separator at its end begins with that separator. -/
theorem rest_of_slash (found : picked pvector path = some a) (slash : [47] <:+ a.target)
    (same : path = a.base ++ rest) : ∃ more, rest = 47 :: more := by
  obtain ⟨-, -, more, -, whole⟩ := picked_some found
  rw [same, Alias.target_eq slash, List.append_assoc, List.append_cancel_left_eq] at whole
  exact ⟨more, whole⟩

/-- **Aliases in front of a path do not change its file.** -/
theorem fileOf_relativised (distinct : (pvector.map Alias.name).Nodup) (acyclic : Acyclic pvector)
    (plain : PicksPlain pvector path) (put : Returns (relativiseStep pvector) path relative)
    (back : Returns (resolveStep pvector) path resolved) :
    ∃ other, Returns (resolveStep pvector) relative other ∧ fileOf other = fileOf resolved := by
  obtain ⟨way, stop⟩ := returns_iff.1 put
  induction way using Relation.ReflTransGen.head_induction_on generalizing resolved with
  | refl => exact ⟨resolved, back, rfl⟩
  | @head path next taken way ih =>
    have step : relativiseStep pvector path = some next := taken
    obtain ⟨a, found, ⟨-, kept⟩ | ⟨slash, front, rest, same, here, there⟩⟩ :=
      resolved_next distinct acyclic plain step back
    · exact ih (plain.step step) ((returns_step step).1 put) kept
    · obtain ⟨more, rfl⟩ := rest_of_slash found slash same
      rw [here, ← fileOf_append_separator]
      exact ih (plain.step step) ((returns_step step).1 put) there

/-- No alias is in front of a path that begins with a separator. -/
theorem resolveStep_separator (pvector : List Alias) (rest : Text) :
    resolveStep pvector (47 :: rest) = none := by
  unfold resolveStep
  cases found : aliasOf pvector (47 :: rest) with
  | none => rfl
  | some a =>
    obtain ⟨-, -, more, -, same⟩ := aliasOf_some found
    exact absurd (List.cons.inj same).1 (by decide)

/-- What is left is resolved as it stands. -/
theorem resolveStep_cut (whole : CutWhole mountPoint resolved)
    (stop : resolveStep pvector resolved = none) :
    resolveStep pvector (gebrRemovePathPrefix mountPoint resolved) = none := by
  cases mountPoint with
  | none => exact stop
  | some mount =>
    by_cases noMount : mount = []
    · rwa [noMount, gebrRemovePathPrefix_none rfl]
    by_cases begins : mount <+: resolved
    · obtain ⟨rest, rfl⟩ := (whole mount rfl noMount).1 begins
      rw [cut_mount]
      exact resolveStep_separator pvector rest
    · rwa [cut_elsewhere begins]

end Aliases

section Meaning

/-- The mount point is taken off a path that is below it and off no other path, and what is left is
the path on the server; so is what it is relativised to, when the aliases can be told apart and do
not go round. -/
structure MountCut (pvector : List Alias) (mountPoint : Option Text) (path resolved : Text) :
    Prop where
  only_below : gebrRemovePathPrefix mountPoint resolved ≠ resolved →
    ∃ mount, mountPoint = some mount ∧ Below mount resolved
  same_file : fileOf (gebrRemovePathPrefix mountPoint resolved) = onServer mountPoint resolved
  same_meaning : (pvector.map Alias.name).Nodup → (∀ a ∈ pvector, 47 ∉ a.name) → Acyclic pvector →
    ∃ relative back, (∃ fuel, gebrRelativisePath pvector mountPoint fuel path = some relative) ∧
      (∃ fuel, gebrResolveRelativePath pvector fuel relative = some back) ∧ fileOf back =
        onServer mountPoint resolved

/-- What a path is relativised to. -/
theorem returns_relativise (some_byte : path ≠ [])
    (first : Returns (resolveStep pvector) path resolved)
    (put : Returns (relativiseStep pvector) (gebrRemovePathPrefix mountPoint resolved) relative) :
    ∃ fuel, gebrRelativisePath pvector mountPoint fuel path = some relative := by
  obtain ⟨m, first⟩ := first
  obtain ⟨n, put⟩ := put
  refine ⟨max m n, ?_⟩
  unfold gebrRelativisePath
  rw [if_neg some_byte, Option.bind_eq_some_iff]
  exact ⟨resolved, runFor_mono (le_max_left m n) first, runFor_mono (le_max_right m n) put⟩

theorem same_meaning_of_whole (some_byte : path ≠ [])
    (first : Returns (resolveStep pvector) path resolved) (whole : CutWhole mountPoint resolved)
    (distinct : (pvector.map Alias.name).Nodup) (plain : ∀ a ∈ pvector, 47 ∉ a.name)
    (acyclic : Acyclic pvector) :
      ∃ relative back, (∃ fuel, gebrRelativisePath pvector mountPoint fuel path = some relative) ∧
      (∃ fuel, gebrResolveRelativePath pvector fuel relative = some back) ∧ fileOf back =
      onServer mountPoint resolved := by
  have stop := resolveStep_cut whole (returns_iff.1 first).2
  have picks := picksPlain_of_plain plain (gebrRemovePathPrefix mountPoint resolved)
  obtain ⟨relative, put⟩ := ends_relativise_of_acyclic distinct acyclic picks
  obtain ⟨back, returns, same⟩ := fileOf_relativised distinct acyclic picks put (returns_stop stop)
  rw [(fileOf_cut_iff mountPoint resolved).2 whole] at same
  exact ⟨relative, back, returns_relativise some_byte first put, returns, same⟩

/-- **When the mount point is taken off right.** -/
theorem mountCut_iff (pvector : List Alias) (mountPoint : Option Text) (path : Text)
    (some_byte : path ≠ [])
    (resolves : ∃ fuel, gebrResolveRelativePath pvector fuel path = some resolved) :
    MountCut pvector mountPoint path resolved ↔ CutWhole mountPoint resolved := by
  refine ⟨fun cut => (fileOf_cut_iff mountPoint resolved).1 cut.same_file, fun whole => ⟨?_, ?_, ?_⟩⟩
  · exact below_of_cut whole
  · exact (fileOf_cut_iff mountPoint resolved).2 whole
  · exact same_meaning_of_whole some_byte resolves whole

theorem mountCut_iff_mounted :
    MountCut baseAliases (some (ascii "/m")) (ascii "/m/home/u/x") (ascii "/m/home/u/x") ↔ CutWhole
    (some (ascii "/m")) (ascii "/m/home/u/x") :=
  mountCut_iff baseAliases (some (ascii "/m")) (ascii "/m/home/u/x") (by decide) ⟨1, by decide⟩

/-- **A directory beside the mount point** loses the front of its name. The path of the mount point
itself is relativised to the empty path, and a path below a mount point with a separator at its end
to one that is not from the root. -/
theorem look_alike :
    (let mount := ascii "/m/sftp on dell2"
    let path := ascii "/m/sftp on dell21/x"
    gebrRelativisePath [] (some mount) 5 path = some (ascii "1/x") ∧
      ¬ MountCut [] (some mount) path path) ∧
    gebrRelativisePath [] (some (ascii "/m")) 5 (ascii "/m") = some [] ∧
    gebrRelativisePath [] (some (ascii "/m/")) 5 (ascii "/m/x") = some (ascii "x") := by
  refine ⟨⟨by decide, fun cut => ?_⟩, by decide, by decide⟩
  obtain ⟨mount, here, below⟩ := cut.only_below (by decide)
  obtain rfl := Option.some.inj here
  exact absurd below (by decide)

end Meaning

end Gebr.Geoxml.PathAliases
