/-
**The path table of a line.**

A line has named paths. A path is set by its name, the import path by a function of its own, and the
base path together with the directories below it.

* `setPathByName`, `setImportPath`, `setBasePath`: on the list of paths.
* `Table`, `tableStep`: what a table of paths is for, a value for each name.
* `setPathByName_table`, `setBasePath_table`: the list as a table.
* `run_paths` — **the table behind every run**.
* `base_drops`: the base path takes the place of the other paths.
-/

import Gebr.Geoxml.HomePath
import Gebr.Lib.NamedTable

namespace Gebr.Geoxml.LinePaths

open Gebr.Lib.CString
open Gebr.Lib.NamedTable

section Model

/-- The name and the value of each path. -/
abbrev Paths := List (Text × Text)

/-- `base_dirs`. -/
def baseDirs : List (Text × Text) :=
  [(ascii "BASE", []), (ascii "DATA", ascii "data"), (ascii "EXPORT", ascii "export"),
    (ascii "TMP", ascii "tmp"), (ascii "TABLE", ascii "table"), (ascii "MISC", ascii "misc")]

/-- `g_build_filename` of a path and the name of a directory. -/
def gBuildFilename (base dir : Text) : Text :=
  if dir = [] then base
  else
    match (base.reverse.dropWhile (· = 47)).reverse with
    | [] => base ++ dir
    | front => front ++ 47 :: dir

/-- `gebr_geoxml_line_append_path`. The paths are in front of the flows. -/
def appendPath (name path : Text) (paths : Paths) : Paths :=
  paths ++ [(name, gebrGeoxmlRemoveLineBreak path)]

/-- `gebr_geoxml_line_set_path_by_name`. -/
def setPathByName (name newValue : Text) (paths : Paths) : Paths :=
  match get name paths with
  | none => appendPath name newValue paths
  | some _ => put name (gebrGeoxmlRemoveLineBreak newValue) paths

/-- `gebr_geoxml_line_set_import_path`. What is set of a path that is there is its name. -/
def setImportPath (importPath : Text) (paths : Paths) : Paths :=
  match get (ascii "IMPORT") paths with
  | none => appendPath (ascii "IMPORT") importPath paths
  | some _ => put (ascii "IMPORT") (gebrGeoxmlRemoveLineBreak (ascii "IMPORT")) paths

/-- `gebr_geoxml_line_set_base_path`. -/
def setBasePath (home base : Text) (paths : Paths) : Paths :=
  baseDirs.foldl
    (fun paths dir => appendPath dir.1 (pathUseHomeVariable home (gBuildFilename base dir.2)) paths)
    (paths.filter fun path => path.1 = ascii "HOME")

/-- `gebr_geoxml_line_get_path_by_name`. -/
def getPathByName (name : Text) (paths : Paths) : Option Text := get name paths

/-- `gebr_geoxml_line_get_import_path`. -/
def getImportPath (paths : Paths) : Text := (get (ascii "IMPORT") paths).getD []

/-- `gebr_geoxml_line_get_paths`: the value, with the home directory, and the name of each path. -/
def getPaths (home : Text) (paths : Paths) : List (Text × Text) :=
  paths.map fun path => (pathResolveHomeVariable home path.2, path.1)

inductive Op
  | setPathByName (name newValue : Text)
  | setImportPath (importPath : Text)
  | setBasePath (base : Text)

def step (home : Text) (paths : Paths) : Op → Paths
  | .setPathByName name newValue => setPathByName name newValue paths
  | .setImportPath importPath => setImportPath importPath paths
  | .setBasePath base => setBasePath home base paths

/-- Operations, one after another. -/
def run (home : Text) (paths : Paths) (ops : List Op) : Paths := ops.foldl (step home) paths

/-- A line, with paths of distinct names. -/
structure GebrGeoXmlLine where
  paths : Paths
  distinct : (names paths).Nodup

end Model

section Abstract

/-- A value for each name. -/
abbrev Table := Text → Option Text

/-- The paths as a table. -/
def table (paths : Paths) : Table := fun name => getPathByName name paths

/-- The paths that come with a base path: a path at home with `$HOME`. -/
def baseTable (home base : Text) : Table := fun name =>
  (get name baseDirs).map fun dir =>
    gebrGeoxmlRemoveLineBreak (pathUseHomeVariable home (gBuildFilename base dir))

/-- The table behind an operation: one value is another one, or, for a base path, only the home
directory is kept beside what comes with it. -/
def tableStep (home : Text) (paths : Table) : Op → Table
  | .setPathByName name newValue =>
    Function.update paths name (some (gebrGeoxmlRemoveLineBreak newValue))
  | .setImportPath importPath =>
    Function.update paths (ascii "IMPORT") (some (gebrGeoxmlRemoveLineBreak importPath))
  | .setBasePath base => fun name =>
    if name = ascii "HOME" then paths name else baseTable home base name

/-- The table behind operations. -/
def tableRun (home : Text) (paths : Table) (ops : List Op) : Table := ops.foldl (tableStep home) paths

/-- An import path is set only where there is none. -/
def ImportFresh (home : Text) : Table → List Op → Prop
  | _, [] => True
  | paths, op :: ops =>
    (∀ importPath, op = .setImportPath importPath → paths (ascii "IMPORT") = none) ∧
      ImportFresh home (tableStep home paths op) ops

end Abstract

section Steps

variable {home : Text} {paths : Paths} {name : Text}

theorem appendPath_eq_put {value : Text} (absent : get name paths = none) :
    appendPath name value paths = put name (gebrGeoxmlRemoveLineBreak value) paths := by
  induction paths with
  | nil => rfl
  | cons path paths ih =>
    rw [get_cons] at absent
    split at absent
    · cases absent
    · rename_i apart
      unfold put
      rw [if_neg apart, ← ih absent]
      rfl

/-- Both ways of setting a path are one. -/
theorem setPathByName_eq (name newValue : Text) (paths : Paths) :
    setPathByName name newValue paths = put name (gebrGeoxmlRemoveLineBreak newValue) paths := by
  unfold setPathByName
  cases found : get name paths with
  | none => exact appendPath_eq_put found
  | some value => rfl

theorem setImportPath_eq (importPath : Text) (paths : Paths) : ∃ value,
    setImportPath importPath paths = put (ascii "IMPORT") value paths ∧
      (get (ascii "IMPORT") paths = none → value = gebrGeoxmlRemoveLineBreak importPath) := by
  unfold setImportPath
  cases found : get (ascii "IMPORT") paths with
  | none => exact ⟨_, appendPath_eq_put found, fun _ => rfl⟩
  | some value => exact ⟨_, rfl, nofun⟩

theorem setBasePath_eq (home base : Text) (paths : Paths) :
    setBasePath home base paths = (paths.filter fun path => path.1 = ascii "HOME") ++
      baseDirs.map fun dir => (dir.1, gebrGeoxmlRemoveLineBreak
        (pathUseHomeVariable home (gBuildFilename base dir.2))) := by
  unfold setBasePath
  generalize paths.filter (fun path => path.1 = ascii "HOME") = kept
  induction baseDirs generalizing kept with
  | nil => exact (List.append_nil kept).symm
  | cons dir dirs ih =>
    rw [List.foldl_cons, ih, List.map_cons]
    unfold appendPath
    rw [List.append_assoc]
    rfl

/-- **One path set.** -/
theorem setPathByName_table (name newValue : Text) (paths : Paths) :
    table (setPathByName name newValue paths) =
      Function.update (table paths) name (some (gebrGeoxmlRemoveLineBreak newValue)) := by
  rw [setPathByName_eq]
  exact get_put name _ paths

theorem get_map (value : Text → Text) (name : Text) (dirs : List (Text × Text)) :
    get name (dirs.map fun dir => (dir.1, value dir.2)) = (get name dirs).map value := by
  induction dirs with
  | nil => rfl
  | cons dir dirs ih =>
    rw [List.map_cons, get_cons, get_cons, ih]
    split <;> rfl

/-- **The base path set.** -/
theorem setBasePath_table (home base : Text) (paths : Paths) :
    table (setBasePath home base paths) = tableStep home (table paths) (.setBasePath base) := by
  funext name
  show get name (setBasePath home base paths) = if name = ascii "HOME" then get name paths else _
  rw [setBasePath_eq, get_append, get_filter (fun name => decide (name = ascii "HOME"))]
  have directories := get_map (fun dir =>
    gebrGeoxmlRemoveLineBreak (pathUseHomeVariable home (gBuildFilename base dir))) name baseDirs
  by_cases atHome : name = ascii "HOME"
  · have none_there : get name baseDirs = none := by
      rw [atHome]
      decide
    rw [if_pos atHome, if_pos (decide_eq_true atHome), directories, none_there]
    exact Option.or_none
  · rw [if_neg atHome, if_neg (by simpa using atHome), directories]
    rfl

end Steps

section Runs

variable {home : Text} {paths : Paths} {name : Text}

/-- Every name but that of the import path is found as in the table. -/
theorem step_table (apart : name ≠ ascii "IMPORT") (home : Text) (paths : Paths) (op : Op) :
    table (step home paths op) name = tableStep home (table paths) op name := by
  cases op with
  | setPathByName set newValue => exact congrFun (setPathByName_table set newValue paths) name
  | setImportPath importPath =>
    obtain ⟨value, result, -⟩ := setImportPath_eq importPath paths
    show get name (setImportPath importPath paths) = Function.update (table paths) _ _ name
    rw [result, Function.update_of_ne apart]
    exact (congrFun (get_put (ascii "IMPORT") value paths) name).trans
      (Function.update_of_ne apart _ _)
  | setBasePath base => exact congrFun (setBasePath_table home base paths) name

/-- The import path too, where there is none yet. -/
theorem step_table_fresh (op : Op)
    (fresh : ∀ importPath, op = .setImportPath importPath → table paths (ascii "IMPORT") = none) :
    table (step home paths op) = tableStep home (table paths) op := by
  cases op with
  | setPathByName set newValue => exact setPathByName_table set newValue paths
  | setImportPath importPath =>
    obtain ⟨value, result, exact_value⟩ := setImportPath_eq importPath paths
    show table (setImportPath importPath paths) = Function.update (table paths) _ _
    rw [result, exact_value (fresh importPath rfl)]
    exact get_put _ _ paths
  | setBasePath base => exact setBasePath_table home base paths

/-- What the table of a step says of a name is what the table before says of it, or is set. -/
theorem tableStep_congr {first second : Table} (same : first name = second name) (op : Op) :
    tableStep home first op name = tableStep home second op name := by
  cases op with
  | setPathByName set newValue =>
    show Function.update first set _ name = Function.update second set _ name
    rw [Function.update_apply, Function.update_apply, same]
  | setImportPath importPath =>
    show Function.update first _ _ name = Function.update second _ _ name
    rw [Function.update_apply, Function.update_apply, same]
  | setBasePath base =>
    show (if name = ascii "HOME" then first name else _) = if name = ascii "HOME" then
      second name else _
    rw [same]

theorem tableRun_congr {first second : Table} (same : first name = second name) (ops : List Op) :
    tableRun home first ops name = tableRun home second ops name := by
  induction ops generalizing first second with
  | nil => exact same
  | cons op ops ih => exact ih (tableStep_congr same op)

theorem run_table (apart : name ≠ ascii "IMPORT") (ops : List Op) :
    table (run home paths ops) name = tableRun home (table paths) ops name := by
  induction ops generalizing paths with
  | nil => rfl
  | cons op ops ih =>
    refine (@ih (step home paths op)).trans ?_
    exact tableRun_congr (step_table apart home paths op) ops

theorem run_table_fresh {ops : List Op} (fresh : ImportFresh home (table paths) ops) :
    table (run home paths ops) = tableRun home (table paths) ops := by
  induction ops generalizing paths with
  | nil => rfl
  | cons op ops ih =>
    have here := @step_table_fresh home paths op fresh.1
    exact (ih (here ▸ fresh.2)).trans (congrArg (fun paths => tableRun home paths ops) here)

theorem distinct_step (home : Text) (distinct : (names paths).Nodup) (op : Op) :
    (names (step home paths op)).Nodup := by
  cases op with
  | setPathByName set newValue =>
    show (names (setPathByName set newValue paths)).Nodup
    rw [setPathByName_eq]
    exact nodup_put distinct
  | setImportPath importPath =>
    obtain ⟨value, result, -⟩ := setImportPath_eq importPath paths
    show (names (setImportPath importPath paths)).Nodup
    rw [result]
    exact nodup_put distinct
  | setBasePath base =>
    show (names (setBasePath home base paths)).Nodup
    rw [setBasePath_eq]
    unfold names
    rw [List.map_append, List.map_map]
    refine List.Nodup.append (distinct.sublist (List.filter_sublist.map Prod.fst))
      (show (baseDirs.map Prod.fst).Nodup by decide) ?_
    intro name here there
    obtain ⟨path, kept, rfl⟩ := List.mem_map.1 here
    have atHome : path.1 = ascii "HOME" := of_decide_eq_true (List.mem_filter.1 kept).2
    rw [atHome] at there
    exact absurd there (show ascii "HOME" ∉ baseDirs.map Prod.fst by decide)

theorem run_setBasePath (home : Text) (paths : Paths) (ops : List Op) (base : Text) :
    run home paths (ops ++ [.setBasePath base]) = setBasePath home base (run home paths ops) := by
  unfold run
  rw [List.foldl_append, List.foldl_cons, List.foldl_nil]
  rfl

/-- **Names stay distinct.** -/
theorem distinct_run (home : Text) (distinct : (names paths).Nodup) (ops : List Op) :
    (names (run home paths ops)).Nodup := by
  induction ops generalizing paths with
  | nil => exact distinct
  | cons op ops ih => exact ih (distinct_step home distinct op)

/-- **A path at home is resolved to itself.** -/
theorem mem_getPaths_setBasePath (base : Text) {dir : Text × Text} (member : dir ∈ baseDirs)
    (atHome : home <+: gBuildFilename base dir.2) (oneLine : 10 ∉ gBuildFilename base dir.2) :
    (gBuildFilename base dir.2, dir.1) ∈ getPaths home (setBasePath home base paths) := by
  have back := resolve_use atHome
  have kept : gebrGeoxmlRemoveLineBreak (pathUseHomeVariable home (gBuildFilename base dir.2)) =
      pathUseHomeVariable home (gBuildFilename base dir.2) := by
    obtain ⟨rest, whole⟩ := atHome
    rw [← whole, pathUseHomeVariable_at]
    refine removeLineBreak_of_oneLine fun line => ?_
    rcases List.mem_append.1 line with front | behind
    · exact absurd front (by decide)
    · exact oneLine (whole ▸ List.mem_append_right home behind)
  unfold getPaths
  refine List.mem_map.2 ⟨(dir.1, pathUseHomeVariable home (gBuildFilename base dir.2)), ?_, by
    rw [back]⟩
  rw [setBasePath_eq]
  refine List.mem_append_right _ (List.mem_map.2 ⟨dir, member, by rw [kept]⟩)

/-- **The table behind every run.** -/
theorem run_paths (home : Text) (line : GebrGeoXmlLine) (ops : List Op) :
    (∀ name, name ≠ ascii "IMPORT" ∨ ImportFresh home (table line.paths) ops →
      getPathByName name (run home line.paths ops) = tableRun home (table line.paths) ops name) ∧
    (ImportFresh home (table line.paths) ops → getImportPath (run home line.paths ops) =
      (tableRun home (table line.paths) ops (ascii "IMPORT")).getD []) ∧
    (names (run home line.paths ops)).Nodup ∧
    ∀ base, ∀ dir ∈ baseDirs, home <+: gBuildFilename base dir.2 → 10 ∉ gBuildFilename base dir.2 →
      (gBuildFilename base dir.2, dir.1) ∈ getPaths home
      (run home line.paths (ops ++ [.setBasePath base])) := by
  refine ⟨fun name either => ?_, fun fresh => ?_, distinct_run home line.distinct ops,
    fun base dir member atHome oneLine => ?_⟩
  · rcases either with apart | fresh
    · exact run_table apart ops
    · exact congrFun (run_table_fresh fresh) name
  · exact congrArg (fun value : Option Text => value.getD [])
      (congrFun (run_table_fresh fresh) (ascii "IMPORT"))
  · rw [run_setBasePath]
    exact mem_getPaths_setBasePath base member atHome oneLine

theorem run_paths_twice :
    getPathByName (ascii "X") (run (ascii "/home/ann") []
        [.setPathByName (ascii "X") (ascii "/x"), .setPathByName (ascii "X") (ascii "/y")]) =
      tableRun (ascii "/home/ann") (table []) [.setPathByName (ascii "X") (ascii "/x"),
        .setPathByName (ascii "X") (ascii "/y")] (ascii "X") :=
  (run_paths (ascii "/home/ann") ⟨[], List.nodup_nil⟩ _).1 (ascii "X") (.inl (by decide))

/-- **The base path takes the place of the other paths**: one that was set before is gone. -/
theorem base_drops :
    getPathByName (ascii "X") (run (ascii "/home/ann") []
      [.setPathByName (ascii "X") (ascii "/x"), .setBasePath (ascii "/base")]) = none := by decide

end Runs

end Gebr.Geoxml.LinePaths
