/-
**Projects, lines and flows: the rows of the interface and the files of the data directory.**

A project is a file that names its lines, a line is a file that names its flows. The interface keeps
a row for each project and each line, and with the row the document as it was loaded. Most changes
are made to that document, which is then saved. A line that is dragged to another place is moved in
the files, by documents that are loaded for it alone.

* `Session`, `step`: the rows, the files and what a user does.
* `start`: the files read again, in the order of the configuration.
* `start_loaded`: the rows of files that name only what there is.
* `not_listed_start`: a line that no project names is not shown.
-/

import Gebr.Lib.CString
import Gebr.Lib.ListMove
import Gebr.Lib.NamedTable
import Mathlib.Data.List.Basic

namespace Gebr.Interface.ProjectFiles

open Gebr.Lib
open Gebr.Lib.ListMove (insertAt)
open Gebr.Lib.NamedTable (get put names)

abbrev Text : Type := List UInt8

section Model

/-- The directory of the documents: the projects with the lines that they name, the lines with the
flows that they name, and the flows. -/
structure DataDir where
  projects : List (Text × List Text)
  lines : List (Text × List Text)
  flows : List Text
deriving DecidableEq

/-- The row of a line; `flows` is what its document names. -/
structure LineRow where
  filename : Text
  flows : List Text
deriving DecidableEq

/-- The row of a project, with the rows under it; `xml` is what its document names. -/
structure ProjectRow where
  filename : Text
  xml : List Text
  lines : List LineRow
deriving DecidableEq

/-- The interface; `keys` is the group `projects` of its configuration. -/
structure Session where
  dir : DataDir
  store : List ProjectRow
  keys : List Text
deriving DecidableEq

/-- Where a line is dropped. -/
inductive Drop
  | into (project : ℕ)
  | beside (project line : ℕ) (before : Bool)

def Drop.project : Drop → ℕ
  | .into project => project
  | .beside project _ _ => project

/-- `document_save` of a project. -/
def DataDir.saveProject (dir : DataDir) (filename : Text) (lines : List Text) : DataDir :=
  { dir with projects := put filename lines dir.projects }

/-- `document_save` of a line. -/
def DataDir.saveLine (dir : DataDir) (filename : Text) (flows : List Text) : DataDir :=
  { dir with lines := put filename flows dir.lines }

/-- `document_delete` of a project. -/
def DataDir.deleteProject (dir : DataDir) (filename : Text) : DataDir :=
  { dir with projects := dir.projects.filter fun file => file.1 ≠ filename }

/-- `document_delete` of a line. -/
def DataDir.deleteLine (dir : DataDir) (filename : Text) : DataDir :=
  { dir with lines := dir.lines.filter fun file => file.1 ≠ filename }

/-- The files of flows unlinked. -/
def DataDir.unlinkFlows (dir : DataDir) (flows : List Text) : DataDir :=
  { dir with flows := dir.flows.filter fun file => file ∉ flows }

/-- `project_new`; the name is one that `gebr_make_unique_filename` found free. -/
def projectNew (session : Session) (filename : Text) : Option Session :=
  if filename ∈ names session.dir.projects then none
  else some { session with
    dir := session.dir.saveProject filename []
    store := session.store ++ [⟨filename, [], []⟩] }

/-- `project_delete`: a project with lines stays. -/
def projectDelete (session : Session) (project : ℕ) : Option Session := do
  let row ← session.store[project]?
  if row.lines ≠ [] then some session
  else some { session with
    dir := session.dir.deleteProject row.filename
    store := session.store.eraseIdx project }

/-- `document_save` of the project that is selected, when its properties were edited. -/
def projectSave (session : Session) (project : ℕ) : Option Session := do
  let row ← session.store[project]?
  some { session with dir := session.dir.saveProject row.filename row.xml }

/-- `line_new` in the project that is selected. -/
def lineNew (session : Session) (project : ℕ) (filename : Text) : Option Session := do
  let row ← session.store[project]?
  if filename ∈ names session.dir.lines then none
  else some { session with
    dir := (session.dir.saveProject row.filename (row.xml ++ [filename])).saveLine filename []
    store := session.store.modify project fun row =>
      { row with xml := row.xml ++ [filename], lines := row.lines ++ [⟨filename, []⟩] } }

/-- `line_delete`: the flows go, and the line if the document of its project names it. -/
def lineDelete (session : Session) (project line : ℕ) : Option Session := do
  let row ← session.store[project]?
  let entry ← row.lines[line]?
  let dir := session.dir.unlinkFlows entry.flows
  if entry.filename ∈ row.xml then
    some { session with
      dir := (dir.saveProject row.filename (row.xml.erase entry.filename)).deleteLine entry.filename
      store := session.store.modify project fun row =>
        { row with xml := row.xml.erase entry.filename, lines := row.lines.eraseIdx line } }
  else
    some { session with
      dir := dir
      store := session.store.modify project fun row => { row with lines := row.lines.eraseIdx line } }

/-- The reference to a line that was appended to a document, moved next to the first one to another
line; if there is none, `gebr_geoxml_sequence_move_before` leaves it at the end and
`gebr_geoxml_sequence_move_after` takes it to the front. -/
def placed (beside : Option (Text × Bool)) (line : Text) (list : List Text) : List Text :=
  match beside with
  | none => list ++ [line]
  | some (target, before) =>
    if target ∈ list then insertAt (if before then list.idxOf target else list.idxOf target + 1)
      line list
    else if target = line ∨ before then list ++ [line]
    else line :: list

/-- `project_line_move`: both projects are loaded from their files, changed and saved. -/
def projectLineMove (dir : DataDir) (srcProject srcLine dstProject : Text)
    (dstLine : Option (Text × Bool)) : Option DataDir := do
  let src ← get srcProject dir.projects
  let taken := dir.saveProject srcProject (src.erase srcLine)
  let dst ← get dstProject taken.projects
  some (taken.saveProject dstProject (placed dstLine srcLine dst))

/-- A copy of the row of a line put at a place, and the row then removed from its own. -/
def carried (store : List ProjectRow) (project line target place : ℕ) (entry : LineRow) :
    List ProjectRow :=
  let inserted := store.modify target fun row => { row with lines := insertAt place entry row.lines }
  let source := if target = project ∧ place ≤ line then line + 1 else line
  inserted.modify project fun row => { row with lines := row.lines.eraseIdx source }

/-- `line_reorder` of a line. -/
def lineReorder (session : Session) (project line : ℕ) (drop : Drop) : Option Session := do
  let row ← session.store[project]?
  let entry ← row.lines[line]?
  let target ← session.store[drop.project]?
  match drop with
  | .into other => do
    let dir ← projectLineMove session.dir row.filename entry.filename target.filename none
    some { session with dir := dir, store := carried session.store project line other target.lines.length entry }
  | .beside other place before => do
    let next ← target.lines[place]?
    let dir ← projectLineMove session.dir row.filename entry.filename target.filename (some (next.filename, before))
    some { session with
      dir := dir
      store := carried session.store project line other (if before then place else place + 1) entry }

/-- `line_reorder` of a project: only its row moves. -/
def projectReorder (session : Session) (source target : ℕ) (before : Bool) : Option Session :=
  some { session with
    store := (if before then ListMove.moveBefore else ListMove.moveAfter) source target session.store }

/-- The document of a line saved with other flows. -/
def saveFlows (session : Session) (project line : ℕ) (entry : LineRow) (flows : List Text) : Session :=
  { session with
    dir := session.dir.saveLine entry.filename flows
    store := session.store.modify project fun row =>
      { row with lines := row.lines.modify line fun entry => { entry with flows := flows } } }

/-- `flow_new` in the line that is selected. -/
def flowNew (session : Session) (project line : ℕ) (filename : Text) : Option Session := do
  let row ← session.store[project]?
  let entry ← row.lines[line]?
  if filename ∈ session.dir.flows then none
  else
    let saved := saveFlows session project line entry (entry.flows ++ [filename])
    some { saved with dir := { saved.dir with flows := saved.dir.flows ++ [filename] } }

/-- `flow_delete`. -/
def flowDelete (session : Session) (project line flow : ℕ) : Option Session := do
  let row ← session.store[project]?
  let entry ← row.lines[line]?
  let filename ← entry.flows[flow]?
  let saved := saveFlows session project line entry (entry.flows.erase filename)
  some { saved with dir := saved.dir.unlinkFlows [filename] }

/-- `reorder_flows_or_programs` of a flow; `line_move_flow_top` moves it before the first one and
`line_move_flow_bottom` after the last one. -/
def reorderFlows (session : Session) (project line source target : ℕ) (before : Bool) :
    Option Session := do
  let row ← session.store[project]?
  let entry ← row.lines[line]?
  some (saveFlows session project line entry
    ((if before then ListMove.moveBefore else ListMove.moveAfter) source target entry.flows))

/-- `gebr_config_save`: the order of the projects. -/
def gebrConfigSave (session : Session) : Session :=
  { session with keys := session.store.map ProjectRow.filename }

/-- The rows of the lines that a project names, up to the first one whose file is missing. -/
def loadLines (lines : List (Text × List Text)) : List Text → List LineRow × Option Text
  | [] => ([], none)
  | source :: rest =>
    match get source lines with
    | none => ([], some source)
    | some flows => (⟨source, flows⟩ :: (loadLines lines rest).1, (loadLines lines rest).2)

/-- `project_load_with_lines`. At a missing file `remove_parent_ref` takes the reference out of the
document and saves it; what is taken out has no next one, so the loop is over. -/
def projectLoadWithLines (dir : DataDir) (filename : Text) (xml : List Text) : DataDir × ProjectRow :=
  match loadLines dir.lines xml with
  | (rows, none) => (dir, ⟨filename, xml, rows⟩)
  | (rows, some missing) =>
      (dir.saveProject filename (xml.erase missing), ⟨filename, xml.erase missing, rows⟩)

/-- The projects of some files, one after the other. -/
def loadProjects (dir : DataDir) : List Text → DataDir × List ProjectRow
  | [] => (dir, [])
  | filename :: rest =>
    match get filename dir.projects with
    | none => loadProjects dir rest
    | some xml =>
      let loaded := projectLoadWithLines dir filename xml
      ((loadProjects loaded.1 rest).1, loaded.2 :: (loadProjects loaded.1 rest).2)

/-- `project_list_populate`: the projects of the configuration and then the others of the
directory. -/
def projectListPopulate (keys : List Text) (dir : DataDir) : DataDir × List ProjectRow :=
  loadProjects dir (keys ++ (names dir.projects).filter fun filename => filename ∉ keys)

/-- The interface started on the files. -/
def start (session : Session) : Session where
  dir := (projectListPopulate session.keys session.dir).1
  store := (projectListPopulate session.keys session.dir).2
  keys := session.keys

inductive Op
  | projectNew (filename : Text)
  | projectDelete (project : ℕ)
  | projectSave (project : ℕ)
  | projectReorder (source target : ℕ) (before : Bool)
  | lineNew (project : ℕ) (filename : Text)
  | lineDelete (project line : ℕ)
  | lineReorder (project line : ℕ) (drop : Drop)
  | flowNew (project line : ℕ) (filename : Text)
  | flowDelete (project line flow : ℕ)
  | reorderFlows (project line source target : ℕ) (before : Bool)
  | gebrConfigSave
  | start

/-- What a user does; `none` for a row that is not there, or a name of a new file that is not
free. -/
def step (session : Session) : Op → Option Session
  | .projectNew filename => projectNew session filename
  | .projectDelete project => projectDelete session project
  | .projectSave project => projectSave session project
  | .projectReorder source target before => projectReorder session source target before
  | .lineNew project filename => lineNew session project filename
  | .lineDelete project line => lineDelete session project line
  | .lineReorder project line drop => lineReorder session project line drop
  | .flowNew project line filename => flowNew session project line filename
  | .flowDelete project line flow => flowDelete session project line flow
  | .reorderFlows project line source target before => reorderFlows session project line source
      target before
  | .gebrConfigSave => some (gebrConfigSave session)
  | .start => some (start session)

end Model

section Start

variable {dir : DataDir} {filename : Text}

/-- Every line that a project names has its file. -/
def Present (dir : DataDir) : Prop :=
  ∀ filename xml, get filename dir.projects = some xml → ∀ line ∈ xml, (get line dir.lines).isSome

/-- The row of a line as its file has it. -/
def lineRow (dir : DataDir) (line : Text) : Option LineRow :=
  (get line dir.lines).map fun flows => ⟨line, flows⟩

/-- The row of a project as the files have it. -/
def projectRow (dir : DataDir) (filename : Text) : Option ProjectRow :=
  (get filename dir.projects).map fun xml => ⟨filename, xml, xml.filterMap (lineRow dir)⟩

theorem loadLines_present {xml : List Text} (present : ∀ line ∈ xml, (get line dir.lines).isSome) :
    loadLines dir.lines xml = (xml.filterMap (lineRow dir), none) := by
  induction xml with
  | nil => rfl
  | cons line xml ih =>
    obtain ⟨here, rest⟩ := List.forall_mem_cons.1 present
    obtain ⟨flows, found⟩ := Option.isSome_iff_exists.1 here
    have row : lineRow dir line = some ⟨line, flows⟩ := by rw [lineRow, found, Option.map_some]
    rw [loadLines, found, ih rest, List.filterMap_cons_some row]

theorem loadProjects_present (present : Present dir) (filenames : List Text) :
    loadProjects dir filenames = (dir, filenames.filterMap (projectRow dir)) := by
  induction filenames with
  | nil => rfl
  | cons filename filenames ih =>
    unfold loadProjects
    cases found : get filename dir.projects with
    | none =>
      have row : projectRow dir filename = none := by rw [projectRow, found, Option.map_none]
      rw [List.filterMap_cons_none row]
      exact ih
    | some xml =>
      have row : projectRow dir filename = some ⟨filename, xml, xml.filterMap (lineRow dir)⟩ := by
        rw [projectRow, found, Option.map_some]
      have loaded : projectLoadWithLines dir filename xml =
          (dir, ⟨filename, xml, xml.filterMap (lineRow dir)⟩) := by
        rw [projectLoadWithLines, loadLines_present (present filename xml found)]
      rw [List.filterMap_cons_some row]
      simp only [loaded, ih]

/-- **The rows of files that name only what there is**: the projects of the configuration, then the
others. -/
theorem start_loaded {session : Session} (present : Present session.dir) :
    start session = { session with
      store := (session.keys ++ (names session.dir.projects).filter fun filename =>
        filename ∉ session.keys).filterMap (projectRow session.dir) } := by
  rw [start, projectListPopulate, loadProjects_present present]

/-- No project names the line. -/
def NotListed (line : Text) (dir : DataDir) : Prop :=
  ∀ filename xml, get filename dir.projects = some xml → line ∉ xml

theorem notListed_saveProject {line : Text} {xml : List Text} (nowhere : NotListed line dir)
    (absent : line ∉ xml) : NotListed line (dir.saveProject filename xml) := by
  intro other listing found
  have update := congrFun (NamedTable.get_put filename xml dir.projects) other
  by_cases same : other = filename
  · subst same
    rw [Function.update_self] at update
    obtain rfl : xml = listing := Option.some.inj (update.symm.trans found)
    exact absent
  · rw [Function.update_of_ne same] at update
    exact nowhere other listing (update.symm.trans found)

theorem mem_loadLines {xml : List Text} {entry : LineRow}
    (member : entry ∈ (loadLines dir.lines xml).1) : entry.filename ∈ xml := by
  induction xml with
  | nil => exact absurd member List.not_mem_nil
  | cons line xml ih =>
    unfold loadLines at member
    cases found : get line dir.lines with
    | none =>
      rw [found] at member
      exact absurd member List.not_mem_nil
    | some flows =>
      rw [found] at member
      rcases List.mem_cons.1 member with rfl | later
      · exact List.mem_cons_self
      · exact List.mem_cons_of_mem line (ih later)

/-- What is loaded of a project that does not name a line: neither its document nor its rows do. -/
theorem notListed_projectLoad {line : Text} {xml : List Text} (filename : Text)
    (nowhere : NotListed line dir) (absent : line ∉ xml) :
    NotListed line (projectLoadWithLines dir filename xml).1 ∧
      ∀ entry ∈ (projectLoadWithLines dir filename xml).2.lines, entry.filename ≠ line := by
  have rows : ∀ entry ∈ (loadLines dir.lines xml).1, entry.filename ≠ line := fun entry member same =>
    absent (same ▸ mem_loadLines member)
  unfold projectLoadWithLines
  split
  · rename_i loaded
    rw [loaded] at rows
    exact ⟨nowhere, rows⟩
  · rename_i loaded
    rw [loaded] at rows
    exact ⟨notListed_saveProject nowhere fun member => absent (List.mem_of_mem_erase member), rows⟩

theorem notListed_loadProjects {line : Text} (nowhere : NotListed line dir) (filenames : List Text) :
    ∀ row ∈ (loadProjects dir filenames).2, ∀ entry ∈ row.lines, entry.filename ≠ line := by
  induction filenames generalizing dir with
  | nil => exact fun row member => absurd member List.not_mem_nil
  | cons filename filenames ih =>
    unfold loadProjects
    cases found : get filename dir.projects with
    | none => exact ih nowhere
    | some xml =>
      obtain ⟨later, here⟩ := notListed_projectLoad filename nowhere (nowhere filename xml found)
      exact List.forall_mem_cons.2 ⟨here, ih later⟩

/-- **A line that no project names is not shown** when the interface is started. -/
theorem not_listed_start {session : Session} {line : Text} (nowhere : NotListed line session.dir) :
    ∀ row ∈ (start session).store, ∀ entry ∈ row.lines, entry.filename ≠ line :=
  notListed_loadProjects nowhere _

end Start

end Gebr.Interface.ProjectFiles
