/-
**What is shown is what is in the files.**

A session is in step with its files if each project file names the lines of its row, each line file
names its flows, and nothing is named twice. Saving a project writes the document in memory; after a
drag that document is behind its file, and saving it undoes the drag in one project alone.

* `ProjectsKept`, `LinesKept`, `InSync`: the session in step with its files.
* `ProjectsKept.save_iff`: a project that is saved stays in step just when what is saved is what its
  row shows.
* `Careful`, `step_inSync_iff`: the steps that keep it.
* `inSync_iff_careful` — **a run is in step all the way just when its steps are careful**.
* `start_shows` — **a session in step is shown again as it was**.
* `dragged_lost`, `dragged_back`: a line that is dragged and then left behind by a new one, and one
  that is deleted.
-/

import Gebr.Interface.ProjectFiles
import Gebr.Lib.CString
import Gebr.Lib.Run
import Mathlib.Data.List.Perm.Basic
import Mathlib.Data.List.Nodup

namespace Gebr.Interface.ProjectFiles

open Gebr.Lib
open Gebr.Lib.ListMove (insertAt)
open Gebr.Lib.NamedTable (get put names)
open Gebr.Lib.CString (ascii)

section Tables

variable {ν : Type} {table : List (Text × ν)} {name other : Text} {value : ν}

theorem get_put_self (name : Text) (value : ν) (table : List (Text × ν)) :
    get name (put name value table) = some value :=
  (congrFun (NamedTable.get_put name value table) name).trans (Function.update_self ..)

theorem get_put_of_ne (apart : other ≠ name) (value : ν) :
    get other (put name value table) = get other table :=
  (congrFun (NamedTable.get_put name value table) other).trans (Function.update_of_ne apart ..)

theorem mem_names_of_get (found : get name table = some value) : name ∈ names table :=
  List.mem_map_of_mem (NamedTable.mem_of_get found)

theorem get_delete (apart : other ≠ name) :
    get other (table.filter fun file => file.1 ≠ name) = get other table := by
  have kept := NamedTable.get_filter (fun file : Text => decide (file ≠ name)) other table
  rwa [if_pos (decide_eq_true apart)] at kept

end Tables

section Model

/-- The lines that are shown under a project. -/
def ProjectRow.lineNames (row : ProjectRow) : List Text := row.lines.map LineRow.filename

/-- All lines that are shown. -/
def lineRows (store : List ProjectRow) : List LineRow := store.flatMap ProjectRow.lines

/-- What the interface shows. -/
def shown (store : List ProjectRow) : List (Text × List LineRow) :=
  store.map fun row => (row.filename, row.lines)

/-- **The files of the projects are those of the rows**, and name their lines. -/
structure ProjectsKept (projects : List (Text × List Text)) (store : List ProjectRow) : Prop where
  listed : ∀ row ∈ store, get row.filename projects = some row.lineNames
  complete : ∀ filename ∈ names projects, filename ∈ store.map ProjectRow.filename
  files : (names projects).Nodup
  distinct : (store.map ProjectRow.filename).Nodup

/-- **The lines that are shown have their files**, which name their flows, and no line and no flow
is there twice. -/
structure LinesKept (lines : List (Text × List Text)) (flows : List Text) (rows : List LineRow) :
    Prop where
  listed : ∀ entry ∈ rows, get entry.filename lines = some entry.flows
  present : ∀ flow ∈ rows.flatMap LineRow.flows, flow ∈ flows
  distinct : (rows.map LineRow.filename).Nodup
  single : (rows.flatMap LineRow.flows).Nodup

/-- **The session is in step with its files.** -/
structure InSync (session : Session) : Prop where
  projects : ProjectsKept session.dir.projects session.store
  lines : LinesKept session.dir.lines session.dir.flows (lineRows session.store)
  keys : session.keys.Nodup

/-- A step that leaves the files in step: what is saved is what is shown. -/
def Careful (session : Session) : Op → Prop
  | .projectSave project => ∀ row, session.store[project]? = some row → row.xml = row.lineNames
  | .lineNew project _ => ∀ row, session.store[project]? = some row → row.xml = row.lineNames
  | .lineDelete project line => ∀ row entry, session.store[project]? = some row → row.lines[line]? =
      some entry → entry.filename ∈ row.xml ∧ row.xml.erase entry.filename =
        row.lineNames.eraseIdx line
  | .lineReorder project line (.beside target place _) => target = project → place = line →
      ∀ row, session.store[project]? = some row → row.lines.length = line + 1
  | _ => True

end Model

section Projects

variable {projects : List (Text × List Text)} {front rest store other : List ProjectRow}
    {row row' : ProjectRow}

theorem filename_ne (distinct : ((front ++ row :: rest).map ProjectRow.filename).Nodup)
    {one : ProjectRow} (member : one ∈ front ++ rest) : one.filename ≠ row.filename := by
  rw [List.map_append, List.map_cons, List.nodup_middle, ← List.map_append,
    List.nodup_cons] at distinct
  exact fun same => distinct.1 (same ▸ List.mem_map_of_mem member)

/-- **A project that is saved stays in step just when what is saved is what its row shows.** -/
theorem ProjectsKept.save_iff (kept : ProjectsKept projects (front ++ row :: rest))
    (same : row'.filename = row.filename) (listing : List Text) :
    ProjectsKept (put row.filename listing projects) (front ++ row' :: rest) ↔ listing =
    row'.lineNames := by
  constructor
  · intro after
    have here := after.listed row' (List.mem_append_right front List.mem_cons_self)
    rw [same, get_put_self] at here
    exact Option.some.inj here
  · rintro rfl
    have filenames : (front ++ row' :: rest).map ProjectRow.filename =
        (front ++ row :: rest).map ProjectRow.filename := by
      rw [List.map_append, List.map_cons, same, List.map_append, List.map_cons]
    have there : row.filename ∈ (front ++ row :: rest).map ProjectRow.filename :=
      List.mem_map_of_mem (List.mem_append_right front List.mem_cons_self)
    refine ⟨fun one member => ?_, fun filename member => ?_, NamedTable.nodup_put kept.files,
      filenames ▸ kept.distinct⟩
    · rcases List.mem_cons.1 (List.perm_middle.mem_iff.1 member) with rfl | elsewhere
      · rw [same, get_put_self]
      · rw [get_put_of_ne (filename_ne kept.distinct elsewhere)]
        exact kept.listed one (List.perm_middle.mem_iff.2 (List.mem_cons_of_mem row elsewhere))
    · rw [filenames]
      rcases NamedTable.mem_names_put.1 member with rfl | before
      · exact there
      · exact kept.complete filename before

/-- A line taken out of its project, in the file and in the row. -/
theorem ProjectsKept.taken (kept : ProjectsKept projects (front ++ row :: rest)) (line : ℕ) :
    ProjectsKept (put row.filename (row.lineNames.eraseIdx line) projects)
      (front ++ { row with lines := row.lines.eraseIdx line } :: rest) := by
  have names : row.lineNames.eraseIdx line =
      ({ row with lines := row.lines.eraseIdx line } : ProjectRow).lineNames :=
    List.eraseIdx_map ..
  exact (kept.save_iff (show ({ row with lines := row.lines.eraseIdx line } : ProjectRow).filename =
    row.filename from rfl) _).2 names

theorem ProjectsKept.new (kept : ProjectsKept projects store) {filename : Text}
    (free : filename ∉ names projects) :
    ProjectsKept (put filename [] projects) (store ++ [⟨filename, [], []⟩]) := by
  have apart : ∀ row ∈ store, row.filename ≠ filename := fun row member same =>
    free (same ▸ mem_names_of_get (kept.listed row member))
  refine ⟨fun row member => ?_, fun other member => ?_, NamedTable.nodup_put kept.files, ?_⟩
  · rcases List.mem_append.1 member with before | last
    · rw [get_put_of_ne (apart row before)]
      exact kept.listed row before
    · obtain rfl := List.mem_singleton.1 last
      exact get_put_self ..
  · rw [List.map_append, List.mem_append]
    rcases NamedTable.mem_names_put.1 member with rfl | before
    · exact Or.inr (List.mem_singleton_self _)
    · exact Or.inl (kept.complete other before)
  · rw [List.map_append]
    refine List.nodup_append'.2 ⟨kept.distinct, List.nodup_singleton _, ?_⟩
    rintro one member last
    obtain ⟨row, there, rfl⟩ := List.mem_map.1 member
    exact apart row there (List.mem_singleton.1 last)

theorem ProjectsKept.deleted (kept : ProjectsKept projects (front ++ row :: rest)) :
    ProjectsKept (projects.filter fun file => file.1 ≠ row.filename) (front ++ rest) := by
  have part : ∀ one ∈ front ++ rest, one ∈ front ++ row :: rest := fun one member =>
    List.perm_middle.mem_iff.2 (List.mem_cons_of_mem row member)
  refine ⟨fun one member => ?_, fun filename member => ?_, ?_, ?_⟩
  · rw [get_delete (filename_ne kept.distinct member)]
    exact kept.listed one (part one member)
  · obtain ⟨file, there, rfl⟩ := List.mem_map.1 member
    obtain ⟨there, apart⟩ := List.mem_filter.1 there
    have before := kept.complete file.1 (List.mem_map_of_mem there)
    rw [List.map_append, List.map_cons, List.perm_middle.mem_iff, List.mem_cons,
      ← List.map_append] at before
    exact before.resolve_left (of_decide_eq_true apart)
  · exact kept.files.sublist (List.filter_sublist.map Prod.fst)
  · have whole := kept.distinct
    rw [List.map_append, List.map_cons, List.nodup_middle, ← List.map_append] at whole
    exact (List.nodup_cons.1 whole).2

theorem ProjectsKept.perm (kept : ProjectsKept projects store) (perm : store.Perm other) :
    ProjectsKept projects other :=
  ⟨fun row member => kept.listed row (perm.mem_iff.2 member),
    fun filename member => (perm.map _).mem_iff.1 (kept.complete filename member), kept.files,
    (perm.map _).nodup_iff.1 kept.distinct⟩

end Projects

section Lines

variable {lines : List (Text × List Text)} {flows : List Text} {rows other : List LineRow}
    {entry : LineRow}

theorem LinesKept.perm (kept : LinesKept lines flows rows) (perm : rows.Perm other) :
    LinesKept lines flows other :=
  ⟨fun entry member => kept.listed entry (perm.mem_iff.2 member),
    fun flow member => kept.present flow ((perm.flatMap_right _).mem_iff.2 member),
      (perm.map _).nodup_iff.1 kept.distinct,
    (perm.flatMap_right _).nodup_iff.1 kept.single⟩

theorem LinesKept.tail (kept : LinesKept lines flows (entry :: rows)) :
    LinesKept lines flows rows where
  listed := (List.forall_mem_cons.1 kept.listed).2
  present flow member := kept.present flow (List.mem_append_right entry.flows member)
  distinct := (List.nodup_cons.1 kept.distinct).2
  single := kept.single.of_append_right

theorem filename_ne_of_kept (kept : LinesKept lines flows (entry :: rows)) {one : LineRow}
    (member : one ∈ rows) : one.filename ≠ entry.filename := fun same =>
  (List.nodup_cons.1 kept.distinct).1 (same ▸ List.mem_map_of_mem member)

theorem LinesKept.new (kept : LinesKept lines flows rows) {filename : Text}
    (free : filename ∉ names lines) :
    LinesKept (put filename [] lines) flows (⟨filename, []⟩ :: rows) := by
  have apart : ∀ one ∈ rows, one.filename ≠ filename := fun one member same =>
    free (same ▸ mem_names_of_get (kept.listed one member))
  refine ⟨List.forall_mem_cons.2 ⟨get_put_self .., fun one member => ?_⟩, kept.present,
    ?_, kept.single⟩
  · rw [get_put_of_ne (apart one member)]
    exact kept.listed one member
  · refine List.nodup_cons.2 ⟨fun member => ?_, kept.distinct⟩
    obtain ⟨one, there, same⟩ := List.mem_map.1 member
    exact apart one there same

theorem LinesKept.saved (kept : LinesKept lines flows (entry :: rows)) {listing after : List Text}
    (single : (listing ++ rows.flatMap LineRow.flows).Nodup)
    (present : ∀ flow ∈ listing ++ rows.flatMap LineRow.flows, flow ∈ after) :
    LinesKept (put entry.filename listing lines) after (⟨entry.filename, listing⟩ :: rows) := by
  refine ⟨List.forall_mem_cons.2 ⟨get_put_self .., fun one member => ?_⟩, present,
    kept.distinct, single⟩
  rw [get_put_of_ne (filename_ne_of_kept kept member)]
  exact kept.tail.listed one member

theorem LinesKept.unlinked (kept : LinesKept lines flows (entry :: rows)) :
    LinesKept lines (flows.filter fun file => file ∉ entry.flows) rows where
  listed := kept.tail.listed
  present flow member := by
    refine List.mem_filter.2 ⟨kept.tail.present flow member, decide_eq_true fun there => ?_⟩
    exact List.disjoint_of_nodup_append kept.single there member
  distinct := kept.tail.distinct
  single := kept.tail.single

/-- The file of one line deleted, and its flows unlinked. -/
theorem LinesKept.deleted (kept : LinesKept lines flows (entry :: rows)) :
    LinesKept (lines.filter fun file => file.1 ≠ entry.filename)
    (flows.filter fun file => file ∉ entry.flows) rows where
  listed one member := by
    rw [get_delete (filename_ne_of_kept kept member)]
    exact kept.tail.listed one member
  present := kept.unlinked.present
  distinct := kept.tail.distinct
  single := kept.tail.single

end Lines

section Rows

variable {store front rest : List ProjectRow} {row : ProjectRow}

theorem lineRows_split (front : List ProjectRow) (row : ProjectRow) (rest : List ProjectRow) :
    (lineRows (front ++ row :: rest)).Perm (row.lines ++ lineRows (front ++ rest)) := by
  unfold lineRows
  rw [List.flatMap_append, List.flatMap_cons, List.flatMap_append]
  exact List.perm_append_comm_assoc ..

theorem lineRows_erase {line : ℕ} {entry : LineRow} (here : row.lines[line]? = some entry)
    (front rest : List ProjectRow) : (lineRows (front ++ row :: rest)).Perm
      (entry :: (row.lines.eraseIdx line ++ lineRows (front ++ rest))) := by
  refine (lineRows_split front row rest).trans ?_
  exact (ListMove.cons_eraseIdx_perm here).symm.append_right _

theorem lineRows_taken {line : ℕ} {entry : LineRow} (here : row.lines[line]? = some entry)
    (front rest : List ProjectRow) : (lineRows (front ++ row :: rest)).Perm
      (entry :: lineRows (front ++ { row with lines := row.lines.eraseIdx line } :: rest)) :=
  (lineRows_erase here front rest).trans
    ((lineRows_split front { row with lines := row.lines.eraseIdx line } rest).symm.cons entry)

theorem lineRows_put (place : ℕ) (entry : LineRow) (front : List ProjectRow) (row : ProjectRow)
    (rest : List ProjectRow) :
      (lineRows (front ++ { row with lines := insertAt place entry row.lines } :: rest)).Perm
      (entry :: lineRows (front ++ row :: rest)) := by
  refine (lineRows_split front { row with lines := insertAt place entry row.lines } rest).trans ?_
  refine .trans ?_ ((lineRows_split front row rest).symm.cons entry)
  exact (ListMove.insertAt_perm place entry row.lines).append_right _

end Rows

section Steps

variable {session next : Session} {project line : ℕ} {row : ProjectRow} {entry : LineRow}
    {filename : Text}

theorem projectNew_inSync (sync : InSync session)
    (taken : projectNew session filename = some next) : InSync next := by
  unfold projectNew at taken
  split_ifs at taken with used
  obtain rfl := Option.some.inj taken
  refine ⟨sync.projects.new used, ?_, sync.keys⟩
  have same : lineRows (session.store ++ [⟨filename, [], []⟩]) = lineRows session.store := by
    simp [lineRows]
  exact same ▸ sync.lines

theorem projectDelete_inSync (sync : InSync session)
    (taken : projectDelete session project = some next) : InSync next := by
  obtain ⟨row, here, taken⟩ := Option.bind_eq_some_iff.1 taken
  split_ifs at taken with filled
  · exact Option.some.inj taken ▸ sync
  · obtain ⟨front, rest, whole, rfl⟩ := ListMove.exists_split here
    obtain rfl := Option.some.inj taken
    have shorter : session.store.eraseIdx front.length = front ++ rest := by
      rw [whole, ListMove.eraseIdx_split]
    have lines := (whole ▸ sync.lines).perm (lineRows_split front row rest)
    rw [not_not.1 filled, List.nil_append] at lines
    exact ⟨shorter ▸ (whole ▸ sync.projects).deleted, shorter ▸ lines, sync.keys⟩

theorem projectSave_inSync_iff (sync : InSync session)
    (taken : projectSave session project = some next) :
    InSync next ↔ Careful session (.projectSave project) := by
  obtain ⟨row, here, saves⟩ := Option.bind_eq_some_iff.1 taken
  obtain ⟨front, rest, whole, rfl⟩ := ListMove.exists_split here
  obtain rfl := Option.some.inj saves
  have saved := (whole ▸ sync.projects).save_iff (rfl : row.filename = row.filename) row.xml
  rw [← whole] at saved
  refine ⟨fun after other again => ?_, fun careful =>
    ⟨saved.2 (careful row here), sync.lines, sync.keys⟩⟩
  obtain rfl := Option.some.inj (here.symm.trans again)
  exact saved.1 after.projects

theorem lineNew_inSync_iff (sync : InSync session)
    (taken : lineNew session project filename = some next) :
    InSync next ↔ Careful session (.lineNew project filename) := by
  obtain ⟨row, here, taken⟩ := Option.bind_eq_some_iff.1 taken
  split_ifs at taken with used
  obtain ⟨front, rest, whole, rfl⟩ := ListMove.exists_split here
  obtain rfl := Option.some.inj taken
  set row' : ProjectRow :=
    ⟨row.filename, row.xml ++ [filename], row.lines ++ [⟨filename, []⟩]⟩ with rowIs
  have store : (session.store.modify front.length fun row =>
      { row with xml := row.xml ++ [filename], lines := row.lines ++ [⟨filename, []⟩] }) = front ++
          row' :: rest := by
    rw [whole, ListMove.modify_split]
  have shown : row'.lineNames = row.lineNames ++ [filename] := List.map_append
  have saved := (whole ▸ sync.projects).save_iff (show row'.filename = row.filename from rfl)
    (row.xml ++ [filename])
  rw [shown, List.append_left_inj, ← store] at saved
  have rows : (⟨filename, []⟩ :: lineRows session.store).Perm (lineRows (front ++ row' :: rest)) := by
    rw [whole]
    refine ((lineRows_split front row rest).cons _).trans
      (.trans ?_ (lineRows_split front row' rest).symm)
    rw [← List.cons_append]
    exact (List.perm_append_singleton _ row.lines).symm.append_right _
  have lines := (sync.lines.new used).perm rows
  rw [← store] at lines
  refine ⟨fun after other again => ?_, fun careful => ⟨saved.2 (careful row here), lines, sync.keys⟩⟩
  obtain rfl := Option.some.inj (here.symm.trans again)
  exact saved.1 after.projects

theorem lineDelete_inSync_iff (sync : InSync session)
    (taken : lineDelete session project line = some next) :
    InSync next ↔ Careful session (.lineDelete project line) := by
  obtain ⟨row, here, taken⟩ := Option.bind_eq_some_iff.1 taken
  obtain ⟨entry, there, taken⟩ := Option.bind_eq_some_iff.1 taken
  have asked : Careful session (.lineDelete project line) ↔
      entry.filename ∈ row.xml ∧ row.xml.erase entry.filename = row.lineNames.eraseIdx line := by
    refine ⟨fun careful => careful row entry here there, fun both other one again found => ?_⟩
    obtain rfl := Option.some.inj (here.symm.trans again)
    obtain rfl := Option.some.inj (there.symm.trans found)
    exact both
  rw [asked]
  obtain ⟨front, rest, whole, rfl⟩ := ListMove.exists_split here
  have kept : ProjectsKept session.dir.projects (front ++ row :: rest) := whole ▸ sync.projects
  have lines := (whole ▸ sync.lines).perm (lineRows_erase there front rest)
  split_ifs at taken with listed
  · obtain rfl := Option.some.inj taken
    set row' : ProjectRow :=
      ⟨row.filename, row.xml.erase entry.filename, row.lines.eraseIdx line⟩ with rowIs
    have store : (session.store.modify front.length fun row =>
        { row with xml := row.xml.erase entry.filename, lines := row.lines.eraseIdx line }) =
            front ++ row' :: rest := by
      rw [whole, ListMove.modify_split]
    have shown : row'.lineNames = row.lineNames.eraseIdx line := (List.eraseIdx_map ..).symm
    have saved := kept.save_iff (show row'.filename = row.filename from rfl)
      (row.xml.erase entry.filename)
    rw [shown, ← store] at saved
    have rows := lines.deleted.perm (lineRows_split front row' rest).symm
    rw [← store] at rows
    exact ⟨fun after => ⟨listed, saved.1 after.projects⟩, fun both =>
      ⟨saved.2 both.2, rows, sync.keys⟩⟩
  · obtain rfl := Option.some.inj taken
    refine iff_of_false (fun after => ?_) fun both => listed both.1
    -- The file still names the line, which is not shown any more.
    have store : (session.store.modify front.length fun row =>
        { row with lines := row.lines.eraseIdx line }) = front ++
            ⟨row.filename, row.xml, row.lines.eraseIdx line⟩ :: rest := by
      rw [whole, ListMove.modify_split]
    have mine := after.projects.listed ⟨row.filename, row.xml, row.lines.eraseIdx line⟩
      (store ▸ List.mem_append_right front List.mem_cons_self)
    have before := kept.listed row (List.mem_append_right front List.mem_cons_self)
    have lengths : row.lines.length = (row.lines.eraseIdx line).length := by
      have same := Option.some.inj (before.symm.trans mine)
      simpa [ProjectRow.lineNames] using congrArg List.length same
    have inside := (List.getElem?_eq_some_iff.1 there).1
    rw [List.length_eraseIdx_of_lt inside] at lengths
    omega

/-- **A line saved with other flows**: which ones may be saved, next to those of the other lines. -/
theorem saveFlows_inSync (sync : InSync session) (here : session.store[project]? = some row)
    (there : row.lines[line]? = some entry) :
    ∃ others : List Text, (entry.flows ++ others).Nodup ∧
      (∀ flow ∈ entry.flows ++ others, flow ∈ session.dir.flows) ∧ ∀ listing after :
        List Text, (listing ++ others).Nodup → (∀ flow ∈ listing ++ others, flow ∈ after) → InSync
          { saveFlows session project line entry listing with dir :=
          { (saveFlows session project line entry listing).dir with flows := after } } := by
  obtain ⟨front, rest, whole, rfl⟩ := ListMove.exists_split here
  obtain ⟨before, behind, inside, rfl⟩ := ListMove.exists_split there
  have lines := (whole ▸ sync.lines).perm (lineRows_erase there front rest)
  refine ⟨_, lines.single, lines.present, fun listing after single present => ⟨?_, ?_, sync.keys⟩⟩
  all_goals
    have store : (session.store.modify front.length fun row =>
        { row with lines := row.lines.modify before.length fun entry =>
          { entry with flows := listing } }) =
        front ++ ⟨row.filename, row.xml, before ++ ⟨entry.filename, listing⟩ :: behind⟩ :: rest := by
      rw [whole, ListMove.modify_split, inside, ListMove.modify_split]
  · show ProjectsKept session.dir.projects (session.store.modify front.length _)
    rw [store]
    have kept : ProjectsKept session.dir.projects (front ++ row :: rest) := whole ▸ sync.projects
    have same : row.lineNames = (before ++ ⟨entry.filename, listing⟩ :: behind).map
        LineRow.filename := by
      simp [ProjectRow.lineNames, inside]
    refine ⟨fun one member => ?_, fun filename member => ?_, kept.files, ?_⟩
    · rcases List.mem_cons.1 (List.perm_middle.mem_iff.1 member) with rfl | elsewhere
      · exact (kept.listed row (List.mem_append_right front List.mem_cons_self)).trans
          (congrArg some same)
      · exact kept.listed one (List.perm_middle.mem_iff.2 (List.mem_cons_of_mem row elsewhere))
    · simpa using kept.complete filename member
    · simpa using kept.distinct
  · show LinesKept (put entry.filename listing session.dir.lines) after
      (lineRows (session.store.modify front.length _))
    rw [store]
    refine (lines.saved single present).perm (.trans ?_ (lineRows_split front _ rest).symm)
    rw [inside, ListMove.eraseIdx_split, ← List.cons_append]
    exact List.perm_middle.symm.append_right _

theorem flowNew_inSync (sync : InSync session)
    (taken : flowNew session project line filename = some next) : InSync next := by
  obtain ⟨row, here, taken⟩ := Option.bind_eq_some_iff.1 taken
  obtain ⟨entry, there, taken⟩ := Option.bind_eq_some_iff.1 taken
  split_ifs at taken with used
  obtain rfl := Option.some.inj taken
  obtain ⟨others, single, present, saved⟩ := saveFlows_inSync sync here there
  have order : (entry.flows ++ [filename] ++ others).Perm (filename :: (entry.flows ++ others)) := by
    rw [List.append_assoc]
    exact List.perm_middle
  refine saved _ _
    (order.nodup_iff.2 (List.nodup_cons.2 ⟨fun member => used (present _ member), single⟩)) ?_
  intro flow member
  rcases List.mem_cons.1 (order.mem_iff.1 member) with rfl | before
  · exact List.mem_append_right _ (List.mem_singleton_self flow)
  · exact List.mem_append_left _ (present flow before)

theorem flowDelete_inSync {flow : ℕ} (sync : InSync session)
    (taken : flowDelete session project line flow = some next) : InSync next := by
  obtain ⟨row, here, taken⟩ := Option.bind_eq_some_iff.1 taken
  obtain ⟨entry, there, taken⟩ := Option.bind_eq_some_iff.1 taken
  obtain ⟨filename, found, taken⟩ := Option.bind_eq_some_iff.1 taken
  obtain rfl := Option.some.inj taken
  obtain ⟨others, single, present, saved⟩ := saveFlows_inSync sync here there
  have member : filename ∈ entry.flows := List.mem_of_getElem? found
  have order : (entry.flows ++ others).Perm (filename :: (entry.flows.erase filename ++ others)) :=
    (List.perm_cons_erase member).append_right others
  have apart := List.nodup_cons.1 (order.nodup_iff.1 single)
  refine saved _ _ apart.2 fun other left => List.mem_filter.2 ⟨?_, decide_eq_true ?_⟩
  · exact present other (order.mem_iff.2 (List.mem_cons_of_mem filename left))
  · exact fun same => apart.1 (List.mem_singleton.1 same ▸ left)

theorem reordered_perm {α : Type} (before : Bool) (source target : ℕ) (list : List α) :
    ((if before then ListMove.moveBefore else ListMove.moveAfter) source target list).Perm list := by
  cases before
  · exact ListMove.moveAfter_perm source target list
  · exact ListMove.moveBefore_perm source target list

theorem reorderFlows_inSync {source target : ℕ} {before : Bool} (sync : InSync session)
    (taken : reorderFlows session project line source target before = some next) : InSync next := by
  obtain ⟨row, here, taken⟩ := Option.bind_eq_some_iff.1 taken
  obtain ⟨entry, there, taken⟩ := Option.bind_eq_some_iff.1 taken
  obtain rfl := Option.some.inj taken
  obtain ⟨others, single, present, saved⟩ := saveFlows_inSync sync here there
  have whole := (reordered_perm before source target entry.flows).append_right others
  exact saved _ session.dir.flows (whole.nodup_iff.2 single) fun flow member =>
    present flow (whole.mem_iff.1 member)

theorem projectReorder_inSync {source target : ℕ} {before : Bool} (sync : InSync session)
    (taken : projectReorder session source target before = some next) : InSync next := by
  obtain rfl := Option.some.inj taken
  have order := reordered_perm before source target session.store
  exact ⟨sync.projects.perm order.symm, sync.lines.perm (order.flatMap_right _).symm, sync.keys⟩

end Steps

section Drag

variable {session next : Session} {project line : ℕ} {row target : ProjectRow} {entry : LineRow}

theorem lineNames_nodup (sync : InSync session) (member : row ∈ session.store) :
    row.lineNames.Nodup := by
  obtain ⟨front, rest, whole⟩ := List.append_of_mem member
  have lines := ((whole ▸ sync.lines).perm (lineRows_split front row rest)).distinct
  rw [List.map_append] at lines
  exact lines.of_append_left

/-- A reference put next to the one at a place. -/
theorem placed_at {list : List Text} {place : ℕ} {name : Text} (nodup : list.Nodup)
    (here : list[place]? = some name) (before : Bool) (l : Text) :
    placed (some (name, before)) l list = insertAt (if before then place else place + 1) l list := by
  have index : list.idxOf name = place := by
    obtain ⟨inside, rfl⟩ := List.getElem?_eq_some_iff.1 here
    exact nodup.idxOf_getElem place inside
  simp only [placed, if_pos (List.mem_of_getElem? here), index]

/-- A line dropped on itself comes to the end of the file. -/
theorem placed_self {list : List Text} {line : ℕ} {l : Text} (nodup : list.Nodup)
    (here : list[line]? = some l) (before : Bool) :
    placed (some (l, before)) l (list.eraseIdx line) = list.eraseIdx line ++ [l] ∧
      (list.eraseIdx line ++ [l] = insertAt line l (list.eraseIdx line) ↔ list.length =
      line + 1) := by
  obtain ⟨front, rest, rfl, rfl⟩ := ListMove.exists_split here
  have away : l ∉ front ++ rest := (List.nodup_cons.1 (List.nodup_middle.1 nodup)).1
  rw [ListMove.eraseIdx_split]
  refine ⟨?_, ?_⟩
  · simp only [placed, if_neg away, true_or, if_true]
  · rw [ListMove.insertAt_append_right l rest le_rfl, Nat.sub_self, List.append_assoc,
      List.append_right_inj]
    show rest ++ [l] = l :: rest ↔ _
    rw [List.length_append, List.length_cons]
    cases rest with
    | nil => exact iff_of_true rfl rfl
    | cons first rest =>
      refine iff_of_false (fun same => away ?_) (by simp)
      obtain ⟨rfl, -⟩ := List.cons.inj same
      exact List.mem_append_right front List.mem_cons_self

theorem placed_perm (beside : Option (Text × Bool)) (l : Text) (list : List Text) :
    (placed beside l list).Perm (l :: list) := by
  unfold placed
  split
  · exact List.perm_append_singleton l list
  · split_ifs
    · exact ListMove.insertAt_perm _ l list
    · exact ListMove.insertAt_perm _ l list
    · exact List.perm_append_singleton l list
    · exact List.Perm.refl _

/-- **A row that is carried is taken out first**: the rows without the line, and the line put into
one of them. -/
theorem carried_eq {front rest : List ProjectRow} (here : row.lines[line]? = some entry) {other place : ℕ}
    (there : (front ++ row :: rest)[other]? = some target) (inside : place ≤ target.lines.length) :
    ∃ front' target' rest',
      front ++ { row with lines := row.lines.eraseIdx line } :: rest = front' ++ target' :: rest' ∧ front'.length = other ∧
      target'.filename = target.filename ∧ (target' = if other = front.length then { row with lines := row.lines.eraseIdx line } else target) ∧
      carried (front ++ row :: rest) front.length line other place entry =
        front' ++ { target' with
          lines := insertAt (if other = front.length ∧ line < place then place - 1 else place) entry target'.lines } ::
            rest' := by
  by_cases same : other = front.length
  · subst same
    obtain rfl : row = target := by
      rw [List.getElem?_append_right le_rfl, Nat.sub_self] at there
      exact Option.some.inj there
    refine ⟨front, _, rest, rfl, rfl, rfl, (if_pos rfl).symm, ?_⟩
    have long := (List.getElem?_eq_some_iff.1 here).1
    unfold carried
    rw [ListMove.modify_split, ListMove.modify_split]
    by_cases order : line < place
    · rw [if_neg (by omega), if_pos ⟨rfl, order⟩, ListMove.eraseIdx_insertAt_behind entry order inside]
    · rw [if_pos ⟨rfl, Nat.le_of_not_lt order⟩, if_neg (by omega),
        ListMove.eraseIdx_insertAt_front entry (Nat.le_of_not_lt order) long]
  · have taken := ListMove.modify_split front row rest fun row => { row with lines := row.lines.eraseIdx line }
    have still : (front ++ { row with lines := row.lines.eraseIdx line } :: rest)[other]? = some target := by
      rw [← taken, List.getElem?_modify_ne _ _ (Ne.symm same)]
      exact there
    obtain ⟨front', rest', whole, rfl⟩ := ListMove.exists_split still
    refine ⟨front', target, rest', whole, rfl, rfl, (if_neg same).symm, ?_⟩
    unfold carried
    rw [if_neg (fun both => same both.1), if_neg (fun both => same both.1), List.modify_modify_ne _ _ _ same, taken, whole,
      ListMove.modify_split]

theorem projectLineMove_eq {dir : DataDir} {srcProject srcLine dstProject : Text}
    {src dst : List Text} (found : get srcProject dir.projects = some src)
    (loaded : get dstProject (put srcProject (src.erase srcLine) dir.projects) = some dst)
    (beside : Option (Text × Bool)) : projectLineMove dir srcProject srcLine dstProject beside =
      some ((dir.saveProject srcProject (src.erase srcLine)).saveProject dstProject
      (placed beside srcLine dst)) := by
  unfold projectLineMove
  rw [found]
  show (get dstProject (put srcProject (src.erase srcLine) dir.projects)).bind _ = _
  rw [loaded]
  rfl

/-- **A line moved in files that are in step**: it is taken out of its project's file and put into
the other one. -/
theorem ProjectsKept.moved {dir : DataDir} {front rest : List ProjectRow}
    (kept : ProjectsKept dir.projects (front ++ row :: rest)) (nodup : row.lineNames.Nodup)
    (there : row.lines[line]? = some entry)
    (member : target ∈ front ++ { row with lines := row.lines.eraseIdx line } :: rest)
    (beside : Option (Text × Bool)) :
      projectLineMove dir row.filename entry.filename target.filename beside =
        some ((dir.saveProject row.filename (row.lineNames.eraseIdx line)).saveProject target.filename
        (placed beside entry.filename target.lineNames)) := by
  have erased : row.lineNames.erase entry.filename = row.lineNames.eraseIdx line := by
    have named : row.lineNames[line]? = some entry.filename := by
      rw [ProjectRow.lineNames, List.getElem?_map, there, Option.map_some]
    obtain ⟨inside, same⟩ := List.getElem?_eq_some_iff.1 named
    rw [← same, nodup.erase_getElem line inside]
  have loaded := (kept.taken line).listed target member
  rw [← erased] at loaded ⊢
  exact projectLineMove_eq (kept.listed row (List.mem_append_right front List.mem_cons_self))
    loaded beside

/-- **Where a line is dropped in its own project**: next to another line, the file and the rows
agree. -/
theorem placed_within {list : List Text} {line place : ℕ} {name l : Text} (nodup : list.Nodup)
    (apart : place ≠ line) (there : list[place]? = some name) (before : Bool) :
    placed (some (name, before)) l (list.eraseIdx line) =
      insertAt (if line < (if before then place else place + 1) then
        (if before then place else place + 1) - 1 else (if before then place else place + 1)) l
        (list.eraseIdx line) := by
  have kept : (list.eraseIdx line)[if line < place then place - 1 else place]? = some name := by
    rw [List.getElem?_eraseIdx]
    by_cases order : line < place
    · rw [if_pos order, if_neg (by omega), Nat.sub_add_cancel (by omega)]
      exact there
    · rw [if_neg order, if_pos (by omega)]
      exact there
  rw [placed_at (nodup.sublist (List.eraseIdx_sublist list line)) kept]
  congr 1
  cases before
  · simp only [Bool.false_eq_true, if_false]
    split_ifs <;> omega
  · simp only [if_true]

/-- They agree after a drop on the line itself only where it is the last one. -/
theorem placed_own_iff {list : List Text} {line place : ℕ} {name l : Text} (nodup : list.Nodup)
    (here : list[line]? = some l) (there : list[place]? = some name) (before : Bool) :
    placed (some (name, before)) l (list.eraseIdx line) =
        insertAt (if line < (if before then place else place + 1) then
          (if before then place else place + 1) - 1 else (if before then place else place + 1)) l
      (list.eraseIdx line) ↔ (place = line → list.length = line + 1) := by
  by_cases self : place = line
  · subst self
    obtain rfl := Option.some.inj (there.symm.trans here)
    obtain ⟨last, same⟩ := placed_self nodup here before
    have index : (if place < (if before then place else place + 1) then
      (if before then place else place + 1) - 1
        else (if before then place else place + 1)) = place := by
      cases before <;> simp
    rw [index, last, same]
    exact ⟨fun last _ => last, fun rule => rule rfl⟩
  · exact iff_of_true (placed_within nodup self there before) fun again => absurd again self

/-- **What a drag does**: the line is taken out of the file and the row of its project, and put into
those of the other one; at the same place, unless it was dropped on itself. -/
theorem lineReorder_spec {drop : Drop} (sync : InSync session)
    (taken : lineReorder session project line drop = some next) :
    ∃ row entry target front rest front' rest' listing place,
      session.store = front ++ row :: rest ∧ front.length = project ∧ row.lines[line]? = some entry ∧
      front ++ { row with lines := row.lines.eraseIdx line } :: rest = front' ++ target :: rest' ∧
      front'.length = drop.project ∧
      next = { session with
        dir := (session.dir.saveProject row.filename (row.lineNames.eraseIdx line)).saveProject target.filename listing
        store := front' ++ { target with lines := insertAt place entry target.lines } :: rest' } ∧
      listing.Perm (entry.filename :: target.lineNames) ∧
      (listing = insertAt place entry.filename target.lineNames ↔ Careful session (.lineReorder project line drop)) := by
  obtain ⟨row, here, taken⟩ := Option.bind_eq_some_iff.1 taken
  obtain ⟨entry, there, taken⟩ := Option.bind_eq_some_iff.1 taken
  obtain ⟨goal, found, taken⟩ := Option.bind_eq_some_iff.1 taken
  obtain ⟨front, rest, whole, rfl⟩ := ListMove.exists_split here
  have kept : ProjectsKept session.dir.projects (front ++ row :: rest) := whole ▸ sync.projects
  have nodup : row.lineNames.Nodup := lineNames_nodup sync (List.mem_of_getElem? here)
  have named : row.lineNames[line]? = some entry.filename := by
    rw [ProjectRow.lineNames, List.getElem?_map, there, Option.map_some]
  rw [whole] at found
  -- In its own project the line is missing when it is put back.
  have goalIs : drop.project = front.length → goal = row := fun same => by
    rw [same, List.getElem?_append_right le_rfl, Nat.sub_self] at found
    exact (Option.some.inj found).symm
  cases drop with
  | into other =>
    have goalIs : other = front.length → goal = row := goalIs
    obtain ⟨front', target, rest', whole', rfl, same, targetIs, carries⟩ :=
      carried_eq there (show (front ++ row :: rest)[other]? = some goal from found) le_rfl
    have ends : target.lines.length = if front'.length = front.length ∧ line < goal.lines.length then
        goal.lines.length - 1 else goal.lines.length := by
      split_ifs at targetIs with own
      · have inside := (List.getElem?_eq_some_iff.1 there).1
        rw [targetIs, goalIs own, if_pos ⟨own, inside⟩, List.length_eraseIdx_of_lt inside]
      · rw [targetIs, if_neg fun both => own both.1]
    obtain ⟨dir, moved, result⟩ := Option.bind_eq_some_iff.1 taken
    rw [← same, kept.moved nodup there (whole' ▸ List.mem_append_right front' List.mem_cons_self)] at moved
    obtain rfl := Option.some.inj moved
    refine ⟨row, entry, target, front, rest, front', rest', placed none entry.filename target.lineNames,
      target.lines.length, whole, rfl, there, whole', rfl, ?_, List.perm_append_singleton _ _, iff_of_true ?_ trivial⟩
    · rw [← Option.some.inj result, whole, carries, ← ends]
    · have long : target.lines.length = target.lineNames.length := (List.length_map ..).symm
      rw [long, ListMove.insertAt_end]
      rfl
  | beside other place before =>
    have goalIs : other = front.length → goal = row := goalIs
    obtain ⟨mark, marked, taken⟩ := Option.bind_eq_some_iff.1 taken
    have inside := (List.getElem?_eq_some_iff.1 marked).1
    have bound : (if before then place else place + 1) ≤ goal.lines.length := by
      cases before
      · exact inside
      · exact inside.le
    obtain ⟨front', target, rest', whole', rfl, same, targetIs, carries⟩ :=
      carried_eq there (show (front ++ row :: rest)[other]? = some goal from found) bound
    obtain ⟨dir, moved, result⟩ := Option.bind_eq_some_iff.1 taken
    rw [← same, kept.moved nodup there (whole' ▸ List.mem_append_right front' List.mem_cons_self)] at moved
    obtain rfl := Option.some.inj moved
    have markName : goal.lineNames[place]? = some mark.filename := by
      rw [ProjectRow.lineNames, List.getElem?_map, marked, Option.map_some]
    set spot := if front'.length = front.length ∧ line < (if before = true then place else place + 1) then
      (if before = true then place else place + 1) - 1 else if before = true then place else place + 1 with spotIs
    have asked : Careful session (.lineReorder front.length line (.beside front'.length place before)) ↔
        (front'.length = front.length → place = line → row.lines.length = line + 1) :=
      ⟨fun careful first second => careful first second row here, fun rule first second other again =>
        Option.some.inj (here.symm.trans again) ▸ rule first second⟩
    refine ⟨row, entry, target, front, rest, front', rest',
      placed (some (mark.filename, before)) entry.filename target.lineNames, spot, whole, rfl, there, whole', rfl, ?_, ?_,
      ?_⟩
    · rw [← Option.some.inj result, whole, carries]
    · exact placed_perm _ _ _
    · rw [asked]
      split_ifs at targetIs with own
      · have names : target.lineNames = row.lineNames.eraseIdx line := by
          rw [targetIs]
          exact (List.eraseIdx_map ..).symm
        have long : row.lineNames.length = row.lines.length := List.length_map ..
        rw [goalIs own] at markName
        rw [names, spotIs]
        simp only [own, true_and, true_implies]
        rw [placed_own_iff nodup named markName before, long]
      · refine iff_of_true ?_ fun again => absurd again own
        have names := lineNames_nodup sync (show goal ∈ session.store from whole ▸ List.mem_of_getElem? found)
        rw [targetIs, spotIs, if_neg fun both => own both.1, placed_at names markName]

/-- A drag changes where lines are shown, and none of them. -/
theorem lineReorder_rows {drop : Drop} (sync : InSync session)
    (taken : lineReorder session project line drop = some next) :
    (lineRows session.store).Perm (lineRows next.store) := by
  obtain ⟨row, entry, target, front, rest, front', rest', listing, place, whole, -, there, whole',
      -, rfl, -, -⟩ :=
    lineReorder_spec sync taken
  have out : (lineRows session.store).Perm (entry :: lineRows (front' ++ target :: rest')) := by
    rw [whole, ← whole']
    exact lineRows_taken there front rest
  exact out.trans (lineRows_put place entry front' target rest').symm

theorem lineReorder_inSync_iff {drop : Drop} (sync : InSync session)
    (taken : lineReorder session project line drop = some next) :
    InSync next ↔ Careful session (.lineReorder project line drop) := by
  have lines := sync.lines.perm (lineReorder_rows sync taken)
  obtain ⟨row, entry, target, front, rest, front', rest', listing, place, whole, rfl, there, whole',
      -, rfl, -, rule⟩ :=
    lineReorder_spec sync taken
  have kept := (whole ▸ sync.projects : ProjectsKept _ (front ++ row :: rest)).taken line
  rw [whole'] at kept
  have saved := kept.save_iff
    (show ({ target with lines := insertAt place entry target.lines } : ProjectRow).filename =
      target.filename from rfl)
    listing
  have after : ({ target with lines := insertAt place entry target.lines } : ProjectRow).lineNames =
      insertAt place entry.filename target.lineNames := ListMove.map_insertAt ..
  rw [after] at saved
  rw [← rule]
  exact ⟨fun after => saved.1 after.projects, fun same => ⟨saved.2 same, lines, sync.keys⟩⟩

end Drag

section Start

variable {session : Session} {row : ProjectRow}

/-- A row whose document is as its file. -/
def ProjectRow.reloaded (row : ProjectRow) : ProjectRow := { row with xml := row.lineNames }

theorem listing_of_inSync {projects : List (Text × List Text)} {store : List ProjectRow}
    (kept : ProjectsKept projects store) {filename : Text} {xml : List Text}
    (found : get filename projects = some xml) : ∃ row ∈ store, row.filename = filename ∧ xml =
    row.lineNames := by
  obtain ⟨row, member, rfl⟩ := List.mem_map.1 (kept.complete filename (mem_names_of_get found))
  exact ⟨row, member, rfl, Option.some.inj (found.symm.trans (kept.listed row member))⟩

theorem present_of_inSync (sync : InSync session) : Present session.dir := by
  intro filename xml found line listed
  obtain ⟨row, member, -, rfl⟩ := listing_of_inSync sync.projects found
  obtain ⟨entry, there, rfl⟩ := List.mem_map.1 listed
  rw [sync.lines.listed entry (List.mem_flatMap.2 ⟨row, member, there⟩)]
  rfl

theorem projectRow_of_inSync (sync : InSync session) (member : row ∈ session.store) :
    projectRow session.dir row.filename = some row.reloaded := by
  have rows : row.lineNames.filterMap (lineRow session.dir) = row.lines := by
    rw [ProjectRow.lineNames, List.filterMap_map]
    refine (List.filterMap_congr fun entry there => ?_).trans List.filterMap_some
    have found := sync.lines.listed entry (List.mem_flatMap.2 ⟨row, member, there⟩)
    show (get entry.filename session.dir.lines).map _ = some entry
    rw [found]
    rfl
  rw [projectRow, sync.projects.listed row member, Option.map_some, rows]
  rfl

/-- A line that a project file names, and that has its own file, is shown when the program is
started. -/
theorem shown_start (present : Present session.dir) {filename line : Text} {xml flows : List Text}
    (loaded : get filename session.dir.projects = some xml) (listed : line ∈ xml)
    (filed : get line session.dir.lines = some flows) :
    ⟨line, flows⟩ ∈ lineRows (start session).store := by
  have row : projectRow session.dir filename =
      some ⟨filename, xml, xml.filterMap (lineRow session.dir)⟩ := by
    rw [projectRow, loaded, Option.map_some]
  rw [start_loaded present]
  refine List.mem_flatMap.2 ⟨_, List.mem_filterMap.2 ⟨filename, ?_, row⟩, ?_⟩
  · by_cases key : filename ∈ session.keys
    · exact List.mem_append_left _ key
    · exact List.mem_append_right _ (List.mem_filter.2 ⟨mem_names_of_get loaded, decide_eq_true key⟩)
  · refine List.mem_filterMap.2 ⟨line, listed, ?_⟩
    rw [lineRow, filed]
    rfl

/-- The rows of the projects of some files, each of which is shown. -/
theorem filterMap_projectRow (sync : InSync session) :
    (session.store.map ProjectRow.filename).filterMap (projectRow session.dir) =
    session.store.map ProjectRow.reloaded := by
  rw [List.filterMap_map]
  exact (List.filterMap_congr fun row member => projectRow_of_inSync sync member).trans
    (congrFun (@List.filterMap_eq_map _ _ ProjectRow.reloaded) _)

/-- **A session in step is shown again as it was**, in the same order, when its configuration has
been saved. -/
theorem start_store (sync : InSync session) :
    (start (gebrConfigSave session)).store = session.store.map ProjectRow.reloaded := by
  have others : ((names session.dir.projects).filter fun filename =>
      filename ∉ (gebrConfigSave session).keys) = [] :=
    List.filter_eq_nil_iff.2 fun filename member away => of_decide_eq_true away
      (sync.projects.complete filename member)
  have present : Present session.dir := present_of_inSync sync
  refine (congrArg Session.store (@start_loaded (gebrConfigSave session) present)).trans ?_
  show ((gebrConfigSave session).keys ++ (names session.dir.projects).filter fun filename =>
    filename ∉ (gebrConfigSave session).keys).filterMap (projectRow session.dir) = _
  rw [others, List.append_nil]
  exact filterMap_projectRow sync

theorem start_perm (sync : InSync session) :
    (start session).store.Perm (session.store.map ProjectRow.reloaded) := by
  rw [congrArg Session.store (start_loaded (present_of_inSync sync)), ← filterMap_projectRow sync]
  show ((session.keys ++ (names session.dir.projects).filter fun filename =>
    filename ∉ session.keys).filterMap (projectRow session.dir)).Perm _
  have known : ∀ filename, filename ∉ names session.dir.projects → projectRow session.dir filename =
      none := by
    intro filename away
    unfold projectRow
    cases found : get filename session.dir.projects with
    | none => rfl
    | some xml => exact absurd (mem_names_of_get found) away
  -- The projects of the configuration whose files are gone are passed over.
  have passed : ∀ filenames : List Text, filenames.filterMap (projectRow session.dir) =
      (filenames.filter fun filename => filename ∈ names session.dir.projects).filterMap
          (projectRow session.dir) := by
    intro filenames
    rw [List.filterMap_filter]
    refine List.filterMap_congr fun filename _ => ?_
    by_cases there : filename ∈ names session.dir.projects
    · rw [if_pos (decide_eq_true there)]
    · rw [if_neg (by simpa using there), known filename there]
  rw [passed]
  refine List.Perm.filterMap _
    ((List.perm_ext_iff_of_nodup ?_ sync.projects.distinct).2 fun filename => ?_)
  · refine List.Nodup.filter _ (List.nodup_append'.2 ⟨sync.keys, sync.projects.files.filter _, ?_⟩)
    intro filename first second
    exact of_decide_eq_true (List.mem_filter.1 second).2 first
  · have shown : filename ∈ names session.dir.projects ↔
        filename ∈ session.store.map ProjectRow.filename := by
      refine ⟨sync.projects.complete filename, fun member => ?_⟩
      obtain ⟨row, there, rfl⟩ := List.mem_map.1 member
      exact mem_names_of_get (sync.projects.listed row there)
    rw [List.mem_filter, ← shown]
    by_cases key : filename ∈ session.keys <;> simp [key]

theorem start_dir (sync : InSync session) : (start session).dir = session.dir :=
  by rw [start_loaded (present_of_inSync sync)]

theorem reloaded_inSync (sync : InSync session) :
    ProjectsKept session.dir.projects (session.store.map ProjectRow.reloaded) ∧
      lineRows (session.store.map ProjectRow.reloaded) = lineRows session.store := by
  have filenames : (session.store.map ProjectRow.reloaded).map ProjectRow.filename =
      session.store.map ProjectRow.filename := List.map_map
  refine ⟨⟨fun row member => ?_, fun filename member => filenames ▸ sync.projects.complete
    filename member, sync.projects.files, filenames ▸ sync.projects.distinct⟩, List.flatMap_map ..⟩
  obtain ⟨one, there, rfl⟩ := List.mem_map.1 member
  exact sync.projects.listed one there

theorem start_inSync (sync : InSync session) : InSync (start session) := by
  obtain ⟨projects, rows⟩ := reloaded_inSync sync
  have order := start_perm sync
  refine ⟨start_dir sync ▸ projects.perm order.symm, ?_, sync.keys⟩
  rw [start_dir sync]
  exact sync.lines.perm (rows ▸ (order.flatMap_right _).symm)

theorem gebrConfigSave_inSync (sync : InSync session) : InSync (gebrConfigSave session) :=
  ⟨sync.projects, sync.lines, sync.projects.distinct⟩

end Start

section Runs

variable {session next : Session}

/-- Two projects; the first one has a line with one flow. -/
def twoProjects : Session where
  dir := ⟨[(ascii "a.prj", [ascii "l.lne"]), (ascii "b.prj", [])],
    [(ascii "l.lne", [ascii "f.flw"])], [ascii "f.flw"]⟩
  store := [⟨ascii "a.prj", [ascii "l.lne"], [⟨ascii "l.lne", [ascii "f.flw"]⟩]⟩,
    ⟨ascii "b.prj", [], []⟩]
  keys := [ascii "a.prj", ascii "b.prj"]

theorem twoProjects_inSync : InSync twoProjects :=
  ⟨⟨by decide, by decide, by decide, by decide⟩, ⟨by decide, by decide, by decide, by decide⟩, by
    decide⟩

/-- **A step keeps the session in step just when it is careful.** -/
theorem step_inSync_iff {op : Op} (sync : InSync session) (taken : step session op = some next) :
    InSync next ↔ Careful session op := by
  cases op with
  | projectNew filename => exact iff_of_true (projectNew_inSync sync taken) trivial
  | projectDelete project => exact iff_of_true (projectDelete_inSync sync taken) trivial
  | projectSave project => exact projectSave_inSync_iff sync taken
  | projectReorder source target before =>
    exact iff_of_true (projectReorder_inSync sync taken) trivial
  | lineNew project filename => exact lineNew_inSync_iff sync taken
  | lineDelete project line => exact lineDelete_inSync_iff sync taken
  | lineReorder project line drop => exact lineReorder_inSync_iff sync taken
  | flowNew project line filename => exact iff_of_true (flowNew_inSync sync taken) trivial
  | flowDelete project line flow => exact iff_of_true (flowDelete_inSync sync taken) trivial
  | reorderFlows project line source target before =>
    exact iff_of_true (reorderFlows_inSync sync taken) trivial
  | gebrConfigSave => exact iff_of_true (Option.some.inj taken ▸ gebrConfigSave_inSync sync) trivial
  | start => exact iff_of_true (Option.some.inj taken ▸ start_inSync sync) trivial

/-- **A run is in step all the way just when its steps are careful**, and can be taken. -/
theorem inSync_iff_careful (sync : InSync session) (ops : List Op) :
    (∀ before, before <+: ops → ∃ state, Run.run step session before = some state ∧ InSync state) ↔
      Run.Guarded step (fun state op => (step state op).isSome = true ∧ Careful state op)
      session ops := by
  refine @Run.stays_iff_guarded _ _ step _ (fun _ => True) InSync (fun _ _ _ _ _ => trivial) ?_
    session ops trivial sync
  intro state op _ good
  constructor
  · rintro ⟨next, taken, after⟩
    exact ⟨Option.isSome_iff_exists.2 ⟨next, taken⟩, (step_inSync_iff good taken).1 after⟩
  · rintro ⟨possible, careful⟩
    obtain ⟨next, taken⟩ := Option.isSome_iff_exists.1 possible
    exact ⟨next, taken, (step_inSync_iff good taken).2 careful⟩

/-- A drag, and a line that is made in the project. -/
theorem inSync_iff_careful_twoProjects :
    ¬ ∀ before, before <+: [.lineReorder 0 0 (.into 1), .lineNew 1 (ascii "n.lne")] → ∃ state,
    Run.run step twoProjects before = some state ∧ InSync state := by
  intro always
  have guarded := (inSync_iff_careful twoProjects_inSync _).1 always
  have careful := (guarded.2 _ rfl).1.2 _ rfl
  exact absurd careful (by decide)

/-- **What is shown is shown again** after a run of careful steps, when the configuration is saved
and the program is started. -/
theorem start_shows {final : Session} {ops : List Op} (sync : InSync session)
    (careful : Run.Guarded step (fun state op => (step state op).isSome = true ∧ Careful state op)
    session ops) (reaches : Run.run step session ops = some final) :
    shown (start (gebrConfigSave final)).store = shown final.store := by
  have after : InSync final :=
    Run.guarded_invariant (fun _ _ _ good both taken => (step_inSync_iff good taken).2 both.2) sync
      careful reaches
  rw [start_store after, shown, List.map_map]
  rfl

/-- The line dragged into the second project. -/
def lineDragged : Session where
  dir := ⟨[(ascii "a.prj", []), (ascii "b.prj", [ascii "l.lne"])],
    [(ascii "l.lne", [ascii "f.flw"])], [ascii "f.flw"]⟩
  store := [⟨ascii "a.prj", [ascii "l.lne"], []⟩,
    ⟨ascii "b.prj", [], [⟨ascii "l.lne", [ascii "f.flw"]⟩]⟩]
  keys := [ascii "a.prj", ascii "b.prj"]

theorem start_shows_twoProjects :
    shown (start (gebrConfigSave lineDragged)).store = shown lineDragged.store := by
  have careful : Run.Guarded step (fun state op => (step state op).isSome = true ∧ Careful state op)
      twoProjects [.lineReorder 0 0 (.into 1)] := And.intro (And.intro (by decide) trivial)
        fun _ _ => trivial
  exact start_shows twoProjects_inSync careful (by decide)

end Runs

section Dragged

variable {session dragged final : Session} {project line : ℕ} {drop : Drop} {entry : LineRow}

theorem loadProjects_lines (dir : DataDir) (filenames : List Text) :
    (loadProjects dir filenames).1.lines = dir.lines ∧ (loadProjects dir filenames).1.flows =
    dir.flows := by
  induction filenames generalizing dir with
  | nil => exact ⟨rfl, rfl⟩
  | cons filename filenames ih =>
    unfold loadProjects
    cases get filename dir.projects with
    | none => exact ih dir
    | some xml =>
      have same : (projectLoadWithLines dir filename xml).1.lines = dir.lines ∧
          (projectLoadWithLines dir filename xml).1.flows = dir.flows := by
        unfold projectLoadWithLines
        split <;> exact ⟨rfl, rfl⟩
      exact ⟨(ih _).1.trans same.1, (ih _).2.trans same.2⟩

/-- The file of a line that is shown names its flows. -/
theorem shown_listed (sync : InSync session)
    (here : (session.store[project]?.bind fun row => row.lines[line]?) = some entry) :
    get entry.filename session.dir.lines = some entry.flows := by
  obtain ⟨row, there, below⟩ := Option.bind_eq_some_iff.1 here
  exact sync.lines.listed entry
    (List.mem_flatMap.2 ⟨row, List.mem_of_getElem? there, List.mem_of_getElem? below⟩)

/-- **A line dragged into another project**: what the files name then, and the project where it is
shown. -/
theorem dragged_spec (sync : InSync session) (fresh : ∀ row ∈ session.store, row.xml = row.lineNames)
    (here : (session.store[project]?.bind fun row => row.lines[line]?) = some entry)
    (apart : drop.project ≠ project) (moved : lineReorder session project line drop = some dragged) :
    ∃ (target : ProjectRow) (listing : List Text) (place : ℕ) (table : List (Text × List Text)),
      dragged.store[drop.project]? =
        some { target with lines := insertAt place entry target.lines } ∧
      dragged.dir = { session.dir with projects := put target.filename listing table } ∧
      listing.Perm (entry.filename :: target.lineNames) ∧ target.xml = target.lineNames ∧
      entry.filename ∉ target.lineNames ∧
      (∀ filename xml, get filename table = some xml → entry.filename ∉ xml ∧
        ∀ other ∈ xml, (get other session.dir.lines).isSome) ∧
      get target.filename table = some target.lineNames := by
  obtain ⟨row, one, target, front, rest, front', rest', listing, place, whole, rfl, there, whole',
      placeIs, rfl, order, -⟩ :=
    lineReorder_spec sync moved
  obtain rfl : one = entry := by
    rw [whole, List.getElem?_append_right le_rfl, Nat.sub_self] at here
    exact Option.some.inj (there.symm.trans here)
  have kept := (whole ▸ sync.projects : ProjectsKept _ (front ++ row :: rest)).taken line
  have lines : LinesKept session.dir.lines session.dir.flows
      (one :: lineRows (front ++ { row with lines := row.lines.eraseIdx line } :: rest)) :=
    (whole ▸ sync.lines).perm (lineRows_taken there front rest)
  have away : ∀ other ∈ front ++ { row with lines := row.lines.eraseIdx line } :: rest,
      one.filename ∉ other.lineNames := by
    intro other member listed
    obtain ⟨found, inside, same⟩ := List.mem_map.1 listed
    exact filename_ne_of_kept lines (List.mem_flatMap.2 ⟨other, member, inside⟩) same
  -- The other project is one that nothing was taken from.
  have still : session.store[front'.length]? = some target := by
    have now : (front ++ { row with lines := row.lines.eraseIdx line } :: rest)[front'.length]? =
        some target := by
      rw [whole', List.getElem?_append_right le_rfl, Nat.sub_self]
      rfl
    rw [← ListMove.modify_split front row rest fun row =>
      { row with lines := row.lines.eraseIdx line }, List.getElem?_modify_ne _ _
        (by rw [placeIs]; exact apart.symm)] at now
    rw [whole]
    exact now
  have member : target ∈ front ++ { row with lines := row.lines.eraseIdx line } :: rest :=
    whole' ▸ List.mem_append_right front' List.mem_cons_self
  refine ⟨target, listing, place, put row.filename (row.lineNames.eraseIdx line)
    session.dir.projects, ?_, rfl, order, fresh target (List.mem_of_getElem? still),
      away target member, fun filename xml found => ?_, kept.listed target member⟩
  · rw [← placeIs, List.getElem?_append_right le_rfl, Nat.sub_self]
    rfl
  · obtain ⟨other, inside, -, rfl⟩ := listing_of_inSync kept found
    refine ⟨away other inside, fun name listed => ?_⟩
    obtain ⟨shows, below, rfl⟩ := List.mem_map.1 listed
    rw [lines.tail.listed shows (List.mem_flatMap.2 ⟨other, inside, below⟩)]
    rfl

/-- **A line that is dragged, and a new one in its project**: no project names the dragged line any
more. It is shown until the program is started again, and its file stays. -/
theorem dragged_lost {filename : Text} (sync : InSync session)
    (fresh : ∀ row ∈ session.store, row.xml = row.lineNames)
    (here : (session.store[project]?.bind fun row => row.lines[line]?) = some entry)
    (apart : drop.project ≠ project) (moved : lineReorder session project line drop = some dragged)
    (made : lineNew dragged drop.project filename = some final) : entry ∈ lineRows final.store ∧
      (∀ row ∈ (start (gebrConfigSave final)).store, ∀ other ∈ row.lines, other.filename ≠
      entry.filename) ∧ get entry.filename (start (gebrConfigSave final)).dir.lines =
      some entry.flows := by
  obtain ⟨target, listing, place, table, found, dirIs, -, xmlIs, absent, others, -⟩ :=
    dragged_spec sync fresh here apart moved
  have listed := shown_listed sync here
  obtain ⟨row, again, made⟩ := Option.bind_eq_some_iff.1 made
  obtain rfl := Option.some.inj (found.symm.trans again)
  split_ifs at made with used
  obtain rfl := Option.some.inj made
  have other : entry.filename ≠ filename := by
    rintro rfl
    rw [dirIs] at used
    exact used (mem_names_of_get listed)
  refine ⟨?_, not_listed_start ?_, ?_⟩
  · obtain ⟨front, rest, whole, same⟩ := ListMove.exists_split found
    rw [whole, ← same, ListMove.modify_split]
    refine List.mem_flatMap.2
      ⟨_, List.mem_append_right front List.mem_cons_self, List.mem_append_left _ ?_⟩
    exact ListMove.mem_insertAt.2 (Or.inl rfl)
  · intro name xml loaded
    rw [dirIs] at loaded
    have loaded : get name
      (put target.filename (target.xml ++ [filename]) (put target.filename listing table)) =
        some xml := loaded
    by_cases mine : name = target.filename
    · subst mine
      rw [get_put_self] at loaded
      obtain rfl := Option.some.inj loaded
      rw [xmlIs, List.mem_append, List.mem_singleton]
      exact fun member => member.elim absent other
    · rw [get_put_of_ne mine, get_put_of_ne mine] at loaded
      exact (others name xml loaded).1
  · refine (congrArg (get entry.filename) (loadProjects_lines _ _).1).trans ?_
    show get entry.filename (put filename [] dragged.dir.lines) = _
    rw [get_put_of_ne other, dirIs]
    exact listed

/-- A new line in the second project then. -/
def lineMade : Session where
  dir := ⟨[(ascii "a.prj", []), (ascii "b.prj", [ascii "n.lne"])],
    [(ascii "l.lne", [ascii "f.flw"]), (ascii "n.lne", [])], [ascii "f.flw"]⟩
  store := [⟨ascii "a.prj", [ascii "l.lne"], []⟩,
    ⟨ascii "b.prj", [ascii "n.lne"], [⟨ascii "l.lne", [ascii "f.flw"]⟩, ⟨ascii "n.lne", []⟩]⟩]
  keys := [ascii "a.prj", ascii "b.prj"]

theorem dragged_lost_twoProjects : ⟨ascii "l.lne", [ascii "f.flw"]⟩ ∈ lineRows lineMade.store ∧
    (∀ row ∈ (start (gebrConfigSave lineMade)).store, ∀ other ∈ row.lines, other.filename ≠
    ascii "l.lne") ∧ get (ascii "l.lne") (start (gebrConfigSave lineMade)).dir.lines =
    some [ascii "f.flw"] := by
  have moved : lineReorder twoProjects 0 0 (.into 1) = some lineDragged := by decide
  have made : lineNew lineDragged 1 (ascii "n.lne") = some lineMade := by decide
  exact dragged_lost twoProjects_inSync (by decide) rfl (by decide) moved made

/-- **A line that is dragged, and deleted where it is shown then**, comes back when the program is
started again, and its flows are gone. -/
theorem dragged_back {index : ℕ} (sync : InSync session)
    (fresh : ∀ row ∈ session.store, row.xml = row.lineNames)
    (here : (session.store[project]?.bind fun row => row.lines[line]?) = some entry)
    (apart : drop.project ≠ project) (moved : lineReorder session project line drop = some dragged)
    (shows : (dragged.store[drop.project]?.bind fun row => row.lines[index]?) = some entry)
    (deleted : lineDelete dragged drop.project index = some final) :
      entry ∉ lineRows final.store ∧ entry ∈ lineRows (start (gebrConfigSave final)).store ∧
      ∀ flow ∈ entry.flows, flow ∉ (start (gebrConfigSave final)).dir.flows := by
  have rows := sync.lines.perm (lineReorder_rows sync moved)
  obtain ⟨target, listing, place, table, found, dirIs, order, xmlIs, absent, others, filed⟩ :=
    dragged_spec sync fresh here apart moved
  have listed := shown_listed sync here
  rw [found, Option.bind_some] at shows
  obtain ⟨row, again, deleted⟩ := Option.bind_eq_some_iff.1 deleted
  obtain rfl := Option.some.inj (found.symm.trans again)
  obtain ⟨one, there, deleted⟩ := Option.bind_eq_some_iff.1 deleted
  obtain rfl := Option.some.inj (shows.symm.trans there)
  -- The document of the project does not name the line, so that it is not saved and the file of the
  -- line stays.
  rw [if_neg (show entry.filename ∉ target.xml from xmlIs ▸ absent)] at deleted
  obtain ⟨front, rest, whole, same⟩ := ListMove.exists_split found
  have store : final.store =
      front ++ ⟨target.filename, target.xml, (insertAt place entry target.lines).eraseIdx index⟩ ::
          rest := by
    rw [← Option.some.inj deleted, whole, ← same, ListMove.modify_split]
  have dir : final.dir =
      { session.dir with projects := put target.filename listing table }.unlinkFlows entry.flows := by
    rw [← Option.some.inj deleted, dirIs]
  have present : Present final.dir := by
    rw [dir]
    intro name xml loaded other member
    have loaded : get name (put target.filename listing table) = some xml := loaded
    show (get other session.dir.lines).isSome = true
    by_cases mine : name = target.filename
    · subst mine
      rw [get_put_self] at loaded
      obtain rfl := Option.some.inj loaded
      rcases List.mem_cons.1 (order.mem_iff.1 member) with rfl | before
      · rw [listed]
        rfl
      · exact (others target.filename target.lineNames filed).2 other before
    · rw [get_put_of_ne mine] at loaded
      exact (others name xml loaded).2 other member
  refine ⟨?_, ?_, ?_⟩
  · have kept : LinesKept session.dir.lines session.dir.flows (lineRows (front ++ _ :: rest)) :=
      whole ▸ rows
    have apart := (List.nodup_cons.1 (kept.perm (lineRows_erase shows front rest)).distinct).1
    rw [store, (lineRows_split front _ rest).mem_iff]
    exact fun member => apart (List.mem_map_of_mem member)
  · have loaded : get target.filename final.dir.projects = some listing := by
      rw [dir]
      exact get_put_self ..
    have filed : get entry.filename final.dir.lines = some entry.flows := by
      rw [dir]
      exact listed
    exact @shown_start (gebrConfigSave final) present _ _ _ _ loaded
      (order.mem_iff.2 List.mem_cons_self) filed
  · intro flow member still
    rw [@start_loaded (gebrConfigSave final) present] at still
    have still : flow ∈ final.dir.flows := still
    rw [dir] at still
    exact of_decide_eq_true (List.mem_filter.1 still).2 member

/-- The line deleted in the second project then. -/
def lineDeleted : Session where
  dir := ⟨[(ascii "a.prj", []), (ascii "b.prj", [ascii "l.lne"])],
    [(ascii "l.lne", [ascii "f.flw"])], []⟩
  store := [⟨ascii "a.prj", [ascii "l.lne"], []⟩, ⟨ascii "b.prj", [], []⟩]
  keys := [ascii "a.prj", ascii "b.prj"]

theorem dragged_back_twoProjects :
    ⟨ascii "l.lne", [ascii "f.flw"]⟩ ∈ lineRows (start (gebrConfigSave lineDeleted)).store := by
  have moved : lineReorder twoProjects 0 0 (.into 1) = some lineDragged := by decide
  have shows : (lineDragged.store[1]?.bind fun row => row.lines[0]?) =
      some ⟨ascii "l.lne", [ascii "f.flw"]⟩ := rfl
  have deleted : lineDelete lineDragged 1 0 = some lineDeleted := by decide
  exact (dragged_back twoProjects_inSync (by decide) rfl (by decide) moved shows deleted).2.1

end Dragged

end Gebr.Interface.ProjectFiles
