/-
**The instances of a group follow its template, in runs of harmless operations.**

* `enter_group`, `leave_group`, `arrange_group`, `duplicate_group`: one group, one operation.
* `step_program` — **a harmless operation** on the groups that tables are kept as is the operation
  on the tables.
* `run_mirrors` — **a run of harmless operations**: every instance has one reference for each
  parameter of the template, the reference at its place, with what the user has set for it.
* `moveUp_mixes`: a parameter that moves up changes places with another one, and the values of the
  two do not.
-/

import Gebr.Geoxml.ParameterTable

namespace Gebr.Geoxml

open Gebr.Lib.CString (ascii)
open Gebr.Lib.ListMove

section OneGroup

variable {table : Table} {param : Parameter}

theorem map_update_of_not_mem {params : List Parameter} (away : param ∉ params)
    (hold : Parameter → Reference) (ref : Reference) :
    params.map (Function.update hold param ref) = params.map hold := by
  refine List.map_congr_left fun other member => ?_
  have apart : other ≠ param := fun same => away (same ▸ member)
  exact Function.update_of_ne apart ref hold

/-- **A parameter comes in**: its references are put where it is. -/
theorem enter_group (away : param ∉ table.params) (nodup : table.params.Nodup) {place : ℕ}
    (inside : place ≤ table.params.length) :
    (table.group.setTemplate (insertAt place param)).doInsertInGroupStuff param =
      (table.enter place param).group := by
  have index : (insertAt place param table.params).idxOf param = place :=
    idxOf_insertAt away nodup inside
  refine GebrGeoXmlParameterGroup.ext rfl ?_ rfl
  show (table.held.map fun hold => table.params.map hold).map
      (insertAt ((insertAt place param table.params).idxOf param) (setBeReference param)) =
    (table.held.map fun hold => Function.update hold param (setBeReference param)).map fun hold =>
      (insertAt place param table.params).map hold
  rw [index, List.map_map, List.map_map]
  refine List.map_congr_left fun hold _ => ?_
  show insertAt place (setBeReference param) (table.params.map hold) =
    (insertAt place param table.params).map (Function.update hold param (setBeReference param))
  rw [map_insertAt, map_update_of_not_mem away, Function.update_self]

theorem enter_group_end (away : param ∉ table.params) (nodup : table.params.Nodup) :
    (table.group.setTemplate (· ++ [param])).doInsertInGroupStuff param =
      (table.enter table.params.length param).group := by
  rw [← enter_group away nodup le_rfl]
  unfold GebrGeoXmlParameterGroup.setTemplate
  rw [show table.group.template = table.params from rfl, insertAt_end]

/-- **A parameter goes out**, with its references. -/
theorem leave_group :
    (table.group.removeReferences (table.params.idxOf param)).setTemplate (List.erase · param) =
      (table.leave param).group := by
  refine GebrGeoXmlParameterGroup.ext rfl ?_ rfl
  show (table.held.map fun hold => table.params.map hold).map
      (fun refs => refs.eraseIdx (table.params.idxOf param)) =
    table.held.map fun hold => (table.params.erase param).map hold
  rw [List.map_map]
  refine List.map_congr_left fun hold _ => ?_
  show (table.params.map hold).eraseIdx (table.params.idxOf param) = _
  rw [List.eraseIdx_map, List.erase_eq_eraseIdx_of_idxOf rfl]

/-- **Another order**, the same for the template and for the instances. -/
theorem arrange_group {act : List Parameter → List Parameter} {same : List Reference → List Reference}
    (natural : ∀ hold ∈ table.held, same (table.params.map hold) = (act table.params).map hold) :
    (table.group.setTemplate act).setInstances same = (table.arrange act).group := by
  refine GebrGeoXmlParameterGroup.ext rfl ?_ rfl
  show (table.held.map fun hold => table.params.map hold).map same = _
  rw [List.map_map]
  exact List.map_congr_left natural

/-- **A copy**: a clone of each reference. -/
theorem duplicate_group {copy : Parameter} (member : param ∈ table.params)
    (away : copy ∉ table.params) :
    ({ table.group with
        template := table.group.template ++ [copy]
        instances := table.group.instances.map fun refs =>
          refs ++ (refs[table.group.index param]?).toList } : GebrGeoXmlParameterGroup) =
      (table.duplicate param copy).group := by
  refine GebrGeoXmlParameterGroup.ext rfl ?_ rfl
  show (table.held.map fun hold => table.params.map hold).map
      (fun refs => refs ++ (refs[table.params.idxOf param]?).toList) =
    (table.held.map fun hold => Function.update hold copy (hold param)).map fun hold =>
      (table.params ++ [copy]).map hold
  rw [List.map_map, List.map_map]
  refine List.map_congr_left fun hold _ => ?_
  show table.params.map hold ++ ((table.params.map hold)[table.params.idxOf param]?).toList =
    (table.params ++ [copy]).map (Function.update hold copy (hold param))
  rw [List.getElem?_map, getElem?_idxOf member, List.map_append, map_update_of_not_mem away,
    List.map_singleton, Function.update_self]
  rfl

/-- A parameter with no value set loses nothing when it goes out and comes in again. -/
theorem enter_leave (unset : ∀ hold ∈ table.held, hold param = setBeReference param) (place : ℕ) :
    (table.leave param).enter place param =
      table.arrange fun params => insertAt place param (params.erase param) := by
  refine Table.ext rfl ?_ rfl
  refine (List.map_congr_left fun hold inside => ?_).trans (List.map_id table.held)
  rw [← unset hold inside]
  exact Function.update_eq_self param hold

/-- A value set at a place is set for the parameter at that place. -/
theorem map_withValue {params : List Parameter} (nodup : params.Nodup) (place : ℕ) (value : Text)
    (hold : Parameter → Reference) :
    params.map (withValue params place value hold) =
      (params.map hold).modify place fun ref => { ref with value } := by
  refine List.ext_getElem? fun other => ?_
  rw [List.getElem?_modify, List.getElem?_map, List.getElem?_map]
  unfold withValue
  cases there : params[other]? with
  | none => rfl
  | some rest =>
    cases here : params[place]? with
    | none =>
      have apart : place ≠ other := by
        rintro rfl
        exact absurd (here.symm.trans there) (by simp)
      simp [apart]
    | some param =>
      by_cases at' : place = other
      · subst at'
        obtain rfl := Option.some.inj (here.symm.trans there)
        simp
      · have apart : rest ≠ param := by
          rintro rfl
          exact at' ((idxOf_eq nodup here).symm.trans (idxOf_eq nodup there))
        simp [at', Function.update_of_ne apart]

/-- **The user sets a value** of a reference: it is held for the parameter at its place. -/
theorem setValue_group (nodup : table.params.Nodup) (index place : ℕ) (value : Text) :
    ({ table.group with
        instances := table.group.instances.modify index fun refs =>
          refs.modify place fun ref => { ref with value } } : GebrGeoXmlParameterGroup) =
      (table.setValue index place value).group := by
  refine GebrGeoXmlParameterGroup.ext rfl ?_ rfl
  refine (map_modify (f := fun hold => table.params.map hold) fun hold _ => ?_).symm
  exact map_withValue nodup place value hold

end OneGroup

section Lookups

variable {self : Tables} {param position : Parameter} {group target : ℕ} {table : Table}

/-- No parameter is in two places, and the document has made them all. -/
def Tables.Sound (self : Tables) : Prop := Unique self.templates self.fresh

theorem templates_at (here : self.tables[group]? = some table) :
    self.templates[group]? = some table.params := by
  rw [Tables.templates, List.getElem?_map, here, Option.map_some]

theorem groups_at (here : self.tables[group]? = some table) :
    self.program.groups[group]? = some table.group := by
  show (self.tables.map Table.group)[group]? = _
  rw [List.getElem?_map, here, Option.map_some]

theorem mem_of_groupOf (found : self.groupOf param = some group)
    (here : self.tables[group]? = some table) : param ∈ table.params := by
  obtain ⟨params, there, member⟩ := findIdx?_some found
  obtain rfl := Option.some.inj (there.symm.trans (templates_at here))
  exact member

theorem mem_of_found (found : self.groupOf param = some group)
    {params : List Parameter} (here : self.templates[group]? = some params) : param ∈ params := by
  obtain ⟨own, there, member⟩ := findIdx?_some found
  obtain rfl := Option.some.inj (there.symm.trans here)
  exact member

theorem table_of_groupOf (found : self.groupOf param = some group) :
    ∃ table, self.tables[group]? = some table ∧ param ∈ table.params := by
  obtain ⟨params, there, member⟩ := findIdx?_some found
  obtain ⟨table, here, rfl⟩ := Option.map_eq_some_iff.1 ((List.getElem?_map).symm.trans there)
  exact ⟨table, here, member⟩

theorem indexIn_program (here : self.tables[group]? = some table) :
    self.program.indexIn group param = table.params.idxOf param := by
  rw [Program.indexIn, groups_at here]
  rfl

theorem modify_modify (self : Program) (group : ℕ)
    (first second : GebrGeoXmlParameterGroup → GebrGeoXmlParameterGroup) :
    (self.modify group first).modify group second = self.modify group (second ∘ first) := by
  unfold Program.modify
  rw [List.modify_modify_eq]

theorem modify_comm (self : Program) (apart : group ≠ target)
    (first second : GebrGeoXmlParameterGroup → GebrGeoXmlParameterGroup) :
    (self.modify group first).modify target second =
      (self.modify target second).modify group first := by
  unfold Program.modify
  simp only [List.modify_modify_ne first second _ apart]

theorem templates_setTemplate (self : Program) (group : ℕ) (act : List Parameter → List Parameter) :
    (self.modify group fun g => g.setTemplate act).templates = self.templates.modify group act :=
  templates_modify fun _ => rfl

theorem templates_removeReferences (self : Program) (group index : ℕ) :
    (self.modify group fun g => g.removeReferences index).templates = self.templates := by
  have same : (self.modify group fun g => g.removeReferences index).templates =
      self.templates.modify group id := templates_modify fun _ => rfl
  rw [same, List.modify_id]

/-- Where a parameter is, given the templates of a program. -/
theorem groupOf_some {self : Program} {templates : List (List Parameter)} {fresh : ℕ}
    {params : List Parameter} (same : self.templates = templates) (unique : Unique templates fresh)
    (here : templates[group]? = some params) (member : param ∈ params) :
    self.groupOf param = some group := by
  subst same
  exact unique.find here member

theorem groupOf_none {self : Program} {templates : List (List Parameter)}
    (same : self.templates = templates) (nowhere : Nowhere templates param) :
    self.groupOf param = none := by
  subst same
  refine List.findIdx?_eq_none_iff.2 fun params member => decide_eq_false ?_
  obtain ⟨other, there⟩ := List.mem_iff_getElem?.1 member
  exact nowhere other params there

theorem doInsert_eq {self : Program} (found : self.groupOf param = some group) :
    self.doInsert param = self.modify group fun g => g.doInsertInGroupStuff param := by
  rw [Program.doInsert, found]

/-- **Where the nodes are** once a parameter that was nowhere stands in a template. -/
theorem groupOf_entered {self : Program} {fresh : ℕ} {params : List Parameter}
    (unique : Unique self.templates fresh) (low : param.id < fresh)
    (nowhere : Nowhere self.templates param) (here : self.templates[target]? = some params)
    (place : List Parameter → ℕ) :
    (self.modify target fun g => g.setTemplate (insertAt (place g.template) param)).groupOf param =
        some target ∧
      ∀ other ∈ params,
        (self.modify target fun g => g.setTemplate (insertAt (place g.template) param)).groupOf
          other = some target := by
  have templates : (self.modify target fun g =>
      g.setTemplate (insertAt (place g.template) param)).templates =
        self.templates.modify target fun params => insertAt (place params) param params :=
    templates_modify fun g => rfl
  have after := unique.insert low nowhere target place
  have there : (self.templates.modify target fun params =>
      insertAt (place params) param params)[target]? =
          some (insertAt (place params) param params) := by
    rw [List.getElem?_modify_eq, here]
    rfl
  have find : ∀ other ∈ insertAt (place params) param params,
      (self.modify target fun g => g.setTemplate (insertAt (place g.template) param)).groupOf
        other = some target := fun other => groupOf_some templates after there
  exact ⟨find param (mem_insertAt.2 (Or.inl rfl)),
    fun other member => find other (mem_insertAt.2 (Or.inr member))⟩

end Lookups

section Moves

variable {self : Tables} {param : Parameter} {function : MoveFunction}

theorem slot_le (function : MoveFunction) {params : List Parameter} {position : Parameter}
    (member : position ∈ params) : function.slot (params.idxOf position) ≤ params.length := by
  have inside := List.idxOf_lt_length_of_mem member
  cases function with
  | before => exact inside.le
  | after => exact inside

theorem map_place {α β : Type*} (function : MoveFunction) (f : α → β) (source place : ℕ)
    (list : List α) :
    (function.place source place list).map f = function.place source place (list.map f) := by
  cases function with
  | before => exact map_moveBefore f source place list
  | after => exact map_moveAfter f source place list

theorem place_perm {α : Type*} (function : MoveFunction) (source place : ℕ) (list : List α) :
    (function.place source place list).Perm list := by
  cases function with
  | before => exact moveBefore_perm source place list
  | after => exact moveAfter_perm source place list

theorem place_self {α : Type*} (function : MoveFunction) (place : ℕ) (list : List α) :
    function.place place place list = list := by
  cases function with
  | before =>
    show moveBefore place place list = list
    unfold moveBefore
    cases list[place]? with
    | none => rfl
    | some a => exact if_pos rfl
  | after =>
    show moveAfter place place list = list
    unfold moveAfter
    cases list[place]? with
    | none => rfl
    | some a => exact if_pos rfl

/-- The place of an end of the list. -/
def MoveFunction.farSlot : MoveFunction → ℕ → ℕ
  | .before, length => length
  | .after, _ => 0

theorem far_eq (function : MoveFunction) (params : List Parameter) :
    function.far param params =
      insertAt (function.farSlot (params.erase param).length) param (params.erase param) := by
  cases function with
  | before => exact (insertAt_end param _).symm
  | after => rfl

theorem farSlot_le (function : MoveFunction) (length : ℕ) : function.farSlot length ≤ length := by
  cases function with
  | before => exact le_rfl
  | after => exact Nat.zero_le length

theorem far_perm (function : MoveFunction) {params : List Parameter} (member : param ∈ params) :
    (function.far param params).Perm params := by
  rw [far_eq]
  exact (insertAt_perm _ param _).trans (List.perm_cons_erase member).symm

/-- What is held for a parameter that nothing is set for. -/
theorem held_of_unset {group : ℕ} {table : Table} (unset : self.program.Unset group param)
    (here : self.tables[group]? = some table) (member : param ∈ table.params) :
    ∀ hold ∈ table.held, hold param = setBeReference param := by
  intro hold inside
  have refs := unset _ (groups_at here) _ (List.mem_map_of_mem inside)
  have index : (table.params.map hold)[table.params.idxOf param]? = some (hold param) := by
    rw [List.getElem?_map, getElem?_idxOf member, Option.map_some]
  exact Option.some.inj (index.symm.trans refs)

/-- A group whose parameter is taken out, with its references, and put in anew. -/
theorem reenter_group {table : Table} {act : List Parameter → List Parameter} {place : ℕ}
    (nodup : table.params.Nodup) (unset : ∀ hold ∈ table.held, hold param = setBeReference param)
    (inside : place ≤ (table.params.erase param).length)
    (same : act table.params = insertAt place param (table.params.erase param)) :
    ((table.group.removeReferences (table.params.idxOf param)).setTemplate act).doInsertInGroupStuff
        param = (table.arrange act).group := by
  have entered := @enter_group (table.leave param) param nodup.not_mem_erase (nodup.erase param)
    place inside
  rw [enter_leave unset, ← leave_group] at entered
  show ({ template := act table.params, instances := _, instanciable := _ } :
    GebrGeoXmlParameterGroup).doInsertInGroupStuff param = (Table.mk (act table.params) _ _).group
  rw [same]
  exact entered

variable (sound : self.Sound) {group : ℕ}

include sound

/-- **To an end of the group**: the references are made anew, so nothing may be set. -/
theorem move_far (found : self.groupOf param = some group)
    (unset : self.program.Unset group param) :
    self.program.moveAfterBefore function param none = (self.move function param none).program := by
  obtain ⟨table, here, member⟩ := table_of_groupOf found
  have nodup := sound.nodup (templates_at here)
  have moved : self.program.moveNode function param none =
      self.program.modify group fun g => g.setTemplate (function.far param) := by
    rw [Program.moveNode, groupOf_program, found]
  have again : ((self.program.modify group fun g => g.setTemplate (function.far param)).modify group
      fun g => g.removeReferences (table.params.idxOf param)).groupOf param = some group := by
    have templates : ((self.program.modify group fun g => g.setTemplate (function.far param)).modify
        group fun g => g.removeReferences (table.params.idxOf param)).templates =
          self.templates.modify group (function.far param) := by
      rw [templates_removeReferences, templates_setTemplate, templates_program]
    have perm : ∀ params, self.templates[group]? = some params →
        (function.far param params).Perm params := by
      intro params there
      obtain rfl := Option.some.inj ((templates_at here).symm.trans there)
      exact far_perm function member
    have there : (self.templates.modify group (function.far param))[group]? =
        some (function.far param table.params) := by
      rw [List.getElem?_modify_eq, templates_at here]
      rfl
    exact groupOf_some templates (sound.perm perm) there
      ((far_perm function member).mem_iff.2 member)
  unfold Program.moveAfterBefore Tables.move
  simp only [groupOf_program, found, moved, indexIn_program here]
  rw [if_neg (by simp [Program.groupAt]), doInsert_eq again, modify_modify, modify_modify]
  refine modify_program fun other there => ?_
  obtain rfl := Option.some.inj (here.symm.trans there)
  show ((table.group.removeReferences (table.params.idxOf param)).setTemplate
    (function.far param)).doInsertInGroupStuff param = (table.arrange (function.far param)).group
  exact reenter_group nodup (held_of_unset unset here member) (farSlot_le function _)
    (far_eq function table.params)

/-- **Out of the groups**: the references go too. -/
theorem move_out {position : Parameter} (apart : param ≠ position)
    (found : self.groupOf param = some group) (outside : self.groupOf position = none) :
    self.program.moveAfterBefore function param (some position) =
      (self.move function param (some position)).program := by
  obtain ⟨table, here, -⟩ := table_of_groupOf found
  have moved : self.program.moveNode function param (some position) =
      self.program.modify group fun g => g.setTemplate (List.erase · param) := by
    rw [Program.moveNode, if_neg apart, groupOf_program, groupOf_program, found, outside]
  have templates : (self.program.modify group fun g =>
      g.setTemplate (List.erase · param)).templates =
        self.templates.modify group (List.erase · param) := by
    rw [templates_setTemplate, templates_program]
  have still : (self.program.modify group fun g =>
      g.setTemplate (List.erase · param)).groupOf position = none :=
    groupOf_none templates ((findIdx?_none outside).erase group param)
  have gone : ((self.program.modify group fun g => g.setTemplate (List.erase · param)).modify group
      fun g => g.removeReferences (table.params.idxOf param)).groupOf param = none :=
    groupOf_none ((templates_removeReferences _ _ _).trans templates) (sound.erased found)
  unfold Program.moveAfterBefore Tables.move
  simp only [groupOf_program, found, outside, moved, indexIn_program here]
  rw [if_neg (by simp [Program.groupAt, still]), Program.doInsert, gone]
  show ((self.program.modify group _).modify group _) = _
  rw [modify_modify]
  refine modify_program fun other there => ?_
  obtain rfl := Option.some.inj (here.symm.trans there)
  exact leave_group

/-- **Into a group**: new references in every instance. -/
theorem move_in {position : Parameter} {target : ℕ} (low : param.id < self.fresh)
    (outside : self.groupOf param = none) (found : self.groupOf position = some target) :
    self.program.moveAfterBefore function param (some position) =
      (self.move function param (some position)).program := by
  obtain ⟨table, here, member⟩ := table_of_groupOf found
  have apart : param ≠ position := by
    rintro rfl
    exact nomatch outside.symm.trans found
  have nowhere := findIdx?_none outside
  have moved : self.program.moveNode function param (some position) =
      self.program.modify target fun g =>
        g.setTemplate (insertAt (function.slot (g.template.idxOf position)) param) := by
    rw [Program.moveNode, if_neg apart, groupOf_program, groupOf_program, found, outside]
    rfl
  have places := groupOf_entered (templates_program self ▸ sound) low
    (templates_program self ▸ nowhere) ((templates_program self).symm ▸ templates_at here)
    fun params => function.slot (params.idxOf position)
  unfold Program.moveAfterBefore Tables.move
  simp only [groupOf_program, found, outside, moved]
  rw [Program.groupAt, Option.bind_some, places.2 position member]
  show Program.doInsert _ param = _
  rw [doInsert_eq places.1, modify_modify]
  refine modify_program fun other there => ?_
  obtain rfl := Option.some.inj (here.symm.trans there)
  exact enter_group (nowhere _ _ (templates_at here)) (sound.nodup (templates_at here))
    (slot_le function member)

/-- **Within the group**, where the position keeps its place. -/
theorem move_within {position : Parameter} (apart : param ≠ position)
    (found : self.groupOf param = some group) (beside : self.groupOf position = some group)
    (harmless : self.program.HarmlessMove param group function (some position)) :
    self.program.moveAfterBefore function param (some position) =
      (self.move function param (some position)).program := by
  obtain ⟨table, here, member⟩ := table_of_groupOf found
  have next := mem_of_groupOf beside here
  have nodup := sound.nodup (templates_at here)
  have moved : self.program.moveNode function param (some position) =
      self.program.modify group fun g =>
        g.setTemplate (function.place (g.index param) (g.index position)) := by
    rw [Program.moveNode, if_neg apart, groupOf_program, groupOf_program, found, beside]
    exact if_pos rfl
  let arranged : List Parameter :=
    function.place (table.params.idxOf param) (table.params.idxOf position) table.params
  have templates : (self.program.modify group fun g =>
      g.setTemplate (function.place (g.index param) (g.index position))).templates =
        self.templates.modify group fun params =>
          function.place (params.idxOf param) (params.idxOf position) params :=
    (templates_modify fun _ => rfl).trans (by rw [templates_program])
  have there : (self.templates.modify group fun params =>
      function.place (params.idxOf param) (params.idxOf position) params)[group]? =
        some arranged := by
    rw [List.getElem?_modify_eq, templates_at here]
    rfl
  have unique := @Unique.perm _ _ sound group (fun params =>
    function.place (params.idxOf param) (params.idxOf position) params)
    fun params _ => place_perm function _ _ params
  have again : (self.program.modify group fun g =>
      g.setTemplate (function.place (g.index param) (g.index position))).groupOf position =
        some group :=
    groupOf_some templates unique there ((place_perm function _ _ _).mem_iff.2 next)
  -- The place of the position is the one that it had.
  have kept : arranged[table.params.idxOf position]? = some position := by
    have source := List.idxOf_lt_length_of_mem member
    have place := List.idxOf_lt_length_of_mem next
    have own := getElem?_idxOf next
    cases function with
    | before =>
      have order := harmless ((groupOf_program self position).trans beside)
      rw [indexIn_program here, indexIn_program here] at order
      exact (getElem?_moveBefore order place).trans own
    | after =>
      have order := harmless ((groupOf_program self position).trans beside)
      rw [indexIn_program here, indexIn_program here] at order
      exact (getElem?_moveAfter order source).trans own
  have index : (self.program.modify group fun g =>
      g.setTemplate (function.place (g.index param) (g.index position))).indexIn group position =
        table.params.idxOf position := by
    have at' : (self.program.groups.modify group fun g =>
        g.setTemplate (function.place (g.index param) (g.index position)))[group]? =
          some (table.group.setTemplate (function.place (table.group.index param)
            (table.group.index position))) := by
      rw [List.getElem?_modify_eq, groups_at here]
      rfl
    unfold Program.indexIn
    rw [Program.modify, at']
    exact idxOf_eq ((place_perm function _ _ _).nodup_iff.2 nodup) kept
  unfold Program.moveAfterBefore Tables.move
  simp only [groupOf_program, found, beside, moved, indexIn_program here]
  rw [if_pos (by rw [Program.groupAt, Option.bind_some, again]), Option.map_some, Option.getD_some,
    index, if_pos trivial, modify_modify]
  refine modify_program fun other inside => ?_
  obtain rfl := Option.some.inj (here.symm.trans inside)
  exact arrange_group fun hold _ => (map_place function hold _ _ _).symm

/-- **Across groups**: the references go from one group, and new ones come in the other. -/
theorem move_across {position : Parameter} {target : ℕ} (low : param.id < self.fresh)
    (apart : param ≠ position) (found : self.groupOf param = some group)
    (there : self.groupOf position = some target) (groups : group ≠ target) :
    self.program.moveAfterBefore function param (some position) =
      (self.move function param (some position)).program := by
  obtain ⟨table, here, -⟩ := table_of_groupOf found
  obtain ⟨goal, aim, member⟩ := table_of_groupOf there
  have moved : self.program.moveNode function param (some position) =
      (self.program.modify group fun g => g.setTemplate (List.erase · param)).modify target fun g =>
        g.setTemplate (insertAt (function.slot (g.template.idxOf position)) param) := by
    rw [Program.moveNode, if_neg apart, groupOf_program, groupOf_program, found, there]
    exact if_neg groups
  have templates : (self.program.modify group fun g =>
      g.setTemplate (List.erase · param)).templates =
        self.templates.modify group (List.erase · param) := by
    rw [templates_setTemplate, templates_program]
  have nowhere := sound.erased found
  have aimed : (self.templates.modify group (List.erase · param))[target]? = some goal.params := by
    rw [List.getElem?_modify_ne _ _ groups, templates_at aim]
  have places := @groupOf_entered _ _ (self.program.modify group fun g =>
    g.setTemplate (List.erase · param)) _ _ (templates ▸ sound.erase group param) low
    (templates ▸ nowhere) (templates.symm ▸ aimed) fun params =>
      function.slot (params.idxOf position)
  have again : (((self.program.modify group fun g => g.setTemplate (List.erase · param)).modify target
      fun g => g.setTemplate (insertAt (function.slot (g.template.idxOf position)) param)).modify group
        fun g => g.removeReferences (table.params.idxOf param)).groupOf param = some target :=
    (groupOf_templates (templates_removeReferences _ _ _) param).trans places.1
  have left : (self.program.modify group fun g => g.setTemplate (List.erase · param)).modify group
      (fun g => g.removeReferences (table.params.idxOf param)) =
        (self.modify group fun table => table.leave param).program := by
    rw [modify_modify]
    refine modify_program fun other inside => ?_
    obtain rfl := Option.some.inj (here.symm.trans inside)
    exact leave_group
  unfold Program.moveAfterBefore Tables.move
  simp only [groupOf_program, found, there, moved, indexIn_program here]
  rw [if_neg (by rw [Program.groupAt, Option.bind_some, places.2 position member]; simpa using groups),
    doInsert_eq again, modify_comm _ (Ne.symm groups), left, modify_modify, if_neg groups]
  refine modify_program fun other inside => ?_
  obtain rfl : goal = other := by
    have still : (self.tables.modify group fun table => table.leave param)[target]? = some goal := by
      rw [List.getElem?_modify_ne _ _ groups, aim]
    exact Option.some.inj (still.symm.trans inside)
  exact enter_group (nowhere _ _ aimed) (sound.nodup (templates_at aim)) (slot_le function member)

/-- **Any move** to a position that keeps its place. -/
theorem move_program {position : Option Parameter} (low : param.id < self.fresh)
    (harmless : ∀ group, self.groupOf param = some group →
      self.program.HarmlessMove param group function position) :
    self.program.moveAfterBefore function param position =
      (self.move function param position).program := by
  cases found : self.groupOf param with
  | none =>
    cases position with
    | none =>
      unfold Program.moveAfterBefore Program.moveNode Tables.move
      simp only [groupOf_program, found]
      rfl
    | some position =>
      cases there : self.groupOf position with
      | none =>
        unfold Program.moveAfterBefore Program.moveNode Tables.move
        simp only [groupOf_program, found, there, ite_self]
        rw [Program.groupAt, Option.bind_some, groupOf_program, there]
      | some target => exact move_in sound low found there
  | some group =>
    cases position with
    | none => exact move_far sound found (harmless group found)
    | some position =>
      by_cases apart : param = position
      · subst apart
        obtain ⟨table, here, -⟩ := table_of_groupOf found
        have same : self.program.moveNode function param (some param) = self.program := if_pos rfl
        unfold Program.moveAfterBefore Tables.move
        simp only [groupOf_program, found, same, Program.groupAt, Option.bind_some, if_true,
          indexIn_program here, Option.map_some, Option.getD_some]
        refine modify_program fun other inside => ?_
        obtain rfl := Option.some.inj (here.symm.trans inside)
        have whole := @arrange_group table (function.place (table.params.idxOf param)
          (table.params.idxOf param)) (function.place (table.params.idxOf param)
            (table.params.idxOf param)) fun hold _ => (map_place function hold _ _ _).symm
        unfold GebrGeoXmlParameterGroup.setTemplate at whole
        rw [place_self] at whole
        exact whole
      · cases there : self.groupOf position with
        | none => exact move_out sound apart found there
        | some target =>
          by_cases groups : group = target
          · subst groups
            exact move_within sound apart found there (harmless group found)
          · exact move_across sound low apart found there groups

/-- **Into a group**, at its end. -/
theorem moveIntoGroup_program {target : ℕ}
    (unset : self.groupOf param = some target → self.program.Unset target param) :
    self.program.moveIntoGroup param target = (self.moveIntoGroup param target).program := by
  unfold Program.moveIntoGroup Tables.moveIntoGroup
  simp only [groupOf_program]
  cases found : self.groupOf param with
  | none =>
    show (self.program.modify target _).modify target _ = _
    rw [modify_modify]
    refine modify_program fun table here => ?_
    exact enter_group_end (findIdx?_none found _ _ (templates_at here))
      (sound.nodup (templates_at here))
  | some group =>
    obtain ⟨table, here, member⟩ := table_of_groupOf found
    have nodup := sound.nodup (templates_at here)
    have left : (self.program.modify group fun g => g.removeReferences (g.index param)).modify group
        (fun g => g.setTemplate (List.erase · param)) =
          (self.modify group fun table => table.leave param).program := by
      rw [modify_modify]
      exact modify_program fun other inside => leave_group
    show (((self.program.modify group _).modify group _).modify target _).modify target _ = _
    by_cases groups : group = target
    · subst groups
      rw [modify_modify, modify_modify, modify_modify]
      simp only [if_true]
      refine modify_program fun other inside => ?_
      obtain rfl := Option.some.inj (here.symm.trans inside)
      exact reenter_group nodup (held_of_unset (unset found) here member) (farSlot_le .before _)
        (far_eq .before table.params)
    · rw [left, modify_modify]
      simp only [if_neg groups]
      refine modify_program fun other inside => ?_
      have there := templates_at inside
      rw [show (self.modify group fun table => table.leave param).templates =
        self.templates.modify group (List.erase · param) from tables_modify fun _ => rfl] at there
      exact enter_group_end (sound.erased found _ _ there)
        ((sound.erase group param).nodup there)

end Moves

section Steps

variable {self : Tables} {param : Parameter} (sound : self.Sound)

include sound

/-- A node that the document has not made yet is in no group. -/
theorem not_mem_of_fresh {group : ℕ} {table : Table} (here : self.tables[group]? = some table)
    (fresh : param.id = self.fresh) : param ∉ table.params :=
  fun member => absurd (sound.made (templates_at here) member) (by rw [fresh]; exact lt_irrefl _)

omit sound in
/-- What is done to the group of a parameter is what is done to its table, if it has one. -/
theorem inGroup_program {next : Tables}
    {edit : GebrGeoXmlParameterGroup → GebrGeoXmlParameterGroup} {onTable : Table → Table}
    (same : ∀ group table, self.groupOf param = some group → next.tables[group]? = some table →
      edit table.group = (onTable table).group) :
    (match self.program.groupOf param with
      | none => next.program
      | some group => next.program.modify group edit) =
      (match self.groupOf param with
        | none => next
        | some group => next.modify group onTable).program := by
  rw [groupOf_program]
  cases found : self.groupOf param with
  | none => rfl
  | some group => exact modify_program fun table here => same group table found here

/-- **An action** on a parameter. -/
theorem act_program {action : Action} (low : param.id < self.fresh)
    (harmless : ∀ group, self.groupOf param = some group →
      self.program.HarmlessAction param group action) :
    self.program.act param action = (self.act param action).program := by
  cases action with
  | appendClone =>
    refine @inGroup_program self param { self with fresh := self.fresh + 1 } _ _ ?_
    intro group table found here
    exact duplicate_group (mem_of_groupOf found here) (not_mem_of_fresh sound here rfl)
  | remove =>
    unfold Program.act
    simp only [modify_modify]
    exact inGroup_program fun group table found here => leave_group
  | move function position => exact move_program sound low harmless
  | moveUp =>
    refine inGroup_program fun group table found here => ?_
    have first : table.params.idxOf param = 0 := (indexIn_program here).symm.trans
      (harmless group found)
    have same : table.arrange (moveUp (table.params.idxOf param)) = table :=
      Table.ext (if_pos first) rfl rfl
    rw [same]
    exact if_pos first
  | moveDown =>
    refine inGroup_program fun group table found here => ?_
    have last : ¬ table.params.idxOf param + 1 < table.params.length :=
      not_lt.2 (harmless group found _ (groups_at here))
    have same : table.arrange (moveDown (table.params.idxOf param)) = table :=
      Table.ext (if_neg last) rfl rfl
    rw [same]
    exact if_neg last
  | moveIntoGroup target =>
    exact moveIntoGroup_program sound fun found => harmless target found rfl

/-- **A harmless operation** is the operation on the tables. -/
theorem step_program {op : Op} (harmless : Harmless self.program op) :
    Geoxml.step self.program op = (self.step op).program := by
  cases op with
  | append group type =>
    by_cases reference : type = .reference
    · exact (if_pos reference).trans (congrArg Tables.program (if_pos reference).symm)
    · refine (if_neg reference).trans (Eq.trans ?_ (congrArg Tables.program (if_neg reference).symm))
      refine @modify_program { self with fresh := self.fresh + 1 } _ _ _ fun table here => ?_
      exact enter_group_end (not_mem_of_fresh sound here rfl) (sound.nodup (templates_at here))
  | sequence sequence action =>
    cases sequence with
    | reference => rfl
    | parameter param =>
      by_cases low : param.id < self.fresh
      · refine (if_pos low).trans (Eq.trans ?_ (congrArg Tables.program (if_pos low).symm))
        refine act_program sound low fun group found => ?_
        exact harmless group ((groupOf_program self param).trans found)
      · exact (if_neg low).trans (congrArg Tables.program (if_neg low).symm)
  | instanciate group =>
    refine modify_program fun table here => ?_
    by_cases enabled : table.instanciable = true
    · rw [if_pos enabled]
      refine (if_pos enabled).trans (GebrGeoXmlParameterGroup.ext rfl ?_ rfl)
      show table.held.map (fun hold => table.params.map hold) ++ [table.params.map setBeReference] =
        (table.held ++ [setBeReference]).map fun hold => table.params.map hold
      rw [List.map_append, List.map_singleton]
    · rw [if_neg enabled]
      exact if_neg enabled
  | deinstanciate group =>
    refine modify_program fun table here => ?_
    have length : table.group.instances.length = table.held.length := List.length_map _
    by_cases enabled : table.instanciable = true ∧ 1 < table.held.length
    · rw [if_pos enabled]
      refine (if_pos (by rw [length]; exact enabled)).trans
        (GebrGeoXmlParameterGroup.ext rfl ?_ rfl)
      exact (List.map_dropLast ..).symm
    · rw [if_neg enabled]
      exact if_neg (by rw [length]; exact enabled)
  | removeInstance group index =>
    refine modify_program fun table here => ?_
    have length : table.group.instances.length = table.held.length := List.length_map _
    by_cases last : table.held.length = 1
    · rw [if_pos last]
      exact if_pos (length.trans last)
    · rw [if_neg last]
      refine (if_neg (by rw [length]; exact last)).trans (GebrGeoXmlParameterGroup.ext rfl ?_ rfl)
      exact List.eraseIdx_map _ _ _
  | setIsInstanciable group enable => exact modify_program fun table here => rfl
  | setValue group index place value =>
    exact modify_program fun table here =>
      setValue_group (sound.nodup (templates_at here)) index place value

theorem enter_sound (low : param.id < self.fresh) (nowhere : Nowhere self.templates param)
    (group : ℕ) (place : List Parameter → ℕ) :
    (self.modify group fun table => table.enter (place table.params) param).Sound := by
  have templates : (self.modify group fun table => table.enter (place table.params) param).templates =
      self.templates.modify group fun params => insertAt (place params) param params :=
    tables_modify fun _ => rfl
  unfold Tables.Sound
  rw [templates]
  exact Unique.insert sound low nowhere group place

theorem leave_sound (group : ℕ) : (self.modify group fun table => table.leave param).Sound := by
  have templates : (self.modify group fun table => table.leave param).templates =
      self.templates.modify group (List.erase · param) := tables_modify fun _ => rfl
  unfold Tables.Sound
  rw [templates]
  exact Unique.erase sound group param

/-- A parameter goes from one group to another one. -/
theorem leave_enter_sound (low : param.id < self.fresh) {group : ℕ}
    (found : self.groupOf param = some group) (target : ℕ) (place : List Parameter → ℕ) :
    ((self.modify group fun table => table.leave param).modify target fun table =>
      table.enter (place table.params) param).Sound := by
  have templates : (self.modify group fun table => table.leave param).templates =
      self.templates.modify group (List.erase · param) := tables_modify fun _ => rfl
  refine enter_sound (leave_sound sound group) low ?_ target place
  rw [templates]
  exact Unique.erased sound found

theorem arrange_sound {group : ℕ} {f : List Parameter → List Parameter → List Parameter}
    (perm : ∀ params, self.templates[group]? = some params → (f params params).Perm params) :
    (self.modify group fun table => table.arrange (f table.params)).Sound := by
  have templates : (self.modify group fun table => table.arrange (f table.params)).templates =
      self.templates.modify group fun params => f params params := tables_modify fun _ => rfl
  unfold Tables.Sound
  rw [templates]
  exact Unique.perm sound perm

theorem same_sound {group : ℕ} {act : Table → Table}
    (same : ∀ table, (act table).params = table.params) : (self.modify group act).Sound := by
  have templates : (self.modify group act).templates = self.templates :=
    (tables_modify (f := id) same).trans (List.modify_id group _)
  unfold Tables.Sound
  rw [templates]
  exact sound

theorem move_sound (low : param.id < self.fresh) (function : MoveFunction)
    (position : Option Parameter) : (self.move function param position).Sound := by
  unfold Tables.move
  cases position with
  | none =>
    cases found : self.groupOf param with
    | none => exact sound
    | some group =>
      exact arrange_sound sound (f := fun _ => function.far param)
        fun params here => far_perm function (mem_of_found found here)
  | some position =>
    cases found : self.groupOf param with
    | none =>
      cases there : self.groupOf position with
      | none =>
        simp only [there]
        exact sound
      | some target =>
        simp only [there]
        exact enter_sound sound low (findIdx?_none found) target
          fun params => function.slot (params.idxOf position)
    | some group =>
      cases there : self.groupOf position with
      | none =>
        simp only [there]
        exact leave_sound sound group
      | some target =>
        simp only [there]
        by_cases groups : group = target
        · simp only [if_pos groups]
          exact arrange_sound sound (f := fun params => function.place (params.idxOf param)
            (params.idxOf position)) fun params _ => place_perm function _ _ params
        · simp only [if_neg groups]
          exact leave_enter_sound sound low found target fun params =>
            function.slot (params.idxOf position)

theorem act_sound (low : param.id < self.fresh) (action : Action) : (self.act param action).Sound := by
  unfold Tables.act
  cases action with
  | appendClone =>
    cases found : self.groupOf param with
    | none => exact Unique.later sound
    | some group =>
      have nowhere : Nowhere self.templates { param with id := self.fresh } :=
        fun other rest here member => absurd (sound.made here member) (lt_irrefl _)
      have templates : (Tables.modify { self with fresh := self.fresh + 1 } group fun table =>
          table.duplicate param { param with id := self.fresh }).templates =
            self.templates.modify group fun params =>
              insertAt params.length { param with id := self.fresh } params :=
        tables_modify fun table => (insertAt_end _ _).symm
      show Unique _ (self.fresh + 1)
      rw [templates]
      exact (Unique.later sound).insert (Nat.lt_succ_self _) nowhere group _
  | remove =>
    cases found : self.groupOf param with
    | none => exact sound
    | some group => exact leave_sound sound group
  | move function position => exact move_sound sound low function position
  | moveUp =>
    cases found : self.groupOf param with
    | none => exact sound
    | some group =>
      refine arrange_sound sound (f := fun params => moveUp (params.idxOf param)) fun params _ => ?_
      unfold moveUp
      split
      · exact List.Perm.refl params
      · exact moveBefore_perm _ _ params
  | moveDown =>
    cases found : self.groupOf param with
    | none => exact sound
    | some group =>
      refine arrange_sound sound (f := fun params => moveDown (params.idxOf param)) fun params _ => ?_
      unfold moveDown
      split
      · exact moveAfter_perm _ _ params
      · exact List.Perm.refl params
  | moveIntoGroup target =>
    show (self.moveIntoGroup param target).Sound
    unfold Tables.moveIntoGroup
    cases found : self.groupOf param with
    | none => exact enter_sound sound low (findIdx?_none found) target _
    | some group =>
      by_cases groups : group = target
      · simp only [if_pos groups]
        exact arrange_sound sound (f := fun _ => MoveFunction.far .before param)
          fun params here => far_perm .before (mem_of_found found here)
      · simp only [if_neg groups]
        exact leave_enter_sound sound low found target _

/-- **Every operation** leaves no parameter in two places. -/
theorem step_sound (op : Op) : (self.step op).Sound := by
  cases op with
  | append group type =>
    by_cases reference : type = .reference
    · have same : self.step (.append group type) = self := if_pos reference
      rw [same]
      exact sound
    · have nowhere : Nowhere self.templates (insertType self.fresh type) :=
        fun other rest here member => absurd (sound.made here member) (lt_irrefl _)
      have taken : self.step (.append group type) = _ := if_neg reference
      rw [taken]
      exact @enter_sound { self with fresh := self.fresh + 1 } _ (Unique.later sound)
        (Nat.lt_succ_self _) nowhere group List.length
  | sequence sequence action =>
    cases sequence with
    | reference => exact sound
    | parameter param =>
      by_cases low : param.id < self.fresh
      · have taken : self.step (.sequence (.parameter param) action) = _ := if_pos low
        rw [taken]
        exact act_sound sound low action
      · have same : self.step (.sequence (.parameter param) action) = self := if_neg low
        rw [same]
        exact sound
  | instanciate group => exact same_sound sound fun table => by split <;> rfl
  | deinstanciate group => exact same_sound sound fun table => by split <;> rfl
  | removeInstance group index => exact same_sound sound fun table => by split <;> rfl
  | setIsInstanciable group enable => exact same_sound sound fun table => rfl
  | setValue group index place value => exact same_sound sound fun table => rfl

end Steps

section Runs

/-- **A group that mirrors a table**: each instance has one reference for each parameter of the
template, and the reference at its place has what is held for it. -/
structure Mirrors (group : GebrGeoXmlParameterGroup) (table : Table) : Prop where
  template : group.template = table.params
  instances : group.instances.length = table.held.length
  references : ∀ {index : ℕ} {refs : List Reference}, group.instances[index]? = some refs →
    refs.length = group.template.length
  values : ∀ {index : ℕ} {refs : List Reference} {hold : Parameter → Reference},
    group.instances[index]? = some refs → table.held[index]? = some hold →
      ∀ {place : ℕ} {param : Parameter}, group.template[place]? = some param →
        refs[place]? = some (hold param)

theorem group_mirrors (table : Table) : Mirrors table.group table := by
  have instance' : ∀ {index : ℕ} {refs : List Reference}, table.group.instances[index]? = some refs →
      ∃ hold, table.held[index]? = some hold ∧ table.params.map hold = refs :=
    fun here => Option.map_eq_some_iff.1 ((List.getElem?_map).symm.trans here)
  refine ⟨rfl, List.length_map _, fun here => ?_, fun here held place param there => ?_⟩
  · obtain ⟨hold, -, rfl⟩ := instance' here
    exact List.length_map _
  · obtain ⟨hold, also, rfl⟩ := instance' here
    obtain rfl := Option.some.inj (also.symm.trans held)
    rw [List.getElem?_map, show table.params[place]? = some param from there, Option.map_some]

/-- A group that mirrors a table has the instances that it is kept with. -/
theorem Mirrors.instances_eq {group : GebrGeoXmlParameterGroup} {table : Table}
    (mirrors : Mirrors group table) : group.instances = table.group.instances := by
  refine List.ext_getElem? fun index => ?_
  show group.instances[index]? = (table.held.map fun hold => table.params.map hold)[index]?
  rw [List.getElem?_map]
  cases here : group.instances[index]? with
  | none =>
    have past := List.getElem?_eq_none_iff.1 here
    rw [List.getElem?_eq_none_iff.2 (mirrors.instances ▸ past), Option.map_none]
  | some refs =>
    obtain ⟨inside, -⟩ := List.getElem?_eq_some_iff.1 here
    have held := List.getElem?_eq_getElem (l := table.held) (mirrors.instances ▸ inside)
    rw [held, Option.map_some]
    refine congrArg some (List.ext_getElem? fun place => ?_)
    rw [List.getElem?_map, ← mirrors.template]
    cases there : group.template[place]? with
    | none =>
      rw [Option.map_none, List.getElem?_eq_none_iff, mirrors.references here]
      exact List.getElem?_eq_none_iff.1 there
    | some param => exact mirrors.values here held there

theorem mirrors_head {groups : List GebrGeoXmlParameterGroup} {tables : List Table}
    {group : GebrGeoXmlParameterGroup} {table : Table} (mirrored : List.Forall₂ Mirrors groups tables)
    (here : groups.head? = some group) (there : tables.head? = some table) : Mirrors group table := by
  cases mirrored with
  | nil => exact nomatch here
  | cons head _ =>
    obtain rfl := Option.some.inj here
    obtain rfl := Option.some.inj there
    exact head

/-- Every step of the run is harmless. -/
def HarmlessRun : Program → List Op → Prop
  | _, [] => True
  | self, op :: ops => Harmless self op ∧ HarmlessRun (step self op) ops

/-- **A run of harmless operations** on groups is the run on the tables. -/
theorem run_program {self : Tables} (sound : self.Sound) {ops : List Op}
    (harmless : HarmlessRun self.program ops) :
    ops.foldl step self.program = (ops.foldl Tables.step self).program := by
  induction ops generalizing self with
  | nil => rfl
  | cons op ops tail =>
    have same := step_program sound harmless.1
    rw [List.foldl_cons, List.foldl_cons, same]
    exact tail (step_sound sound op) (same ▸ harmless.2)

/-- **The instances follow the template.** From groups that tables are kept as, every run of
harmless operations leads to groups that mirror the tables which the same operations lead to. -/
theorem run_mirrors {self : Tables} (sound : self.Sound) {ops : List Op}
    (harmless : HarmlessRun self.program ops) :
    List.Forall₂ Mirrors (ops.foldl step self.program).groups (ops.foldl Tables.step self).tables := by
  rw [run_program sound harmless]
  show List.Forall₂ Mirrors ((ops.foldl Tables.step self).tables.map Table.group) _
  rw [List.forall₂_map_left_iff]
  exact List.forall₂_same.2 fun table _ => group_mirrors table

/-- A group as `append_parameter` makes it: no parameter and one instance. -/
def newGroup : Table where
  params := []
  held := [setBeReference]
  instanciable := false

def newGroups : Tables where
  tables := [newGroup, newGroup]
  fresh := 0

theorem newGroups_sound : newGroups.Sound := by
  have empty : ∀ {group : ℕ} {params : List Parameter},
      newGroups.templates[group]? = some params → params = [] := by
    intro group params here
    have member := List.mem_of_getElem? here
    simpa [newGroups, newGroup, Tables.templates] using member
  refine ⟨fun here => ?_, fun here _ member => ?_, fun here member => ?_⟩
  · rw [empty here]
    exact List.nodup_nil
  · rw [empty here] at member
    exact absurd member List.not_mem_nil
  · rw [empty here] at member
    exact absurd member List.not_mem_nil

/-- The first and the second parameter of the first group. -/
def firstParameter : Parameter := insertType 0 .int

def secondParameter : Parameter := insertType 1 .float

/-- Two parameters, two instances, a value, and moves that are harmless. -/
def harmlessOps : List Op :=
  [.append 0 .int, .append 0 .float, .setIsInstanciable 0 true, .instanciate 0,
    .setValue 0 1 0 (ascii "7"),
    .sequence (.parameter firstParameter) (.move .before (some secondParameter)),
    .sequence (.parameter firstParameter) .appendClone,
    .sequence (.parameter secondParameter) (.moveIntoGroup 1)]

theorem run_mirrors_pair :
    List.Forall₂ Mirrors (harmlessOps.foldl step newGroups.program).groups
      (harmlessOps.foldl Tables.step newGroups).tables := by
  refine run_mirrors newGroups_sound ⟨trivial, trivial, trivial, trivial, trivial, ?_, ?_, ?_, trivial⟩
  · intro group found beside
    obtain rfl : 0 = group := Option.some.inj found
    decide
  · exact fun _ _ => trivial
  · intro group found same
    subst same
    exact absurd found (by decide)

/-- Values for two parameters, and the second one moves up. -/
def moveUpOps : List Op :=
  [.append 0 .int, .append 0 .float, .setValue 0 0 0 (ascii "1"), .setValue 0 0 1 (ascii "2"),
    .sequence (.parameter secondParameter) .moveUp]

/-- **The values stay** when a parameter moves up: they are those of the other one. -/
theorem moveUp_mixes :
    ¬ List.Forall₂ Mirrors (moveUpOps.foldl step newGroups.program).groups
      (moveUpOps.foldl Tables.step newGroups).tables := by
  intro mirrored
  have first : ∃ group table, (moveUpOps.foldl step newGroups.program).groups.head? = some group ∧
      (moveUpOps.foldl Tables.step newGroups).tables.head? = some table ∧
        group.instances ≠ table.group.instances := by
    refine ⟨_, _, rfl, rfl, ?_⟩
    decide
  obtain ⟨group, table, here, there, differ⟩ := first
  exact differ (mirrors_head mirrored here there).instances_eq

end Runs

end Gebr.Geoxml
