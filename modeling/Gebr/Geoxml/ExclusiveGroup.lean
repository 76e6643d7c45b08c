/-
**Exclusive groups have a selection.**

A group is exclusive when its template has a default selection. The selection of an instance is a
place, which nothing corrects when parameters are removed; it is read as the first parameter where
it is past the end.

* `GebrGeoXmlParameterGroup`, `step`: the group with the attributes of its lists.
* `lists_step`: the lists of parameters are those of `ParameterGroup`.
* `Chosen`, `Sound`: the attributes of a list name parameters; those of the template and of all
  instances do in an exclusive group, and none does in another one.
* `Sound.step`: every operation keeps this.
* `run_selected` — **the selections in every group that the operations make**.
-/

import Gebr.Geoxml.ParameterTable
import Gebr.Geoxml.Selection

namespace Gebr.Geoxml.Exclusive

open Gebr.Lib.CString (ascii)
open Gebr.Lib.ListMove

/-- A group; `fresh` is the next node of its document. -/
structure GebrGeoXmlParameterGroup where
  template : GebrGeoXmlParameters Parameter
  instances : List (GebrGeoXmlParameters Reference)
  instanciable : Bool
  fresh : ℕ
  deriving DecidableEq

section Model

/-- `__gebr_geoxml_parameters_append_new`. -/
def gebrGeoxmlParametersAppendNew (α : Type) : GebrGeoXmlParameters α :=
  (⟨[], [], []⟩ : GebrGeoXmlParameters α).setDefaultSelection none

/-- The group that `__gebr_geoxml_parameter_insert_type` makes. -/
def GebrGeoXmlParameterGroup.new : GebrGeoXmlParameterGroup where
  template := gebrGeoxmlParametersAppendNew Parameter
  instances := [gebrGeoxmlParametersAppendNew Reference]
  instanciable := false
  fresh := 0

/-- `gebr_geoxml_parameter_group_is_exclusive`. -/
def GebrGeoXmlParameterGroup.isExclusive (self : GebrGeoXmlParameterGroup) : Bool :=
  self.template.defaultSelection.head? ≠ some 48

/-- What `gebr_geoxml_parameter_group_set_exclusive` does to an instance. -/
def setInstanceExclusive (exclusive : Bool) (params : GebrGeoXmlParameters Reference) :
    GebrGeoXmlParameters Reference :=
  if exclusive then params.setDefaultSelection (if params.parameters = [] then none else some 0)
  else params.setDefaultSelection none

/-- `gebr_geoxml_parameter_group_set_exclusive`. -/
def GebrGeoXmlParameterGroup.setExclusive (self : GebrGeoXmlParameterGroup) (exclusive : Bool) :
    GebrGeoXmlParameterGroup :=
  { self with
    template :=
      if exclusive then { self.template with defaultSelection := ascii "1", selection := ascii "1" }
      else { self.template with defaultSelection := ascii "0", selection := [] }
    instances := self.instances.map (setInstanceExclusive exclusive) }

/-- What `__gebr_geoxml_parameters_do_insert_in_group_stuff` does to an instance. -/
def insertReference (exclusive : Bool) (index : ℕ) (reference : Reference)
    (params : GebrGeoXmlParameters Reference) : GebrGeoXmlParameters Reference :=
  let params := { params with parameters := insertAt index reference params.parameters }
  -- The first parameter of an exclusive group is the one that is selected.
  if exclusive && index = 0 then params.setDefaultSelection (some 0) else params

/-- `__gebr_geoxml_parameters_do_insert_in_group_stuff`. -/
def GebrGeoXmlParameterGroup.doInsertInGroupStuff (self : GebrGeoXmlParameterGroup)
    (param : Parameter) : GebrGeoXmlParameterGroup :=
  let index := self.template.parameters.idxOf param
  { self with
    instances := self.instances.map (insertReference self.isExclusive index (setBeReference param)) }

/-- `gebr_geoxml_parameters_append_parameter` on the template. -/
def GebrGeoXmlParameterGroup.appendParameter (self : GebrGeoXmlParameterGroup)
    (type : GebrGeoXmlParameterType) : GebrGeoXmlParameterGroup :=
  if type = .reference then self
  else
    let param := insertType self.fresh type
    let template := { self.template with parameters := self.template.parameters ++ [param] }
    { self with template, fresh := self.fresh + 1 }.doInsertInGroupStuff param

/-- `gebr_geoxml_parameter_group_add_instance`: a clone of the template, with its attributes. -/
def GebrGeoXmlParameterGroup.addInstance (self : GebrGeoXmlParameterGroup) :
    GebrGeoXmlParameterGroup :=
  { self with instances := self.instances ++
      [⟨self.template.parameters.map setBeReference, self.template.defaultSelection,
        self.template.selection⟩] }

/-- `gebr_geoxml_parameter_group_instanciate`. -/
def GebrGeoXmlParameterGroup.instanciate (self : GebrGeoXmlParameterGroup) :
    GebrGeoXmlParameterGroup :=
  if self.instanciable then self.addInstance else self

/-- `gebr_geoxml_parameter_group_deinstanciate`. -/
def GebrGeoXmlParameterGroup.deinstanciate (self : GebrGeoXmlParameterGroup) :
    GebrGeoXmlParameterGroup :=
  if self.instanciable ∧ 1 < self.instances.length then
    { self with instances := self.instances.dropLast }
  else self

/-- `gebr_geoxml_sequence_remove` on a parameter of the template: its references are removed
first. -/
def GebrGeoXmlParameterGroup.remove (self : GebrGeoXmlParameterGroup) (param : Parameter) :
    GebrGeoXmlParameterGroup :=
  if param ∈ self.template.parameters then
    { self with
      template := { self.template with parameters := self.template.parameters.erase param }
      instances := self.instances.map fun params =>
        { params with parameters :=
          params.parameters.eraseIdx (self.template.parameters.idxOf param) } }
  else self

/-- `gebr_geoxml_parameters_set_selection` on an instance, of the parameter at a place of it. -/
def GebrGeoXmlParameterGroup.setSelection (self : GebrGeoXmlParameterGroup) (index place : ℕ) :
    GebrGeoXmlParameterGroup :=
  { self with instances := self.instances.modify index fun params =>
      if place < params.parameters.length then params.setSelection (some place) else params }

inductive Op
  | setExclusive (exclusive : Bool)
  | append (type : GebrGeoXmlParameterType)
  | remove (param : Parameter)
  | setIsInstanciable (enable : Bool)
  | instanciate
  | deinstanciate
  | setSelection (index place : ℕ)

def step (self : GebrGeoXmlParameterGroup) : Op → GebrGeoXmlParameterGroup
  | .setExclusive exclusive => self.setExclusive exclusive
  | .append type => self.appendParameter type
  | .remove param => self.remove param
  | .setIsInstanciable enable => { self with instanciable := enable }
  | .instanciate => self.instanciate
  | .deinstanciate => self.deinstanciate
  | .setSelection index place => self.setSelection index place

/-- Operations, one after another. -/
def run (self : GebrGeoXmlParameterGroup) (ops : List Op) : GebrGeoXmlParameterGroup :=
  ops.foldl step self

end Model

section Statement

/-- **The selections are right**: each instance of an exclusive group that has parameters has one of
them selected, and no instance of another group has a selection. -/
structure Selected (group : GebrGeoXmlParameterGroup) : Prop where
  exclusive : group.isExclusive = true → ∀ params ∈ group.instances, params.parameters ≠ [] →
    ∃ place < params.parameters.length, params.getSelection = some place
  free : group.isExclusive = false → ∀ params ∈ group.instances, params.getSelection = none

end Statement

section Lists

variable (self : GebrGeoXmlParameterGroup)

/-- The lists of parameters alone. -/
def GebrGeoXmlParameterGroup.lists : Geoxml.GebrGeoXmlParameterGroup where
  template := self.template.parameters
  instances := self.instances.map GebrGeoXmlParameters.parameters
  instanciable := self.instanciable

/-- What an operation does to the lists of a group, in a document with a next node. -/
def listStep (fresh : ℕ) (group : Geoxml.GebrGeoXmlParameterGroup) :
    Op → Geoxml.GebrGeoXmlParameterGroup
  | .setExclusive _ => group
  | .append type =>
    if type = .reference then group
    else (group.setTemplate (· ++ [insertType fresh type])).doInsertInGroupStuff
      (insertType fresh type)
  | .remove param =>
    if param ∈ group.template then
      (group.removeReferences (group.index param)).setTemplate (List.erase · param)
    else group
  | .setIsInstanciable enable => { group with instanciable := enable }
  | .instanciate =>
    if group.instanciable then
      { group with instances := group.instances ++ [group.template.map setBeReference] }
    else group
  | .deinstanciate =>
    if group.instanciable ∧ 1 < group.instances.length then
      { group with instances := group.instances.dropLast }
    else group
  | .setSelection _ _ => group

@[simp] theorem parameters_insertReference (exclusive : Bool) (index : ℕ) (reference : Reference)
    (params : GebrGeoXmlParameters Reference) :
    (insertReference exclusive index reference params).parameters =
      insertAt index reference params.parameters := by
  unfold insertReference
  dsimp only
  split
  · rw [parameters_setDefaultSelection]
  · rfl

@[simp] theorem parameters_setInstanceExclusive (exclusive : Bool)
    (params : GebrGeoXmlParameters Reference) :
    (setInstanceExclusive exclusive params).parameters = params.parameters := by
  unfold setInstanceExclusive
  split <;> rw [parameters_setDefaultSelection]

theorem lists_setExclusive (exclusive : Bool) : (self.setExclusive exclusive).lists = self.lists := by
  unfold GebrGeoXmlParameterGroup.setExclusive GebrGeoXmlParameterGroup.lists
  cases exclusive <;> simp [Function.comp_def]

theorem lists_doInsertInGroupStuff (param : Parameter) :
    (self.doInsertInGroupStuff param).lists = self.lists.doInsertInGroupStuff param := by
  unfold GebrGeoXmlParameterGroup.doInsertInGroupStuff GebrGeoXmlParameterGroup.lists
    Geoxml.GebrGeoXmlParameterGroup.doInsertInGroupStuff Geoxml.GebrGeoXmlParameterGroup.setInstances
  simp [Function.comp_def, Geoxml.GebrGeoXmlParameterGroup.index]

theorem lists_remove (param : Parameter) :
    (self.remove param).lists = listStep self.fresh self.lists (.remove param) := by
  show (self.remove param).lists = if param ∈ self.template.parameters then _ else _
  unfold GebrGeoXmlParameterGroup.remove
  split
  · unfold GebrGeoXmlParameterGroup.lists
    exact Geoxml.GebrGeoXmlParameterGroup.ext rfl (by
      show (self.instances.map _).map _ = (self.instances.map _).map _
      rw [List.map_map, List.map_map]
      rfl) rfl
  · rfl

theorem lists_setSelection (index place : ℕ) : (self.setSelection index place).lists = self.lists := by
  refine Geoxml.GebrGeoXmlParameterGroup.ext rfl ?_ rfl
  show (self.instances.modify index _).map _ = self.instances.map _
  refine (map_modify fun params _ => ?_).trans (List.modify_id index _)
  split
  · exact parameters_setSelection _
  · rfl

/-- **The lists of parameters** are those of the groups without attributes. -/
theorem lists_step (op : Op) : (step self op).lists = listStep self.fresh self.lists op := by
  cases op with
  | setExclusive exclusive => exact lists_setExclusive self exclusive
  | append type =>
    show (self.appendParameter type).lists = if type = .reference then _ else _
    unfold GebrGeoXmlParameterGroup.appendParameter
    split
    · rfl
    · rw [lists_doInsertInGroupStuff]
      rfl
  | remove param => exact lists_remove self param
  | setIsInstanciable enable => rfl
  | instanciate =>
    show self.instanciate.lists = if self.instanciable then _ else _
    unfold GebrGeoXmlParameterGroup.instanciate
    split
    · refine Geoxml.GebrGeoXmlParameterGroup.ext rfl ?_ rfl
      show (self.instances ++ _).map _ = self.instances.map _ ++ _
      rw [List.map_append]
      rfl
    · rfl
  | deinstanciate =>
    show self.deinstanciate.lists = if self.instanciable ∧ 1 < (self.instances.map _).length then
      _ else _
    unfold GebrGeoXmlParameterGroup.deinstanciate
    rw [List.length_map]
    split
    · refine Geoxml.GebrGeoXmlParameterGroup.ext rfl ?_ rfl
      exact List.map_dropLast
    · rfl
  | setSelection index place => exact lists_setSelection self index place

/-- Each instance has as many references as the template has parameters. -/
def Synced (group : Geoxml.GebrGeoXmlParameterGroup) : Prop :=
  ∀ refs ∈ group.instances, refs.length = group.template.length

variable {group : Geoxml.GebrGeoXmlParameterGroup} {param : Parameter}

theorem synced_append (synced : Synced group) :
    Synced ((group.setTemplate (· ++ [param])).doInsertInGroupStuff param) := by
  intro refs member
  obtain ⟨before, old, rfl⟩ := List.mem_map.1 member
  show (insertAt _ _ before).length = (group.template ++ [param]).length
  rw [(insertAt_perm _ _ before).length_eq, List.length_append, List.length_cons, synced before old]
  rfl

theorem synced_remove (synced : Synced group) (there : param ∈ group.template) :
    Synced ((group.removeReferences (group.index param)).setTemplate (List.erase · param)) := by
  intro refs member
  obtain ⟨before, old, rfl⟩ := List.mem_map.1 member
  show (before.eraseIdx (group.template.idxOf param)).length = (group.template.erase param).length
  have place : group.template.idxOf param < before.length := by
    rw [synced before old]
    exact List.idxOf_lt_length_of_mem there
  rw [List.length_eraseIdx_of_lt place, List.length_erase_of_mem there, synced before old]

theorem synced_instanciate (synced : Synced group) :
    Synced { group with instances := group.instances ++ [group.template.map setBeReference] } := by
  intro refs member
  rcases List.mem_append.1 member with old | new
  · exact synced refs old
  · rw [List.mem_singleton.1 new]
    exact List.length_map _

theorem synced_listStep (synced : Synced group) (fresh : ℕ) (op : Op) :
    Synced (listStep fresh group op) := by
  cases op with
  | setExclusive exclusive => exact synced
  | append type =>
    show Synced (if type = .reference then _ else _)
    split
    · exact synced
    · exact synced_append synced
  | remove param =>
    show Synced (if param ∈ group.template then _ else _)
    split
    · rename_i there
      exact synced_remove synced there
    · exact synced
  | setIsInstanciable enable => exact synced
  | instanciate =>
    show Synced (if group.instanciable then _ else _)
    split
    · exact synced_instanciate synced
    · exact synced
  | deinstanciate =>
    show Synced (if group.instanciable ∧ 1 < group.instances.length then _ else _)
    split
    · exact fun refs member => synced refs (List.dropLast_subset _ member)
    · exact synced
  | setSelection index place => exact synced

end Lists

section Attributes

/-- The attributes of a list name a parameter. -/
structure Chosen {α : Type} (params : GebrGeoXmlParameters α) : Prop where
  default : atol params.defaultSelection ≠ 0
  selection : atol params.selection ≠ 0

/-- They name none. -/
def Free {α : Type} (params : GebrGeoXmlParameters α) : Prop := atol params.defaultSelection = 0

/-- What every operation keeps. An instance gets its parameters together with the template. -/
structure Sound (group : GebrGeoXmlParameterGroup) : Prop where
  synced : Synced group.lists
  chosen : group.isExclusive = true → Chosen group.template ∧
    ∀ params ∈ group.instances, params.parameters ≠ [] → Chosen params
  free : group.isExclusive = false → Free group.template ∧ ∀ params ∈ group.instances, Free params

variable {self : GebrGeoXmlParameterGroup} {params : GebrGeoXmlParameters Reference}

/-- A default selection brings a selection with it. -/
theorem chosen_setDefaultSelection (some_parameter : params.parameters ≠ []) (place : ℕ) :
    Chosen (params.setDefaultSelection (some place)) := by
  have named : atol (formatLong (place + 1)) ≠ 0 := atol_formatLong_ne_zero (Nat.succ_ne_zero place)
  unfold GebrGeoXmlParameters.setDefaultSelection
  dsimp only
  cases selected : ({ params with defaultSelection := formatLong (place + 1) } :
      GebrGeoXmlParameters Reference).getSelection with
  | some p =>
    have there := getSelection_isSome_iff.1 (Option.isSome_of_eq_some selected)
    exact ⟨there.1, there.2.1⟩
  | none =>
    have default := getDefaultSelection_isSome_iff.2
      (show atol ({ params with defaultSelection := formatLong (place + 1) } :
        GebrGeoXmlParameters Reference).defaultSelection ≠ 0 ∧ _ from ⟨named, some_parameter⟩)
    obtain ⟨p, found⟩ := Option.isSome_iff_exists.1 default
    refine ⟨by rwa [defaultSelection_setSelection], ?_⟩
    unfold GebrGeoXmlParameters.setSelection
    rw [found]
    exact named

theorem free_setDefaultSelection {α : Type} {params : GebrGeoXmlParameters α} :
    Free (params.setDefaultSelection none) := by
  show atol [48] = 0
  decide

theorem chosen_setSelection (chosen : Chosen params) (place : ℕ) :
    Chosen (params.setSelection (some place)) where
  default := by
    rw [defaultSelection_setSelection]
    exact chosen.default
  selection := atol_setSelection_ne_zero chosen.selection

/-- The first parameter of an exclusive group is selected, and the next ones leave the selection. -/
theorem chosen_insertReference {index : ℕ} (reference : Reference)
    (before : index ≠ 0 → Chosen params) : Chosen (insertReference true index reference params) := by
  unfold insertReference
  by_cases first : index = 0
  · have entered : insertAt index reference params.parameters ≠ [] :=
      List.ne_nil_of_mem (mem_insertAt.2 (.inl rfl))
    rw [if_pos (by simp [first])]
    exact chosen_setDefaultSelection entered 0
  · simpa [first] using (⟨(before first).default, (before first).selection⟩ :
      Chosen { params with parameters := insertAt index reference params.parameters })

theorem free_insertReference (free : Free params) (index : ℕ) (reference : Reference) :
    Free (insertReference false index reference params) := free

/-- An instance has parameters when the template has. -/
theorem Sound.parameters_ne_nil (sound : Sound self) (here : params ∈ self.instances)
    (some_parameter : self.template.parameters ≠ []) : params.parameters ≠ [] := by
  have same : params.parameters.length = self.template.parameters.length :=
    sound.synced params.parameters (List.mem_map_of_mem here)
  rw [← List.length_pos_iff_ne_nil, same]
  exact List.length_pos_iff_ne_nil.2 some_parameter

end Attributes

section Run

variable {self : GebrGeoXmlParameterGroup}

theorem sound_setExclusive (sound : Sound self) (exclusive : Bool) :
    Sound (self.setExclusive exclusive) where
  synced := by
    rw [lists_setExclusive]
    exact sound.synced
  chosen := by
    cases exclusive with
    | false =>
      intro on
      cases on
    | true =>
      have one : atol (ascii "1") ≠ 0 := by decide
      refine fun _ => ⟨⟨one, one⟩, fun params member some_parameter => ?_⟩
      obtain ⟨before, -, rfl⟩ := List.mem_map.1 member
      rw [parameters_setInstanceExclusive] at some_parameter
      unfold setInstanceExclusive
      rw [if_pos rfl, if_neg some_parameter]
      exact chosen_setDefaultSelection some_parameter 0
  free := by
    cases exclusive with
    | true =>
      intro off
      cases off
    | false =>
      refine fun _ => ⟨show atol (ascii "0") = 0 by decide, fun params member => ?_⟩
      obtain ⟨before, -, rfl⟩ := List.mem_map.1 member
      exact free_setDefaultSelection

theorem sound_append (sound : Sound self) {type : GebrGeoXmlParameterType}
    (param : type ≠ .reference) : Sound (self.appendParameter type) where
  synced := by
    rw [show self.appendParameter type = step self (.append type) from rfl, lists_step]
    exact synced_listStep sound.synced self.fresh (.append type)
  chosen := by
    unfold GebrGeoXmlParameterGroup.appendParameter
    rw [if_neg param]
    intro on
    have exclusive : self.isExclusive = true := on
    obtain ⟨template, instances⟩ := sound.chosen exclusive
    refine ⟨⟨template.default, template.selection⟩, fun params member _ => ?_⟩
    obtain ⟨before, old, rfl⟩ := List.mem_map.1 member
    show Chosen (insertReference self.isExclusive _ _ before)
    rw [exclusive]
    refine chosen_insertReference _ fun later => instances before old ?_
    -- A place that is not the first one has parameters in front of it.
    refine sound.parameters_ne_nil old fun none_yet => later ?_
    dsimp only
    rw [none_yet]
    exact List.idxOf_cons_self
  free := by
    unfold GebrGeoXmlParameterGroup.appendParameter
    rw [if_neg param]
    intro off
    have exclusive : self.isExclusive = false := off
    obtain ⟨template, instances⟩ := sound.free exclusive
    refine ⟨template, fun params member => ?_⟩
    obtain ⟨before, old, rfl⟩ := List.mem_map.1 member
    show Free (insertReference self.isExclusive _ _ before)
    rw [exclusive]
    exact free_insertReference (instances before old) _ _

theorem sound_remove (sound : Sound self) {param : Parameter}
    (there : param ∈ self.template.parameters) : Sound (self.remove param) where
  synced := by
    rw [lists_remove]
    exact synced_listStep sound.synced self.fresh (.remove param)
  chosen := by
    unfold GebrGeoXmlParameterGroup.remove
    rw [if_pos there]
    intro on
    obtain ⟨template, instances⟩ := sound.chosen on
    refine ⟨⟨template.default, template.selection⟩, fun params member some_left => ?_⟩
    obtain ⟨before, old, rfl⟩ := List.mem_map.1 member
    have chosen := instances before old fun none_there => some_left (by
      dsimp only
      rw [none_there, List.eraseIdx_nil])
    exact ⟨chosen.default, chosen.selection⟩
  free := by
    unfold GebrGeoXmlParameterGroup.remove
    rw [if_pos there]
    intro off
    obtain ⟨template, instances⟩ := sound.free off
    refine ⟨template, fun params member => ?_⟩
    obtain ⟨before, old, rfl⟩ := List.mem_map.1 member
    exact instances before old

/-- A new instance has the attributes of the template. -/
theorem sound_addInstance (sound : Sound self) (instanciable : self.instanciable = true) :
    Sound self.addInstance where
  synced := by
    have after := synced_listStep sound.synced self.fresh .instanciate
    rw [← lists_step] at after
    unfold step GebrGeoXmlParameterGroup.instanciate at after
    rwa [if_pos instanciable] at after
  chosen on := by
    obtain ⟨template, instances⟩ := sound.chosen on
    refine ⟨template, fun params member some_parameter => ?_⟩
    rcases List.mem_append.1 member with old | new
    · exact instances params old some_parameter
    · rw [List.mem_singleton.1 new]
      exact ⟨template.default, template.selection⟩
  free off := by
    obtain ⟨template, instances⟩ := sound.free off
    refine ⟨template, fun params member => ?_⟩
    rcases List.mem_append.1 member with old | new
    · exact instances params old
    · rw [List.mem_singleton.1 new]
      exact template

theorem forall_mem_modify {α : Type} {P : α → Prop} {list : List α} {act : α → α} {place : ℕ}
    (all : ∀ a ∈ list, P a) (kept : ∀ a, P a → P (act a)) : ∀ a ∈ list.modify place act, P a := by
  intro a member
  obtain ⟨index, here⟩ := List.mem_iff_getElem?.1 member
  rw [List.getElem?_modify] at here
  obtain ⟨before, old, rfl⟩ := Option.map_eq_some_iff.1 here
  have held := all before (List.mem_of_getElem? old)
  split
  · exact kept before held
  · exact held

theorem sound_setSelection (sound : Sound self) (index place : ℕ) :
    Sound (self.setSelection index place) where
  synced := by
    rw [lists_setSelection]
    exact sound.synced
  chosen on := by
    obtain ⟨template, instances⟩ := sound.chosen on
    refine ⟨template, forall_mem_modify instances fun before chosen => ?_⟩
    split
    · rw [parameters_setSelection]
      exact fun some_parameter => chosen_setSelection (chosen some_parameter) place
    · exact chosen
  free off := by
    obtain ⟨template, instances⟩ := sound.free off
    refine ⟨template, forall_mem_modify instances fun before free => ?_⟩
    split
    · show atol _ = 0
      rw [defaultSelection_setSelection]
      exact free
    · exact free

theorem sound_deinstanciate (sound : Sound self) : Sound self.deinstanciate := by
  have synced := synced_listStep sound.synced self.fresh .deinstanciate
  rw [← lists_step] at synced
  refine ⟨synced, ?_, ?_⟩
  all_goals
    unfold GebrGeoXmlParameterGroup.deinstanciate
    split
  · intro on
    obtain ⟨template, instances⟩ := sound.chosen on
    exact ⟨template, fun params member => instances params (List.dropLast_subset _ member)⟩
  · exact sound.chosen
  · intro off
    obtain ⟨template, instances⟩ := sound.free off
    exact ⟨template, fun params member => instances params (List.dropLast_subset _ member)⟩
  · exact sound.free

/-- **Every operation keeps it.** -/
theorem Sound.step (sound : Sound self) (op : Op) : Sound (step self op) := by
  cases op with
  | setExclusive exclusive => exact sound_setExclusive sound exclusive
  | append type =>
    by_cases reference : type = .reference
    · show Sound (self.appendParameter type)
      unfold GebrGeoXmlParameterGroup.appendParameter
      rwa [if_pos reference]
    · exact sound_append sound reference
  | remove param =>
    by_cases there : param ∈ self.template.parameters
    · exact sound_remove sound there
    · show Sound (self.remove param)
      unfold GebrGeoXmlParameterGroup.remove
      rwa [if_neg there]
  | setIsInstanciable enable => exact ⟨sound.synced, sound.chosen, sound.free⟩
  | instanciate =>
    show Sound (if self.instanciable then _ else _)
    split
    · rename_i instanciable
      exact sound_addInstance sound instanciable
    · exact sound
  | deinstanciate => exact sound_deinstanciate sound
  | setSelection index place => exact sound_setSelection sound index place

theorem Sound.run (sound : Sound self) (ops : List Op) : Sound (run self ops) := by
  induction ops generalizing self with
  | nil => exact sound
  | cons op ops ih => exact ih (sound.step op)

theorem sound_new : Sound .new where
  synced _ member := by
    rw [List.mem_singleton.1 member]
    rfl
  chosen on := by cases on
  free _ := by
    refine ⟨free_setDefaultSelection, fun params member => ?_⟩
    rw [List.mem_singleton.1 member]
    exact free_setDefaultSelection

theorem Sound.selected (sound : Sound self) : Selected self where
  exclusive on params here some_parameter := by
    have chosen := (sound.chosen on).2 params here some_parameter
    have selected := getSelection_isSome_iff.2 ⟨chosen.default, chosen.selection, some_parameter⟩
    obtain ⟨place, found⟩ := Option.isSome_iff_exists.1 selected
    exact ⟨place, lt_of_getSelection found, found⟩
  free off params here := by
    rw [← Option.not_isSome_iff_eq_none, getSelection_isSome_iff]
    exact fun chosen => chosen.1 ((sound.free off).2 params here)

/-- **The selections in every group that the operations make.** -/
theorem run_selected (ops : List Op) : Selected (run .new ops) := (sound_new.run ops).selected

end Run

end Gebr.Geoxml.Exclusive
