/-
**Parameter groups: a template and its instances.**

A group has a template, which is a sequence of parameters, and instances, each a sequence of
references. Which parameter a reference stands for is never written down: it is the one at the same
place of the template. So each operation on a parameter of a template is repeated on all instances.

* `GebrGeoXmlParameterGroup`, `Program`: the groups of a program. A parameter that is in the
  template of none of them is outside, where its place is of no matter here.
* `step`: the operations of `sequence.c`, `parameters.c` and `parameter_group.c`.
* `Harmless`: the operations that read the places of the references at the right moment.

A position is a parameter of a template or one outside, as in every call of the programs: they hold
no reference that they give as a position. A group is in no group.
-/

import Gebr.Geoxml.DictSplit
import Gebr.Lib.ListMove

namespace Gebr.Geoxml

open Gebr.Lib.CString (ascii)
open Gebr.Lib.ListMove

/-- A parameter of a template, or one in no group. -/
structure Parameter where
  /-- The node of the document. -/
  id : ℕ
  type : GebrGeoXmlParameterType
  default : Text
  deriving DecidableEq

/-- A reference, in an instance. -/
structure Reference where
  /-- What the user has set. -/
  value : Text
  default : Text
  deriving DecidableEq

@[ext]
structure GebrGeoXmlParameterGroup where
  template : List Parameter
  instances : List (List Reference)
  instanciable : Bool
  deriving DecidableEq

/-- The groups of a program; `fresh` is the next node of the document. -/
structure Program where
  groups : List GebrGeoXmlParameterGroup
  fresh : ℕ
  deriving DecidableEq

section Groups

/-- `__gebr_geoxml_parameter_set_be_reference` on a clone: the default is kept, the value is not. -/
def setBeReference (param : Parameter) : Reference where
  value := []
  default := gebrGeoxmlRemoveLineBreak param.default

/-- A parameter that `append_parameter` makes. A flag is off. -/
def insertType (id : ℕ) (type : GebrGeoXmlParameterType) : Parameter where
  id := id
  type := type
  default := if type = .flag then ascii "off" else []

/-- What is done to one group. -/
def Program.modify (self : Program) (group : ℕ)
    (act : GebrGeoXmlParameterGroup → GebrGeoXmlParameterGroup) : Program :=
  { self with groups := self.groups.modify group act }

def GebrGeoXmlParameterGroup.setTemplate (self : GebrGeoXmlParameterGroup)
    (act : List Parameter → List Parameter) : GebrGeoXmlParameterGroup :=
  { self with template := act self.template }

/-- The same for the references of each instance. -/
def GebrGeoXmlParameterGroup.setInstances (self : GebrGeoXmlParameterGroup)
    (act : List Reference → List Reference) : GebrGeoXmlParameterGroup :=
  { self with instances := self.instances.map act }

/-- `gebr_geoxml_parameter_get_group`; of a null parameter, see `groupAt`. -/
def Program.groupOf (self : Program) (param : Parameter) : Option ℕ :=
  (self.groups.map GebrGeoXmlParameterGroup.template).findIdx? fun params => param ∈ params

/-- The group of a position, which may be null. -/
def Program.groupAt (self : Program) (position : Option Parameter) : Option ℕ :=
  position.bind self.groupOf

/-- `gebr_geoxml_sequence_get_index` of a parameter of a template. -/
def GebrGeoXmlParameterGroup.index (self : GebrGeoXmlParameterGroup) (param : Parameter) : ℕ :=
  self.template.idxOf param

/-- `__gebr_geoxml_parameters_do_insert_in_group_stuff`: a reference in each instance, at the place
that the parameter has in the template. -/
def GebrGeoXmlParameterGroup.doInsertInGroupStuff (self : GebrGeoXmlParameterGroup)
    (param : Parameter) : GebrGeoXmlParameterGroup :=
  self.setInstances (insertAt (self.index param) (setBeReference param))

/-- The references of a parameter, removed from the instances. -/
def GebrGeoXmlParameterGroup.removeReferences (self : GebrGeoXmlParameterGroup) (index : ℕ) :
    GebrGeoXmlParameterGroup :=
  self.setInstances fun refs => refs.eraseIdx index

end Groups

section Moves

/-- `__gebr_geoxml_sequence_move_before` and `__gebr_geoxml_sequence_move_after`. -/
inductive MoveFunction
  | before
  | after
  deriving DecidableEq

variable {α : Type*}

/-- An element next to another one of its list. -/
def MoveFunction.place : MoveFunction → ℕ → ℕ → List α → List α
  | .before => moveBefore
  | .after => moveAfter

/-- Where an element of another list is put. -/
def MoveFunction.slot : MoveFunction → ℕ → ℕ
  | .before, index => index
  | .after, index => index + 1

/-- An element moved next to null: to the end of its list or to the front. -/
def MoveFunction.far [DecidableEq α] : MoveFunction → α → List α → List α
  | .before, a, list => list.erase a ++ [a]
  | .after, a, list => a :: list.erase a

/-- The move function on a parameter; it leaves the instances alone. -/
def Program.moveNode (self : Program) (move : MoveFunction) (param : Parameter) :
    Option Parameter → Program
  | none =>
    match self.groupOf param with
    | none => self
    | some group => self.modify group fun g => g.setTemplate (move.far param)
  | some position =>
    if param = position then self
    else
      match self.groupOf param, self.groupOf position with
      | none, none => self
      | none, some target =>
        self.modify target fun g => g.setTemplate (insertAt (move.slot (g.index position)) param)
      | some group, none => self.modify group fun g => g.setTemplate (List.erase · param)
      | some group, some target =>
        if group = target then
          self.modify group fun g => g.setTemplate (move.place (g.index param) (g.index position))
        else
          (self.modify group fun g => g.setTemplate (List.erase · param)).modify target fun g =>
            g.setTemplate (insertAt (move.slot (g.index position)) param)

/-- The place of a parameter in the template of a group. -/
def Program.indexIn (self : Program) (group : ℕ) (param : Parameter) : ℕ :=
  ((self.groups[group]?).map fun g => g.index param).getD 0

/-- `do_insert_in_group_stuff` on the parameters that a parameter is in; outside it does nothing. -/
def Program.doInsert (self : Program) (param : Parameter) : Program :=
  match self.groupOf param with
  | none => self
  | some group => self.modify group fun g => g.doInsertInGroupStuff param

/-- `__gebr_geoxml_sequence_move_after_before` on a parameter. -/
def Program.moveAfterBefore (self : Program) (move : MoveFunction) (param : Parameter)
    (position : Option Parameter) : Program :=
  match self.groupOf param with
  | some group =>
    -- The references of the parameter are looked up before the move.
    let index := self.indexIn group param
    let moved := self.moveNode move param position
    if some group = moved.groupAt position then
      -- Those of the position are looked up after it, when its place may be another one.
      let place := ((position.map (moved.indexIn group)).getD 0)
      moved.modify group fun g => g.setInstances (move.place index place)
    else (moved.modify group fun g => g.removeReferences index).doInsert param
  | none =>
    let moved := self.moveNode move param position
    match moved.groupAt position with
    | none => moved
    | some _ => moved.doInsert param

/-- `__gebr_geoxml_sequence_move_up`: no move for the first element. -/
def moveUp (index : ℕ) (list : List α) : List α :=
  if index = 0 then list else moveBefore index (index - 1) list

/-- `__gebr_geoxml_sequence_move_down`: no move for the last element. -/
def moveDown (index : ℕ) (list : List α) : List α :=
  if index + 1 < list.length then moveAfter index (index + 1) list else list

/-- `gebr_geoxml_sequence_move_up` on a parameter of a group. The references that move up are those
at the place that the parameter has got. -/
def GebrGeoXmlParameterGroup.moveUp (self : GebrGeoXmlParameterGroup) (param : Parameter) :
    GebrGeoXmlParameterGroup :=
  if self.index param = 0 then self
  else
    let moved := self.setTemplate (Geoxml.moveUp (self.index param))
    moved.setInstances (Geoxml.moveUp (moved.index param))

/-- `gebr_geoxml_sequence_move_down` on a parameter of a group. -/
def GebrGeoXmlParameterGroup.moveDown (self : GebrGeoXmlParameterGroup) (param : Parameter) :
    GebrGeoXmlParameterGroup :=
  if self.index param + 1 < self.template.length then
    let moved := self.setTemplate (Geoxml.moveDown (self.index param))
    moved.setInstances (Geoxml.moveDown (moved.index param))
  else self

/-- `gebr_geoxml_sequence_move_into_group`. -/
def Program.moveIntoGroup (self : Program) (param : Parameter) (target : ℕ) : Program :=
  let cleared := match self.groupOf param with
    | none => self
    | some group => (self.modify group fun g => g.removeReferences (g.index param)).modify group
        fun g => g.setTemplate (List.erase · param)
  (cleared.modify target fun g => g.setTemplate (· ++ [param])).modify target fun g =>
    g.doInsertInGroupStuff param

end Moves

section Step

/-- What is done to a sequence. -/
inductive Action
  | appendClone
  | remove
  | move (function : MoveFunction) (position : Option Parameter)
  | moveUp
  | moveDown
  | moveIntoGroup (target : ℕ)

/-- A sequence is a parameter, or a reference of an instance. -/
inductive Sequence
  | parameter (param : Parameter)
  | reference

inductive Op
  /-- `gebr_geoxml_parameters_append_parameter` on the template of a group. -/
  | append (group : ℕ) (type : GebrGeoXmlParameterType)
  | sequence (sequence : Sequence) (action : Action)
  | instanciate (group : ℕ)
  | deinstanciate (group : ℕ)
  /-- `gebr_geoxml_sequence_remove` on an instance. -/
  | removeInstance (group index : ℕ)
  | setIsInstanciable (group : ℕ) (enable : Bool)
  /-- The user sets the value of a reference. -/
  | setValue (group index place : ℕ) (value : Text)

/-- An action on a parameter of the document. -/
def Program.act (self : Program) (param : Parameter) : Action → Program
  | .appendClone =>
    let next := { self with fresh := self.fresh + 1 }
    match self.groupOf param with
    | none => next
    | some group => next.modify group fun g =>
        { g with
          template := g.template ++ [{ param with id := self.fresh }]
          instances := g.instances.map fun refs => refs ++ (refs[g.index param]?).toList }
  | .remove =>
    match self.groupOf param with
    | none => self
    | some group => (self.modify group fun g => g.removeReferences (g.index param)).modify group
        fun g => g.setTemplate (List.erase · param)
  | .move function position => self.moveAfterBefore function param position
  | .moveUp =>
    match self.groupOf param with
    | none => self
    | some group => self.modify group fun g => g.moveUp param
  | .moveDown =>
    match self.groupOf param with
    | none => self
    | some group => self.modify group fun g => g.moveDown param
  | .moveIntoGroup target => self.moveIntoGroup param target

/-- One operation. A reference is refused: it is not in the master instance. A node that the
document has not made is not there to be given. -/
def step (self : Program) : Op → Program
  | .append group type =>
    if type = .reference then self
    else
      let param := insertType self.fresh type
      { self with fresh := self.fresh + 1 }.modify group fun g =>
        (g.setTemplate (· ++ [param])).doInsertInGroupStuff param
  | .sequence .reference _ => self
  | .sequence (.parameter param) action =>
    if param.id < self.fresh then self.act param action else self
  | .instanciate group => self.modify group fun g =>
      if g.instanciable then { g with instances := g.instances ++ [g.template.map setBeReference] }
      else g
  | .deinstanciate group => self.modify group fun g =>
      if g.instanciable ∧ 1 < g.instances.length then { g with instances := g.instances.dropLast }
      else g
  | .removeInstance group index => self.modify group fun g =>
      if g.instances.length = 1 then g else { g with instances := g.instances.eraseIdx index }
  | .setIsInstanciable group enable => self.modify group fun g => { g with instanciable := enable }
  | .setValue group index place value => self.modify group fun g =>
      { g with instances := g.instances.modify index fun refs =>
          refs.modify place fun ref => { ref with value } }

end Step

section Harmless

/-- No instance has a value that the user set for the parameter. -/
def Program.Unset (self : Program) (group : ℕ) (param : Parameter) : Prop :=
  ∀ g, self.groups[group]? = some g → ∀ refs ∈ g.instances,
    refs[g.index param]? = some (setBeReference param)

/-- A move to a position that keeps its place, or a move that has no values to lose. -/
def Program.HarmlessMove (self : Program) (param : Parameter) (group : ℕ) :
    MoveFunction → Option Parameter → Prop
  | _, none => self.Unset group param
  | .before, some position => self.groupOf position = some group →
      self.indexIn group param ≤ self.indexIn group position
  | .after, some position => self.groupOf position = some group →
      self.indexIn group position ≤ self.indexIn group param

/-- What may be done to a parameter of a group without mixing up its references. -/
def Program.HarmlessAction (self : Program) (param : Parameter) (group : ℕ) : Action → Prop
  | .appendClone => True
  | .remove => True
  | .move function position => self.HarmlessMove param group function position
  | .moveUp => self.indexIn group param = 0
  | .moveDown => ∀ g, self.groups[group]? = some g → g.template.length ≤ g.index param + 1
  | .moveIntoGroup target => target = group → self.Unset group param

/-- **The harmless operations**: a move within a group away from the position's place, a move up or
down only where there is nowhere to move, a move that drops the references only if no value is
set. -/
def Harmless (self : Program) : Op → Prop
  | .sequence (.parameter param) action =>
    ∀ group, self.groupOf param = some group → self.HarmlessAction param group action
  | _ => True

end Harmless

end Gebr.Geoxml
