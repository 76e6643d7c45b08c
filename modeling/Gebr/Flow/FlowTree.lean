/-
**The tree of a flow: its content, its snapshots, and the edits.**

The root element of a flow has the content of the flow as children (title, dictionary, programs,
...) and its snapshots, which the DTD wants behind all content. Every function that adds a child has
its own way to find the place.

* `appendRevision`, `changeToRevision`: the snapshot of a flow, and the way back to it.
* `appendProgram`, `addFlow`, `appendCategory`: children that go before the snapshots.
* `clipboardPaste`, `sequenceAppendClone`: children that go to the end.
* `sequenceMove`: programs and categories that move next to one of their kind, as `sequence.c` moves
  them.
* `step`: an edit of a flow, a snapshot, or a way back.
-/

import Gebr.Flow.ChainValidate
import Gebr.Geoxml.SequenceMoves
import Gebr.Lib.Run

namespace Gebr.Flow.Restore

open Gebr.Flow.Chain (Text)
open Gebr.Geoxml (Moves.Tag Moves.Element Moves.Op Moves.apply)
open Gebr.Lib.CString (ascii decimal)
open Gebr.Lib.ListMove (insertAt)

section Tree

/-- The elements of a flow other than its snapshots. -/
inductive Tag where
  | title
  | description
  | help
  | author
  | email
  | dict
  | parent
  | date
  | category
  | server
  | program
  deriving DecidableEq, Repr

/-- The children that come in sequences; the others are there once. -/
def Tag.isSequence (tag : Tag) : Bool := tag = .category ∨ tag = .program

/-- A child of the root: the value `__gebr_geoxml_get_element_value` reads of it, and all below
it. -/
structure Element (β : Type) where
  tag : Tag
  value : Text
  body : β
  deriving DecidableEq, Repr

/-- A `<revision>` element; `data` is the text of the flow it keeps. -/
structure Revision (Xml : Type) where
  data : Xml
  date : Text
  comment : Text
  id : Text
  deriving DecidableEq, Repr

inductive Child (Xml β : Type) where
  | content (element : Element β)
  | revision (revision : Revision Xml)
  deriving DecidableEq, Repr

/-- The children of the root of a flow, in their order. -/
abbrev GebrGeoXmlFlow (Xml β : Type) : Type := List (Child Xml β)

/-- The XML loader and writer. A document that was just written loads back as it was. -/
structure FlowCodec (Xml β : Type) where
  loadBuffer : Xml → Option (GebrGeoXmlFlow Xml β)
  toString : GebrGeoXmlFlow Xml β → Xml
  load_toString : ∀ doc, loadBuffer (toString doc) = some doc

/-- What the edits of a flow read and write inside of programs and dictionaries. -/
structure Bodies (β : Type) where
  /-- `gebr_geoxml_program_get_control`. -/
  control : β → GebrGeoXmlProgramControl
  /-- `gebr_geoxml_program_get_status` is `GEBR_GEOXML_PROGRAM_STATUS_DISABLED`. -/
  disabled : β → Bool
  /-- The program `gebr_geoxml_flow_append_program` makes. -/
  newProgram : β
  /-- What is below a category. -/
  newCategory : β
  /-- `gebr_geoxml_flow_insert_iter_dict`, on the `dict` element. -/
  insertIter : β → β

variable {Xml β : Type}

def Child.isRevision : Child Xml β → Bool
  | .content _ => false
  | .revision _ => true

def Child.hasTag (tag : Tag) : Child Xml β → Bool
  | .content element => element.tag = tag
  | .revision _ => false

/-- The content children. -/
def contents (flow : GebrGeoXmlFlow Xml β) : List (Element β) :=
  flow.filterMap fun child =>
    match child with
    | .content element => some element
    | .revision _ => none

/-- The stored revisions. -/
def revisions (flow : GebrGeoXmlFlow Xml β) : List (Revision Xml) :=
  flow.filterMap fun child =>
    match child with
    | .content _ => none
    | .revision revision => some revision

/-- The content behind the first snapshot. -/
def behind (flow : GebrGeoXmlFlow Xml β) : List (Element β) :=
  contents (flow.dropWhile fun child => !child.isRevision)

end Tree

section Properties

variable {Xml β : Type}

/-- `__gebr_geoxml_remove_line_break`. -/
def removeLineBreak (value : Text) : Text := value.filter fun b => b ≠ 10

/-- `__gebr_geoxml_get_first_element` for the elements that are there once: their tags come before
any element below which they are found again. `change` is what is done to the element. -/
def onFirst (tag : Tag) (change : Element β → Element β) : GebrGeoXmlFlow Xml β → GebrGeoXmlFlow Xml β
  | [] => []
  | .content element :: flow =>
    if element.tag = tag then .content (change element) :: flow
    else .content element :: onFirst tag change flow
  | .revision revision :: flow => .revision revision :: onFirst tag change flow

/-- The value of the first element with a tag. -/
def getFirst (tag : Tag) (flow : GebrGeoXmlFlow Xml β) : Option Text :=
  ((contents flow).find? fun element => element.tag = tag).map Element.value

/-- The first element with a tag gets another value, as it is. -/
def putFirst (tag : Tag) (value : Text) (flow : GebrGeoXmlFlow Xml β) : GebrGeoXmlFlow Xml β :=
  onFirst tag (fun element => { element with value := value }) flow

/-- `get_document_property`. -/
def getDocumentProperty (tag : Tag) (flow : GebrGeoXmlFlow Xml β) : Text := (getFirst tag flow).getD []

/-- `set_document_simple_property`: the value becomes a text node, which loses its line breaks. -/
def setDocumentSimpleProperty (tag : Tag) (value : Text) (flow : GebrGeoXmlFlow Xml β) :
    GebrGeoXmlFlow Xml β :=
  putFirst tag (removeLineBreak value) flow

end Properties

section Snapshots

variable {Xml β : Type}

/-- The place before the first snapshot; without one, the place at the end. -/
def firstRevision (flow : GebrGeoXmlFlow Xml β) : ℕ := flow.findIdx Child.isRevision

/-- The clone loses its first snapshot and the ones that follow it at once. -/
def removeRevisions (flow : GebrGeoXmlFlow Xml β) : GebrGeoXmlFlow Xml β :=
  (flow.takeWhile fun child => !child.isRevision) ++
    (flow.dropWhile fun child => !child.isRevision).dropWhile Child.isRevision

/-- `gebr_create_id_with_current_time`. -/
def gebrCreateIdWithCurrentTime (sec usec : ℕ) : Text := decimal sec ++ decimal usec

/-- The element `gebr_geoxml_flow_append_revision` makes, at a time and with the date of it. -/
def newRevision (codec : FlowCodec Xml β) (date : Text) (sec usec : ℕ) (comment : Text)
    (flow : GebrGeoXmlFlow Xml β) : Revision Xml where
  data := codec.toString (removeRevisions flow)
  date := date
  comment := comment
  id := gebrCreateIdWithCurrentTime sec usec

/-- `gebr_geoxml_flow_append_revision`. -/
def appendRevision (codec : FlowCodec Xml β) (date : Text) (sec usec : ℕ) (comment : Text)
    (flow : GebrGeoXmlFlow Xml β) : GebrGeoXmlFlow Xml β :=
  insertAt (firstRevision flow) (.revision (newRevision codec date sec usec comment flow)) flow

/-- `gebr_geoxml_flow_change_to_revision`: what it returns, and the flow. -/
def changeToRevision (codec : FlowCodec Xml β) (revision : Revision Xml)
    (flow : GebrGeoXmlFlow Xml β) : Bool × GebrGeoXmlFlow Xml β :=
  match codec.loadBuffer revision.data with
  | none => (false, flow)
  | some revisionFlow =>
    let revisionHelp := getDocumentProperty .help revisionFlow
    -- All children up to the first snapshot go; those of the stored flow are put before it.
    let flow := revisionFlow ++ flow.dropWhile fun child => !child.isRevision
    let flow := setDocumentSimpleProperty .help revisionHelp flow
    (true, setDocumentSimpleProperty .parent revision.id flow)

end Snapshots

section Children

variable {Xml β : Type}

/-- The first child with a tag and those with the tag that follow it at once, as
`gebr_geoxml_sequence_next` goes over them. -/
def sequence (tag : Tag) (flow : GebrGeoXmlFlow Xml β) : List (Element β) :=
  contents ((flow.dropWhile fun child => !child.hasTag tag).takeWhile (Child.hasTag tag))

/-- `gebr_geoxml_flow_get_control_program`. -/
def getControlProgram (bodies : Bodies β) (flow : GebrGeoXmlFlow Xml β) : Option (Element β) :=
  (sequence .program flow).find? fun program =>
    bodies.control program.body ≠ .ordinary ∧ bodies.control program.body ≠ .unknown

/-- A program goes before the first snapshot. -/
def insertProgram (flow : GebrGeoXmlFlow Xml β) (program : Element β) : GebrGeoXmlFlow Xml β :=
  insertAt (firstRevision flow) (.content program) flow

/-- `gebr_geoxml_flow_append_program`. -/
def appendProgram (bodies : Bodies β) (flow : GebrGeoXmlFlow Xml β) : GebrGeoXmlFlow Xml β :=
  insertProgram flow ⟨.program, [], bodies.newProgram⟩

/-- `gebr_geoxml_flow_append_category`. -/
def appendCategory (bodies : Bodies β) (flow : GebrGeoXmlFlow Xml β) (name : Text) :
    GebrGeoXmlFlow Xml β :=
  if (sequence .category flow).any fun category => category.value = name then flow
  else
    insertAt (flow.findIdx (Child.hasTag .server))
      (.content ⟨.category, removeLineBreak name, bodies.newCategory⟩) flow

/-- `gebr_geoxml_flow_add_flow`. -/
def addFlow (bodies : Bodies β) (flow flow2 : GebrGeoXmlFlow Xml β) : GebrGeoXmlFlow Xml β :=
  let hasControl1 := (getControlProgram bodies flow).isSome
  let programs := (contents flow2).filter fun element => element.tag = .program
  let flow := programs.foldl insertProgram flow
  let flow := ((sequence .category flow2).map Element.value).foldl (appendCategory bodies) flow
  match hasControl1, getControlProgram bodies flow2 with
  | false, some loop =>
    if bodies.disabled loop.body then flow
    else onFirst .dict (fun dict => { dict with body := bodies.insertIter dict.body }) flow
  | _, _ => flow

/-- A program of the clipboard, pasted: a second loop is passed by. It goes to the end. -/
def pasteProgram (bodies : Bodies β) (flow : GebrGeoXmlFlow Xml β) (pasted : β) :
    GebrGeoXmlFlow Xml β :=
  if (getControlProgram bodies flow).isSome ∧ bodies.control pasted ≠ .ordinary then flow
  else flow ++ [.content ⟨.program, [], pasted⟩]

/-- `gebr_geoxml_clipboard_paste` of the programs of the clipboard. -/
def clipboardPaste (bodies : Bodies β) (clipboard : List β) (flow : GebrGeoXmlFlow Xml β) :
    GebrGeoXmlFlow Xml β :=
  clipboard.foldl (pasteProgram bodies) flow

/-- `gebr_geoxml_sequence_append_clone` of a program or category: the clone goes to the end. -/
def sequenceAppendClone (place : ℕ) (flow : GebrGeoXmlFlow Xml β) : GebrGeoXmlFlow Xml β :=
  flow ++ flow[place]?.toList

/-- `gebr_geoxml_sequence_remove` of a program or category. -/
def sequenceRemove (place : ℕ) (flow : GebrGeoXmlFlow Xml β) : GebrGeoXmlFlow Xml β :=
  flow.eraseIdx place

/-- The kind of an element, as `sequence.c` knows it. -/
def Tag.kind : Tag → Moves.Tag
  | .category => .category
  | .server => .server
  | .program => .program
  | .title => .other (ascii "title")
  | .description => .other (ascii "description")
  | .help => .other (ascii "help")
  | .author => .other (ascii "author")
  | .email => .other (ascii "email")
  | .dict => .other (ascii "dict")
  | .parent => .other (ascii "parent")
  | .date => .other (ascii "date")

def Child.kind : Child Xml β → Moves.Tag
  | .content element => element.tag.kind
  | .revision _ => .revision

/-- The children of the root, each a node with its place. -/
def nodes (flow : GebrGeoXmlFlow Xml β) : List Moves.Element :=
  flow.mapIdx fun place child => ⟨child.kind, place⟩

/-- The children that are the nodes of a list. -/
def childrenOf (flow : GebrGeoXmlFlow Xml β) (list : List Moves.Element) : GebrGeoXmlFlow Xml β :=
  list.filterMap fun node => flow[node.id]?

/-- Where the moves of `sequence.c` put an element of a sequence. -/
inductive Target where
  /-- `gebr_geoxml_sequence_move_before` with a position. -/
  | before (place : ℕ)
  /-- `gebr_geoxml_sequence_move_before` without one: behind the last of its sequence. -/
  | last
  /-- `gebr_geoxml_sequence_move_after` with a position. -/
  | after (place : ℕ)
  /-- `gebr_geoxml_sequence_move_after` without one: before the first of its sequence. -/
  | first
  /-- `gebr_geoxml_sequence_move_up`. -/
  | up
  /-- `gebr_geoxml_sequence_move_down`. -/
  | down
  deriving DecidableEq, Repr

/-- The operation on a node; none where there is no child at the position. -/
def Target.op (list : List Moves.Element) (node : Moves.Element) : Target → Option Moves.Op
  | .before place => list[place]?.map fun position => .moveBefore node (some position)
  | .last => some (.moveBefore node none)
  | .after place => list[place]?.map fun position => .moveAfter node (some position)
  | .first => some (.moveAfter node none)
  | .up => some (.moveUp node)
  | .down => some (.moveDown node)

/-- The move of the element at a place: the children are where their nodes are then. -/
def sequenceMove (element : Element β) (source : ℕ) (target : Target) (flow : GebrGeoXmlFlow Xml β) :
    GebrGeoXmlFlow Xml β :=
  match target.op (nodes flow) ⟨element.tag.kind, source⟩ with
  | none => flow
  | some op => childrenOf flow (Moves.apply (nodes flow) op).2

end Children

section Run

variable {Xml β : Type}

/-- What happens to a flow. -/
inductive Event (Xml β : Type) where
  /-- `gebr_geoxml_document_set_title` and the other functions of its kind. -/
  | setProperty (tag : Tag) (value : Text)
  /-- Anything below a child: parameters, dictionary, files, dates. -/
  | edit (place : ℕ) (value : Text) (body : β)
  | appendProgram
  | appendCategory (name : Text)
  | addFlow (flow2 : GebrGeoXmlFlow Xml β)
  | paste (clipboard : List β)
  | appendClone (place : ℕ)
  | remove (place : ℕ)
  | move (source : ℕ) (target : Target)
  | appendRevision (date : Text) (sec usec : ℕ) (comment : Text)
  | changeToRevision (revision : Revision Xml)

/-- The program or category at a place. -/
def sequenceAt (place : ℕ) (flow : GebrGeoXmlFlow Xml β) : Option (Element β) :=
  match flow[place]? with
  | some (.content element) => if element.tag.isSequence then some element else none
  | _ => none

/-- The children that are there once are there, as the DTD wants it. -/
def Complete (flow : GebrGeoXmlFlow Xml β) : Prop :=
  ∀ tag : Tag, tag.isSequence = false → ∃ element ∈ contents flow, element.tag = tag

instance (flow : GebrGeoXmlFlow Xml β) : Decidable (Complete flow) :=
  decidable_of_iff (∀ tag ∈ [Tag.title, .description, .help, .author, .email, .dict, .parent, .date,
      .category, .server, .program], tag.isSequence = false →
        (contents flow).any (fun element => element.tag = tag) = true) (by
    constructor
    · intro all tag single
      obtain ⟨element, member, same⟩ :=
        List.any_eq_true.1 (all tag (by cases tag <;> decide) single)
      exact ⟨element, member, of_decide_eq_true same⟩
    · intro all tag _ single
      obtain ⟨element, member, same⟩ := all tag single
      exact List.any_eq_true.2 ⟨element, member, decide_eq_true same⟩)

/-- One event on a flow. -/
def step (codec : FlowCodec Xml β) (bodies : Bodies β) (flow : GebrGeoXmlFlow Xml β) :
    Event Xml β → Option (GebrGeoXmlFlow Xml β)
  | .setProperty tag value => some (setDocumentSimpleProperty tag value flow)
  | .edit place value body =>
    match flow[place]? with
    | some (.content element) => some (flow.set place (.content ⟨element.tag, value, body⟩))
    | _ => none
  | .appendProgram => some (appendProgram bodies flow)
  | .appendCategory name => some (appendCategory bodies flow name)
  | .addFlow flow2 => some (addFlow bodies flow flow2)
  | .paste clipboard => some (clipboardPaste bodies clipboard flow)
  | .appendClone place => (sequenceAt place flow).map fun _ => sequenceAppendClone place flow
  | .remove place => (sequenceAt place flow).map fun _ => sequenceRemove place flow
  | .move source target =>
    (sequenceAt source flow).map fun element => sequenceMove element source target flow
  | .appendRevision date sec usec comment => some (appendRevision codec date sec usec comment flow)
  | .changeToRevision revision =>
    match codec.loadBuffer revision.data with
    -- What loads was validated, and a snapshot is stored without the snapshots of its flow.
    | none => some (changeToRevision codec revision flow).2
    | some doc =>
      if revisions doc = [] ∧ Complete doc then some (changeToRevision codec revision flow).2 else none

end Run

end Gebr.Flow.Restore
