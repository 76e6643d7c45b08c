/-
**A function over all paths of a flow.**

The flow's own files, the values of the file parameters of its programs and, after each snapshot was
loaded, the same places in the snapshots. A program with a path may be marked; the callback that
marks it also ends the walk.

* `flowPathsForeachParameter`, `programForeachParameter`, `gebrFlowModifyPaths`: the source.
* `rewritten`: each path is what the function makes of it, and nothing else is changed.
* `Inside`: the flow and all that its loadable snapshots hold.
* `onSnapshots_eq_iff`: two ways to change a flow and its snapshots agree iff they agree on each
  flow inside.
* `paths_iff` — **when the function reaches every path**.
* `noPath_of_clear`: clearing each path leaves none.
* `second_file`: two file parameters, cleared with the mark.
-/

import Gebr.Flow.FlowTree
import Gebr.Geoxml.DictSplit
import Gebr.Geoxml.ParameterWalk

namespace Gebr.Flow.Paths

open Gebr.Geoxml
open Gebr.Geoxml.Reset
open Gebr.Lib.CString (decimal)

abbrev Text : Type := List UInt8

variable {Xml β γ δ ε : Type}

section Model

/-- A path, as a text node holds it. -/
@[ext]
structure Path where
  text : Text
  oneLine : 10 ∉ text

/-- What is set in a text node. -/
def Path.set (text : Text) : Path := ⟨gebrGeoxmlRemoveLineBreak text, removeLineBreak_oneLine text⟩

/-- `GebrFlowModifyPathsFunc`, with its data. -/
abbrev GebrFlowModifyPathsFunc : Type := Path → Path

/-- A parameter that is no group. Its type is that of the parameter it may refer to. -/
abbrev Leaf (β : Type) : Type := ProgramParameter (GebrGeoXmlParameterType × β)

abbrev ParameterList (β γ : Type) : Type :=
  GebrGeoXmlParameters (Parameter (GebrGeoXmlParameterType × β) γ)

/-- A program. Its MPI settings may have parameters, too. -/
@[ext]
structure GebrGeoXmlProgram (β γ δ : Type) where
  rest : δ
  errorid : Text
  parameters : ParameterList β γ
  mpi : Option (ParameterList β γ)

@[ext]
structure GebrGeoXmlFlow (Xml β γ δ ε : Type) where
  rest : ε
  input : Path
  output : Path
  error : Path
  programs : List (GebrGeoXmlProgram β γ δ)
  revisions : List (Restore.Revision Xml)

/-- The XML loader and writer. A flow that was just written loads back as it was, and snapshots are
not nested without end. -/
structure FlowCodec (Xml β γ δ ε : Type) where
  loadBuffer : Xml → Option (GebrGeoXmlFlow Xml β γ δ ε)
  toString : GebrGeoXmlFlow Xml β γ δ ε → Xml
  load_toString : ∀ flow, loadBuffer (toString flow) = some flow
  nested : WellFounded fun rev flow : GebrGeoXmlFlow Xml β γ δ ε =>
    ∃ revision ∈ flow.revisions, loadBuffer revision.data = some rev

/-- `GEBR_IEXPR_ERROR_PATH`, as `gebr_geoxml_program_set_error_id` writes it. -/
def errorPath : Text := decimal 14

/-- What the loop over the values does to one of them. -/
def modifyValue (func : GebrFlowModifyPathsFunc) (value : GebrGeoXmlPropertyValue) :
    GebrGeoXmlPropertyValue :=
  if value.text = [] then value else value.set (func ⟨value.text, value.oneLine⟩).text

/-- `cleaned`, behind that loop. -/
def hasPath (parameter : Leaf β) : Bool := parameter.values.any fun value => value.text ≠ []

def modifyValues (func : GebrFlowModifyPathsFunc) (parameter : Leaf β) : Leaf β :=
  { parameter with
    values := parameter.values.map (modifyValue func)
    offered := fun some_option =>
      ⟨mt List.map_eq_nil_iff.1 (parameter.offered some_option).1, (parameter.offered some_option).2⟩ }

/-- `flow_paths_foreach_parameter`. -/
def flowPathsForeachParameter (func : GebrFlowModifyPathsFunc) (setProgramsUnconfigured : Bool) :
    Callback (GebrGeoXmlParameterType × β) Text := fun parameter errorid =>
  if parameter.rest.1 = .file then
    if setProgramsUnconfigured = true ∧ hasPath parameter = true then
      (modifyValues func parameter, errorPath, false)
    else (modifyValues func parameter, errorid, true)
  else (parameter, errorid, true)

/-- The walk over one list of parameters. -/
def walkList (callback : Callback (GebrGeoXmlParameterType × β) Text) (list : ParameterList β γ)
    (errorid : Text) : ParameterList β γ × Text :=
  let walked := foreachParameters callback list.parameters errorid
  ({ list with parameters := walked.1 }, walked.2.1)

/-- `gebr_geoxml_program_foreach_parameter`: the MPI parameters are walked over whether or not the
first walk was ended. -/
def programForeachParameter (callback : Callback (GebrGeoXmlParameterType × β) Text)
    (program : GebrGeoXmlProgram β γ δ) : GebrGeoXmlProgram β γ δ :=
  let walked := walkList callback program.parameters program.errorid
  match program.mpi with
  | none => { program with parameters := walked.1, errorid := walked.2 }
  | some list =>
    let again := walkList callback list walked.2
    { program with parameters := walked.1, mpi := some again.1, errorid := again.2 }

/-- `gebr_flow_modify_paths`, without the snapshots. -/
def modifyOwnPaths (func : GebrFlowModifyPathsFunc) (setProgramsUnconfigured : Bool)
    (flow : GebrGeoXmlFlow Xml β γ δ ε) : GebrGeoXmlFlow Xml β γ δ ε :=
  { flow with
    input := Path.set (func flow.input).text
    output := Path.set (func flow.output).text
    error := Path.set (func flow.error).text
    programs := flow.programs.map
      (programForeachParameter (flowPathsForeachParameter func setProgramsUnconfigured)) }

/-- One turn of the loop over the snapshots. -/
def onRevision (codec : FlowCodec Xml β γ δ ε) (revision : Restore.Revision Xml)
    (again : ∀ flow, codec.loadBuffer revision.data = some flow → GebrGeoXmlFlow Xml β γ δ ε) :
    Restore.Revision Xml :=
  match loads : codec.loadBuffer revision.data with
  | none => revision
  | some flow => { revision with data := codec.toString (again flow loads) }

/-- What is done to a flow, and recursively to each snapshot that loads. -/
def onSnapshots (codec : FlowCodec Xml β γ δ ε)
    (own : GebrGeoXmlFlow Xml β γ δ ε → GebrGeoXmlFlow Xml β γ δ ε)
    (flow : GebrGeoXmlFlow Xml β γ δ ε) : GebrGeoXmlFlow Xml β γ δ ε :=
  { own flow with
    revisions := flow.revisions.attach.map fun revision =>
      onRevision codec revision.1 fun rev _ => onSnapshots codec own rev }
termination_by codec.nested.wrap flow
decreasing_by exact ⟨revision.1, revision.2, by assumption⟩

/-- `gebr_flow_modify_paths`. -/
def gebrFlowModifyPaths (codec : FlowCodec Xml β γ δ ε) (func : GebrFlowModifyPathsFunc)
    (setProgramsUnconfigured : Bool) : GebrGeoXmlFlow Xml β γ δ ε → GebrGeoXmlFlow Xml β γ δ ε :=
  onSnapshots codec (modifyOwnPaths func setProgramsUnconfigured)

end Model

section Programs

variable {func : GebrFlowModifyPathsFunc} {mark : Bool}

@[simp] theorem path_set_text (path : Path) : Path.set path.text = path :=
  Path.ext (removeLineBreak_of_oneLine path.oneLine)

/-- A file parameter with a path. -/
def holdsPath (parameter : Leaf β) : Bool := parameter.rest.1 = .file && hasPath parameter

/-- Each path of a file parameter is what the function makes of it. -/
def rewriteParameter (func : GebrFlowModifyPathsFunc) (parameter : Leaf β) : Leaf β :=
  if parameter.rest.1 = .file then modifyValues func parameter else parameter

/-- The function leaves each path of a file parameter as it is. -/
def LeftAlone (func : GebrFlowModifyPathsFunc) (parameter : Leaf β) : Prop :=
  parameter.rest.1 = .file → ∀ value ∈ parameter.values, value.text ≠ [] →
    func ⟨value.text, value.oneLine⟩ = ⟨value.text, value.oneLine⟩

theorem modifyValue_eq_self_iff (value : GebrGeoXmlPropertyValue) : modifyValue func value = value ↔
    (value.text ≠ [] → func ⟨value.text, value.oneLine⟩ = ⟨value.text, value.oneLine⟩) := by
  unfold modifyValue
  by_cases empty : value.text = []
  · rw [if_pos empty]
    exact iff_of_true rfl fun some_byte => absurd empty some_byte
  · have written : gebrGeoxmlRemoveLineBreak (func ⟨value.text, value.oneLine⟩).text =
        (func ⟨value.text, value.oneLine⟩).text := removeLineBreak_of_oneLine (func _).oneLine
    rw [if_neg empty, imp_iff_right empty, GebrGeoXmlPropertyValue.ext_iff, Path.ext_iff]
    unfold GebrGeoXmlPropertyValue.set
    dsimp only
    rw [written, eq_self, and_true]

theorem rewriteParameter_eq_self_iff (parameter : Leaf β) :
    rewriteParameter func parameter = parameter ↔ LeftAlone func parameter := by
  unfold rewriteParameter LeftAlone
  by_cases file : parameter.rest.1 = .file
  · rw [if_pos file, imp_iff_right file, ProgramParameter.ext_iff]
    unfold modifyValues
    dsimp only
    have each := List.map_inj_left (l := parameter.values) (f := modifyValue func) (g := id)
    rw [List.map_id] at each
    rw [eq_self, eq_self, eq_self, true_and, and_true, and_true, each]
    exact forall₂_congr fun value _ => modifyValue_eq_self_iff value
  · rw [if_neg file]
    exact iff_of_true rfl fun same => absurd same file

/-- The callback rewrites a parameter, and ends the walk at one with a path if it is to mark the
program. -/
theorem flowPathsForeachParameter_does (func : GebrFlowModifyPathsFunc) (mark : Bool) :
    (flowPathsForeachParameter (β := β) func mark).Does (rewriteParameter func)
      (fun parameter => mark && holdsPath parameter) fun _ => errorPath := by
  intro parameter errorid
  unfold flowPathsForeachParameter rewriteParameter
  dsimp only
  by_cases file : parameter.rest.1 = .file
  · have same : holdsPath parameter = hasPath parameter := by
      unfold holdsPath
      rw [decide_eq_true file, Bool.true_and]
    simp only [if_pos file, same]
    cases mark <;> cases hasPath parameter <;> rfl
  · have none : holdsPath parameter = false := by
      unfold holdsPath
      rw [decide_eq_false file, Bool.false_and]
    simp only [if_neg file, none, Bool.and_false]
    rfl

/-- A list of parameters, each path of which is what the function makes of it. -/
def rewriteList (func : GebrFlowModifyPathsFunc) (list : ParameterList β γ) : ParameterList β γ :=
  { list with parameters := mapParameters (rewriteParameter func) list.parameters }

/-- If the walk may end, the function leaves alone what comes behind the first file parameter with a
path. -/
def NothingBehind (func : GebrFlowModifyPathsFunc) (mark : Bool) (list : ParameterList β γ) : Prop :=
  (leavesOf list.parameters).Pairwise fun earlier later =>
    mark = true → holdsPath earlier = true → LeftAlone func later

theorem any_and (mark : Bool) (leaves : List (Leaf β)) :
    (leaves.any fun leaf => mark && holdsPath leaf) = (mark && leaves.any holdsPath) := by
  cases mark <;> simp

/-- **One list**: what it tells, and when each path of it is reached. -/
theorem walkList_spec (func : GebrFlowModifyPathsFunc) (mark : Bool) (list : ParameterList β γ)
    (errorid : Text) : (walkList (flowPathsForeachParameter func mark) list errorid).2 =
        (if (mark && (leavesOf list.parameters).any holdsPath) = true then errorPath else errorid) ∧
      ((walkList (flowPathsForeachParameter func mark) list errorid).1 = rewriteList func list ↔
        NothingBehind func mark list) := by
  have outcome := outcome_foreachParameters (flowPathsForeachParameter_does func mark)
    list.parameters errorid
  constructor
  · rw [← any_and]
    exact congrArg Prod.fst outcome.after_eq
  · have whole := outcome.whole_iff
    simp only [Bool.and_eq_true, and_imp, rewriteParameter_eq_self_iff] at whole
    unfold NothingBehind
    rw [← whole, GebrGeoXmlParameters.ext_iff]
    exact ⟨fun same => same.1, fun same => ⟨same, rfl, rfl⟩⟩

/-- The lists of a program that have parameters. -/
def GebrGeoXmlProgram.lists (program : GebrGeoXmlProgram β γ δ) : List (ParameterList β γ) :=
  program.parameters :: program.mpi.toList

/-- **A program, each path of which is what the function makes of it**; it is marked if it has one
and marks are asked for. -/
def rewriteProgram (func : GebrFlowModifyPathsFunc) (mark : Bool) (program : GebrGeoXmlProgram β γ δ) :
    GebrGeoXmlProgram β γ δ :=
  { program with
    parameters := rewriteList func program.parameters
    mpi := program.mpi.map (rewriteList func)
    errorid :=
      if (mark && program.lists.any fun list => (leavesOf list.parameters).any holdsPath) =
        true then errorPath
      else program.errorid }

/-- **When a program is rewritten.** -/
theorem programForeachParameter_iff (program : GebrGeoXmlProgram β γ δ) :
    programForeachParameter (flowPathsForeachParameter func mark) program =
      rewriteProgram func mark program ↔ ∀ list ∈ program.lists, NothingBehind func mark list := by
  obtain ⟨rest, errorid, parameters, mpi⟩ := program
  obtain ⟨told, whole⟩ := walkList_spec func mark parameters errorid
  unfold programForeachParameter rewriteProgram GebrGeoXmlProgram.lists
  cases mpi with
  | none =>
    dsimp only
    rw [told, GebrGeoXmlProgram.mk.injEq, whole]
    simp
  | some list =>
    obtain ⟨toldAgain, wholeAgain⟩ := walkList_spec func mark list
      (if (mark && (leavesOf parameters.parameters).any holdsPath) = true then errorPath else errorid)
    have marks : (if (mark && (leavesOf list.parameters).any holdsPath) = true then errorPath
        else if (mark && (leavesOf parameters.parameters).any holdsPath) = true then
          errorPath else errorid) =
        if (mark && [parameters, list].any fun list => (leavesOf list.parameters).any holdsPath) =
          true then errorPath
        else errorid := by
      rw [List.any_cons, List.any_cons, List.any_nil, Bool.or_false]
      generalize (leavesOf parameters.parameters).any holdsPath = first
      generalize (leavesOf list.parameters).any holdsPath = second
      cases mark <;> cases first <;> cases second <;> rfl
    dsimp only
    rw [told, toldAgain, GebrGeoXmlProgram.mk.injEq, whole, Option.map_some, Option.some.injEq,
      wholeAgain]
    have both : (∀ other ∈ parameters :: (some list).toList, NothingBehind func mark other) ↔
        NothingBehind func mark parameters ∧ NothingBehind func mark list := by simp
    rw [both]
    exact ⟨fun all => all.2.2, fun all => ⟨rfl, marks, all⟩⟩

end Programs

section Snapshots

variable {codec : FlowCodec Xml β γ δ ε}
    {own other : GebrGeoXmlFlow Xml β γ δ ε → GebrGeoXmlFlow Xml β γ δ ε}
variable {flow rev inner : GebrGeoXmlFlow Xml β γ δ ε} {revision : Restore.Revision Xml}
variable {func : GebrFlowModifyPathsFunc} {mark : Bool}

/-- **The flow itself and all flows that its loadable snapshots hold.** -/
inductive Inside (codec : FlowCodec Xml β γ δ ε) :
    GebrGeoXmlFlow Xml β γ δ ε → GebrGeoXmlFlow Xml β γ δ ε → Prop
  | self (flow : GebrGeoXmlFlow Xml β γ δ ε) : Inside codec flow flow
  | snapshot {flow rev inner : GebrGeoXmlFlow Xml β γ δ ε} {revision : Restore.Revision Xml}
      (stored : revision ∈ flow.revisions) (loads : codec.loadBuffer revision.data = some rev)
        (inside : Inside codec rev inner) : Inside codec flow inner

/-- One snapshot is changed in the same way by both iff it does not load, or the flows that it holds
are. -/
theorem onRevision_eq_iff {one two : GebrGeoXmlFlow Xml β γ δ ε → GebrGeoXmlFlow Xml β γ δ ε} :
    onRevision codec revision (fun rev _ => one rev) = onRevision codec revision
      (fun rev _ => two rev) ↔ ∀ rev, codec.loadBuffer revision.data = some rev → one rev =
      two rev := by
  unfold onRevision
  split
  · rename_i broken
    exact iff_of_true rfl fun rev loads => absurd (broken.symm.trans loads) nofun
  · rename_i rev loads
    constructor
    · intro same other here
      obtain rfl := Option.some.inj (loads.symm.trans here)
      have written := congrArg (fun revision => codec.loadBuffer revision.data) same
      simp only [codec.load_toString] at written
      exact Option.some.inj written
    · intro same
      dsimp only
      rw [same rev loads]

theorem onSnapshots_eq (own : GebrGeoXmlFlow Xml β γ δ ε → GebrGeoXmlFlow Xml β γ δ ε)
    (flow : GebrGeoXmlFlow Xml β γ δ ε) : onSnapshots codec own flow =
      { own flow with
        revisions := flow.revisions.map fun revision =>
          onRevision codec revision fun rev _ => onSnapshots codec own rev } := by
  rw [onSnapshots]
  congr 1
  exact List.attach_map_val (l := flow.revisions)
    (f := fun revision => onRevision codec revision fun rev _ => onSnapshots codec own rev)

/-- **Two ways to change a flow and its snapshots agree iff they agree on each flow inside.** -/
theorem onSnapshots_eq_iff (keeps : ∀ flow, (own flow).revisions = (other flow).revisions)
    (flow : GebrGeoXmlFlow Xml β γ δ ε) :
    onSnapshots codec own flow = onSnapshots codec other flow ↔ ∀ inner, Inside codec flow inner →
    own inner = other inner := by
  induction flow using codec.nested.induction with
  | h flow ih =>
    have parts : onSnapshots codec own flow = onSnapshots codec other flow ↔ own flow = other flow ∧
        ∀ revision ∈ flow.revisions, ∀ rev, codec.loadBuffer revision.data = some rev →
          onSnapshots codec own rev = onSnapshots codec other rev := by
      rw [onSnapshots_eq, onSnapshots_eq other, GebrGeoXmlFlow.ext_iff,
        GebrGeoXmlFlow.ext_iff (x := own flow)]
      dsimp only
      rw [List.map_inj_left, eq_true (keeps flow), and_true]
      simp only [onRevision_eq_iff, and_assoc]
    rw [parts]
    constructor
    · rintro ⟨same, later⟩ inner inside
      cases inside with
      | self => exact same
      | snapshot stored loads inside =>
        exact (ih _ ⟨_, stored, loads⟩).1 (later _ stored _ loads) inner inside
    · intro all
      refine ⟨all flow (Inside.self flow), fun revision stored rev loads => ?_⟩
      exact (ih rev ⟨_, stored, loads⟩).2 fun inner inside =>
        all inner (Inside.snapshot stored loads inside)

/-- What is to become of the flow's own paths. -/
def rewriteOwn (func : GebrFlowModifyPathsFunc) (mark : Bool) (flow : GebrGeoXmlFlow Xml β γ δ ε) :
    GebrGeoXmlFlow Xml β γ δ ε :=
  { flow with
    input := func flow.input
    output := func flow.output
    error := func flow.error
    programs := flow.programs.map (rewriteProgram func mark) }

/-- **The flow and its snapshots, each path of which is what the function makes of it.** -/
def rewritten (codec : FlowCodec Xml β γ δ ε) (func : GebrFlowModifyPathsFunc) (mark : Bool) :
    GebrGeoXmlFlow Xml β γ δ ε → GebrGeoXmlFlow Xml β γ δ ε := onSnapshots codec (rewriteOwn func mark)

theorem modifyOwnPaths_iff (flow : GebrGeoXmlFlow Xml β γ δ ε) :
    modifyOwnPaths func mark flow = rewriteOwn func mark flow ↔
      ∀ program ∈ flow.programs, ∀ list ∈ program.lists, NothingBehind func mark list := by
  unfold modifyOwnPaths rewriteOwn
  rw [GebrGeoXmlFlow.ext_iff]
  simp only [path_set_text, true_and, and_true, List.map_inj_left, programForeachParameter_iff]

/-- **When the function reaches every path**: marks are not asked for, or what comes behind the
first file parameter with a path, in one list of a program, is left alone by the function. -/
theorem paths_iff (codec : FlowCodec Xml β γ δ ε) (func : GebrFlowModifyPathsFunc) (mark : Bool)
    (flow : GebrGeoXmlFlow Xml β γ δ ε) :
    gebrFlowModifyPaths codec func mark flow = rewritten codec func mark flow ↔
      ∀ inner, Inside codec flow inner → ∀ program ∈ inner.programs, ∀ list ∈ program.lists,
        NothingBehind func mark list := by
  have keeps : ∀ flow : GebrGeoXmlFlow Xml β γ δ ε,
      (modifyOwnPaths func mark flow).revisions = (rewriteOwn func mark flow).revisions := fun _ => rfl
  have agree : onSnapshots codec (modifyOwnPaths func mark) flow = onSnapshots codec
      (rewriteOwn func mark) flow ↔ ∀ inner, Inside codec flow inner →
          modifyOwnPaths func mark inner = rewriteOwn func mark inner :=
    onSnapshots_eq_iff keeps flow
  unfold gebrFlowModifyPaths rewritten
  rw [agree]
  exact forall₂_congr fun inner _ => modifyOwnPaths_iff inner

end Snapshots

section Clear

variable {codec : FlowCodec Xml β γ δ ε} {mark : Bool} {flow inner : GebrGeoXmlFlow Xml β γ δ ε}

/-- `flow_empty_paths_func`. -/
def flowEmptyPathsFunc : GebrFlowModifyPathsFunc := fun _ => ⟨[], oneLine_nil⟩

/-- `flow_set_paths_to_empty`. -/
def flowSetPathsToEmpty (codec : FlowCodec Xml β γ δ ε) :
    GebrGeoXmlFlow Xml β γ δ ε → GebrGeoXmlFlow Xml β γ δ ε :=
  gebrFlowModifyPaths codec flowEmptyPathsFunc true

/-- There is no path, but for those of the snapshots. -/
structure NoPath (flow : GebrGeoXmlFlow Xml β γ δ ε) : Prop where
  input : flow.input.text = []
  output : flow.output.text = []
  error : flow.error.text = []
  parameters : ∀ program ∈ flow.programs, ∀ list ∈ program.lists, ∀ leaf ∈ leavesOf list.parameters,
    leaf.rest.1 = .file → ∀ value ∈ leaf.values, value.text = []

theorem lists_rewriteProgram (func : GebrFlowModifyPathsFunc) (program : GebrGeoXmlProgram β γ δ) :
    (rewriteProgram func mark program).lists = program.lists.map (rewriteList func) := by
  obtain ⟨rest, errorid, parameters, mpi⟩ := program
  cases mpi <;> rfl

theorem values_clear {leaf : Leaf β}
    (file : (rewriteParameter flowEmptyPathsFunc leaf).rest.1 = .file) :
    ∀ value ∈ (rewriteParameter flowEmptyPathsFunc leaf).values, value.text = [] := by
  unfold rewriteParameter at file ⊢
  split
  · intro value member
    obtain ⟨old, -, rfl⟩ := List.mem_map.1 member
    unfold modifyValue
    split
    · assumption
    · rfl
  · rename_i other
    rw [if_neg other] at file
    exact absurd file other

theorem noPath_rewriteOwn (flow : GebrGeoXmlFlow Xml β γ δ ε)
    (revisions : List (Restore.Revision Xml)) :
    NoPath { rewriteOwn flowEmptyPathsFunc mark flow with revisions } where
  input := rfl
  output := rfl
  error := rfl
  parameters := by
    intro program member list there leaf here file
    obtain ⟨old, -, rfl⟩ := List.mem_map.1 member
    rw [lists_rewriteProgram] at there
    obtain ⟨before, -, rfl⟩ := List.mem_map.1 there
    have leaves : leavesOf (rewriteList flowEmptyPathsFunc before).parameters =
        (leavesOf before.parameters).map (rewriteParameter flowEmptyPathsFunc) := leavesOf_map _ _
    rw [leaves] at here
    obtain ⟨parameter, -, rfl⟩ := List.mem_map.1 here
    exact values_clear file

/-- **Clearing each path leaves none**, in the flow and in all that its snapshots hold. -/
theorem noPath_of_clear (flow : GebrGeoXmlFlow Xml β γ δ ε)
    (inside : Inside codec (rewritten codec flowEmptyPathsFunc mark flow) inner) : NoPath inner := by
  induction flow using codec.nested.induction with
  | h flow ih =>
    unfold rewritten at inside
    rw [onSnapshots_eq] at inside
    cases inside with
    | self => exact noPath_rewriteOwn flow _
    | snapshot stored loads inside =>
      obtain ⟨revision, member, rfl⟩ := List.mem_map.1 stored
      unfold onRevision at loads
      split at loads
      · rename_i broken
        exact absurd (broken.symm.trans loads) nofun
      · rename_i rev loaded
        rw [codec.load_toString] at loads
        obtain rfl := Option.some.inj loads
        exact ih rev ⟨_, member, loaded⟩ inside

/-- Texts that are flows, and one that does not load. -/
inductive Stored where
  | broken
  | flow (flow : GebrGeoXmlFlow Stored Unit Unit Unit Unit)

def storedCodec : FlowCodec Stored Unit Unit Unit Unit where
  loadBuffer := fun
    | .broken => none
    | .flow flow => some flow
  toString := .flow
  load_toString := fun _ => rfl
  nested := by
    refine Subrelation.wf (fun {rev flow} below => ?_) (measure sizeOf).wf
    obtain ⟨⟨data, date, comment, id⟩, stored, loads⟩ := below
    cases data with
    | broken => exact absurd loads nofun
    | flow inner =>
      obtain rfl := Option.some.inj loads
      obtain ⟨rest, input, output, error, programs, revisions⟩ := flow
      have inside := List.sizeOf_lt_of_mem stored
      simp only [Restore.Revision.mk.sizeOf_spec, Stored.flow.sizeOf_spec] at inside
      show sizeOf _ < sizeOf _
      simp only [GebrGeoXmlFlow.mk.sizeOf_spec]
      omega

/-- A file parameter with one path. -/
def fileParameter (path : Text) (oneLine : 10 ∉ path) :
    Parameter (GebrGeoXmlParameterType × Unit) Unit :=
  .program ⟨(.file, ()), [⟨path, oneLine, []⟩], [], [], fun some_option => absurd rfl some_option⟩

/-- A program with two files, in a flow without snapshots. -/
def twoFiles : GebrGeoXmlFlow Stored Unit Unit Unit Unit where
  rest := ()
  input := ⟨[], oneLine_nil⟩
  output := ⟨[], oneLine_nil⟩
  error := ⟨[], oneLine_nil⟩
  programs := [⟨(), [], ⟨[fileParameter [97] (by decide), fileParameter [98] (by decide)], [], []⟩,
    none⟩]
  revisions := []

/-- The paths of the file parameters. -/
def filePaths (flow : GebrGeoXmlFlow Stored Unit Unit Unit Unit) : List Text :=
  flow.programs.flatMap fun program => program.lists.flatMap fun list =>
    (leavesOf list.parameters).flatMap fun leaf =>
    leaf.values.map GebrGeoXmlPropertyValue.text

/-- **The second file keeps its path**: the mark for the first one ends the walk. -/
theorem second_file : filePaths (flowSetPathsToEmpty storedCodec twoFiles) = [[], [98]] ∧
    gebrFlowModifyPaths storedCodec flowEmptyPathsFunc true twoFiles ≠
      rewritten storedCodec flowEmptyPathsFunc true twoFiles := by
  have cleared : filePaths (gebrFlowModifyPaths storedCodec flowEmptyPathsFunc true twoFiles) =
      [[], [98]] := by
    unfold gebrFlowModifyPaths
    rw [onSnapshots_eq]
    rfl
  have wanted : filePaths (rewritten storedCodec flowEmptyPathsFunc true twoFiles) = [[], []] := by
    unfold rewritten
    rw [onSnapshots_eq]
    rfl
  refine ⟨cleared, fun same => ?_⟩
  rw [same, wanted] at cleared
  exact absurd cleared (by decide)

end Clear

end Gebr.Flow.Paths
