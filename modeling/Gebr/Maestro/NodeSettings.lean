/-
**The settings of the nodes.**

The servers file has a group for each node, with its tags and whether it is connected by itself. A
node is added only when it has no group, so what was stored first stays.

* `gebrMaestroSettingsAddNode`, `gebrMaestroSettingsGetNodeInfo`: the two, on what was loaded from
  the file.
* `Event`, `run`: nodes added, and the file written and read back.
* `value_addNode`: what adding a node changes.
* `firstAdded`, `info_run`: what is found of a node, after any events.
* `node_info_after` — **the tags that were stored first are given back**.
* `first_stays`: a node that is added twice, and the text that is not given back.
-/

import Gebr.Lib.CString
import Gebr.Lib.KeyFile

namespace Gebr.Maestro.NodeSettings

open Gebr.Lib.CString (ascii)
open Gebr.Lib.KeyFile Gebr.Lib.NamedTable Gebr.Lib.Utf8

abbrev Text : Type := List UInt8

section Model

/-- `gebr_maestro_settings_add_node`. -/
def gebrMaestroSettingsAddNode (servers : GKeyFile) (node tags ac : Text) : GKeyFile :=
  if hasGroup servers node then servers
  else setString (setString servers node (ascii "tags") tags) node (ascii "autoconnect") ac

/-- A string, or `NULL` when an error is set. -/
def stringUnlessError (read : Option Text × Bool) : Option Text := if read.2 then none else read.1

/-- `gebr_maestro_settings_get_node_info`, with what `*ac` is before it: what `*tags` and `*ac` are
after it. -/
def gebrMaestroSettingsGetNodeInfo (servers : GKeyFile) (node : Text) (ac : Option Text) :
    Option Text × Option Text :=
  (stringUnlessError (getString servers node (ascii "tags")),
    if (getString servers node (ascii "autoconnect")).2 then none else ac)

/-- A node is added, or the file is written and read back. -/
inductive Event
  | addNode (node tags ac : Text)
  | reload
  deriving DecidableEq

/-- The key file after an event, when `reload` is what is read back of a key file that is
written. -/
def step (reload : GKeyFile → GKeyFile) (servers : GKeyFile) : Event → GKeyFile
  | .addNode node tags ac => gebrMaestroSettingsAddNode servers node tags ac
  | .reload => reload servers

def run (reload : GKeyFile → GKeyFile) (servers : GKeyFile) (events : List Event) : GKeyFile :=
  events.foldl (step reload) servers

end Model

variable {servers : GKeyFile} {node tags ac other : Text} {reload : GKeyFile → GKeyFile}

section Adding

theorem hasGroup_addNode (servers : GKeyFile) (node tags ac other : Text) :
    hasGroup (gebrMaestroSettingsAddNode servers node tags ac) other =
      (hasGroup servers other || (decide (other = node) && isGroupName node)) := by
  unfold gebrMaestroSettingsAddNode
  by_cases has : hasGroup servers node
  · rw [if_pos has]
    by_cases same : other = node
    · rw [same, has, Bool.true_or]
    · rw [decide_eq_false same, Bool.false_and, Bool.or_false]
  rw [if_neg has]
  by_cases good : isGroupName node
  · rw [hasGroup_setString good, hasGroup_setString good, good, Bool.and_true, ← Bool.or_assoc,
      Bool.or_self, Bool.or_comm]
  · rw [setString_of_not_name good, setString_of_not_name good, Bool.eq_false_iff.2 good,
      Bool.and_false, Bool.or_false]

/-- **What adding a node changes**: the values of the node, if it had none. -/
theorem value_addNode (servers : GKeyFile) (node tags ac other key : Text) :
    value (gebrMaestroSettingsAddNode servers node tags ac) other key =
      if other = node ∧ ¬ hasGroup servers node ∧ isGroupName node then
        if key = ascii "autoconnect" then some ⟨ac, true⟩
        else if key = ascii "tags" then some ⟨tags, true⟩ else none
      else value servers other key := by
  unfold gebrMaestroSettingsAddNode
  by_cases has : hasGroup servers node
  · rw [if_pos has, if_neg fun all => all.2.1 has]
  rw [if_neg has]
  by_cases good : isGroupName node
  · rw [value_setString good, value_setString good]
    by_cases same : other = node
    · have none : value servers node key = none := by
        cases there : value servers node key with
        | none => rfl
        | some found => exact absurd (hasGroup_of_value there) has
      rw [same, none]
      simp [has, good]
    · rw [if_neg fun both => same both.1, if_neg fun both => same both.1, if_neg fun all => same all.1]
  · rw [setString_of_not_name good, setString_of_not_name good, if_neg fun all => good all.2.2]

end Adding

section Runs

/-- The first texts that were added for a node. -/
def firstAdded (node : Text) : List Event → Option (Text × Text)
  | [] => none
  | .reload :: events => firstAdded node events
  | .addNode other tags ac :: events => if other = node then
      some (tags, ac) else firstAdded node events

/-- What the file has of a node. -/
def entry (servers : GKeyFile) (node key : Text) : Bool × Option Value :=
  (hasGroup servers node, value servers node key)

/-- What it has after the events: what it had, or what was added first. -/
def found (node key : Text) (before : Bool × Option Value) (events : List Event) :
    Bool × Option Value :=
  if before.1 ∨ ¬ isGroupName node then before
  else match firstAdded node events with
    | none => before
    | some (tags, ac) => (true, if key = ascii "autoconnect" then some ⟨ac, true⟩
        else if key = ascii "tags" then some ⟨tags, true⟩ else none)

theorem found_cons (node key : Text) (before : Bool × Option Value) (event : Event)
    (events : List Event) :
    found node key before (event :: events) = found node key
    (found node key before [event]) events := by
  by_cases stays : before.1 ∨ ¬ isGroupName node
  · have all : ∀ events, found node key before events = before := fun events => if_pos stays
    rw [all, all, all]
  · have all : ∀ events, found node key before events = match firstAdded node events with
      | none => before
      | some (tags, ac) => (true, if key = ascii "autoconnect" then some ⟨ac, true⟩
          else if key = ascii "tags" then some ⟨tags, true⟩ else none) := fun events => if_neg stays
    rw [all, all [event]]
    cases event with
    | reload => exact (all events).symm
    | addNode other tags ac =>
      unfold firstAdded
      by_cases same : other = node
      · rw [if_pos same, if_pos same]
        exact (if_pos (.inl rfl)).symm
      · rw [if_neg same, if_neg same]
        exact (all events).symm

theorem entry_step
    (readsBack : ∀ file group, get group (reload file).groups = get group file.groups)
    (servers : GKeyFile) (event : Event) (node key : Text) :
    entry (step reload servers event) node key = found node key (entry servers node key) [event] := by
  cases event with
  | reload =>
    have same : entry (reload servers) node key = entry servers node key := by
      unfold entry hasGroup value
      rw [readsBack servers node]
    exact same.trans (ite_self _).symm
  | addNode other tags ac =>
    show (hasGroup (gebrMaestroSettingsAddNode servers other tags ac) node,
      value (gebrMaestroSettingsAddNode servers other tags ac) node key) = _
    rw [hasGroup_addNode, value_addNode]
    unfold found entry firstAdded
    by_cases same : node = other
    · rw [same, if_pos rfl]
      by_cases has : hasGroup servers other
      · simp [has]
      · by_cases good : isGroupName other
        · simp [has, good]
        · simp [has, good]
    · have apart : ¬ other = node := fun equal => same equal.symm
      simp only [same, apart, decide_false, Bool.false_and, Bool.or_false, false_and, if_false]
      exact (ite_self _).symm

/-- **What the file has of a node after any events.** -/
theorem entry_run (readsBack : ∀ file group, get group (reload file).groups = get group file.groups)
    (servers : GKeyFile) (events : List Event) (node key : Text) :
    entry (run reload servers events) node key = found node key (entry servers node key) events := by
  induction events generalizing servers with
  | nil => exact (ite_self _).symm
  | cons event events ih =>
    rw [found_cons, ← entry_step readsBack]
    exact ih (step reload servers event)

theorem value_of_not_hasGroup (noGroup : ¬ hasGroup servers node) (key : Text) :
    value servers node key = none := by
  cases there : value servers node key with
  | none => rfl
  | some found => exact absurd (hasGroup_of_value there) noGroup

/-- **The tags that were stored first are given back**, and the autoconnect text that was stored
first stays in the file: for every node, whatever is added for others, and wherever the file is
written and read back. -/
theorem node_info_after
    (readsBack : ∀ file group, get group (reload file).groups = get group file.groups)
    (servers : GKeyFile) (events : List Event) (node : Text) (ac : Option Text) :
      (hasGroup servers node →
    (gebrMaestroSettingsGetNodeInfo (run reload servers events) node ac).1 =
      (gebrMaestroSettingsGetNodeInfo servers node ac).1) ∧
      (¬ hasGroup servers node → isGroupName node → ∀ tags stored, firstAdded node events =
        some (tags, stored) → validate tags → validate stored →
    (gebrMaestroSettingsGetNodeInfo (run reload servers events) node ac).1 = some tags ∧ getString
      (run reload servers events) node (ascii "autoconnect") = (some stored, false)) ∧
      (¬ hasGroup servers node → firstAdded node events = none →
      gebrMaestroSettingsGetNodeInfo (run reload servers events) node ac = (none, none)) := by
  have values : ∀ key, value (run reload servers events) node key =
      (found node key (entry servers node key) events).2 :=
    fun key => congrArg Prod.snd (entry_run readsBack servers events node key)
  refine ⟨fun has => ?_, fun has good tags stored added validTags validStored => ?_,
    fun has none => ?_⟩
  · refine congrArg stringUnlessError (getString_congr ?_)
    rw [values]
    exact congrArg Prod.snd (if_pos (.inl has))
  · have here : ∀ key, value (run reload servers events) node key =
        if key = ascii "autoconnect" then some ⟨stored, true⟩ else if key = ascii "tags" then
            some ⟨tags, true⟩ else none := by
      intro key
      rw [values]
      unfold found
      have absent : ¬ ((entry servers node key).1 = true ∨ ¬ isGroupName node) :=
        not_or.2 ⟨has, not_not.2 good⟩
      rw [if_neg absent, added]
    refine ⟨?_, getString_of_value ((here _).trans (if_pos rfl)) validStored⟩
    have tagsHere : value (run reload servers events) node (ascii "tags") = some ⟨tags, true⟩ :=
      (here _).trans ((if_neg (by decide)).trans (if_pos rfl))
    exact congrArg stringUnlessError (getString_of_value tagsHere validTags)
  · have nothing : ∀ key, value (run reload servers events) node key = Option.none := by
      intro key
      rw [values]
      unfold found
      rw [none]
      exact (congrArg Prod.snd (ite_self _)).trans (value_of_not_hasGroup has key)
    unfold gebrMaestroSettingsGetNodeInfo getString
    rw [nothing, nothing]
    rfl

/-- A file with the node `n`. -/
theorem node_info_after_one : (hasGroup Lib.KeyFile.empty (ascii "n") → (gebrMaestroSettingsGetNodeInfo
      (run id Lib.KeyFile.empty [.addNode (ascii "n") (ascii "a") (ascii "on"), .reload])
        (ascii "n") none).1 = (gebrMaestroSettingsGetNodeInfo Lib.KeyFile.empty (ascii "n") none).1) ∧
    (¬ hasGroup Lib.KeyFile.empty (ascii "n") → isGroupName (ascii "n") → ∀ tags stored,
      firstAdded (ascii "n") [.addNode (ascii "n") (ascii "a") (ascii "on"), .reload] =
        some (tags, stored) → validate tags → validate stored → (gebrMaestroSettingsGetNodeInfo
        (run id Lib.KeyFile.empty [.addNode (ascii "n") (ascii "a") (ascii "on"), .reload])
        (ascii "n") none).1 = some tags ∧
          getString (run id Lib.KeyFile.empty [.addNode (ascii "n") (ascii "a") (ascii "on"),
    .reload]) (ascii "n") (ascii "autoconnect") = (some stored, false)) ∧
      (¬ hasGroup Lib.KeyFile.empty (ascii "n") →
      firstAdded (ascii "n") [.addNode (ascii "n") (ascii "a") (ascii "on"), .reload] = none →
        gebrMaestroSettingsGetNodeInfo
        (run id Lib.KeyFile.empty [.addNode (ascii "n") (ascii "a") (ascii "on"), .reload])
        (ascii "n") none = (none, none)) :=
  node_info_after (fun _ _ => rfl) Lib.KeyFile.empty
    [.addNode (ascii "n") (ascii "a") (ascii "on"), .reload] (ascii "n") none

/-- **What was stored first stays**, also when the node is added again. The text for the connection
is in the file but is not given back. A node whose address cannot be a group is not stored, and tags
that are not UTF-8 are not read. -/
theorem first_stays :
    (let servers := run id Lib.KeyFile.empty [.addNode (ascii "n") (ascii "a") (ascii "on"),
      .addNode (ascii "n") (ascii "b") (ascii "off")]
    gebrMaestroSettingsGetNodeInfo servers (ascii "n") none = (some (ascii "a"), none) ∧
      getString servers (ascii "n") (ascii "autoconnect") = (some (ascii "on"), false)) ∧
    gebrMaestroSettingsGetNodeInfo
      (run id Lib.KeyFile.empty [.addNode (ascii "[::1]") (ascii "a") (ascii "on")])
    (ascii "[::1]") none = (none, none) ∧
      (gebrMaestroSettingsGetNodeInfo
      (run id Lib.KeyFile.empty [.addNode (ascii "n") [255] (ascii "on")]) (ascii "n") none).1 =
      none := by
  refine ⟨⟨by decide +kernel, by decide +kernel⟩, by decide +kernel, by decide +kernel⟩

end Runs

end Gebr.Maestro.NodeSettings
