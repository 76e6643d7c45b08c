/-
**The group tags of the daemons.**

The servers file has a list of tags for each server, and the maestro has a set of tags for each
daemon. A request puts a tag into the list or takes it out of it; the list that results is then the
daemon's set.

* `configInsertTag`, `configRemoveTag`: the change of the list in the file.
* `TagTree`, `gebrmDaemonUpdateTags`, `gebrmDaemonGetTags`: the set of a daemon, ordered by the
  bytes.
* `configLoadServers`, `step`: the maestro when it has read the file, and one request.
* `change_spec`: the list after a request.
* `step_inStep`, `run_inStep`: a request, and any requests, for servers that have a list.
* `Since`, `mem_listAfter`: the tags that were put in and not taken out since.
* `tags_in_step` — **what the list and the set have after any requests**.
* `order_of_tags`: the order of the two, and servers without a list.
-/

import Gebr.Lib.KeyFile
import Gebr.Lib.SeparatedList

namespace Gebr.Maestro.GroupTags

open Gebr.Lib Gebr.Lib.CString Gebr.Lib.KeyFile Gebr.Lib.NamedTable Gebr.Lib.SeparatedList
  Gebr.Lib.Utf8

abbrev Text : Type := List UInt8

section Tree

/-- The keys of a `GTree` that is ordered by `strcmp`. -/
structure TagTree where
  keys : List Text
  sorted : keys.Pairwise (· < ·)

/-- A key put where it belongs. -/
def insertKey (tag : Text) : List Text → List Text
  | [] => [tag]
  | key :: keys =>
    if tag = key then key :: keys else if tag < key then tag :: key :: keys
        else key :: insertKey tag keys

theorem mem_insertKey {tag other : Text} {keys : List Text} :
    other ∈ insertKey tag keys ↔ other = tag ∨ other ∈ keys := by
  induction keys with
  | nil => exact List.mem_cons
  | cons key keys ih =>
    unfold insertKey
    split
    · rename_i same
      rw [same, List.mem_cons, or_self_left]
    · split
      · exact List.mem_cons
      · rw [List.mem_cons, ih, List.mem_cons]
        exact or_left_comm

theorem sorted_insertKey {keys : List Text} (tag : Text) (sorted : keys.Pairwise (· < ·)) :
    (insertKey tag keys).Pairwise (· < ·) := by
  induction keys with
  | nil => exact List.pairwise_singleton _ tag
  | cons key keys ih =>
    obtain ⟨first, rest⟩ := List.pairwise_cons.1 sorted
    unfold insertKey
    split
    · exact sorted
    · rename_i apart
      split
      · rename_i less
        refine List.pairwise_cons.2 ⟨fun other member => ?_, sorted⟩
        rcases List.mem_cons.1 member with rfl | member
        · exact less
        · exact List.lt_trans less (first other member)
      · rename_i notLess
        refine List.pairwise_cons.2 ⟨fun other member => ?_, ih rest⟩
        rcases mem_insertKey.1 member with rfl | member
        · grind
        · exact first other member

/-- `gebrm_daemon_add_tag`. -/
def gebrmDaemonAddTag (tree : TagTree) (tag : Text) : TagTree :=
  ⟨insertKey tag tree.keys, sorted_insertKey tag tree.sorted⟩

/-- `gebrm_daemon_update_tags`. -/
def gebrmDaemonUpdateTags (tagsv : List Text) : TagTree :=
  tagsv.foldl gebrmDaemonAddTag ⟨[], List.Pairwise.nil⟩

/-- `gebrm_daemon_get_tags`. -/
def gebrmDaemonGetTags (tree : TagTree) : Text := (tree.keys.flatMap (· ++ [44])).dropLast

theorem mem_updateTags {tag : Text} (tagsv : List Text) :
    tag ∈ (gebrmDaemonUpdateTags tagsv).keys ↔ tag ∈ tagsv := by
  unfold gebrmDaemonUpdateTags
  induction tagsv using List.reverseRecOn with
  | nil => exact Iff.rfl
  | append_singleton tagsv last ih =>
    rw [List.foldl_append, List.foldl_cons, List.foldl_nil, List.mem_append, List.mem_singleton, ← ih]
    exact mem_insertKey.trans or_comm

end Tree

section Model

/-- The servers file, where it can be loaded, and the daemons with their tags. -/
structure App where
  file : Option GKeyFile
  daemons : List (Text × TagTree)

/-- `/tag-insert` and `/tag-remove`. -/
inductive Request
  | insert (server tag : Text)
  | remove (server tag : Text)
  deriving DecidableEq

def Request.server : Request → Text
  | .insert server _ => server
  | .remove server _ => server

def Request.tag : Request → Text
  | .insert _ tag => tag
  | .remove _ tag => tag

/-- The list that the file has for a server. -/
def storedTags (keyfile : GKeyFile) (server : Text) : Option Text :=
  (getString keyfile server (ascii "tags")).1

/-- `gebrm_config_insert_tag_on_server`: the file after it, and the list when it was changed. It
cannot go on when there is no list. -/
def configInsertTag (keyfile : GKeyFile) (server tag : Text) : Option (GKeyFile × Option Text) :=
  (storedTags keyfile server).map fun tmp =>
    let tags := gStrsplit 44 0 tmp
    if tag ∈ tags then (keyfile, none)
    else
      let tmp := [44].intercalate tags
      let str := if tmp ≠ [] then tmp ++ 44 :: tag else tag
      (setString keyfile server (ascii "tags") str, some str)

/-- `gebrm_config_remove_tag_of_server`. -/
def configRemoveTag (keyfile : GKeyFile) (server tag : Text) : Option (GKeyFile × Option Text) :=
  (storedTags keyfile server).map fun tmp =>
    let tags := gStrsplit 44 0 tmp
    let buf := (tags.filter (· ≠ tag)).flatMap (· ++ [44])
    if tag ∈ tags then
      let buf := if buf.length ≠ 0 then buf.dropLast else buf
      (setString keyfile server (ascii "tags") buf, some buf)
    else (keyfile, none)

/-- What a request does to the file. -/
def change (keyfile : GKeyFile) : Request → Option (GKeyFile × Option Text)
  | .insert server tag => configInsertTag keyfile server tag
  | .remove server tag => configRemoveTag keyfile server tag

/-- `gebrm_update_tags_on_list_of_servers`, which cannot go on when there is no such daemon. -/
def updateTagsOnList (daemons : List (Text × TagTree)) (address tags : Text) :
    Option (List (Text × TagTree)) :=
  (get address daemons).map fun _ => put address (gebrmDaemonUpdateTags (gStrsplit 44 0 tags)) daemons

/-- One request. -/
def step (app : App) (request : Request) : Option App :=
  match app.file with
  | none => some app
  | some keyfile => (change keyfile request).bind fun changed =>
    match changed.2 with
    | none => some { app with file := some changed.1 }
    | some tags => (updateTagsOnList app.daemons request.server tags).map fun daemons =>
        ⟨some changed.1, daemons⟩

/-- `gebrm_add_server_to_list`. -/
def addServerToList (daemons : List (Text × TagTree)) (address : Text) (tags : Option Text) :
    List (Text × TagTree) :=
  match get address daemons with
  | some _ => daemons
  | none => (address, gebrmDaemonUpdateTags ((tags.map (gStrsplit 44 0)).getD [])) :: daemons

/-- `gebrm_config_load_servers`. -/
def configLoadServers (keyfile : GKeyFile) : App where
  file := some keyfile
  daemons := (names keyfile.groups).foldl
    (fun daemons group => addServerToList daemons group (storedTags keyfile group)) []

end Model

section Lists

variable {keyfile : GKeyFile} {server text tag : Text} {request : Request}

/-- The tags of a list. -/
abbrev listed (text : Text) : List Text := gStrsplit 44 0 text

/-- What a request does to the tags of the list. -/
def Request.after (tags : List Text) : Request → List Text
  | .insert _ tag => if tag ∈ tags then tags else tags ++ [tag]
  | .remove _ tag => tags.filter (· ≠ tag)

/-- The text that the request is to leave. -/
def Request.textAfter (text : Text) (request : Request) : Text :=
  [44].intercalate (request.after (listed text))

theorem clean_after (clean : 44 ∉ request.tag) : ∀ tag ∈ request.after (listed text), 44 ∉ tag := by
  intro tag member
  cases request with
  | insert server inserted =>
    unfold Request.after at member
    dsimp only at member
    split at member
    · exact not_mem_of_mem_gStrsplit member
    · rcases List.mem_append.1 member with there | here
      · exact not_mem_of_mem_gStrsplit there
      · obtain rfl := List.mem_singleton.1 here
        exact clean
  | remove server removed => exact not_mem_of_mem_gStrsplit (List.mem_filter.1 member).1

theorem listed_textAfter (clean : 44 ∉ request.tag) :
    listed (request.textAfter text) = withoutEmpty (request.after (listed text)) :=
  gStrsplit_intercalate (clean_after clean)

theorem validate_textAfter (valid : validate text) (validTag : validate request.tag) :
    validate (request.textAfter text) := by
  have items : ∀ tag ∈ listed text, validate tag = true := fun tag member =>
    validate_of_mem_gStrsplit (by decide) valid member
  refine (validate_intercalate (by decide) _).2 fun tag member => ?_
  cases request with
  | insert server inserted =>
    unfold Request.after at member
    dsimp only at member
    split at member
    · exact items tag member
    · rcases List.mem_append.1 member with there | here
      · exact items tag there
      · obtain rfl := List.mem_singleton.1 here
        exact validTag
  | remove server removed => exact items tag (List.mem_filter.1 member).1

/-- A request that changes nothing leaves the text. -/
theorem textAfter_of_same (same : request.after (listed text) = listed text) :
    request.textAfter text = text := by
  unfold Request.textAfter
  rw [same]
  exact intercalate_gStrsplit 44 text

theorem insert_text (text tag : Text) :
    (if [44].intercalate (listed text) ≠ [] then [44].intercalate (listed text) ++
      44 :: tag else tag) = [44].intercalate (listed text ++ [tag]) := by
  have one : listed text ≠ [[]] := by
    rw [listed, ← withoutEmpty_gStrsplit]
    unfold withoutEmpty
    split
    · exact nofun
    · assumption
  by_cases none : listed text = []
  · rw [none, List.nil_append, List.intercalate_singleton]
    rfl
  · rw [if_pos fun empty => (intercalate_eq_nil_iff.1 empty).elim none one, intercalate_concat none]

theorem remove_text (tags : List Text) :
    (if (tags.flatMap (· ++ [44])).length ≠ 0 then (tags.flatMap (· ++ [44])).dropLast else
      tags.flatMap (· ++ [44])) = [44].intercalate tags := by
  rw [← dropLast_flatMap]
  split
  · rfl
  · rename_i empty
    rw [List.length_eq_zero_iff.1 (not_not.1 empty), List.dropLast_nil]

/-- **What a request does to the file**, where the server has a list: the list of the server is
changed, or is to stay as it is. -/
theorem change_spec (stored : storedTags keyfile request.server = some text) :
    change keyfile request =
        some (setString keyfile request.server (ascii "tags") (request.textAfter text),
      some (request.textAfter text)) ∨ change keyfile request = some (keyfile, none) ∧
      request.textAfter text = text := by
  cases request with
  | insert server tag =>
    have stored : storedTags keyfile server = some text := stored
    unfold change configInsertTag
    dsimp only
    rw [stored, Option.map_some]
    by_cases has : tag ∈ listed text
    · have same : (Request.insert server tag).after (listed text) = listed text := if_pos has
      exact .inr ⟨congrArg some (if_pos has), textAfter_of_same same⟩
    · have more : (Request.insert server tag).textAfter text = [44].intercalate
          (listed text ++ [tag]) :=
        congrArg _ (if_neg has)
      left
      rw [if_neg has, insert_text, more]
      rfl
  | remove server tag =>
    have stored : storedTags keyfile server = some text := stored
    unfold change configRemoveTag
    dsimp only
    rw [stored, Option.map_some]
    by_cases has : tag ∈ listed text
    · left
      rw [if_pos has, remove_text]
      rfl
    · have same : (Request.remove server tag).after (listed text) = listed text :=
        List.filter_eq_self.2 fun other member => decide_eq_true fun equal => has (equal ▸ member)
      exact .inr ⟨congrArg some (if_neg has), textAfter_of_same same⟩

end Lists

section Steps

variable {app next : App} {keyfile : GKeyFile} {server text : Text} {request : Request}
    {requests : List Request}

/-- The server has a list in the file, and its daemon the tags of the list. -/
def InStep (app : App) (server text : Text) : Prop := ∃ keyfile, app.file = some keyfile ∧
  storedTags keyfile server = some text ∧ ∃ tree, get server app.daemons = some tree ∧ ∀ tag,
    tag ∈ tree.keys ↔ tag ∈ listed text

/-- The list of a server after a request. -/
def Request.textFor (server text : Text) (request : Request) : Text :=
  if request.server = server then request.textAfter text else text

/-- A tag that a list can have. -/
def PlainTag (tag : Text) : Prop := tag ≠ [] ∧ 44 ∉ tag ∧ validate tag

theorem storedTags_setString (good : isGroupName server) (valid : validate text)
    (keyfile : GKeyFile) (other : Text) :
      storedTags (setString keyfile server (ascii "tags") text) other = if server = other then
      some text else storedTags keyfile other := by
  unfold storedTags
  split
  · rename_i same
    rw [← same, getString_setString good valid]
  · rename_i apart
    refine congrArg Prod.fst (getString_congr ?_)
    rw [value_setString good, if_neg fun both => apart both.1.symm]

/-- A list written to the file and given to the daemon. -/
def withTags (daemons : List (Text × TagTree)) (keyfile : GKeyFile) (server text : Text) : App where
  file := some (setString keyfile server (ascii "tags") text)
  daemons := put server (gebrmDaemonUpdateTags (listed text)) daemons

theorem get_withTags (daemons : List (Text × TagTree)) (keyfile : GKeyFile)
    (server text other : Text) : get other (withTags daemons keyfile server text).daemons =
      if other = server then some (gebrmDaemonUpdateTags (listed text)) else get other daemons := by
  have daemons := congrFun (get_put server (gebrmDaemonUpdateTags (listed text)) daemons) other
  rwa [Function.update_apply] at daemons

theorem inStep_withTags (good : isGroupName server) (valid : validate text)
    (daemons : List (Text × TagTree)) (keyfile : GKeyFile) :
    InStep (withTags daemons keyfile server text) server text := by
  refine ⟨_, rfl, (storedTags_setString good valid keyfile server).trans (if_pos rfl), _, ?_,
    fun tag => mem_updateTags _⟩
  rw [get_withTags, if_pos rfl]

theorem inStep_withTags_other {other otherText : Text} (good : isGroupName server)
    (valid : validate text) (apart : server ≠ other) (file : app.file = some keyfile)
    (before : InStep app other otherText) :
    InStep (withTags app.daemons keyfile server text) other otherText := by
  obtain ⟨otherFile, sameFile, stored, tree, found, keys⟩ := before
  obtain rfl := Option.some.inj (file.symm.trans sameFile)
  refine ⟨_, rfl, ?_, tree, ?_, keys⟩
  · rw [storedTags_setString good valid, if_neg apart, stored]
  · rw [get_withTags, if_neg apart.symm, found]

/-- **A request for a server that has a list keeps the lists and the daemons in step.** -/
theorem step_inStep (known : InStep app request.server text) (plain : PlainTag request.tag) :
    ∃ next, step app request = some next ∧ ∀ server other, InStep app server other →
      InStep next server (request.textFor server other) := by
  obtain ⟨keyfile, file, stored, tree, found, -⟩ := known
  obtain ⟨value, there, -, valid⟩ := value_of_getString stored
  have good := isGroupName_of_hasGroup (hasGroup_of_value there)
  have validAfter : validate (request.textAfter text) := validate_textAfter valid plain.2.2
  have same_text : ∀ {other}, InStep app request.server other → other = text := by
    rintro other ⟨otherFile, sameFile, otherStored, -⟩
    obtain rfl := Option.some.inj (file.symm.trans sameFile)
    exact Option.some.inj (otherStored.symm.trans stored)
  rcases change_spec stored with changed | ⟨changed, same⟩
  · refine ⟨withTags app.daemons keyfile request.server (request.textAfter text), ?_,
      fun server other before => ?_⟩
    · unfold step
      rw [file]
      dsimp only
      rw [changed, Option.bind_some]
      dsimp only
      unfold updateTagsOnList
      rw [found, Option.map_some, Option.map_some]
      rfl
    · unfold Request.textFor
      split
      · rename_i here
        subst here
        rw [same_text before]
        exact inStep_withTags good validAfter app.daemons keyfile
      · rename_i apart
        exact inStep_withTags_other good validAfter apart file before
  · refine ⟨app, ?_, fun server other before => ?_⟩
    · unfold step
      rw [file]
      dsimp only
      rw [changed, Option.bind_some]
      dsimp only
      rw [← file]
    · unfold Request.textFor
      split
      · rename_i here
        subst here
        rw [same_text before, same, ← same_text before]
        exact before
      · exact before

/-- The list of a server after any requests. -/
def textAfterAll (server : Text) (requests : List Request) (text : Text) : Text :=
  requests.foldl (fun text request => request.textFor server text) text

/-- **Any requests for servers that have a list keep the lists and the daemons in step.** -/
theorem run_inStep (known : ∀ request ∈ requests, ∃ text, InStep app request.server text)
    (plain : ∀ request ∈ requests, PlainTag request.tag) :
    ∃ final, Run.run step app requests = some final ∧ ∀ server text, InStep app server text →
      InStep final server (textAfterAll server requests text) := by
  induction requests generalizing app with
  | nil => exact ⟨app, rfl, fun server text before => before⟩
  | cons request requests ih =>
    obtain ⟨text, here⟩ := known request List.mem_cons_self
    obtain ⟨next, taken, keeps⟩ := step_inStep here (plain request List.mem_cons_self)
    have later : ∀ other ∈ requests, ∃ text, InStep next other.server text := by
      intro other member
      obtain ⟨otherText, there⟩ := known other (List.mem_cons_of_mem request member)
      exact ⟨_, keeps _ _ there⟩
    obtain ⟨final, runs, all⟩ := ih later fun other member =>
      plain other (List.mem_cons_of_mem request member)
    refine ⟨final, ?_, fun server text before => all server _ (keeps server text before)⟩
    rw [Run.run_cons, taken, Option.bind_some, runs]

end Steps

section Tags

variable {server text tag : Text} {request : Request} {requests : List Request}

/-- The tag was put in and not taken out since, or it was there and not taken out. -/
def Since (server tag : Text) (requests : List Request) (first : Prop) : Prop :=
  (∃ before after, requests = before ++ Request.insert server tag :: after ∧
    Request.remove server tag ∉ after) ∨ first ∧ Request.remove server tag ∉ requests

theorem since_insert (server tag : Text) (requests : List Request) (first : Prop) :
    Since server tag (requests ++ [.insert server tag]) first :=
  .inl ⟨requests, [], rfl, List.not_mem_nil⟩

theorem not_since_remove (server tag : Text) (requests : List Request) (first : Prop) :
    ¬ Since server tag (requests ++ [.remove server tag]) first := by
  rintro (⟨before, after, same, kept⟩ | ⟨-, kept⟩)
  · rcases List.eq_nil_or_concat' after with rfl | ⟨more, last, rfl⟩
    · exact absurd (List.append_inj_right' same rfl) nofun
    · have tails := congrArg List.getLast? same
      rw [List.getLast?_concat, ← List.cons_append, ← List.append_assoc, List.getLast?_concat] at tails
      obtain rfl := Option.some.inj tails
      exact kept (List.mem_append_right more List.mem_cons_self)
  · exact kept (List.mem_append_right requests List.mem_cons_self)

theorem since_other (noInsert : request ≠ .insert server tag)
    (noRemove : request ≠ .remove server tag) (first : Prop) :
    Since server tag (requests ++ [request]) first ↔ Since server tag requests first := by
  have removed : Request.remove server tag ∉ requests ++ [request] ↔
      Request.remove server tag ∉ requests := by
    rw [List.mem_append, List.mem_singleton, or_iff_left fun same => noRemove same.symm]
  unfold Since
  rw [removed]
  refine or_congr_left ⟨?_, ?_⟩
  · rintro ⟨before, after, same, kept⟩
    rcases List.eq_nil_or_concat' after with rfl | ⟨more, last, rfl⟩
    · have tails := congrArg List.getLast? same
      rw [List.getLast?_concat, List.getLast?_concat] at tails
      exact absurd (Option.some.inj tails) noInsert
    · rw [← List.cons_append, ← List.append_assoc] at same
      exact ⟨before, more, List.append_inj_left' same rfl, fun member =>
        kept (List.mem_append_left _ member)⟩
  · rintro ⟨before, after, rfl, kept⟩
    refine ⟨before, after ++ [request], by rw [List.append_assoc, List.cons_append], fun member => ?_⟩
    rcases List.mem_append.1 member with there | here
    · exact kept there
    · exact noRemove (List.mem_singleton.1 here).symm

/-- What a request does to one tag of a list. -/
theorem mem_textFor (clean : 44 ∉ request.tag) (some_byte : tag ≠ []) :
    tag ∈ listed (request.textFor server text) ↔ request = .insert server tag ∨ request ≠
    .remove server tag ∧ tag ∈ listed text := by
  unfold Request.textFor
  split
  · rename_i here
    rw [listed_textAfter clean, mem_withoutEmpty some_byte]
    cases request with
    | insert other inserted =>
      obtain rfl : other = server := here
      rw [Request.insert.injEq, and_iff_right rfl]
      show tag ∈ (if inserted ∈ listed text then listed text else listed text ++ [inserted]) ↔ _
      split
      · rename_i has
        refine ⟨fun member => .inr ⟨nofun, member⟩, ?_⟩
        rintro (rfl | ⟨-, member⟩)
        · exact has
        · exact member
      · rw [List.mem_append, List.mem_singleton, or_comm, eq_comm]
        exact or_congr_right ⟨fun member => ⟨nofun, member⟩, And.right⟩
    | remove other removed =>
      obtain rfl : other = server := here
      show tag ∈ (listed text).filter (· ≠ removed) ↔ _
      rw [List.mem_filter, decide_eq_true_iff, Ne, Ne, Request.remove.injEq, and_iff_right rfl,
        eq_comm (a := tag), and_comm]
      exact ⟨.inr, fun either => either.resolve_left nofun⟩
  · rename_i other
    have apart : request ≠ .insert server tag ∧ request ≠ .remove server tag := by
      constructor
      · rintro rfl
        exact other rfl
      · rintro rfl
        exact other rfl
    exact ⟨fun member => .inr ⟨apart.2, member⟩, fun either => (either.resolve_left apart.1).2⟩

/-- **The tags of the list are those that were put in and not taken out since.** -/
theorem mem_listAfter (clean : ∀ request ∈ requests, 44 ∉ request.tag) (some_byte : tag ≠ []) :
    tag ∈ listed (textAfterAll server requests text) ↔ Since server tag requests
    (tag ∈ listed text) := by
  unfold textAfterAll
  induction requests using List.reverseRecOn with
  | nil =>
    refine ⟨fun member => .inr ⟨member, List.not_mem_nil⟩, ?_⟩
    rintro (⟨before, after, same, -⟩ | ⟨member, -⟩)
    · exact absurd same.symm (by simp)
    · exact member
  | append_singleton requests last ih =>
    have before := ih fun request member => clean request (List.mem_append_left _ member)
    rw [List.foldl_append, List.foldl_cons, List.foldl_nil,
      mem_textFor (clean last (List.mem_append_right _ List.mem_cons_self)) some_byte, before]
    by_cases inserted : last = .insert server tag
    · rw [inserted]
      exact iff_of_true (.inl rfl) (since_insert server tag requests _)
    by_cases removed : last = .remove server tag
    · rw [removed]
      refine iff_of_false ?_ (not_since_remove server tag requests _)
      rintro (never | ⟨apart, -⟩)
      · exact absurd never nofun
      · exact apart rfl
    · rw [since_other inserted removed, or_iff_right inserted, and_iff_right removed]

theorem tidy_textFor (plain : PlainTag request.tag) (tidy : Tidy (listed text)) :
    Tidy (listed (request.textFor server text)) := by
  unfold Request.textFor
  split
  · rw [listed_textAfter plain.2.1]
    have after : Tidy (request.after (listed text)) := by
      cases request with
      | insert other inserted =>
        show Tidy (if inserted ∈ listed text then listed text else listed text ++ [inserted])
        split
        · exact tidy
        · rename_i fresh
          exact tidy_concat tidy plain.1 fresh
      | remove other removed => exact tidy.filter _
    have sub := withoutEmpty_sublist (request.after (listed text))
    exact ⟨after.1.sublist sub, fun member => after.2 (sub.subset member)⟩
  · exact tidy

theorem tidy_textAfterAll (plain : ∀ request ∈ requests, PlainTag request.tag)
    (tidy : Tidy (listed text)) : Tidy (listed (textAfterAll server requests text)) := by
  induction requests generalizing text with
  | nil => exact tidy
  | cons request requests ih =>
    exact ih (fun other member => plain other (List.mem_cons_of_mem request member))
      (tidy_textFor (plain request List.mem_cons_self) tidy)

end Tags

section Configuration

variable {keyfile : GKeyFile} {server text : Text} {requests : List Request}

theorem get_addServerToList (daemons : List (Text × TagTree)) (address : Text) (tags : Option Text)
    (other : Text) : get other (addServerToList daemons address tags) = (get other daemons).or
      (if address = other then some (gebrmDaemonUpdateTags ((tags.map (gStrsplit 44 0)).getD []))
      else none) := by
  unfold addServerToList
  cases found : get address daemons with
  | some tree =>
    dsimp only
    split
    · rename_i same
      rw [← same, found]
      rfl
    · rw [Option.or_none]
  | none =>
    dsimp only
    rw [get_cons]
    dsimp only
    split
    · rename_i same
      rw [← same, found]
      rfl
    · rw [Option.or_none]

/-- The daemons of the groups, each with the tags of the first group of its name. -/
theorem get_configLoadServers (member : server ∈ names keyfile.groups) :
    get server (configLoadServers keyfile).daemons =
      some (gebrmDaemonUpdateTags (((storedTags keyfile server).map listed).getD [])) := by
  have loop : ∀ (groups : List Text) daemons, get server (groups.foldl
      (fun daemons group => addServerToList daemons group (storedTags keyfile group)) daemons) =
        (get server daemons).or
            (if server ∈ groups then
                some (gebrmDaemonUpdateTags (((storedTags keyfile server).map listed).getD []))
                    else none) := by
    intro groups
    induction groups with
    | nil => exact fun daemons => (Option.or_none).symm
    | cons group groups ih =>
      intro daemons
      rw [List.foldl_cons, ih, get_addServerToList, Option.or_assoc]
      congr 1
      by_cases here : group = server
      · rw [if_pos here, here, if_pos List.mem_cons_self]
        rfl
      · have later : server ∈ groups ↔ server ∈ group :: groups :=
          ⟨List.mem_cons_of_mem group, fun member => (List.mem_cons.1 member).resolve_left
            (Ne.symm here)⟩
        rw [if_neg here, Option.none_or]
        exact if_congr later rfl rfl
  unfold configLoadServers
  dsimp only
  rw [loop, if_pos member]
  rfl

/-- **When the file is read**, every server that has a list is in step with its daemon. -/
theorem inStep_configLoadServers (stored : storedTags keyfile server = some text) :
    InStep (configLoadServers keyfile) server text := by
  obtain ⟨value, there, -, -⟩ := value_of_getString stored
  refine ⟨keyfile, rfl, stored, _,
    get_configLoadServers (mem_names_of_hasGroup (hasGroup_of_value there)), fun tag => ?_⟩
  rw [mem_updateTags, stored, Option.map_some, Option.getD_some]

/-- The file can be loaded. -/
def Loaded (app : App) : Prop := ∃ keyfile, app.file = some keyfile

theorem loaded_step {app next : App} {request : Request} (loaded : Loaded app)
    (taken : step app request = some next) : Loaded next := by
  obtain ⟨keyfile, file⟩ := loaded
  unfold step at taken
  rw [file] at taken
  obtain ⟨changed, -, taken⟩ := Option.bind_eq_some_iff.1 taken
  split at taken
  · obtain rfl := Option.some.inj taken
    exact ⟨changed.1, rfl⟩
  · obtain ⟨daemons, -, rfl⟩ := Option.map_eq_some_iff.1 taken
    exact ⟨changed.1, rfl⟩

/-- The tags that a daemon gives out, when none of them is empty. -/
theorem listed_getTags {tree : TagTree} (clean : ∀ tag ∈ tree.keys, 44 ∉ tag)
    (some_byte : [] ∉ tree.keys) : listed (gebrmDaemonGetTags tree) = tree.keys := by
  unfold gebrmDaemonGetTags
  rw [dropLast_flatMap]
  refine (gStrsplit_intercalate clean).trans (if_neg fun one => some_byte ?_)
  rw [one]
  exact List.mem_cons_self

/-- **The tags of the list and of the daemon after any requests.** -/
theorem tags_in_step (keyfile : GKeyFile) (requests : List Request)
    (known : ∀ request ∈ requests, (storedTags keyfile request.server).isSome)
    (plain : ∀ request ∈ requests, PlainTag request.tag) :
    ∃ app final, Run.run step (configLoadServers keyfile) requests = some app ∧ app.file = some final ∧
      ∀ server text, storedTags keyfile server = some text → ∃ list tree, storedTags final server =
        some list ∧ get server app.daemons = some tree ∧
        (∀ tag, tag ≠ [] → (tag ∈ listed list ↔ Since server tag requests (tag ∈ listed text))) ∧
        (∀ tag, tag ∈ tree.keys ↔ tag ∈ listed list) ∧
        (Tidy (listed text) → Tidy (listed list) ∧ listed (gebrmDaemonGetTags tree) = tree.keys) := by
  have ready : ∀ request ∈ requests, ∃ text, InStep (configLoadServers keyfile)
      request.server text := by
    intro request member
    obtain ⟨text, stored⟩ := Option.isSome_iff_exists.1 (known request member)
    exact ⟨text, inStep_configLoadServers stored⟩
  obtain ⟨app, runs, all⟩ := run_inStep ready plain
  obtain ⟨final, file⟩ : Loaded app := Run.run_invariant (fun _ _ _ => loaded_step) ⟨keyfile, rfl⟩ runs
  refine ⟨app, final, runs, file, fun server text stored => ?_⟩
  obtain ⟨otherFile, sameFile, list, tree, found, keys⟩ :=
    all server text (inStep_configLoadServers stored)
  obtain rfl := Option.some.inj (file.symm.trans sameFile)
  refine ⟨_, tree, list, found, fun tag some_byte => ?_, keys, fun tidy => ?_⟩
  · exact mem_listAfter (fun request member => (plain request member).2.1) some_byte
  · have after : Tidy (listed (textAfterAll server requests text)) := tidy_textAfterAll plain tidy
    refine ⟨after, listed_getTags (fun tag member => ?_) fun member => after.2 ((keys []).1 member)⟩
    exact not_mem_of_mem_gStrsplit ((keys tag).1 member)

/-- A file with one server. -/
def oneServer (keys : List (Text × Value)) : GKeyFile where
  groups := [(ascii "s", keys)]
  named := by
    intro name member
    obtain rfl := List.mem_singleton.1 member
    exact (by decide +kernel : isGroupName (ascii "s") = true)

theorem tags_in_step_one : ∃ app final,
    Run.run step (configLoadServers (oneServer [(ascii "tags", ⟨ascii "ab,b", true⟩)]))
      [.insert (ascii "s") (ascii "a"), .remove (ascii "s") (ascii "b")] = some app ∧
      app.file = some final ∧ ∀ server text, storedTags
        (oneServer [(ascii "tags", ⟨ascii "ab,b", true⟩)]) server = some text → ∃ list tree,
        storedTags final server = some list ∧ get server app.daemons = some tree ∧
          (∀ tag, tag ≠ [] →
        (tag ∈ listed list ↔
        Since server tag [.insert (ascii "s") (ascii "a"), .remove (ascii "s") (ascii "b")]
        (tag ∈ listed text))) ∧ (∀ tag, tag ∈ tree.keys ↔ tag ∈ listed list) ∧
        (Tidy (listed text) → Tidy (listed list) ∧ listed (gebrmDaemonGetTags tree) = tree.keys) :=
  tags_in_step (oneServer [(ascii "tags", ⟨ascii "ab,b", true⟩)])
    [.insert (ascii "s") (ascii "a"), .remove (ascii "s") (ascii "b")] (by decide +kernel)
    (by unfold PlainTag; decide +kernel)

/-- **The order of the tags**: the file has them as they were put in, the daemon by their bytes. A
request for a server without a list cannot be carried out, nor any after a tag that is not UTF-8;
and a tag that the list has twice at first stays there twice. -/
theorem order_of_tags :
    (∃ app final tree, Run.run step (configLoadServers (oneServer [(ascii "tags", ⟨ascii "b", true⟩)]))
        [.insert (ascii "s") (ascii "a")] = some app ∧ app.file = some final ∧
      storedTags final (ascii "s") = some (ascii "b,a") ∧ get (ascii "s") app.daemons = some tree ∧
      gebrmDaemonGetTags tree = ascii "a,b") ∧
    Run.run step (configLoadServers (oneServer [])) [.insert (ascii "s") (ascii "a")] = none ∧
    Run.run step (configLoadServers (oneServer [(ascii "tags", ⟨[], true⟩)]))
        [.insert (ascii "s") [255], .insert (ascii "s") (ascii "a")] = none ∧
    ∃ app final, Run.run step (configLoadServers (oneServer [(ascii "tags", ⟨ascii "a,a", true⟩)]))
        [.insert (ascii "s") (ascii "a")] = some app ∧ app.file = some final ∧
      storedTags final (ascii "s") = some (ascii "a,a") := by
  refine ⟨⟨_, _, _, rfl, rfl, by decide +kernel, rfl, by decide +kernel⟩, by decide +kernel,
    by decide +kernel, ?_⟩
  exact ⟨_, _, rfl, rfl, by decide +kernel⟩

end Configuration

end Gebr.Maestro.GroupTags
