/-
**The content of a message as JSON.**

A flow that is to run, a list of its servers or any other text is put into an object with one
member, which is written as JSON on one line. The other side loads the object and takes the member
out.

* `contentNewFromString`, `contentToNode`, `contentToGString`: the two sides.
* `node_kept`: a node comes out as it is read again.
* `gstring_kept` — **a text comes out with its vertical tabs turned into letters**, as it was if and
  only if it has none.
-/

import Gebr.Json.RoundTrip

namespace Gebr.Comm.JsonContent

open Gebr.Json
open Gebr.Lib
open Gebr.Lib.CString (ascii)

section Model

/-- `gebr_comm_json_content_new_from_node`. -/
def contentNewFromNode (node : JsonNode) : Option Json.Bytes :=
  jsonGeneratorToData jsonGeneratorNew (.object (NamedTable.put (ascii "value") node []))

/-- `gebr_comm_json_content_new_from_string`. -/
def contentNewFromString (string : Json.Bytes) : Option Json.Bytes :=
  contentNewFromNode (.string string)

/-- `json_object_get_member` of the root, if it is an object. -/
def memberOf (name : Json.Bytes) : Root → Option JsonNode
  | .node (.object members) => NamedTable.get name members
  | _ => none

/-- `gebr_comm_json_content_to_node`; `none` where an assertion stops the program. -/
def contentToNode (json : Json.Bytes) : Option (Option JsonNode) :=
  match jsonParserLoad json with
  | (root, .ok ()) => some (memberOf (ascii "value") root)
  | (_, .error .assertion) => none
  | (_, .error _) => some none

/-- `json_node_get_string`. -/
def jsonNodeGetString : Option JsonNode → Option Json.Bytes
  | some (.string str) => some str
  | _ => none

/-- `gebr_comm_json_content_to_gstring`; nothing gives an empty string. -/
def contentToGString (json : Json.Bytes) : Option Json.Bytes :=
  (contentToNode json).map fun node => (jsonNodeGetString node).getD []

end Model

section Kept

theorem value_plain : PlainName (ascii "value") := plainName_of_all (by decide) (by decide)

/-- A node that can be written comes out as it is read again. -/
theorem node_kept {node : JsonNode} (writable : Writable node) :
    ∃ content, contentNewFromNode node = some content ∧ contentToNode content =
      some (some (rereadNode node)) := by
  have blank : jsonGeneratorNew.Blank := fun pretty => Bool.noConfusion pretty
  have whole : Writable (.object (NamedTable.put (ascii "value") node [])) :=
    ⟨List.nodup_singleton _, value_plain, writable, trivial⟩
  obtain ⟨content, dumped, loaded⟩ := written_load blank whole rfl
  refine ⟨content, dumped, ?_⟩
  rw [contentToNode, loaded]
  rfl

theorem map_reread_iff (string : Json.Bytes) : string.map reread = string ↔ 11 ∉ string := by
  constructor
  · intro same member
    -- A vertical tab that is kept would be among the texts of the map, where there is none.
    have kept : (11 : UInt8) ∈ string.map reread := same.symm ▸ member
    obtain ⟨b, -, tab⟩ := List.mem_map.1 kept
    unfold reread at tab
    split_ifs at tab with vt
    · cases tab
    · exact vt tab
  · intro none_there
    have same : string.map reread = string.map id := List.map_congr_left fun b member =>
      reread_eq fun vt => none_there (vt ▸ member)
    rw [same, List.map_id]

/-- **A text comes out with its vertical tabs turned into letters**, as it was if and only if it has
none. -/
theorem gstring_kept {string : Json.Bytes} (terminated : 0 ∉ string) :
    (contentNewFromString string).bind contentToGString = some (string.map reread) ∧
      ((contentNewFromString string).bind contentToGString = some string ↔ 11 ∉ string) := by
  have kept : (contentNewFromString string).bind contentToGString = some (string.map reread) := by
    obtain ⟨content, dumped, read⟩ := node_kept (show Writable (.string string) from terminated)
    rw [contentNewFromString, dumped, Option.bind_some, contentToGString, read]
    rfl
  refine ⟨kept, ?_⟩
  rw [kept, Option.some.injEq, map_reread_iff]

theorem gstring_kept_quotes :
    (contentNewFromString (ascii "<flow version=\"0.4.1\"/>")).bind contentToGString =
      some (ascii "<flow version=\"0.4.1\"/>") :=
  (gstring_kept (by decide)).2.2 (by decide)

end Kept

end Gebr.Comm.JsonContent
