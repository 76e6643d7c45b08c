/-
**Snapshots of a flow: the stored revisions, the children hash and the removal of one.**

A flow keeps its snapshots as `<revision>` elements. Each holds an id, a date, a comment and the
serialised flow of that moment, whose own `parent` element names the snapshot it was made from.
The tree is therefore stored twice: in the serialised documents, and in the hash table
`gebrFlowRevisionsHashCreate` builds from them (id to the list of the children's ids).

* `DocumentCodec`: `gebr_geoxml_document_load_buffer` and `gebr_geoxml_document_to_string`.
* `gebrFlowRevisionsHashCreate`: the children hash of a flow.
* `flowRevisionRemove`: the removal of one snapshot, with the hash the caller passes.

Strings that are compared by address (`g_list_remove`) are kept with it: `CStr`.
-/

import Mathlib.Data.List.Basic

namespace Gebr.Flow

/-- What the removal reads and writes of a loaded document: its parent id, and the rest. -/
structure Document where
  parentId : String
  body : String
  deriving DecidableEq, Repr

/-- `gebr_geoxml_document_set_parent_id`. -/
def Document.setParentId (doc : Document) (parent : String) : Document :=
  { doc with parentId := parent }

/-- The XML loader and writer, over the type of XML texts. A document that was just written loads
back as it was. -/
structure DocumentCodec (Xml : Type) where
  loadBuffer : Xml → Option Document
  toString : Document → Xml
  load_toString : ∀ doc, loadBuffer (toString doc) = some doc

/-- A `<revision>` element; `data` is the XML text of the snapshot. -/
structure Revision (Xml : Type) where
  id : String
  data : Xml
  date : String
  comment : String
  deriving DecidableEq, Repr

/-- A C string: where it lies and what it says. -/
structure CStr where
  addr : ℕ
  text : String
  deriving DecidableEq, Repr

variable {Xml : Type}

section Hash

/-- The `GHashTable` of the snapshots. `none` is a missing key; `some []` is a key whose value is
the empty list, which is `NULL`. -/
abbrev RevisionHash := String → Option (List CStr)

namespace RevisionHash

/-- `g_hash_table_lookup`: a missing key and an empty list both read as `NULL`. -/
def lookup (hash : RevisionHash) (key : String) : List CStr := (hash key).getD []

/-- `g_hash_table_insert`. -/
def insert (hash : RevisionHash) (key : String) (value : List CStr) : RevisionHash :=
  fun other => if other = key then some value else hash other

/-- `g_hash_table_remove`. -/
def remove (hash : RevisionHash) (key : String) : RevisionHash :=
  fun other => if other = key then none else hash other

/-- The table `g_hash_table_new_full` returns. -/
def empty : RevisionHash := fun _ => none

@[simp] theorem lookup_empty (key : String) : empty.lookup key = [] := rfl

@[simp] theorem isSome_empty (key : String) : (empty key).isSome = false := rfl

@[simp] theorem lookup_insert (hash : RevisionHash) (key other : String) (value : List CStr) :
    (hash.insert key value).lookup other = if other = key then value else hash.lookup other := by
  unfold lookup insert
  split <;> rfl

@[simp] theorem lookup_remove (hash : RevisionHash) (key other : String) :
    (hash.remove key).lookup other = if other = key then [] else hash.lookup other := by
  unfold lookup remove
  split <;> rfl

@[simp] theorem isSome_insert (hash : RevisionHash) (key other : String) (value : List CStr) :
    ((hash.insert key value) other).isSome = (decide (other = key) || (hash other).isSome) := by
  unfold insert
  by_cases same : other = key <;> simp [same]

@[simp] theorem isSome_remove (hash : RevisionHash) (key other : String) :
    ((hash.remove key) other).isSome = (!decide (other = key) && (hash other).isSome) := by
  unfold remove
  by_cases same : other = key <;> simp [same]

/-- Two tables are the same up to the order of each list and the place of its strings. -/
def Same (hash other : RevisionHash) : Prop :=
  ∀ key, (hash key).isSome = (other key).isSome ∧
    ((hash.lookup key).map CStr.text).Perm ((other.lookup key).map CStr.text)

end RevisionHash

/-- One turn of the loop of `gebr_flow_revisions_hash_create`; `copy` is the address `g_strdup`
gives to the copy of the snapshot's id. -/
def hashAddRevision (codec : DocumentCodec Xml) (copy : ℕ) (hash : RevisionHash) (rev : Revision Xml) :
    Option RevisionHash :=
  -- A key whose list is empty looks like a missing one, and is inserted once more.
  let hash := if hash.lookup rev.id = [] then hash.insert rev.id [] else hash
  match codec.loadBuffer rev.data with
  | none => none
  | some revdoc =>
    let parentId := revdoc.parentId
    if parentId = "" then
      some (hash.insert rev.id (hash.lookup rev.id))
    else
      some (hash.insert parentId (⟨copy, rev.id⟩ :: hash.lookup parentId))

/-- The loop itself; `index` counts the snapshots already read. -/
def hashAddRevisions (codec : DocumentCodec Xml) (alloc : ℕ → ℕ) :
    ℕ → RevisionHash → List (Revision Xml) → Option RevisionHash
  | _, hash, [] => some hash
  | index, hash, rev :: seq =>
    (hashAddRevision codec (alloc index) hash rev).bind fun hash =>
      hashAddRevisions codec alloc (index + 1) hash seq

/-- `gebr_flow_revisions_hash_create`: the children hash, or `NULL` when a snapshot does not load.
`alloc i` is where the copy of the id of the `i`-th snapshot is put. -/
def gebrFlowRevisionsHashCreate (codec : DocumentCodec Xml) (alloc : ℕ → ℕ)
    (flow : List (Revision Xml)) : Option RevisionHash :=
  hashAddRevisions codec alloc 0 RevisionHash.empty flow

end Hash

section Remove

/-- `gebr_geoxml_flow_get_revision_by_id`. -/
def getRevisionById (flow : List (Revision Xml)) (id : String) : Option (Revision Xml) :=
  flow.find? fun rev => rev.id = id

/-- `gebr_geoxml_flow_set_revision_data` on the first snapshot with this id. -/
def setRevisionData (flow : List (Revision Xml)) (id : String) (data : Xml) : List (Revision Xml) :=
  match flow with
  | [] => []
  | rev :: seq =>
    if rev.id = id then { rev with data := data } :: seq else rev :: setRevisionData seq id data

/-- The loop over the children: each is loaded, given the new parent and written back. The flag is
`false` when a child did not load; the children before it have been rewritten by then. -/
def reparentChildren (codec : DocumentCodec Xml) (parentId : String) :
    List (Revision Xml) → List CStr → List (Revision Xml) × Bool
  | flow, [] => (flow, true)
  | flow, child :: children =>
    match (getRevisionById flow child.text).bind fun rev => codec.loadBuffer rev.data with
    | none => (flow, false)
    | some docRev =>
      let flowXml := codec.toString (docRev.setParentId parentId)
      reparentChildren codec parentId (setRevisionData flow child.text flowXml) children

/-- `g_list_remove`: takes out the first element with this address. -/
def gListRemove (list : List CStr) (data : CStr) : List CStr :=
  list.eraseP fun element => element.addr = data.addr

/-- What a call leaves behind: the flow, the hash and the value returned. -/
structure RemoveOutcome (Xml : Type) where
  flow : List (Revision Xml)
  hash : Option RevisionHash
  result : Bool

/-- `flow_revision_remove`. `uninitialised` is the value the local `result` happens to hold; a
`NULL` hash answers every lookup with `NULL`. -/
def flowRevisionRemove (codec : DocumentCodec Xml) (uninitialised : Bool) (flow : List (Revision Xml))
    (idRemove : CStr) (parentHead : String) (hash : Option RevisionHash) : RemoveOutcome Xml :=
  match getRevisionById flow idRemove.text with
  | none => ⟨flow, hash, false⟩
  | some rev =>
    match codec.loadBuffer rev.data with
    | none => ⟨flow, hash, false⟩
    | some doc =>
      let parentId := doc.parentId
      let rest := flow.eraseP fun rev => rev.id = idRemove.text
      match hash with
      | none => ⟨rest, none, decide (parentHead = idRemove.text)⟩
      | some hash =>
        let children := hash.lookup idRemove.text
        -- A leaf leaves here, and the hash keeps both its key and its place under its parent.
        if children = [] then ⟨rest, some hash, decide (parentHead = idRemove.text)⟩
        else
          let result := if idRemove.text = parentHead then true else uninitialised
          match reparentChildren codec parentId rest children with
          | (flow, false) => ⟨flow, some hash, false⟩
          | (flow, true) =>
            let parentChildren := gListRemove (hash.lookup parentId) idRemove ++ children
            let hash := (hash.insert parentId parentChildren).remove idRemove.text
            ⟨flow, some hash, result⟩

end Remove

end Gebr.Flow
