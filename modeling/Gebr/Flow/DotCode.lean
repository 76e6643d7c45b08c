/-
**The graph of the snapshots, written for the layout program.**

Each snapshot is a node that shows its comment, broken into at most three lines, and its date; the
current state is a node of its own.

* `printFormat`, `printEdges`, `createDotCode`: the nodes, the edges and the whole text. They are
  `none` where the code works on a space or on a snapshot that it did not find.
* `Breakable`, `wrapComment_isSome_iff`, `wrapComment_broken`: the comments that are broken, and
  where.
* `Drawn`: the text shows each snapshot and each link once.
* `dotCode_iff` — **when the graph is written as it should be**.
* `long_word`: a comment whose first word is too long.
-/

import Gebr.Flow.RevisionTree
import Gebr.Lib.Markup
import Mathlib.Data.List.Perm.Lattice

namespace Gebr.Flow.DotCode

open Gebr.Lib.CString Gebr.Lib.Markup

abbrev Text : Type := List UInt8

variable {Xml : Type} {codec : DocumentCodec Xml} {flow : List (Revision Xml)} {hash : RevisionHash}

section Model

/-- What the environment says of dates, and its word for the current state. -/
structure Locale where
  localizedDate : String → String
  now : String

def bytes (s : String) : Text := utf8 s.toList

def lineBreak : Text := ascii "<br/>"

/-- `gebr_geoxml_flow_get_revision_index_by_id`; `-1` is `none`. -/
def getRevisionIndexById (flow : List (Revision Xml)) (id : String) : Option ℕ :=
  flow.findIdx? fun rev => rev.id = id

/-- `gebr_geoxml_flow_get_revision`. -/
def getRevision (flow : List (Revision Xml)) (index : ℕ) : Option (Revision Xml) := flow[index]?

/-- The comment of a snapshot, as it is shown. -/
def escapedComment (rev : Revision Xml) : Text :=
  gMarkupEscapeText (if rev.comment = "" then "- - - -" else rev.comment).toList

/-- The lines of a comment. Both places are those in the unbroken text. -/
def wrapComment (comment : Text) : Option Text :=
  if 20 < comment.length then
    (gStrrstrLen comment 21 32).bind fun lastSpace =>
      let final := gStringInsert comment lastSpace lineBreak
      if 40 < comment.length then
        (gStrrstrLen comment 40 32).map fun lastSpace => gStringInsert final (lastSpace + 5) lineBreak
      else some final
  else some comment

def fontsize (size : ℕ) : ℕ := if 20 < size then 8 else if 15 < size then 9 else 10

def headNode (now : String) : Text :=
  bytes ("head [URL=\"head\" label = \"" ++ now ++
    "\",shape = ellipse, color = \"#000080\",fontsize = 10]")

def snapshotNode (id : String) (final date : Text) (size : ℕ) : Text :=
  bytes (id ++ " [URL=\"" ++ id ++
    "\" label =<<table border=\"0\" cellborder=\"0\" cellpadding=\"3\" bgcolor=\"white\">") ++
  ascii "<tr><td bgcolor=\"#000040\" align=\"center\"><font color=\"white\">" ++ final ++
  ascii "</font></td></tr><tr><td align=\"center\">" ++ date ++
  ascii "</td></tr></table>>, shape = note,fontsize = " ++ decimal size ++ ascii "]"

/-- The comment and the date of a node. -/
def commentAndDate (locale : Locale) (flow : List (Revision Xml)) (id : String) :
    Option (Text × Text) :=
  if id = "" then some (ascii "--", ascii "--")
  else ((getRevisionIndexById flow id).bind (getRevision flow)).map fun rev =>
    (escapedComment rev, bytes (locale.localizedDate rev.date))

/-- `print_format`. -/
def printFormat (locale : Locale) (flow : List (Revision Xml)) (id : String) (isHead : Bool) :
    Option Text :=
  (commentAndDate locale flow id).bind fun (comment, date) =>
    (wrapComment comment).map fun final =>
      if isHead then headNode locale.now else snapshotNode id final date (fontsize comment.length)

/-- The loop over the keys of the table. -/
def printFormats (locale : Locale) (flow : List (Revision Xml)) : List String → Option Text
  | [] => some []
  | id :: ids =>
    (printFormat locale flow id false).bind fun node => (printFormats locale flow ids).map (node ++ ·)

def edgeText (edge : String × String) : Text := bytes (edge.1 ++ "->" ++ edge.2 ++ "[style=filled]")

/-- `print_edges`. -/
def printEdges (key : String) (value : List CStr) : Text :=
  value.flatMap fun child => edgeText (key, child.text)

/-- **The keys of a table, each once**, in the order in which it is walked. -/
structure Walk (hash : RevisionHash) where
  keys : List String
  nodup : keys.Nodup
  mem : ∀ key, key ∈ keys ↔ (hash key).isSome

/-- `gebr_geoxml_flow_create_dot_code`. `g_hash_table_get_keys` puts each key in front of those
before it. -/
def createDotCode (locale : Locale) (flow : List (Revision Xml)) (parentId : String)
    (walk : Walk hash) : Option Text :=
  (printFormats locale flow walk.keys.reverse).bind fun nodes =>
    (printFormat locale flow parentId true).map fun head =>
      ascii "digraph \x7b graph [bgcolor=white]" ++ nodes ++ head ++
        (if parentId = "" then [] else edgeText (parentId, "head")) ++
        (walk.keys.flatMap fun key => printEdges key (hash.lookup key)) ++ ascii "\x7d\n"

end Model

section Comments

/-- A comment that fits into one line, or has a space near its front. -/
def Breakable (comment : Text) : Prop := comment.length ≤ 20 ∨ 32 ∈ comment.take 21

instance (comment : Text) : Decidable (Breakable comment) := inferInstanceAs (Decidable (_ ∨ _))

theorem wrapComment_isSome_iff (comment : Text) :
    (wrapComment comment).isSome ↔ Breakable comment := by
  unfold wrapComment Breakable
  split
  · rename_i long
    rw [or_iff_right (Nat.not_le.2 long), ← gStrrstrLen_isSome_iff]
    cases first : gStrrstrLen comment 21 32 with
    | none => exact Iff.rfl
    | some place =>
      -- The longer front has a space as well.
      have near : 32 ∈ comment.take 40 := by
        have member := (gStrrstrLen_isSome_iff comment 21 32).1 (by rw [first]; rfl)
        exact List.take_subset_take_left comment (by decide : 21 ≤ 40) member
      rw [Option.bind_some]
      dsimp only
      split
      · rw [Option.isSome_map]
        exact iff_of_true ((gStrrstrLen_isSome_iff _ _ _).2 near) rfl
      · exact iff_of_true rfl rfl
  · rename_i short
    exact iff_of_true rfl (Or.inl (Nat.not_lt.1 short))

/-- **A comment is broken in front of spaces only**, which are its own and not part of an entity. -/
theorem wrapComment_broken {text : List Char} {shown : Text}
    (wrapped : wrapComment (gMarkupEscapeText text) = some shown) : Broken lineBreak text shown := by
  unfold wrapComment at wrapped
  split at wrapped
  · obtain ⟨place, first, wrapped⟩ := Option.bind_eq_some_iff.1 wrapped
    have space := (lastBelow_some first).1
    dsimp only at wrapped
    split at wrapped
    · obtain ⟨other, next, rfl⟩ := Option.map_eq_some_iff.1 wrapped
      exact broken_twice lineBreak space (lastBelow_some next).1
        (gStrrstrLen_le (by decide) first next)
    · obtain rfl := Option.some.inj wrapped
      exact broken_once lineBreak space
  · obtain rfl := Option.some.inj wrapped
    exact broken_never lineBreak text

end Comments

section Nodes

variable {locale : Locale} {rev : Revision Xml} {revs : List (Revision Xml)} {parentId : String}

theorem getRevision_getRevisionIndexById (flow : List (Revision Xml)) (id : String) :
    (getRevisionIndexById flow id).bind (getRevision flow) = getRevisionById flow id :=
  List.find?_eq_bind_findIdx?_getElem?.symm

/-- A snapshot, and what is shown of its comment. -/
def nodeText (locale : Locale) (node : Revision Xml × Text) : Text :=
  snapshotNode node.1.id node.2 (bytes (locale.localizedDate node.1.date))
    (fontsize (escapedComment node.1).length)

theorem commentAndDate_eq (forest : SnapshotForest codec flow) (stored : rev ∈ flow) :
    commentAndDate locale flow rev.id =
      some (escapedComment rev, bytes (locale.localizedDate rev.date)) := by
  unfold commentAndDate
  rw [if_neg (forest.named rev stored), getRevision_getRevisionIndexById,
    getRevisionById_of_mem forest.distinct stored, Option.map_some]

theorem printFormat_node (forest : SnapshotForest codec flow) (stored : rev ∈ flow) :
    printFormat locale flow rev.id false =
      (wrapComment (escapedComment rev)).map fun final => nodeText locale (rev, final) := by
  unfold printFormat
  rw [commentAndDate_eq forest stored, Option.bind_some]
  rfl

/-- The head is written if it has no parent, or if its parent's comment can be broken. -/
theorem printFormat_head_isSome_iff (forest : SnapshotForest codec flow) :
    (printFormat locale flow parentId true).isSome ↔
      parentId = "" ∨ ∃ rev ∈ flow, rev.id = parentId ∧ Breakable (escapedComment rev) := by
  by_cases none : parentId = ""
  · rw [none]
    exact iff_of_true rfl (Or.inl rfl)
  · rw [or_iff_right none]
    constructor
    · intro written
      obtain ⟨head, written⟩ := Option.isSome_iff_exists.1 written
      obtain ⟨⟨comment, date⟩, found, wrapped⟩ := Option.bind_eq_some_iff.1 written
      obtain ⟨final, wrapped, -⟩ := Option.map_eq_some_iff.1 wrapped
      unfold commentAndDate at found
      rw [if_neg none, getRevision_getRevisionIndexById] at found
      obtain ⟨rev, here, same⟩ := Option.map_eq_some_iff.1 found
      obtain ⟨stored, id⟩ := getRevisionById_some here
      rw [← (Prod.mk.inj same).1] at wrapped
      exact ⟨rev, stored, id,
        (wrapComment_isSome_iff _).1 (Option.isSome_iff_exists.2 ⟨final, wrapped⟩)⟩
    · rintro ⟨rev, stored, rfl, breakable⟩
      unfold printFormat
      rw [commentAndDate_eq forest stored, Option.bind_some, Option.isSome_map, wrapComment_isSome_iff]
      exact breakable

theorem printFormat_head {head : Text} (written : printFormat locale flow parentId true = some head) :
    head = headNode locale.now := by
  obtain ⟨⟨comment, date⟩, -, wrapped⟩ := Option.bind_eq_some_iff.1 written
  obtain ⟨final, -, rfl⟩ := Option.map_eq_some_iff.1 wrapped
  rfl

theorem printFormats_cons (id : String) (ids : List String) : printFormats locale flow (id :: ids) =
    (printFormat locale flow id false).bind fun node => (printFormats locale flow ids).map
    (node ++ ·) := rfl

/-- The nodes are written iff each comment can be broken. -/
theorem printFormats_isSome_iff (forest : SnapshotForest codec flow)
    (stored : ∀ rev ∈ revs, rev ∈ flow) : (printFormats locale flow (revs.map Revision.id)).isSome ↔
    ∀ rev ∈ revs, Breakable (escapedComment rev) := by
  induction revs with
  | nil => exact iff_of_true rfl fun _ member => absurd member List.not_mem_nil
  | cons rev revs ih =>
    have rest := ih fun other later => stored other (List.mem_cons_of_mem _ later)
    rw [List.forall_mem_cons, ← rest, ← wrapComment_isSome_iff, List.map_cons, printFormats_cons,
      printFormat_node forest (stored rev List.mem_cons_self)]
    cases wrapComment (escapedComment rev) with
    | none => exact iff_of_false Bool.false_ne_true fun both => Bool.false_ne_true both.1
    | some final =>
      rw [Option.map_some, Option.bind_some, Option.isSome_map]
      exact (and_iff_right rfl).symm

/-- **The nodes show each snapshot.** -/
theorem printFormats_nodes (forest : SnapshotForest codec flow) (stored : ∀ rev ∈ revs, rev ∈ flow)
    {text : Text} (written : printFormats locale flow (revs.map Revision.id) = some text) :
    ∃ nodes : List (Revision Xml × Text), nodes.map Prod.fst = revs ∧ text =
      nodes.flatMap (nodeText locale) ∧ ∀ node ∈ nodes, wrapComment (escapedComment node.1) =
      some node.2 := by
  induction revs generalizing text with
  | nil =>
    exact ⟨[], rfl, (Option.some.inj written).symm, fun _ member => absurd member List.not_mem_nil⟩
  | cons rev revs ih =>
    rw [List.map_cons, printFormats_cons,
      printFormat_node forest (stored rev List.mem_cons_self)] at written
    obtain ⟨node, shown, written⟩ := Option.bind_eq_some_iff.1 written
    obtain ⟨final, wrapped, rfl⟩ := Option.map_eq_some_iff.1 shown
    obtain ⟨rest, later, rfl⟩ := Option.map_eq_some_iff.1 written
    obtain ⟨nodes, same, rfl, each⟩ :=
      ih (fun other later => stored other (List.mem_cons_of_mem _ later)) later
    refine ⟨(rev, final) :: nodes, by rw [List.map_cons, same], rfl, ?_⟩
    intro node member
    rcases List.mem_cons.1 member with rfl | later
    · exact wrapped
    · exact each node later

end Nodes

section Graph

variable {parentId : String}

/-- The text that is shown of a comment: it is broken in front of spaces only. -/
def Shows (node : Revision Xml × Text) : Prop :=
  Broken lineBreak (if node.1.comment = "" then "- - - -" else node.1.comment).toList node.2

/-- Each snapshot with each of its children. -/
def links (codec : DocumentCodec Xml) (flow : List (Revision Xml)) : List (String × String) :=
  flow.flatMap fun rev => (childIds codec flow rev.id).map fun child => (rev.id, child)

/-- **The text has a node for each snapshot and one for the head, and an edge for each link and one
to the head.** -/
def Drawn (codec : DocumentCodec Xml) (locale : Locale) (flow : List (Revision Xml))
    (parentId : String) (code : Text) : Prop :=
  ∃ (nodes : List (Revision Xml × Text)) (edges : List (String × String)),
    (nodes.map Prod.fst).Perm flow ∧ (∀ node ∈ nodes, Shows node) ∧ edges.Perm (links codec flow) ∧
      code = ascii "digraph \x7b graph [bgcolor=white]" ++ nodes.flatMap (nodeText locale) ++
        headNode locale.now ++ (if parentId = "" then [] else edgeText (parentId, "head")) ++
          edges.flatMap edgeText ++ ascii "\x7d\n"

/-- What is listed in another order is the image of a list in another order. -/
theorem exists_of_map_perm {α β : Type} {f : α → β} {items : List α} {images : List β}
    (perm : images.Perm (items.map f)) : ∃ moved :
    List α, moved.Perm items ∧ moved.map f = images := by
  induction items generalizing images with
  | nil => exact ⟨[], List.Perm.refl _, (List.perm_nil.1 perm).symm⟩
  | cons item items ih =>
    have member : f item ∈ images := perm.mem_iff.2 List.mem_cons_self
    obtain ⟨front, back, rfl⟩ := List.append_of_mem member
    have rest : (front ++ back).Perm (items.map f) := (List.perm_middle.symm.trans perm).cons_inv
    obtain ⟨moved, same, parts⟩ := ih rest
    obtain ⟨first, last, rfl, rfl, rfl⟩ := List.map_eq_append_iff.1 parts
    exact ⟨first ++ item :: last, List.perm_middle.trans (same.cons item), by simp⟩

theorem walk_perm (forest : SnapshotForest codec flow) (describes : Describes codec flow hash)
    (walk : Walk hash) : walk.keys.Perm (flow.map Revision.id) := by
  refine (List.perm_ext_iff_of_nodup walk.nodup forest.distinct).2 fun key => ?_
  rw [walk.mem, (describes key).1, decide_eq_true_eq]

/-- The edges that are written, one by one. -/
def edges (walk : Walk hash) : List (String × String) :=
  walk.keys.flatMap fun key => ((hash.lookup key).map CStr.text).map fun child => (key, child)

theorem flatMap_printEdges (walk : Walk hash) :
    (walk.keys.flatMap fun key => printEdges key (hash.lookup key)) =
    (edges walk).flatMap edgeText := by
  unfold edges
  rw [List.flatMap_assoc]
  refine congrArg (List.flatMap · walk.keys) (funext fun key => ?_)
  rw [List.flatMap_map, List.flatMap_map]
  rfl

/-- **The edges are the links.** -/
theorem edges_perm (forest : SnapshotForest codec flow) (describes : Describes codec flow hash)
    (walk : Walk hash) : (edges walk).Perm (links codec flow) := by
  have each : ∀ key, (((hash.lookup key).map CStr.text).map fun child => (key, child)).Perm
      ((childIds codec flow key).map fun child => (key, child)) := fun key => (describes key).2.map _
  have moved := (walk_perm forest describes walk).flatMap_right
    fun key => (childIds codec flow key).map fun child => (key, child)
  rw [List.flatMap_map] at moved
  exact (List.Perm.flatMap_left _ fun key _ => each key).trans moved

/-- **When the graph is written as it should be**: the head's parent is there, and each comment can
be broken. -/
theorem dotCode_iff (locale : Locale) (forest : SnapshotForest codec flow)
    (describes : Describes codec flow hash) (walk : Walk hash) (parentId : String) :
    (∃ code, createDotCode locale flow parentId walk = some code ∧
      Drawn codec locale flow parentId code) ↔ (parentId = "" ∨ parentId ∈ flow.map Revision.id) ∧
      ∀ rev ∈ flow, Breakable (escapedComment rev) := by
  have reversed : walk.keys.reverse.Perm (flow.map Revision.id) :=
    (List.reverse_perm _).trans (walk_perm forest describes walk)
  obtain ⟨revs, moved, keys⟩ := exists_of_map_perm reversed
  have stored : ∀ rev ∈ revs, rev ∈ flow := fun rev => moved.mem_iff.1
  have nodesWritten : (printFormats locale flow (revs.map Revision.id)).isSome ↔
      ∀ rev ∈ revs, Breakable (escapedComment rev) := printFormats_isSome_iff forest stored
  have headWritten : (printFormat locale flow parentId true).isSome ↔
      parentId = "" ∨ ∃ rev ∈ flow, rev.id = parentId ∧ Breakable (escapedComment rev) :=
    printFormat_head_isSome_iff forest
  unfold createDotCode
  rw [← keys]
  constructor
  · rintro ⟨code, written, -⟩
    obtain ⟨nodes, first, written⟩ := Option.bind_eq_some_iff.1 written
    obtain ⟨head, next, -⟩ := Option.map_eq_some_iff.1 written
    refine ⟨?_, fun rev member => ?_⟩
    · rcases headWritten.1 (Option.isSome_iff_exists.2 ⟨head, next⟩) with none | ⟨rev, member, rfl, -⟩
      · exact Or.inl none
      · exact Or.inr (List.mem_map_of_mem member)
    · exact nodesWritten.1 (Option.isSome_iff_exists.2 ⟨nodes, first⟩) rev (moved.mem_iff.2 member)
  · rintro ⟨parent, breakable⟩
    obtain ⟨text, written⟩ := Option.isSome_iff_exists.1
      (nodesWritten.2 fun rev member => breakable rev (stored rev member))
    obtain ⟨head, next⟩ : ∃ head, printFormat locale flow parentId true = some head := by
      refine Option.isSome_iff_exists.1 (headWritten.2 (parent.imp_right fun member => ?_))
      obtain ⟨rev, there, same⟩ := List.mem_map.1 member
      exact ⟨rev, there, same, breakable rev there⟩
    obtain ⟨nodes, same, rfl, each⟩ := printFormats_nodes forest stored written
    rw [written, Option.bind_some, next, Option.map_some, printFormat_head next, flatMap_printEdges]
    refine ⟨_, rfl, nodes, edges walk, ?_, fun node member => ?_, edges_perm forest describes walk,
      rfl⟩
    · rw [same]
      exact moved
    · exact wrapComment_broken (each node member)

/-- Documents that are kept as they are. -/
def storedCodec : DocumentCodec Document := ⟨some, id, fun _ => rfl⟩

/-- One snapshot with a comment. -/
def single (comment : String) : List (Revision Document) := [⟨"a", ⟨"", ""⟩, "", comment⟩]

def singleHash : RevisionHash := RevisionHash.empty.insert "a" []

def singleWalk : Walk singleHash where
  keys := ["a"]
  nodup := List.nodup_singleton "a"
  mem := fun key => by
    unfold singleHash
    rw [RevisionHash.isSome_insert, RevisionHash.isSome_empty, Bool.or_false, decide_eq_true_eq,
      List.mem_singleton]

theorem revParent_single {comment : String} {rev : Revision Document} (stored : rev ∈ single comment) :
    revParent storedCodec rev = none := by
  obtain rfl := List.mem_singleton.1 stored
  rfl

theorem single_forest (comment : String) : SnapshotForest storedCodec (single comment) where
  distinct := List.nodup_singleton _
  named := fun rev stored => by
    obtain rfl := List.mem_singleton.1 stored
    exact (by decide : "a" ≠ "")
  rooted := fun rev stored parent link => by
    rw [revParent_single stored] at link
    exact absurd link nofun
  acyclic := Lib.Forest.acyclic_of_rank (fun _ => 0) fun parent id link => by
    obtain ⟨rev, found, up⟩ := Option.bind_eq_some_iff.1 link
    rw [revParent_single (getRevisionById_some found).1] at up
    exact absurd up nofun

theorem single_describes (comment : String) : Describes storedCodec (single comment) singleHash := by
  intro key
  have childless : childIds storedCodec (single comment) key = [] := rfl
  unfold singleHash
  rw [RevisionHash.isSome_insert, RevisionHash.isSome_empty, Bool.or_false, RevisionHash.lookup_insert,
    RevisionHash.lookup_empty, ite_self, childless]
  refine ⟨?_, List.Perm.refl _⟩
  rw [decide_eq_decide]
  exact List.mem_singleton.symm

/-- A short comment. -/
theorem dotCode_iff_short : ∃ code, createDotCode ⟨id, "Now"⟩ (single "first try") "" singleWalk =
    some code ∧ Drawn storedCodec ⟨id, "Now"⟩ (single "first try") "" code := by
  refine (dotCode_iff ⟨id, "Now"⟩ (single_forest _) (single_describes _) singleWalk "").2
    ⟨Or.inl rfl, ?_⟩
  intro rev stored
  obtain rfl := List.mem_singleton.1 stored
  decide

/-- **A long first word**: there is no space to break the comment at. -/
theorem long_word :
    ¬ ∃ code, createDotCode ⟨id, "Now"⟩ (single "deconvolution-and-stacking") "" singleWalk =
    some code ∧ Drawn storedCodec ⟨id, "Now"⟩ (single "deconvolution-and-stacking") "" code := by
  rintro ⟨code, written, -⟩
  have missing : createDotCode ⟨id, "Now"⟩ (single "deconvolution-and-stacking") "" singleWalk =
      none := by decide
  rw [missing] at written
  exact absurd written nofun

end Graph

end Gebr.Flow.DotCode
