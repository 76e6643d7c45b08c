/-
**Removing one snapshot: the flow that is left, and the two exits of the function.**

* `remove_flow`: with a hash that describes the flow, `flow_revision_remove` leaves `removedFlow`.
* `removedFlow_forest`: that flow is again a forest; its parent function is the old one with the
  snapshot spliced out (`Lib.Forest.splice`).
* `flowRevisionRemove_leaf`, `flowRevisionRemove_inner`: all that the two exits leave behind.
* `remove_flow_congr`: the flow does not depend on which of the describing hashes is passed.
-/

import Gebr.Flow.RevisionTree

namespace Gebr.Flow

variable {Xml : Type} {codec : DocumentCodec Xml}

section RemovedFlow

/-- The `parent` element of a snapshot; empty when it does not load. -/
def rawParent (codec : DocumentCodec Xml) (rev : Revision Xml) : String :=
  ((codec.loadBuffer rev.data).map Document.parentId).getD ""

/-- A snapshot with its `parent` element replaced and nothing else. -/
def rewriteParent (codec : DocumentCodec Xml) (parent : String) (rev : Revision Xml) :
    Revision Xml :=
  match codec.loadBuffer rev.data with
  | none => rev
  | some doc => { rev with data := codec.toString (doc.setParentId parent) }

/-- A child of the removed snapshot gets its parent; any other snapshot stays as it is. -/
def reparent (codec : DocumentCodec Xml) (removed rev : Revision Xml) : Revision Xml :=
  if revParent codec rev = some removed.id then rewriteParent codec (rawParent codec removed) rev
  else rev

/-- **The flow after the removal**: the snapshot is gone, each of its children has its parent, the
others are unchanged, and all stand in their old order. -/
def removedFlow (codec : DocumentCodec Xml) (flow : List (Revision Xml)) (removed : Revision Xml) :
    List (Revision Xml) :=
  (flow.filter fun rev => rev.id ≠ removed.id).map (reparent codec removed)

@[simp] theorem rewriteParent_id (parent : String) (rev : Revision Xml) :
    (rewriteParent codec parent rev).id = rev.id := by
  unfold rewriteParent
  split <;> rfl

@[simp] theorem reparent_id (removed rev : Revision Xml) :
    (reparent codec removed rev).id = rev.id := by
  unfold reparent
  split
  · exact rewriteParent_id _ _
  · rfl

theorem revParent_eq_rawParent (rev : Revision Xml) :
    revParent codec rev = if rawParent codec rev = "" then none else some (rawParent codec rev) := by
  unfold revParent rawParent
  cases codec.loadBuffer rev.data <;> rfl

theorem rawParent_rewriteParent {parent : String} {rev : Revision Xml}
    (loads : (codec.loadBuffer rev.data).isSome) :
    rawParent codec (rewriteParent codec parent rev) = parent := by
  obtain ⟨doc, loaded⟩ := Option.isSome_iff_exists.1 loads
  unfold rawParent rewriteParent
  simp only [loaded]
  rw [codec.load_toString]
  rfl

theorem rewriteParent_loads {parent : String} {rev : Revision Xml}
    (loads : (codec.loadBuffer rev.data).isSome) :
    (codec.loadBuffer (rewriteParent codec parent rev).data).isSome := by
  obtain ⟨doc, loaded⟩ := Option.isSome_iff_exists.1 loads
  unfold rewriteParent
  simp only [loaded]
  rw [codec.load_toString, Option.isSome_some]

theorem rewriteParent_rewriteParent {parent : String} {rev : Revision Xml} :
    rewriteParent codec parent (rewriteParent codec parent rev) =
      rewriteParent codec parent rev := by
  unfold rewriteParent
  cases loaded : codec.loadBuffer rev.data with
  | none => simp only [loaded]
  | some doc =>
    simp only [codec.load_toString]
    rfl

/-- The parent of a snapshot after the removal. -/
theorem revParent_reparent {removed rev : Revision Xml}
    (loads : (codec.loadBuffer rev.data).isSome) :
    revParent codec (reparent codec removed rev) =
      if revParent codec rev = some removed.id then revParent codec removed
      else revParent codec rev := by
  unfold reparent
  split
  · rw [revParent_eq_rawParent, rawParent_rewriteParent loads, revParent_eq_rawParent removed]
  · rfl

theorem mem_removedFlow {flow : List (Revision Xml)} {removed rev : Revision Xml} :
    rev ∈ removedFlow codec flow removed ↔
      ∃ old ∈ flow, old.id ≠ removed.id ∧ reparent codec removed old = rev := by
  unfold removedFlow
  simp only [List.mem_map, List.mem_filter, decide_eq_true_eq, and_assoc]

theorem removedFlow_ids (flow : List (Revision Xml)) (removed : Revision Xml) :
    (removedFlow codec flow removed).map Revision.id =
      (flow.map Revision.id).filter fun id => id ≠ removed.id := by
  unfold removedFlow
  rw [List.map_map, List.filter_map]
  refine List.map_congr_left fun rev _ => ?_
  exact reparent_id removed rev

theorem mem_removedFlow_ids {flow : List (Revision Xml)} {removed : Revision Xml} {id : String} :
    id ∈ (removedFlow codec flow removed).map Revision.id ↔
      id ∈ flow.map Revision.id ∧ id ≠ removed.id := by
  rw [removedFlow_ids, List.mem_filter, decide_eq_true_eq]

theorem removedFlow_allLoad {flow : List (Revision Xml)} {removed : Revision Xml}
    (loads : AllLoad codec flow) : AllLoad codec (removedFlow codec flow removed) := by
  intro rev stored
  obtain ⟨old, oldStored, -, rfl⟩ := mem_removedFlow.1 stored
  unfold reparent
  split
  · exact rewriteParent_loads (loads old oldStored)
  · exact loads old oldStored

theorem mem_childIds_removedFlow {flow : List (Revision Xml)} {removed : Revision Xml}
    (loads : AllLoad codec flow) {key child : String} :
    child ∈ childIds codec (removedFlow codec flow removed) key ↔
      ∃ rev ∈ flow, rev.id = child ∧ child ≠ removed.id ∧
        (if revParent codec rev = some removed.id then revParent codec removed
          else revParent codec rev) = some key := by
  rw [mem_childIds]
  constructor
  · rintro ⟨rev, stored, rfl, parent⟩
    obtain ⟨old, oldStored, other, rfl⟩ := mem_removedFlow.1 stored
    rw [revParent_reparent (loads old oldStored)] at parent
    rw [reparent_id]
    exact ⟨old, oldStored, rfl, other, parent⟩
  · rintro ⟨old, oldStored, rfl, other, parent⟩
    refine ⟨reparent codec removed old, mem_removedFlow.2 ⟨old, oldStored, other, rfl⟩,
      reparent_id _ _, ?_⟩
    rw [revParent_reparent (loads old oldStored), parent]

/-- The parent links after the removal are those of the old forest with the snapshot spliced
out. -/
theorem parentOf_removedFlow {flow : List (Revision Xml)} {removed : Revision Xml}
    (distinct : (flow.map Revision.id).Nodup) (stored : removed ∈ flow)
    (loads : AllLoad codec flow) {id parent : String}
    (link : parentOf codec (removedFlow codec flow removed) id = some parent) :
    Lib.Forest.splice (parentOf codec flow) removed.id id = some parent := by
  rw [parentOf, Option.bind_eq_some_iff] at link
  obtain ⟨rev, found, revLink⟩ := link
  obtain ⟨revStored, rfl⟩ := getRevisionById_some found
  obtain ⟨old, oldStored, -, rfl⟩ := mem_removedFlow.1 revStored
  rw [revParent_reparent (loads old oldStored)] at revLink
  rw [Lib.Forest.splice, reparent_id, parentOf_of_mem distinct oldStored,
    parentOf_of_mem distinct stored]
  exact revLink

/-- **Removing a snapshot of a forest leaves a forest.** -/
theorem removedFlow_forest {flow : List (Revision Xml)} {removed : Revision Xml}
    (forest : SnapshotForest codec flow) (loads : AllLoad codec flow) (stored : removed ∈ flow) :
    SnapshotForest codec (removedFlow codec flow removed) where
  distinct := by
    rw [removedFlow_ids]
    exact forest.distinct.filter _
  named := by
    intro rev revStored
    obtain ⟨old, oldStored, -, rfl⟩ := mem_removedFlow.1 revStored
    rw [reparent_id]
    exact forest.named old oldStored
  rooted := by
    intro rev revStored parent link
    obtain ⟨old, oldStored, -, rfl⟩ := mem_removedFlow.1 revStored
    rw [revParent_reparent (loads old oldStored)] at link
    rw [mem_removedFlow_ids]
    by_cases child : revParent codec old = some removed.id
    · rw [if_pos child] at link
      refine ⟨forest.rooted removed stored parent link, ?_⟩
      rintro rfl
      exact forest.acyclic.not_self removed.id
        ((parentOf_of_mem forest.distinct stored).trans link)
    · rw [if_neg child] at link
      refine ⟨forest.rooted old oldStored parent link, ?_⟩
      rintro rfl
      exact child link
  acyclic :=
    Subrelation.wf (fun link => parentOf_removedFlow forest.distinct stored loads link)
      (Lib.Forest.splice_acyclic forest.acyclic removed.id)

end RemovedFlow

section Loops

/-- Distinct ids: erasing the first snapshot with an id filters the id out. -/
theorem eraseP_eq_filter {flow : List (Revision Xml)} (distinct : (flow.map Revision.id).Nodup)
    (id : String) :
    (flow.eraseP fun rev => rev.id = id) = flow.filter fun rev => rev.id ≠ id := by
  induction flow with
  | nil => rfl
  | cons rev rest ih =>
    rw [List.map_cons, List.nodup_cons] at distinct
    by_cases here : rev.id = id
    · rw [List.eraseP_cons_of_pos (by simpa using here),
        List.filter_cons_of_neg (by simpa using here)]
      refine (List.filter_eq_self.2 fun other stored => ?_).symm
      have absent : other.id ≠ id := fun same =>
        distinct.1 (List.mem_map.2 ⟨other, stored, same.trans here.symm⟩)
      simpa using absent
    · rw [List.eraseP_cons_of_neg (by simpa using here),
        List.filter_cons_of_pos (by simpa using here), ih distinct.2]

/-- Distinct ids: writing the data of the snapshot with an id touches that one only. -/
theorem setRevisionData_eq_map {flow : List (Revision Xml)}
    (distinct : (flow.map Revision.id).Nodup) (id : String) (data : Xml) :
    setRevisionData flow id data =
      flow.map fun rev => if rev.id = id then { rev with data := data } else rev := by
  induction flow with
  | nil => rfl
  | cons rev rest ih =>
    rw [List.map_cons, List.nodup_cons] at distinct
    rw [setRevisionData, List.map_cons]
    by_cases here : rev.id = id
    · rw [if_pos here, if_pos here]
      congr 1
      refine ((List.map_congr_left fun other stored => ?_).trans (List.map_id _)).symm
      have absent : other.id ≠ id := fun same =>
        distinct.1 (List.mem_map.2 ⟨other, stored, same.trans here.symm⟩)
      rw [if_neg absent]
      rfl
    · rw [if_neg here, if_neg here, ih distinct.2]

/-- **The loop over the children** rewrites the parent of exactly the snapshots it is given. -/
theorem reparentChildren_eq {parent : String} {flow : List (Revision Xml)}
    (distinct : (flow.map Revision.id).Nodup) (loads : AllLoad codec flow)
    {children : List CStr} (members : ∀ child ∈ children, child.text ∈ flow.map Revision.id) :
    reparentChildren codec parent flow children =
      (flow.map fun rev =>
        if rev.id ∈ children.map CStr.text then rewriteParent codec parent rev else rev, true) := by
  induction children generalizing flow with
  | nil => simp [reparentChildren]
  | cons child children ih =>
    obtain ⟨rev, stored, named⟩ := List.mem_map.1 (members child List.mem_cons_self)
    obtain ⟨doc, loaded⟩ := Option.isSome_iff_exists.1 (loads rev stored)
    have found : (getRevisionById flow child.text).bind
        (fun rev => codec.loadBuffer rev.data) = some doc := by
      rw [← named, getRevisionById_of_mem distinct stored, Option.bind_some, loaded]
    have written : setRevisionData flow child.text (codec.toString (doc.setParentId parent)) =
        flow.map fun other =>
          if other.id = child.text then rewriteParent codec parent other else other := by
      rw [setRevisionData_eq_map distinct]
      refine List.map_congr_left fun other otherStored => ?_
      by_cases here : other.id = child.text
      · obtain rfl := rev_eq_of_id distinct otherStored stored (here.trans named.symm)
        rw [if_pos here, if_pos here, rewriteParent]
        simp only [loaded]
      · rw [if_neg here, if_neg here]
    have ids : (flow.map fun other =>
        if other.id = child.text then rewriteParent codec parent other else other).map Revision.id
          = flow.map Revision.id := by
      rw [List.map_map]
      refine List.map_congr_left fun other _ => ?_
      show (if _ then _ else _ : Revision Xml).id = _
      split
      · exact rewriteParent_id _ _
      · rfl
    rw [reparentChildren, found]
    simp only [written]
    rw [ih (ids ▸ distinct) ?_ (fun other later => ids ▸ members other (List.mem_cons_of_mem _ later)),
      List.map_map]
    · congr 1
      refine List.map_congr_left fun other _ => ?_
      by_cases here : other.id = child.text
      · simp only [Function.comp_apply, List.map_cons, List.mem_cons, here, true_or, if_true,
          rewriteParent_id, rewriteParent_rewriteParent, ite_self]
      · simp only [Function.comp_apply, List.map_cons, List.mem_cons, here, false_or, if_false]
    · intro other otherStored
      obtain ⟨old, oldStored, rfl⟩ := List.mem_map.1 otherStored
      split
      · exact rewriteParent_loads (loads old oldStored)
      · exact loads old oldStored

end Loops

section Exits

variable {flow : List (Revision Xml)} {removed : Revision Xml} {idRemove : CStr}
  {parentHead : String} {hash : RevisionHash} {uninitialised : Bool}

/-- A snapshot of the flow is a child of the removed one exactly when the hash lists it. -/
theorem listed_iff_child (forest : SnapshotForest codec flow) (describes : Describes codec flow hash)
    {rev : Revision Xml} (stored : rev ∈ flow) (id : String) :
    rev.id ∈ (hash.lookup id).map CStr.text ↔ revParent codec rev = some id := by
  rw [(describes id).2.mem_iff, mem_childIds]
  constructor
  · rintro ⟨other, otherStored, same, parent⟩
    obtain rfl := rev_eq_of_id forest.distinct otherStored stored same
    exact parent
  · intro parent
    exact ⟨rev, stored, rfl, parent⟩

/-- The exit of a leaf: the flow is right, the hash is left as it was. -/
theorem flowRevisionRemove_leaf (forest : SnapshotForest codec flow) (loads : AllLoad codec flow)
    (stored : removed ∈ flow) (named : removed.id = idRemove.text)
    (describes : Describes codec flow hash) (leaf : hash.lookup idRemove.text = []) :
    flowRevisionRemove codec uninitialised flow idRemove parentHead (some hash) =
      ⟨removedFlow codec flow removed, some hash, decide (parentHead = idRemove.text)⟩ := by
  obtain ⟨doc, loaded⟩ := Option.isSome_iff_exists.1 (loads removed stored)
  have found : getRevisionById flow idRemove.text = some removed :=
    named ▸ getRevisionById_of_mem forest.distinct stored
  have rest : (flow.eraseP fun rev => rev.id = idRemove.text) =
      removedFlow codec flow removed := by
    rw [eraseP_eq_filter forest.distinct, removedFlow, named]
    refine ((List.map_congr_left fun rev revStored => ?_).trans (List.map_id _)).symm
    have childless : revParent codec rev ≠ some removed.id := fun parent => by
      have listed := (listed_iff_child forest describes (List.mem_of_mem_filter revStored)
        removed.id).2 parent
      rw [named, leaf] at listed
      exact absurd listed List.not_mem_nil
    exact if_neg childless
  unfold flowRevisionRemove
  simp only [found, loaded, leaf, if_true, rest]

/-- The exit of a snapshot with children: the flow is right, the lists of the hash are joined. -/
theorem flowRevisionRemove_inner (forest : SnapshotForest codec flow) (loads : AllLoad codec flow)
    (stored : removed ∈ flow) (named : removed.id = idRemove.text)
    (describes : Describes codec flow hash) (inner : hash.lookup idRemove.text ≠ []) :
    flowRevisionRemove codec uninitialised flow idRemove parentHead (some hash) =
      ⟨removedFlow codec flow removed,
        some ((hash.insert (rawParent codec removed)
          (gListRemove (hash.lookup (rawParent codec removed)) idRemove ++
            hash.lookup idRemove.text)).remove idRemove.text),
        if idRemove.text = parentHead then true else uninitialised⟩ := by
  obtain ⟨doc, loaded⟩ := Option.isSome_iff_exists.1 (loads removed stored)
  have found : getRevisionById flow idRemove.text = some removed :=
    named ▸ getRevisionById_of_mem forest.distinct stored
  have raw : doc.parentId = rawParent codec removed := by
    rw [rawParent, loaded]
    rfl
  have rest : (flow.eraseP fun rev => rev.id = idRemove.text) =
      flow.filter fun rev => rev.id ≠ idRemove.text := eraseP_eq_filter forest.distinct _
  have members : ∀ child ∈ hash.lookup idRemove.text, child.text ∈
      (flow.filter fun rev => rev.id ≠ idRemove.text).map Revision.id := by
    intro child listed
    have known := ((describes idRemove.text).2.mem_iff).1 (List.mem_map_of_mem listed)
    obtain ⟨rev, revStored, same, parent⟩ := mem_childIds.1 known
    refine List.mem_map.2 ⟨rev, List.mem_filter.2 ⟨revStored, ?_⟩, same⟩
    rw [decide_eq_true_eq]
    intro self
    have loop := (parentOf_of_mem forest.distinct revStored).trans parent
    rw [self] at loop
    exact forest.acyclic.not_self _ loop
  have loop : reparentChildren codec doc.parentId
      (flow.eraseP fun rev => rev.id = idRemove.text) (hash.lookup idRemove.text) =
      (removedFlow codec flow removed, true) := by
    rw [rest, reparentChildren_eq ?_ (fun rev kept => loads rev (List.mem_of_mem_filter kept))
      members, removedFlow, named, raw]
    · congr 1
      refine List.map_congr_left fun rev kept => ?_
      rw [reparent, named]
      simp only [listed_iff_child forest describes (List.mem_of_mem_filter kept)]
    · exact forest.distinct.sublist (List.filter_sublist.map _)
  rw [raw] at loop
  unfold flowRevisionRemove
  simp only [found, loaded, inner, if_false, raw, loop]

/-- **The flow is always right**: with a hash that describes a forest whose snapshots all load,
the removal leaves `removedFlow`. -/
theorem remove_flow (forest : SnapshotForest codec flow) (loads : AllLoad codec flow)
    (stored : removed ∈ flow) (named : removed.id = idRemove.text)
    (describes : Describes codec flow hash) :
    (flowRevisionRemove codec uninitialised flow idRemove parentHead (some hash)).flow =
      removedFlow codec flow removed := by
  by_cases leaf : hash.lookup idRemove.text = []
  · rw [flowRevisionRemove_leaf forest loads stored named describes leaf]
  · rw [flowRevisionRemove_inner forest loads stored named describes leaf]

/-- Any two hashes that describe a forest give the same flow when a snapshot is removed. -/
theorem remove_flow_congr (forest : SnapshotForest codec flow) (loads : AllLoad codec flow)
    {other : RevisionHash} (describes : Describes codec flow hash)
    (too : Describes codec flow other) :
    (flowRevisionRemove codec uninitialised flow idRemove parentHead (some hash)).flow =
      (flowRevisionRemove codec uninitialised flow idRemove parentHead (some other)).flow := by
  cases found : getRevisionById flow idRemove.text with
  | none =>
    unfold flowRevisionRemove
    rw [found]
  | some rev =>
    obtain ⟨stored, named⟩ := getRevisionById_some found
    rw [remove_flow forest loads stored named describes, remove_flow forest loads stored named too]

end Exits

end Gebr.Flow
