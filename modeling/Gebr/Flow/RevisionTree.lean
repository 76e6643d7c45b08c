/-
**The snapshot tree, and what removing one snapshot does to it.**

* `SnapshotForest`: the snapshots of a flow form a forest by parent id.
* `Describes`: a hash lists, for each stored snapshot and no other key, its children.
* `hashCreate_describes`: the hash built from a forest describes it.
* `remove_flow`: with a hash that describes the flow, removing a snapshot with children gives
  `removedFlow`; `removedFlow_forest`: that flow is a forest again, the old one with the snapshot
  spliced out (`Lib.Forest.splice`).
* `flowRevisionRemove_keepsTree_iff`: exactly when the hash is kept in step with the flow as well.
-/

import Gebr.Flow.Revisions
import Gebr.Lib.Forest
import Mathlib.Data.List.Perm.Basic
import Mathlib.Data.List.Nodup
import Mathlib.Tactic.Common

namespace Gebr.Flow

variable {Xml : Type} {codec : DocumentCodec Xml}

section Parents

/-- The snapshot this one was made from, when it loads and names one. -/
def revParent (codec : DocumentCodec Xml) (rev : Revision Xml) : Option String :=
  (codec.loadBuffer rev.data).bind fun doc =>
    if doc.parentId = "" then none else some doc.parentId

/-- The parent of the snapshot with this id. -/
def parentOf (codec : DocumentCodec Xml) (flow : List (Revision Xml)) (id : String) :
    Option String :=
  (getRevisionById flow id).bind (revParent codec)

/-- Every stored snapshot loads. -/
def AllLoad (codec : DocumentCodec Xml) (flow : List (Revision Xml)) : Prop :=
  ∀ rev ∈ flow, (codec.loadBuffer rev.data).isSome

instance (codec : DocumentCodec Xml) (flow : List (Revision Xml)) :
    Decidable (AllLoad codec flow) :=
  inferInstanceAs (Decidable (∀ rev ∈ flow, (codec.loadBuffer rev.data).isSome))

/-- **The snapshots form a forest by parent id**: ids are distinct and not empty, a parent that is
named is stored, and the parent links have no infinite ascent. -/
structure SnapshotForest (codec : DocumentCodec Xml) (flow : List (Revision Xml)) : Prop where
  distinct : (flow.map Revision.id).Nodup
  named : ∀ rev ∈ flow, rev.id ≠ ""
  rooted : ∀ rev ∈ flow, ∀ parent, revParent codec rev = some parent →
    parent ∈ flow.map Revision.id
  acyclic : Lib.Forest.Acyclic (parentOf codec flow)

/-- The ids of the children of a snapshot, in stored order. -/
def childIds (codec : DocumentCodec Xml) (flow : List (Revision Xml)) (id : String) :
    List String :=
  (flow.filter fun rev => revParent codec rev = some id).map Revision.id

theorem mem_childIds {flow : List (Revision Xml)} {id child : String} :
    child ∈ childIds codec flow id ↔
      ∃ rev ∈ flow, rev.id = child ∧ revParent codec rev = some id := by
  unfold childIds
  simp only [List.mem_map, List.mem_filter, decide_eq_true_eq]
  constructor
  · rintro ⟨rev, ⟨stored, parent⟩, rfl⟩
    exact ⟨rev, stored, rfl, parent⟩
  · rintro ⟨rev, stored, rfl, parent⟩
    exact ⟨rev, ⟨stored, parent⟩, rfl⟩

theorem childIds_nodup {flow : List (Revision Xml)} (distinct : (flow.map Revision.id).Nodup)
    (id : String) : (childIds codec flow id).Nodup :=
  distinct.sublist (List.filter_sublist.map _)

/-- Distinct ids: the snapshot found under the id of a stored snapshot is that snapshot. -/
theorem getRevisionById_of_mem {flow : List (Revision Xml)}
    (distinct : (flow.map Revision.id).Nodup) {rev : Revision Xml} (stored : rev ∈ flow) :
    getRevisionById flow rev.id = some rev := by
  induction flow with
  | nil => exact absurd stored List.not_mem_nil
  | cons first rest ih =>
    rw [List.map_cons, List.nodup_cons] at distinct
    unfold getRevisionById
    rcases List.mem_cons.1 stored with rfl | later
    · simp
    · have other : first.id ≠ rev.id := fun same =>
        distinct.1 (same ▸ List.mem_map_of_mem later)
      rw [List.find?_cons_of_neg (by simpa using other)]
      exact ih distinct.2 later

theorem parentOf_of_mem {flow : List (Revision Xml)} (distinct : (flow.map Revision.id).Nodup)
    {rev : Revision Xml} (stored : rev ∈ flow) :
    parentOf codec flow rev.id = revParent codec rev := by
  rw [parentOf, getRevisionById_of_mem distinct stored, Option.bind_some]

theorem getRevisionById_some {flow : List (Revision Xml)} {id : String} {rev : Revision Xml}
    (found : getRevisionById flow id = some rev) : rev ∈ flow ∧ rev.id = id :=
  ⟨List.mem_of_find?_eq_some found, by simpa using List.find?_some found⟩

/-- Distinct ids: two stored snapshots with one id are one. -/
theorem rev_eq_of_id {flow : List (Revision Xml)} (distinct : (flow.map Revision.id).Nodup)
    {rev other : Revision Xml} (stored : rev ∈ flow) (too : other ∈ flow)
    (same : rev.id = other.id) : rev = other := by
  have found := getRevisionById_of_mem distinct stored
  rw [same, getRevisionById_of_mem distinct too] at found
  exact (Option.some.inj found).symm

end Parents

section Create

/-- The strings the loop puts under `key`, in stored order. -/
def childEntries (codec : DocumentCodec Xml) (alloc : ℕ → ℕ) :
    ℕ → List (Revision Xml) → String → List CStr
  | _, [], _ => []
  | index, rev :: seq, key =>
    if revParent codec rev = some key then
      ⟨alloc index, rev.id⟩ :: childEntries codec alloc (index + 1) seq key
    else childEntries codec alloc (index + 1) seq key

theorem childEntries_text (alloc : ℕ → ℕ) (index : ℕ) (flow : List (Revision Xml))
    (key : String) :
    (childEntries codec alloc index flow key).map CStr.text = childIds codec flow key := by
  induction flow generalizing index with
  | nil => rfl
  | cons rev seq ih =>
    have rest := ih (index + 1)
    unfold childIds at rest ⊢
    unfold childEntries
    by_cases child : revParent codec rev = some key
    · rw [if_pos child, List.filter_cons_of_pos (by simpa using child), List.map_cons,
        List.map_cons, rest]
    · rw [if_neg child, List.filter_cons_of_neg (by simpa using child), rest]

/-- Each string under a key is the copy of the id of one child, at the address of that copy. -/
theorem mem_childEntries {alloc : ℕ → ℕ} {index : ℕ} {flow : List (Revision Xml)} {key : String}
    {entry : CStr} : entry ∈ childEntries codec alloc index flow key ↔
      ∃ i rev, flow[i]? = some rev ∧ revParent codec rev = some key ∧
        entry = ⟨alloc (index + i), rev.id⟩ := by
  induction flow generalizing index with
  | nil => simp [childEntries]
  | cons rev seq ih =>
    have later : (∃ i other, (rev :: seq)[i + 1]? = some other ∧
        revParent codec other = some key ∧ entry = ⟨alloc (index + (i + 1)), other.id⟩) ↔
        entry ∈ childEntries codec alloc (index + 1) seq key := by
      rw [ih]
      simp only [List.getElem?_cons_succ, Nat.add_assoc, Nat.add_comm 1]
    unfold childEntries
    constructor
    · intro member
      by_cases child : revParent codec rev = some key
      · rw [if_pos child, List.mem_cons] at member
        rcases member with rfl | rest
        · exact ⟨0, rev, rfl, child, rfl⟩
        · obtain ⟨i, other, found⟩ := later.2 rest
          exact ⟨i + 1, other, found⟩
      · rw [if_neg child] at member
        obtain ⟨i, other, found⟩ := later.2 member
        exact ⟨i + 1, other, found⟩
    · rintro ⟨i, other, found, child, rfl⟩
      cases i with
      | zero =>
        obtain rfl : rev = other := by simpa using found
        rw [if_pos child]
        exact List.mem_cons_self
      | succ i =>
        have rest := later.1 ⟨i, other, found, child, rfl⟩
        split
        · exact List.mem_cons_of_mem _ rest
        · exact rest

/-- One turn of the loop: the id of the snapshot becomes a key, and the snapshot is put in front
of the list of its parent. -/
theorem hashAddRevision_spec (copy : ℕ) (hash : RevisionHash) {rev : Revision Xml}
    (loads : (codec.loadBuffer rev.data).isSome) :
    ∃ next, hashAddRevision codec copy hash rev = some next ∧
      (∀ key, next.lookup key =
        (if revParent codec rev = some key then [⟨copy, rev.id⟩] else []) ++ hash.lookup key) ∧
      ∀ key, (next key).isSome =
        (decide (key = rev.id ∨ revParent codec rev = some key) || (hash key).isSome) := by
  obtain ⟨doc, loaded⟩ := Option.isSome_iff_exists.1 loads
  have keyed : ∀ key, (if hash.lookup rev.id = [] then hash.insert rev.id [] else hash).lookup key
      = hash.lookup key := by
    intro key
    split
    · rename_i missing
      rw [RevisionHash.lookup_insert]
      split
      · rename_i same
        rw [same, missing]
      · rfl
    · rfl
  have present : ∀ key, ((if hash.lookup rev.id = [] then hash.insert rev.id [] else hash)
      key).isSome = (decide (key = rev.id) || (hash key).isSome) := by
    intro key
    split
    · exact RevisionHash.isSome_insert _ _ _ _
    · rename_i listed
      by_cases same : key = rev.id
      · have held : (hash rev.id).isSome := by
          unfold RevisionHash.lookup at listed
          cases value : hash rev.id with
          | none => rw [value] at listed; exact absurd rfl listed
          | some list => rfl
        rw [same, held]
        simp
      · simp [same]
  have parent : revParent codec rev =
      if doc.parentId = "" then none else some doc.parentId := by
    rw [revParent, loaded, Option.bind_some]
  unfold hashAddRevision
  rw [loaded, parent]
  by_cases root : doc.parentId = ""
  · simp only [if_pos root]
    refine ⟨_, rfl, fun key => ?_, fun key => ?_⟩
    · rw [RevisionHash.lookup_insert, keyed, keyed]
      split
      · rename_i same
        rw [same]
        simp
      · simp
    · rw [RevisionHash.isSome_insert, present]
      by_cases same : key = rev.id <;> simp [same]
  · simp only [if_neg root]
    refine ⟨_, rfl, fun key => ?_, fun key => ?_⟩
    · rw [RevisionHash.lookup_insert, keyed, keyed]
      by_cases same : key = doc.parentId
      · simp [same]
      · simp [same, Ne.symm same]
    · rw [RevisionHash.isSome_insert, present]
      by_cases same : key = doc.parentId
      · simp [same]
      · simp [same, Ne.symm same]

/-- The whole loop, from any table. -/
theorem hashAddRevisions_spec (alloc : ℕ → ℕ) (index : ℕ) (hash : RevisionHash)
    {flow : List (Revision Xml)} (loads : AllLoad codec flow) :
    ∃ next, hashAddRevisions codec alloc index hash flow = some next ∧
      (∀ key, next.lookup key =
        (childEntries codec alloc index flow key).reverse ++ hash.lookup key) ∧
      ∀ key, (next key).isSome =
        (decide (∃ rev ∈ flow, key = rev.id ∨ revParent codec rev = some key) ||
          (hash key).isSome) := by
  induction flow generalizing index hash with
  | nil => exact ⟨hash, rfl, fun key => by simp [childEntries], fun key => by simp⟩
  | cons rev seq ih =>
    obtain ⟨mid, turn, midLookup, midKeys⟩ := hashAddRevision_spec (alloc index) hash
      (loads rev List.mem_cons_self)
    obtain ⟨next, run, nextLookup, nextKeys⟩ := ih (index + 1) mid
      fun other stored => loads other (List.mem_cons_of_mem _ stored)
    refine ⟨next, ?_, fun key => ?_, fun key => ?_⟩
    · rw [hashAddRevisions, turn, Option.bind_some, run]
    · rw [nextLookup, midLookup, childEntries]
      by_cases child : revParent codec rev = some key
      · rw [if_pos child, if_pos child, List.reverse_cons, List.append_assoc]
      · rw [if_neg child, if_neg child, List.nil_append]
    · rw [nextKeys, midKeys]
      by_cases first : key = rev.id ∨ revParent codec rev = some key <;> simp [first]

/-- A snapshot that does not load makes the table `NULL`. -/
theorem hashAddRevisions_none {alloc : ℕ → ℕ} {index : ℕ} {hash : RevisionHash}
    {flow : List (Revision Xml)} (broken : ¬ AllLoad codec flow) :
    hashAddRevisions codec alloc index hash flow = none := by
  induction flow generalizing index hash with
  | nil => exact absurd (fun _ stored => absurd stored List.not_mem_nil) broken
  | cons rev seq ih =>
    rw [hashAddRevisions]
    cases loaded : codec.loadBuffer rev.data with
    | none =>
      have stop : hashAddRevision codec (alloc index) hash rev = none := by
        rw [hashAddRevision, loaded]
      rw [stop, Option.bind_none]
    | some doc =>
      have rest : ¬ AllLoad codec seq := fun all => broken fun other stored => by
        rcases List.mem_cons.1 stored with rfl | later
        · rw [loaded, Option.isSome_some]
        · exact all other later
      have loads : (codec.loadBuffer rev.data).isSome := by rw [loaded, Option.isSome_some]
      obtain ⟨mid, turn, -⟩ := hashAddRevision_spec (alloc index) hash loads
      rw [turn, Option.bind_some]
      exact ih rest

/-- **A hash describes a flow**: its keys are the stored ids, and under each are the ids of its
children, in some order. -/
def Describes (codec : DocumentCodec Xml) (flow : List (Revision Xml)) (hash : RevisionHash) :
    Prop :=
  ∀ key, ((hash key).isSome = decide (key ∈ flow.map Revision.id)) ∧
    ((hash.lookup key).map CStr.text).Perm (childIds codec flow key)

/-- **The table built from a forest describes it**; the strings are those of `childEntries`. -/
theorem hashCreate_describes (alloc : ℕ → ℕ) {flow : List (Revision Xml)}
    (forest : SnapshotForest codec flow) (loads : AllLoad codec flow) :
    ∃ hash, gebrFlowRevisionsHashCreate codec alloc flow = some hash ∧
      Describes codec flow hash ∧
      ∀ key, hash.lookup key = (childEntries codec alloc 0 flow key).reverse := by
  obtain ⟨hash, run, lookups, keys⟩ := hashAddRevisions_spec alloc 0 RevisionHash.empty loads
  refine ⟨hash, run, fun key => ⟨?_, ?_⟩, fun key => ?_⟩
  · rw [keys, RevisionHash.isSome_empty, Bool.or_false]
    congr 1
    refine propext ⟨?_, ?_⟩
    · rintro ⟨rev, stored, rfl | parent⟩
      · exact List.mem_map_of_mem stored
      · exact forest.rooted rev stored key parent
    · intro member
      obtain ⟨rev, stored, rfl⟩ := List.mem_map.1 member
      exact ⟨rev, stored, Or.inl rfl⟩
  · rw [lookups, RevisionHash.lookup_empty, List.append_nil, List.map_reverse, childEntries_text]
    exact List.reverse_perm _
  · rw [lookups, RevisionHash.lookup_empty, List.append_nil]

/-- A table is the one built from a forest, up to order, exactly when it describes it. -/
theorem same_iff_describes {flow : List (Revision Xml)} {hash fresh : RevisionHash}
    (built : Describes codec flow fresh) : hash.Same fresh ↔ Describes codec flow hash := by
  constructor
  · intro same key
    exact ⟨(same key).1.trans (built key).1, (same key).2.trans (built key).2⟩
  · intro describes key
    exact ⟨(describes key).1.trans (built key).1.symm, (describes key).2.trans (built key).2.symm⟩

end Create

end Gebr.Flow
