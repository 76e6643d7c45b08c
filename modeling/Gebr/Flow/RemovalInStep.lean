/-
**When a removal keeps the flow, the hash and the value returned in step.**

`flow_revision_remove` leaves the flow right whenever every snapshot loads (`remove_flow`). The
hash and the value are another matter.

* A leaf leaves the hash as it was, with the key of the snapshot still in it.
* A root with children puts its children under the key `""`, which no flow has.
* An inner snapshot is taken from the list of its parent by address, so an id that is passed as a
  string of its own stays in the list; and `result` is only set when it is the current parent.
* A snapshot that does not load makes the hash `NULL`, and the removal goes on without it.

`flowRevisionRemove_keepsTree_iff`: what is left (`RemovalInStep`) is exactly when all is right.
-/

import Gebr.Flow.RevisionRemove

namespace Gebr.Flow

variable {Xml : Type} {codec : DocumentCodec Xml}

section Property

/-- What a removal has to leave behind when every snapshot loads. -/
structure KeepsTree (codec : DocumentCodec Xml) (flow : List (Revision Xml))
    (removed : Revision Xml) (parentHead : String) (outcome : RemoveOutcome Xml) : Prop where
  /-- The snapshot is gone, its children have its parent, the rest is as it was. -/
  flow_eq : outcome.flow = removedFlow codec flow removed
  /-- The value tells whether the current state was made from the removed snapshot. -/
  result_eq : outcome.result = decide (parentHead = removed.id)
  /-- The hash is the one that would be built from the new flow. -/
  hash_eq : ∀ alloc, ∃ hash fresh, outcome.hash = some hash ∧
    gebrFlowRevisionsHashCreate codec alloc outcome.flow = some fresh ∧ hash.Same fresh
  /-- A further removal with this hash gives the flow it would give with a rebuilt one. -/
  next : ∀ alloc uninitialised idNext headNext,
    (flowRevisionRemove codec uninitialised outcome.flow idNext headNext outcome.hash).flow =
      (flowRevisionRemove codec uninitialised outcome.flow idNext headNext
        (gebrFlowRevisionsHashCreate codec alloc outcome.flow)).flow

/-- **The removal of one snapshot is right**, whatever the uninitialised local holds: the tree is
kept, or, when a stored snapshot does not load, flow and hash are left alone. -/
def RemovalRight (codec : DocumentCodec Xml) (alloc : ℕ → ℕ) (flow : List (Revision Xml))
    (idRemove : CStr) (removed : Revision Xml) (parentHead : String) : Prop :=
  ∀ uninitialised,
    let hash := gebrFlowRevisionsHashCreate codec alloc flow
    let outcome := flowRevisionRemove codec uninitialised flow idRemove parentHead hash
    (AllLoad codec flow → KeepsTree codec flow removed parentHead outcome) ∧
      (¬ AllLoad codec flow → outcome.flow = flow ∧ outcome.hash = hash)

/-- **The calls that keep everything in step.** Either the snapshot to remove does not load; or all
load, it is the current parent, it has a child and a parent, and the id is passed as the very copy
that hangs in the list of its parent. -/
def RemovalInStep (codec : DocumentCodec Xml) (alloc : ℕ → ℕ) (flow : List (Revision Xml))
    (idRemove : CStr) (removed : Revision Xml) (parentHead : String) : Prop :=
  codec.loadBuffer removed.data = none ∨
    AllLoad codec flow ∧ parentHead = removed.id ∧ childIds codec flow removed.id ≠ [] ∧
      (revParent codec removed).isSome ∧ ∃ i, flow[i]? = some removed ∧ alloc i = idRemove.addr

end Property

section Proof

variable {flow : List (Revision Xml)} {removed : Revision Xml} {idRemove : CStr}
  {parentHead : String} {hash : RevisionHash} {alloc : ℕ → ℕ}

/-- A list with distinct texts, less the first string at an address that only one text has. -/
theorem mem_gListRemove {list : List CStr} {text : String}
    (distinct : (list.map CStr.text).Nodup) (listed : ∃ entry ∈ list, entry.addr = idRemove.addr)
    (coherent : ∀ entry ∈ list, entry.addr = idRemove.addr → entry.text = idRemove.text) :
    text ∈ (gListRemove list idRemove).map CStr.text ↔
      text ∈ list.map CStr.text ∧ text ≠ idRemove.text := by
  obtain ⟨entry, member, here⟩ := listed
  obtain ⟨taken, before, after, -, there, cut, erased⟩ :=
    List.exists_of_eraseP (p := fun element : CStr => decide (element.addr = idRemove.addr))
      member (by simpa using here)
  have taken_text : taken.text = idRemove.text :=
    coherent taken (by rw [cut]; simp) (by simpa using there)
  rw [gListRemove, erased]
  rw [cut] at distinct ⊢
  simp only [List.map_append, List.map_cons, taken_text] at distinct ⊢
  have apart := List.nodup_middle.1 distinct
  rw [List.nodup_cons] at apart
  simp only [List.mem_append, List.mem_cons] at apart ⊢
  constructor
  · intro kept
    refine ⟨kept.elim Or.inl fun late => Or.inr (Or.inr late), ?_⟩
    rintro rfl
    exact apart.1 kept
  · rintro ⟨early | rfl | late, other⟩
    · exact Or.inl early
    · exact absurd rfl other
    · exact Or.inr late

/-- The list of a parent, less the removed snapshot, plus its children. -/
theorem joined_perm (forest : SnapshotForest codec flow) (loads : AllLoad codec flow)
    (stored : removed ∈ flow) (named : removed.id = idRemove.text)
    (describes : Describes codec flow hash) {parent : String}
    (up : revParent codec removed = some parent)
    (listed : ∃ entry ∈ hash.lookup parent, entry.addr = idRemove.addr)
    (coherent : ∀ entry ∈ hash.lookup parent,
      entry.addr = idRemove.addr → entry.text = idRemove.text) :
    ((gListRemove (hash.lookup parent) idRemove ++ hash.lookup idRemove.text).map CStr.text).Perm
      (childIds codec (removedFlow codec flow removed) parent) := by
  have distinctAt : ∀ key, ((hash.lookup key).map CStr.text).Nodup := fun key =>
    (describes key).2.nodup_iff.2 (childIds_nodup forest.distinct key)
  have fewer : ((gListRemove (hash.lookup parent) idRemove).map CStr.text).Nodup :=
    (distinctAt parent).sublist (List.eraseP_sublist.map _)
  have memAt : ∀ key text, text ∈ (hash.lookup key).map CStr.text ↔
      ∃ rev ∈ flow, rev.id = text ∧ revParent codec rev = some key := fun key text =>
    (describes key).2.mem_iff.trans mem_childIds
  have notSelf : parent ≠ removed.id := by
    rintro rfl
    exact forest.acyclic.not_self _ ((parentOf_of_mem forest.distinct stored).trans up)
  rw [List.map_append]
  refine (List.perm_ext_iff_of_nodup ?_ (childIds_nodup
    (removedFlow_forest forest loads stored).distinct parent)).2 fun text => ?_
  · refine List.nodup_append'.2 ⟨fewer, distinctAt _, ?_⟩
    intro text left right
    obtain ⟨rev, revStored, rfl, under⟩ := (memAt parent text).1
      ((mem_gListRemove (distinctAt parent) listed coherent).1 left).1
    obtain ⟨other, otherStored, same, below⟩ := (memAt _ _).1 right
    obtain rfl := rev_eq_of_id forest.distinct otherStored revStored same
    rw [under, Option.some.injEq, ← named] at below
    exact notSelf below
  · rw [List.mem_append, mem_gListRemove (distinctAt parent) listed coherent, memAt, memAt,
      mem_childIds_removedFlow loads, ← named]
    constructor
    · rintro (⟨⟨rev, revStored, rfl, under⟩, other⟩ | ⟨rev, revStored, rfl, below⟩)
      · refine ⟨rev, revStored, rfl, other, ?_⟩
        rw [under, if_neg fun same => notSelf (Option.some.inj same)]
      · refine ⟨rev, revStored, rfl, ?_, ?_⟩
        · intro same
          have loop := (parentOf_of_mem forest.distinct revStored).trans below
          rw [same] at loop
          exact forest.acyclic.not_self _ loop
        · rw [if_pos below, up]
    · rintro ⟨rev, revStored, rfl, other, link⟩
      by_cases below : revParent codec rev = some removed.id
      · exact Or.inr ⟨rev, revStored, rfl, below⟩
      · rw [if_neg below] at link
        exact Or.inl ⟨⟨rev, revStored, rfl, link⟩, other⟩

/-- **A call in step leaves a hash that describes the new flow.** -/
theorem joined_describes (forest : SnapshotForest codec flow) (loads : AllLoad codec flow)
    (stored : removed ∈ flow) (named : removed.id = idRemove.text)
    (describes : Describes codec flow hash) {parent : String}
    (up : revParent codec removed = some parent)
    (listed : ∃ entry ∈ hash.lookup parent, entry.addr = idRemove.addr)
    (coherent : ∀ entry ∈ hash.lookup parent,
      entry.addr = idRemove.addr → entry.text = idRemove.text) :
    Describes codec (removedFlow codec flow removed)
      ((hash.insert parent (gListRemove (hash.lookup parent) idRemove ++
        hash.lookup idRemove.text)).remove idRemove.text) := by
  intro key
  constructor
  · rw [RevisionHash.isSome_remove, RevisionHash.isSome_insert, (describes key).1, Bool.eq_iff_iff]
    simp only [Bool.and_eq_true, Bool.not_eq_true', decide_eq_false_iff_not, Bool.or_eq_true,
      decide_eq_true_eq, mem_removedFlow_ids, named]
    constructor
    · rintro ⟨other, rfl | known⟩
      · exact ⟨forest.rooted removed stored _ up, other⟩
      · exact ⟨known, other⟩
    · rintro ⟨known, other⟩
      exact ⟨other, Or.inr known⟩
  · rw [RevisionHash.lookup_remove, RevisionHash.lookup_insert]
    by_cases gone : key = idRemove.text
    · rw [if_pos gone, gone]
      -- No snapshot of the new flow has the removed one as its parent.
      have childless : childIds codec (removedFlow codec flow removed) idRemove.text = [] := by
        refine List.eq_nil_iff_forall_not_mem.2 fun child listed' => ?_
        obtain ⟨rev, revStored, -, link⟩ := mem_childIds.1 listed'
        have gone := (removedFlow_forest forest loads stored).rooted rev revStored _ link
        exact (mem_removedFlow_ids.1 gone).2 named.symm
      rw [childless]
      exact List.Perm.refl _
    · rw [if_neg gone]
      by_cases here : key = parent
      · rw [if_pos here, here]
        exact joined_perm forest loads stored named describes up listed coherent
      · rw [if_neg here]
        refine (describes key).2.trans ((List.perm_ext_iff_of_nodup
          (childIds_nodup forest.distinct key) (childIds_nodup
            (removedFlow_forest forest loads stored).distinct key)).2 fun text => ?_)
        rw [mem_childIds, mem_childIds_removedFlow loads]
        constructor
        · rintro ⟨rev, revStored, rfl, link⟩
          refine ⟨rev, revStored, rfl, ?_, ?_⟩
          · intro same
            obtain rfl := rev_eq_of_id forest.distinct revStored stored same
            exact here (Option.some.inj (link.symm.trans up))
          · rw [link, if_neg fun same => gone ((Option.some.inj same).trans named)]
        · rintro ⟨rev, revStored, rfl, -, link⟩
          by_cases below : revParent codec rev = some removed.id
          · rw [if_pos below, up] at link
            exact absurd (Option.some.inj link).symm here
          · rw [if_neg below] at link
            exact ⟨rev, revStored, rfl, link⟩

/-- The last two parts of `KeepsTree` say that the hash describes the new flow. -/
theorem keepsTree_of_describes {outcome : RemoveOutcome Xml}
    (forest : SnapshotForest codec (removedFlow codec flow removed))
    (loads : AllLoad codec (removedFlow codec flow removed))
    (flow_eq : outcome.flow = removedFlow codec flow removed)
    (result_eq : outcome.result = decide (parentHead = removed.id))
    (hash_eq : outcome.hash = some hash)
    (describes : Describes codec (removedFlow codec flow removed) hash) :
    KeepsTree codec flow removed parentHead outcome where
  flow_eq := flow_eq
  result_eq := result_eq
  hash_eq := by
    intro alloc
    obtain ⟨fresh, built, freshDescribes, -⟩ := hashCreate_describes alloc forest loads
    rw [flow_eq]
    exact ⟨hash, fresh, hash_eq, built, (same_iff_describes freshDescribes).2 describes⟩
  next := by
    intro alloc uninitialised idNext headNext
    obtain ⟨fresh, built, freshDescribes, -⟩ := hashCreate_describes alloc forest loads
    rw [flow_eq, hash_eq, built]
    exact remove_flow_congr forest loads describes freshDescribes

/-- `KeepsTree` needs a hash that describes the new flow. -/
theorem KeepsTree.describes {outcome : RemoveOutcome Xml}
    (forest : SnapshotForest codec (removedFlow codec flow removed))
    (loads : AllLoad codec (removedFlow codec flow removed))
    (keeps : KeepsTree codec flow removed parentHead outcome) :
    ∃ hash, outcome.hash = some hash ∧ Describes codec (removedFlow codec flow removed) hash := by
  obtain ⟨fresh, built, freshDescribes, -⟩ :=
    hashCreate_describes (fun _ => 0) forest loads
  obtain ⟨hash, other, kept, rebuilt, same⟩ := keeps.hash_eq fun _ => 0
  rw [keeps.flow_eq, built, Option.some.injEq] at rebuilt
  subst rebuilt
  exact ⟨hash, kept, (same_iff_describes freshDescribes).1 same⟩

/-- Addresses are coherent on the lists of a hash that was just built. -/
theorem built_coherent {parent : String} (built : hash.lookup parent =
      (childEntries codec alloc 0 flow parent).reverse)
    (coherent : ∀ i rev, flow[i]? = some rev → alloc i = idRemove.addr →
      rev.id = idRemove.text) :
    ∀ entry ∈ hash.lookup parent, entry.addr = idRemove.addr → entry.text = idRemove.text := by
  intro entry listed here
  rw [built, List.mem_reverse, mem_childEntries] at listed
  obtain ⟨i, rev, found, -, rfl⟩ := listed
  rw [Nat.zero_add] at here
  exact coherent i rev found here

theorem right_of_inStep (forest : SnapshotForest codec flow) (stored : removed ∈ flow)
    (named : removed.id = idRemove.text)
    (coherent : ∀ i rev, flow[i]? = some rev → alloc i = idRemove.addr →
      rev.id = idRemove.text)
    (inStep : RemovalInStep codec alloc flow idRemove removed parentHead) :
    RemovalRight codec alloc flow idRemove removed parentHead := by
  intro uninitialised
  have found : getRevisionById flow idRemove.text = some removed :=
    named ▸ getRevisionById_of_mem forest.distinct stored
  rcases inStep with broken | ⟨loads, head, inner, rooted, i, at_i, here⟩
  · refine ⟨fun loads => ?_, fun _ => ?_⟩
    · have loaded := loads removed stored
      rw [broken] at loaded
      exact absurd loaded Bool.false_ne_true
    · unfold flowRevisionRemove
      simp only [found, broken, and_self]
  · refine ⟨fun _ => ?_, fun broken => absurd loads broken⟩
    obtain ⟨parent, up⟩ := Option.isSome_iff_exists.1 rooted
    obtain ⟨hash, built, describes, lists⟩ := hashCreate_describes alloc forest loads
    have raw : rawParent codec removed = parent := by
      rw [revParent_eq_rawParent] at up
      split at up
      · exact absurd up (Option.some_ne_none _).symm
      · exact Option.some.inj up
    have nonempty : hash.lookup idRemove.text ≠ [] := by
      intro leaf
      have same := (describes idRemove.text).2
      rw [leaf, List.map_nil, ← named] at same
      exact inner same.nil_eq.symm
    have listed : ∃ entry ∈ hash.lookup parent, entry.addr = idRemove.addr := by
      refine ⟨⟨alloc i, removed.id⟩, ?_, here⟩
      rw [lists, List.mem_reverse, mem_childEntries]
      exact ⟨i, removed, at_i, up, by rw [Nat.zero_add]⟩
    simp only [built]
    rw [flowRevisionRemove_inner forest loads stored named describes nonempty, raw]
    refine keepsTree_of_describes (removedFlow_forest forest loads stored)
      (removedFlow_allLoad loads) rfl ?_ rfl (joined_describes forest loads stored named describes
        up listed (built_coherent (lists parent) coherent))
    rw [head, named, if_pos rfl, decide_eq_true rfl]

theorem inStep_of_right (forest : SnapshotForest codec flow) (stored : removed ∈ flow)
    (named : removed.id = idRemove.text)
    (coherent : ∀ i rev, flow[i]? = some rev → alloc i = idRemove.addr →
      rev.id = idRemove.text)
    (right : RemovalRight codec alloc flow idRemove removed parentHead) :
    RemovalInStep codec alloc flow idRemove removed parentHead := by
  have found : getRevisionById flow idRemove.text = some removed :=
    named ▸ getRevisionById_of_mem forest.distinct stored
  have gone : removed.id ∉ (removedFlow codec flow removed).map Revision.id := fun kept =>
    (mem_removedFlow_ids.1 kept).2 rfl
  by_cases loads : AllLoad codec flow
  · right
    have newForest := removedFlow_forest forest loads stored
    have newLoads : AllLoad codec (removedFlow codec flow removed) := removedFlow_allLoad loads
    obtain ⟨hash, built, describes, lists⟩ := hashCreate_describes alloc forest loads
    have keeps := fun uninitialised => (right uninitialised).1 loads
    simp only [built] at keeps
    by_cases leaf : hash.lookup idRemove.text = []
    · -- The hash of the leaf exit still has the removed id as a key.
      have kept := keeps false
      rw [flowRevisionRemove_leaf forest loads stored named describes leaf] at kept
      obtain ⟨after, same, afterDescribes⟩ := kept.describes newForest newLoads
      obtain rfl : hash = after := Option.some.inj same
      have key := (describes removed.id).1
      rw [(afterDescribes removed.id).1, decide_eq_true (List.mem_map_of_mem stored)] at key
      exact absurd (of_decide_eq_true key) gone
    · simp only [flowRevisionRemove_inner forest loads stored named describes leaf] at keeps
      have head : parentHead = removed.id := by
        by_contra other
        have value := (keeps true).result_eq
        rw [if_neg fun same => other (same.symm.trans named.symm), decide_eq_false other] at value
        exact absurd value.symm Bool.false_ne_true
      obtain ⟨after, same, afterDescribes⟩ := (keeps false).describes newForest newLoads
      obtain rfl := Option.some.inj same
      have inner : childIds codec flow removed.id ≠ [] := by
        intro childless
        have listed := (describes idRemove.text).2
        rw [← named, childless] at listed
        rw [← named] at leaf
        exact leaf (List.map_eq_nil_iff.1 listed.eq_nil)
      have apart : rawParent codec removed ≠ idRemove.text := by
        intro self
        have up : revParent codec removed = some removed.id := by
          rw [revParent_eq_rawParent, self, ← named, if_neg (forest.named removed stored)]
        exact forest.acyclic.not_self _ ((parentOf_of_mem forest.distinct stored).trans up)
      -- The parent is a key of the new hash, so it is a stored id and not the empty text.
      have parentKey := (afterDescribes (rawParent codec removed)).1
      rw [RevisionHash.isSome_remove, RevisionHash.isSome_insert, decide_eq_false apart,
        decide_eq_true rfl, Bool.true_or, Bool.not_false, Bool.true_and] at parentKey
      have parentStored := of_decide_eq_true parentKey.symm
      have rooted : rawParent codec removed ≠ "" := by
        intro empty
        rw [empty] at parentStored
        obtain ⟨rev, revStored, revNamed⟩ := List.mem_map.1 parentStored
        exact newForest.named rev revStored revNamed
      have up : revParent codec removed = some (rawParent codec removed) := by
        rw [revParent_eq_rawParent, if_neg rooted]
      refine ⟨loads, head, inner, by rw [up]; rfl, ?_⟩
      -- Were no string of the list at the address passed, the removed id would stay in the list.
      by_contra absent
      have untouched : gListRemove (hash.lookup (rawParent codec removed)) idRemove =
          hash.lookup (rawParent codec removed) := by
        refine List.eraseP_of_forall_not fun entry listed => ?_
        rw [decide_eq_true_eq]
        intro here
        have text := built_coherent (lists _) coherent entry listed here
        rw [lists, List.mem_reverse, mem_childEntries] at listed
        obtain ⟨i, rev, at_i, -, rfl⟩ := listed
        rw [Nat.zero_add] at here
        obtain rfl := rev_eq_of_id forest.distinct (List.mem_of_getElem? at_i) stored
          (text.trans named.symm)
        exact absent ⟨i, at_i, here⟩
      have list := (afterDescribes (rawParent codec removed)).2
      rw [RevisionHash.lookup_remove, if_neg apart, RevisionHash.lookup_insert, if_pos rfl,
        untouched, List.map_append] at list
      have still : removed.id ∈ (hash.lookup (rawParent codec removed)).map CStr.text :=
        (listed_iff_child forest describes stored _).2 up
      have child := list.mem_iff.1 (List.mem_append_left _ still)
      obtain ⟨rev, -, -, other, -⟩ := (mem_childIds_removedFlow loads).1 child
      exact other rfl
  · left
    by_contra loaded
    obtain ⟨doc, loaded⟩ := Option.ne_none_iff_exists'.1 loaded
    have unchanged := ((right false).2 loads).1
    have missing : gebrFlowRevisionsHashCreate codec alloc flow = none :=
      hashAddRevisions_none loads
    rw [missing] at unchanged
    unfold flowRevisionRemove at unchanged
    simp only [found, loaded, eraseP_eq_filter forest.distinct] at unchanged
    have kept := unchanged.symm ▸ stored
    have dropped := (List.mem_filter.1 kept).2
    rw [decide_eq_true_eq] at dropped
    exact dropped named

/-- **Removing a snapshot of a forest is right exactly for the calls in step.** Two strings at one
address are one string (`coherent`); `alloc` and `idRemove` are otherwise free. -/
theorem flowRevisionRemove_keepsTree_iff (forest : SnapshotForest codec flow)
    (stored : removed ∈ flow) (named : removed.id = idRemove.text)
    (coherent : ∀ i rev, flow[i]? = some rev → alloc i = idRemove.addr →
      rev.id = idRemove.text) :
    RemovalRight codec alloc flow idRemove removed parentHead ↔
      RemovalInStep codec alloc flow idRemove removed parentHead :=
  ⟨inStep_of_right forest stored named coherent, right_of_inStep forest stored named coherent⟩

end Proof

section Chain

/-- Texts that are either broken or a document written out. -/
def plainCodec : DocumentCodec (Option Document) where
  loadBuffer := id
  toString := some
  load_toString := fun _ => rfl

/-- A snapshot whose document names this parent. -/
def plainRevision (id parent : String) : Revision (Option Document) :=
  ⟨id, some ⟨parent, ""⟩, "", ""⟩

/-- Three snapshots, each made from the one before; the last is stored first. -/
def chain : List (Revision (Option Document)) :=
  [plainRevision "c" "b", plainRevision "b" "a", plainRevision "a" ""]

theorem chain_forest : SnapshotForest plainCodec chain where
  distinct := by decide
  named := by decide
  rooted := by
    intro rev stored parent link
    simp only [chain, List.mem_cons, List.not_mem_nil, or_false] at stored
    rcases stored with rfl | rfl | rfl <;>
      simp_all [plainRevision, plainCodec, revParent, chain]
  acyclic := by
    refine Lib.Forest.acyclic_of_rank
      (fun id => if id = "a" then 0 else if id = "b" then 1 else 2) fun parent id link => ?_
    rw [parentOf, Option.bind_eq_some_iff] at link
    obtain ⟨rev, found, up⟩ := link
    obtain ⟨stored, rfl⟩ := getRevisionById_some found
    simp only [chain, List.mem_cons, List.not_mem_nil, or_false] at stored
    rcases stored with rfl | rfl | rfl <;>
      simp_all [plainRevision, plainCodec, revParent]
    all_goals subst_vars; decide

/-- The middle of the chain, removed through the copy of its id in the hash while it is the parent
of the current state. -/
theorem flowRevisionRemove_keepsTree_iff_chain :
    RemovalRight plainCodec id chain ⟨1, "b"⟩ (plainRevision "b" "a") "b" ↔
      RemovalInStep plainCodec id chain ⟨1, "b"⟩ (plainRevision "b" "a") "b" :=
  flowRevisionRemove_keepsTree_iff chain_forest (by decide) rfl (by
    rintro i rev found rfl
    obtain rfl : plainRevision "b" "a" = rev := by simpa [chain] using found
    rfl)

/-- **The end of the chain is a leaf: after its removal the hash still has it**, under its own key
and under its parent. -/
theorem flowRevisionRemove_leaf_stale :
    SnapshotForest plainCodec chain ∧ AllLoad plainCodec chain ∧
      ¬ RemovalRight plainCodec id chain ⟨3, "c"⟩ (plainRevision "c" "b") "c" := by
  have loads : AllLoad plainCodec chain := by decide
  refine ⟨chain_forest, loads, fun right => ?_⟩
  obtain ⟨hash, fresh, kept, rebuilt, same⟩ := ((right false).1 loads).hash_eq id
  have key := (same "c").1
  cases kept
  cases rebuilt
  exact absurd key (by decide)

end Chain

end Gebr.Flow
