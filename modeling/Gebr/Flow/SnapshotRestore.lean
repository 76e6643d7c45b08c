/-
**Back to a snapshot.**

A flow in the shape of the DTD has its snapshots together; what a paste or a clone adds stands
behind them. `Parts` is such a flow, cut in three.

* `Edits`: what an edit keeps of a flow, whatever it does to its content.
* `edits_set`, `edits_erase`, `edits_insert_next`, ...: one lemma for each way to change the
  children.
* `step_keeps` — **the snapshots stay together**, each event at most adds one before them.
* `restore_iff` — **a snapshot is restored** after any events iff nothing stands behind the
  snapshots and its help has no line break.
* `calm_behind`: without a paste or a clone nothing gets there.
* `paste_stays`: a program that was pasted after the snapshot is still there when it is restored.
-/

import Gebr.Flow.FlowTree

namespace Gebr.Flow.Restore

open Gebr.Flow.Chain (Text)
open Gebr.Geoxml (Moves.Element Moves.Op Moves.apply Moves.apply_cases Moves.beside_act)
open Gebr.Lib.ListMove
open Gebr.Lib.Run (run)

variable {Xml β : Type}

section Lists

variable {flow other : GebrGeoXmlFlow Xml β}

@[simp] theorem contents_append : contents (flow ++ other) = contents flow ++ contents other :=
  List.filterMap_append

@[simp] theorem revisions_append : revisions (flow ++ other) = revisions flow ++ revisions other :=
  List.filterMap_append

@[simp] theorem contents_content (elements : List (Element β)) :
    contents (elements.map (Child.content : Element β → Child Xml β)) = elements := by
  induction elements with
  | nil => rfl
  | cons element elements ih => exact congrArg (element :: ·) ih

@[simp] theorem contents_revision (list : List (Revision Xml)) :
    contents (list.map (Child.revision : Revision Xml → Child Xml β)) = [] := by
  induction list with
  | nil => rfl
  | cons revision list ih => exact ih

@[simp] theorem revisions_content (elements : List (Element β)) :
    revisions (elements.map (Child.content : Element β → Child Xml β)) = [] := by
  induction elements with
  | nil => rfl
  | cons element elements ih => exact ih

@[simp] theorem revisions_revision (list : List (Revision Xml)) :
    revisions (list.map (Child.revision : Revision Xml → Child Xml β)) = list := by
  induction list with
  | nil => rfl
  | cons revision list ih => exact congrArg (revision :: ·) ih

theorem eq_content (none : revisions flow = []) : flow = (contents flow).map Child.content := by
  induction flow with
  | nil => rfl
  | cons child flow ih =>
    cases child with
    | content element => exact congrArg (Child.content element :: ·) (ih none)
    | revision revision => cases none

theorem mem_contents {element : Element β} :
    element ∈ contents flow ↔ Child.content element ∈ flow := by
  unfold contents
  rw [List.mem_filterMap]
  constructor
  · rintro ⟨child, member, same⟩
    cases child with
    | content other => cases same; exact member
    | revision revision => cases same
  · intro member
    exact ⟨_, member, rfl⟩

end Lists

section Parts

/-- A flow whose snapshots are together. -/
structure Parts (Xml β : Type) where
  front : List (Element β)
  revisions : List (Revision Xml)
  behind : List (Element β)
  /-- Without snapshots all content is in front. -/
  packed : revisions = [] → behind = []

/-- The children, in their order. -/
def Parts.children (parts : Parts Xml β) : GebrGeoXmlFlow Xml β :=
  parts.front.map .content ++ (parts.revisions.map .revision ++ parts.behind.map .content)

namespace Parts

variable (parts : Parts Xml β)

/-- The content alone. -/
def ofContents (elements : List (Element β)) : Parts Xml β := ⟨elements, [], [], fun _ => rfl⟩

@[simp] theorem contents_children :
    Restore.contents parts.children = parts.front ++ parts.behind := by
  simp [children]

@[simp] theorem revisions_children : Restore.revisions parts.children = parts.revisions := by
  simp [children]

theorem all_front (child : Child Xml β) (member : child ∈ parts.front.map Child.content) :
    child.isRevision = false := by
  obtain ⟨element, _, rfl⟩ := List.mem_map.1 member
  rfl

/-- The content in front ends where the first snapshot is. -/
theorem head_rest : ∀ child ∈ (parts.revisions.map Child.revision ++ parts.behind.map Child.content :
    GebrGeoXmlFlow Xml β).head?, child.isRevision = true := by
  intro child first
  cases list : parts.revisions with
  | nil =>
    rw [list, parts.packed list] at first
    cases first
  | cons revision revisions =>
    rw [list] at first
    cases first
    rfl

theorem dropWhile_children : (parts.children.dropWhile fun child => !child.isRevision) =
    parts.revisions.map .revision ++ parts.behind.map .content := by
  rw [children, List.dropWhile_append_of_pos fun child member => by
    rw [parts.all_front child member]; rfl]
  cases rest : (parts.revisions.map Child.revision ++ parts.behind.map Child.content :
    GebrGeoXmlFlow Xml β) with
  | nil => rfl
  | cons child rest' =>
    have first := parts.head_rest child (by rw [rest]; rfl)
    rw [List.dropWhile_cons_of_neg (by rw [first]; decide)]

theorem takeWhile_children : (parts.children.takeWhile fun child => !child.isRevision) =
    parts.front.map .content := by
  have whole := List.takeWhile_append_dropWhile (p := fun child : Child Xml β => !child.isRevision)
    (l := parts.children)
  rw [parts.dropWhile_children] at whole
  exact List.append_cancel_right whole

@[simp] theorem behind_children : Restore.behind parts.children = parts.behind := by
  rw [Restore.behind, parts.dropWhile_children]
  simp

@[simp] theorem firstRevision_children : firstRevision parts.children = parts.front.length := by
  have none : (parts.front.map Child.content : GebrGeoXmlFlow Xml β).findIdx Child.isRevision =
      (parts.front.map Child.content : GebrGeoXmlFlow Xml β).length :=
    List.findIdx_eq_length_of_false parts.all_front
  have here : (parts.revisions.map Child.revision ++ parts.behind.map Child.content :
      GebrGeoXmlFlow Xml β).findIdx Child.isRevision = 0 := by
    cases rest : (parts.revisions.map Child.revision ++ parts.behind.map Child.content :
      GebrGeoXmlFlow Xml β) with
    | nil => rfl
    | cons child rest' =>
      rw [List.findIdx_cons, parts.head_rest child (by rw [rest]; rfl)]
      rfl
  rw [firstRevision, children, List.findIdx_append, none, if_neg (lt_irrefl _), here, Nat.zero_add,
    List.length_map]

end Parts

end Parts

section Edits

/-- What an edit keeps of a flow: its snapshots and where they are, the children that are there
once, and, for a calm one, that nothing stands behind the snapshots. -/
structure Edits (calm : Prop) (before after : GebrGeoXmlFlow Xml β) : Prop where
  together : ∀ parts : Parts Xml β, parts.children = before → ∃ next : Parts Xml β,
    next.children = after ∧ next.revisions = parts.revisions ∧
      (calm → parts.behind = [] → next.behind = [])
  heads : ∀ tag : Tag, tag.isSequence = false → (∃ element ∈ contents before, element.tag = tag) →
    ∃ element ∈ contents after, element.tag = tag

variable {calm : Prop} {first second third flow : GebrGeoXmlFlow Xml β} {element : Element β}

theorem Edits.refl (calm : Prop) (flow : GebrGeoXmlFlow Xml β) : Edits calm flow flow where
  together := fun parts same => ⟨parts, same, rfl, fun _ tidy => tidy⟩
  heads := fun _ _ found => found

theorem Edits.trans (one : Edits calm first second) (two : Edits calm second third) :
    Edits calm first third where
  together := by
    intro parts same
    obtain ⟨next, same', kept, tidy⟩ := one.together parts same
    obtain ⟨last, same'', kept', tidy'⟩ := two.together next same'
    exact ⟨last, same'', kept'.trans kept, fun quiet clear => tidy' quiet (tidy quiet clear)⟩
  heads := fun tag single found => two.heads tag single (one.heads tag single found)

theorem Edits.complete (edits : Edits calm first second) (complete : Complete first) :
    Complete second :=
  fun tag single => edits.heads tag single (complete tag single)

/-- Where a content child stands: in front, or behind the snapshots. -/
theorem Parts.content_cases (parts : Parts Xml β) {place : ℕ}
    (here : parts.children[place]? = some (.content element)) :
    (place < parts.front.length ∧ parts.front[place]? = some element) ∨
      ∃ back, place = parts.front.length + parts.revisions.length + back ∧
        parts.behind[back]? = some element := by
  unfold Parts.children at here
  rw [List.getElem?_append, List.length_map] at here
  by_cases front : place < parts.front.length
  · rw [if_pos front, List.getElem?_map, Option.map_eq_some_iff] at here
    obtain ⟨other, here, same⟩ := here
    cases same
    exact .inl ⟨front, here⟩
  · rw [if_neg front, List.getElem?_append, List.length_map] at here
    by_cases middle : place - parts.front.length < parts.revisions.length
    · rw [if_pos middle, List.getElem?_map, Option.map_eq_some_iff] at here
      obtain ⟨revision, -, same⟩ := here
      cases same
    · rw [if_neg middle, List.getElem?_map, Option.map_eq_some_iff] at here
      obtain ⟨other, here, same⟩ := here
      cases same
      exact .inr ⟨place - parts.front.length - parts.revisions.length, by omega, here⟩

/-- Content behind the snapshots means that there are some. -/
theorem Parts.behind_of_some (parts : Parts Xml β) {back : ℕ}
    (here : parts.behind[back]? = some element) : parts.revisions ≠ [] := by
  intro none
  rw [parts.packed none] at here
  cases here

theorem edits_set {place : ℕ} {changed : Element β} (here : flow[place]? = some (.content element))
    (same : changed.tag = element.tag) : Edits calm flow (flow.set place (.content changed)) where
  together := by
    rintro parts rfl
    rcases parts.content_cases here with ⟨front, -⟩ | ⟨back, rfl, found⟩
    · refine ⟨⟨parts.front.set place changed, parts.revisions, parts.behind, parts.packed⟩, ?_, rfl,
        fun _ tidy => tidy⟩
      simp only [Parts.children]
      rw [List.set_append_left _ _ (by rw [List.length_map]; exact front), List.map_set]
    · refine ⟨⟨parts.front, parts.revisions, parts.behind.set back changed,
        fun none => absurd none (parts.behind_of_some found)⟩, ?_, rfl, ?_⟩
      · simp only [Parts.children]
        rw [List.set_append_right _ _ (by rw [List.length_map]; omega),
          List.set_append_right _ _ (by rw [List.length_map, List.length_map]; omega), List.map_set]
        congr 4
        rw [List.length_map, List.length_map]
        omega
      · intro _ tidy
        rw [tidy] at found
        cases found
  heads := by
    rintro tag _ ⟨other, member, rfl⟩
    obtain ⟨inside, at'⟩ := List.getElem?_eq_some_iff.1 here
    obtain ⟨index, bound, there⟩ := List.getElem_of_mem (mem_contents.1 member)
    by_cases this : index = place
    · subst this
      rw [at'] at there
      cases there
      exact ⟨changed, mem_contents.2 (List.mem_set inside _), same⟩
    · refine ⟨other, mem_contents.2 ?_, rfl⟩
      rw [List.mem_iff_getElem?]
      exact ⟨index, by rw [List.getElem?_set_ne (Ne.symm this), List.getElem?_eq_getElem bound, there]⟩

theorem edits_erase {place : ℕ} (here : flow[place]? = some (.content element))
    (sequence : element.tag.isSequence = true) : Edits calm flow (flow.eraseIdx place) where
  together := by
    rintro parts rfl
    rcases parts.content_cases here with ⟨front, -⟩ | ⟨back, rfl, found⟩
    · refine ⟨⟨parts.front.eraseIdx place, parts.revisions, parts.behind, parts.packed⟩, ?_, rfl,
        fun _ tidy => tidy⟩
      simp only [Parts.children]
      rw [List.eraseIdx_append_of_lt_length (by rw [List.length_map]; exact front), List.eraseIdx_map]
    · refine ⟨⟨parts.front, parts.revisions, parts.behind.eraseIdx back,
        fun none => absurd none (parts.behind_of_some found)⟩, ?_, rfl, ?_⟩
      · simp only [Parts.children]
        rw [List.eraseIdx_append_of_length_le (by rw [List.length_map]; omega),
          List.eraseIdx_append_of_length_le (by rw [List.length_map, List.length_map]; omega),
          ← List.eraseIdx_map]
        congr 3
        rw [List.length_map, List.length_map]
        omega
      · intro _ tidy
        rw [tidy] at found
        cases found
  heads := by
    rintro tag single ⟨other, member, rfl⟩
    refine ⟨other, mem_contents.2 ?_, rfl⟩
    have moved := cons_eraseIdx_perm here
    rcases List.mem_cons.1 (moved.mem_iff.2 (mem_contents.1 member)) with same | rest
    · cases same
      rw [sequence] at single
      cases single
    · exact rest

/-- An element comes, in front or behind the snapshots. -/
theorem edits_insert {place : ℕ} (outside : ∀ parts : Parts Xml β, parts.children = flow →
      (calm → parts.behind = [] → place ≤ parts.front.length) ∧
      (place ≤ parts.front.length ∨ parts.front.length + parts.revisions.length ≤ place)) :
    Edits calm flow (insertAt place (.content element) flow) where
  together := by
    rintro parts rfl
    obtain ⟨quiet, side⟩ := outside parts rfl
    by_cases front : place ≤ parts.front.length
    · refine ⟨⟨insertAt place element parts.front, parts.revisions, parts.behind, parts.packed⟩, ?_,
        rfl, fun _ tidy => tidy⟩
      simp only [Parts.children]
      rw [insertAt_append_left _ _ (by rw [List.length_map]; exact front), map_insertAt]
    by_cases none : parts.revisions = []
    · -- All content is in front, and the place is past its end.
      refine ⟨⟨parts.front ++ [element], [], [], fun _ => rfl⟩, ?_, none.symm, fun _ _ => rfl⟩
      have whole : parts.children = parts.front.map .content := by
        simp [Parts.children, none, parts.packed none]
      rw [whole, insertAt_past _ (by rw [List.length_map]; omega)]
      simp [Parts.children]
    · refine ⟨⟨parts.front, parts.revisions,
        insertAt (place - parts.front.length - parts.revisions.length) element parts.behind,
        fun empty => absurd empty none⟩, ?_, rfl, fun calm tidy => absurd (quiet calm tidy) front⟩
      simp only [Parts.children]
      rw [insertAt_append_right _ _ (by rw [List.length_map]; omega),
        insertAt_append_right _ _ (by rw [List.length_map, List.length_map]; omega), map_insertAt,
        List.length_map, List.length_map]
  heads := by
    rintro tag _ ⟨other, member, rfl⟩
    exact ⟨other, mem_contents.2 (mem_insertAt.2 (.inr (mem_contents.1 member))), rfl⟩

theorem edits_insert_next {place target : ℕ} {other : Element β}
    (here : flow[place]? = some (.content other)) (next : target = place ∨ target = place + 1) :
    Edits calm flow (insertAt target (.content element) flow) := by
  apply edits_insert
  rintro parts rfl
  rcases parts.content_cases here with ⟨front, -⟩ | ⟨back, rfl, found⟩
  · exact ⟨fun _ _ => by omega, .inl (by omega)⟩
  · refine ⟨fun _ tidy => ?_, .inr (by omega)⟩
    rw [tidy] at found
    cases found

theorem edits_insert_first :
    Edits calm flow (insertAt (firstRevision flow) (.content element) flow) := by
  apply edits_insert
  rintro parts rfl
  rw [parts.firstRevision_children]
  exact ⟨fun _ _ => le_rfl, .inl le_rfl⟩

/-- An element comes to the end, which is behind the snapshots when there are some. -/
theorem edits_append : Edits False flow (flow ++ [.content element]) := by
  rw [← insertAt_end]
  apply edits_insert
  rintro parts rfl
  refine ⟨fun never => never.elim, .inr ?_⟩
  simp only [Parts.children, List.length_append, List.length_map]
  omega

end Edits

section Functions

variable {calm : Prop} {flow : GebrGeoXmlFlow Xml β} {element : Element β}

theorem content_of_hasTag {tag : Tag} {child : Child Xml β} (has : child.hasTag tag = true) :
    ∃ element, child = .content element ∧ element.tag = tag := by
  cases child with
  | content element => exact ⟨element, rfl, of_decide_eq_true has⟩
  | revision revision => cases has

/-- A property is set in the place of the element that has it. -/
theorem onFirst_cases (tag : Tag) (change : Element β → Element β) (flow : GebrGeoXmlFlow Xml β) :
    onFirst tag change flow = flow ∨ ∃ place element, flow[place]? = some (.content element) ∧
      onFirst tag change flow = flow.set place (.content (change element)) := by
  induction flow with
  | nil => exact .inl rfl
  | cons child flow ih =>
    have step : onFirst tag change (child :: flow) = child :: onFirst tag change flow ∨
        ∃ element, child = .content element ∧
          onFirst tag change (child :: flow) = .content (change element) :: flow := by
      cases child with
      | content element =>
        by_cases same : element.tag = tag
        · exact .inr ⟨element, rfl, by rw [onFirst, if_pos same]⟩
        · exact .inl (by rw [onFirst, if_neg same])
      | revision revision => exact .inl rfl
    rcases step with goes | ⟨element, rfl, stops⟩
    · rcases ih with same | ⟨place, element, here, set⟩
      · exact .inl (by rw [goes, same])
      · exact .inr ⟨place + 1, element, here, by rw [goes, set, List.set_cons_succ]⟩
    · exact .inr ⟨0, element, rfl, by rw [stops, List.set_cons_zero]⟩

theorem edits_onFirst (tag : Tag) {change : Element β → Element β}
    (same : ∀ element, (change element).tag = element.tag) :
    Edits calm flow (onFirst tag change flow) := by
  rcases onFirst_cases tag change flow with eq | ⟨place, element, here, eq⟩
  · rw [eq]
    exact Edits.refl calm flow
  · rw [eq]
    exact edits_set here (same element)

theorem edits_putFirst (tag : Tag) (value : Text) : Edits calm flow (putFirst tag value flow) :=
  edits_onFirst tag fun _ => rfl

theorem edits_appendCategory (bodies : Bodies β) (name : Text) (complete : Complete flow) :
    Edits calm flow (appendCategory bodies flow name) := by
  unfold appendCategory
  by_cases known : ((sequence .category flow).any fun category => category.value = name) = true
  · rw [if_pos known]
    exact Edits.refl calm flow
  · rw [if_neg known]
    obtain ⟨server, member, tag⟩ := complete .server rfl
    have found : flow.findIdx (Child.hasTag .server) < flow.length :=
      List.findIdx_lt_length_of_exists
        ⟨_, mem_contents.1 member, show decide (server.tag = .server) = true from decide_eq_true tag⟩
    obtain ⟨other, same, -⟩ := content_of_hasTag (List.findIdx_getElem (w := found))
    exact edits_insert_next (by rw [List.getElem?_eq_getElem found, same]) (.inl rfl)

/-- Edits one after the other, each on a flow that is still complete. -/
theorem edits_foldl {α : Type} {change : GebrGeoXmlFlow Xml β → α → GebrGeoXmlFlow Xml β}
    (each : ∀ flow a, Complete flow → Edits calm flow (change flow a)) (list : List α)
    (complete : Complete flow) : Edits calm flow (list.foldl change flow) := by
  induction list generalizing flow with
  | nil => exact Edits.refl calm flow
  | cons a list ih =>
    have one := each flow a complete
    exact one.trans (ih (one.complete complete))

theorem edits_addFlow (bodies : Bodies β) (flow2 : GebrGeoXmlFlow Xml β) (complete : Complete flow) :
    Edits calm flow (addFlow bodies flow flow2) := by
  have programs : Edits calm flow
      (((contents flow2).filter fun element => element.tag = .program).foldl insertProgram flow) :=
    edits_foldl (fun _ _ _ => edits_insert_first) _ complete
  have categories := programs.trans (edits_foldl
    (fun flow name complete => edits_appendCategory bodies name complete)
    ((sequence .category flow2).map Element.value) (programs.complete complete))
  unfold addFlow
  dsimp only
  split
  · split
    · exact categories
    · exact categories.trans (edits_onFirst .dict fun _ => rfl)
  · exact categories

theorem edits_clipboardPaste (bodies : Bodies β) (clipboard : List β) (complete : Complete flow) :
    Edits False flow (clipboardPaste bodies clipboard flow) := by
  refine edits_foldl (fun flow pasted _ => ?_) clipboard complete
  unfold pasteProgram
  split
  · exact Edits.refl False flow
  · exact edits_append

theorem nodes_getElem? (flow : GebrGeoXmlFlow Xml β) (place : ℕ) :
    (nodes flow)[place]? = flow[place]?.map fun child => ⟨child.kind, place⟩ := List.getElem?_mapIdx

theorem nodes_nodup (flow : GebrGeoXmlFlow Xml β) : (nodes flow).Nodup := by
  refine List.Nodup.of_map Moves.Element.id ?_
  have places : (nodes flow).map Moves.Element.id = List.range flow.length :=
    List.ext_getElem (by simp [nodes]) fun place _ _ => by simp [nodes]
  rw [places]
  exact List.nodup_range

/-- The nodes stand for the children. -/
theorem map_nodes (flow : GebrGeoXmlFlow Xml β) :
    (nodes flow).map (fun node => flow[node.id]?) = flow.map some :=
  List.ext_getElem (by simp [nodes]) fun place _ _ => by simp [nodes]

theorem childrenOf_eq {flow list : GebrGeoXmlFlow Xml β} {moved : List Moves.Element}
    (same : moved.map (fun node => flow[node.id]?) = list.map some) :
    childrenOf flow moved = list := by
  have given : childrenOf flow moved = (moved.map fun node => flow[node.id]?).filterMap id := by
    rw [List.filterMap_map]
    rfl
  rw [given, same, List.filterMap_map]
  exact List.filterMap_some

theorem kind_ne_revision (tag : Tag) : tag.kind ≠ .revision := by cases tag <;> decide

/-- A node of the kind of an element is that of a content child. -/
theorem content_of_kind {node : Moves.Element} (member : node ∈ nodes flow)
    (same : node.tag = element.tag.kind) : ∃ other :
    Element β, flow[node.id]? = some (.content other) := by
  obtain ⟨place, here⟩ := List.getElem?_of_mem member
  rw [nodes_getElem?] at here
  obtain ⟨child, found, rfl⟩ := Option.map_eq_some_iff.1 here
  cases child with
  | content other => exact ⟨other, found⟩
  | revision revision => exact absurd same.symm (kind_ne_revision element.tag)

/-- The operation is on the node of the element, and its position is another node. -/
theorem op_among {source : ℕ} {target : Target} {op : Moves.Op}
    (here : flow[source]? = some (.content element))
    (given : target.op (nodes flow) ⟨element.tag.kind, source⟩ = some op) :
    op.Among (nodes flow) ∧ op.sequence = ⟨element.tag.kind, source⟩ := by
  have member : (⟨element.tag.kind, source⟩ : Moves.Element) ∈ nodes flow :=
    List.mem_of_getElem? (i := source) (by rw [nodes_getElem?, here]; rfl)
  cases target with
  | before place =>
    obtain ⟨position, there, rfl⟩ := Option.map_eq_some_iff.1 given
    exact ⟨⟨member, fun _ same => Option.some.inj same ▸ List.mem_of_getElem? there⟩, rfl⟩
  | after place =>
    obtain ⟨position, there, rfl⟩ := Option.map_eq_some_iff.1 given
    exact ⟨⟨member, fun _ same => Option.some.inj same ▸ List.mem_of_getElem? there⟩, rfl⟩
  | last | first | up | down =>
    obtain rfl := Option.some.inj given
    exact ⟨⟨member, fun _ same => by cases same⟩, rfl⟩

theorem edits_sequenceMove (source : ℕ) (target : Target)
    (here : flow[source]? = some (.content element)) (sequence : element.tag.isSequence = true) :
    Edits calm flow (sequenceMove element source target flow) := by
  unfold sequenceMove
  cases given : target.op (nodes flow) ⟨element.tag.kind, source⟩ with
  | none => exact Edits.refl calm flow
  | some op =>
    dsimp only
    have stays (result : (Moves.apply (nodes flow) op).2 = nodes flow) :
        Edits calm flow (childrenOf flow (Moves.apply (nodes flow) op).2) := by
      rw [result, childrenOf_eq (map_nodes flow)]
      exact Edits.refl calm flow
    obtain ⟨among, own⟩ := op_among here given
    rcases Moves.apply_cases (nodes flow) op with ⟨-, alike, applied⟩ | ⟨-, -, kept⟩
    case inr => exact stays kept
    rw [applied] at stays ⊢
    rcases Moves.beside_act (nodes_nodup flow)
      among with kept | ⟨front, rest, y, others, result, near, next⟩
    case inl => exact stays kept
    -- the node is taken out, and put back next to one of its kind
    have kind : y.tag = element.tag.kind := by
      rcases near with same | position
      · rw [same, own]
      · rw [alike y position, own]
    have moves : (nodes flow)[source]? = some op.sequence := by
      rw [nodes_getElem?, here, own]
      rfl
    obtain ⟨inside, same⟩ := List.getElem?_eq_some_iff.1 moves
    have taken : (front ++ rest).map (fun node => flow[node.id]?) =
        (flow.eraseIdx source).map some := by
      rw [← others, ← same, (nodes_nodup flow).erase_getElem source inside, ← List.eraseIdx_map,
        map_nodes, List.eraseIdx_map]
    have back : childrenOf flow (front ++ op.sequence :: rest) =
        insertAt front.length (.content element) (flow.eraseIdx source) := by
      have long : (front.map fun node => flow[node.id]?).length = front.length := List.length_map _
      refine childrenOf_eq ?_
      rw [map_insertAt, ← taken, own, List.map_append, List.map_append, List.map_cons, here,
        insertAt, ← long, List.take_left, List.drop_left]
    have beside (place : ℕ) (there : (front ++ rest)[place]? = some y) :
        ∃ other : Element β, (flow.eraseIdx source)[place]? = some (.content other) := by
      obtain ⟨other, found⟩ :=
        content_of_kind (List.mem_of_mem_erase (others ▸ List.mem_of_getElem? there)) kind
      have children := congrArg (fun list => list[place]?) taken
      rw [List.getElem?_map, List.getElem?_map, there, Option.map_some, found] at children
      exact ⟨other, Option.map_injective (Option.some_injective _) children.symm⟩
    rw [result, back]
    refine (edits_erase here sequence).trans ?_
    rcases next with last | first
    · obtain ⟨init, rfl⟩ := List.getLast?_eq_some_iff.1 last
      obtain ⟨other, neighbour⟩ := beside init.length (by simp)
      exact edits_insert_next neighbour (.inr (by simp))
    · obtain ⟨behind, rfl⟩ := List.head?_eq_some_iff.1 first
      obtain ⟨other, neighbour⟩ := beside front.length (by simp)
      exact edits_insert_next neighbour (.inl rfl)

end Functions

section Step

variable {codec : FlowCodec Xml β} {bodies : Bodies β} {flow next : GebrGeoXmlFlow Xml β}

/-- The events that put nothing behind the snapshots. -/
def Event.isCalm : Event Xml β → Bool
  | .paste _ => false
  | .appendClone _ => false
  | _ => true

theorem sequenceAt_eq_some {place : ℕ} {element : Element β}
    (here : sequenceAt place flow = some element) :
    flow[place]? = some (.content element) ∧ element.tag.isSequence = true := by
  unfold sequenceAt at here
  split at here
  · rename_i other found
    by_cases sequence : other.tag.isSequence = true
    · rw [if_pos sequence] at here
      cases here
      exact ⟨found, sequence⟩
    · rw [if_neg sequence] at here
      cases here
  · cases here

theorem appendRevision_children (codec : FlowCodec Xml β) (date : Text) (sec usec : ℕ) (comment : Text)
    (parts : Parts Xml β) : ∃ after : Parts Xml β,
    after.children = appendRevision codec date sec usec comment parts.children ∧
      after.revisions = newRevision codec date sec usec comment parts.children :: parts.revisions ∧
      after.front = parts.front ∧ after.behind = parts.behind := by
  refine ⟨⟨parts.front, _, parts.behind, fun none => absurd none (List.cons_ne_nil _ _)⟩, ?_, rfl, rfl,
    rfl⟩
  rw [appendRevision, parts.firstRevision_children, Parts.children, Parts.children,
    insertAt_append_right _ _ (by rw [List.length_map]), List.length_map, Nat.sub_self]
  rfl

/-- The way back to a snapshot, before its properties are set. -/
theorem loaded_children {doc : GebrGeoXmlFlow Xml β} (none : revisions doc = [])
    (parts : Parts Xml β) :
      (⟨contents doc, parts.revisions, parts.behind, parts.packed⟩ : Parts Xml β).children = doc ++
      parts.children.dropWhile fun child => !child.isRevision := by
  rw [parts.dropWhile_children, Parts.children, ← eq_content none]

/-- **The snapshots stay together and in their order**, and those who come go before the others. -/
theorem step_keeps {event : Event Xml β} (taken : step codec bodies flow event = some next)
    (parts : Parts Xml β) (same : parts.children = flow) (complete : Complete flow) :
    Complete next ∧ ∃ after : Parts Xml β, after.children = next ∧
      (∃ newer, after.revisions = newer ++ parts.revisions) ∧
      (event.isCalm = true → parts.behind = [] → after.behind = []) := by
  have edited : ∀ {calm : Prop}, Edits calm flow next → (event.isCalm = true → calm) →
      Complete next ∧ ∃ after : Parts Xml β, after.children = next ∧
        (∃ newer, after.revisions = newer ++ parts.revisions) ∧
        (event.isCalm = true → parts.behind = [] → after.behind = []) := by
    intro calm edits quiet
    obtain ⟨after, same', kept, tidy⟩ := edits.together parts same
    exact ⟨edits.complete complete, after, same', ⟨[], kept⟩, fun still => tidy (quiet still)⟩
  cases event with
  | setProperty tag value =>
    cases taken
    exact edited (edits_putFirst tag _) fun _ => trivial
  | edit place value body =>
    simp only [step] at taken
    split at taken
    · rename_i element here
      cases taken
      exact edited (edits_set here rfl) fun _ => trivial
    · cases taken
  | appendProgram =>
    cases taken
    exact edited edits_insert_first fun _ => trivial
  | appendCategory name =>
    cases taken
    exact edited (edits_appendCategory bodies name complete) fun _ => trivial
  | addFlow flow2 =>
    cases taken
    exact edited (edits_addFlow bodies flow2 complete) fun _ => trivial
  | paste clipboard =>
    cases taken
    exact edited (edits_clipboardPaste bodies clipboard complete) fun quiet => nomatch quiet
  | appendClone place =>
    obtain ⟨element, here, rfl⟩ := Option.map_eq_some_iff.1 taken
    refine @edited False ?_ fun quiet => nomatch quiet
    rw [sequenceAppendClone, (sequenceAt_eq_some here).1]
    exact edits_append
  | remove place =>
    obtain ⟨element, here, rfl⟩ := Option.map_eq_some_iff.1 taken
    have found := sequenceAt_eq_some here
    exact edited (edits_erase found.1 found.2) fun _ => trivial
  | move source target =>
    obtain ⟨element, here, rfl⟩ := Option.map_eq_some_iff.1 taken
    have found := sequenceAt_eq_some here
    exact edited (edits_sequenceMove source target found.1 found.2) fun _ => trivial
  | appendRevision date sec usec comment =>
    cases taken
    obtain ⟨after, same', kept, front, back⟩ :=
      appendRevision_children codec date sec usec comment parts
    rw [same] at same' kept
    refine ⟨?_, after, same', ⟨[_], kept⟩, fun _ tidy => back.trans tidy⟩
    intro tag single
    have content : contents (appendRevision codec date sec usec comment flow) = contents flow := by
      rw [← same', ← same, after.contents_children, parts.contents_children, front, back]
    rw [content]
    exact complete tag single
  | changeToRevision revision =>
    simp only [step] at taken
    cases loads : codec.loadBuffer revision.data with
    | none =>
      simp only [loads, changeToRevision, Option.some.injEq] at taken
      rw [← taken]
      exact ⟨complete, parts, same, ⟨[], rfl⟩, fun _ tidy => tidy⟩
    | some doc =>
      simp only [loads] at taken
      split at taken
      · rename_i stored
        cases taken
        have loaded := loaded_children stored.1 parts
        have whole : Complete (doc ++ flow.dropWhile fun child => !child.isRevision) := by
          intro tag single
          obtain ⟨element, member, here⟩ := stored.2 tag single
          exact ⟨element, by rw [contents_append]; exact List.mem_append_left _ member, here⟩
        rw [same] at loaded
        have edits : Edits True (doc ++ flow.dropWhile fun child => !child.isRevision)
            (changeToRevision codec revision flow).2 := by
          rw [changeToRevision, loads]
          exact (edits_putFirst _ _).trans (edits_putFirst _ _)
        obtain ⟨after, same', kept, tidy⟩ := edits.together _ loaded
        exact ⟨edits.complete whole, after, same', ⟨[], kept⟩, fun _ => tidy trivial⟩
      · cases taken

/-- What a run keeps of the snapshots it starts with. -/
structure Kept (stored : List (Revision Xml)) (flow : GebrGeoXmlFlow Xml β) : Prop where
  complete : Complete flow
  together : ∃ parts : Parts Xml β, parts.children = flow ∧ ∃ newer, parts.revisions = newer ++ stored

theorem run_keeps {stored : List (Revision Xml)} {events : List (Event Xml β)}
    (kept : Kept stored flow) (reaches : run (step codec bodies) flow events = some next) :
    Kept stored next := by
  refine Gebr.Lib.Run.run_invariant ?_ kept reaches
  rintro flow event next ⟨complete, parts, same, newer, front⟩ taken
  obtain ⟨complete', after, same', ⟨newest, added⟩, -⟩ := step_keeps taken parts same complete
  exact ⟨complete', after, same', newest ++ newer, by rw [added, front, List.append_assoc]⟩

/-- **Nothing gets behind the snapshots** but by a paste or a clone. -/
theorem calm_behind {events : List (Event Xml β)} (parts : Parts Xml β)
    (complete : Complete parts.children) (tidy : parts.behind = [])
    (calm : ∀ event ∈ events, event.isCalm = true)
    (reaches : run (step codec bodies) parts.children events = some next) : behind next = [] := by
  induction events generalizing parts with
  | nil =>
    cases reaches
    rw [parts.behind_children, tidy]
  | cons event events ih =>
    obtain ⟨middle, taken, rest⟩ := Option.bind_eq_some_iff.1 reaches
    obtain ⟨complete', after, rfl, -, clear⟩ := step_keeps taken parts rfl complete
    exact ih after complete' (clear (calm event List.mem_cons_self) tidy)
      (fun later member => calm later (List.mem_cons_of_mem event member)) rest

end Step

section Values

variable {flow rest : GebrGeoXmlFlow Xml β} {tag other : Tag} {value : Text}

/-- An element with the tag that is not the first one is further on. -/
theorem found_of_cons {element : Element β} (differ : ¬ element.tag = tag)
    (found : ∃ other ∈ contents (Child.content element :: flow), other.tag = tag) :
    ∃ other ∈ contents flow, other.tag = tag := by
  obtain ⟨other, member, here⟩ := found
  rcases List.mem_cons.1 member with rfl | later
  · exact absurd here differ
  · exact ⟨other, later, here⟩

/-- The first element with the tag is looked for no further than it is found. -/
theorem putFirst_append (found : ∃ element ∈ contents flow, element.tag = tag) :
    putFirst tag value (flow ++ rest) = putFirst tag value flow ++ rest := by
  induction flow with
  | nil =>
    obtain ⟨element, member, -⟩ := found
    cases member
  | cons child flow ih =>
    cases child with
    | content element =>
      by_cases same : element.tag = tag
      · simp [putFirst, onFirst, same]
      · have later := ih (found_of_cons same found)
        unfold putFirst at later
        simp [putFirst, onFirst, same, later]
    | revision revision =>
      have later := ih found
      unfold putFirst at later
      simp [putFirst, onFirst, later]

theorem getFirst_content (element : Element β) (flow : GebrGeoXmlFlow Xml β) :
    getFirst tag (.content element :: flow) =
      if element.tag = tag then some element.value else getFirst tag flow := by
  unfold getFirst
  rw [show contents (Child.content element :: flow) = element :: contents flow from rfl,
    List.find?_cons]
  by_cases same : element.tag = tag <;> simp [same]

theorem getFirst_revision (revision : Revision Xml) (flow : GebrGeoXmlFlow Xml β) :
    getFirst tag (.revision revision :: flow) = getFirst tag flow := rfl

theorem getFirst_putFirst (apart : tag ≠ other) :
    getFirst tag (putFirst other value flow) = getFirst tag flow := by
  induction flow with
  | nil => rfl
  | cons child flow ih =>
    unfold putFirst at ih
    cases child with
    | content element =>
      by_cases same : element.tag = other
      · have differ : element.tag ≠ tag := fun this => apart (this.symm.trans same)
        simp [putFirst, onFirst, getFirst_content, same, Ne.symm apart]
      · simp [putFirst, onFirst, getFirst_content, same, ih]
    | revision revision => simp [putFirst, onFirst, getFirst_revision, ih]

theorem getFirst_putFirst_self (found : ∃ element ∈ contents flow, element.tag = tag) :
    getFirst tag (putFirst tag value flow) = some value := by
  induction flow with
  | nil =>
    obtain ⟨element, member, -⟩ := found
    cases member
  | cons child flow ih =>
    unfold putFirst at ih
    cases child with
    | content element =>
      by_cases same : element.tag = tag
      · simp [putFirst, onFirst, getFirst_content, same]
      · simp [putFirst, onFirst, getFirst_content, same, ih (found_of_cons same found)]
    | revision revision => simp [putFirst, onFirst, getFirst_revision, ih found]

theorem putFirst_self (here : getFirst tag flow = some value) : putFirst tag value flow = flow := by
  induction flow with
  | nil => rfl
  | cons child flow ih =>
    unfold putFirst at ih
    cases child with
    | content element =>
      rw [getFirst_content] at here
      by_cases same : element.tag = tag
      · rw [if_pos same] at here
        cases here
        rw [putFirst, onFirst, if_pos same]
      · rw [if_neg same] at here
        simp [putFirst, onFirst, same, ih here]
    | revision revision =>
      rw [getFirst_revision] at here
      simp [putFirst, onFirst, ih here]

theorem revisions_putFirst : revisions (putFirst tag value flow) = revisions flow := by
  induction flow with
  | nil => rfl
  | cons child flow ih =>
    cases child with
    | content element =>
      by_cases same : element.tag = tag
      · rw [putFirst, onFirst, if_pos same]
        rfl
      · rw [putFirst, onFirst, if_neg same]
        exact ih
    | revision revision => exact congrArg (revision :: ·) ih

theorem length_putFirst : (putFirst tag value flow).length = flow.length := by
  rcases onFirst_cases tag (fun element => { element with value := value }) flow with
    same | ⟨place, element, -, set⟩
  · exact congrArg List.length same
  · exact (congrArg List.length set).trans List.length_set

theorem getFirst_of_mem (found : ∃ element ∈ contents flow, element.tag = tag) :
    getFirst tag flow = some (getDocumentProperty tag flow) := by
  obtain ⟨element, member, here⟩ := found
  unfold getDocumentProperty getFirst
  have some : ((contents flow).find? fun element => element.tag = tag).isSome = true :=
    List.find?_isSome.2 ⟨element, member, decide_eq_true here⟩
  obtain ⟨first, is⟩ := Option.isSome_iff_exists.1 some
  rw [is]
  rfl

theorem getFirst_of_contents {second : GebrGeoXmlFlow Xml β} (same : contents flow = contents second) :
    getFirst tag flow = getFirst tag second := by rw [getFirst, getFirst, same]

theorem removeLineBreak_eq_self : removeLineBreak value = value ↔ 10 ∉ value := by
  unfold removeLineBreak
  rw [List.filter_eq_self]
  constructor
  · intro all member
    exact absurd rfl (of_decide_eq_true (all 10 member))
  · intro clean b member
    exact decide_eq_true fun same => clean (same ▸ member)

theorem removeLineBreak_id (sec usec : ℕ) : removeLineBreak (gebrCreateIdWithCurrentTime sec usec) =
    gebrCreateIdWithCurrentTime sec usec := by
  rw [removeLineBreak_eq_self, gebrCreateIdWithCurrentTime, List.mem_append]
  rintro (member | member)
  · exact absurd (Gebr.Lib.CString.isDigit_of_mem_decimal member) (by decide)
  · exact absurd (Gebr.Lib.CString.isDigit_of_mem_decimal member) (by decide)

end Values

section Restore

variable {codec : FlowCodec Xml β} {bodies : Bodies β}

/-- The flow that the way back to a snapshot is to give: the content it was taken of, with the
snapshot as its parent, and all snapshots behind it. -/
def restored (content : List (Element β)) (id : Text) (stored : List (Revision Xml)) :
    GebrGeoXmlFlow Xml β :=
  putFirst .parent id (content.map .content) ++ stored.map .revision

theorem removeRevisions_children (parts : Parts Xml β) :
    removeRevisions parts.children = (parts.front ++ parts.behind).map .content := by
  have clear : ((parts.revisions.map Child.revision ++ parts.behind.map Child.content :
      GebrGeoXmlFlow Xml β).dropWhile Child.isRevision) = parts.behind.map .content := by
    rw [List.dropWhile_append_of_pos fun child member => ?_]
    · cases parts.behind <;> rfl
    · obtain ⟨revision, -, rfl⟩ := List.mem_map.1 member
      rfl
  rw [removeRevisions, parts.takeWhile_children, parts.dropWhile_children, clear, List.map_append]

/-- What the way back leaves when the flow loads. -/
theorem changeToRevision_children {revision : Revision Xml} {content : List (Element β)}
    (loads : codec.loadBuffer revision.data = some (content.map .content))
    (complete : Complete (content.map Child.content : GebrGeoXmlFlow Xml β)) (parts : Parts Xml β) :
    changeToRevision codec revision parts.children =
      (true, putFirst .parent (removeLineBreak revision.id) (putFirst .help (removeLineBreak
          (getDocumentProperty .help (content.map Child.content : GebrGeoXmlFlow Xml β)))
          (content.map .content)) ++
        (parts.revisions.map .revision ++ parts.behind.map .content)) := by
  have parent : ∀ value : Text, ∃ element ∈ contents (putFirst .help value
      (content.map Child.content : GebrGeoXmlFlow Xml β)), element.tag = Tag.parent :=
    fun value => (@edits_putFirst _ _ True _ .help value).complete complete .parent rfl
  rw [changeToRevision, loads]
  dsimp only
  rw [parts.dropWhile_children, setDocumentSimpleProperty, setDocumentSimpleProperty,
    putFirst_append (complete .help rfl), putFirst_append (parent _)]

/-- What has to be so for the two to be the same. -/
theorem restored_iff {content : List (Element β)} {help id : Text} {stored : List (Revision Xml)}
    {behind : List (Element β)}
    (complete : Complete (content.map Child.content : GebrGeoXmlFlow Xml β)) :
    putFirst .parent id (putFirst .help help (content.map .content)) ++
        (stored.map .revision ++ behind.map .content) = restored content id stored ↔
      behind = [] ∧ help = getDocumentProperty .help
      (content.map .content : GebrGeoXmlFlow Xml β) := by
  unfold restored
  constructor
  · intro same
    have lengths := congrArg List.length same
    simp only [List.length_append, List.length_map, length_putFirst] at lengths
    have clear : behind = [] := List.eq_nil_of_length_eq_zero (by omega)
    rw [clear, List.map_nil, List.append_nil] at same
    refine ⟨clear, ?_⟩
    have helps := congrArg (getFirst .help) (List.append_cancel_right same)
    have apart : Tag.help ≠ Tag.parent := by decide
    rw [getFirst_putFirst apart, getFirst_putFirst apart, getFirst_putFirst_self (complete .help rfl),
      getFirst_of_mem (complete .help rfl)] at helps
    exact Option.some.inj helps
  · rintro ⟨rfl, rfl⟩
    rw [List.map_nil, List.append_nil, putFirst_self (getFirst_of_mem (complete .help rfl))]

/-- **A snapshot is restored** after any events iff nothing stands behind the snapshots then and the
help that it keeps has no line break. It is there, before the older ones; the way back changes no
snapshot, and does nothing when a flow does not load. -/
theorem restore_iff (start : Parts Xml β) (complete : Complete start.children)
    {before after : GebrGeoXmlFlow Xml β} {earlier later : List (Event Xml β)}
    (date : Text) (sec usec : ℕ) (comment : Text)
    (reaches : run (step codec bodies) start.children earlier = some before)
    (goes : run (step codec bodies) (appendRevision codec date sec usec comment before) later =
      some after) :
    let snapshot := newRevision codec date sec usec comment before
    (∃ newer, revisions after = newer ++ snapshot :: revisions before) ∧
      (changeToRevision codec snapshot after).1 = true ∧
      revisions (changeToRevision codec snapshot after).2 = revisions after ∧
      ((changeToRevision codec snapshot after).2 =
          restored (contents before) snapshot.id (revisions after) ↔
        behind after = [] ∧ 10 ∉ getDocumentProperty .help before) ∧
      ∀ revision, codec.loadBuffer revision.data = none →
        changeToRevision codec revision after = (false, after) := by
  intro snapshot
  have same : removeLineBreak snapshot.id = snapshot.id := removeLineBreak_id sec usec
  obtain ⟨complete', parts, rfl, -⟩ : Kept start.revisions before :=
    run_keeps ⟨complete, start, rfl, [], rfl⟩ reaches
  obtain ⟨taken, taken_same, taken_revisions, front, back⟩ :=
    appendRevision_children codec date sec usec comment parts
  have complete'' : Complete taken.children := by
    intro tag single
    rw [taken.contents_children, front, back, ← parts.contents_children]
    exact complete' tag single
  rw [← taken_same] at goes
  obtain ⟨-, last, rfl, newer, kept⟩ : Kept taken.revisions after :=
    run_keeps ⟨complete'', taken, rfl, [], rfl⟩ goes
  -- The stored text is the content of the flow, and loads as such.
  have content : removeRevisions parts.children = (contents parts.children).map .content := by
    rw [removeRevisions_children, parts.contents_children]
  have loads : codec.loadBuffer snapshot.data = some ((contents parts.children).map .content) := by
    rw [← content]
    exact codec.load_toString _
  have whole : Complete ((contents parts.children).map Child.content : GebrGeoXmlFlow Xml β) := by
    intro tag single
    rw [contents_content]
    exact complete' tag single
  have back := changeToRevision_children loads whole last
  rw [same] at back
  refine ⟨⟨newer, ?_⟩, by rw [back], ?_, ?_, ?_⟩
  · rw [last.revisions_children, kept, taken_revisions, parts.revisions_children]
  · rw [back, revisions_append, revisions_putFirst, revisions_putFirst, revisions_content,
      revisions_append, revisions_revision, revisions_content, last.revisions_children,
        List.nil_append,
      List.append_nil]
  · have help : getDocumentProperty .help parts.children =
        getDocumentProperty .help
            ((contents parts.children).map Child.content : GebrGeoXmlFlow Xml β) := by
      rw [getDocumentProperty, getDocumentProperty, getFirst_of_contents (contents_content _).symm]
    rw [back, last.revisions_children, last.behind_children, restored_iff whole, help,
      removeLineBreak_eq_self]
  · intro revision broken
    rw [changeToRevision, broken]

end Restore

section Example

/-- Stored flows as they are, for runs on small flows. -/
inductive Stored where
  | flow (children : List (Child Stored GebrGeoXmlProgramControl))

def storedCodec : FlowCodec Stored GebrGeoXmlProgramControl where
  loadBuffer := fun
    | .flow children => some children
  toString := .flow
  load_toString := fun _ => rfl

def smallBodies : Bodies GebrGeoXmlProgramControl where
  control := id
  disabled := fun _ => false
  newProgram := .ordinary
  newCategory := .unknown
  insertIter := id

/-- A flow without programs. -/
def smallFlow : Parts Stored GebrGeoXmlProgramControl :=
  .ofContents ([Tag.title, .description, .help, .author, .email, .dict, .parent, .date, .server].map
    fun tag => ⟨tag, [], .unknown⟩)

theorem complete_smallFlow : Complete smallFlow.children := by decide

/-- A program that is added after the snapshot goes, when nothing was pasted. -/
theorem restore_iff_smallFlow : ∃ after : GebrGeoXmlFlow Stored GebrGeoXmlProgramControl,
    run (step storedCodec smallBodies) (appendRevision storedCodec [] 1 2 [] smallFlow.children)
        [.appendProgram] = some after ∧
      (changeToRevision storedCodec (newRevision storedCodec [] 1 2 [] smallFlow.children) after).2 =
        restored (contents smallFlow.children)
          (newRevision storedCodec [] 1 2 [] smallFlow.children).id (revisions after) := by
  have reaches : run (step storedCodec smallBodies) smallFlow.children [] =
      some smallFlow.children := rfl
  have goes : run (step storedCodec smallBodies)
      (appendRevision storedCodec [] 1 2 [] smallFlow.children) [.appendProgram] =
        some (appendProgram smallBodies
          (appendRevision storedCodec [] 1 2 [] smallFlow.children)) := rfl
  exact ⟨_, goes, (restore_iff smallFlow complete_smallFlow [] 1 2 [] reaches goes).2.2.2.1.2
    ⟨by decide, by decide⟩⟩

/-- **A pasted program stays**: it was put behind the snapshots, and is in the flow still when the
snapshot without it is restored. -/
theorem paste_stays : ∃ after : GebrGeoXmlFlow Stored GebrGeoXmlProgramControl,
    run (step storedCodec smallBodies) (appendRevision storedCodec [] 1 2 [] smallFlow.children)
        [.paste [.ordinary]] = some after ∧
      (contents smallFlow.children).all (fun element => element.tag ≠ .program) = true ∧
      (contents (changeToRevision storedCodec
        (newRevision storedCodec [] 1 2 [] smallFlow.children) after).2).any
          (fun element => element.tag = .program) = true ∧
      (changeToRevision storedCodec (newRevision storedCodec [] 1 2 [] smallFlow.children) after).2 ≠
        restored (contents smallFlow.children)
          (newRevision storedCodec [] 1 2 [] smallFlow.children).id (revisions after) :=
  ⟨_, rfl, by decide, by decide, fun same => absurd (congrArg List.length same) (by decide)⟩

end Example

end Gebr.Flow.Restore
