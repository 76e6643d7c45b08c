/-
**When a merged dictionary is split as a whole.**

The number of separators is not known to fit the documents before the walk over the sequence, and
`set_dict_keyword` takes three types only.

* `sections`: what stands behind each separator.
* `SplitsAll`: the sections are moved to their documents. `Untouched`: nothing has changed.
* `splitLoop_enough`, `splitLoop_short`: the walk, with a document for each separator or with too
  few.
* `splitsAtomically_iff` — **when one of the two holds**: there are documents enough, and each
  parameter of a section can be moved.
* `split_short`: with too few documents, a section is in the flow and in a document.
-/

import Gebr.Geoxml.DictSplit

namespace Gebr.Geoxml

open Gebr.Lib.CString (ascii)

section Statement

/-- The parameters behind each separator, up to the next one. -/
def sections : List GebrGeoXmlParameter → List (List GebrGeoXmlParameter)
  | [] => []
  | param :: params =>
    if param.type = .group then params.takeWhile (fun other => other.type ≠ .group) :: sections params
    else sections params

/-- The entries of a document. -/
def GebrGeoXmlDocument.entries (doc : GebrGeoXmlDocument) :
    List (GebrGeoXmlParameterType × Option Text × Option Text × Text) :=
  doc.dict.map GebrGeoXmlParameter.entry

/-- The entries of the documents, with a section for each as long as there are some. -/
def filled : List GebrGeoXmlDocument → List (List GebrGeoXmlParameter) →
    List (List (GebrGeoXmlParameterType × Option Text × Option Text × Text))
  | docs, [] => docs.map GebrGeoXmlDocument.entries
  | [], _ :: _ => []
  | doc :: docs, moved :: rest =>
    (doc.entries ++ moved.map GebrGeoXmlParameter.entry) :: filled docs rest

variable (first : GebrGeoXmlDocument) (docs : List GebrGeoXmlDocument)
  (result : Bool × GebrGeoXmlDocument × List GebrGeoXmlDocument)

/-- **Success**: the flow has its own parameters, and each document has got its section. -/
structure SplitsAll : Prop where
  retval : result.1 = true
  enough : (sections first.dict).length ≤ docs.length
  flow : result.2.1.dict = first.dict.takeWhile fun param => param.type ≠ .group
  docs : result.2.2.map GebrGeoXmlDocument.entries = filled docs (sections first.dict)

/-- **Failure**: the flow and the documents are as they were. -/
structure Untouched : Prop where
  retval : result.1 = false
  flow : result.2.1 = first
  docs : result.2.2 = docs

/-- All or nothing. -/
def SplitsAtomically : Prop :=
  SplitsAll first docs (gebrGeoxmlDocumentSplitDict first docs) ∨
    Untouched first docs (gebrGeoxmlDocumentSplitDict first docs)

/-- A parameter that `set_dict_keyword` takes. -/
def GebrGeoXmlParameter.isMovable (param : GebrGeoXmlParameter) : Bool :=
  param.isDictType && param.property.isSome

end Statement

section Loop

variable {param : GebrGeoXmlParameter} {params : List GebrGeoXmlParameter} {state : SplitState}

/-- What is moved shows the same entry; another parameter is lost. -/
theorem entries_setDictKeyword (doc : GebrGeoXmlDocument) (param : GebrGeoXmlParameter) :
    (gebrGeoxmlDocumentSetDictKeyword doc param.type param.getKeyword param.getFirstValue
        fun copy => copy.setLabel param.getLabel).entries =
      doc.entries ++ ([param].filter GebrGeoXmlParameter.isMovable).map GebrGeoXmlParameter.entry := by
  by_cases movable : param.isMovable = true
  · have parts := movable
    rw [GebrGeoXmlParameter.isMovable, Bool.and_eq_true] at parts
    have typed : param.type = .string ∨ param.type = .float ∨ param.type = .int :=
      of_decide_eq_true parts.1
    have program : param.IsProgram := by
      refine ⟨?_, ?_, parts.2⟩ <;> rcases typed with same | same | same <;> rw [same] <;> decide
    rw [setDictKeyword_eq program, List.filter_cons_of_pos parts.1, List.filter_cons_of_pos movable,
      GebrGeoXmlDocument.entries, List.map_append]
    exact congrArg (doc.entries ++ [·]) (entry_unmerged program)
  · rw [List.filter_cons_of_neg movable, List.filter_nil, List.map_nil, List.append_nil]
    unfold gebrGeoxmlDocumentSetDictKeyword
    split_ifs with keyword value typed
    · rfl
    · rfl
    · -- Of a type that is taken, but without a property there is no keyword.
      refine absurd ?_ movable
      rw [GebrGeoXmlParameter.isMovable, Bool.and_eq_true]
      refine ⟨decide_eq_true typed, ?_⟩
      cases has : param.property with
      | some property => rfl
      | none => exact absurd (by rw [GebrGeoXmlParameter.getKeyword, has]; rfl) keyword
    · rfl

/-- The sections, without what cannot be moved. -/
def movableSections (params : List GebrGeoXmlParameter) : List (List GebrGeoXmlParameter) :=
  (sections params).map fun moved => moved.filter GebrGeoXmlParameter.isMovable

theorem sections_separator (group : param.type = .group) :
    sections (param :: params) =
      params.takeWhile (fun other => other.type ≠ .group) :: sections params := if_pos group

theorem sections_other (other : ¬ param.type = .group) :
    sections (param :: params) = sections params := if_neg other

theorem takeWhile_separator (group : param.type = .group) :
    (param :: params).takeWhile (fun other => other.type ≠ .group) = [] :=
  List.takeWhile_cons_of_neg (by simpa using group)

theorem takeWhile_other (other : ¬ param.type = .group) :
    (param :: params).takeWhile (fun other => other.type ≠ .group) =
      param :: params.takeWhile fun other => other.type ≠ .group :=
  List.takeWhile_cons_of_pos (by simpa using other)

/-- Where the first separator is. -/
def firstSeparator (index : ℕ) (params : List GebrGeoXmlParameter) : Option ℕ :=
  if sections params = [] then none
  else some (index + (params.takeWhile fun param => param.type ≠ .group).length)

theorem firstSeparator_other (index : ℕ) (other : ¬ param.type = .group) :
    firstSeparator index (param :: params) = firstSeparator (index + 1) params := by
  rw [firstSeparator, firstSeparator, sections_other other, takeWhile_other other, List.length_cons,
    Nat.add_right_comm, Nat.add_assoc]

/-- What the document at hand has got at the end. -/
def handed (doc : Option GebrGeoXmlDocument) (params : List GebrGeoXmlParameter) :
    List (List (GebrGeoXmlParameterType × Option Text × Option Text × Text)) :=
  doc.toList.map fun doc => doc.entries ++
    ((params.takeWhile fun param => param.type ≠ .group).filter
      GebrGeoXmlParameter.isMovable).map GebrGeoXmlParameter.entry

/-- **The walk with a document for each separator.** -/
theorem splitLoop_enough (index : ℕ) (enough : (sections params).length ≤ state.todo.length) :
    let result := splitLoop index params state
    result.1 = true ∧ result.2.clean = (state.clean <|> firstSeparator index params) ∧
      result.2.docs.map GebrGeoXmlDocument.entries =
        state.past.map GebrGeoXmlDocument.entries ++ handed state.doc params ++
          filled state.todo (movableSections params) := by
  induction params generalizing index state with
  | nil =>
    refine ⟨rfl, ?_, ?_⟩
    · cases given : state.clean <;> simp [splitLoop, firstSeparator, sections, given]
    · simp [splitLoop, SplitState.docs, handed, movableSections, sections, filled]
  | cons param params ih =>
    by_cases group : param.type = .group
    · rw [sections_separator group, List.length_cons] at enough
      obtain ⟨next, todo, given⟩ := List.exists_cons_of_length_pos
        (show 0 < state.todo.length by omega)
      rw [splitLoop, if_pos group, given]
      rw [given, List.length_cons] at enough
      obtain ⟨retval, clean, docs⟩ := @ih
        { past := state.past ++ state.doc.toList, doc := some next, todo,
          clean := state.clean <|> some index } (index + 1) (by simpa using enough)
      refine ⟨retval, ?_, ?_⟩
      · rw [clean, firstSeparator, firstSeparator, sections_separator group, takeWhile_separator group]
        cases state.clean <;> rfl
      · rw [docs, movableSections, movableSections, sections_separator group, List.map_cons, filled,
          handed, handed, takeWhile_separator group, List.map_append]
        simp
    · rw [sections_other group] at enough
      rw [splitLoop, if_neg group, firstSeparator_other index group, movableSections,
        sections_other group, ← movableSections]
      cases none : state.doc with
      | none =>
        obtain ⟨retval, clean, docs⟩ := ih (index + 1) enough
        refine ⟨retval, clean, ?_⟩
        rw [docs, handed, handed, none]
        rfl
      | some doc =>
        obtain ⟨retval, clean, docs⟩ := @ih { state with
          doc := some (gebrGeoxmlDocumentSetDictKeyword doc param.type param.getKeyword
            param.getFirstValue fun copy => copy.setLabel param.getLabel) } (index + 1) enough
        refine ⟨retval, clean, ?_⟩
        have one : (param :: params.takeWhile fun other => other.type ≠ .group) =
            [param] ++ params.takeWhile fun other => other.type ≠ .group := rfl
        rw [docs, handed, handed, takeWhile_other group, one, List.filter_append, List.map_append]
        simp only [Option.toList_some, List.map_cons, List.map_nil, entries_setDictKeyword,
          List.append_assoc]

/-- **The walk with too few documents** fails, at one of the separators. -/
theorem splitLoop_short (index : ℕ) (short : state.todo.length < (sections params).length) :
    let result := splitLoop index params state
    result.1 = false ∧ ∃ j ∈ result.2.clean, j < index + params.length := by
  induction params generalizing index state with
  | nil => exact absurd short (Nat.not_lt_zero _)
  | cons param params ih =>
    by_cases group : param.type = .group
    · rw [splitLoop, if_pos group]
      rw [sections_separator group, List.length_cons] at short
      cases given : state.todo with
      | nil => exact ⟨rfl, index, rfl, Nat.lt_add_of_pos_right (Nat.succ_pos _)⟩
      | cons next todo =>
        rw [given, List.length_cons] at short
        obtain ⟨retval, j, clean, before⟩ := @ih
          { past := state.past ++ state.doc.toList, doc := some next, todo,
            clean := state.clean <|> some index } (index + 1) (by simpa using short)
        exact ⟨retval, j, clean, by rw [List.length_cons]; omega⟩
    · rw [sections_other group] at short
      rw [splitLoop, if_neg group]
      cases state.doc with
      | none =>
        obtain ⟨retval, j, clean, before⟩ := ih (index + 1) short
        exact ⟨retval, j, clean, by rw [List.length_cons]; omega⟩
      | some doc =>
        obtain ⟨retval, j, clean, before⟩ := @ih { state with
          doc := some (gebrGeoxmlDocumentSetDictKeyword doc param.type param.getKeyword
            param.getFirstValue fun copy => copy.setLabel param.getLabel) } (index + 1) short
        exact ⟨retval, j, clean, by rw [List.length_cons]; omega⟩

end Loop

section Atomic

variable {first : GebrGeoXmlDocument} {docs : List GebrGeoXmlDocument}

/-- The start of the walk. -/
def splitStart (docs : List GebrGeoXmlDocument) : SplitState :=
  { past := [], doc := none, todo := docs, clean := none }

theorem splitDict_eq (first : GebrGeoXmlDocument) (docs : List GebrGeoXmlDocument) :
    gebrGeoxmlDocumentSplitDict first docs =
      let result := splitLoop 0 first.dict (splitStart docs)
      (result.1, { dict := match result.2.clean with
        | none => first.dict
        | some index => first.dict.take index }, result.2.docs) := rfl

theorem takeWhile_of_no_sections {params : List GebrGeoXmlParameter} (none : sections params = []) :
    params.takeWhile (fun param => param.type ≠ .group) = params := by
  induction params with
  | nil => rfl
  | cons param params ih =>
    by_cases group : param.type = .group
    · rw [sections_separator group] at none
      cases none
    · rw [sections_other group] at none
      rw [takeWhile_other group, ih none]

/-- **The split with documents enough** succeeds; what cannot be moved is lost. -/
theorem splitDict_enough (enough : (sections first.dict).length ≤ docs.length) :
    let result := gebrGeoxmlDocumentSplitDict first docs
    result.1 = true ∧ result.2.1.dict = first.dict.takeWhile (fun param => param.type ≠ .group) ∧
      result.2.2.map GebrGeoXmlDocument.entries = filled docs (movableSections first.dict) := by
  obtain ⟨retval, clean, moved⟩ := @splitLoop_enough first.dict (splitStart docs) 0 enough
  rw [splitDict_eq]
  refine ⟨retval, ?_, moved⟩
  dsimp only
  rw [clean, firstSeparator, Nat.zero_add]
  split_ifs with none
  · exact (takeWhile_of_no_sections none).symm
  · exact (List.prefix_iff_eq_take.1 (List.takeWhile_prefix _)).symm

/-- **The split with too few documents** fails, and the flow loses the separator where it does. -/
theorem splitDict_short (short : docs.length < (sections first.dict).length) :
    let result := gebrGeoxmlDocumentSplitDict first docs
    result.1 = false ∧ result.2.1.dict.length < first.dict.length := by
  obtain ⟨retval, j, clean, before⟩ := @splitLoop_short first.dict (splitStart docs) 0 short
  rw [splitDict_eq]
  refine ⟨retval, ?_⟩
  dsimp only
  rw [Option.mem_def.1 clean, List.length_take]
  omega

/-- All of the sections are filled in iff all of them can be moved. -/
theorem filled_eq_iff {parts : List (List GebrGeoXmlParameter)} (enough : parts.length ≤ docs.length) :
    filled docs (parts.map fun moved => moved.filter GebrGeoXmlParameter.isMovable) =
      filled docs parts ↔ ∀ moved ∈ parts, ∀ param ∈ moved, param.isMovable = true := by
  induction parts generalizing docs with
  | nil => simp
  | cons moved parts ih =>
    cases docs with
    | nil => exact absurd enough (Nat.not_succ_le_zero _)
    | cons doc docs =>
      rw [List.map_cons, filled, filled, List.cons.injEq, List.append_cancel_left_eq,
        ih (Nat.le_of_succ_le_succ enough), List.forall_mem_cons]
      refine and_congr_left' ⟨fun same param member => ?_, fun all => ?_⟩
      · have length := congrArg List.length same
        rw [List.length_map, List.length_map] at length
        exact List.length_filter_eq_length_iff.1 length param member
      · rw [List.filter_eq_self.2 all]

/-- **When a split is all or nothing**: there is a document for each separator, and each parameter
behind a separator is of a type that can be moved. -/
theorem splitsAtomically_iff (first : GebrGeoXmlDocument) (docs : List GebrGeoXmlDocument) :
    SplitsAtomically first docs ↔ (sections first.dict).length ≤ docs.length ∧
      ∀ moved ∈ sections first.dict, ∀ param ∈ moved, param.isMovable = true := by
  by_cases enough : (sections first.dict).length ≤ docs.length
  · obtain ⟨retval, flow, moved⟩ := splitDict_enough enough
    rw [← filled_eq_iff enough]
    constructor
    · rintro (all | nothing)
      · exact ⟨enough, moved.symm.trans all.docs⟩
      · exact absurd (retval.symm.trans nothing.retval) Bool.false_ne_true.symm
    · rintro ⟨-, same⟩
      exact .inl ⟨retval, enough, flow, moved.trans same⟩
  · obtain ⟨retval, shorter⟩ := splitDict_short (Nat.lt_of_not_le enough)
    refine iff_of_false ?_ fun both => enough both.1
    rintro (all | nothing)
    · exact enough all.enough
    · rw [nothing.flow] at shorter
      exact lt_irrefl _ shorter

/-- **Two separators and one document**: the split fails, the flow keeps a part of the sections, and
the document has got a copy of it. -/
theorem split_short :
    let flow : GebrGeoXmlDocument := ⟨[separator, dictVariable .int "a" "1", separator]⟩
    let result := gebrGeoxmlDocumentSplitDict flow [⟨[]⟩]
    result.1 = false ∧ result.2.1 = ⟨[separator, dictVariable .int "a" "1"]⟩ ∧
      result.2.2.map GebrGeoXmlDocument.entries = [[(dictVariable .int "a" "1").entry]] ∧
      ¬ SplitsAtomically flow [⟨[]⟩] := by
  refine ⟨by decide +kernel, by decide +kernel, rfl, ?_⟩
  rintro (all | nothing)
  · exact absurd all.retval (by decide +kernel)
  · exact absurd nothing.flow (by decide +kernel)

end Atomic

end Gebr.Geoxml
