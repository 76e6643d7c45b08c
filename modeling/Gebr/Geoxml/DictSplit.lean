/-
**The dictionaries of a flow, its line and its project in one sequence, and apart again.**

A client sends one document to the servers: the flow, whose dictionary also holds those of the line
and of the project, each after a parameter of type GROUP. The daemon takes it apart.

* `gebrGeoxmlDocumentMergeDicts`, `gebrGeoxmlDocumentSplitDict`: the two walks over the sequence.
* `splitLoop_section`: one section of the merged dictionary, split into its document.
* `splitDict_mergeDicts` — **what comes back**, for any number of documents: the entries that the
  validator accepts and that `set_dict_keyword` has a type for.
* `splitDict_mergeDicts_line_project` — **the round trip** of entries of type string, real number
  and integer; an entry of another type does not come back (`splitDict_mergeDicts_file`).
-/

import Mathlib.Data.List.Induction
import Gebr.Lib.CString

namespace Gebr.Geoxml

open Gebr.Lib.CString (ascii)

/-- A text of the document, in UTF-8. -/
abbrev Text : Type := List UInt8

/-- `GebrGeoXmlParameterType`, without UNKNOWN, which is the type of no parameter of a document. -/
inductive GebrGeoXmlParameterType
  | string
  | int
  | file
  | flag
  | float
  | range
  | enum
  | group
  | reference
  deriving DecidableEq, Repr

/-- The property of a program parameter. -/
structure Property where
  keyword : Text
  /-- The first value. -/
  value : Text
  required : Bool
  deriving DecidableEq

/-- A parameter of a dictionary. A parameter of type GROUP has no property. -/
structure GebrGeoXmlParameter where
  type : GebrGeoXmlParameterType
  label : Text
  property : Option Property
  deriving DecidableEq

/-- The dictionary is what is modelled of a document. -/
structure GebrGeoXmlDocument where
  dict : List GebrGeoXmlParameter
  deriving DecidableEq

section Parameter

/-- `__gebr_geoxml_remove_line_break`. -/
def gebrGeoxmlRemoveLineBreak (text : Text) : Text := text.filter (· ≠ 10)

/-- `gebr_geoxml_program_parameter_get_keyword`, of a parameter that is no reference. -/
def GebrGeoXmlParameter.getKeyword (param : GebrGeoXmlParameter) : Option Text :=
  param.property.map fun property => gebrGeoxmlRemoveLineBreak property.keyword

def GebrGeoXmlParameter.getFirstValue (param : GebrGeoXmlParameter) : Option Text :=
  param.property.map fun property => gebrGeoxmlRemoveLineBreak property.value

def GebrGeoXmlParameter.getLabel (param : GebrGeoXmlParameter) : Text :=
  gebrGeoxmlRemoveLineBreak param.label

/-- A null keyword is not set. -/
def GebrGeoXmlParameter.setKeyword (param : GebrGeoXmlParameter) : Option Text → GebrGeoXmlParameter
  | none => param
  | some keyword => { param with
      property := param.property.map fun property =>
        { property with keyword := gebrGeoxmlRemoveLineBreak keyword } }

/-- A null value is not set. -/
def GebrGeoXmlParameter.setFirstValue (param : GebrGeoXmlParameter) :
    Option Text → GebrGeoXmlParameter
  | none => param
  | some value => { param with
      property := param.property.map fun property =>
        { property with value := gebrGeoxmlRemoveLineBreak value } }

def GebrGeoXmlParameter.setLabel (param : GebrGeoXmlParameter) (label : Text) : GebrGeoXmlParameter :=
  { param with label := gebrGeoxmlRemoveLineBreak label }

/-- A flag has no such attribute. -/
def GebrGeoXmlParameter.setRequired (param : GebrGeoXmlParameter) (required : Bool) :
    GebrGeoXmlParameter :=
  if param.type = .flag then param
  else { param with property := param.property.map fun property => { property with required } }

/-- `__gebr_geoxml_parameter_insert_type`. -/
def gebrGeoxmlParameterInsertType (type : GebrGeoXmlParameterType) : Option Property :=
  match type with
  | .group => none
  | .flag => some { keyword := [], value := ascii "off", required := false }
  | _ => some { keyword := [], value := [], required := false }

/-- `gebr_geoxml_parameters_append_parameter` on the parameters of a dictionary, which are in no
group; `paste` is what the caller does with the new parameter. A reference is refused. -/
def gebrGeoxmlParametersAppendParameter (parameters : List GebrGeoXmlParameter)
    (type : GebrGeoXmlParameterType) (paste : GebrGeoXmlParameter → GebrGeoXmlParameter) :
    List GebrGeoXmlParameter :=
  if type = .reference then parameters
  else parameters ++ [paste { type, label := [], property := gebrGeoxmlParameterInsertType type }]

/-- `gebr_geoxml_document_set_dict_keyword`; `paste` is what the caller does with its result. The
checks of the arguments leave the document as it is. -/
def gebrGeoxmlDocumentSetDictKeyword (doc : GebrGeoXmlDocument) (type : GebrGeoXmlParameterType)
    (keyword value : Option Text) (paste : GebrGeoXmlParameter → GebrGeoXmlParameter) :
    GebrGeoXmlDocument :=
  if keyword = none then doc
  else if value = none then doc
  else if ¬ (type = .string ∨ type = .float ∨ type = .int) then doc
  else
    { dict := gebrGeoxmlParametersAppendParameter doc.dict type fun param =>
        paste (((param.setRequired true).setKeyword keyword).setFirstValue value) }

end Parameter

section Merge

/-- `gebr_validator_validate_param` on a parameter of the dictionary of a document. -/
abbrev GebrValidator : Type := GebrGeoXmlDocument → GebrGeoXmlParameter → Bool

/-- No validator strips nothing. -/
def accepts (validator : Option GebrValidator) (doc : GebrGeoXmlDocument)
    (param : GebrGeoXmlParameter) : Bool :=
  match validator with
  | none => true
  | some validate => validate doc param

/-- The body of the inner loop of `merge_dicts`: one parameter is copied. -/
def mergeParameter (validator : Option GebrValidator) (doc : GebrGeoXmlDocument)
    (dict : List GebrGeoXmlParameter) (param : GebrGeoXmlParameter) : List GebrGeoXmlParameter :=
  if accepts validator doc param then
    gebrGeoxmlParametersAppendParameter dict param.type fun copy =>
      ((copy.setKeyword param.getKeyword).setFirstValue param.getFirstValue).setLabel param.getLabel
  else dict

/-- The body of the outer loop: a separator, then the dictionary of the document. -/
def mergeDict (validator : Option GebrValidator) (dict : List GebrGeoXmlParameter)
    (doc : GebrGeoXmlDocument) : List GebrGeoXmlParameter :=
  doc.dict.foldl (mergeParameter validator doc) (gebrGeoxmlParametersAppendParameter dict .group id)

/-- `gebr_geoxml_document_merge_dicts`; the documents are its variable arguments. -/
def gebrGeoxmlDocumentMergeDicts (validator : Option GebrValidator) (first : GebrGeoXmlDocument)
    (docs : List GebrGeoXmlDocument) : GebrGeoXmlDocument :=
  { dict := docs.foldl (mergeDict validator) first.dict }

end Merge

section Split

/-- The variables of `split_dict`, and the variable arguments. -/
structure SplitState where
  /-- The documents before `doc`. -/
  past : List GebrGeoXmlDocument
  doc : Option GebrGeoXmlDocument
  /-- The arguments that are still to come. -/
  todo : List GebrGeoXmlDocument
  /-- Where the parameters to remove begin. -/
  clean : Option ℕ

/-- All the documents, in the order of the arguments. -/
def SplitState.docs (state : SplitState) : List GebrGeoXmlDocument :=
  state.past ++ state.doc.toList ++ state.todo

/-- The loop of `split_dict` from the parameter at `index` on. -/
def splitLoop : ℕ → List GebrGeoXmlParameter → SplitState → Bool × SplitState
  | _, [], state => (true, state)
  | index, param :: params, state =>
    if param.type = .group then
      match state.todo with
      -- Too few documents: what was split before stays in the flow too.
      | [] => (false, { state with clean := some index })
      | next :: todo => splitLoop (index + 1) params
          { past := state.past ++ state.doc.toList, doc := some next, todo,
            clean := state.clean <|> some index }
    else
      match state.doc with
      | none => splitLoop (index + 1) params state
      | some doc => splitLoop (index + 1) params
          { state with
            doc := some (gebrGeoxmlDocumentSetDictKeyword doc param.type param.getKeyword
              param.getFirstValue fun copy => copy.setLabel param.getLabel) }

/-- `gebr_geoxml_document_split_dict`: its result, the flow and the other documents. -/
def gebrGeoxmlDocumentSplitDict (first : GebrGeoXmlDocument) (docs : List GebrGeoXmlDocument) :
    Bool × GebrGeoXmlDocument × List GebrGeoXmlDocument :=
  let (retval, state) :=
    splitLoop 0 first.dict { past := [], doc := none, todo := docs, clean := none }
  (retval, { dict := match state.clean with
    | none => first.dict
    | some index => first.dict.take index }, state.docs)

end Split

section Entries

/-- What a user sees of a parameter of a dictionary. -/
def GebrGeoXmlParameter.entry (param : GebrGeoXmlParameter) :
    GebrGeoXmlParameterType × Option Text × Option Text × Text :=
  (param.type, param.getKeyword, param.getFirstValue, param.getLabel)

/-- A program parameter, as opposed to a group and to a reference of an instance of a group. -/
structure GebrGeoXmlParameter.IsProgram (param : GebrGeoXmlParameter) : Prop where
  not_group : param.type ≠ .group
  not_reference : param.type ≠ .reference
  property : param.property.isSome

/-- The types that `set_dict_keyword` takes. -/
def GebrGeoXmlParameter.isDictType (param : GebrGeoXmlParameter) : Bool :=
  param.type = .string ∨ param.type = .float ∨ param.type = .int

/-- A parameter that `append_parameter` makes. -/
def newParameter (type : GebrGeoXmlParameterType) : GebrGeoXmlParameter :=
  { type, label := [], property := gebrGeoxmlParameterInsertType type }

def separator : GebrGeoXmlParameter := newParameter .group

/-- The copy of a parameter that `merge_dicts` appends. -/
def GebrGeoXmlParameter.merged (param : GebrGeoXmlParameter) : GebrGeoXmlParameter :=
  (((newParameter param.type).setKeyword param.getKeyword).setFirstValue
    param.getFirstValue).setLabel param.getLabel

/-- The copy of a parameter that `split_dict` appends. -/
def GebrGeoXmlParameter.unmerged (param : GebrGeoXmlParameter) : GebrGeoXmlParameter :=
  ((((newParameter param.type).setRequired true).setKeyword param.getKeyword).setFirstValue
    param.getFirstValue).setLabel param.getLabel

theorem removeLineBreak_of_oneLine {text : Text} (oneLine : 10 ∉ text) :
    gebrGeoxmlRemoveLineBreak text = text := by
  refine List.filter_eq_self.2 fun b member => ?_
  have apart : b ≠ 10 := fun same => oneLine (same ▸ member)
  simpa using apart

@[simp] theorem removeLineBreak_idem (text : Text) :
    gebrGeoxmlRemoveLineBreak (gebrGeoxmlRemoveLineBreak text) = gebrGeoxmlRemoveLineBreak text := by
  unfold gebrGeoxmlRemoveLineBreak
  rw [List.filter_filter]
  simp only [Bool.and_self]

variable {param : GebrGeoXmlParameter}

@[simp] theorem merged_type : param.merged.type = param.type := by
  unfold GebrGeoXmlParameter.merged GebrGeoXmlParameter.setLabel newParameter
  cases param.getKeyword <;> cases param.getFirstValue <;> rfl

theorem insertType_isSome {type : GebrGeoXmlParameterType} (program : type ≠ .group) :
    ∃ property, gebrGeoxmlParameterInsertType type = some property := by
  cases type with
  | group => exact absurd rfl program
  | _ => exact ⟨_, rfl⟩

/-- **A merged copy** of a program parameter shows the same entry. -/
theorem entry_merged (program : param.IsProgram) : param.merged.entry = param.entry := by
  obtain ⟨property, made⟩ := insertType_isSome program.not_group
  obtain ⟨own, has⟩ := Option.isSome_iff_exists.1 program.property
  simp only [GebrGeoXmlParameter.entry, merged_type]
  simp only [GebrGeoXmlParameter.merged, GebrGeoXmlParameter.setLabel, newParameter, made,
    GebrGeoXmlParameter.getKeyword, GebrGeoXmlParameter.getFirstValue,
    GebrGeoXmlParameter.getLabel, has, Option.map_some, GebrGeoXmlParameter.setKeyword,
    GebrGeoXmlParameter.setFirstValue, removeLineBreak_idem]

theorem merged_isProgram (program : param.IsProgram) : param.merged.IsProgram := by
  obtain ⟨property, made⟩ := insertType_isSome program.not_group
  obtain ⟨own, has⟩ := Option.isSome_iff_exists.1 program.property
  refine ⟨merged_type.symm ▸ program.not_group, merged_type.symm ▸ program.not_reference, ?_⟩
  simp only [GebrGeoXmlParameter.merged, GebrGeoXmlParameter.setLabel, newParameter, made,
    GebrGeoXmlParameter.getKeyword, GebrGeoXmlParameter.getFirstValue, has, Option.map_some,
    GebrGeoXmlParameter.setKeyword, GebrGeoXmlParameter.setFirstValue, Option.isSome_some]

/-- **A copy that was split off** shows the same entry. -/
theorem entry_unmerged (program : param.IsProgram) : param.unmerged.entry = param.entry := by
  obtain ⟨property, made⟩ := insertType_isSome program.not_group
  obtain ⟨own, has⟩ := Option.isSome_iff_exists.1 program.property
  simp only [GebrGeoXmlParameter.entry, GebrGeoXmlParameter.unmerged, GebrGeoXmlParameter.setLabel,
    newParameter, made, GebrGeoXmlParameter.setRequired, GebrGeoXmlParameter.getKeyword,
    GebrGeoXmlParameter.getFirstValue, GebrGeoXmlParameter.getLabel, has, Option.map_some,
    GebrGeoXmlParameter.setKeyword, GebrGeoXmlParameter.setFirstValue]
  by_cases flag : param.type = .flag <;>
    simp only [flag, if_true, if_false, Option.map_some, removeLineBreak_idem]

end Entries

section Sections

variable (validator : Option GebrValidator)

/-- The parameters of a document that are merged. -/
def accepted (doc : GebrGeoXmlDocument) : List GebrGeoXmlParameter :=
  doc.dict.filter (accepts validator doc)

/-- What a document adds to the merged dictionary. -/
def mergedSection (doc : GebrGeoXmlDocument) : List GebrGeoXmlParameter :=
  separator :: (accepted validator doc).map GebrGeoXmlParameter.merged

/-- What comes back of a document. -/
def returned (doc : GebrGeoXmlDocument) : List GebrGeoXmlParameter :=
  (((accepted validator doc).map GebrGeoXmlParameter.merged).filter
    GebrGeoXmlParameter.isDictType).map GebrGeoXmlParameter.unmerged

variable {validator}

theorem foldl_mergeParameter {doc : GebrGeoXmlDocument} (params dict : List GebrGeoXmlParameter)
    (programs : ∀ param ∈ params, param.IsProgram) :
    params.foldl (mergeParameter validator doc) dict =
      dict ++ (params.filter (accepts validator doc)).map GebrGeoXmlParameter.merged := by
  induction params generalizing dict with
  | nil => exact (List.append_nil dict).symm
  | cons param params tail =>
    rw [List.foldl_cons, tail _ fun other member => programs other (List.mem_cons_of_mem _ member)]
    unfold mergeParameter gebrGeoxmlParametersAppendParameter
    rw [if_neg (programs param List.mem_cons_self).not_reference]
    cases holds : accepts validator doc param with
    | false => rw [List.filter_cons_of_neg (by simp [holds]), if_neg (by simp)]
    | true =>
      rw [List.filter_cons_of_pos holds, if_pos rfl, List.map_cons, List.append_assoc]
      rfl

/-- **The merged dictionary**: the flow's own one, then one section for each document. -/
theorem mergeDicts_dict {docs : List GebrGeoXmlDocument} (first : GebrGeoXmlDocument)
    (programs : ∀ doc ∈ docs, ∀ param ∈ doc.dict, param.IsProgram) :
    (gebrGeoxmlDocumentMergeDicts validator first docs).dict =
      first.dict ++ docs.flatMap (mergedSection validator) := by
  unfold gebrGeoxmlDocumentMergeDicts
  show docs.foldl (mergeDict validator) first.dict = _
  generalize first.dict = dict
  induction docs generalizing dict with
  | nil => exact (List.append_nil dict).symm
  | cons doc docs tail =>
    rw [List.foldl_cons, tail (fun other member => programs other (List.mem_cons_of_mem _ member)),
      mergeDict, foldl_mergeParameter _ _ (programs doc List.mem_cons_self), List.flatMap_cons,
      mergedSection, ← List.append_assoc]
    refine congrArg (· ++ _) ?_
    show (dict ++ [separator]) ++ _ = dict ++ (separator :: _)
    rw [List.append_assoc]
    rfl

end Sections

section Loop

variable {past todo : List GebrGeoXmlDocument} {clean : Option ℕ}

/-- Before the first separator nothing is split. -/
theorem splitLoop_own (own rest : List GebrGeoXmlParameter) (index : ℕ) {state : SplitState}
    (none : state.doc = none) (programs : ∀ param ∈ own, param.type ≠ .group) :
    splitLoop index (own ++ rest) state = splitLoop (index + own.length) rest state := by
  induction own generalizing index with
  | nil => rfl
  | cons param own tail =>
    rw [List.cons_append, splitLoop, if_neg (programs param List.mem_cons_self), none]
    show splitLoop (index + 1) (own ++ rest) state = _
    rw [tail _ fun other member => programs other (List.mem_cons_of_mem _ member),
      List.length_cons, Nat.add_right_comm, Nat.add_assoc]

/-- `set_dict_keyword` on a program parameter of a type that it takes, or of another one. -/
theorem setDictKeyword_eq {param : GebrGeoXmlParameter} (program : param.IsProgram)
    (doc : GebrGeoXmlDocument) :
    gebrGeoxmlDocumentSetDictKeyword doc param.type param.getKeyword param.getFirstValue
        (fun copy => copy.setLabel param.getLabel) =
      { dict := doc.dict ++ ([param].filter GebrGeoXmlParameter.isDictType).map
          GebrGeoXmlParameter.unmerged } := by
  obtain ⟨own, has⟩ := Option.isSome_iff_exists.1 program.property
  have keyword : param.getKeyword ≠ none := by simp [GebrGeoXmlParameter.getKeyword, has]
  have value : param.getFirstValue ≠ none := by simp [GebrGeoXmlParameter.getFirstValue, has]
  unfold gebrGeoxmlDocumentSetDictKeyword
  rw [if_neg keyword, if_neg value]
  by_cases typed : param.type = .string ∨ param.type = .float ∨ param.type = .int
  · rw [if_neg (not_not.2 typed),
      List.filter_cons_of_pos (show param.isDictType = true from decide_eq_true typed),
        List.filter_nil, gebrGeoxmlParametersAppendParameter, if_neg program.not_reference]
    rfl
  · rw [if_pos typed, List.filter_cons_of_neg (by simpa [GebrGeoXmlParameter.isDictType] using typed),
      List.filter_nil, List.map_nil, List.append_nil]

/-- **One section**: its parameters of the right types go to the document at hand. -/
theorem splitLoop_section (params rest : List GebrGeoXmlParameter) (index : ℕ)
    (doc : GebrGeoXmlDocument) (programs : ∀ param ∈ params, param.IsProgram) :
    splitLoop index (params ++ rest) { past, doc := some doc, todo, clean } =
      splitLoop (index + params.length) rest
        { past, todo, clean,
          doc := some ⟨doc.dict ++ (params.filter GebrGeoXmlParameter.isDictType).map
            GebrGeoXmlParameter.unmerged⟩ } := by
  induction params generalizing index doc with
  | nil =>
    simp only [List.filter_nil, List.map_nil, List.append_nil]
    rfl
  | cons param params tail =>
    have program := programs param List.mem_cons_self
    rw [List.cons_append, splitLoop, if_neg program.not_group]
    simp only [setDictKeyword_eq program]
    rw [tail _ _ fun other member => programs other (List.mem_cons_of_mem _ member),
      List.length_cons, Nat.add_right_comm, Nat.add_assoc]
    congr 4
    rw [List.append_assoc, ← List.map_append, ← List.filter_append]
    rfl

/-- All the sections that are left, with a document for each. -/
theorem splitLoop_sections {validator : Option GebrValidator}
    {docs fresh past : List GebrGeoXmlDocument} (doc : Option GebrGeoXmlDocument)
    (same : docs.length = fresh.length) (index place : ℕ)
    (programs : ∀ doc ∈ docs, ∀ param ∈ doc.dict, param.IsProgram) :
    ∃ state, splitLoop index (docs.flatMap (mergedSection validator))
        { past, doc, todo := fresh, clean := some place } = (true, state) ∧
      state.clean = some place ∧
      state.docs = past ++ doc.toList ++
        List.zipWith (fun doc new => ⟨new.dict ++ returned validator doc⟩) docs fresh := by
  induction docs generalizing fresh past doc index with
  | nil =>
    obtain rfl := List.length_eq_zero_iff.1 same.symm
    exact ⟨_, rfl, rfl, rfl⟩
  | cons next docs tail =>
    cases fresh with
    | nil => exact nomatch same
    | cons new fresh =>
      have merged : ∀ param ∈ (accepted validator next).map GebrGeoXmlParameter.merged,
          param.IsProgram := by
        intro param member
        obtain ⟨source, inside, rfl⟩ := List.mem_map.1 member
        exact merged_isProgram (programs next List.mem_cons_self source
          (List.mem_filter.1 inside).1)
      rw [List.flatMap_cons, mergedSection, List.cons_append, splitLoop, if_pos (by rfl)]
      show ∃ state, splitLoop (index + 1) _
        { past := past ++ doc.toList, doc := some new, todo := fresh, clean := some place } =
          (true, state) ∧ _
      rw [splitLoop_section _ _ _ _ merged]
      obtain ⟨state, run, kept, docs⟩ := @tail fresh (past ++ doc.toList) (some
        ⟨new.dict ++ returned validator next⟩) (Nat.succ.inj same) _
        fun doc member => programs doc (List.mem_cons_of_mem _ member)
      refine ⟨state, run, kept, ?_⟩
      rw [docs, List.zipWith_cons_cons, Option.toList_some, List.append_assoc]
      rfl

end Loop

section RoundTrip

variable {validator : Option GebrValidator} {flow : GebrGeoXmlDocument}

/-- **What comes back.** After a merge and a split, each document has got the entries of its
dictionary that the validator accepts and that are of a type that `set_dict_keyword` takes, and the
flow is as it was. -/
theorem splitDict_mergeDicts {docs fresh : List GebrGeoXmlDocument}
    (own : ∀ param ∈ flow.dict, param.type ≠ .group)
    (programs : ∀ doc ∈ docs, ∀ param ∈ doc.dict, param.IsProgram)
    (same : docs.length = fresh.length) :
    gebrGeoxmlDocumentSplitDict (gebrGeoxmlDocumentMergeDicts validator flow docs) fresh =
      (true, flow,
        List.zipWith (fun doc new => ⟨new.dict ++ returned validator doc⟩) docs fresh) := by
  unfold gebrGeoxmlDocumentSplitDict
  rw [mergeDicts_dict flow programs, splitLoop_own flow.dict _ 0 rfl own, Nat.zero_add]
  cases docs with
  | nil =>
    obtain rfl := List.length_eq_zero_iff.1 same.symm
    show (true, (⟨flow.dict ++ []⟩ : GebrGeoXmlDocument), []) = (true, flow, [])
    rw [List.append_nil]
  | cons doc docs =>
    cases fresh with
    | nil => exact nomatch same
    | cons new fresh =>
      have merged : ∀ param ∈ (accepted validator doc).map GebrGeoXmlParameter.merged,
          param.IsProgram := by
        intro param member
        obtain ⟨source, inside, rfl⟩ := List.mem_map.1 member
        exact merged_isProgram (programs doc List.mem_cons_self source (List.mem_filter.1 inside).1)
      obtain ⟨state, run, kept, rest⟩ := @splitLoop_sections validator docs fresh []
        (some ⟨new.dict ++ returned validator doc⟩) (Nat.succ.inj same)
        (flow.dict.length + 1 + ((accepted validator doc).map GebrGeoXmlParameter.merged).length)
        flow.dict.length fun doc member => programs doc (List.mem_cons_of_mem _ member)
      have whole : splitLoop flow.dict.length ((doc :: docs).flatMap (mergedSection validator))
          { past := [], doc := none, todo := new :: fresh, clean := none } = (true, state) := by
        rw [List.flatMap_cons, mergedSection, List.cons_append, splitLoop, if_pos (by rfl)]
        exact (splitLoop_section _ _ _ _ merged).trans run
      rw [whole]
      simp only [kept, rest, List.take_left]
      rfl

theorem line_project {line project : GebrGeoXmlDocument}
    (inLine : ∀ param ∈ line.dict, param.IsProgram)
    (inProject : ∀ param ∈ project.dict, param.IsProgram) :
    ∀ doc ∈ [line, project], ∀ param ∈ doc.dict, param.IsProgram := by
  intro doc member
  rcases List.mem_cons.1 member with rfl | member
  · exact inLine
  · obtain rfl := List.mem_singleton.1 member
    exact inProject

theorem returned_entries {doc : GebrGeoXmlDocument} (programs : ∀ param ∈ doc.dict, param.IsProgram) :
    (returned validator doc).map GebrGeoXmlParameter.entry =
      ((accepted validator doc).filter GebrGeoXmlParameter.isDictType).map
        GebrGeoXmlParameter.entry := by
  have kinds : GebrGeoXmlParameter.isDictType ∘ GebrGeoXmlParameter.merged =
      GebrGeoXmlParameter.isDictType := by
    funext param
    simp only [Function.comp_apply, GebrGeoXmlParameter.isDictType, merged_type]
  rw [returned, List.filter_map, kinds, List.map_map, List.map_map]
  refine List.map_congr_left fun param member => ?_
  have program := programs param (List.mem_filter.1 (List.mem_filter.1 member).1).1
  exact (entry_unmerged (merged_isProgram program)).trans (entry_merged program)

/-- A dictionary of entries that are accepted and of the right types comes back whole. -/
theorem returned_entries_all {doc : GebrGeoXmlDocument}
    (programs : ∀ param ∈ doc.dict, param.IsProgram)
    (typed : ∀ param ∈ doc.dict, param.isDictType = true)
    (valid : ∀ param ∈ doc.dict, accepts validator doc param = true) :
    (returned validator doc).map GebrGeoXmlParameter.entry =
      doc.dict.map GebrGeoXmlParameter.entry := by
  rw [returned_entries programs, accepted, List.filter_eq_self.2 valid, List.filter_eq_self.2 typed]

/-- **The round trip.** The line and the project get all their entries back, in order, each with its
type, keyword, value and comment; the flow keeps its own entries only. -/
theorem splitDict_mergeDicts_line_project {line project newLine newProject : GebrGeoXmlDocument}
    (own : ∀ param ∈ flow.dict, param.IsProgram)
    (programs : ∀ param ∈ line.dict ++ project.dict, param.IsProgram)
    (typed : ∀ param ∈ line.dict ++ project.dict, param.isDictType = true)
    (validLine : ∀ param ∈ line.dict, accepts validator line param = true)
    (validProject : ∀ param ∈ project.dict, accepts validator project param = true)
    (freshLine : newLine.dict = []) (freshProject : newProject.dict = []) :
    ∃ line' project' : GebrGeoXmlDocument,
      gebrGeoxmlDocumentSplitDict (gebrGeoxmlDocumentMergeDicts validator flow [line, project])
          [newLine, newProject] = (true, flow, [line', project']) ∧
        line'.dict.map GebrGeoXmlParameter.entry = line.dict.map GebrGeoXmlParameter.entry ∧
        project'.dict.map GebrGeoXmlParameter.entry =
          project.dict.map GebrGeoXmlParameter.entry ∧
        ∀ param ∈ flow.dict, param.type ≠ .group := by
  have inLine := fun param member => programs param (List.mem_append_left _ member)
  have inProject := fun param member => programs param (List.mem_append_right _ member)
  have each : ∀ doc ∈ [line, project], ∀ param ∈ doc.dict, param.IsProgram :=
    line_project inLine inProject
  have noGroup := fun param member => (own param member).not_group
  refine ⟨⟨newLine.dict ++ returned validator line⟩, ⟨newProject.dict ++ returned validator project⟩,
    splitDict_mergeDicts noGroup each rfl, ?_, ?_, noGroup⟩
  · show (newLine.dict ++ returned validator line).map _ = _
    rw [freshLine, List.nil_append]
    exact returned_entries_all inLine (fun param member => typed param
      (List.mem_append_left _ member)) validLine
  · show (newProject.dict ++ returned validator project).map _ = _
    rw [freshProject, List.nil_append]
    exact returned_entries_all inProject (fun param member => typed param
      (List.mem_append_right _ member)) validProject

/-- A variable of a dictionary. -/
def dictVariable (type : GebrGeoXmlParameterType) (keyword value : String) : GebrGeoXmlParameter where
  type := type
  label := ascii "comment"
  property := some { keyword := ascii keyword, value := ascii value, required := true }

/-- Variables in all three dictionaries. -/
theorem splitDict_mergeDicts_line_project_pair :
    ∃ line' project' : GebrGeoXmlDocument,
      gebrGeoxmlDocumentSplitDict
          (gebrGeoxmlDocumentMergeDicts none ⟨[dictVariable .int "foo" "1"]⟩
            [⟨[dictVariable .int "bar" "2", dictVariable .string "name" "x"]⟩,
          ⟨[dictVariable .float "baz" "3"]⟩]) [⟨[]⟩, ⟨[]⟩] =
        (true, ⟨[dictVariable .int "foo" "1"]⟩, [line', project']) ∧
          line'.dict.map GebrGeoXmlParameter.entry =
        [dictVariable .int "bar" "2", dictVariable .string "name" "x"].map
          GebrGeoXmlParameter.entry ∧ project'.dict.map GebrGeoXmlParameter.entry =
        [dictVariable .float "baz" "3"].map GebrGeoXmlParameter.entry ∧ ∀ param ∈
        [dictVariable .int "foo" "1"], param.type ≠ .group := by
  have program : ∀ type keyword value, type ≠ .group → type ≠ .reference →
      (dictVariable type keyword value).IsProgram := fun _ _ _ group reference =>
        ⟨group, reference, rfl⟩
  refine splitDict_mergeDicts_line_project ?_ ?_ (by decide) (by decide) (by decide) rfl rfl
  · intro param member
    obtain rfl := List.mem_singleton.1 member
    exact program _ _ _ (by decide) (by decide)
  · intro param member
    simp only [List.cons_append, List.nil_append, List.mem_cons, List.not_mem_nil, or_false] at member
    rcases member with rfl | rfl | rfl <;> exact program _ _ _ (by decide) (by decide)

/-- A variable of type FILE is merged, but it is not split. -/
theorem splitDict_mergeDicts_file :
    ¬ ∃ line' project' : GebrGeoXmlDocument,
      gebrGeoxmlDocumentSplitDict
          (gebrGeoxmlDocumentMergeDicts none ⟨[]⟩ [⟨[dictVariable .file "input" "data.su"]⟩, ⟨[]⟩])
          [⟨[]⟩, ⟨[]⟩] = (true, ⟨[]⟩, [line', project']) ∧
        line'.dict.map GebrGeoXmlParameter.entry =
          [dictVariable .file "input" "data.su"].map GebrGeoXmlParameter.entry := by
  have lost : gebrGeoxmlDocumentSplitDict
      (gebrGeoxmlDocumentMergeDicts none ⟨[]⟩ [⟨[dictVariable .file "input" "data.su"]⟩, ⟨[]⟩])
      [⟨[]⟩, ⟨[]⟩] = (true, ⟨[]⟩, [⟨[]⟩, ⟨[]⟩]) := by
    decide +kernel
  intro ⟨line', project', split, entries⟩
  rw [lost] at split
  have empty := (List.cons.inj (Prod.mk.inj (Prod.mk.inj split).2).2).1
  rw [← empty] at entries
  exact absurd entries (by decide)

end RoundTrip

end Gebr.Geoxml
