/-
**One validator, and the order of its weights.**

The application has a validator whose documents are the current flow, line and project. Here the
arithmetic of the weights is exact.

* `Call`, `callStep`: what is done with the validator and its documents.
* `checkedTables`: the tables on which references are checked before a call is over.
* `Ordered`: the weights grow along each dictionary, what a variable refers to is outside of its
  scope or earlier in it, and the check of references ends.
* `fitsBetween`: a weight between two neighbours is strictly between theirs.
* `Sound.edit`, `Sound.update` — **each call** keeps the table that of the documents.
* `run_ordered` — **every run** over dictionaries whose names are distinct.
-/

import Gebr.Validator.DocumentRuns
import Gebr.Validator.ReferenceCheck

namespace Gebr.Validator

open Gebr.Geoxml (GebrGeoXmlParameterType)
open Gebr.Lib.Run (Guarded trace trace_forall)

section Model

/-- The document that is current for a scope. -/
def Program.current (self : Program) (scope : Scope) : Option ℕ := self.cells scope 0

/-- What is done with the validator. A parameter is given by its place in the current document of
its scope; an update comes after other documents became current. -/
inductive Call
  | insert (scope : Scope) (place : ℕ) (keyword : String) (type : GebrGeoXmlParameterType)
      (value : String) (required : Bool)
  | remove (scope : Scope) (place : ℕ)
  | rename (scope : Scope) (place : ℕ) (newName : String)
  | change (scope : Scope) (place : ℕ) (newValue : String)
  | move (scope : Scope) (place : ℕ) (pivotScope : Scope) (position : ℕ)
  | update (docs : Scope → Option ℕ)

/-- Other documents become current. -/
def Program.select (self : Program) (docs : Scope → Option ℕ) : Program :=
  { self with cells := fun scope => Function.update (self.cells scope) 0 (docs scope) }

def callStep (self : Program) : Call → Option Program
  | .insert scope place keyword type value required => (self.current scope).bind fun doc =>
    self.step id (.insert 0 scope doc place keyword type value required)
  | .remove scope place => (self.current scope).bind fun doc =>
      self.step id (.remove 0 scope doc place)
  | .rename scope place newName => (self.current scope).bind fun doc =>
    self.step id (.rename 0 scope doc place newName)
  | .change scope place newValue => (self.current scope).bind fun doc =>
    self.step id (.changeValue 0 scope doc place newValue)
  | .move scope place pivotScope position => (self.current scope).bind fun doc =>
    self.step id (.move 0 scope doc place pivotScope position)
  | .update docs => (self.select docs).step id (.update 0)

/-- A validator of these documents, with this table. -/
def GebrValidator.only (vars : Vars) : GebrValidator := { docs := fun _ => [some 0], vars }

/-- After `gebr_validator_new`. -/
def opened (docs : Scope → Option ℕ) (dicts : Scope → ℕ → Dict) (fresh : ℕ) : Program :=
  { Program.start (fun scope _ => docs scope) dicts fresh with
    validators := [.only fun _ => none] }.update id 0 (.only fun _ => none)

/-- The dictionaries of the current documents have no name twice, and none that is empty. -/
def Distinct (self : Program) : Prop := ∀ scope, Tidy (self.dict scope (self.current scope))

/-- After the call the names are still distinct. -/
def KeepsDistinct (self : Program) (call : Call) : Prop :=
  ∀ next, callStep self call = some next → Distinct next

/-- The table after each of the parameters of a dictionary. -/
def insertDictTables (scope : Scope) : Option Parameter → Dict → Vars → List Vars
  | _, [], _ => []
  | before, param :: rest, vars =>
    let next := insertParam id vars scope before rest.head? param
    next :: insertDictTables scope (some param) rest next

/-- The tables in the loop of `gebr_validator_update`. -/
def updateTables (self : Program) (current : Scope → Option ℕ) : List Scope → Synced → List Vars
  | [], _ => []
  | scope :: rest, synced =>
    (match current scope with
      | none => []
      | some doc =>
        if synced.cacheDocs scope = some doc then []
        else insertDictTables scope none (self.dicts scope doc) synced.vars) ++
      updateTables self current rest (updateScope id self current synced scope)

/-- The tables on which references are checked before the call is over: that of a copy before it is
moved, and those in an update. -/
def checkedTables (self : Program) : Call → List Vars
  | .move scope place pivotScope _ =>
    (self.validators[0]?.bind fun validator =>
      (self.current scope).bind fun doc => (self.paramAt scope doc place).bind fun (_, param, _) =>
        if scope = pivotScope ∨ entry validator.vars pivotScope param.keyword ≠ none then none
        else (self.copyOf validator param pivotScope).map fun (target, copy) =>
          insertParam id validator.vars pivotScope (self.dicts pivotScope target).getLast?
            none copy).toList
  | .update docs =>
    (self.validators[0]?.map fun validator =>
      updateTables (self.select docs) docs inwards
        (gebrValidatorCleanCache (self.select docs) docs validator.vars)).getD []
  | _ => []

/-- **The weights are in order.** -/
structure Ordered (program : Program) (validator : GebrValidator) : Prop where
  only : program.validators = [validator]
  /-- Each variable of a document is in the table, with its weight. -/
  stored : ∀ scope, ∀ param ∈ program.dict scope (program.current scope),
    entry validator.vars scope param.keyword = some (param.node, getWeight validator.vars scope param)
  increasing : ∀ scope, ((program.dict scope (program.current scope)).map
    (getWeight validator.vars scope)).Pairwise (· < ·)
  /-- What a variable refers to is outside of its scope, or earlier in its document. -/
  earlier : ∀ scope front mine back depName depScope node,
    program.dict scope (program.current scope) = front ++ mine :: back → mine.keyword ≠ depName →
    getDepParam validator.vars (some mine.keyword) scope depName = some (depScope, node) →
      depScope ∈ scope.outwards.tail ∨
        depScope = scope ∧ ∃ dep ∈ front, dep.keyword = depName ∧ dep.node = node
  terminates : Terminates validator.vars

/-- What holds after a call. -/
def OrderedAfter (self : Program) (call : Call) (next : Program) : Prop :=
  (∃ validator, Ordered next validator) ∧ ∀ table ∈ checkedTables self call, Terminates table

end Model

section Weights

variable {vars other : Vars} {scope : Scope} {dict front back : Dict}

/-- **A weight between two neighbours** is strictly between theirs. -/
theorem fitsBetween
    (ordered : List.IsChain (· < ·) (0 :: (front ++ back).map (getWeight vars scope))) :
    FitsBetween id vars scope front back := by
  have sorted := List.pairwise_cons.1 (List.isChain_iff_pairwise.1 ordered)
  have positive : ∀ param ∈ front ++ back, 0 < getWeight vars scope param := fun param member =>
    sorted.1 _ (List.mem_map_of_mem member)
  have low : 0 ≤ front.getLast?.elim 0 (getWeight vars scope) := by
    cases last : front.getLast? with
    | none => exact le_refl _
    | some param => exact (positive param (List.mem_append_left _ (List.mem_of_getLast? last))).le
  have between : ∀ next ∈ back.head?,
      front.getLast?.elim 0 (getWeight vars scope) < getWeight vars scope next := by
    intro next first
    have inBack := List.mem_of_head? first
    cases last : front.getLast? with
    | none => exact positive next (List.mem_append_right _ inBack)
    | some param =>
      rw [List.map_append, List.pairwise_append] at sorted
      exact sorted.2.2.2 _ (List.mem_map_of_mem (List.mem_of_getLast? last)) _
        (List.mem_map_of_mem inBack)
  have known : ¬ front.getLast?.elim 0 (getWeight vars scope) = -1 := by
    intro unset
    linarith
  have above : ∀ param ∈ front.getLast?,
      getWeight vars scope param = front.getLast?.elim 0 (getWeight vars scope) := by
    intro param last
    rw [Option.mem_def.1 last, Option.elim_some]
  unfold FitsBetween computeWeight
  simp only [if_neg known, id_eq]
  cases first : back.head? with
  | none =>
    refine ⟨fun param last => ?_, ?_, fun next member => absurd member (Option.not_mem_none next)⟩
    · rw [above param last]
      exact lt_add_one _
    · exact lt_of_le_of_lt low (lt_add_one _)
  | some next =>
    have less := between next first
    have set : ¬ getWeight vars scope next = -1 := by
      intro unset
      linarith
    simp only [if_neg set]
    refine ⟨fun param last => ?_, ?_, fun other member => ?_⟩
    · rw [above param last]
      linarith
    · linarith
    · obtain rfl := Option.some.inj member
      linarith

/-- A part of a dictionary is in order too. -/
theorem ordered_sublist {part : Dict} (described : Describes vars scope dict)
    (sub : part.Sublist dict) : List.IsChain (· < ·) (0 :: part.map (getWeight vars scope)) :=
  ((List.isChain_iff_pairwise.1 described.ordered).sublist ((sub.map _).cons_cons 0)).isChain

/-- The table has finitely many names of the scope, and no two of them have one weight. -/
def Located (vars : Vars) (scope : Scope) : Prop :=
  ∃ names : List String, (∀ name, entry vars scope name ≠ none → name ∈ names) ∧
    ∀ name other node node' weight, entry vars scope name = some (node, weight) →
      entry vars scope other = some (node', weight) → name = other

theorem Located.congr (located : Located vars scope)
    (same : ∀ name, entry other scope name = entry vars scope name) : Located other scope := by
  obtain ⟨names, covered, apart⟩ := located
  refine ⟨names, fun name => ?_, fun name other node node' weight => ?_⟩
  · rw [same]
    exact covered name
  · rw [same, same]
    exact apart name other node node' weight

/-- Where each scope is located, the check of references ends. -/
theorem terminates_of_located (located : ∀ scope, Located vars scope) : Terminates vars := by
  choose names covered apart using located
  exact @terminates_of_spread _ names ⟨covered, apart⟩

theorem Describes.located (described : Describes vars scope dict) : Located vars scope := by
  have member : ∀ name node weight, entry vars scope name = some (node, weight) →
      ∃ param ∈ dict, param.keyword = name ∧ getWeight vars scope param = weight := by
    intro name node weight here
    obtain ⟨param, inside, rfl, rfl⟩ := (described.exactly name node).1 (by rw [here]; rfl)
    refine ⟨param, inside, rfl, ?_⟩
    rw [getWeight_eq, here]
    rfl
  refine ⟨dict.map Parameter.keyword, fun name there => ?_, fun name other node node' weight
    one two => ?_⟩
  · obtain ⟨⟨node, weight⟩, here⟩ := Option.ne_none_iff_exists'.1 there
    obtain ⟨param, inside, rfl, -⟩ := member name node weight here
    exact List.mem_map_of_mem inside
  · obtain ⟨param, inside, rfl, same⟩ := member name node weight one
    obtain ⟨param', inside', rfl, same'⟩ := member other node' weight two
    have sorted := (List.pairwise_cons.1 (List.isChain_iff_pairwise.1 described.ordered)).2
    have nodup : (dict.map (getWeight vars scope)).Nodup := sorted.imp ne_of_lt
    exact congrArg Parameter.keyword
      (List.inj_on_of_nodup_map nodup inside inside' (same.trans same'.symm))

theorem located_of_placed
    (placed : ∀ name node weight, entry vars scope name = some (node, weight) →
      Placed dict name node weight) : Located vars scope := by
  refine ⟨dict.map Parameter.keyword, fun name there => ?_, fun name other node node' weight
    one two => ?_⟩
  · obtain ⟨⟨node, weight⟩, here⟩ := Option.ne_none_iff_exists'.1 there
    obtain ⟨place, param, found, rfl, -⟩ := placed name node weight here
    exact List.mem_map_of_mem (List.mem_of_getElem? found)
  · obtain ⟨place, param, found, rfl, -, rfl⟩ := placed name node weight one
    obtain ⟨place', param', found', rfl, -, same⟩ := placed other node' _ two
    obtain rfl : place = place' := Nat.succ_injective (Nat.cast_injective same)
    exact congrArg Parameter.keyword (Option.some.inj (found.symm.trans found'))

end Weights

section Tables

variable {self : Program} {current : Scope → Option ℕ} {synced : Synced} {scope : Scope}

theorem fits_id (dict : Dict) : Fits id dict := fun _ _ => rfl

/-- While a dictionary is inserted, its scope is located and the other scopes stay. -/
theorem insertDictTables_located {dict : Dict} (tidy : Tidy dict) {front rest : Dict} {vars : Vars}
    (parts : dict = front ++ rest)
    (placed : ∀ name node weight, entry vars scope name = some (node, weight) →
      Placed dict name node weight)
    (complete : ∀ param ∈ front, entry vars scope param.keyword ≠ none) :
    ∀ table ∈ insertDictTables scope front.getLast? rest vars, Located table scope ∧
      ∀ other, other ≠ scope → ∀ name, entry table other name = entry vars other name := by
  induction rest generalizing front vars with
  | nil => exact fun _ member => absurd member List.not_mem_nil
  | cons param rest ih =>
    have entered := insertParam_placed (fits_id dict) tidy parts placed complete
    have frame : ∀ other, other ≠ scope → ∀ name,
        entry (insertParam id vars scope front.getLast? rest.head? param) other name =
          entry vars other name := fun other apart name => entry_insert_other _ _ _ _ apart name
    have last : (front ++ [param]).getLast? = some param := List.getLast?_concat
    have later := @ih (front ++ [param]) _ (by rw [parts, List.append_assoc]; rfl) entered.1 entered.2
    rw [last] at later
    intro table member
    rcases List.mem_cons.1 member with rfl | further
    · exact ⟨located_of_placed entered.1, frame⟩
    · obtain ⟨located, same⟩ := later table further
      exact ⟨located, fun other apart name => (same other apart name).trans (frame other apart name)⟩

theorem Waiting.located (waiting : Waiting self current scope synced) : Located synced.vars scope := by
  by_cases known : synced.cacheDocs scope = current scope
  · exact (waiting.described known).located
  · exact located_of_placed (waiting.placed known)

/-- **In an update** every table on which references are checked is located. -/
theorem updateTables_located (tidy : ∀ scope, Tidy (self.dict scope (current scope)))
    {scopes : List Scope} (nodup : scopes.Nodup)
    (waiting : ∀ scope ∈ scopes, Waiting self current scope synced)
    (done : ∀ scope, scope ∉ scopes → Located synced.vars scope) :
    ∀ table ∈ updateTables self current scopes synced, ∀ scope, Located table scope := by
  induction scopes generalizing synced with
  | nil => exact fun _ member => absurd member List.not_mem_nil
  | cons first rest ih =>
    have parts := List.nodup_cons.1 nodup
    have turn := waiting first List.mem_cons_self
    have located : ∀ scope, Located synced.vars scope := by
      intro scope
      by_cases later : scope ∈ first :: rest
      · exact (waiting scope later).located
      · exact done scope later
    intro table member
    unfold updateTables at member
    rcases List.mem_append.1 member with now | later
    · cases here : current first with
      | none =>
        rw [here] at now
        exact absurd now List.not_mem_nil
      | some doc =>
        rw [here] at now
        dsimp only at now
        split at now
        · exact absurd now List.not_mem_nil
        · rename_i uncached
          have order := tidy first
          have places := turn.placed (by rw [here]; exact uncached)
          rw [here] at order places
          obtain ⟨self', others⟩ := @insertDictTables_located first _ order [] _ _ rfl places
            (fun _ member => absurd member List.not_mem_nil) table now
          intro scope
          by_cases same : scope = first
          · exact same ▸ self'
          · exact (located scope).congr (others scope same)
    · refine ih parts.2 (fun scope inside => ?_) (fun scope outside => ?_) table later
      · have apart : scope ≠ first := fun same => parts.1 (same ▸ inside)
        have frame := @updateScope_other id first self current synced scope apart
        exact (waiting scope (List.mem_cons_of_mem first inside)).congr frame.1 frame.2
      · by_cases same : scope = first
        · subst same
          exact (updateScope_describes (tidy scope) (fits_id _) turn).located
        · have frame := @updateScope_other id first self current synced scope same
          exact (located scope).congr frame.2

/-- After its turn the cache has the document of the scope. -/
theorem updateScope_cache
    (cleaned : synced.cacheDocs scope = none ∨ synced.cacheDocs scope = current scope) :
    (updateScope id self current synced scope).cacheDocs scope = current scope := by
  unfold updateScope
  cases here : current scope with
  | none => exact cleaned.elim id fun same => same.trans here
  | some doc =>
    dsimp only
    split
    · assumption
    · exact Function.update_self ..

/-- After an update the cache has the current documents. -/
theorem foldl_cache {scopes : List Scope} (nodup : scopes.Nodup) (turn : scope ∈ scopes)
    (cleaned : synced.cacheDocs scope = none ∨ synced.cacheDocs scope = current scope) :
    (scopes.foldl (updateScope id self current) synced).cacheDocs scope = current scope := by
  induction scopes generalizing synced with
  | nil => exact absurd turn List.not_mem_nil
  | cons first rest ih =>
    have parts := List.nodup_cons.1 nodup
    rw [List.foldl_cons]
    by_cases here : scope = first
    · subst here
      have later : ∀ (list : List Scope) (synced : Synced), scope ∉ list →
          (list.foldl (updateScope id self current) synced).cacheDocs scope =
              synced.cacheDocs scope := by
        intro list
        induction list with
        | nil => exact fun _ _ => rfl
        | cons other list further =>
          intro synced absent
          rw [List.mem_cons, not_or] at absent
          rw [List.foldl_cons, further _ absent.2]
          exact (updateScope_other self current synced absent.1).1
      rw [later rest _ parts.1]
      exact updateScope_cache cleaned
    · have frame := @updateScope_other id first self current synced _ here
      exact ih parts.2 ((List.mem_cons.1 turn).resolve_left here) (by rw [frame.1]; exact cleaned)

end Tables

section Calls

variable {self next : Program} {vars : Vars} {scope : Scope} {doc place : ℕ}

/-- The table of the validator is that of the current documents, and the cache says so. -/
structure Sound (program : Program) (vars : Vars) : Prop where
  only : program.validators = [.only vars]
  cached : ∀ scope, program.cacheDocs scope = program.current scope
  tidy : Distinct program
  described : ∀ scope, Describes vars scope (program.dict scope (program.current scope))

theorem Sound.here (sound : Sound self vars) : self.validators[0]? = some (.only vars) := by
  rw [sound.only]
  rfl

theorem Sound.ordered (sound : Sound self vars) : Ordered self (.only vars) where
  only := sound.only
  stored scope param member := (sound.described scope).entry_of_mem member
  increasing scope :=
    (List.pairwise_cons.1 (List.isChain_iff_pairwise.1 (sound.described scope).ordered)).2
  terminates := terminates_of_located fun scope => (sound.described scope).located
  earlier scope front mine back depName depScope node parts other resolved := by
    have described := sound.described scope
    have member : mine ∈ self.dict scope (self.current scope) := by
      rw [parts]
      exact List.mem_append_right front List.mem_cons_self
    have here := described.entry_of_mem member
    obtain ⟨names, covered, apart⟩ := described.located
    refine (getDepParam_lower here resolved).imp_right ?_
    rintro ⟨same, lower, there, le⟩
    obtain ⟨dep, inside, rfl, rfl⟩ := (described.exactly depName node).1 (by rw [there]; rfl)
    refine ⟨same, dep, ?_, rfl, rfl⟩
    have sorted := (List.pairwise_cons.1 (List.isChain_iff_pairwise.1 described.ordered)).2
    rw [parts] at inside
    rw [parts, List.map_append, List.map_cons, List.pairwise_append, List.pairwise_cons] at sorted
    rcases List.mem_append.1 inside with before | later
    · exact before
    · rcases List.mem_cons.1 later with rfl | after
      · exact absurd rfl other
      · -- What is behind has a greater weight.
        have more := sorted.2.1.1 _ (List.mem_map_of_mem after)
        rw [getWeight_eq, getWeight_eq, there, here] at more
        exact absurd more (not_lt.2 le)

/-- **A call that changes dictionaries.** -/
theorem Sound.edited {op : Op} {vars' : Vars} (sound : Sound self vars) (distinct : Distinct next)
    (edited : Edited id self next op 0 (.only vars) vars')
    (frame : next.cells = self.cells ∧ next.cacheDocs = self.cacheDocs)
    (inside : ∀ scope doc, self.touched scope op = some doc → self.current scope = some doc)
    (careful : self.Careful id op) : Sound next vars' where
  only := by
    apply List.ext_getElem?
    intro v
    cases v with
    | zero => exact edited.here
    | succ v => rw [edited.others (v + 1) (Nat.succ_ne_zero v), sound.only]; rfl
  cached scope := by
    unfold Program.current
    rw [frame.1, frame.2]
    exact sound.cached scope
  tidy := distinct
  described scope := by
    have tidy := sound.tidy scope
    have described := sound.described scope
    have same : next.current scope = self.current scope := by
      unfold Program.current
      rw [frame.1]
    rw [same]
    cases current : self.current scope with
    | none =>
      have untouched : self.touched scope op = none := by
        cases touched : self.touched scope op with
        | none => rfl
        | some doc =>
          exact absurd (current.symm.trans (inside scope doc touched)) (Option.some_ne_none _).symm
      rw [current] at described
      exact described.congr (edited.entries scope untouched)
    | some doc =>
      rw [current] at tidy described
      cases touched : self.touched scope op with
      | none =>
        show Describes vars' scope (next.dicts scope doc)
        rw [edited.dicts scope doc (touched ▸ (Option.some_ne_none doc).symm)]
        exact described.congr (edited.entries scope touched)
      | some other =>
        obtain rfl := Option.some.inj (current.symm.trans (inside scope other touched))
        exact (edited.careful careful scope doc touched tidy described).2

/-- The parameter at a place, with the dictionary that it is in. -/
theorem Sound.paramAt (sound : Sound self vars) (current : self.current scope = some doc)
    {before after : Dict} {param : Parameter}
    (found : self.paramAt scope doc place = some (before, param, after)) :
    Tidy (before ++ param :: after) ∧ Describes vars scope (before ++ param :: after) := by
  have tidy := sound.tidy scope
  have described := sound.described scope
  rw [current] at tidy described
  rw [← paramAt_some found]
  exact ⟨tidy, described⟩

theorem Distinct.tidy (distinct : Distinct self) (current : self.current scope = some doc) :
    Tidy (self.dicts scope doc) := by
  have tidy := distinct scope
  rw [current] at tidy
  exact tidy

theorem touches_current (current : self.current scope = some doc) {op : Op}
    (touched : ∀ at', self.touched at' op = if at' = scope then some doc else none) (at' : Scope)
    (other : ℕ) (touches : self.touched at' op = some other) : self.current at' = some other := by
  rw [touched] at touches
  split_ifs at touches with same
  exact same ▸ current.trans touches

theorem Sound.insert (sound : Sound self vars) (current : self.current scope = some doc)
    {keyword : String} {type : GebrGeoXmlParameterType} {value : String} {required : Bool}
    (distinct : Distinct next)
    (taken : self.step id (.insert 0 scope doc place keyword type value required) = some next) :
    ∃ vars', Sound next vars' := by
  obtain ⟨validator, here, rfl⟩ := Option.map_eq_some_iff.1 taken
  obtain rfl := Option.some.inj (sound.here.symm.trans here)
  obtain ⟨vars', edited⟩ := @insert_edited id _ _ _ scope doc place here keyword type value required
  have parts := List.take_append_drop place (self.dicts scope doc)
  have described := sound.described scope
  rw [current] at described
  refine ⟨vars', sound.edited distinct edited ⟨rfl, rfl⟩ (touches_current current fun _ => rfl) ?_⟩
  have tidy := distinct.tidy (current :)
  rw [Program.insert, dicts_setVars, dicts_setDict_self, Tidy.middle, parts] at tidy
  refine ⟨tidy.2.1, tidy.2.2, fun validator again => ?_⟩
  obtain rfl := Option.some.inj (here.symm.trans again)
  apply fitsBetween
  rw [parts]
  exact described.ordered

theorem Sound.remove (sound : Sound self vars) (current : self.current scope = some doc)
    (distinct : Distinct next) (taken : self.step id (.remove 0 scope doc place) = some next) :
    ∃ vars', Sound next vars' := by
  obtain ⟨validator, here, found⟩ := Option.bind_eq_some_iff.1 taken
  obtain ⟨⟨before, param, after⟩, there, rfl⟩ := Option.map_eq_some_iff.1 found
  obtain rfl := Option.some.inj (sound.here.symm.trans here)
  obtain ⟨vars', edited⟩ := @remove_edited id _ _ _ _ _ _ here _ _ _ there
  refine ⟨vars', sound.edited distinct edited ?_ (touches_current current fun _ => rfl) trivial⟩
  dsimp only
  unfold Program.remove
  dsimp only
  split <;> exact ⟨rfl, rfl⟩

theorem Sound.rename (sound : Sound self vars) (current : self.current scope = some doc)
    {newName : String} (distinct : Distinct next)
    (taken : self.step id (.rename 0 scope doc place newName) = some next) :
    ∃ vars', Sound next vars' := by
  obtain ⟨validator, here, found⟩ := Option.bind_eq_some_iff.1 taken
  obtain ⟨⟨before, param, after⟩, there, rfl⟩ := Option.map_eq_some_iff.1 found
  obtain rfl := Option.some.inj (sound.here.symm.trans here)
  obtain ⟨vars', edited⟩ := @rename_edited id _ _ _ _ _ _ here _ _ _ there newName
  obtain ⟨tidy, described⟩ := sound.paramAt current there
  refine ⟨vars', sound.edited distinct edited ?_ (touches_current current fun _ => rfl) ?_⟩
  · dsimp only
    unfold Program.rename
    split
    · exact ⟨rfl, rfl⟩
    · split <;> exact ⟨rfl, rfl⟩
  · have names : newName ≠ "" ∧ (param.keyword = newName ∨
        ∀ other ∈ before ++ after, other.keyword ≠ newName) := by
      by_cases same : param.keyword = newName
      · exact ⟨same ▸ (Tidy.middle.1 tidy).2.1, .inl same⟩
      · have stored := described.entry_of_mem (List.mem_append_right before List.mem_cons_self)
        have known : (GebrValidator.only vars).vars param.keyword ≠ none := fun unset =>
          Option.some_ne_none _ (stored.symm.trans (entry_none unset))
        have renamed := distinct
        dsimp only at renamed
        unfold Program.rename at renamed
        rw [if_neg same, if_neg known] at renamed
        have after' := renamed.tidy (current :)
        rw [dicts_setVars, dicts_setDict_self, Tidy.middle] at after'
        exact ⟨after'.2.1, .inr after'.2.2⟩
    refine ⟨names.1, fun before' param' after' again => ?_⟩
    obtain ⟨rfl, rfl, rfl⟩ : before = before' ∧ param = param' ∧ after = after' := by
      simpa using Option.some.inj (there.symm.trans again)
    exact names.2

theorem Sound.change (sound : Sound self vars) (current : self.current scope = some doc)
    {newValue : String} (distinct : Distinct next)
    (taken : self.step id (.changeValue 0 scope doc place newValue) = some next) :
    ∃ vars', Sound next vars' := by
  obtain ⟨validator, here, found⟩ := Option.bind_eq_some_iff.1 taken
  obtain ⟨⟨before, param, after⟩, there, rfl⟩ := Option.map_eq_some_iff.1 found
  refine ⟨vars, ?_⟩
  obtain ⟨-, described⟩ := sound.paramAt current there
  dsimp only at distinct ⊢
  unfold Program.changeValue at distinct ⊢
  split
  · exact sound
  · rename_i allowed
    rw [if_neg allowed] at distinct
    refine ⟨sound.only, sound.cached, distinct, fun at' => ?_⟩
    have others := sound.described at'
    show Describes vars at' (Program.dict _ at' (self.current at'))
    cases here : self.current at' with
    | none =>
      rw [here] at others
      exact others
    | some other =>
      rw [here] at others
      show Describes vars at' ((self.setDict scope doc _).dicts at' other)
      by_cases same : at' = scope
      · subst same
        obtain rfl := Option.some.inj (here.symm.trans current)
        rw [dicts_setDict_self]
        exact described.revalue newValue
      · rw [dicts_setDict_other _ fun scopes => absurd scopes same]
        exact others

theorem copyOf_current {validator : GebrValidator} (stack : validator.docs = fun _ => [some 0])
    {param copy : Parameter} {pivotScope : Scope} {target : ℕ}
    (copied : self.copyOf validator param pivotScope = some (target, copy)) :
    self.current pivotScope = some target := by
  have same : self.getDocument validator pivotScope = self.current pivotScope := by
    unfold Program.getDocument
    rw [stack]
    rfl
  unfold Program.copyOf setDictKeyword at copied
  split at copied
  · obtain ⟨doc, here, pair⟩ := Option.map_eq_some_iff.1 copied
    obtain ⟨rfl, -⟩ := Prod.mk.inj pair
    exact same.symm.trans here
  · cases copied

theorem move_frame {validator : GebrValidator} {before after : Dict} {param : Parameter}
    {pivotScope : Scope} {position : ℕ}
    (moved : self.move id 0 validator scope doc before param after pivotScope position = some next) :
    next.cells = self.cells ∧ next.cacheDocs = self.cacheDocs := by
  unfold Program.move at moved
  cases known : validator.vars param.keyword with
  | none => rw [known] at moved; exact Option.some.inj moved ▸ ⟨rfl, rfl⟩
  | some data =>
    rw [known] at moved
    dsimp only at moved
    split_ifs at moved
    · exact Option.some.inj moved ▸ ⟨rfl, rfl⟩
    · exact Option.some.inj moved ▸ ⟨rfl, rfl⟩
    · exact Option.some.inj moved ▸ ⟨rfl, rfl⟩
    · obtain rfl := Option.some.inj moved
      unfold Program.moveAcross
      dsimp only
      split <;> exact ⟨rfl, rfl⟩

theorem Sound.move (sound : Sound self vars) (current : self.current scope = some doc)
    {pivotScope : Scope} {position : ℕ} (distinct : Distinct next)
    (taken : self.step id (.move 0 scope doc place pivotScope position) = some next) :
    ∃ vars', Sound next vars' := by
  obtain ⟨validator, here, found⟩ := Option.bind_eq_some_iff.1 taken
  obtain ⟨⟨before, param, after⟩, there, moved⟩ := Option.bind_eq_some_iff.1 found
  obtain rfl := Option.some.inj (sound.here.symm.trans here)
  obtain ⟨vars', edited⟩ := @move_edited id _ _ _ _ _ _ _ here _ _ _ there _ position moved
  obtain ⟨tidy, described⟩ := sound.paramAt current there
  refine ⟨vars', sound.edited distinct edited (move_frame moved) (fun at' other touched => ?_) ?_⟩
  · rw [touched_move here there] at touched
    split_ifs at touched with refused source pivot
    · exact source ▸ current.trans touched
    · obtain ⟨⟨target, copy⟩, copied, rfl⟩ := Option.map_eq_some_iff.1 touched
      exact pivot ▸ copyOf_current rfl copied
  · intro validator again before' param' after' same
    obtain rfl := Option.some.inj (here.symm.trans again)
    obtain ⟨rfl, rfl, rfl⟩ : before = before' ∧ param = param' ∧ after = after' := by
      simpa using Option.some.inj (there.symm.trans same)
    refine ⟨fun _ => ?_, fun _ target copy copied => ⟨(Tidy.middle.1 tidy).2.1, ?_⟩⟩
    · apply fitsBetween
      rw [List.take_append_drop]
      exact ordered_sublist described ((List.sublist_cons_self param after).append_left before)
    · have others := sound.described pivotScope
      rw [copyOf_current rfl copied] at others
      apply fitsBetween
      rw [List.take_append_drop]
      exact others.ordered

/-- The table of the copy before it is moved. -/
theorem Sound.moveTables (sound : Sound self vars) (current : self.current scope = some doc)
    {pivotScope : Scope} {position : ℕ} :
    ∀ table ∈ checkedTables self (.move scope place pivotScope position), Terminates table := by
  intro table member
  unfold checkedTables at member
  simp only [Option.mem_toList, sound.here, current, Option.bind_some] at member
  obtain ⟨⟨before, param, after⟩, there, rest⟩ := Option.bind_eq_some_iff.1 member
  dsimp only at rest
  split_ifs at rest with refused
  rw [not_or, not_not] at refused
  obtain ⟨⟨target, copy⟩, copied, rfl⟩ := Option.map_eq_some_iff.1 rest
  have keyword := copyOf_keyword copied
  have unset : entry vars pivotScope copy.keyword = none := keyword ▸ refused.2
  have named := (Tidy.middle.1 (sound.paramAt current there).1).2.1
  have described := sound.described pivotScope
  rw [copyOf_current rfl copied] at described
  have free : ∀ other ∈ self.dicts pivotScope target, other.keyword ≠ copy.keyword :=
      fun other inside same => by
    have stored := described.entry_of_mem inside
    rw [same, unset] at stored
    exact Option.some_ne_none _ stored.symm
  have fits : FitsBetween id vars pivotScope (self.dicts pivotScope target) [] := by
    apply fitsBetween
    rw [List.append_nil]
    exact described.ordered
  apply terminates_of_located
  intro at'
  by_cases same : at' = pivotScope
  · subst same
    have entered : ∀ name,
        entry (insertParam id vars at' (self.dicts at' target).getLast? none copy) at' name =
          if name = copy.keyword then
          some (copy.node, computeWeight id vars at' (self.dicts at' target).getLast? none)
        else entry vars at' name := by
      intro name
      rw [entry_insert (keyword ▸ named) (fun q last => free q (List.mem_of_getLast? last))
        fun q none' => absurd none' (Option.not_mem_none q), unset]
      simp only [true_and]
      rfl
    have whole : Describes vars at' (self.dicts at' target ++ []) := by
      rw [List.append_nil]
      exact described
    have apart : ∀ other ∈ self.dicts at' target ++ [], other.keyword ≠ copy.keyword := by
      rw [List.append_nil]
      exact free
    have added := whole.insert fits apart entered
    exact added.located
  · exact (sound.described at').located.congr fun name => entry_insert_other _ _ _ _ same name

/-- Before an update the table is that of the cached documents. -/
theorem Sound.waiting (sound : Sound self vars) (docs : Scope → Option ℕ) (scope : Scope) :
    Waiting (self.select docs) docs scope (gebrValidatorCleanCache (self.select docs) docs vars) := by
  refine cleanCache_waiting
    (.inr fun scope => ⟨fun agreed => ?_, fun _ name node weight here => .inl ?_⟩) scope
  · have current : self.current scope = docs scope := (sound.cached scope).symm.trans agreed
    rw [← current]
    exact sound.described scope
  · obtain ⟨param, inside, rfl, -⟩ := ((sound.described scope).exactly name node).1 (by rw [here]; rfl)
    rw [← sound.cached scope] at inside
    exact List.mem_map_of_mem inside

theorem select_current (docs : Scope → Option ℕ) : (self.select docs).current = docs := by
  funext scope
  exact @Function.update_self ℕ _ _ 0 (docs scope) (self.cells scope)

/-- **An update.** -/
theorem synced_sound {start : Program} {docs : Scope → Option ℕ} (stands : start.current = docs)
    (only : start.validators = [.only vars]) (distinct : Distinct start)
    (waiting : ∀ scope, Waiting start docs scope (gebrValidatorCleanCache start docs vars)) :
    Sound (start.update id 0 (.only vars)) (synchronise id start docs vars).vars := by
  have same : start.getDocument (.only vars) = docs := stands
  have order : ∀ scope, Tidy (start.dict scope (docs scope)) := by
    intro scope
    rw [← stands]
    exact distinct scope
  refine ⟨?_, fun scope => ?_, distinct, fun scope => ?_⟩
  · show start.validators.set 0 _ = _
    rw [only, same]
    rfl
  · show (synchronise id start (start.getDocument (.only vars)) vars).cacheDocs scope =
      start.current scope
    rw [same, stands]
    exact foldl_cache (by decide) (by cases scope <;> decide) (waiting scope).cleaned
  · show Describes _ scope (start.dict scope (start.current scope))
    rw [stands]
    exact foldl_updateScope (order scope) (fits_id _) (by decide) (waiting scope)
      (by cases scope <;> decide)

theorem Sound.update (sound : Sound self vars) {docs : Scope → Option ℕ} (distinct : Distinct next)
    (taken : (self.select docs).step id (.update 0) = some next) :
    (∃ vars', Sound next vars') ∧ ∀ table ∈ checkedTables self (.update docs), Terminates table := by
  obtain ⟨validator, here, rfl⟩ := Option.map_eq_some_iff.1 taken
  obtain rfl := Option.some.inj (sound.here.symm.trans here)
  have order : Distinct (self.select docs) := distinct
  refine ⟨⟨_, synced_sound (select_current docs) sound.only order (sound.waiting docs)⟩,
    fun table member => ?_⟩
  simp only [checkedTables, sound.here, Option.map_some, Option.getD_some] at member
  apply terminates_of_located
  refine updateTables_located (fun scope => ?_) (by decide : inwards.Nodup)
    (fun scope _ => sound.waiting docs scope) (fun scope absent => ?_) table member
  · have tidy := order scope
    rw [select_current] at tidy
    exact tidy
  · exact absurd (by cases scope <;> decide) absent

/-- **Each call** keeps the table that of the current documents. -/
theorem callStep_sound (sound : Sound self vars) {call : Call} (distinct : Distinct next)
    (taken : callStep self call = some next) :
    (∃ vars', Sound next vars') ∧ ∀ table ∈ checkedTables self call, Terminates table := by
  have none' : ∀ {P : Vars → Prop}, ∀ table ∈ ([] : List Vars), P table :=
    fun _ member => absurd member List.not_mem_nil
  cases call with
  | insert scope place keyword type value required =>
    obtain ⟨doc, current, step⟩ := Option.bind_eq_some_iff.1 taken
    exact ⟨sound.insert current distinct step, none'⟩
  | remove scope place =>
    obtain ⟨doc, current, step⟩ := Option.bind_eq_some_iff.1 taken
    exact ⟨sound.remove current distinct step, none'⟩
  | rename scope place newName =>
    obtain ⟨doc, current, step⟩ := Option.bind_eq_some_iff.1 taken
    exact ⟨sound.rename current distinct step, none'⟩
  | change scope place newValue =>
    obtain ⟨doc, current, step⟩ := Option.bind_eq_some_iff.1 taken
    exact ⟨sound.change current distinct step, none'⟩
  | move scope place pivotScope position =>
    obtain ⟨doc, current, step⟩ := Option.bind_eq_some_iff.1 taken
    exact ⟨sound.move current distinct step, sound.moveTables current⟩
  | update docs => exact sound.update distinct taken

end Calls

section Runs

variable {docs : Scope → Option ℕ} {dicts : Scope → ℕ → Dict} {fresh : ℕ}

theorem opened_sound (distinct : Distinct (opened docs dicts fresh)) :
    ∃ vars, Sound (opened docs dicts fresh) vars := by
  refine ⟨_, @synced_sound _ _ docs rfl rfl distinct
    fun scope => cleanCache_waiting (.inr fun scope => ?_) scope⟩
  refine ⟨fun agreed => ?_, fun _ name node weight here => absurd here (Option.some_ne_none _).symm⟩
  rw [← (show none = docs scope from agreed)]
  exact describes_nil fun _ => rfl

/-- **Every run** over dictionaries whose names are distinct: in each state the weights are in order
and the check of references ends, and so it does on the tables within each call. -/
theorem run_ordered (docs : Scope → Option ℕ) (dicts : Scope → ℕ → Dict) (fresh : ℕ)
    (calls : List Call) (distinct : Distinct (opened docs dicts fresh))
    (guarded : Guarded callStep KeepsDistinct (opened docs dicts fresh) calls) :
    (∃ validator, Ordered (opened docs dicts fresh) validator) ∧
      ∀ self call next, (self, call, next) ∈ trace callStep (opened docs dicts fresh) calls →
        OrderedAfter self call next := by
  obtain ⟨vars, sound⟩ := opened_sound distinct
  refine ⟨⟨_, sound.ordered⟩, ?_⟩
  have keep : ∀ self call next, (∃ vars, Sound self vars) → KeepsDistinct self call →
      callStep self call = some next → (∃ vars, Sound next vars) ∧ OrderedAfter self call next := by
    rintro self call next ⟨vars, sound⟩ keeps taken
    obtain ⟨⟨vars', after⟩, tables⟩ := callStep_sound sound (keeps next taken) taken
    exact ⟨⟨vars', after⟩, ⟨_, after.ordered⟩, tables⟩
  exact trace_forall keep ⟨vars, sound⟩ guarded

/-- A variable is put in front of another one, which then goes to the line, and another project is
opened. -/
def someCalls : List Call :=
  [.insert .project 0 "y" .float "2" true, .move .project 1 .line 0, .update fun _ => some 1]

theorem someCalls_distinct :
    Guarded callStep KeepsDistinct (opened (fun _ => some 0) twoProjects 2) someCalls := by
  refine ⟨fun next taken => ?_, fun next taken => ?_⟩
  · obtain rfl := Option.some.inj taken
    exact fun scope => by cases scope <;> decide +kernel
  obtain rfl := Option.some.inj taken
  refine ⟨fun next taken => ?_, fun next taken => ?_⟩
  · obtain rfl := Option.some.inj taken
    exact fun scope => by cases scope <;> decide +kernel
  obtain rfl := Option.some.inj taken
  refine ⟨fun next taken => ?_, fun _ _ => trivial⟩
  obtain rfl := Option.some.inj taken
  exact fun scope => by cases scope <;> decide +kernel

theorem run_ordered_calls :
    (Gebr.Lib.Run.run callStep (opened (fun _ => some 0) twoProjects 2) someCalls).isSome = true ∧
      (∃ validator, Ordered (opened (fun _ => some 0) twoProjects 2) validator) ∧
      ∀ self call next, (self, call, next) ∈ trace callStep
        (opened (fun _ => some 0) twoProjects 2) someCalls → OrderedAfter self call next := by
  refine ⟨by decide +kernel, run_ordered _ _ _ _ (fun scope => ?_) someCalls_distinct⟩
  cases scope <;> decide +kernel

end Runs

end Gebr.Validator
