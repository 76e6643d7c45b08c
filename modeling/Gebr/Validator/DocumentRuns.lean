/-
**When each validator describes its own documents.**

* `Ledger`: which documents the table of a validator has followed: it loaded them in an update, and
  since then only this validator changed them.
* `Ready`: before an update, what the shared cache says of the documents of this validator is true.
* `step_keeps` — **every call** keeps the tables of the ledger right, and an update that is ready
  leaves a table that describes the documents of its validator.
* `run_described` — **every run** whose updates are ready.
* `new_undescribed`: a second validator over the same project gets an empty table.
-/

import Gebr.Lib.Run
import Gebr.Validator.Described

namespace Gebr.Validator

open Gebr.Geoxml (GebrGeoXmlParameterType)
open Gebr.Lib.Run (Guarded trace trace_forall)

section Ledger

variable (round : ℚ → ℚ)

/-- The documents that the table of a validator follows. -/
abbrev Ledger : Type := ℕ → Scope → ℕ → Prop

/-- The validator that a call changes a dictionary through. -/
def Op.editor : Op → Option ℕ
  | .insert v _ _ _ _ _ _ _ => some v
  | .remove v _ _ _ => some v
  | .rename v _ _ _ _ => some v
  | .move v _ _ _ _ _ => some v
  | _ => none

/-- The copy that a move across scopes makes, and its document. -/
def Program.copyOf (self : Program) (validator : GebrValidator) (param : Parameter)
    (pivotScope : Scope) : Option (ℕ × Parameter) :=
  setDictKeyword (self.getDocument validator pivotScope) self.fresh param.type
    param.keyword param.value

/-- The document of a scope whose dictionary a call is about to change. A move that is refused
changes none. -/
def Program.touched (self : Program) (scope : Scope) : Op → Option ℕ
  | .insert _ at' doc _ _ _ _ _ => if scope = at' then some doc else none
  | .remove _ at' doc _ => if scope = at' then some doc else none
  | .rename _ at' doc _ _ => if scope = at' then some doc else none
  | .move v at' doc place pivotScope _ =>
    self.validators[v]?.bind fun validator => (self.paramAt at' doc place).bind fun (_, param, _) =>
      if at' ≠ pivotScope ∧ entry validator.vars pivotScope param.keyword ≠ none then none
      else if scope = at' then some doc
      else if scope = pivotScope then (self.copyOf validator param pivotScope).map Prod.fst
      else none
  | _ => none

/-- The weight that a parameter gets between two parts of a dictionary lies between those of its
neighbours. -/
def FitsBetween (vars : Vars) (scope : Scope) (front back : Dict) : Prop :=
  Strict vars scope front.getLast? back.head?
    (computeWeight round vars scope front.getLast? back.head?)

/-- A parameter gets a name that is not empty and new in its dictionary, and a weight between those
of its neighbours. -/
def Program.Careful (self : Program) : Op → Prop
  | .insert v scope doc place keyword _ _ _ =>
    keyword ≠ "" ∧ (∀ other ∈ self.dicts scope doc, other.keyword ≠ keyword) ∧
      ∀ validator ∈ self.validators[v]?, FitsBetween round validator.vars scope
        ((self.dicts scope doc).take place) ((self.dicts scope doc).drop place)
  | .rename _ scope doc place newName =>
    newName ≠ "" ∧ ∀ before param after, self.paramAt scope doc place = some (before, param, after) →
      param.keyword = newName ∨ ∀ other ∈ before ++ after, other.keyword ≠ newName
  | .move v scope doc place pivotScope position =>
    ∀ validator ∈ self.validators[v]?, ∀ before param after,
      self.paramAt scope doc place = some (before, param, after) →
        (scope = pivotScope → FitsBetween round validator.vars scope
          ((before ++ after).take position) ((before ++ after).drop position)) ∧
        (scope ≠ pivotScope → ∀ target copy, self.copyOf validator param pivotScope =
          some (target, copy) → param.keyword ≠ "" ∧ FitsBetween round validator.vars pivotScope
            ((self.dicts pivotScope target).take position)
              ((self.dicts pivotScope target).drop position))
  | _ => True

/-- The ledger after a call: an updated validator follows its own documents; a changed document is
followed only by the validator that changed it, with care. -/
def Ledger.step (ledger : Ledger) (self : Program) (op : Op) : Ledger := fun w scope doc =>
  match self.syncing op with
  | some (v, validator) =>
    if w = v then self.getDocument validator scope = some doc else ledger w scope doc
  | none =>
    ledger w scope doc ∧ ∀ other, self.touched scope op = some other →
      if op.editor = some w then other = doc ∧ self.Careful round op else other ≠ doc

/-- The program with its ledger. -/
def trackedStep (tracked : Program × Ledger) (op : Op) : Option (Program × Ledger) :=
  (tracked.1.step round op).map fun next => (next, tracked.2.step round tracked.1 op)

/-- In one scope, what the cache says of the documents of the validator is true: a document that it
knows is followed by this validator (or has no parameters, and neither has the table); else what the
table has leaves it with the cached document, or stands at its place in the current one. -/
def Program.Honest (self : Program) (ledger : Ledger) (v : ℕ) (validator : GebrValidator)
    (scope : Scope) : Prop :=
  let cached := self.cacheDocs scope
  let current := self.getDocument validator scope
  (cached = current →
      (∃ doc, current = some doc ∧ ledger v scope doc) ∨
        (self.dict scope current = [] ∧ ∀ name, entry validator.vars scope name = none)) ∧
    (cached ≠ current → ∀ name node weight, entry validator.vars scope name = some (node, weight) →
      name ∈ (self.dict scope cached).map Parameter.keyword ∨
        Placed (self.dict scope current) name node weight)

/-- Before an update: the dictionaries are in order, and the table is built anew or the cache is
honest. -/
structure Ready (program : Program) (ledger : Ledger) (v : ℕ) (validator : GebrValidator) : Prop where
  tidy : ∀ scope, Tidy (program.dict scope (program.getDocument validator scope))
  fits : ∀ scope, (program.dict scope (program.getDocument validator scope)).length ≤ 2 ^ 52
  honest : program.Rebuilt (program.getDocument validator) ∨
    ∀ scope, program.Honest ledger v validator scope

/-- Every update that a call makes is ready. -/
def Harmless (tracked : Program × Ledger) (op : Op) : Prop :=
  ∀ v validator, tracked.1.syncing op = some (v, validator) → Ready tracked.1 tracked.2 v validator

/-- After an update the validator describes its own documents. -/
def DescribedAfter (tracked : Program × Ledger) (op : Op) (next : Program × Ledger) : Prop :=
  ∀ v before, tracked.1.syncing op = some (v, before) →
    ∃ validator, next.1.validators[v]? = some validator ∧ next.1.Described validator

end Ledger

section Step

variable {round : ℚ → ℚ} {self next : Program} {ledger : Ledger}

/-- The ledger is right: the tables describe what they follow. -/
def Right (tracked : Program × Ledger) : Prop :=
  ∀ v scope doc, tracked.2 v scope doc → Tidy (tracked.1.dicts scope doc) ∧
    ∃ validator, tracked.1.validators[v]? = some validator ∧
      Describes validator.vars scope (tracked.1.dicts scope doc)

/-- An honest cache is truthful. -/
theorem Ready.truthful {v : ℕ} {validator : GebrValidator} (right : Right (self, ledger))
    (ready : Ready self ledger v validator)
    (own : ∀ scope doc, ledger v scope doc → ∃ old, self.validators[v]? = some old ∧ old.vars =
    validator.vars) : self.Rebuilt (self.getDocument validator) ∨
      ∀ scope, self.Truthful (self.getDocument validator) validator.vars scope := by
  refine ready.honest.imp_right fun honest scope => ⟨fun agreed => ?_, (honest scope).2⟩
  rcases (honest scope).1 agreed with ⟨doc, current, follows⟩ | ⟨empty, unset⟩
  · obtain ⟨_, old, here, described⟩ := right v scope doc follows
    obtain ⟨same, there, vars⟩ := own scope doc follows
    obtain rfl := Option.some.inj (here.symm.trans there)
    rw [current, ← vars]
    exact described
  · rw [empty]
    exact describes_nil unset

/-- **An update.** The validator stands in the list `validators`; the others are those of before. -/
theorem update_right (exact : Exact round) (right : Right (self, ledger)) {v : ℕ}
    {validator : GebrValidator} (ready : Ready self ledger v validator)
    (own : ∀ scope doc, ledger v scope doc →
      ∃ old, self.validators[v]? = some old ∧ old.vars = validator.vars)
    {validators : List GebrValidator} (inside : v < validators.length)
    (others : ∀ w old, w ≠ v → self.validators[w]? = some old → validators[w]? = some old) :
    let next := Program.update round { self with validators } v validator
    Right (next, fun w scope doc =>
        if w = v then self.getDocument validator scope = some doc else ledger w scope doc) ∧
      ∃ updated, next.validators[v]? = some updated ∧ next.Described updated := by
  intro next
  have described := synchronise_describes self (self.getDocument validator) validator.vars
    ready.tidy (fun scope => exact.fits (ready.fits scope)) (ready.truthful right own)
  have here : next.validators[v]? =
      some { validator with vars :=
          (synchronise round self (self.getDocument validator) validator.vars).vars } := by
    show (validators.set v _)[v]? = _
    rw [List.getElem?_set_self inside]
    rfl
  refine ⟨fun w scope doc follows => ?_, _, here, described⟩
  dsimp only at follows
  by_cases same : w = v
  · subst same
    rw [if_pos rfl] at follows
    have tidy := ready.tidy scope
    have new := described scope
    rw [follows] at tidy new
    exact ⟨tidy, _, here, new⟩
  · rw [if_neg same] at follows
    obtain ⟨tidy, old, there, describes⟩ := right w scope doc follows
    refine ⟨tidy, old, ?_, describes⟩
    show (validators.set v _)[w]? = _
    rw [List.getElem?_set_ne (Ne.symm same)]
    exact others w old same there

/-- An update of a validator of the program, with another stack but the same table. -/
theorem update_here (exact : Exact round) (right : Right (self, ledger)) {v : ℕ}
    {old validator : GebrValidator} (here : self.validators[v]? = some old)
    (vars : old.vars = validator.vars) (ready : Ready self ledger v validator) :
    let next := self.update round v validator
    Right (next, fun w scope doc =>
        if w = v then self.getDocument validator scope = some doc else ledger w scope doc) ∧
      ∃ updated, next.validators[v]? = some updated ∧ next.Described updated :=
  update_right exact right ready (fun _ _ _ => ⟨old, here, vars⟩)
    (List.getElem?_eq_some_iff.1 here).1 fun _ _ _ there => there

/-- A call that changes the stacks of a validator and updates it. -/
theorem stacks_keep (exact : Exact round) (right : Right (self, ledger)) {v w : ℕ}
    {change : GebrValidator → GebrValidator} (vars : ∀ old, old.vars = (change old).vars)
    (taken : (self.validators[w]?.map fun old => self.update round w (change old)) = some next)
    {validator : GebrValidator}
    (syncing : (self.validators[w]?.map fun old => (w, change old)) = some (v, validator))
    (ready : Ready self ledger v validator) :
    Right (next, fun w scope doc =>
        if w = v then self.getDocument validator scope = some doc else ledger w scope doc) ∧
      ∃ updated, next.validators[v]? = some updated ∧ next.Described updated := by
  obtain ⟨old, here, rfl⟩ := Option.map_eq_some_iff.1 taken
  obtain ⟨_, again, pair⟩ := Option.map_eq_some_iff.1 syncing
  obtain rfl := Option.some.inj (here.symm.trans again)
  obtain ⟨rfl, rfl⟩ := Prod.mk.inj pair
  exact update_here exact right here (vars old) ready

/-- **Every call that brings a validator up to date.** -/
theorem sync_keeps (exact : Exact round) {op : Op} (right : Right (self, ledger))
    (harmless : Harmless (self, ledger) op) (taken : self.step round op = some next) {v : ℕ}
    {validator : GebrValidator} (syncing : self.syncing op = some (v, validator)) :
    Right (next, ledger.step round self op) ∧
      ∃ updated, next.validators[v]? = some updated ∧ next.Described updated := by
  have ready := harmless v validator syncing
  have moved : ledger.step round self op = fun w scope doc =>
      if w = v then self.getDocument validator scope = some doc else ledger w scope doc := by
    funext w scope doc
    unfold Ledger.step
    simp only [syncing]
  rw [moved]
  cases op with
  | new flow line proj =>
    obtain ⟨rfl, rfl⟩ := Prod.mk.inj (Option.some.inj syncing)
    obtain rfl := Option.some.inj taken
    refine update_right exact right ready (fun scope doc follows => ?_) ?_ fun w old _ there => ?_
    · obtain ⟨_, old, there, _⟩ := right _ scope doc follows
      exact absurd (List.getElem?_eq_some_iff.1 there).1 (lt_irrefl _)
    · rw [List.length_append]
      exact Nat.lt_succ_self _
    · rw [List.getElem?_append_left (List.getElem?_eq_some_iff.1 there).1]
      exact there
  | update v => exact stacks_keep exact right (fun old => @rfl _ (id old).vars) taken syncing ready
  | pushDocument v doc type =>
    exact stacks_keep exact right (fun old => @rfl _ (old.push type doc).vars) taken syncing ready
  | popDocument v type =>
    exact stacks_keep exact right (fun old => @rfl _ (old.pop type).vars) taken syncing ready
  | assign | insert | remove | rename | changeValue | move =>
    exact absurd syncing (Option.some_ne_none _).symm

/-- What a call through a validator changes: its table, and the dictionaries that it touches. -/
structure Edited (round : ℚ → ℚ) (program next : Program) (op : Op) (v : ℕ)
    (validator : GebrValidator) (vars : Vars) : Prop where
  here : next.validators[v]? = some { validator with vars }
  others : ∀ w, w ≠ v → next.validators[w]? = program.validators[w]?
  dicts : ∀ scope doc, program.touched scope op ≠ some doc →
    next.dicts scope doc = program.dicts scope doc
  entries : ∀ scope, program.touched scope op = none → ∀ name,
    entry vars scope name = entry validator.vars scope name
  careful : program.Careful round op → ∀ scope doc, program.touched scope op = some doc →
    Tidy (program.dicts scope doc) → Describes validator.vars scope (program.dicts scope doc) →
    Tidy (next.dicts scope doc) ∧ Describes vars scope (next.dicts scope doc)

/-- **Every call that changes a dictionary** through a validator. -/
theorem edit_keeps {op : Op} {v : ℕ} {validator : GebrValidator} {vars : Vars}
    (right : Right (self, ledger)) (here : self.validators[v]? = some validator)
    (editor : op.editor = some v) (syncing : self.syncing op = none)
    (edited : Edited round self next op v validator vars) :
    Right (next, ledger.step round self op) := by
  intro w scope doc follows
  unfold Ledger.step at follows
  simp only [syncing, editor, Option.some.injEq] at follows
  obtain ⟨followed, kept⟩ := follows
  obtain ⟨tidy, old, there, describes⟩ := right w scope doc followed
  dsimp only at tidy there describes ⊢
  by_cases same : v = w
  · subst same
    obtain rfl := Option.some.inj (here.symm.trans there)
    cases touched : self.touched scope op with
    | none =>
      rw [edited.dicts scope doc (touched ▸ (Option.some_ne_none doc).symm)]
      exact ⟨tidy, _, edited.here, describes.congr (edited.entries scope touched)⟩
    | some other =>
      obtain ⟨rfl, careful⟩ := (if_pos rfl).mp (kept other touched)
      obtain ⟨tidyNext, describesNext⟩ := edited.careful careful scope other touched tidy describes
      exact ⟨tidyNext, _, edited.here, describesNext⟩
  · have untouched : self.touched scope op ≠ some doc := fun touched => by
      have differ := kept doc touched
      rw [if_neg same] at differ
      exact differ rfl
    rw [edited.dicts scope doc untouched, edited.others w (Ne.symm same)]
    exact ⟨tidy, old, there, describes⟩

theorem paramAt_some {scope : Scope} {doc place : ℕ} {before after : Dict} {param : Parameter}
    (found : self.paramAt scope doc place = some (before, param, after)) :
    self.dicts scope doc = before ++ param :: after := by
  unfold Program.paramAt at found
  have whole := List.take_append_drop place (self.dicts scope doc)
  cases rest : (self.dicts scope doc).drop place with
  | nil =>
    rw [rest] at found
    exact absurd found (Option.some_ne_none _).symm
  | cons first tail =>
    rw [rest] at found whole
    obtain ⟨rfl, rfl, rfl⟩ : (self.dicts scope doc).take place = before ∧ first = param ∧
        tail = after := by
      simpa using found
    exact whole.symm

section Edits

variable {v : ℕ} {validator : GebrValidator} {scope : Scope} {doc place : ℕ}

theorem getElem?_setVars (here : self.validators[v]? = some validator) (vars : Vars) :
    (self.setVars v validator vars).validators[v]? = some { validator with vars } ∧
      ∀ w, w ≠ v → (self.setVars v validator vars).validators[w]? = self.validators[w]? :=
  ⟨by
    show (self.validators.set v _)[v]? = _
    exact List.getElem?_set_self (List.getElem?_eq_some_iff.1 here).1,
  fun w other => List.getElem?_set_ne (Ne.symm other)⟩

@[simp] theorem dicts_setVars (vars : Vars) : (self.setVars v validator vars).dicts = self.dicts := rfl

theorem dicts_setDict_self (dict : Dict) : (self.setDict scope doc dict).dicts scope doc = dict := by
  show Function.update self.dicts scope _ scope doc = dict
  rw [Function.update_self, Function.update_self]

theorem dicts_setDict_other (dict : Dict) {at' : Scope} {other : ℕ}
    (apart : at' = scope → other ≠ doc) : (self.setDict scope doc dict).dicts at' other =
    self.dicts at' other := by
  show Function.update self.dicts scope _ at' other = _
  by_cases scopes : at' = scope
  · subst scopes
    rw [Function.update_self, Function.update_of_ne (apart rfl)]
  · rw [Function.update_of_ne scopes]

/-- A call that changes one dictionary. -/
theorem edited_one {op : Op} (here : self.validators[v]? = some validator) {dict : Dict} {vars : Vars}
    {fresh : ℕ} (touched : ∀ at', self.touched at' op = if at' = scope then some doc else none)
    (others : ∀ at', at' ≠ scope → ∀ name, entry vars at' name = entry validator.vars at' name)
    (careful : self.Careful round op → Tidy (self.dicts scope doc) →
      Describes validator.vars scope (self.dicts scope doc) → Tidy dict ∧ Describes vars scope dict) :
    Edited round self (({ self with fresh }.setDict scope doc dict).setVars v validator vars) op v
      validator vars where
  here := (@getElem?_setVars ({ self with fresh }.setDict scope doc dict) v validator here vars).1
  others := (@getElem?_setVars ({ self with fresh }.setDict scope doc dict) v validator here vars).2
  dicts at' other untouched := by
    rw [dicts_setVars, dicts_setDict_other]
    intro scopes same
    exact untouched (by rw [touched, if_pos scopes, same])
  entries at' untouched := by
    refine others at' fun scopes => ?_
    rw [touched, if_pos scopes] at untouched
    exact Option.some_ne_none doc untouched
  careful care at' other touches tidy described := by
    rw [touched] at touches
    by_cases scopes : at' = scope
    · subst scopes
      rw [if_pos rfl] at touches
      obtain rfl := Option.some.inj touches
      rw [dicts_setVars, dicts_setDict_self]
      exact careful care tidy described
    · rw [if_neg scopes] at touches
      exact absurd touches (Option.some_ne_none _).symm

/-- **`gebr_validator_insert`.** -/
theorem insert_edited (here : self.validators[v]? = some validator) (keyword : String)
    (type : GebrGeoXmlParameterType) (value : String) (required : Bool) :
    ∃ vars, Edited round self
      (self.insert round v validator scope doc place
        { node := self.fresh, keyword, type, value, required })
      (.insert v scope doc place keyword type value required) v validator vars := by
  refine ⟨_, edited_one here (fun _ => rfl)
    (fun at' scopes name => entry_insert_other _ _ _ _ scopes name) fun careful tidy described => ?_⟩
  obtain ⟨named, free, fits⟩ := careful
  have parts := List.take_append_drop place (self.dicts scope doc)
  rw [← parts] at tidy described free
  refine ⟨Tidy.middle.2 ⟨tidy, named, free⟩, described.insert (fits validator here) free fun name =>
    ?_⟩
  have unset := described.entry_of_not_mem free
  rw [entry_insert named (fun q last => free q (List.mem_append_left _ (List.mem_of_getLast? last)))
    fun q first => free q (List.mem_append_right _ (List.mem_of_head? first)), unset]
  simp only [true_and]
  rfl

/-- A call that changes nothing. -/
theorem edited_self (here : self.validators[v]? = some validator) (op : Op) :
    Edited round self self op v validator validator.vars where
  here := here
  others _ _ := rfl
  dicts _ _ _ := rfl
  entries _ _ _ := rfl
  careful _ _ _ _ tidy described := ⟨tidy, described⟩

/-- **`gebr_validator_remove`.** -/
theorem remove_edited (here : self.validators[v]? = some validator) {before after : Dict}
    {param : Parameter} (found : self.paramAt scope doc place = some (before, param, after)) :
    ∃ vars, Edited round self (self.remove v validator scope doc before param after)
      (.remove v scope doc place) v validator vars := by
  have whole := paramAt_some found
  unfold Program.remove
  dsimp only
  split
  · refine ⟨_, @edited_one round self v validator scope doc _ here _ _ self.fresh (fun _ => rfl)
      (fun at' scopes name => ?_) fun _ tidy described => ?_⟩
    · rw [entry_remove, if_neg fun at' => scopes at'.1]
    · rw [whole] at tidy described
      have middle := Tidy.middle.1 tidy
      refine ⟨middle.1, described.remove middle.2.2 fun name => ?_⟩
      rw [entry_remove]
      simp only [true_and]
  · exact ⟨_, edited_self here _⟩

/-- **`gebr_validator_rename`.** -/
theorem rename_edited (here : self.validators[v]? = some validator) {before after : Dict}
    {param : Parameter} (found : self.paramAt scope doc place = some (before, param, after))
    (newName : String) :
    ∃ vars, Edited round self (self.rename v validator scope doc before param after newName)
      (.rename v scope doc place newName) v validator vars := by
  have whole := paramAt_some found
  unfold Program.rename
  by_cases same : param.keyword = newName
  · rw [if_pos same]
    exact ⟨_, edited_self here _⟩
  · rw [if_neg same]
    split
    · exact ⟨_, edited_self here _⟩
    · refine ⟨_, @edited_one round self v validator scope doc _ here _ _ self.fresh (fun _ => rfl)
        (fun at' scopes name => entry_rename_other _ (Ne.symm same) scopes name)
        fun careful tidy described => ?_⟩
      have free := (careful.2 before param after found).resolve_left same
      rw [whole] at tidy described
      have middle := Tidy.middle.1 tidy
      have stored := described.entry_of_mem (List.mem_append_right before List.mem_cons_self)
      have unset : entry _ _ newName = none := described.entry_of_not_mem fun other member => by
        rcases List.mem_append.1 member with front | back
        · exact free other (List.mem_append_left _ front)
        · rcases List.mem_cons.1 back with rfl | back
          · exact same
          · exact free other (List.mem_append_right _ back)
      refine ⟨Tidy.middle.2 ⟨middle.1, careful.1, free⟩,
        described.rename middle.2.2 free fun name => ?_⟩
      rw [entry_rename stored (Ne.symm same) unset]
      simp only [true_and]

/-- A parameter that leaves the table and the dictionary, and enters both at another place. -/
theorem Describes.reinsert {vars : Vars} {before after front back : Dict} {param : Parameter}
    (tidy : Tidy (before ++ param :: after))
    (described : Describes vars scope (before ++ param :: after))
    (rest : front ++ back = before ++ after) (fits : FitsBetween round vars scope front back) :
      Tidy (front ++ param :: back) ∧ Describes
        (insertParam round (hashDataRemove vars param.keyword scope).1 scope front.getLast?
        back.head? param) scope (front ++ param :: back) := by
  obtain ⟨tidyRest, named, apart⟩ := Tidy.middle.1 tidy
  have removed : ∀ name, entry (hashDataRemove vars param.keyword scope).1 scope name =
      if name = param.keyword then none else entry vars scope name := fun name => by
    rw [entry_remove]
    simp only [true_and]
  have left := described.remove apart removed
  rw [← rest] at tidyRest apart left
  have first : ∀ q ∈ front.getLast?, q.keyword ≠ param.keyword := fun q last =>
    apart q (List.mem_append_left _ (List.mem_of_getLast? last))
  have last : ∀ q ∈ back.head?, q.keyword ≠ param.keyword := fun q first =>
    apart q (List.mem_append_right _ (List.mem_of_head? first))
  have keptFirst : ∀ q ∈ front.getLast?,
      entry (hashDataRemove vars param.keyword scope).1 scope q.keyword = entry vars scope q.keyword :=
    fun q member => by rw [removed, if_neg (first q member)]
  have keptLast : ∀ q ∈ back.head?,
      entry (hashDataRemove vars param.keyword scope).1 scope q.keyword = entry vars scope q.keyword :=
    fun q member => by rw [removed, if_neg (last q member)]
  refine ⟨Tidy.middle.2 ⟨tidyRest, named, apart⟩,
    left.insert (fits.congr keptFirst keptLast) apart fun name => ?_⟩
  rw [entry_insert named first last, computeWeight_congr keptFirst keptLast, removed param.keyword,
    if_pos rfl]
  simp only [true_and]
  rfl

theorem touched_move {before after : Dict} {param : Parameter} {pivotScope : Scope} {position : ℕ}
    (here : self.validators[v]? = some validator)
    (found : self.paramAt scope doc place = some (before, param, after)) (at' : Scope) :
    self.touched at' (.move v scope doc place pivotScope position) =
      if scope ≠ pivotScope ∧ entry validator.vars pivotScope param.keyword ≠ none then none
      else if at' = scope then some doc
      else if at' = pivotScope then (self.copyOf validator param pivotScope).map Prod.fst
      else none := by
  unfold Program.touched
  simp only [here, found, Option.bind_some]

/-- **`gebr_validator_move` within a scope.** -/
theorem moveWithin_edited (here : self.validators[v]? = some validator) {before after : Dict}
    {param : Parameter} (found : self.paramAt scope doc place = some (before, param, after))
    (position : ℕ) :
    ∃ vars, Edited round self (self.moveWithin round v validator scope doc before param after position)
      (.move v scope doc place scope position) v validator vars := by
  have whole := paramAt_some found
  refine ⟨_, @edited_one round self v validator scope doc _ here _ _ self.fresh (fun at' => ?_)
    (fun at' scopes name => ?_) fun careful tidy described => ?_⟩
  · rw [touched_move here found, if_neg fun refused => refused.1 rfl]
    split <;> rfl
  · rw [entry_insert_other _ _ _ _ scopes, entry_remove, if_neg fun same => scopes same.1]
  · rw [whole] at tidy described
    exact Describes.reinsert tidy described (List.take_append_drop position (before ++ after))
      ((careful validator here before param after found).1 rfl)

/-- The copy of a move across scopes enters a table twice; the second time only gives it its
weight. -/
theorem Describes.copy {vars : Vars} {pivotScope : Scope} {dict front back : Dict} {copy : Parameter}
    (apart : pivotScope ≠ scope) (tidy : Tidy dict) (described : Describes vars pivotScope dict)
    (parts : front ++ back = dict) (named : copy.keyword ≠ "")
    (unset : entry vars pivotScope copy.keyword = none)
    (fits : FitsBetween round vars pivotScope front back) : Tidy (front ++ copy :: back) ∧
      Describes (insertParam round (hashDataRemove
          (insertParam round vars pivotScope dict.getLast? none copy) copy.keyword scope).1 pivotScope
            front.getLast? back.head? copy) pivotScope (front ++ copy :: back) := by
  have free : ∀ other ∈ dict, other.keyword ≠ copy.keyword := fun other member same => by
    have stored := described.entry_of_mem member
    rw [same, unset] at stored
    exact Option.some_ne_none _ stored.symm
  have last : ∀ q ∈ dict.getLast?, q.keyword ≠ copy.keyword := fun q member =>
    free q (List.mem_of_getLast? member)
  subst parts
  have first : ∀ q ∈ front.getLast?, q.keyword ≠ copy.keyword := fun q member =>
    free q (List.mem_append_left _ (List.mem_of_getLast? member))
  have next : ∀ q ∈ back.head?, q.keyword ≠ copy.keyword := fun q member =>
    free q (List.mem_append_right _ (List.mem_of_head? member))
  have before : ∀ name, entry (hashDataRemove (insertParam round vars pivotScope
      (front ++ back).getLast? none copy) copy.keyword scope).1 pivotScope name =
        if name = copy.keyword then
          some (copy.node, computeWeight round vars pivotScope (front ++ back).getLast? none)
        else entry vars pivotScope name := fun name => by
    rw [entry_remove, if_neg fun same => apart same.1,
      entry_insert named last fun _ member => absurd member (Option.not_mem_none _), unset]
    simp only [true_and]
    rfl
  have keptFirst : ∀ q ∈ front.getLast?, entry (hashDataRemove (insertParam round vars pivotScope
      (front ++ back).getLast? none copy) copy.keyword scope).1 pivotScope q.keyword =
        entry vars pivotScope q.keyword := fun q member => by rw [before, if_neg (first q member)]
  have keptNext : ∀ q ∈ back.head?, entry (hashDataRemove (insertParam round vars pivotScope
      (front ++ back).getLast? none copy) copy.keyword scope).1 pivotScope q.keyword =
        entry vars pivotScope q.keyword := fun q member => by rw [before, if_neg (next q member)]
  refine ⟨Tidy.middle.2 ⟨tidy, named, free⟩, described.insert fits free fun name => ?_⟩
  rw [entry_insert named first next, computeWeight_congr keptFirst keptNext, before copy.keyword,
    if_pos rfl, before]
  by_cases names : name = copy.keyword
  · rw [if_pos ⟨rfl, names⟩, if_pos names]
    rfl
  · rw [if_neg fun same => names same.2, if_neg names, if_neg names]

theorem copyOf_keyword {param copy : Parameter} {pivotScope : Scope} {target : ℕ}
    (copied : self.copyOf validator param pivotScope = some (target, copy)) :
    copy.keyword = param.keyword := by
  unfold Program.copyOf setDictKeyword at copied
  split at copied
  · obtain ⟨_, _, same⟩ := Option.map_eq_some_iff.1 copied
    obtain ⟨_, rfl⟩ := Prod.mk.inj same
    rfl
  · exact absurd copied (Option.some_ne_none _).symm

/-- **`gebr_validator_move` to another scope.** -/
theorem moveAcross_edited (here : self.validators[v]? = some validator) {before after : Dict}
    {param : Parameter} (found : self.paramAt scope doc place = some (before, param, after))
    {pivotScope : Scope} (apart : scope ≠ pivotScope)
    (unset : entry validator.vars pivotScope param.keyword = none) (position : ℕ) :
    ∃ vars, Edited round self
      (self.moveAcross round v validator scope doc before param after pivotScope position)
      (.move v scope doc place pivotScope position) v validator vars := by
  have whole := paramAt_some found
  have touched : ∀ at', self.touched at' (.move v scope doc place pivotScope position) =
      if at' = scope then some doc
      else if at' = pivotScope then (self.copyOf validator param pivotScope).map Prod.fst
      else none := fun at' => by rw [touched_move here found, if_neg fun refused => refused.2 unset]
  unfold Program.moveAcross
  cases copied : self.copyOf validator param pivotScope with
  | none =>
    rw [Program.copyOf] at copied
    simp only [copied]
    refine ⟨_, @edited_one round self v validator scope doc _ here _ _ self.fresh (fun at' => ?_)
      (fun at' scopes name => ?_) fun _ tidy described => ?_⟩
    · rw [touched, Program.copyOf, copied]
      split <;> simp
    · rw [entry_remove, if_neg fun same => scopes same.1]
    · rw [whole] at tidy described
      have middle := Tidy.middle.1 tidy
      refine ⟨middle.1, described.remove middle.2.2 fun name => ?_⟩
      rw [entry_remove]
      simp only [true_and]
  | some pair =>
    obtain ⟨target, copy⟩ := pair
    have keyword : copy.keyword = param.keyword := copyOf_keyword copied
    have again := copied
    rw [Program.copyOf] at again
    simp only [again]
    rw [← keyword] at unset ⊢
    let dict := self.dicts pivotScope target
    let vars := insertParam round (hashDataRemove (insertParam round validator.vars pivotScope
      dict.getLast? none copy) copy.keyword scope).1 pivotScope (dict.take position).getLast?
        (dict.drop position).head? copy
    have source : ∀ name, entry vars scope name =
        if name = copy.keyword then none else entry validator.vars scope name := fun name => by
      rw [entry_insert_other _ _ _ _ apart, entry_remove, entry_insert_other _ _ _ _ apart]
      simp only [true_and]
    refine ⟨vars, (@getElem?_setVars _ v validator here vars).1,
      (@getElem?_setVars _ v validator here vars).2, fun at' other untouched => ?_,
      fun at' untouched name => ?_, fun careful at' other touches tidy described => ?_⟩
    · rw [touched, copied] at untouched
      rw [dicts_setVars, dicts_setDict_other, ← @dicts_setDict_other self scope doc (before ++ after)]
      · intro scopes same
        exact untouched (by rw [if_pos scopes, same])
      · intro scopes same
        refine untouched ?_
        rw [if_neg fun source => apart (source.symm.trans scopes), if_pos scopes, same]
        rfl
    · rw [touched, copied] at untouched
      by_cases source : at' = scope
      · rw [if_pos source] at untouched
        exact absurd untouched (Option.some_ne_none _)
      · by_cases pivot : at' = pivotScope
        · rw [if_neg source, if_pos pivot] at untouched
          exact absurd untouched (Option.some_ne_none _)
        · rw [entry_insert_other _ _ _ _ pivot, entry_remove, if_neg fun same => source same.1,
            entry_insert_other _ _ _ _ pivot]
    · rw [touched, copied] at touches
      by_cases from' : at' = scope
      · subst from'
        rw [if_pos rfl] at touches
        obtain rfl := Option.some.inj touches
        rw [dicts_setVars, dicts_setDict_other _ fun same => absurd same apart]
        rw [whole] at tidy described
        have middle := Tidy.middle.1 tidy
        have left := described.remove middle.2.2 fun name => by rw [source, keyword]
        rw [← @dicts_setDict_self self _ _ (before ++ after)] at middle left
        exact ⟨middle.1, left⟩
      · rw [if_neg from'] at touches
        by_cases pivot : at' = pivotScope
        · subst pivot
          rw [if_pos rfl] at touches
          obtain rfl := Option.some.inj touches
          rw [dicts_setVars, dicts_setDict_self]
          have ready := (careful validator here before param after found).2 apart _ copy copied
          exact Describes.copy (Ne.symm apart) tidy described (List.take_append_drop position dict)
            (keyword ▸ ready.1) unset ready.2
        · rw [if_neg pivot] at touches
          exact absurd touches (Option.some_ne_none _).symm

end Edits

/-- **`gebr_validator_move`.** -/
theorem move_edited {v : ℕ} {validator : GebrValidator} {scope : Scope} {doc place : ℕ}
    (here : self.validators[v]? = some validator) {before after : Dict} {param : Parameter}
    (found : self.paramAt scope doc place = some (before, param, after)) {pivotScope : Scope}
    (position : ℕ)
    (moved : self.move round v validator scope doc before param after pivotScope position =
    some next) : ∃ vars, Edited round self next (.move v scope doc place pivotScope position) v
    validator vars := by
  unfold Program.move at moved
  cases known : validator.vars param.keyword with
  | none =>
    rw [known] at moved
    exact Option.some.inj moved ▸ ⟨_, edited_self here _⟩
  | some data =>
    rw [known] at moved
    dsimp only at moved
    split at moved
    · exact Option.some.inj moved ▸ ⟨_, edited_self here _⟩
    split at moved
    · exact absurd moved (Option.some_ne_none _).symm
    split at moved
    · rename_i same
      subst same
      exact Option.some.inj moved ▸ moveWithin_edited here found position
    split at moved
    · exact Option.some.inj moved ▸ ⟨_, edited_self here _⟩
    · rename_i apart free
      have unset : entry validator.vars pivotScope param.keyword = none := by
        rw [entry_some known, HashData.cell, not_not.1 free]
        rfl
      exact Option.some.inj moved ▸ moveAcross_edited here found apart unset position

/-- **`gebr_validator_change_value`** changes no table. -/
theorem changeValue_right {scope : Scope} {doc place : ℕ} (right : Right (self, ledger))
    {before after : Dict} {param : Parameter}
    (found : self.paramAt scope doc place = some (before, param, after)) (newValue : String) :
    Right (self.changeValue scope doc before param after newValue, ledger) := by
  unfold Program.changeValue
  split
  · exact right
  · intro w at' other follows
    obtain ⟨tidy, old, there, describes⟩ := right w at' other follows
    dsimp only at tidy there describes ⊢
    have whole := paramAt_some found
    by_cases same : at' = scope ∧ other = doc
    · obtain ⟨rfl, rfl⟩ := same
      rw [whole] at tidy describes
      rw [dicts_setDict_self]
      exact ⟨tidy.revalue newValue, old, there, describes.revalue newValue⟩
    · rw [dicts_setDict_other _ fun scopes docs => same ⟨scopes, docs⟩]
      exact ⟨tidy, old, there, describes⟩

theorem unsynced_followed {op : Op} (syncing : self.syncing op = none) {w : ℕ}
    {scope : Scope} {doc : ℕ} (follows : ledger.step round self op w scope doc) :
    ledger w scope doc := by
  unfold Ledger.step at follows
  rw [syncing] at follows
  exact follows.1

/-- **Every call.** -/
theorem step_keeps (exact : Exact round) {tracked next : Program × Ledger} {op : Op}
    (right : Right tracked) (harmless : Harmless tracked op)
    (taken : trackedStep round tracked op = some next) :
    Right next ∧ DescribedAfter tracked op next := by
  obtain ⟨self, ledger⟩ := tracked
  obtain ⟨after, stepped, rfl⟩ := Option.map_eq_some_iff.1 taken
  dsimp only at stepped
  cases syncing : self.syncing op with
  | some pair =>
    obtain ⟨v, validator⟩ := pair
    obtain ⟨kept, described⟩ := sync_keeps exact right harmless stepped syncing
    refine ⟨kept, fun w before again => ?_⟩
    obtain ⟨rfl, rfl⟩ := Prod.mk.inj (Option.some.inj (syncing.symm.trans again))
    exact described
  | none =>
    refine ⟨?_, fun w before again => absurd (again.symm.trans syncing) (Option.some_ne_none _)⟩
    cases op with
    | new flow line proj => exact absurd syncing (Option.some_ne_none _)
    | update v | pushDocument v _ _ | popDocument v _ =>
      obtain ⟨validator, here, _⟩ := Option.map_eq_some_iff.1 stepped
      have absent := Option.map_eq_none_iff.1 syncing
      exact absurd (here.symm.trans absent) (Option.some_ne_none _)
    | assign scope cell doc =>
      obtain rfl := Option.some.inj stepped
      intro w at' other follows
      exact right w at' other (unsynced_followed syncing follows)
    | changeValue v scope doc place newValue =>
      obtain ⟨validator, here, found⟩ := Option.bind_eq_some_iff.1 stepped
      obtain ⟨⟨before, param, after⟩, there, rfl⟩ := Option.map_eq_some_iff.1 found
      exact fun w at' other follows =>
        changeValue_right right there newValue w at' other (unsynced_followed syncing follows)
    | insert v scope doc place keyword type value required =>
      obtain ⟨validator, here, rfl⟩ := Option.map_eq_some_iff.1 stepped
      obtain ⟨vars, edited⟩ := @insert_edited round _ _ _ _ _ place here keyword type value required
      exact edit_keeps right here rfl syncing edited
    | remove v scope doc place =>
      obtain ⟨validator, here, found⟩ := Option.bind_eq_some_iff.1 stepped
      obtain ⟨⟨before, param, after⟩, there, rfl⟩ := Option.map_eq_some_iff.1 found
      obtain ⟨vars, edited⟩ := remove_edited here there
      exact edit_keeps right here rfl syncing edited
    | rename v scope doc place newName =>
      obtain ⟨validator, here, found⟩ := Option.bind_eq_some_iff.1 stepped
      obtain ⟨⟨before, param, after⟩, there, rfl⟩ := Option.map_eq_some_iff.1 found
      obtain ⟨vars, edited⟩ := rename_edited here there newName
      exact edit_keeps right here rfl syncing edited
    | move v scope doc place pivotScope position =>
      obtain ⟨validator, here, found⟩ := Option.bind_eq_some_iff.1 stepped
      obtain ⟨⟨before, param, after⟩, there, moved⟩ := Option.bind_eq_some_iff.1 found
      obtain ⟨vars, edited⟩ := move_edited here there position moved
      exact edit_keeps right here rfl syncing edited

/-- **Every run whose updates are ready**: after each update the table of the validator describes
the documents of that validator, whatever the others did in between. -/
theorem run_described (exact : Exact round) (cells : Scope → ℕ → Option ℕ) (dicts : Scope → ℕ → Dict)
    (fresh : ℕ) (ops : List Op)
    (guarded : Guarded (trackedStep round) Harmless
      (Program.start cells dicts fresh, fun _ _ _ => False) ops) :
    ∀ tracked op next,
      (tracked, op, next) ∈ trace (trackedStep round)
        (Program.start cells dicts fresh, fun _ _ _ => False) ops →
      DescribedAfter tracked op next := by
  have start : Right (Program.start cells dicts fresh, fun _ _ _ => False) :=
    fun _ _ _ follows => False.elim follows
  have keep : ∀ tracked op next, Right tracked → Harmless tracked op →
      trackedStep round tracked op = some next → Right next ∧ DescribedAfter tracked op next :=
    fun _ _ _ right harmless taken => step_keeps exact right harmless taken
  exact trace_forall keep start guarded

/-- Two validators over documents of two projects, each with one variable. -/
def twoProjects : Scope → ℕ → Dict
  | .project, doc => [{ node := doc, keyword := "x", type := .float, value := "1", required := true }]
  | _, _ => []

/-- The second validator gets a variable more, then the first one is updated. -/
def turns : List Op :=
  [.new (some 0) (some 0) (some 0), .new (some 1) (some 1) (some 1),
    .insert 1 .project 1 1 "y" .float "2" true, .update 0]

theorem turns_harmless :
    Guarded (trackedStep id) Harmless
      (Program.start (fun _ cell => some cell) twoProjects 2, fun _ _ _ => False) turns := by
  refine ⟨fun v validator synced => ?_, fun next taken => ?_⟩
  · obtain ⟨rfl, rfl⟩ := Prod.mk.inj (Option.some.inj synced)
    refine ⟨fun scope => by cases scope <;> decide +kernel,
      fun scope => by cases scope <;> decide +kernel, Or.inr fun scope => ⟨fun agreed => ?_, fun _ _ _ _ stored => ?_⟩⟩
    · exact absurd agreed (by cases scope <;> decide)
    · exact absurd stored (Option.some_ne_none _).symm
  obtain rfl := Option.some.inj taken
  refine ⟨fun v validator synced => ?_, fun next taken => ?_⟩
  · obtain ⟨rfl, rfl⟩ := Prod.mk.inj (Option.some.inj synced)
    exact ⟨fun scope => by cases scope <;> decide +kernel,
      fun scope => by cases scope <;> decide +kernel, Or.inl (by decide +kernel)⟩
  obtain rfl := Option.some.inj taken
  refine ⟨fun v validator synced => absurd synced (Option.some_ne_none _).symm, fun next taken => ?_⟩
  obtain rfl := Option.some.inj taken
  refine ⟨fun v validator synced => ?_, fun _ _ => trivial⟩
  obtain ⟨rfl, rfl⟩ := Prod.mk.inj (Option.some.inj synced)
  exact ⟨fun scope => by cases scope <;> decide +kernel,
    fun scope => by cases scope <;> decide +kernel, Or.inl (by decide +kernel)⟩

theorem run_described_turns :
    (Gebr.Lib.Run.run (trackedStep id)
      (Program.start (fun _ cell => some cell) twoProjects 2, fun _ _ _ => False) turns).isSome =
    true ∧ ∀ tracked op next,
      (tracked, op, next) ∈ trace (trackedStep id)
        (Program.start (fun _ cell => some cell) twoProjects 2, fun _ _ _ => False) turns →
      DescribedAfter tracked op next :=
  ⟨by decide +kernel, run_described (fun _ _ => rfl) _ _ _ _ turns_harmless⟩

/-- **A second validator over the same project**, with a flow of its own: the cache says that the
project is known, and the new table does not get its variables. -/
theorem new_undescribed :
    ∃ final validator,
      Gebr.Lib.Run.run (Program.step id) (Program.start (fun _ cell => some cell) twoProjects 1)
          [.new (some 0) (some 0) (some 0), .new (some 1) (some 0) (some 0)] = some final ∧
        final.validators[1]? = some validator ∧ ¬ final.Described validator := by
  refine ⟨_, _, rfl, rfl, fun described => ?_⟩
  have stored := ((described .project).exactly "x" 0).2
    ⟨{ node := 0, keyword := "x", type := .float, value := "1", required := true },
      List.mem_singleton_self _, rfl, rfl⟩
  exact absurd stored (by decide +kernel)

end Step

end Gebr.Validator
