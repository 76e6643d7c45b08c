/-
**The output files of a loop.**

`job_assembly_cmdline` asks the validator whether the name of an output file depends on the loop
counter, and chooses between `>` and `>>` by the answer. It asks after `define_bc_variables` has put
a reference to the shell in the place of every value of the dictionaries;
`gebr_geoxml_flow_is_parallelizable` has asked before.

* `rewrite`: the dictionaries after `define_bc_variables`.
* `jobAssembly`: the redirections and truncations of the script.
* `NamesIter`: the expression itself names the loop counter.
* `useIter_rewrite_iff` — **what is left of a dependence** after the rewriting.
* `consistent_iff` — **when the files come out right**: the expressions depend on the counter by
  name or not at all, the names change or stay accordingly, and no file is emptied that was not
  evaluated.
* `hidden_dependence`: a file whose name depends on the counter by a variable.
-/

import Gebr.Flow.ChainValidate
import Gebr.Lib.Redirect
import Gebr.Validator.Dictionaries

namespace Gebr.Daemon.LoopOutput

open Gebr.Flow.Chain
open Gebr.Lib.CString (ascii decimal)
open Gebr.Lib.Redirect (Kept kept_append_iff kept_replace_iff)
open Gebr.Validator (Scope)
open Gebr.Validator.Scoping
open Gebr.Validator.StringExpr (translateStringExpr references)

variable {π : Type}

section Model

/-- The names that a string expression refers to; none when it cannot be read. -/
def deps (expr : Text) : List Text :=
  match translateStringExpr expr with
  | .ok items => references items
  | .error _ => []

/-- `define_bc_variables`, on one variable; `place` is its place among the numbers. The validator
finds no name and no error in the value that it is given. (It says nothing of an error of the
counter, which stays as it was; the counter is never asked for but by name.) -/
def rewriteVariable (place : ℕ) (var : Variable) : Variable where
  name := var.name
  type := .string
  value :=
    match var.type with
    | .string => ascii "$\x7b" ++ var.name ++ ascii "\x7d"
    | _ => ascii "$\x7bV[[" ++ decimal place ++ ascii "]]\x7d"
  dep := []
  error := false

/-- The variables of a document, with so many numbers before them. -/
def rewriteVars : ℕ → List Variable → List Variable
  | _, [] => []
  | place, var :: vars =>
    rewriteVariable place var :: rewriteVars (if var.type = .string then place else place + 1) vars

theorem map_name_rewriteVars (place : ℕ) (vars : List Variable) :
    (rewriteVars place vars).map Variable.name = vars.map Variable.name := by
  induction vars generalizing place with
  | nil => rfl
  | cons var vars ih => exact congrArg (var.name :: ·) (ih _)

/-- How many numbers are in a list of variables. -/
def numbers (vars : List Variable) : ℕ := vars.countP fun var => var.type ≠ .string

/-- `define_bc_variables`: the dictionaries after it, from the project to the flow. -/
def rewrite (dicts : Dictionaries) : Dictionaries where
  vars := fun scope =>
    match scope with
    | .project => rewriteVars 0 (dicts.vars .project)
    | .line => rewriteVars (numbers (dicts.vars .project)) (dicts.vars .line)
    | .flow => rewriteVars (numbers (dicts.vars .project) + numbers (dicts.vars .line))
        (dicts.vars .flow)
  distinct := by
    intro scope
    cases scope <;> (rw [map_name_rewriteVars]; exact dicts.distinct _)

/-- A flow as the daemon receives it. The name of the loop counter is reserved: no document around
the flow has it. -/
structure JobFlow (π : Type) where
  flow : GebrGeoXmlFlow π
  outputAppend : Bool
  errorAppend : Bool
  dicts : Dictionaries
  reserved : ∀ scope, scope ≠ .flow → dicts.find scope (ascii "iter") = none

/-- `gebr_geoxml_flow_is_parallelizable`. -/
def isParallelizable (job : JobFlow π) : Bool :=
  match job.flow.programs.find? fun program =>
      program.getControl ≠ .ordinary ∧ program.getControl ≠ .unknown with
  | none => false
  | some prog =>
    if prog.getStatus ≠ .configured then false
    else if job.flow.output = [] then true
    else
      let configured := job.flow.programs.filter fun program =>
        program.getControl = .ordinary ∧ program.getStatus = .configured
      if (configured.getLast?.any Program.stdout) = false then true
      else job.dicts.useIter .string (deps job.flow.output)

/-- `n` of `job_assembly_cmdline` is set: the control program of the flow is configured. -/
def hasCount (programs : List (Program π)) : Bool :=
  match programs.find? fun program =>
      program.getControl ≠ .ordinary ∧ program.getControl ≠ .unknown with
  | none => false
  | some program => program.getControl = .for ∧ program.getStatus = .configured

/-- The first program, whether a loop was passed by before it, and the other programs. -/
def firstOf (programs : List (Program π)) : Option (Bool × Program π × List (Program π)) :=
  match fromConfigured programs with
  | [] => none
  | program :: programs =>
    if program.getControl = .for then
      match fromConfigured programs with
      | [] => none
      | program :: programs => some (true, program, programs)
    else some (false, program, programs)

/-- The loop over the other programs: `has_control` and `previous_stdout` after it. -/
def otherFlags : Bool → Bool → List (Program π) → Bool × Bool
  | hasControl, previousStdout, [] => (hasControl, previousStdout)
  | hasControl, previousStdout, program :: programs =>
    if program.getStatus ≠ .configured then otherFlags hasControl previousStdout programs
    else if program.getControl = .for then otherFlags true previousStdout programs
    else otherFlags hasControl program.stdout programs

/-- What the script does with one of the two files: how it is opened, the answer to whether its name
depends on the counter, and the name that is emptied at counter zero. A name is `none` when it was
never evaluated. -/
structure Redirection where
  opened : Option (Bool × Text)
  useIter : Bool
  emptied : Option (Option Text)
  deriving DecidableEq, Repr

/-- What `job_assembly_cmdline` writes about one file: whether it is evaluated, whether it is
appended to, and, of the loop, whether it was known when the file was opened and whether the
truncation is considered at all. -/
def redirection (after : Dictionaries) (expr : Text) (evaluated append hasControl considered : Bool) :
    Redirection :=
  let useIter := evaluated && after.useIter .string (deps expr)
  { opened := if evaluated then some (append || (hasControl && !useIter), expr) else none
    useIter := useIter
    emptied := if considered && !append && !useIter && expr ≠ [] then
        some (if evaluated then some expr else none) else none }

/-- The script of a loop, as far as it opens files. -/
structure Script where
  stdout : Redirection
  stderr : Redirection

/-- `job_assembly_cmdline` of a loop, as far as it opens files. -/
def jobAssembly (job : JobFlow π) : Option Script :=
  match firstOf job.flow.programs with
  | none => none
  | some (loopFirst, program, programs) =>
    let after := rewrite job.dicts
    let flags := otherFlags loopFirst program.stdout programs
    if flags.1 && hasCount job.flow.programs then
      some {
        stderr := redirection after job.flow.error (job.flow.error ≠ [] ∧ program.stderr)
          job.errorAppend loopFirst true
        stdout := redirection after job.flow.output (flags.2 ∧ job.flow.output ≠ []) job.outputAppend
          flags.1 flags.2 }
    else none

end Model

section Rewrite

variable {dicts : Dictionaries} {scope : Scope} {name : Text}

theorem find_rewriteVars (place : ℕ) (vars : List Variable) (name : Text) :
    ∃ place', (rewriteVars place vars).find? (fun var => var.name = name) =
      (vars.find? fun var => var.name = name).map (rewriteVariable place') := by
  induction vars generalizing place with
  | nil => exact ⟨0, rfl⟩
  | cons var vars ih =>
    by_cases same : var.name = name
    · exact ⟨place, by simp [rewriteVars, rewriteVariable, same]⟩
    · obtain ⟨place', later⟩ := ih (if var.type = .string then place else place + 1)
      exact ⟨place', by
        rw [rewriteVars, List.find?_cons_of_neg (by simpa [rewriteVariable] using same), later,
          List.find?_cons_of_neg (by simpa using same)]⟩

theorem find_rewrite (dicts : Dictionaries) (scope : Scope) (name : Text) :
    ∃ place, (rewrite dicts).find scope name = (dicts.find scope name).map
    (rewriteVariable place) := by
  cases scope <;> exact find_rewriteVars _ _ name

/-- The counter alone is not found when it is hidden. -/
theorem find_hide (dicts : Dictionaries) (hidden : Text) (scope : Scope) (name : Text) :
    (dicts.hide hidden).find scope name =
      if scope = .flow ∧ name = hidden then none else dicts.find scope name := by
  unfold Dictionaries.find Dictionaries.hide
  dsimp only
  by_cases flow : scope = .flow
  · subst flow
    rw [if_pos rfl, List.find?_filter]
    by_cases same : name = hidden
    · subst same
      rw [if_pos ⟨rfl, rfl⟩, List.find?_eq_none]
      intro var _
      simp
    · rw [if_neg fun both => same both.2]
      congr 1
      funext var
      by_cases here : var.name = name
      · simp [here, same]
      · simp [here]
  · rw [if_neg flow, if_neg fun both => flow both.1]

theorem firstScope_congr {other : Dictionaries} {scopes : List Scope}
    (same : ∀ scope, (other.find scope name).isSome = (dicts.find scope name).isSome) :
    other.firstScope scopes name = dicts.firstScope scopes name := by
  unfold Dictionaries.firstScope
  congr 1
  funext scope
  exact same scope

/-- The expression names something that is not there without the counter. -/
def NamesIter (dicts : Dictionaries) (expr : Text) : Prop :=
  (dicts.find .flow (ascii "iter")).isSome = true ∧
    ∃ name ∈ deps expr, (dicts.hide (ascii "iter")).getParam name .flow = none

instance (dicts : Dictionaries) (expr : Text) : Decidable (NamesIter dicts expr) :=
  inferInstanceAs (Decidable (_ ∧ _))

theorem getParam_rewrite (dicts : Dictionaries) (hidden name : Text) (scope : Scope) :
    ((rewrite dicts).hide hidden).getParam name scope = (dicts.hide hidden).getParam name scope := by
  apply firstScope_congr
  intro scope
  obtain ⟨place, found⟩ := find_rewrite dicts scope name
  rw [find_hide, find_hide, found]
  split
  · rfl
  · exact Option.isSome_map

/-- After the rewriting every variable is well-defined by itself. -/
theorem refers_rewrite (dicts : Dictionaries) (hidden name : Text) :
    refers ((rewrite dicts).hide hidden)
        (fun name => ((rewrite dicts).hide hidden).wellDefined (some name)) none .string .flow
        name = ((dicts.hide hidden).getParam name .flow).isSome := by
  rw [refers_expression, getParam_rewrite]
  cases nearest : (dicts.hide hidden).getParam name .flow with
  | none => rfl
  | some scope =>
    rw [← getParam_rewrite] at nearest
    obtain ⟨-, var, found⟩ := firstScope_eq_some nearest
    obtain ⟨place, rewritten⟩ := find_rewrite dicts scope name
    have plain : var.error = false ∧ var.dep = [] := by
      rw [find_hide] at found
      split at found
      · cases found
      · rw [rewritten, Option.map_eq_some_iff] at found
        obtain ⟨before, -, rfl⟩ := found
        exact ⟨rfl, rfl⟩
    rw [Option.bind_some, found, Option.map_some, Option.getD_some, plain.1, plain.2, wellDefined_eq]
    rfl

/-- **What is left of a dependence**: after the rewriting an expression depends on the counter iff
it names it. -/
theorem useIter_rewrite_iff (dicts : Dictionaries) (expr : Text) :
    (rewrite dicts).useIter .string (deps expr) = true ↔ NamesIter dicts expr := by
  obtain ⟨place, found⟩ := find_rewrite dicts .flow (ascii "iter")
  unfold Dictionaries.useIter NamesIter
  rw [found, Option.isSome_map]
  by_cases loop : (dicts.find .flow (ascii "iter")).isSome = true
  · rw [if_pos loop, wellDefined_eq, and_iff_right loop, Bool.not_eq_true', List.all_eq_false]
    simp only [refers_rewrite, Option.not_isSome_iff_eq_none]
  · rw [if_neg loop]
    exact ⟨fun never => absurd never (by decide), fun names => absurd names.1 loop⟩

theorem useIter_of_namesIter {expr : Text} (names : NamesIter dicts expr) :
    dicts.useIter .string (deps expr) = true := by
  obtain ⟨loop, name, member, missing⟩ := names
  unfold Dictionaries.useIter
  rw [if_pos loop, wellDefined_eq, Bool.not_eq_true', List.all_eq_false]
  refine ⟨name, member, ?_⟩
  rw [refers_expression, missing]
  exact Bool.false_ne_true

end Rewrite

section Streams

variable {dicts : Dictionaries} {expr : Text} {evaluated append hasControl considered : Bool}
  {names : ℕ → Text} {order : List ℕ}

/-- **What is to hold of one file**: the answer is the one that the flow as received gives; with
append off a file that the turns of the loop name holds what they wrote and nothing else; and a name
that is emptied was evaluated. `names` is the name at each turn. -/
structure StreamConsistent (dicts : Dictionaries) (expr : Text) (append : Bool) (file : Redirection)
    (names : ℕ → Text) (order : List ℕ) : Prop where
  answer : file.opened.isSome = true → file.useIter = dicts.useIter .string (deps expr)
  kept : append = false → ∀ opened ∈ file.opened,
    Kept names opened.1 (file.emptied.join.map fun _ => names 0) order
  named : file.emptied ≠ some none

/-- The names at the turns go with what the expression names. `late` says that the loop was not
known when the file was opened. -/
def NamesFit (dicts : Dictionaries) (expr : Text) (late : Bool) (names : ℕ → Text)
    (order : List ℕ) : Prop :=
  if NamesIter dicts expr ∨ late = true then
    ∀ counter ∈ order, ∀ other ∈ order, names counter = names other → counter = other
  else ∀ counter ∈ order, names counter = names 0

/-- When it holds. -/
structure StreamCondition (dicts : Dictionaries) (expr : Text)
    (evaluated append hasControl considered : Bool) (names : ℕ → Text) (order : List ℕ) : Prop where
  /-- The expression depends on the counter by its own names or not at all. -/
  direct : evaluated = true → dicts.useIter .string (deps expr) = true → NamesIter dicts expr
  fit : evaluated = true → append = false → NamesFit dicts expr (!hasControl) names order
  /-- A file that is set is not left out. -/
  evaluates : considered = true → expr ≠ [] → append = false → evaluated = true

theorem answer_iff : (rewrite dicts).useIter .string (deps expr) = dicts.useIter .string (deps expr) ↔
    (dicts.useIter .string (deps expr) = true → NamesIter dicts expr) := by
  constructor
  · intro same depends
    rw [← same] at depends
    exact (useIter_rewrite_iff dicts expr).1 depends
  · intro direct
    rw [Bool.eq_iff_iff, useIter_rewrite_iff]
    exact ⟨useIter_of_namesIter, direct⟩

/-- What the turns do to a file that is evaluated and not appended to. -/
theorem kept_redirection (nodup : order.Nodup) (some : considered = true) (given : expr ≠ []) :
    (∀ opened ∈ (redirection (rewrite dicts) expr true false hasControl considered).opened,
      Kept names opened.1 ((redirection (rewrite dicts) expr true false hasControl
        considered).emptied.join.map fun _ => names 0) order) ↔
      NamesFit dicts expr (!hasControl) names order := by
  by_cases depends : NamesIter dicts expr
  · have answer := (useIter_rewrite_iff dicts expr).2 depends
    simp only [redirection, answer, NamesFit, depends, Bool.and_true, Bool.not_true, Bool.and_false,
      Bool.or_false, if_true, Option.mem_some_iff, forall_eq', true_or]
    exact kept_replace_iff nodup
  · have answer : (rewrite dicts).useIter .string (deps expr) = false := by
      rw [← Bool.not_eq_true, useIter_rewrite_iff]
      exact depends
    have empties : decide (expr ≠ []) = true := decide_eq_true given
    cases hasControl with
    | true =>
      simp [redirection, answer, NamesFit, depends, some, given]
      exact kept_append_iff
    | false =>
      simp [redirection, answer, NamesFit, depends, some, given]
      exact kept_replace_iff nodup

/-- **One file comes out right** iff its condition is met. -/
theorem stream_iff (nodup : order.Nodup) (shape : evaluated = true → considered = true ∧ expr ≠ []) :
    StreamConsistent dicts expr append
        (redirection (rewrite dicts) expr evaluated append hasControl considered) names order ↔
      StreamCondition dicts expr evaluated append hasControl considered names order := by
  cases evaluated with
  | false =>
    constructor
    · intro consistent
      refine ⟨nofun, nofun, fun some given off => ?_⟩
      refine absurd ?_ consistent.named
      simp [redirection, some, given, off]
    · intro condition
      refine ⟨nofun, fun _ opened here => (nomatch here), ?_⟩
      intro named
      have never : ¬ (considered = true ∧ append = false ∧ expr ≠ []) := fun all =>
        absurd (condition.evaluates all.1 all.2.2 all.2.1) Bool.false_ne_true
      apply never
      by_contra other
      simp only [redirection] at named
      split at named
      · rename_i all
        simp only [Bool.and_eq_true, Bool.not_eq_true', decide_eq_true_eq] at all
        exact other ⟨all.1.1.1, all.1.1.2, all.2⟩
      · cases named
  | true =>
    obtain ⟨some, given⟩ := shape rfl
    have answers : (redirection (rewrite dicts) expr true append hasControl considered).useIter =
        (rewrite dicts).useIter .string (deps expr) := Bool.true_and _
    constructor
    · intro consistent
      refine ⟨fun _ => ?_, fun _ off => ?_, fun _ _ _ => rfl⟩
      · rw [← answer_iff, ← answers]
        exact consistent.answer rfl
      · subst off
        exact (kept_redirection nodup some given).1 (consistent.kept rfl)
    · intro condition
      refine ⟨fun _ => ?_, fun off => ?_, ?_⟩
      · rw [answers, answer_iff]
        exact condition.direct rfl
      · subst off
        exact (kept_redirection nodup some given).2 (condition.fit rfl rfl)
      · simp only [redirection]
        split
        · exact fun same => by cases same
        · exact fun same => by cases same

end Streams

section Loop

variable {job : JobFlow π} {loopFirst : Bool} {program : Program π} {programs : List (Program π)}
  {script : Script}

/-- **Both files of a loop come out right.** `names` is the name that an expression gives at each
turn. -/
structure Consistent (job : JobFlow π) (script : Script) (names : Text → ℕ → Text) (order : List ℕ) :
    Prop where
  stdout : StreamConsistent job.dicts job.flow.output job.outputAppend script.stdout
    (names job.flow.output) order
  stderr : StreamConsistent job.dicts job.flow.error job.errorAppend script.stderr
    (names job.flow.error) order

/-- The condition, of the first program of the chain and the last output of it: an expression that
is used names the counter or does not depend on it; with append off its names fit; and an error file
is not set without append for a first program that writes none. -/
structure Condition (job : JobFlow π) (loopFirst : Bool) (program : Program π) (lastStdout : Bool)
    (names : Text → ℕ → Text) (order : List ℕ) : Prop where
  output : lastStdout = true → job.flow.output ≠ [] →
    (job.dicts.useIter .string (deps job.flow.output) = true → NamesIter job.dicts job.flow.output) ∧
      (job.outputAppend = false →
        NamesFit job.dicts job.flow.output false (names job.flow.output) order)
  error : program.stderr = true → job.flow.error ≠ [] →
    (job.dicts.useIter .string (deps job.flow.error) = true → NamesIter job.dicts job.flow.error) ∧
      (job.errorAppend = false →
        NamesFit job.dicts job.flow.error (!loopFirst) (names job.flow.error) order)
  unwritten : job.flow.error ≠ [] → job.errorAppend = false → program.stderr = true

/-- **When the files of a loop come out right.** The turns run in any order. -/
theorem consistent_iff (first : firstOf job.flow.programs = some (loopFirst, program, programs))
    (assembled : jobAssembly job = some script) (names : Text → ℕ → Text) {order : List ℕ}
    (nodup : order.Nodup) :
    Consistent job script names order ↔
      Condition job loopFirst program (otherFlags loopFirst program.stdout programs).2
      names order := by
  unfold jobAssembly at assembled
  rw [first] at assembled
  dsimp only at assembled
  set flags := otherFlags loopFirst program.stdout programs
  split at assembled
  · rename_i loop
    cases assembled
    have control : flags.1 = true := (Bool.and_eq_true _ _ ▸ loop).1
    have stdout : StreamConsistent job.dicts job.flow.output job.outputAppend _
        (names job.flow.output) order ↔ _ :=
      @stream_iff job.dicts job.flow.output (decide (flags.2 = true ∧ job.flow.output ≠ []))
        job.outputAppend flags.1 flags.2 _ order nodup fun some => of_decide_eq_true some
    have stderr : StreamConsistent job.dicts job.flow.error job.errorAppend _
        (names job.flow.error) order ↔ _ :=
      @stream_iff job.dicts job.flow.error (decide (job.flow.error ≠ [] ∧ program.stderr = true))
        job.errorAppend loopFirst true _ order nodup fun some => ⟨rfl, (of_decide_eq_true some).1⟩
    constructor
    · rintro ⟨out, err⟩
      have out := stdout.1 out
      have err := stderr.1 err
      refine ⟨fun last given => ?_, fun writes given => ?_, fun given off => ?_⟩
      · have some := decide_eq_true (And.intro last given)
        refine ⟨out.direct some, fun off => ?_⟩
        have fit := out.fit some off
        rw [control] at fit
        exact fit
      · have some := decide_eq_true (And.intro given writes)
        exact ⟨err.direct some, err.fit some⟩
      · exact (of_decide_eq_true (err.evaluates rfl given off)).2
    · rintro ⟨output, error, unwritten⟩
      refine ⟨stdout.2 ⟨fun some => ?_, fun some off => ?_, fun last given _ => ?_⟩,
        stderr.2 ⟨fun some => ?_, fun some => ?_, fun _ given off => ?_⟩⟩
      · have some := of_decide_eq_true some
        exact (output some.1 some.2).1
      · have some := of_decide_eq_true some
        rw [control]
        exact (output some.1 some.2).2 off
      · exact decide_eq_true ⟨last, given⟩
      · have some := of_decide_eq_true some
        exact (error some.2 some.1).1
      · have some := of_decide_eq_true some
        exact (error some.2 some.1).2
      · exact decide_eq_true ⟨given, unwritten given off⟩
  · cases assembled

end Loop

section Example

/-- A loop with one program that writes to a file. -/
def loopPrograms : List (Program Unit) :=
  [⟨ascii "loop", ascii "configured", ascii "for", false, false, false, [], ()⟩,
    ⟨ascii "list", ascii "configured", [], false, true, false, [], ()⟩]

/-- The counter, and a number that is twice the counter. -/
def loopDicts : Dictionaries where
  vars := fun scope =>
    match scope with
    | .flow =>
      [⟨ascii "iter", .float, ascii "1", [], false⟩,
        ⟨ascii "twice", .float, ascii "2*iter", [ascii "iter"], false⟩]
    | _ => []
  distinct := by
    intro scope
    cases scope <;> decide

/-- The loop with an output file. -/
def loopJob (output : Text) : JobFlow Unit where
  flow := ⟨loopPrograms, [], output, []⟩
  outputAppend := false
  errorAppend := false
  dicts := loopDicts
  reserved := by
    intro scope outer
    cases scope with
    | flow => exact absurd rfl outer
    | line => rfl
    | project => rfl

/-- A file that is named by the counter comes out right. -/
theorem consistent_iff_counter : ∃ script : Script,
    jobAssembly (loopJob (ascii "/out-[iter]")) = some script ∧
      Consistent (loopJob (ascii "/out-[iter]")) script
        (fun _ counter => ascii "/out-" ++ decimal counter) [0, 1, 2] := by
  have named : NamesIter loopDicts (ascii "/out-[iter]") := by decide +kernel
  have first : firstOf (loopJob (ascii "/out-[iter]")).flow.programs =
      some (true, ⟨ascii "list", ascii "configured", [], false, true, false, [], ()⟩, []) := rfl
  refine ⟨_, rfl, (consistent_iff first rfl _ (by decide)).2
    ⟨fun _ _ => ⟨fun _ => named, fun _ => ?_⟩, nofun, fun given => absurd rfl given⟩⟩
  unfold NamesFit
  rw [if_pos (.inl named)]
  decide +kernel

/-- **A hidden dependence**: the name depends on the counter by a variable. The flow as received is
answered yes, the script is written for no: it empties the file of the first turn alone, and appends
to what an earlier run left in the others. -/
theorem hidden_dependence : ∃ script : Script,
    jobAssemblyCmdline ⟨fun _ => true, fun _ => true, fun _ => true⟩
        (loopJob (ascii "/out-[twice]")).flow = .ok () ∧
      jobAssembly (loopJob (ascii "/out-[twice]")) = some script ∧
      isParallelizable (loopJob (ascii "/out-[twice]")) = true ∧
      loopDicts.useIter .string (deps (ascii "/out-[twice]")) = true ∧
      script.stdout.useIter = false ∧
      script.stdout.opened = some (true, ascii "/out-[twice]") ∧
      ¬ Consistent (loopJob (ascii "/out-[twice]")) script
        (fun _ counter => ascii "/out-" ++ decimal (2 * counter)) [0, 1] :=
  ⟨_, rfl, rfl, by decide +kernel, by decide +kernel, by decide +kernel, by decide +kernel,
    fun consistent => absurd (consistent.stdout.answer rfl) (by decide +kernel)⟩

end Example

end Gebr.Daemon.LoopOutput
