/-
**What an MPI flow counts on its servers.**

The processes of an MPI program are shared out among the servers of its flavour; a program without a
flavour counts once for the whole flow, on the server that executes it.

* `mpiProgramGetNp`, `mpiProgramContrib`, `contribOfFlow`: the processes of a program, what one
  program adds to the contributions, and the loop over the programs of a flow.
* `Supports`, `Shared`: the servers of a flavour are those that list it; what is added to them is
  all the processes, in parts that differ by at most one.
* `Apart`: the processes run out before a server that only has the flavour inside of another one's
  name.
* `mpiProgramContrib_flavoured`: a program with a flavour adds `spread` parts, whatever was there
  before.
* `contribOfFlow_eq`: the programs without a flavour add one together.
* `shared_iff`: the parts go to the servers of the flavour just where `Apart` holds.
* `contributions_conserved_iff` — **when the process count is conserved**.

The contributions are an array: a function of the index, so that a write outside of it is a write
too.
-/

import Gebr.Comm.MpiFlavours
import Gebr.Flow.ChainValidate
import Gebr.Lib.Shares
import Mathlib.Algebra.Group.Pi.Lemmas
import Mathlib.Tactic.Abel

namespace Gebr.Comm.MpiContrib

open Gebr.Lib.CString Gebr.Lib.Shares
open Gebr.Flow (GebrGeoXmlProgramControl)

section Model

/-- A daemon that runs a part of the flow. -/
structure MpiDaemon extends MpiServer where
  hostname : Bytes

/-- A program: its control, its MPI attribute and the text of its number of processes. -/
structure MpiProgram where
  control : GebrGeoXmlProgramControl
  mpi : Option Bytes
  nProcess : Bytes
  deriving DecidableEq

/-- The MPI flavour; an empty attribute is none. -/
def MpiProgram.flavor (prog : MpiProgram) : Option Bytes := prog.mpi.filter (· ≠ [])

/-- The array `contrib`. -/
abbrev Contrib := ℕ → ℤ

/-- `contrib[j] += amount`. -/
def addAt (j : ℕ) (amount : ℤ) (contrib : Contrib) : Contrib := fun i =>
  if i = j then contrib i + amount else contrib i

/-- `atoi`. -/
def atoi (text : Bytes) : ℤ := (strtol text).1.bmod (2 ^ 32)

-- `evaluate` stands for `gebr_validator_evaluate`, of a whole number.
variable (evaluate : Bytes → Option Bytes)

/-- `mpi_program_get_np`. -/
def mpiProgramGetNp (prog : MpiProgram) : ℤ :=
  match prog.flavor with
  | none => 0
  | some _ =>
    match evaluate prog.nProcess with
    | none => 0
    | some nprocs => atoi nprocs

/-- The loop of `mpi_program_contrib` without a flavour, from index `j` on. -/
def countOnce (executor : Bytes) : List MpiDaemon → ℕ → Contrib → Bool → Contrib × Bool
  | [], _, contrib, added => (contrib, added)
  | daemon :: servers, j, contrib, added =>
    if daemon.hostname = executor ∧ added = false then countOnce executor servers (j + 1)
      (addAt j 1 contrib) true
    else countOnce executor servers (j + 1) contrib added

/-- The loop of `mpi_program_contrib` over the servers of a flavour, from index `j` on. -/
def shareOut (flavor : Bytes) (np total : ℤ) : List MpiDaemon → ℕ → ℤ → Contrib → Contrib
  | [], _, _, contrib => contrib
  | daemon :: servers, j, acc, contrib =>
    if daemonHasMpiFlavor daemon.toMpiServer flavor then
      let contrib := addAt j (np.tdiv total) contrib
      if acc < np.tmod total then shareOut flavor np total servers (j + 1) (acc + 1)
        (addAt j 1 contrib)
      else shareOut flavor np total servers (j + 1) acc contrib
    else shareOut flavor np total servers (j + 1) acc contrib

/-- The servers that have a flavour, marked. -/
def marks (servers : List MpiDaemon) (flavor : Bytes) : List Bool :=
  servers.map fun daemon => daemonHasMpiFlavor daemon.toMpiServer flavor

/-- `mpi_program_contrib`; it gives the contributions and `not_parallelizable_added`. -/
def mpiProgramContrib (servers : List MpiDaemon) (executor : Bytes) (prog : MpiProgram)
    (contrib : Contrib) (added : Bool) : Contrib × Bool :=
  match prog.flavor with
  | none => countOnce executor servers 0 contrib added
  | some flavor =>
    let total : ℤ := (servers.countP fun daemon => daemonHasMpiFlavor daemon.toMpiServer flavor : ℕ)
    (shareOut flavor (mpiProgramGetNp evaluate prog) total servers 0 0 contrib, added)

/-- The loop of `calculate_weights_for_mpi` over the programs of the flow. -/
def contribOfFlow (servers : List MpiDaemon) (executor : Bytes) :
    List MpiProgram → Contrib → Bool → Contrib × Bool
  | [], contrib, added => (contrib, added)
  | prog :: programs, contrib, added =>
    if prog.control ≠ .for then
      let (contrib, added) := mpiProgramContrib evaluate servers executor prog contrib added
      contribOfFlow servers executor programs contrib added
    else contribOfFlow servers executor programs contrib added

/-- The server at an index supports a flavour: the flavour is in its list. -/
def Supports (servers : List MpiDaemon) (flavor : Bytes) (j : ℕ) : Prop :=
  ∃ daemon, servers[j]? = some daemon ∧ flavor ∈ daemon.flavours

/-- What is added to the contributions of the servers of a flavour: `n`, in parts that differ by at
most one. -/
structure Shared (servers : List MpiDaemon) (flavor : Bytes) (n : ℕ) (before after : Contrib) :
    Prop where
  total : ((List.range servers.length).map fun j => after j - before j).sum = n
  fair : ∀ i j, Supports servers flavor i → Supports servers flavor j →
    after i - before i ≤ after j - before j + 1
  adds : ∀ j, before j ≤ after j
  others : ∀ j, ¬ Supports servers flavor j → after j = before j

/-- The first server with the name of the executor. -/
def executorIndex (servers : List MpiDaemon) (executor : Bytes) : Option ℕ :=
  servers.findIdx? fun daemon => daemon.hostname = executor

/-- One more for the executor, if it is there. -/
def addToExecutor (servers : List MpiDaemon) (executor : Bytes) (contrib : Contrib) : Contrib × Bool :=
  match executorIndex servers executor with
  | none => (contrib, false)
  | some j => (addAt j 1 contrib, true)

/-- A program that counts without a flavour. -/
def MpiProgram.Plain (prog : MpiProgram) : Prop := prog.control ≠ .for ∧ prog.flavor = none

instance (prog : MpiProgram) : Decidable prog.Plain := inferInstanceAs (Decidable (_ ∧ _))

/-- `n` processes run out before each server that `daemon_has_mpi_flavor` takes for one of the
flavour and that does not support it. -/
def Apart (servers : List MpiDaemon) (flavor : Bytes) (n : ℕ) : Prop :=
  ∀ j, (marks servers flavor)[j]? = some true → ¬ Supports servers flavor j →
    n ≤ ((marks servers flavor).take j).count true

/-- The process count is conserved: a program with a flavour adds its processes to the servers of
that flavour and nothing else, a program without one adds one to the executor if none did before,
and so do all of a flow together. -/
structure Conserved (servers : List MpiDaemon) (executor : Bytes) (programs : List MpiProgram) :
    Prop where
  flavoured : ∀ prog ∈ programs, ∀ (flavor : Bytes) (n : ℕ), prog.flavor = some flavor →
    mpiProgramGetNp evaluate prog = n → (∃ j, Supports servers flavor j) → ∀ contrib added,
      Shared servers flavor n contrib
        (mpiProgramContrib evaluate servers executor prog contrib added).1 ∧
          (mpiProgramContrib evaluate servers executor prog contrib added).2 = added
  plain : ∀ prog ∈ programs, prog.flavor = none → ∀ contrib added,
    mpiProgramContrib evaluate servers executor prog contrib added =
      if added then (contrib, true) else addToExecutor servers executor contrib
  once : ∀ contrib : Contrib,
    let flavoured := contribOfFlow evaluate servers executor (programs.filter (·.flavor.isSome))
      contrib false
    contribOfFlow evaluate servers executor programs contrib false =
      if ∃ prog ∈ programs, prog.Plain then addToExecutor servers executor flavoured.1 else flavoured

end Model

section Arrays

variable (j : ℕ) (amount : ℤ) (amounts : List ℤ) (contrib : Contrib)

/-- The amounts at the indices from `j` on. -/
def startingAt : Contrib := fun i => if j ≤ i then amounts[i - j]?.getD 0 else 0

theorem addAt_eq : addAt j amount contrib = contrib + Pi.single j amount := by
  funext i
  by_cases same : i = j
  · subst same
    simp [addAt]
  · simp [addAt, same]

@[simp] theorem startingAt_nil : startingAt j [] = 0 := by
  funext i
  simp [startingAt]

theorem startingAt_cons : startingAt j (amount :: amounts) = Pi.single j amount +
    startingAt (j + 1) amounts := by
  funext i
  rw [Pi.add_apply]
  rcases Nat.lt_trichotomy i j with before | rfl | after
  · have other : i ≠ j := Nat.ne_of_lt before
    simp [startingAt, other, Nat.not_le.2 before, Nat.not_le.2 (Nat.lt_succ_of_lt before)]
  · simp [startingAt]
  · have other : i ≠ j := Nat.ne_of_gt after
    obtain ⟨k, rfl⟩ := Nat.exists_eq_add_of_lt after
    have shifted : j + k + 1 - j = k + 1 := by omega
    have rest : j + k + 1 - (j + 1) = k := by omega
    simp only [startingAt, Pi.single_apply, if_neg other, shifted, rest, zero_add]
    rw [if_pos (by omega), if_pos (by omega), List.getElem?_cons_succ]

end Arrays

section Sharing

variable {evaluate : Bytes → Option Bytes} {servers : List MpiDaemon} {executor flavor : Bytes}

/-- **What the loop over the servers adds** is an equal share for each of them that has the flavour,
and one more for the first ones. -/
theorem shareOut_eq (flavor : Bytes) (np total : ℤ) (servers : List MpiDaemon) (j : ℕ) (acc : ℤ)
    (contrib : Contrib) : shareOut flavor np total servers j acc contrib =
      contrib + startingAt j
      (spread (np.tdiv total) (np.tmod total - acc).toNat (marks servers flavor)) := by
  induction servers generalizing j acc contrib with
  | nil => simp [shareOut, marks, spread]
  | cons daemon servers ih =>
    unfold shareOut
    by_cases has : daemonHasMpiFlavor daemon.toMpiServer flavor = true
    · have mark : marks (daemon :: servers) flavor = true :: marks servers flavor := by
        simp [marks, has]
      rw [if_pos has, mark]
      by_cases more : acc < np.tmod total
      · have left : (np.tmod total - acc).toNat = (np.tmod total - (acc + 1)).toNat + 1 := by omega
        rw [if_pos more, ih, left, spread, startingAt_cons, addAt_eq, addAt_eq, Pi.single_add]
        abel
      · have left : (np.tmod total - acc).toNat = 0 := by omega
        rw [if_neg more, ih, left, spread, startingAt_cons, addAt_eq]
        abel
    · have mark : marks (daemon :: servers) flavor = false :: marks servers flavor := by
        simp [marks, has]
      rw [if_neg has, mark, ih, spread, startingAt_cons, Pi.single_zero, zero_add]

/-- How the processes of a program are spread. -/
def parts (evaluate : Bytes → Option Bytes) (servers : List MpiDaemon) (prog : MpiProgram)
    (flavor : Bytes) : List ℤ :=
  let total : ℤ := ((marks servers flavor).count true : ℕ)
  let np := mpiProgramGetNp evaluate prog
  spread (np.tdiv total) (np.tmod total).toNat (marks servers flavor)

theorem count_marks (servers : List MpiDaemon) (flavor : Bytes) :
    (marks servers flavor).count true = servers.countP fun daemon =>
    daemonHasMpiFlavor daemon.toMpiServer flavor := by
  unfold marks
  rw [List.count, List.countP_map]
  exact List.countP_congr fun daemon _ => by simp

/-- A program with a flavour adds its parts, whatever was there before. -/
theorem mpiProgramContrib_flavoured {prog : MpiProgram} (has : prog.flavor = some flavor)
    (contrib : Contrib) (added : Bool) :
    mpiProgramContrib evaluate servers executor prog contrib added =
      (contrib + startingAt 0 (parts evaluate servers prog flavor), added) := by
  unfold mpiProgramContrib parts
  rw [has]
  simp only [shareOut_eq, count_marks, sub_zero]

theorem marked_iff (servers : List MpiDaemon) (flavor : Bytes) (j : ℕ) :
    (marks servers flavor)[j]? = some true ↔
      ∃ daemon, servers[j]? = some daemon ∧ daemonHasMpiFlavor daemon.toMpiServer flavor = true := by
  unfold marks
  rw [List.getElem?_map, Option.map_eq_some_iff]

theorem marked_of_supports (some_byte : flavor ≠ []) {j : ℕ} (supports : Supports servers flavor j) :
    (marks servers flavor)[j]? = some true := by
  obtain ⟨daemon, found, lists⟩ := supports
  exact (marked_iff servers flavor j).2
    ⟨daemon, found, has_of_accepts some_byte ((accepts_iff some_byte).2 lists)⟩

theorem sum_startingAt (amounts : List ℤ) :
    ((List.range amounts.length).map (startingAt 0 amounts)).sum = amounts.sum := by
  have same : (List.range amounts.length).map (startingAt 0 amounts) = amounts := by
    refine List.ext_getElem (by simp) fun i before inside => ?_
    simp [startingAt, inside]
  rw [same]

theorem parts_eq {prog : MpiProgram} {n : ℕ} (counted : mpiProgramGetNp evaluate prog = n) :
    parts evaluate servers prog flavor =
      spread ((n / (marks servers flavor).count true : ℕ) : ℤ) (n % (marks servers flavor).count true)
        (marks servers flavor) := by
  unfold parts
  simp only [counted]
  rw [← Int.ofNat_tdiv, ← Int.ofNat_tmod, Int.toNat_natCast]

theorem part_eq {prog : MpiProgram} {n j : ℕ} (counted : mpiProgramGetNp evaluate prog = n)
    (marked : (marks servers flavor)[j]? = some true) :
    (parts evaluate servers prog flavor)[j]?.getD 0 =
      (n / (marks servers flavor).count true : ℕ) +
        if ((marks servers flavor).take j).count true < n % (marks servers flavor).count true then
        1 else 0 := by
  rw [parts_eq counted, spread_marked _ _ _ marked, Option.getD_some]

/-- **A server gets nothing just when the processes run out before it.** -/
theorem part_eq_zero_iff {prog : MpiProgram} {n j : ℕ} (counted : mpiProgramGetNp evaluate prog = n)
    (marked : (marks servers flavor)[j]? = some true) :
    (parts evaluate servers prog flavor)[j]?.getD 0 = 0 ↔ n ≤
    ((marks servers flavor).take j).count true := by
  have before : ((marks servers flavor).take j).count true < (marks servers flavor).count true := by
    obtain ⟨inside, here⟩ := List.getElem?_eq_some_iff.1 marked
    have cut : (marks servers flavor).count true =
        ((marks servers flavor).take j).count true + ((marks servers flavor).drop j).count true := by
      rw [← List.count_append, List.take_append_drop]
    rw [List.drop_eq_getElem_cons inside, here, List.count_cons_self] at cut
    omega
  rw [part_eq counted marked]
  generalize ((marks servers flavor).take j).count true = front at before ⊢
  generalize (marks servers flavor).count true = total at before ⊢
  rcases Nat.lt_or_ge n total with few | many
  · rw [Nat.div_eq_of_lt few, Nat.mod_eq_of_lt few]
    split <;> omega
  · have positive : 1 ≤ n / total := Nat.div_pos many (Nat.zero_lt_of_lt before)
    refine iff_of_false ?_ (by omega)
    split <;> omega

/-- **The parts are all the processes**, and differ by at most one; they go to the servers of the
flavour just where the processes run out before the others. -/
theorem shared_iff {prog : MpiProgram} {n : ℕ} (some_byte : flavor ≠ [])
    (counted : mpiProgramGetNp evaluate prog = n) (supported : ∃ j, Supports servers flavor j)
    (contrib : Contrib) :
      Shared servers flavor n contrib
      (contrib + startingAt 0 (parts evaluate servers prog flavor)) ↔ Apart servers flavor n := by
  have added (j : ℕ) : (contrib + startingAt 0 (parts evaluate servers prog flavor)) j - contrib j =
      (parts evaluate servers prog flavor)[j]?.getD 0 := by
    rw [Pi.add_apply, add_sub_cancel_left]
    rfl
  constructor
  · intro shared j marked other
    rw [← part_eq_zero_iff counted marked, ← added, sub_eq_zero]
    exact shared.others j other
  · intro apart
    have positive : 0 < (marks servers flavor).count true := by
      obtain ⟨j, supports⟩ := supported
      exact List.count_pos_iff.2 (List.mem_of_getElem? (marked_of_supports some_byte supports))
    have unmarked (j : ℕ) (other : (marks servers flavor)[j]? ≠ some true) :
        (parts evaluate servers prog flavor)[j]?.getD 0 = 0 := spread_unmarked _ _ _ other
    refine ⟨?_, ?_, ?_, ?_⟩
    · have long : servers.length = (parts evaluate servers prog flavor).length := by
        simp [parts, marks]
      have fits := (Nat.mod_lt n positive).le
      simp only [added]
      rw [long]
      refine (sum_startingAt _).trans ?_
      rw [parts_eq counted, sum_spread _ _ _ fits]
      exact_mod_cast Nat.div_add_mod' n _
    · intro i j first second
      rw [added, added, part_eq counted (marked_of_supports some_byte first),
        part_eq counted (marked_of_supports some_byte second)]
      split <;> split <;> omega
    · intro j
      rw [← sub_nonneg, added]
      by_cases marked : (marks servers flavor)[j]? = some true
      · have nonneg := Int.natCast_nonneg (n / (marks servers flavor).count true)
        rw [part_eq counted marked]
        split <;> omega
      · rw [unmarked j marked]
    · intro j other
      rw [← sub_eq_zero, added]
      by_cases marked : (marks servers flavor)[j]? = some true
      · exact (part_eq_zero_iff counted marked).2 (apart j marked other)
      · exact unmarked j marked

end Sharing

section Plain

variable {evaluate : Bytes → Option Bytes} {servers : List MpiDaemon} {executor : Bytes}

theorem countOnce_added (executor : Bytes) (servers : List MpiDaemon) (j : ℕ) (contrib : Contrib) :
    countOnce executor servers j contrib true = (contrib, true) := by
  induction servers generalizing j with
  | nil => rfl
  | cons daemon servers ih =>
    unfold countOnce
    rw [if_neg (by simp), ih]

theorem countOnce_eq (executor : Bytes) (servers : List MpiDaemon) (j : ℕ) (contrib : Contrib) :
    countOnce executor servers j contrib false =
      match executorIndex servers executor with
      | none => (contrib, false)
      | some k => (addAt (j + k) 1 contrib, true) := by
  induction servers generalizing j with
  | nil => rfl
  | cons daemon servers ih =>
    unfold countOnce executorIndex
    rw [List.findIdx?_cons]
    by_cases here : daemon.hostname = executor
    · rw [if_pos ⟨here, rfl⟩, countOnce_added, if_pos (decide_eq_true here)]
      rfl
    · rw [if_neg fun both => here both.1, ih, if_neg (by simpa using here), executorIndex]
      cases List.findIdx? (fun daemon => decide (daemon.hostname = executor)) servers with
      | none => rfl
      | some k =>
        have place : j + 1 + k = j + (k + 1) := by omega
        exact congrArg (fun place => (addAt place 1 contrib, true)) place

theorem mpiProgramContrib_plain {prog : MpiProgram} (none : prog.flavor = none) (contrib : Contrib)
    (added : Bool) : mpiProgramContrib evaluate servers executor prog contrib added =
      if added then (contrib, true) else addToExecutor servers executor contrib := by
  unfold mpiProgramContrib
  rw [none]
  cases added with
  | true => exact countOnce_added executor servers 0 contrib
  | false =>
    refine (countOnce_eq executor servers 0 contrib).trans ?_
    simp [addToExecutor]

end Plain

section Flow

variable {evaluate : Bytes → Option Bytes} {servers : List MpiDaemon} {executor : Bytes}

/-- What the programs with a flavour add together. -/
def flavouredParts (evaluate : Bytes → Option Bytes) (servers : List MpiDaemon) :
    List MpiProgram → Contrib
  | [] => 0
  | prog :: programs =>
    (match prog.flavor with
      | some flavor => if prog.control ≠ .for then startingAt 0 (parts evaluate servers prog flavor)
          else 0
      | none => 0) + flavouredParts evaluate servers programs

/-- One for the executor. -/
def executorPart (servers : List MpiDaemon) (executor : Bytes) : Contrib :=
  match executorIndex servers executor with
  | none => 0
  | some j => Pi.single j 1

theorem addToExecutor_eq (servers : List MpiDaemon) (executor : Bytes) (contrib : Contrib) :
    addToExecutor servers executor contrib =
      (contrib + executorPart servers executor, (executorIndex servers executor).isSome) := by
  unfold addToExecutor executorPart
  cases executorIndex servers executor with
  | none => simp
  | some j => simp [addAt_eq]

theorem flavouredParts_filter (programs : List MpiProgram) :
    flavouredParts evaluate servers (programs.filter (·.flavor.isSome)) =
    flavouredParts evaluate servers programs := by
  induction programs with
  | nil => rfl
  | cons prog programs ih =>
    rw [List.filter_cons]
    cases flavor : prog.flavor with
    | none => simp [flavouredParts, flavor, ih]
    | some flavor' => simp [flavouredParts, flavor, ih]

/-- **What a flow adds**: the parts of its programs with a flavour, and one for all the others
together. -/
theorem contribOfFlow_eq (programs : List MpiProgram) (contrib : Contrib) (added : Bool) :
    contribOfFlow evaluate servers executor programs contrib added =
      if added = false ∧ ∃ prog ∈ programs, prog.Plain then
        addToExecutor servers executor (contrib + flavouredParts evaluate servers programs)
      else (contrib + flavouredParts evaluate servers programs, added) := by
  induction programs generalizing contrib added with
  | nil => simp [contribOfFlow, flavouredParts]
  | cons prog programs ih =>
    unfold contribOfFlow
    by_cases loop : prog.control = .for
    · have parts : flavouredParts evaluate servers (prog :: programs) =
          flavouredParts evaluate servers programs := by
        rw [flavouredParts]
        cases prog.flavor <;> simp [loop]
      have plain : ¬ prog.Plain := fun plain => plain.1 loop
      rw [if_neg (not_not.2 loop), ih, parts]
      simp only [List.mem_cons, exists_eq_or_imp, plain, false_or]
    · rw [if_pos loop]
      cases flavor : prog.flavor with
      | some flavor' =>
        have plain : ¬ prog.Plain := fun plain => nomatch flavor.symm.trans plain.2
        simp only [mpiProgramContrib_flavoured flavor, ih, flavouredParts, flavor, if_pos loop,
          List.mem_cons, exists_eq_or_imp, plain, false_or, add_assoc]
      | none =>
        have plain : prog.Plain := ⟨loop, flavor⟩
        have parts : flavouredParts evaluate servers (prog :: programs) =
            flavouredParts evaluate servers programs := by
          rw [flavouredParts, flavor, zero_add]
        simp only [mpiProgramContrib_plain flavor, parts, List.mem_cons, exists_eq_or_imp, plain,
          true_or, and_true]
        cases added with
        | true => simp [ih]
        | false =>
          -- The executor counts here, so that no later program counts again.
          simp only [if_true, Bool.false_eq_true, if_false, addToExecutor_eq, ih]
          unfold executorPart
          cases executorIndex servers executor with
          | none => simp
          | some j => simp [add_right_comm]

theorem flavor_ne_nil {prog : MpiProgram} {flavor : Bytes} (has : prog.flavor = some flavor) :
    flavor ≠ [] :=
  of_decide_eq_true (Option.filter_eq_some_iff.1 has).2

/-- **When the process count is conserved**: for each program with a flavour, no server that only
has the flavour inside of another one's name is reached by the processes. -/
theorem contributions_conserved_iff (evaluate : Bytes → Option Bytes) (servers : List MpiDaemon)
    (executor : Bytes) (programs : List MpiProgram) :
    Conserved evaluate servers executor programs ↔
      ∀ prog ∈ programs, ∀ (flavor : Bytes) (n : ℕ), prog.flavor = some flavor →
        mpiProgramGetNp evaluate prog = n → (∃ j, Supports servers flavor j) →
        Apart servers flavor n := by
  constructor
  · intro conserved prog member flavor n has counted supported
    have shared := (conserved.flavoured prog member flavor n has counted supported 0 false).1
    rw [mpiProgramContrib_flavoured has] at shared
    exact (shared_iff (flavor_ne_nil has) counted supported 0).1 shared
  · intro apart
    refine ⟨?_, fun prog _ none contrib added => mpiProgramContrib_plain none contrib added, ?_⟩
    · intro prog member flavor n has counted supported contrib added
      rw [mpiProgramContrib_flavoured has]
      have out := apart prog member flavor n has counted supported
      exact ⟨(shared_iff (flavor_ne_nil has) counted supported contrib).2 out, rfl⟩
    · intro contrib
      have none : ¬ ∃ prog ∈ programs.filter (·.flavor.isSome), prog.Plain := by
        rintro ⟨prog, member, _, plain⟩
        have has := (List.mem_filter.1 member).2
        rw [plain] at has
        exact nomatch has
      simp only [contribOfFlow_eq, flavouredParts_filter, none, and_false, if_false, true_and]

/-- A server of `openmpi` takes the one process of a program of `mpi`. -/
theorem openmpi_takes_mpi :
    ¬ Conserved some
      [⟨⟨[97], [[111, 112, 101, 110, 109, 112, 105]], by decide, by decide⟩, [97]⟩,
        ⟨⟨[98], [[109, 112, 105]], by decide, by decide⟩, [98]⟩]
      [97] [⟨.ordinary, some [109, 112, 105], [49]⟩] := by
  intro conserved
  have shared := (conserved.flavoured _ List.mem_cons_self [109, 112, 105] 1 rfl (by decide +kernel)
    ⟨1, _, rfl, List.mem_cons_self⟩ 0 false).1
  have nothing := shared.others 0 (by
    rintro ⟨daemon, found, lists⟩
    obtain rfl := Option.some.inj found
    exact absurd lists (by decide))
  exact absurd nothing (by decide +kernel)

/-- Three processes on two of three servers. -/
example :
    (List.range 3).map (mpiProgramContrib some
      [⟨⟨[97], [[102]], by decide, by decide⟩, [97]⟩, ⟨⟨[98], [], by decide, by decide⟩, [98]⟩,
        ⟨⟨[99], [[102]], by decide, by decide⟩, [99]⟩]
      [97] ⟨.ordinary, some [102], [51]⟩ (fun _ => 0) false).1 = [2, 0, 1] := by
  decide +kernel

end Flow

end Gebr.Comm.MpiContrib
