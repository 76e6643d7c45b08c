/-
**Every iteration runs once.**

The sub-flows stop at the first server without iterations. A server may hold processors and get no
iteration, because each of its cores is worth less than one and what is left over goes to the last
cores. The order of the servers is that of the hash table: the comparison of the weights drops their
fractions, so that it moves a server only when that one has all the iterations.

* `RunsEachOnce`: the messages sent partition the iterations of the flow, as recorded.
* `normalizeAndSort_leading_iff`: which shares the sorting brings to the front.
* `launch_runsEachOnce_iff`: a launch runs each iteration once just when the fed servers come first
  (`FedFirst`).
* `launch_starved_drops`: three servers, and an iteration that no one runs.
-/

import Gebr.Comm.RunnerShares

namespace Gebr.Comm

open Gebr.Flow Gebr.Lib.Shares

section Statement

/-- The messages of a launch partition the iterations of the flow, none of them is empty, and each
one has the share that is recorded for the server it is sent to. -/
structure RunsEachOnce (flow : GebrGeoXmlFlow) (runner : GebrCommRunner) (sent : List RunMessage) :
    Prop where
  partitions : Partitions (sent.map fun message => message.flow.iterations) flow.iterations
  nonempty : ∀ message ∈ sent, message.flow.iterations ≠ []
  recorded : ∀ (k : ℕ) (message : RunMessage), sent[k]? = some message → ∃ daemon : GebrCommDaemon,
    runner.servers[k]? = some daemon ∧ daemon.address = message.address ∧
      runner.distributedN[k]? = some message.flow.iterations.length

/-- What a launch relies on: a parallelizable flow whose loop moves, and the scores of cores of its
servers, not all of them nothing. -/
structure Launchable (useIter : String → Bool) (runner : GebrCommRunner) (loop : GebrGeoXmlProgram) :
    Prop where
  controlled : gebrGeoxmlFlowGetControlProgram runner.flow = some loop
  parallelizable : gebrGeoxmlFlowIsParallelizable useIter runner.flow = true
  moves : loop.step ≠ 0
  someStep : 0 < loop.n
  known : ∀ core ∈ runner.coresScores, core.server ∈ runner.servers
  nonneg : ∀ core ∈ runner.coresScores, 0 ≤ core.score
  scored : ∃ core ∈ runner.coresScores, 0 < core.score

variable (cores : List ServerScore) (totalProcs nsteps : ℕ)

/-- A core of the host feeds it. -/
def Fed (host : String) : Prop :=
  ∃ k core, (cores.take totalProcs)[k]? = some core ∧ core.server.hostname = host ∧
    Feeds cores totalProcs nsteps k core

/-- The host has a core that is used, or one of the processors that are more than the cores. -/
def Staffed (position : ℕ) (host : String) : Prop :=
  (∃ core ∈ cores.take totalProcs, core.server.hostname = host) ∨ position + cores.length < totalProcs

/-- Only one host is fed, or no staffed host that is not fed stands before one that is. -/
def FedFirst (hosts : List String) : Prop :=
  (∃ only, ∀ host, Fed cores totalProcs nsteps host → host = only) ∨
    ∀ first later host other, first < later → hosts[first]? = some host →
      hosts[later]? = some other → Staffed cores totalProcs first host →
        Fed cores totalProcs nsteps other → Fed cores totalProcs nsteps host

end Statement

section Sorting

variable {values : List DaemonExecInfo} {nsteps : ℕ}

/-- Values whose weights are their parts of all the iterations. -/
structure Weighed (nsteps : ℕ) (values : List DaemonExecInfo) : Prop where
  someStep : 0 < nsteps
  weight : ∀ data ∈ values, data.weight = data.nsteps / nsteps
  total : (values.map DaemonExecInfo.nsteps).sum = nsteps

theorem Weighed.nsteps_le (weighed : Weighed nsteps values) {data : DaemonExecInfo}
    (member : data ∈ values) : data.nsteps ≤ nsteps :=
  weighed.total ▸ List.single_le_sum (fun _ _ => Nat.zero_le _) _ (List.mem_map_of_mem member)

/-- The weights add up to one, so dividing them by their sum changes nothing. -/
theorem Weighed.normalize (weighed : Weighed nsteps values) :
    (values.map fun data =>
      { data with weight := data.weight / (values.map DaemonExecInfo.weight).sum }) = values := by
  have positive : (nsteps : ℚ) ≠ 0 := Nat.cast_ne_zero.2 weighed.someStep.ne'
  have one : (values.map DaemonExecInfo.weight).sum = 1 := by
    have parts : values.map DaemonExecInfo.weight =
        values.map fun data => (data.nsteps : ℚ) * (nsteps : ℚ)⁻¹ := by
      apply List.map_congr_left
      intro data member
      rw [weighed.weight data member, div_eq_mul_inv]
    have whole : (values.map fun data => (data.nsteps : ℚ)).sum = nsteps := by
      conv_rhs => rw [← weighed.total]
      rw [Nat.cast_list_sum, List.map_map]
      rfl
    rw [parts, List.sum_map_mul_right, whole, mul_inv_cancel₀ positive]
  rw [one]
  simp only [div_one]
  exact List.map_id values

/-- The comparison sees no more than whether one server has all the iterations and the other
none. -/
theorem Weighed.compFunc_iff (weighed : Weighed nsteps values) {a b : DaemonExecInfo}
    (first : a ∈ values) (second : b ∈ values) :
    daemonExecInfoCompFunc a b ≤ 0 ↔ ¬ (a.nsteps = 0 ∧ b.nsteps = nsteps) := by
  have positive : (0 : ℚ) < nsteps := Nat.cast_pos.2 weighed.someStep
  have less := weighed.nsteps_le second
  have difference : b.weight - a.weight = ((b.nsteps : ℚ) - a.nsteps) / nsteps := by
    rw [weighed.weight a first, weighed.weight b second, sub_div]
  unfold daemonExecInfoCompFunc
  simp only [difference]
  split
  · rename_i nonneg
    rw [← not_iff_not, not_le, not_not, Int.lt_iff_add_one_le, zero_add, Int.le_floor, Int.cast_one,
      le_div_iff₀ positive, one_mul, le_sub_iff_add_le]
    norm_cast
    omega
  · rename_i negative
    have below : 0 ≤ ⌊-(((b.nsteps : ℚ) - a.nsteps) / nsteps)⌋ :=
      Int.floor_nonneg.2 (neg_nonneg.2 (not_le.1 negative).le)
    refine iff_of_true (neg_nonpos.2 below) ?_
    rintro ⟨none, all⟩
    apply negative
    rw [none, all, Nat.cast_zero, sub_zero, div_self positive.ne']
    exact zero_le_one

/-- **The sorting brings the shares to the front only when one server has all the iterations.** -/
theorem Weighed.leading_iff (weighed : Weighed nsteps values) :
    LeadingPositive ((normalizeAndSortServers values).map DaemonExecInfo.nsteps) ↔
      (∃ data ∈ values, data.nsteps = nsteps) ∨
        LeadingPositive (values.map DaemonExecInfo.nsteps) := by
  unfold normalizeAndSortServers
  simp only [weighed.normalize]
  by_cases alone : ∃ data ∈ values, data.nsteps = nsteps
  · refine iff_of_true ?_ (Or.inl alone)
    obtain ⟨all, listed, full⟩ := alone
    have ends : ∀ data ∈ values, data.nsteps = 0 ∨ data.nsteps = nsteps := by
      intro data member
      by_cases same : data = all
      · exact Or.inr (same ▸ full)
      · left
        obtain ⟨front, back, rfl⟩ := List.append_of_mem listed
        have total := weighed.total
        simp only [List.map_append, List.map_cons, List.sum_append, List.sum_cons] at total
        rcases List.mem_append.1 member with before | after
        · have le := List.single_le_sum (fun _ _ => Nat.zero_le _) _
            (List.mem_map_of_mem (f := DaemonExecInfo.nsteps) before)
          omega
        · have le := List.single_le_sum (fun _ _ => Nat.zero_le _) _
            (List.mem_map_of_mem (f := DaemonExecInfo.nsteps)
              ((List.mem_cons.1 after).resolve_left same))
          omega
    have falling := List.map_insertionSort (fun a b => daemonExecInfoCompFunc a b ≤ 0)
      (fun a b : ℕ => b ≤ a) DaemonExecInfo.nsteps values (fun a first b second => by
        rw [weighed.compFunc_iff first second]
        have positive := weighed.someStep
        rcases ends a first with none | some <;> rcases ends b second with none' | some' <;> omega)
    rw [falling]
    exact (List.pairwise_insertionSort (fun a b : ℕ => b ≤ a) _).imp fun le positive =>
      lt_of_lt_of_le positive le
  · rw [or_iff_right alone, List.Pairwise.insertionSort_eq]
    apply List.pairwise_of_forall_mem_list
    intro a first b second
    rw [weighed.compFunc_iff first second]
    exact fun ⟨_, full⟩ => alone ⟨b, second, full⟩

end Sorting

section Sending

variable {useIter : String → Bool} {runner : GebrCommRunner} {loop : GebrGeoXmlProgram}

/-- The messages carry the sub-flows, each to the server at its position. -/
theorem runMessages_spec (runner : GebrCommRunner) {flows : List GebrGeoXmlFlow}
    (enough : flows.length ≤ runner.servers.length)
    (paired : runner.numprocs.length = runner.servers.length) :
      (runMessages runner flows).map RunMessage.flow = flows ∧ ∀ (k : ℕ) (message : RunMessage),
        (runMessages runner flows)[k]? = some message → ∃ daemon :
        GebrCommDaemon, runner.servers[k]? = some daemon ∧ daemon.address = message.address := by
  have lengths : (flows.zip (runner.servers.zip runner.numprocs)).length = flows.length := by
    rw [List.length_zip, List.length_zip]
    omega
  constructor
  · apply List.ext_getElem
    · rw [List.length_map, runMessages, List.length_mapIdx, lengths]
    · intro k _ _
      simp [runMessages]
  · intro k message found
    rw [runMessages, List.getElem?_mapIdx, Option.map_eq_some_iff] at found
    obtain ⟨⟨flow, daemon, numproc⟩, paired, rfl⟩ := found
    have servers := (List.getElem?_zip_eq_some.1 paired).2
    exact ⟨daemon, (List.getElem?_zip_eq_some.1 servers).1, rfl⟩

/-- **The messages run every iteration once just when no share stands behind an empty one.** -/
theorem divideAndRun_runsEachOnce_iff (runner : GebrCommRunner)
    (controlled : gebrGeoxmlFlowGetControlProgram runner.flow = some loop)
    (parallelizable : gebrGeoxmlFlowIsParallelizable useIter runner.flow = true)
    (moves : loop.step ≠ 0) (total : runner.distributedN.sum = loop.n)
    (paired : runner.numprocs.length = runner.servers.length)
    (shared : runner.distributedN.length = runner.servers.length) :
    RunsEachOnce runner.flow (divideAndRunFlows useIter runner).1
        (divideAndRunFlows useIter runner).2 ↔ LeadingPositive runner.distributedN := by
  have flows : gebrGeoxmlFlowDivideFlows useIter runner.flow runner.distributedN =
      divideLoop runner.flow loop.step loop.ini runner.distributedN := by
    rw [gebrGeoxmlFlowDivideFlows, if_neg (not_not.2 parallelizable), controlled]
  have lengths := lengths_divideLoop controlled loop.step loop.ini runner.distributedN
  have enough : (divideLoop runner.flow loop.step loop.ini runner.distributedN).length ≤
      runner.servers.length := by
    have few := (leading_begins runner.distributedN).length_le
    have same := congrArg List.length lengths
    rw [List.length_map] at same
    exact same.trans_le (few.trans_eq shared)
  have joined := flatten_divideLoop controlled loop.step loop.ini runner.distributedN
  have whole : runner.flow.iterations = iterations loop.ini loop.step loop.n := by
    rw [GebrGeoXmlFlow.iterations, controlled]
  unfold divideAndRunFlows
  simp only [flows]
  generalize sending : { runner with
    ncores := if gebrGeoxmlFlowIsParallelizable useIter runner.flow then toString runner.numprocs.sum
      else "1"
    total := (divideLoop runner.flow loop.step loop.ini runner.distributedN).length
    serversList := serverList runner
      (divideLoop runner.flow loop.step loop.ini runner.distributedN) : GebrCommRunner } = final
  have servers : final.servers = runner.servers := sending ▸ rfl
  have shares : final.distributedN = runner.distributedN := sending ▸ rfl
  have procs : final.numprocs = runner.numprocs := sending ▸ rfl
  obtain ⟨sent, addressed⟩ := runMessages_spec final (servers ▸ enough)
    (servers ▸ procs ▸ paired)
  generalize runMessages final (divideLoop runner.flow loop.step loop.ini runner.distributedN) =
    messages at sent addressed
  have parts : messages.map (fun message => message.flow.iterations) =
      (divideLoop runner.flow loop.step loop.ini runner.distributedN).map
        GebrGeoXmlFlow.iterations := by
    rw [← sent, List.map_map]
    rfl
  have sizes : messages.map (fun message => message.flow.iterations.length) =
      leading runner.distributedN := by
    rw [← lengths, ← sent, List.map_map]
    rfl
  have split : Partitions (messages.map fun message => message.flow.iterations)
      runner.flow.iterations ↔ LeadingPositive runner.distributedN := by
    rw [parts, whole, partitions_iff (iterations_nodup _ moves _), joined, length_iterations,
      length_iterations, ← total, leading_sum_iff]
    rw [joined, ← total]
    exact iterations_prefix _ _ (leading_sum_le _)
  refine ⟨fun once => split.1 once.partitions, fun first => ⟨split.2 first, ?_, ?_⟩⟩
  · intro message member empty
    have listed : message.flow.iterations.length ∈ leading runner.distributedN :=
      sizes ▸ List.mem_map_of_mem (f := fun message : RunMessage => message.flow.iterations.length)
        member
    have positive := pos_of_mem_leading listed
    rw [empty] at positive
    exact Nat.lt_irrefl 0 positive
  · intro k message found
    obtain ⟨daemon, server, address⟩ := addressed k message found
    refine ⟨daemon, server, address, ?_⟩
    have size : (leading runner.distributedN)[k]? = some message.flow.iterations.length := by
      rw [← sizes, List.getElem?_map, found]
      rfl
    rw [shares]
    obtain ⟨inside, same⟩ := List.getElem?_eq_some_iff.1 size
    have bound := lt_of_lt_of_le inside (leading_begins runner.distributedN).length_le
    rw [List.getElem?_eq_getElem bound, ← (leading_begins runner.distributedN).getElem inside, same]

end Sending

section Launch

variable {useIter : String → Bool} {order : HashOrder} {runner : GebrCommRunner}
  {loop : GebrGeoXmlProgram} {cores : List ServerScore} {totalProcs nsteps : ℕ}

theorem mem_used {core : ServerScore} {share : ℕ}
    (member : (core, share) ∈
      (cores.take totalProcs).zip (distributeTasksToCores cores totalProcs nsteps)) :
    ∃ k : ℕ, (cores.take totalProcs)[k]? = some core ∧
      (distributeTasksToCores cores totalProcs nsteps)[k]? = some share := by
  obtain ⟨k, found⟩ := List.getElem?_of_mem member
  exact ⟨k, List.getElem?_zip_eq_some.1 found⟩

theorem exists_used (nsteps : ℕ) {k : ℕ} {core : ServerScore}
    (found : (cores.take totalProcs)[k]? = some core) : ∃ share :
      ℕ, (distributeTasksToCores cores totalProcs nsteps)[k]? = some share ∧ (core, share) ∈
      (cores.take totalProcs).zip (distributeTasksToCores cores totalProcs nsteps) := by
  have inside : k < (distributeTasksToCores cores totalProcs nsteps).length := by
    rw [length_distributeTasksToCores]
    exact (List.getElem?_eq_some_iff.1 found).1
  obtain ⟨share, shared⟩ : ∃ share : ℕ,
      (distributeTasksToCores cores totalProcs nsteps)[k]? = some share :=
    ⟨_, List.getElem?_eq_getElem inside⟩
  exact ⟨share, shared,
    List.mem_of_getElem?
      (List.getElem?_zip_eq_some.2
        (show _ = some (core, share).1 ∧ _ = some (core, share).2 from ⟨found, shared⟩))⟩

/-- **A host is fed just when it gets iterations.** -/
theorem stepsOf_pos_iff (given : Distributable cores totalProcs nsteps) (host : String) :
    0 < stepsOf ((cores.take totalProcs).zip (distributeTasksToCores cores totalProcs nsteps)) host ↔
      Fed cores totalProcs nsteps host := by
  constructor
  · intro positive
    obtain ⟨share, listed, held⟩ := List.exists_mem_ne_zero_of_sum_ne_zero positive.ne'
    obtain ⟨⟨core, share⟩, member, rfl⟩ := List.mem_map.1 listed
    obtain ⟨used, home⟩ := List.mem_filter.1 member
    obtain ⟨k, found, shared⟩ := mem_used used
    exact ⟨k, core, found, of_decide_eq_true home,
      (given.pos_iff found shared).1 (Nat.pos_of_ne_zero held)⟩
  · rintro ⟨k, core, found, home, feeds⟩
    obtain ⟨share, shared, used⟩ := exists_used nsteps found
    have counted : (core, share) ∈ coresOf
        ((cores.take totalProcs).zip (distributeTasksToCores cores totalProcs nsteps)) host :=
      List.mem_filter.2 ⟨used, decide_eq_true home⟩
    have mine := List.mem_map_of_mem (f := Prod.snd) counted
    exact lt_of_lt_of_le ((given.pos_iff found shared).2 feeds)
      (List.single_le_sum (fun _ _ => Nat.zero_le _) _ mine)

/-- A host has a used core just when cores of it are counted. -/
theorem coresOf_pos_iff (nsteps : ℕ) (host : String) :
    0 < (coresOf ((cores.take totalProcs).zip (distributeTasksToCores cores totalProcs nsteps))
        host).length ↔ ∃ core ∈ cores.take totalProcs, core.server.hostname = host := by
  rw [List.length_pos_iff_exists_mem]
  constructor
  · rintro ⟨⟨core, share⟩, member⟩
    obtain ⟨used, home⟩ := List.mem_filter.1 member
    exact ⟨core, (List.of_mem_zip used).1, of_decide_eq_true home⟩
  · rintro ⟨core, member, home⟩
    obtain ⟨k, found⟩ := List.getElem?_of_mem member
    obtain ⟨share, -, used⟩ := exists_used nsteps found
    exact ⟨_, List.mem_filter.2 ⟨used, decide_eq_true home⟩⟩

/-- The values of the table of the servers, once all cores are counted. -/
structure Tabled (cores : List ServerScore) (totalProcs nsteps : ℕ) (hosts : List String)
    (values : List DaemonExecInfo) : Prop where
  given : Distributable cores totalProcs nsteps
  names : values.map (fun data => data.daemon.hostname) = hosts
  distinct : hosts.Nodup
  known : ∀ core ∈ cores, core.server.hostname ∈ hosts
  credited : ∀ data ∈ values, Credited
    ((cores.take totalProcs).zip (distributeTasksToCores cores totalProcs nsteps)) nsteps data

variable {hosts : List String} {values : List DaemonExecInfo}

theorem Tabled.sum_hosts (tabled : Tabled cores totalProcs nsteps hosts values) :
    (hosts.map (stepsOf
      ((cores.take totalProcs).zip (distributeTasksToCores cores totalProcs nsteps)))).sum =
      nsteps := by
  have shared : (((cores.take totalProcs).zip (distributeTasksToCores cores totalProcs nsteps)).map
      Prod.snd) = distributeTasksToCores cores totalProcs nsteps :=
    List.map_snd_zip (length_distributeTasksToCores cores totalProcs nsteps).le
  rw [sum_stepsOf tabled.distinct, shared, tabled.given.sum_eq]
  intro core member
  exact tabled.known _ (List.mem_of_mem_take (List.of_mem_zip member).1)

/-- **The iterations of the servers are those of the flow.** -/
theorem Tabled.total (tabled : Tabled cores totalProcs nsteps hosts values) :
    (values.map DaemonExecInfo.nsteps).sum = nsteps := by
  conv_rhs => rw [← tabled.sum_hosts]
  rw [← tabled.names, List.map_map]
  congr 1
  apply List.map_congr_left
  intro data member
  exact (tabled.credited data member).2.1

theorem Tabled.exists_value (tabled : Tabled cores totalProcs nsteps hosts values) {host : String}
    (listed : host ∈ hosts) : ∃ data ∈ values, data.daemon.hostname = host := by
  rw [← tabled.names] at listed
  exact List.mem_map.1 listed

theorem Tabled.fed_iff (tabled : Tabled cores totalProcs nsteps hosts values) {data : DaemonExecInfo}
    (member : data ∈ values) :
    0 < data.nsteps ↔ Fed cores totalProcs nsteps data.daemon.hostname := by
  rw [← stepsOf_pos_iff tabled.given, ← (tabled.credited data member).2.1]

theorem Tabled.mem_of_fed (tabled : Tabled cores totalProcs nsteps hosts values) {host : String}
    (fed : Fed cores totalProcs nsteps host) : host ∈ hosts := by
  obtain ⟨k, core, found, rfl, -⟩ := fed
  exact tabled.known core (List.mem_of_mem_take (List.mem_of_getElem? found))

/-- Some server has iterations, and holds processors then. -/
theorem Tabled.np_pos (tabled : Tabled cores totalProcs nsteps hosts values) {data : DaemonExecInfo}
    (member : data ∈ values) (fed : 0 < data.nsteps) : 0 < data.np := by
  obtain ⟨np, steps, -⟩ := tabled.credited data member
  rw [steps] at fed
  rw [np]
  obtain ⟨share, listed, -⟩ := List.exists_mem_ne_zero_of_sum_ne_zero fed.ne'
  obtain ⟨core, counted, -⟩ := List.mem_map.1 listed
  exact List.length_pos_of_mem counted

/-- A server has processors after the sharing just when it is staffed. -/
theorem Tabled.staffed_iff (tabled : Tabled cores totalProcs nsteps hosts values) {i : ℕ}
    {data : DaemonExecInfo} (found : values[i]? = some data) :
    0 < data.np + (totalProcs - (cores.take totalProcs).length) / values.length +
        (if i < totalProcs - (cores.take totalProcs).length -
          (totalProcs - (cores.take totalProcs).length) / values.length * values.length
        then 1 else 0) ↔ Staffed cores totalProcs i data.daemon.hostname := by
  have inside : i < values.length := (List.getElem?_eq_some_iff.1 found).1
  have some_value : 0 < values.length := Nat.zero_lt_of_lt inside
  have np := (tabled.credited data (List.mem_of_getElem? found)).1
  have more : totalProcs - (cores.take totalProcs).length = totalProcs - cores.length := by
    rw [List.length_take]
    omega
  unfold Staffed
  rw [← coresOf_pos_iff nsteps, ← np, more]
  rcases Nat.lt_or_ge (totalProcs - cores.length) values.length with few | many
  · rw [Nat.div_eq_of_lt few]
    split <;> omega
  · have each : 0 < (totalProcs - cores.length) / values.length := Nat.div_pos many some_value
    exact iff_of_true (by omega) (Or.inr (by omega))

/-- Dropping the servers without processors drops no iteration. -/
theorem Tabled.weighed (tabled : Tabled cores totalProcs nsteps hosts values) (base rest : ℕ) :
    Weighed nsteps (shareProcessors base rest values) := by
  have positive : 0 < nsteps := lt_of_lt_of_le tabled.given.someProc tabled.given.enough
  refine ⟨positive, ?_, ?_⟩
  · rw [shareProcessors_eq]
    intro data member
    obtain ⟨i, inside, rfl⟩ := List.mem_mapIdx.1 (List.mem_of_mem_filter member)
    obtain ⟨-, steps, weight⟩ := tabled.credited _ (List.getElem_mem inside)
    show (values[i]).weight = ((values[i]).nsteps : ℚ) / nsteps
    rw [weight, steps]
  · have kept : ∀ values : List DaemonExecInfo, (∀ data ∈ values, 0 < data.nsteps → 0 < data.np) →
        ∀ base rest, ((shareProcessors base rest values).map DaemonExecInfo.nsteps).sum =
          (values.map DaemonExecInfo.nsteps).sum := by
      intro values fed base rest
      induction values generalizing rest with
      | nil => rfl
      | cons data values ih =>
        have later := ih (fun other member => fed other (List.mem_cons_of_mem _ member)) (rest - 1)
        have here := fed data List.mem_cons_self
        simp only [shareProcessors]
        by_cases dropped : data.np + base + (if 0 < rest then 1 else 0) = 0
        · rw [if_pos dropped, later, List.map_cons, List.sum_cons]
          omega
        · rw [if_neg dropped, List.map_cons, List.map_cons, List.sum_cons, List.sum_cons, later]
    rw [kept values fun data member => tabled.np_pos member]
    exact tabled.total

/-- The servers that are left are those with processors. -/
theorem exists_shared {base rest : ℕ} {data : DaemonExecInfo} (member : data ∈ values)
    (procs : 0 < data.np) : ∃ left ∈ shareProcessors base rest values, left.nsteps = data.nsteps := by
  obtain ⟨i, inside, rfl⟩ := List.getElem_of_mem member
  rw [shareProcessors_eq]
  exact ⟨_, List.mem_filter.2 ⟨List.mem_mapIdx.2 ⟨i, inside, rfl⟩,
    decide_eq_true (Nat.add_pos_left (Nat.add_pos_left procs _) _).ne'⟩, rfl⟩

theorem exists_value_of_shared {base rest : ℕ} {left : DaemonExecInfo}
    (member : left ∈ shareProcessors base rest values) :
    ∃ data ∈ values, left.nsteps = data.nsteps := by
  rw [shareProcessors_eq] at member
  obtain ⟨i, inside, rfl⟩ := List.mem_mapIdx.1 (List.mem_of_mem_filter member)
  exact ⟨_, List.getElem_mem inside, rfl⟩

/-- Some server has all the iterations just when only one host is fed. -/
theorem Tabled.alone_iff (tabled : Tabled cores totalProcs nsteps hosts values) (base rest : ℕ) :
    (∃ data ∈ shareProcessors base rest values, data.nsteps = nsteps) ↔
      ∃ only, ∀ host, Fed cores totalProcs nsteps host → host = only := by
  have positive : 0 < nsteps := (tabled.weighed base rest).someStep
  have sum := tabled.sum_hosts
  rw [← List.sum_toFinset _ tabled.distinct] at sum
  constructor
  · rintro ⟨left, member, all⟩
    obtain ⟨data, listed, same⟩ := exists_value_of_shared member
    have whole := (tabled.credited data listed).2.1
    refine ⟨data.daemon.hostname, fun host fed => ?_⟩
    by_contra other
    have here : data.daemon.hostname ∈ hosts :=
      tabled.mem_of_fed ((tabled.fed_iff listed).1 (by omega))
    have steps := (stepsOf_pos_iff tabled.given host).2 fed
    have both := (Finset.add_le_sum (fun _ _ => Nat.zero_le _)
      (List.mem_toFinset.2 (tabled.mem_of_fed fed)) (List.mem_toFinset.2 here) other).trans_eq sum
    omega
  · rintro ⟨only, alone⟩
    obtain ⟨host, listed, held⟩ := Finset.exists_ne_zero_of_sum_ne_zero (sum.trans_ne positive.ne')
    have fed := (stepsOf_pos_iff tabled.given host).1 (Nat.pos_of_ne_zero held)
    obtain rfl := alone host fed
    rw [Finset.sum_eq_single_of_mem host listed] at sum
    · obtain ⟨data, member, rfl⟩ := tabled.exists_value (List.mem_toFinset.1 listed)
      have steps := (tabled.credited data member).2.1
      obtain ⟨left, kept, same⟩ := exists_shared member (tabled.np_pos member (by omega))
      exact ⟨left, kept, by omega⟩
    · intro other _ apart
      by_contra more
      exact apart (alone other ((stepsOf_pos_iff tabled.given other).1 (Nat.pos_of_ne_zero more)))

/-- **Which servers have iterations, in the order of the table.** -/
theorem Tabled.leading_iff (tabled : Tabled cores totalProcs nsteps hosts values) :
    LeadingPositive ((shareProcessors
        ((totalProcs - (cores.take totalProcs).length) / values.length)
        (totalProcs - (cores.take totalProcs).length -
          (totalProcs - (cores.take totalProcs).length) / values.length * values.length)
        values).map DaemonExecInfo.nsteps) ↔
      ∀ first later host other, first < later → hosts[first]? = some host →
        hosts[later]? = some other → Staffed cores totalProcs first host →
          Fed cores totalProcs nsteps other → Fed cores totalProcs nsteps host := by
  have named : ∀ (i : ℕ) (host : String), hosts[i]? = some host ↔
      ∃ data, values[i]? = some data ∧ data.daemon.hostname = host := by
    intro i host
    rw [← tabled.names, List.getElem?_map, Option.map_eq_some_iff]
  rw [LeadingPositive, shareProcessors_eq, List.pairwise_map, List.pairwise_filter,
    List.pairwise_iff_getElem]
  simp only [List.getElem_mapIdx, List.length_mapIdx]
  constructor
  · intro leads first later host other before atFirst atLater staffed fedLater
    obtain ⟨data, found, rfl⟩ := (named first host).1 atFirst
    obtain ⟨data', found', rfl⟩ := (named later other).1 atLater
    obtain ⟨inside, rfl⟩ := List.getElem?_eq_some_iff.1 found
    obtain ⟨inside', rfl⟩ := List.getElem?_eq_some_iff.1 found'
    have steps := (tabled.fed_iff (List.getElem_mem inside')).2 fedLater
    have np := tabled.np_pos (List.getElem_mem inside') steps
    have procs := (tabled.staffed_iff found).2 staffed
    exact (tabled.fed_iff (List.getElem_mem inside)).1 (leads first later inside inside' before
      (decide_eq_true procs.ne')
      (decide_eq_true (Nat.add_pos_left (Nat.add_pos_left np _) _).ne') steps)
  · intro leads first later inside inside' before procs _ steps
    have staffed := (tabled.staffed_iff (List.getElem?_eq_getElem inside)).1
      (Nat.pos_of_ne_zero (of_decide_eq_true procs))
    exact (tabled.fed_iff (List.getElem_mem inside)).2 (leads first later _ _ before
      ((named first _).2 ⟨_, List.getElem?_eq_getElem inside, rfl⟩)
      ((named later _).2 ⟨_, List.getElem?_eq_getElem inside', rfl⟩) staffed
      ((tabled.fed_iff (List.getElem_mem inside')).1 steps))

theorem totalProcs_pos (someStep : 0 < runner.nsteps useIter) : 0 < runner.totalProcs useIter := by
  have one := le_max_right (round (runner.coresScores.length * runner.speed / 5)) 1
  exact lt_min (Int.lt_toNat.2 (by omega)) someStep

/-- The score of the best core comes first, and the scores are those the servers gave. -/
theorem sortCores_distributable (given : Launchable useIter runner loop) :
    Distributable (sortCores runner.coresScores) (runner.totalProcs useIter) loop.n := by
  have falls : (sortCores runner.coresScores).Pairwise fun a b => b.score ≤ a.score := by
    have rule : ∀ a b : ServerScore, serverScoreCompFunc a b ≤ 0 ↔ b.score ≤ a.score := by
      intro a b
      simp only [serverScoreCompFunc]
      split_ifs with less more
      · exact iff_of_true (by decide) (sub_neg.1 less).le
      · exact iff_of_false (by decide) (not_le.2 (sub_pos.1 more))
      · exact iff_of_true le_rfl (sub_nonpos.1 (not_lt.1 more))
    unfold sortCores
    simp only [rule]
    have : Std.Total fun a b : ServerScore => b.score ≤ a.score :=
      ⟨fun a b => le_total b.score a.score⟩
    have : IsTrans ServerScore fun a b => b.score ≤ a.score :=
      ⟨fun _ _ _ first second => le_trans second first⟩
    exact List.pairwise_insertionSort _ _
  have same : ∀ core, core ∈ sortCores runner.coresScores ↔ core ∈ runner.coresScores :=
    fun core => List.mem_insertionSort _
  have steps : runner.nsteps useIter = loop.n := by
    rw [GebrCommRunner.nsteps, given.controlled]
    exact if_pos given.parallelizable
  refine ⟨fun core member => given.nonneg core ((same core).1 member), ?_, ?_, ?_⟩
  · obtain ⟨core, listed, positive⟩ := given.scored
    have member := (same core).2 listed
    cases sorted : sortCores runner.coresScores with
    | nil => exact absurd (sorted ▸ member) List.not_mem_nil
    | cons first cores =>
      rw [sorted] at member falls
      refine lt_of_lt_of_le positive ?_
      rw [scoreAt_of_getElem? (show (first :: cores)[0]? = some first from rfl)]
      rcases List.mem_cons.1 member with rfl | later
      · exact le_rfl
      · exact (List.pairwise_cons.1 falls).1 core later
  · exact totalProcs_pos (steps ▸ given.someStep)
  · exact steps ▸ Nat.min_le_right _ _

/-- **A launch runs every iteration exactly once just when the fed servers come first.** That is
when only one server is fed, or none that has processors and is not fed stands before one that
is. -/
theorem launch_runsEachOnce_iff (order : HashOrder) (given : Launchable useIter runner loop) :
    RunsEachOnce runner.flow (launch useIter order runner).1 (launch useIter order runner).2 ↔
      FedFirst (sortCores runner.coresScores) (runner.totalProcs useIter) loop.n
        (order.keys (hostnames runner.servers)) := by
  have distributable := sortCores_distributable given
  have lengths : (sortCores runner.coresScores).length = runner.coresScores.length :=
    List.length_insertionSort _ _
  have steps : runner.nsteps useIter = loop.n := by
    rw [GebrCommRunner.nsteps, given.controlled]
    exact if_pos given.parallelizable
  generalize sorted : sortCores runner.coresScores = cores at distributable lengths
  generalize asked : runner.totalProcs useIter = totalProcs at distributable
  obtain ⟨names, credits⟩ := hashValues_credited order runner.servers
    ((cores.take totalProcs).zip (distributeTasksToCores cores totalProcs loop.n)) loop.n
  generalize table : hashValues order (((cores.take totalProcs).zip
    (distributeTasksToCores cores totalProcs loop.n)).foldl (creditCore loop.n)
      (serversMap runner.servers)) = values at names credits
  have tabled : Tabled cores totalProcs loop.n (order.keys (hostnames runner.servers)) values := by
    refine ⟨distributable, names, ?_, fun core member => ?_, credits⟩
    · exact (order.perm _).nodup_iff.2 (serversMap_blank runner.servers).distinct
    · rw [← sorted] at member
      have known := given.known core ((List.mem_insertionSort _).1 member)
      exact (order.perm _).mem_iff.2 ((serversMap_blank runner.servers).present _ known)
  have tables : calculateServersScoresAndNumProcs useIter order { runner with coresScores := cores } =
      ({ runner with coresScores := cores.take totalProcs }, shareProcessors
        ((totalProcs - (cores.take totalProcs).length) / values.length)
        (totalProcs - (cores.take totalProcs).length -
          (totalProcs - (cores.take totalProcs).length) / values.length * values.length) values) := by
    have sameSteps : GebrCommRunner.nsteps useIter { runner with coresScores := cores } = loop.n :=
      steps
    have sameProcs :
        GebrCommRunner.totalProcs useIter { runner with coresScores := cores } = totalProcs := by
      rw [← asked, GebrCommRunner.totalProcs, GebrCommRunner.totalProcs]
      simp only [lengths]
      rfl
    unfold calculateServersScoresAndNumProcs
    simp only [sameSteps, sameProcs, table]
  have weighed := tabled.weighed ((totalProcs - (cores.take totalProcs).length) / values.length)
    (totalProcs - (cores.take totalProcs).length -
      (totalProcs - (cores.take totalProcs).length) / values.length * values.length)
  generalize shared : shareProcessors _ _ values = left at tables weighed
  have sum : ((normalizeAndSortServers left).map DaemonExecInfo.nsteps).sum = loop.n := by
    unfold normalizeAndSortServers
    simp only [weighed.normalize]
    rw [((List.perm_insertionSort _ left).map DaemonExecInfo.nsteps).sum_eq, weighed.total]
  have sent : setServersExecutionInfo useIter order { runner with coresScores := cores } =
      { runner with
        coresScores := cores.take totalProcs
        servers := (normalizeAndSortServers left).map DaemonExecInfo.daemon
        numprocs := (normalizeAndSortServers left).map DaemonExecInfo.np
        distributedN := (normalizeAndSortServers left).map DaemonExecInfo.nsteps } := by
    unfold setServersExecutionInfo
    simp only [tables]
  rw [launch, sorted, sent]
  refine (divideAndRun_runsEachOnce_iff { runner with
    coresScores := cores.take totalProcs
    servers := (normalizeAndSortServers left).map DaemonExecInfo.daemon
    numprocs := (normalizeAndSortServers left).map DaemonExecInfo.np
    distributedN := (normalizeAndSortServers left).map DaemonExecInfo.nsteps }
    given.controlled given.parallelizable given.moves sum (by simp) (by simp)).trans ?_
  rw [weighed.leading_iff, ← shared, tabled.alone_iff, tabled.leading_iff]
  rfl

end Launch

section Example

/-- A loop of three iterations, from one on. -/
def threeSteps : GebrGeoXmlProgram := ⟨.for, .configured, false, 1, 1, 3⟩

/-- A table that gives its keys in the order they came. -/
def tableOrder : HashOrder := ⟨id, fun _ => List.Perm.refl _⟩

/-- Three servers with one core each, and what their cores score. -/
def threeServers (scores : List ℚ) : GebrCommRunner :=
  let servers : List GebrCommDaemon :=
    [⟨"10.0.0.1", "mars"⟩, ⟨"10.0.0.2", "venus"⟩, ⟨"10.0.0.3", "earth"⟩]
  { id := "1", gid := "g", speed := 5, nice := "0", paths := "", account := none
    flow := ⟨[threeSteps], ""⟩
    servers
    coresScores := (servers.zip scores).map fun (server, score) => ⟨server, score⟩
    numprocs := [], distributedN := [], total := 0, ncores := "", serversList := "" }

theorem threeServers_launchable {first second third : ℚ} (best : 0 < first) (good : 0 ≤ second)
    (last : 0 ≤ third) :
    Launchable (fun _ => false) (threeServers [first, second, third]) threeSteps := by
  refine ⟨rfl, rfl, by decide, by decide, ?_, ?_, ⟨_, List.mem_cons_self, best⟩⟩
  · simp [threeServers]
  · simpa [threeServers] using ⟨best.le, good, last⟩

/-- Three servers that score the same run one iteration each. -/
theorem launch_runsEachOnce_iff_equal :
    RunsEachOnce ⟨[threeSteps], ""⟩
        (launch (fun _ => false) tableOrder (threeServers [1, 1, 1])).1
        (launch (fun _ => false) tableOrder (threeServers [1, 1, 1])).2 ↔
      FedFirst (sortCores (threeServers [1, 1, 1]).coresScores)
        ((threeServers [1, 1, 1]).totalProcs fun _ => false) 3
        (tableOrder.keys (hostnames (threeServers [1, 1, 1]).servers)) :=
  launch_runsEachOnce_iff tableOrder
    (threeServers_launchable zero_lt_one zero_le_one zero_le_one)

/-- **A server that gets no iteration takes the last one with it.** `mars` runs two, `venus` none,
and the third one, of `earth`, is never sent. -/
theorem launch_starved_drops :
    Launchable (fun _ => false) (threeServers [10, 2, 1]) threeSteps ∧
      (launch (fun _ => false) tableOrder (threeServers [10, 2, 1])).1.distributedN = [2, 0, 1] ∧
        ¬ RunsEachOnce ⟨[threeSteps], ""⟩
          (launch (fun _ => false) tableOrder (threeServers [10, 2, 1])).1
          (launch (fun _ => false) tableOrder (threeServers [10, 2, 1])).2 := by
  refine ⟨threeServers_launchable (by decide) (by decide) (by decide), by decide +kernel,
    fun once => ?_⟩
  have third : (3 : ℚ) ∈ GebrGeoXmlFlow.iterations ⟨[threeSteps], ""⟩ := by decide +kernel
  have missing : ∀ part ∈ (launch (fun _ => false) tableOrder (threeServers [10, 2, 1])).2.map
      (fun message => message.flow.iterations), (3 : ℚ) ∉ part := by decide +kernel
  obtain ⟨k, ⟨part, found, inside⟩, -⟩ := once.partitions.once 3 third
  exact missing part (List.mem_of_getElem? found) inside

end Example

end Gebr.Comm
