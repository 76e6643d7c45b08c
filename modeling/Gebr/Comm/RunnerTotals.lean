/-
**The processors and the iterations of a launch add up.**

`calculate_servers_scores_and_num_procs` counts the processors and the iterations of the cores it
uses for their servers, spreads the processors that are more than the cores over all servers and
drops the servers without any. The cores get their iterations by their part of all the scores: where
these are all nothing, as when no server knows the clock of its processors, that part is no number.

* `calculateServerScore`: the scores of the cores of a server, which are nothing without a clock.
* `heldBy`: the servers with all their processors, before any is dropped.
* `Conserved`: the processors and the iterations add up, and what is dropped held none of either.
* `conserves_iff` — **that is so just when some core has a score**.
-/

import Gebr.Comm.RunnerDivision

namespace Gebr.Comm

open Gebr.Lib.Shares

section Scores

/-- The loop of `calculate_server_score`: `base` is the load of each core, `rest` what is left of
it. -/
def coreScores (daemon : GebrCommDaemon) (cpuClock base : ℚ) : ℕ → ℚ → ℕ → List ServerScore
  | 0, _, _ => []
  | ncores + 1, rest, runningJobs =>
    let load := if 1 < rest then base + 1 else if 0 < rest then base + rest else base
    let left := if 1 < rest then rest - 1 else if 0 < rest then 0 else rest
    let nJobs := if 0 < runningJobs then 1 else 0
    coreScores daemon cpuClock base ncores left (runningJobs - 1) ++
      [⟨daemon, cpuClock / (load + 1) * (9 / 10) ^ nJobs⟩]

/-- `calculate_server_score`, once the load of the server is predicted. -/
def calculateServerScore (daemon : GebrCommDaemon) (currentLoad : ℚ) (ncores : ℕ) (cpuClock : ℚ)
    (runningJobs : ℕ) : List ServerScore :=
  let base : ℚ := ⌊currentLoad / ncores⌋
  coreScores daemon cpuClock base ncores (currentLoad - base) runningJobs

/-- The scores of a server are its clock, each divided by something. -/
theorem coreScores_eq_clock (daemon : GebrCommDaemon) (cpuClock : ℚ) {base : ℚ} (loaded : 0 ≤ base)
    (ncores : ℕ) (rest : ℚ) (runningJobs : ℕ) {core : ServerScore}
    (member : core ∈ coreScores daemon cpuClock base ncores rest runningJobs) :
    ∃ factor : ℚ, 0 < factor ∧ core = ⟨daemon, cpuClock * factor⟩ := by
  induction ncores generalizing rest runningJobs with
  | zero => exact nomatch member
  | succ ncores ih =>
    rcases List.mem_append.1 member with earlier | last
    · exact ih _ _ earlier
    · obtain rfl := List.mem_singleton.1 last
      generalize whole : (if 1 < rest then base + 1 else if 0 < rest then base + rest else base) = load
      have positive : 0 < load + 1 := by
        rw [← whole]
        split_ifs <;> linarith
      refine ⟨(load + 1)⁻¹ * (9 / 10) ^ (if 0 < runningJobs then 1 else 0), by positivity, ?_⟩
      rw [div_eq_mul_inv, mul_assoc]

/-- **A core has a score just when its server has a clock.** -/
theorem calculateServerScore_pos_iff (daemon : GebrCommDaemon) {currentLoad : ℚ}
    (loaded : 0 ≤ currentLoad) (ncores : ℕ) (cpuClock : ℚ) (runningJobs : ℕ) {core : ServerScore}
    (member : core ∈ calculateServerScore daemon currentLoad ncores cpuClock runningJobs) :
    0 < core.score ↔ 0 < cpuClock := by
  have base : (0 : ℚ) ≤ ⌊currentLoad / ncores⌋ := by
    have worth : 0 ≤ currentLoad / ncores := div_nonneg loaded (Nat.cast_nonneg ncores)
    exact_mod_cast Int.floor_nonneg.2 worth
  obtain ⟨factor, positive, rfl⟩ := coreScores_eq_clock daemon cpuClock base _ _ _ member
  exact mul_pos_iff_of_pos_right positive

end Scores

section Statement

variable (useIter : String → Bool) (order : HashOrder) (runner : GebrCommRunner)

/-- `calculate_servers_scores_and_num_procs`, with the division that it rests on: the scores are
divided by the sum of the scores of the processes, and zero by zero is no number. -/
def checkedScoresAndNumProcs : Option (GebrCommRunner × List DaemonExecInfo) :=
  if processScores runner.coresScores (runner.totalProcs useIter) = 0 then none
  else some (calculateServersScoresAndNumProcs useIter order runner)

/-- The values of the table once the used cores are counted for their servers. -/
def countedFor : List DaemonExecInfo :=
  let nsteps := runner.nsteps useIter
  let totalProcs := runner.totalProcs useIter
  let distributedN := distributeTasksToCores runner.coresScores totalProcs nsteps
  let used := runner.coresScores.take totalProcs
  hashValues order ((used.zip distributedN).foldl (creditCore nsteps) (serversMap runner.servers))

/-- The servers with all their processors, before those without any are dropped. -/
def heldBy : List DaemonExecInfo :=
  let values := countedFor useIter order runner
  let tmp := runner.totalProcs useIter - (runner.coresScores.take (runner.totalProcs useIter)).length
  let base := tmp / values.length
  let rest := tmp - base * values.length
  values.mapIdx fun i data => { data with np := data.np + base + if i < rest then 1 else 0 }

/-- What the function is called with: servers by distinct names, scores of their cores, best first,
and a flow that runs at least once. -/
structure Scored : Prop where
  someServer : runner.servers ≠ []
  distinct : (runner.servers.map GebrCommDaemon.hostname).Nodup
  someCore : runner.coresScores ≠ []
  sorted : runner.coresScores.Pairwise fun first second => second.score ≤ first.score
  known : ∀ core ∈ runner.coresScores, core.server ∈ runner.servers
  nonneg : ∀ core ∈ runner.coresScores, 0 ≤ core.score
  someStep : 1 ≤ runner.nsteps useIter

/-- The processors and the iterations of the values add up, each value has a processor, and a server
that is not among them held neither processors nor iterations. -/
structure Conserved (values : List DaemonExecInfo) : Prop where
  procs : (values.map DaemonExecInfo.np).sum =
    min (gebrCalculateNumberOfProcessors runner.coresScores.length runner.speed)
      (runner.nsteps useIter)
  steps : (values.map DaemonExecInfo.nsteps).sum = runner.nsteps useIter
  busy : ∀ data ∈ values, 1 ≤ data.np
  servers : ((heldBy useIter order runner).map DaemonExecInfo.daemon).Perm runner.servers
  kept : values.Sublist (heldBy useIter order runner)
  dropped : ∀ data ∈ heldBy useIter order runner, data ∉ values → data.np = 0 ∧ data.nsteps = 0

/-- The function gives values, and they are conserved. -/
def Conserves : Prop :=
  ∃ after values, checkedScoresAndNumProcs useIter order runner = some (after, values) ∧
    Conserved useIter order runner values

end Statement

section Totals

variable {useIter : String → Bool} {runner : GebrCommRunner}

/-- Servers by distinct names are in the table in their order. -/
theorem serversMap_eq_map {servers : List GebrCommDaemon}
    (distinct : (servers.map GebrCommDaemon.hostname).Nodup) :
    serversMap servers = servers.map fun daemon => ⟨daemon, 0, 0, 0⟩ := by
  induction servers using List.reverseRecOn with
  | nil => rfl
  | append_singleton servers daemon ih =>
    rw [List.map_append, List.nodup_append] at distinct
    obtain ⟨earlier, -, apart⟩ := distinct
    have absent : ¬ (servers.map fun daemon => (⟨daemon, 0, 0, 0⟩ : DaemonExecInfo)).any
        fun other => other.daemon.hostname = daemon.hostname := by
      rw [List.any_eq_true]
      rintro ⟨data, member, same⟩
      obtain ⟨other, listed, rfl⟩ := List.mem_map.1 member
      exact apart _ (List.mem_map_of_mem listed) _ (List.mem_singleton.2 rfl) (of_decide_eq_true same)
    have inserted := ih earlier
    unfold serversMap at inserted ⊢
    rw [List.foldl_append, inserted, List.map_append]
    exact if_neg absent

/-- The values of a table with distinct keys are its entries, in another order. -/
theorem hashValues_perm (order : HashOrder) {map : List DaemonExecInfo}
    (distinct : (map.map fun data => data.daemon.hostname).Nodup) :
    (hashValues order map).Perm map := by
  have found : ∀ data ∈ map,
      (map.find? fun other => other.daemon.hostname = data.daemon.hostname) = some data := by
    intro data member
    cases search : map.find? fun other => other.daemon.hostname = data.daemon.hostname with
    | none => exact absurd (decide_eq_true rfl) (List.find?_eq_none.1 search data member)
    | some other =>
      have same : other.daemon.hostname = data.daemon.hostname := by simpa using List.find?_some search
      rw [List.inj_on_of_nodup_map distinct (List.mem_of_find?_eq_some search) member same]
  have whole : (map.map fun data => data.daemon.hostname).filterMap (fun hostname =>
      map.find? fun other => other.daemon.hostname = hostname) = map := by
    rw [List.filterMap_map]
    calc map.filterMap _ = map.filterMap some := List.filterMap_congr found
      _ = map := List.filterMap_some
  have moved := (order.perm (map.map fun data => data.daemon.hostname)).filterMap fun hostname =>
    map.find? fun other => other.daemon.hostname = hostname
  rw [whole] at moved
  exact moved

/-- What is added to the places of a list, one more to the first ones, is what was spread. -/
theorem sum_mapIdx_spread (values : List DaemonExecInfo) (base : ℕ) {rest : ℕ}
    (few : rest ≤ values.length) :
    ((values.mapIdx fun i data =>
        { data with np := data.np + base + if i < rest then 1 else 0 : DaemonExecInfo }).map
          DaemonExecInfo.np).sum =
      (values.map DaemonExecInfo.np).sum + (base * values.length + rest) := by
  induction values generalizing rest with
  | nil =>
    obtain rfl : rest = 0 := Nat.le_zero.1 few
    rfl
  | cons data values ih =>
    have fewer : rest - 1 ≤ values.length := by
      rw [List.length_cons] at few
      omega
    have later := ih fewer
    have shifted : ∀ i, i + 1 < rest ↔ i < rest - 1 := fun i => by omega
    simp only [List.mapIdx_cons, List.map_cons, List.sum_cons, shifted, later, List.length_cons,
      Nat.mul_add]
    split <;> omega

theorem Scored.best_pos (scored : Scored useIter runner) {core : ServerScore}
    (member : core ∈ runner.coresScores) (positive : 0 < core.score) :
    0 < scoreAt runner.coresScores 0 := by
  have sorted := scored.sorted
  cases listed : runner.coresScores with
  | nil => exact absurd (listed ▸ member) List.not_mem_nil
  | cons first cores =>
    rw [listed] at member sorted
    rw [scoreAt_of_getElem? (show (first :: cores)[0]? = some first from rfl)]
    rcases List.mem_cons.1 member with rfl | later
    · exact positive
    · exact positive.trans_le ((List.pairwise_cons.1 sorted).1 core later)

theorem Scored.distributable (scored : Scored useIter runner) {core : ServerScore}
    (member : core ∈ runner.coresScores) (positive : 0 < core.score) :
    Distributable runner.coresScores (runner.totalProcs useIter) (runner.nsteps useIter) :=
  ⟨scored.nonneg, scored.best_pos member positive, totalProcs_pos scored.someStep,
    Nat.min_le_right _ _⟩

theorem processScores_eq_zero {cores : List ServerScore} (none : ∀ core ∈ cores, core.score = 0)
    (totalProcs : ℕ) : processScores cores totalProcs = 0 := by
  apply List.sum_eq_zero
  intro score member
  obtain ⟨i, -, rfl⟩ := List.mem_map.1 member
  rw [scoreAt]
  cases found : cores[i % cores.length]? with
  | none => rfl
  | some core => exact none core (List.mem_of_getElem? found)

theorem Scored.hostnames_eq (scored : Scored useIter runner) :
    hostnames runner.servers = runner.servers.map GebrCommDaemon.hostname := by
  rw [hostnames, serversMap_eq_map scored.distinct, List.map_map]
  rfl

/-- The table of the servers, once the cores are counted. -/
theorem Scored.tabled (scored : Scored useIter runner) (order : HashOrder)
    (given : Distributable runner.coresScores (runner.totalProcs useIter) (runner.nsteps useIter)) :
    Tabled runner.coresScores (runner.totalProcs useIter) (runner.nsteps useIter)
      (order.keys (hostnames runner.servers)) (countedFor useIter order runner) := by
  obtain ⟨names, credits⟩ := hashValues_credited order runner.servers
    ((runner.coresScores.take (runner.totalProcs useIter)).zip (distributeTasksToCores
      runner.coresScores (runner.totalProcs useIter) (runner.nsteps useIter)))
    (runner.nsteps useIter)
  refine ⟨given, names, ?_, fun core member => ?_, credits⟩
  · exact (order.perm _).nodup_iff.2 (serversMap_blank runner.servers).distinct
  · rw [(order.perm _).mem_iff, scored.hostnames_eq]
    exact List.mem_map_of_mem (scored.known core member)

/-- The servers of the table are the servers of the runner. -/
theorem Scored.servers_perm (scored : Scored useIter runner) (order : HashOrder) :
    ((countedFor useIter order runner).map DaemonExecInfo.daemon).Perm runner.servers := by
  have entries : ∀ (map : List DaemonExecInfo) (used : List (ServerScore × ℕ)) (nsteps : ℕ),
      (used.foldl (creditCore nsteps) map).map DaemonExecInfo.daemon =
        map.map DaemonExecInfo.daemon := by
    intro map used nsteps
    rw [foldl_creditCore, List.map_map]
    rfl
  have whole : (serversMap runner.servers).map DaemonExecInfo.daemon = runner.servers := by
    rw [serversMap_eq_map scored.distinct, List.map_map]
    exact List.map_id _
  have distinct : ∀ (used : List (ServerScore × ℕ)) (nsteps : ℕ),
      ((used.foldl (creditCore nsteps) (serversMap runner.servers)).map
        fun data => data.daemon.hostname).Nodup := by
    intro used nsteps
    have names := congrArg (List.map GebrCommDaemon.hostname)
      (entries (serversMap runner.servers) used nsteps)
    rw [whole, List.map_map] at names
    exact names ▸ scored.distinct
  have moved := (hashValues_perm order (distinct
    ((runner.coresScores.take (runner.totalProcs useIter)).zip (distributeTasksToCores
      runner.coresScores (runner.totalProcs useIter) (runner.nsteps useIter)))
    (runner.nsteps useIter))).map DaemonExecInfo.daemon
  rw [entries, whole] at moved
  exact moved

/-- **The processors of the table are the used cores.** -/
theorem Tabled.sum_np {cores : List ServerScore} {totalProcs nsteps : ℕ} {hosts : List String}
    {values : List DaemonExecInfo} (tabled : Tabled cores totalProcs nsteps hosts values) :
    (values.map DaemonExecInfo.np).sum = (cores.take totalProcs).length := by
  have counted : values.map DaemonExecInfo.np = hosts.map fun host => (coresOf
      ((cores.take totalProcs).zip (distributeTasksToCores cores totalProcs nsteps)) host).length := by
    rw [← tabled.names, List.map_map]
    exact List.map_congr_left fun data member => (tabled.credited data member).1
  rw [counted, sum_length_coresOf tabled.distinct, List.length_zip, length_distributeTasksToCores,
    Nat.min_self]
  exact fun core member => tabled.known _ (List.mem_of_mem_take (List.of_mem_zip member).1)

/-- The values that are returned are the servers that hold processors. -/
theorem calculate_eq_filter (order : HashOrder) (runner : GebrCommRunner) :
    (calculateServersScoresAndNumProcs useIter order runner).2 =
      (heldBy useIter order runner).filter fun data => data.np ≠ 0 := by
  rw [heldBy, ← shareProcessors_eq]
  rfl

theorem map_daemon_heldBy (order : HashOrder) (runner : GebrCommRunner) :
    (heldBy useIter order runner).map DaemonExecInfo.daemon =
      (countedFor useIter order runner).map DaemonExecInfo.daemon := by
  apply List.ext_getElem?
  intro i
  rw [heldBy, List.getElem?_map, List.getElem?_mapIdx, List.getElem?_map, Option.map_map]
  rfl

/-- What is dropped takes no processor with it. -/
theorem sum_np_filter (values : List DaemonExecInfo) :
    ((values.filter fun data => data.np ≠ 0).map DaemonExecInfo.np).sum =
      (values.map DaemonExecInfo.np).sum := by
  induction values with
  | nil => rfl
  | cons data values ih =>
    by_cases empty : data.np = 0
    · rw [List.filter_cons_of_neg (by simpa using empty), ih, List.map_cons, List.sum_cons, empty,
        Nat.zero_add]
    · rw [List.filter_cons_of_pos (by simpa using empty), List.map_cons, List.sum_cons, ih,
        List.map_cons, List.sum_cons]

/-- A server that holds no processor has no iteration. -/
theorem Tabled.idle {order : HashOrder} {hosts : List String}
    (tabled : Tabled runner.coresScores (runner.totalProcs useIter) (runner.nsteps useIter) hosts
      (countedFor useIter order runner)) {data : DaemonExecInfo}
    (member : data ∈ heldBy useIter order runner) (empty : data.np = 0) : data.nsteps = 0 := by
  obtain ⟨i, inside, rfl⟩ := List.mem_mapIdx.1 member
  have none := (Nat.eq_zero_of_add_eq_zero (Nat.eq_zero_of_add_eq_zero empty).1).1
  by_contra fed
  exact (tabled.np_pos (List.getElem_mem inside) (Nat.pos_of_ne_zero fed)).ne' none

/-- The processors that the servers hold are all that were asked for. -/
theorem Tabled.sum_heldBy {order : HashOrder} {hosts : List String}
    (tabled : Tabled runner.coresScores (runner.totalProcs useIter) (runner.nsteps useIter) hosts
      (countedFor useIter order runner)) (filled : countedFor useIter order runner ≠ []) :
    ((heldBy useIter order runner).map DaemonExecInfo.np).sum = runner.totalProcs useIter := by
  have some_value := List.length_pos_iff.2 filled
  have used : (runner.coresScores.take (runner.totalProcs useIter)).length ≤
      runner.totalProcs useIter := List.length_take_le _ _
  unfold heldBy
  generalize spread : runner.totalProcs useIter -
    (runner.coresScores.take (runner.totalProcs useIter)).length = tmp
  have split := Nat.div_add_mod' tmp (countedFor useIter order runner).length
  have less := Nat.mod_lt tmp some_value
  simp only
  rw [sum_mapIdx_spread, tabled.sum_np]
  · omega
  · omega

/-- **The totals are conserved**, when some core has a score. -/
theorem Scored.conserved (scored : Scored useIter runner) (order : HashOrder)
    (given : Distributable runner.coresScores (runner.totalProcs useIter) (runner.nsteps useIter)) :
    Conserved useIter order runner (calculateServersScoresAndNumProcs useIter order runner).2 := by
  have tabled := scored.tabled order given
  have perm := scored.servers_perm order
  have filled : countedFor useIter order runner ≠ [] := by
    rintro empty
    rw [empty] at perm
    exact scored.someServer perm.nil_eq.symm
  have returned : (calculateServersScoresAndNumProcs useIter order runner).2 = _ :=
    calculate_eq_filter order runner
  refine ⟨?_, (tabled.weighed _ _).total, ?_, ?_, ?_, ?_⟩
  · rw [returned, sum_np_filter]
    exact tabled.sum_heldBy filled
  · rw [returned]
    exact fun data member => Nat.pos_of_ne_zero (of_decide_eq_true (List.mem_filter.1 member).2)
  · rw [map_daemon_heldBy]
    exact perm
  · rw [returned]
    exact List.filter_sublist
  · rw [returned]
    intro data member absent
    have empty : data.np = 0 := by
      by_contra held
      exact absent (List.mem_filter.2 ⟨member, decide_eq_true held⟩)
    exact ⟨empty, tabled.idle member empty⟩

/-- **Processor and step totals are conserved just when some core has a score.** -/
theorem conserves_iff (order : HashOrder) (scored : Scored useIter runner) :
    Conserves useIter order runner ↔ ∃ core ∈ runner.coresScores, 0 < core.score := by
  constructor
  · rintro ⟨after, values, computed, -⟩
    by_contra none
    have zero : ∀ core ∈ runner.coresScores, core.score = 0 := fun core member =>
      le_antisymm (not_lt.1 fun positive => none ⟨core, member, positive⟩)
        (scored.nonneg core member)
    rw [checkedScoresAndNumProcs, if_pos (processScores_eq_zero zero _)] at computed
    exact nomatch computed
  · rintro ⟨core, member, positive⟩
    have given := scored.distributable member positive
    have sum := processScores_pos given.nonneg given.someProc given.best
    refine ⟨_, _, if_neg sum.ne', scored.conserved order given⟩

end Totals

section Example

theorem threeServers_scored (score : ℚ) (nonneg : 0 ≤ score) :
    Scored (fun _ => false) (threeServers [score, score, score]) where
  someServer := nofun
  distinct := by simp [threeServers]
  someCore := nofun
  sorted := by simp [threeServers]
  known := by simp [threeServers]
  nonneg := by simpa [threeServers] using nonneg
  someStep := show 1 ≤ (threeServers []).nsteps (fun _ => false) by decide

/-- Three servers that score the same share three processors and three iterations. -/
theorem conserves_iff_equal :
    Conserves (fun _ => false) tableOrder (threeServers [1, 1, 1]) ↔
      ∃ core ∈ (threeServers [1, 1, 1]).coresScores, 0 < core.score :=
  conserves_iff tableOrder (threeServers_scored 1 zero_le_one)

/-- **Servers without a clock divide zero by zero.** Each of the three has one core that scores
nothing, and no iteration has a server. -/
theorem clockless_not_conserved :
    (threeServers [0, 0, 0]).coresScores =
        (threeServers [0, 0, 0]).servers.flatMap (fun daemon => calculateServerScore daemon 1 1 0 0) ∧
      Scored (fun _ => false) (threeServers [0, 0, 0]) ∧
        ¬ Conserves (fun _ => false) tableOrder (threeServers [0, 0, 0]) := by
  refine ⟨by decide +kernel, threeServers_scored 0 le_rfl, ?_⟩
  rintro ⟨after, values, computed, -⟩
  have none : checkedScoresAndNumProcs (fun _ => false) tableOrder (threeServers [0, 0, 0]) =
      none := by
    decide +kernel
  rw [none] at computed
  exact nomatch computed

end Example

end Gebr.Comm
