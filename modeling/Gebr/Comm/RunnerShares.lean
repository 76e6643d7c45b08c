/-
**The iterations of each core and of each server.**

* `distributeTasksToCores_eq`: the cores that are used get iterations in proportion to their scores.
* `Feeds`: a core gets an iteration just when its score is worth one, or what is left over comes
  down to it (`distribute_pos_iff`).
* `Credited`, `hashValues_credited`: the table of the servers after the loop over the cores.
* `shareProcessors_eq`: the servers that are left, with all their processors.
-/

import Gebr.Comm.Runner
import Mathlib.Algebra.BigOperators.Ring.Finset
import Mathlib.Algebra.Order.BigOperators.Group.Finset

namespace Gebr.Comm

open Gebr.Flow Gebr.Lib.Shares

section Cores

variable {cores : List ServerScore} {totalProcs nsteps : ℕ}

/-- The scores of all the processes: the cores are gone around as often as there are processes. -/
def processScores (cores : List ServerScore) (totalProcs : ℕ) : ℚ :=
  ((List.range totalProcs).map (scoreAt cores)).sum

/-- The iterations of a core, as a fraction of one. -/
def worth (cores : List ServerScore) (totalProcs nsteps : ℕ) (core : ServerScore) : ℚ :=
  nsteps * (core.score / processScores cores totalProcs)

/-- The iterations that are left over once each core has its whole ones. -/
def leftOver (cores : List ServerScore) (totalProcs nsteps : ℕ) : ℕ :=
  nsteps - ((cores.take totalProcs).map fun core => ⌊worth cores totalProcs nsteps core⌋₊).sum

/-- The `k`-th core is worth an iteration, or is one of the last ones, to which those that are left
over go. -/
def Feeds (cores : List ServerScore) (totalProcs nsteps k : ℕ) (core : ServerScore) : Prop :=
  1 ≤ worth cores totalProcs nsteps core ∨
    min totalProcs cores.length ≤ leftOver cores totalProcs nsteps + k

/-- A walk that writes a periodic value at each place leaves one period. -/
theorem foldl_set_eq_map (values : ℕ → ℚ) {n total : ℕ} (enough : n ≤ total)
    (periodic : ∀ i < total, values i = values (i % n)) :
    (List.range total).foldl (fun weights i => weights.set (i % n) (values i)) (List.replicate n 0) =
      (List.range n).map values := by
  have walk : ∀ t ≤ total,
      (List.range t).foldl (fun weights i => weights.set (i % n) (values i)) (List.replicate n 0) =
        (List.range n).map fun p => if p < t then values p else 0 := by
    intro t le
    induction t with
    | zero =>
      apply List.ext_getElem <;> simp
    | succ t ih =>
      rw [List.range_succ, List.foldl_append, ih (Nat.le_of_succ_le le)]
      apply List.ext_getElem
      · simp
      · intro p inside _
        have bound : p < n := by simpa using inside
        have turn : t % n = p → values t = values p := fun same => by rw [periodic t le, same]
        simp only [List.foldl_cons, List.foldl_nil, List.getElem_set, List.getElem_map,
          List.getElem_range]
        split
        · rename_i same
          rw [if_pos (same ▸ Nat.lt_succ_of_le (Nat.mod_le t n)), turn same]
        · rename_i other
          have apart : p ≠ t := fun same => other (same ▸ Nat.mod_eq_of_lt bound)
          by_cases before : p < t
          · rw [if_pos before, if_pos (Nat.lt_succ_of_lt before)]
          · rw [if_neg before, if_neg (by omega)]
  rw [walk total le_rfl]
  apply List.map_congr_left
  intro p member
  exact if_pos (lt_of_lt_of_le (List.mem_range.1 member) enough)

theorem scoreAt_of_getElem? {k : ℕ} {core : ServerScore} (found : cores[k]? = some core) :
    scoreAt cores k = core.score := by
  have inside : k < cores.length := (List.getElem?_eq_some_iff.1 found).1
  rw [scoreAt, Nat.mod_eq_of_lt inside, found]
  rfl

/-- The used cores, as the first places of the walk. -/
theorem map_take_eq (cores : List ServerScore) (totalProcs : ℕ) (f : ℚ → ℚ) :
    (List.range (min totalProcs cores.length)).map (fun i => f (scoreAt cores i)) =
      (cores.take totalProcs).map fun core => f core.score := by
  apply List.ext_getElem
  · simp
  · intro k inside inside'
    have bound : k < cores.length := by
      simp only [List.length_map, List.length_range] at inside
      omega
    simp only [List.getElem_map, List.getElem_range, List.getElem_take]
    rw [scoreAt_of_getElem? (List.getElem?_eq_getElem bound)]

/-- **The cores that are used get iterations in proportion to their scores.** -/
theorem distributeTasksToCores_eq (cores : List ServerScore) (totalProcs nsteps : ℕ) :
    distributeTasksToCores cores totalProcs nsteps =
      gebrGeoxmlFlowCalculateProportionalN nsteps
        ((cores.take totalProcs).map fun core => core.score / processScores cores totalProcs) := by
  have total : (List.range totalProcs).foldl (fun sum i => sum + scoreAt cores i) 0 =
      processScores cores totalProcs := by
    rw [processScores, List.sum_eq_foldl, List.foldl_map]
  unfold distributeTasksToCores
  simp only [total]
  congr 1
  rw [foldl_set_eq_map (fun i => scoreAt cores i / processScores cores totalProcs)
    (Nat.min_le_left _ _)]
  · exact map_take_eq cores totalProcs fun score => score / processScores cores totalProcs
  · intro i le
    congr 1
    rcases le_total totalProcs cores.length with few | many
    · rw [min_eq_left few, Nat.mod_eq_of_lt le]
    · rw [min_eq_right many, scoreAt, scoreAt, Nat.mod_mod]

theorem scoreAt_nonneg (nonneg : ∀ core ∈ cores, 0 ≤ core.score) (i : ℕ) : 0 ≤ scoreAt cores i := by
  rw [scoreAt]
  cases found : cores[i % cores.length]? with
  | none => exact le_refl 0
  | some core => exact nonneg core (List.mem_of_getElem? found)

/-- The used cores have no more than the scores of all the processes. -/
theorem sum_take_le (nonneg : ∀ core ∈ cores, 0 ≤ core.score) (totalProcs : ℕ) :
    ((cores.take totalProcs).map ServerScore.score).sum ≤ processScores cores totalProcs := by
  obtain ⟨rest, more⟩ := Nat.exists_eq_add_of_le (Nat.min_le_left totalProcs cores.length)
  have split : processScores cores totalProcs =
      ((List.range (min totalProcs cores.length)).map (scoreAt cores)).sum +
        ((List.range rest).map fun i => scoreAt cores (min totalProcs cores.length + i)).sum := by
    conv_lhs => rw [processScores, more]
    rw [List.range_add, List.map_append, List.sum_append, List.map_map]
    rfl
  rw [split, show (cores.take totalProcs).map ServerScore.score = _ from
    (map_take_eq cores totalProcs id).symm]
  refine le_add_of_nonneg_right (List.sum_nonneg fun score member => ?_)
  obtain ⟨i, _, rfl⟩ := List.mem_map.1 member
  exact scoreAt_nonneg nonneg _

/-- Some process has a score, when the first core has one. -/
theorem processScores_pos (nonneg : ∀ core ∈ cores, 0 ≤ core.score) (some_proc : 0 < totalProcs)
    (best : 0 < scoreAt cores 0) : 0 < processScores cores totalProcs := by
  obtain ⟨rest, rfl⟩ := Nat.exists_eq_add_of_lt some_proc
  rw [processScores, Nat.zero_add, List.range_succ_eq_map, List.map_cons, List.sum_cons]
  refine add_pos_of_pos_of_nonneg best (List.sum_nonneg fun score member => ?_)
  obtain ⟨i, _, rfl⟩ := List.mem_map.1 member
  exact scoreAt_nonneg nonneg i

/-- What `distribute_tasks_to_cores` is called with: scores that are not all nothing, best first,
and no more processes than iterations. -/
structure Distributable (cores : List ServerScore) (totalProcs nsteps : ℕ) : Prop where
  nonneg : ∀ core ∈ cores, 0 ≤ core.score
  best : 0 < scoreAt cores 0
  someProc : 0 < totalProcs
  enough : totalProcs ≤ nsteps

variable (given : Distributable cores totalProcs nsteps)
include given

theorem Distributable.weights_nonneg :
    ∀ weight ∈ (cores.take totalProcs).map fun core => core.score / processScores cores totalProcs,
      0 ≤ weight := by
  intro weight member
  obtain ⟨core, used, rfl⟩ := List.mem_map.1 member
  exact div_nonneg (given.nonneg core (List.mem_of_mem_take used))
    (processScores_pos given.nonneg given.someProc given.best).le

theorem Distributable.weights_le :
    ((cores.take totalProcs).map fun core => core.score / processScores cores totalProcs).sum ≤ 1 := by
  have positive := processScores_pos given.nonneg given.someProc given.best
  have shared := List.sum_map_mul_right (cores.take totalProcs) ServerScore.score
    (processScores cores totalProcs)⁻¹
  simp only [div_eq_mul_inv, shared]
  rw [← div_eq_mul_inv, div_le_one positive]
  exact sum_take_le given.nonneg totalProcs

theorem Distributable.used_length_le : (cores.take totalProcs).length ≤ nsteps := by
  rw [List.length_take]
  exact (Nat.min_le_left _ _).trans given.enough

theorem Distributable.used_ne_nil : cores.take totalProcs ≠ [] := by
  have some_core : cores ≠ [] := by
    rintro rfl
    exact absurd given.best (lt_irrefl 0)
  rw [Ne, List.take_eq_nil_iff, not_or]
  exact ⟨given.someProc.ne', some_core⟩

/-- **Every iteration is given to a core.** -/
theorem Distributable.sum_eq : (distributeTasksToCores cores totalProcs nsteps).sum = nsteps := by
  rw [distributeTasksToCores_eq]
  apply sum_calculateProportionalN _ _ given.weights_nonneg given.weights_le
  · exact fun empty => given.used_ne_nil (List.map_eq_nil_iff.1 empty)
  · rw [List.length_map]
    exact given.used_length_le

omit given in
theorem length_distributeTasksToCores (cores : List ServerScore) (totalProcs nsteps : ℕ) :
    (distributeTasksToCores cores totalProcs nsteps).length = (cores.take totalProcs).length := by
  rw [distributeTasksToCores_eq, length_calculateProportionalN, List.length_map]

/-- **A core gets an iteration just when it feeds its server.** -/
theorem Distributable.pos_iff {k share : ℕ} {core : ServerScore}
    (used : (cores.take totalProcs)[k]? = some core)
    (shared : (distributeTasksToCores cores totalProcs nsteps)[k]? = some share) :
    0 < share ↔ Feeds cores totalProcs nsteps k core := by
  rw [distributeTasksToCores_eq] at shared
  rw [calculateProportionalN_pos_iff _ _ shared]
  · rw [List.length_map, List.map_map, List.length_take]
    rfl
  · rw [List.length_map]
    exact given.used_length_le
  · rw [List.getElem?_map, used]
    rfl

end Cores

section Servers

variable {used : List (ServerScore × ℕ)} {nsteps : ℕ}

/-- The used cores of a host, each with its iterations. -/
def coresOf (used : List (ServerScore × ℕ)) (host : String) : List (ServerScore × ℕ) :=
  used.filter fun core => core.1.server.hostname = host

/-- The iterations of a host. -/
def stepsOf (used : List (ServerScore × ℕ)) (host : String) : ℕ :=
  ((coresOf used host).map Prod.snd).sum

theorem coresOf_cons_own {core : ServerScore × ℕ} {host : String}
    (own : core.1.server.hostname = host) :
    coresOf (core :: used) host = core :: coresOf used host := by
  unfold coresOf
  rw [List.filter_cons, if_pos (decide_eq_true own)]

theorem coresOf_cons_other {core : ServerScore × ℕ} {host : String}
    (other : core.1.server.hostname ≠ host) : coresOf (core :: used) host = coresOf used host := by
  unfold coresOf
  rw [List.filter_cons, if_neg (by simpa using other)]

theorem stepsOf_cons (core : ServerScore × ℕ) (used : List (ServerScore × ℕ)) (host : String) :
    stepsOf (core :: used) host =
      (if core.1.server.hostname = host then core.2 else 0) + stepsOf used host := by
  unfold stepsOf
  split
  · rename_i own
    rw [coresOf_cons_own own, List.map_cons, List.sum_cons]
  · rename_i other
    rw [coresOf_cons_other other, Nat.zero_add]

/-- The data of a server, once all its cores are counted. -/
def credited (used : List (ServerScore × ℕ)) (nsteps : ℕ) (data : DaemonExecInfo) : DaemonExecInfo :=
  { data with
    np := data.np + (coresOf used data.daemon.hostname).length
    weight := data.weight + stepsOf used data.daemon.hostname / nsteps
    nsteps := data.nsteps + stepsOf used data.daemon.hostname }

/-- **The loop over the cores counts each server's own.** -/
theorem foldl_creditCore (used : List (ServerScore × ℕ)) (nsteps : ℕ) (map : List DaemonExecInfo) :
    used.foldl (creditCore nsteps) map = map.map (credited used nsteps) := by
  induction used generalizing map with
  | nil =>
    simp only [List.foldl_nil]
    symm
    convert List.map_id map using 2
    funext data
    simp [credited, coresOf, stepsOf]
  | cons core used ih =>
    rw [List.foldl_cons, ih, creditCore, List.map_map]
    apply List.map_congr_left
    intro data _
    show credited used nsteps (if data.daemon.hostname = core.1.server.hostname then _ else data) = _
    by_cases own : core.1.server.hostname = data.daemon.hostname
    · simp only [credited, stepsOf_cons, coresOf_cons_own own, if_pos own, if_pos own.symm,
        List.length_cons, Nat.cast_add, add_div]
      congr 1 <;> ring
    · simp only [credited, stepsOf_cons, coresOf_cons_other own, if_neg own, if_neg (Ne.symm own),
        Nat.zero_add]

/-- The host names of the servers, each once, in the order they come into the table. -/
def hostnames (servers : List GebrCommDaemon) : List String :=
  (serversMap servers).map fun data => data.daemon.hostname

/-- The table of the servers before any core is counted. -/
structure Blank (servers : List GebrCommDaemon) (map : List DaemonExecInfo) : Prop where
  distinct : (map.map fun data => data.daemon.hostname).Nodup
  idle : ∀ data ∈ map, data.np = 0 ∧ data.nsteps = 0 ∧ data.weight = 0
  present : ∀ daemon ∈ servers, daemon.hostname ∈ map.map fun data => data.daemon.hostname

theorem Blank.insert {servers : List GebrCommDaemon} {map : List DaemonExecInfo}
    (blank : Blank servers map) (daemon : GebrCommDaemon) :
    Blank (servers ++ [daemon]) (hashInsert ⟨daemon, 0, 0, 0⟩ map) := by
  unfold hashInsert
  split
  · rename_i there
    have names : (map.map fun other =>
        if other.daemon.hostname = daemon.hostname then ⟨daemon, 0, 0, 0⟩ else other).map
          (fun data => data.daemon.hostname) = map.map fun data => data.daemon.hostname := by
      rw [List.map_map]
      apply List.map_congr_left
      intro data _
      show (if data.daemon.hostname = daemon.hostname then _ else data :
        DaemonExecInfo).daemon.hostname = data.daemon.hostname
      split
      · rename_i same
        exact same.symm
      · rfl
    refine ⟨names ▸ blank.distinct, fun data member => ?_, fun other listed => names ▸ ?_⟩
    · obtain ⟨old, before, rfl⟩ := List.mem_map.1 member
      split
      · exact ⟨rfl, rfl, rfl⟩
      · exact blank.idle old before
    · rcases List.mem_append.1 listed with earlier | last
      · exact blank.present other earlier
      · obtain rfl := List.mem_singleton.1 last
        obtain ⟨data, member, same⟩ := List.any_eq_true.1 there
        exact List.mem_map.2 ⟨data, member, of_decide_eq_true same⟩
  · rename_i absent
    refine ⟨?_, fun data member => ?_, fun other listed => ?_⟩
    · rw [List.map_append, List.nodup_append]
      refine ⟨blank.distinct, List.nodup_singleton _, ?_⟩
      rintro name old _ last rfl
      obtain rfl := List.mem_singleton.1 last
      obtain ⟨data, member, same⟩ := List.mem_map.1 old
      exact absent (List.any_eq_true.2 ⟨data, member, decide_eq_true same⟩)
    · rcases List.mem_append.1 member with old | last
      · exact blank.idle data old
      · obtain rfl := List.mem_singleton.1 last
        exact ⟨rfl, rfl, rfl⟩
    · rw [List.map_append]
      rcases List.mem_append.1 listed with earlier | last
      · exact List.mem_append_left _ (blank.present other earlier)
      · obtain rfl := List.mem_singleton.1 last
        exact List.mem_append_right _ List.mem_cons_self

theorem serversMap_blank (servers : List GebrCommDaemon) : Blank servers (serversMap servers) := by
  induction servers using List.reverseRecOn with
  | nil => exact ⟨List.nodup_nil, fun _ => nofun, fun _ => nofun⟩
  | append_singleton servers daemon ih =>
    rw [serversMap, List.foldl_append]
    exact ih.insert daemon

/-- What the table says of each host: its cores, its iterations and their part of all of them. -/
def Credited (used : List (ServerScore × ℕ)) (nsteps : ℕ) (data : DaemonExecInfo) : Prop :=
  data.np = (coresOf used data.daemon.hostname).length ∧
    data.nsteps = stepsOf used data.daemon.hostname ∧
      data.weight = stepsOf used data.daemon.hostname / nsteps

/-- A table with one entry for each key gives its values in the order of the keys. -/
theorem hashValues_hostnames (order : HashOrder) (map : List DaemonExecInfo) :
    (hashValues order map).map (fun data => data.daemon.hostname) =
      order.keys (map.map fun data => data.daemon.hostname) := by
  have found : ∀ hostname ∈ order.keys (map.map fun data => data.daemon.hostname), ∃ data,
      (map.find? fun data => data.daemon.hostname = hostname) = some data ∧
        data.daemon.hostname = hostname := by
    intro hostname member
    obtain ⟨data, listed, rfl⟩ := List.mem_map.1 ((order.perm _).mem_iff.1 member)
    cases search : map.find? fun other => other.daemon.hostname = data.daemon.hostname with
    | none => exact absurd (decide_eq_true rfl) (List.find?_eq_none.1 search data listed)
    | some other => exact ⟨other, rfl, by simpa using List.find?_some search⟩
  unfold hashValues
  generalize order.keys (map.map fun data => data.daemon.hostname) = hosts at found
  induction hosts with
  | nil => rfl
  | cons hostname hosts ih =>
    obtain ⟨data, search, rfl⟩ := found hostname List.mem_cons_self
    have rest := ih fun other member => found other (List.mem_cons_of_mem _ member)
    simp only [List.filterMap_cons, search, List.map_cons, rest]

theorem mem_of_mem_hashValues {order : HashOrder} {map : List DaemonExecInfo} {data : DaemonExecInfo}
    (member : data ∈ hashValues order map) : data ∈ map := by
  obtain ⟨_, _, search⟩ := List.mem_filterMap.1 member
  exact List.mem_of_find?_eq_some search

/-- **After the loop over the cores**, the values are the hosts in table order, with their cores. -/
theorem hashValues_credited (order : HashOrder) (servers : List GebrCommDaemon)
    (used : List (ServerScore × ℕ)) (nsteps : ℕ) :
    (hashValues order (used.foldl (creditCore nsteps) (serversMap servers))).map
        (fun data => data.daemon.hostname) = order.keys (hostnames servers) ∧
      ∀ data ∈ hashValues order (used.foldl (creditCore nsteps) (serversMap servers)),
        Credited used nsteps data := by
  rw [foldl_creditCore]
  constructor
  · rw [hashValues_hostnames, List.map_map]
    rfl
  · intro data member
    obtain ⟨old, before, rfl⟩ := List.mem_map.1 (mem_of_mem_hashValues member)
    obtain ⟨noNp, noSteps, noWeight⟩ := (serversMap_blank servers).idle old before
    refine ⟨?_, ?_, ?_⟩
    · show old.np + _ = _
      rw [noNp, Nat.zero_add]
      rfl
    · show old.nsteps + _ = _
      rw [noSteps, Nat.zero_add]
      rfl
    · show old.weight + _ = _
      rw [noWeight, zero_add]
      rfl

/-- What the hosts have of anything is what the cores have of it, when each core is on one of
them. -/
theorem sum_coresOf (amount : ServerScore × ℕ → ℕ) {hosts : List String} (distinct : hosts.Nodup)
    (known : ∀ core ∈ used, core.1.server.hostname ∈ hosts) :
    (hosts.map fun host => ((coresOf used host).map amount).sum).sum = (used.map amount).sum := by
  rw [← List.sum_toFinset _ distinct]
  induction used with
  | nil => simp [coresOf]
  | cons core used ih =>
    have home : core.1.server.hostname ∈ hosts.toFinset :=
      List.mem_toFinset.2 (known core List.mem_cons_self)
    have rest := ih fun other member => known other (List.mem_cons_of_mem _ member)
    have counted : ∀ host, ((coresOf (core :: used) host).map amount).sum =
        (if core.1.server.hostname = host then amount core else 0) +
          ((coresOf used host).map amount).sum := by
      intro host
      split
      · rename_i own
        rw [coresOf_cons_own own, List.map_cons, List.sum_cons]
      · rename_i other
        rw [coresOf_cons_other other, Nat.zero_add]
    simp only [counted]
    rw [Finset.sum_add_distrib, Finset.sum_ite_eq, if_pos home, rest, List.map_cons, List.sum_cons]

/-- **The iterations of the hosts are those of the cores**, when each core is on one of them. -/
theorem sum_stepsOf {hosts : List String} (distinct : hosts.Nodup)
    (known : ∀ core ∈ used, core.1.server.hostname ∈ hosts) :
    (hosts.map (stepsOf used)).sum = (used.map Prod.snd).sum :=
  sum_coresOf Prod.snd distinct known

theorem sum_length_coresOf {hosts : List String} (distinct : hosts.Nodup)
    (known : ∀ core ∈ used, core.1.server.hostname ∈ hosts) :
    (hosts.map fun host => (coresOf used host).length).sum = used.length := by
  have ones := sum_coresOf (fun _ => 1) distinct known
  simpa using ones

/-- **The processors that are more than the cores go to the first servers**, and the servers without
any are dropped. -/
theorem shareProcessors_eq (base rest : ℕ) (values : List DaemonExecInfo) :
    shareProcessors base rest values =
      (values.mapIdx fun i data =>
        { data with np := data.np + base + if i < rest then 1 else 0 }).filter fun data =>
          data.np ≠ 0 := by
  induction values generalizing rest with
  | nil => rfl
  | cons data values ih =>
    have later : (values.mapIdx fun i data =>
        { data with np := data.np + base + if i < rest - 1 then 1 else 0 : DaemonExecInfo }) =
        values.mapIdx fun i data =>
          { data with np := data.np + base + if i + 1 < rest then 1 else 0 } := by
      congr 1
      funext i data
      have same : i < rest - 1 ↔ i + 1 < rest := by omega
      simp only [same]
    rw [shareProcessors, List.mapIdx_cons, ih, later, List.filter_cons]
    by_cases empty : data.np + base + (if 0 < rest then 1 else 0) = 0
    · rw [if_pos empty, if_neg]
      rw [decide_eq_true_iff]
      exact not_not.2 empty
    · rw [if_neg empty, if_pos (decide_eq_true empty)]

end Servers

end Gebr.Comm
