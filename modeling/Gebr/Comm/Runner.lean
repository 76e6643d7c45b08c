/-
**The runner of a job: how the iterations of a flow are given to the servers.**

A runner asks its servers for their load, scores each core, and sends every server a sub-flow.

* `distributeTasksToCores`: the iterations of each core that is used.
* `calculateServersScoresAndNumProcs`: the processors and the iterations of each server.
* `normalizeAndSortServers`, `setServersExecutionInfo`: the order of the servers.
* `divideAndRunFlows`: the sub-flows, sent to the servers one by one.

The runner sorts its cores by score first: `launch` is all that the last response sets off for a
flow without MPI programs. `GHashTable` gives its values in an order of its own: `HashOrder`.
Scores, weights and the speed are exact numbers.
-/

import Gebr.Flow.LoopDivision
import Mathlib.Data.List.Sort

namespace Gebr.Comm

open Gebr.Flow

section Model

/-- A daemon, as the runner sees it. -/
structure GebrCommDaemon where
  address : String
  hostname : String
  deriving DecidableEq, Repr

/-- The score of one core of a server. -/
structure ServerScore where
  server : GebrCommDaemon
  score : ℚ
  deriving DecidableEq, Repr

structure DaemonExecInfo where
  daemon : GebrCommDaemon
  weight : ℚ
  np : ℕ
  nsteps : ℕ
  deriving DecidableEq, Repr

/-- The parameters of a `RUN` message; `flow` stands for the text of the stripped sub-flow. -/
structure RunMessage where
  address : String
  gid : String
  id : String
  frac : String
  numproc : String
  nice : String
  flow : GebrGeoXmlFlow
  paths : String
  account : String
  servers : String
  deriving DecidableEq, Repr

/-- `GebrCommRunnerPriv`. The table of the weights is the table of the shares. -/
structure GebrCommRunner where
  id : String
  gid : String
  speed : ℚ
  nice : String
  paths : String
  account : Option String
  flow : GebrGeoXmlFlow
  servers : List GebrCommDaemon
  coresScores : List ServerScore
  numprocs : List ℕ
  distributedN : List ℕ
  total : ℕ
  ncores : String
  serversList : String
  deriving DecidableEq, Repr

/-- The order in which a hash table gives back the keys inserted in a given order. -/
structure HashOrder where
  keys : List String → List String
  perm : ∀ inserted, (keys inserted).Perm inserted

/-- C's `round`: half away from zero. -/
def round (x : ℚ) : ℤ := if 0 ≤ x then ⌊x + 1 / 2⌋ else -⌊-x + 1 / 2⌋

/-- `gebr_calculate_number_of_processors`. -/
def gebrCalculateNumberOfProcessors (totalNprocs : ℕ) (aggressive : ℚ) : ℕ :=
  (max (round (totalNprocs * aggressive / 5)) 1).toNat

/-- The score of the core that a walk of `i` steps around the list comes to. -/
def scoreAt (cores : List ServerScore) (i : ℕ) : ℚ :=
  ((cores[i % cores.length]?).map ServerScore.score).getD 0

/-- `distribute_tasks_to_cores`. -/
def distributeTasksToCores (cores : List ServerScore) (totalProcs nsteps : ℕ) : List ℕ :=
  let n := min totalProcs cores.length
  let sum := (List.range totalProcs).foldl (fun sum i => sum + scoreAt cores i) 0
  let weights := (List.range totalProcs).foldl
    (fun weights i => weights.set (i % n) (scoreAt cores i / sum)) (List.replicate n 0)
  gebrGeoxmlFlowCalculateProportionalN nsteps weights

/-- `g_hash_table_insert` under the host name of the daemon. -/
def hashInsert (data : DaemonExecInfo) (map : List DaemonExecInfo) : List DaemonExecInfo :=
  if map.any fun other => other.daemon.hostname = data.daemon.hostname then
    map.map fun other => if other.daemon.hostname = data.daemon.hostname then data else other
  else map ++ [data]

/-- One turn of the loop over the cores: the data of the core's server is changed in place. -/
def creditCore (nsteps : ℕ) (map : List DaemonExecInfo) (used : ServerScore × ℕ) :
    List DaemonExecInfo :=
  map.map fun data =>
    if data.daemon.hostname = used.1.server.hostname then
      { data with
        np := data.np + 1
        weight := data.weight + used.2 / nsteps
        nsteps := data.nsteps + used.2 }
    else data

/-- The processors that are more than the cores go to the servers in turn; a server without any is
dropped. -/
def shareProcessors (base : ℕ) : ℕ → List DaemonExecInfo → List DaemonExecInfo
  | _, [] => []
  | rest, data :: values =>
    let np := data.np + base + if 0 < rest then 1 else 0
    let values := shareProcessors base (rest - 1) values
    if np = 0 then values else { data with np } :: values

/-- The number of iterations the runner shares out. -/
def GebrCommRunner.nsteps (useIter : String → Bool) (runner : GebrCommRunner) : ℕ :=
  match gebrGeoxmlFlowGetControlProgram runner.flow with
  | none => 1
  | some loop => if gebrGeoxmlFlowIsParallelizable useIter runner.flow then loop.n else 1

/-- The number of processes the runner asks for. -/
def GebrCommRunner.totalProcs (useIter : String → Bool) (runner : GebrCommRunner) : ℕ :=
  min (gebrCalculateNumberOfProcessors runner.coresScores.length runner.speed)
    (runner.nsteps useIter)

/-- The table of the servers, each without a processor. -/
def serversMap (servers : List GebrCommDaemon) : List DaemonExecInfo :=
  servers.foldl (fun map daemon => hashInsert ⟨daemon, 0, 0, 0⟩ map) []

/-- `g_hash_table_get_values`. -/
def hashValues (order : HashOrder) (map : List DaemonExecInfo) : List DaemonExecInfo :=
  (order.keys (map.map fun data => data.daemon.hostname)).filterMap fun hostname =>
    map.find? fun data => data.daemon.hostname = hostname

/-- `calculate_servers_scores_and_num_procs`; the cores that are not used are freed. -/
def calculateServersScoresAndNumProcs (useIter : String → Bool) (order : HashOrder)
    (runner : GebrCommRunner) : GebrCommRunner × List DaemonExecInfo :=
  let nsteps := runner.nsteps useIter
  let totalProcs := runner.totalProcs useIter
  let distributedN := distributeTasksToCores runner.coresScores totalProcs nsteps
  let used := runner.coresScores.take totalProcs
  let map := (used.zip distributedN).foldl (creditCore nsteps) (serversMap runner.servers)
  let values := hashValues order map
  let tmp := totalProcs - used.length
  let base := tmp / values.length
  let rest := tmp - base * values.length
  ({ runner with coresScores := used }, shareProcessors base rest values)

/-- `daemon_exec_info_comp_func`: the difference of two weights, as an integer. -/
def daemonExecInfoCompFunc (a b : DaemonExecInfo) : ℤ :=
  let difference := b.weight - a.weight
  if 0 ≤ difference then ⌊difference⌋ else -⌊-difference⌋

/-- `normalize_and_sort_servers`; `g_list_sort` is stable. -/
def normalizeAndSortServers (values : List DaemonExecInfo) : List DaemonExecInfo :=
  let sum := (values.map DaemonExecInfo.weight).sum
  (values.map fun data => { data with weight := data.weight / sum }).insertionSort
    fun a b => daemonExecInfoCompFunc a b ≤ 0

/-- `set_servers_execution_info`. -/
def setServersExecutionInfo (useIter : String → Bool) (order : HashOrder)
    (runner : GebrCommRunner) : GebrCommRunner :=
  let (runner, values) := calculateServersScoresAndNumProcs useIter order runner
  let values := normalizeAndSortServers values
  { runner with
    servers := values.map DaemonExecInfo.daemon
    numprocs := values.map DaemonExecInfo.np
    distributedN := values.map DaemonExecInfo.nsteps }

/-- The loop of `divide_and_run_flows`: flows and servers are paired by position. -/
def runMessages (runner : GebrCommRunner) (flows : List GebrGeoXmlFlow) : List RunMessage :=
  (flows.zip (runner.servers.zip runner.numprocs)).mapIdx fun k (flow, daemon, numproc) =>
    { address := daemon.address
      gid := runner.gid
      id := runner.id
      frac := toString (k + 1)
      numproc := toString numproc
      nice := runner.nice
      flow
      paths := runner.paths
      account := runner.account.getD ""
      servers := "" }

/-- The text of the servers and of their shares that the client is told. -/
def serverList (runner : GebrCommRunner) (flows : List GebrGeoXmlFlow) : String :=
  String.intercalate "," <|
    (flows.zip (runner.servers.zip runner.distributedN)).map fun (_, daemon, share) =>
      daemon.hostname ++ "," ++ toString share

/-- `divide_and_run_flows`. -/
def divideAndRunFlows (useIter : String → Bool) (runner : GebrCommRunner) :
    GebrCommRunner × List RunMessage :=
  let flows := gebrGeoxmlFlowDivideFlows useIter runner.flow runner.distributedN
  let parallel := gebrGeoxmlFlowIsParallelizable useIter runner.flow
  let runner :=
    { runner with
      ncores := if parallel then toString runner.numprocs.sum else "1"
      total := flows.length
      serversList := serverList runner flows }
  (runner, runMessages runner flows)

/-- `server_score_comp_func`. -/
def serverScoreCompFunc (a b : ServerScore) : ℤ :=
  let res := b.score - a.score
  if res < 0 then -1 else if 0 < res then 1 else 0

/-- The cores, best score first. -/
def sortCores (cores : List ServerScore) : List ServerScore :=
  cores.insertionSort fun a b => serverScoreCompFunc a b ≤ 0

/-- The end of `on_response_received`, when the last server has answered. -/
def launch (useIter : String → Bool) (order : HashOrder) (runner : GebrCommRunner) :
    GebrCommRunner × List RunMessage :=
  let runner := { runner with coresScores := sortCores runner.coresScores }
  divideAndRunFlows useIter (setServersExecutionInfo useIter order runner)

end Model

end Gebr.Comm
