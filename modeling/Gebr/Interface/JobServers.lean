/-
**The servers of a job and their shares.**

The runner writes the hosts and their shares into one text, which the maestro passes on; the
interface reads the text and offers the hosts that have a share.

* `serverListText`: the text that the runner writes.
* `gebrJobSetServers`, `gebrJobGetServers`: the tasks of the interface's job, and its hosts with a
  share.
* `fill_iff`: when an array that is filled by position has no hole.
* `tasks_of_text`: the text is read as the hosts and shares it was written from.
* `servers_iff` — **when the hosts with a share are given back without a hole**.
* `hole_first`: a share of zero in front.
-/

import Gebr.Lib.Numerals
import Gebr.Lib.SeparatedList
import Mathlib.Algebra.Order.Ring.Cast
import Mathlib.Data.List.Pairwise

namespace Gebr.Interface.JobServers

open Gebr.Lib.CString Gebr.Lib.Numerals Gebr.Lib.SeparatedList

abbrev Text : Type := List UInt8

section Model

/-- `GebrJobTask`. -/
structure GebrJobTask where
  frac : ℕ
  server : Text
  cmdLine : Option Text
  percentage : Number
  output : Text
  deriving DecidableEq

/-- `GebrJobPriv`, as far as it is about the servers: `NULL` for the tasks is an array without
any. -/
structure GebrJob where
  nServers : ℕ
  tasks : List GebrJobTask
  counted : nServers = tasks.length

/-- `gebr_job_new`. -/
def gebrJobNew : GebrJob := ⟨0, [], rfl⟩

/-- The loop of `divide_and_run_flows` that writes the hosts and the weights; the last comma is
erased. -/
def serverListText (servers : List (Text × Int32)) : Text :=
  (servers.flatMap fun server => server.1 ++ ascii "," ++ printInt server.2.toInt ++
    ascii ",").dropLast

/-- `split[i*2]` and `split[i*2 + 1]`. -/
def splitPairs : List Text → List (Text × Text)
  | host :: share :: split => (host, share) :: splitPairs split
  | _ => []

/-- `gebr_job_set_servers`. -/
def gebrJobSetServers (servers : Text) (job : GebrJob) : GebrJob :=
  if job.tasks ≠ [] then job
  else
    let tasks := (splitPairs (gStrsplit 44 0 servers)).mapIdx fun i pair =>
      ⟨i + 1, pair.1, none, gStrtod pair.2, []⟩
    ⟨tasks.length, tasks, rfl⟩

/-- `gebr_job_get_servers`: the array, whose missing entries are `NULL`, and the length that is
told. -/
def gebrJobGetServers (job : GebrJob) : List (Option Text) × ℕ :=
  (job.tasks.map (fun task => if task.percentage.isPositive = true then
    some task.server else none) ++ [none], job.tasks.countP fun task => task.percentage.isPositive)

end Model

section Holes

variable {α β : Type} (f : α → Option β)

/-- **When an array that is filled by position has no hole**: what is filled stands in front. -/
theorem fill_iff (entries : List α) :
    (entries.map f ++ [none]).take ((entries.filterMap f).length + 1) =
      (entries.filterMap f).map some ++ [none] ↔ entries.Pairwise fun earlier later =>
      (f later).isSome → (f earlier).isSome := by
  induction entries with
  | nil => exact iff_of_true rfl List.Pairwise.nil
  | cons entry entries ih =>
    rw [List.map_cons, List.cons_append, List.take_succ_cons, List.pairwise_cons]
    cases value : f entry with
    | some filled =>
      rw [List.filterMap_cons_some value, List.length_cons, List.map_cons, List.cons_append,
        List.cons.injEq, ih]
      exact ⟨fun both => ⟨fun _ _ _ => rfl, both.2⟩, fun both => ⟨rfl, both.2⟩⟩
    | none =>
      rw [List.filterMap_cons_none value]
      cases later : entries.filterMap f with
      | nil =>
        have missing := List.filterMap_eq_nil_iff.1 later
        have front : entries.Pairwise fun earlier later => (f later).isSome → (f earlier).isSome :=
          List.pairwise_of_forall_mem_list fun _ _ later member there => by
            rw [missing later member] at there
            exact absurd there Bool.false_ne_true
        refine iff_of_true rfl ⟨fun later member there => ?_, front⟩
        rw [missing later member] at there
        exact there
      | cons filled rest =>
        have filledMember : filled ∈ entries.filterMap f := by
          rw [later]
          exact List.mem_cons_self
        obtain ⟨there, member, same⟩ := List.mem_filterMap.1 filledMember
        refine iff_of_false (fun equal => ?_) fun both => ?_
        · exact absurd (List.cons.inj equal).1 nofun
        · have missing := both.1 there member (by rw [same]; rfl)
          exact absurd missing Bool.false_ne_true

end Holes

section Codec

variable {servers : List (Text × Int32)}

/-- The words of the text. -/
def words (servers : List (Text × Int32)) : List Text :=
  servers.flatMap fun server => [server.1, printInt server.2.toInt]

theorem serverListText_eq (servers : List (Text × Int32)) :
    serverListText servers = [44].intercalate (words servers) := by
  unfold serverListText words
  rw [← dropLast_flatMap, List.flatMap_assoc]
  congr 2
  funext server
  rw [List.flatMap_cons, List.flatMap_singleton, List.append_assoc]
  rfl

theorem words_clean (clean : ∀ server ∈ servers, 44 ∉ server.1) :
    ∀ word ∈ words servers, 44 ∉ word := by
  intro word member
  obtain ⟨server, there, one⟩ := List.mem_flatMap.1 member
  rcases List.mem_pair.1 one with rfl | rfl
  · exact clean server there
  · exact not_mem_printInt rfl (by decide) _

theorem withoutEmpty_words (servers : List (Text × Int32)) :
    withoutEmpty (words servers) = words servers := by
  refine if_neg fun single => ?_
  cases servers with
  | nil => exact absurd single nofun
  | cons server servers => exact absurd (List.cons.inj single).2 (List.cons_ne_nil _ _)

theorem splitPairs_words (servers : List (Text × Int32)) :
    splitPairs (words servers) = servers.map fun server => (server.1, printInt server.2.toInt) := by
  induction servers with
  | nil => rfl
  | cons server servers ih => exact congrArg ((server.1, printInt server.2.toInt) :: ·) ih

theorem splitPairs_text (clean : ∀ server ∈ servers, 44 ∉ server.1) :
    splitPairs (gStrsplit 44 0 (serverListText servers)) = servers.map fun server =>
    (server.1, printInt server.2.toInt) := by
  rw [serverListText_eq, gStrsplit_intercalate (words_clean clean), withoutEmpty_words,
    splitPairs_words]

/-- What a job knows of its servers. -/
def GebrJob.shares (job : GebrJob) : List (Text × Number) :=
  job.tasks.map fun task => (task.server, task.percentage)

/-- **The text is read as the hosts and shares it was written from.** -/
theorem shares_of_text (clean : ∀ server ∈ servers, 44 ∉ server.1) {job : GebrJob}
    (fresh : job.tasks = []) : (gebrJobSetServers (serverListText servers) job).shares =
      servers.map fun server => (server.1, .finite server.2.toInt) := by
  have read := splitPairs_text clean
  unfold GebrJob.shares gebrJobSetServers
  rw [if_neg (not_not.2 fresh)]
  dsimp only
  rw [read]
  refine List.ext_getElem? fun i => ?_
  rw [List.getElem?_map, List.getElem?_mapIdx, List.getElem?_map, List.getElem?_map, Option.map_map,
    Option.map_map]
  refine congrArg (Option.map · servers[i]?) (funext fun server => ?_)
  dsimp only [Function.comp_apply]
  rw [gStrtod_printInt]

/-- A host with a share. -/
def offered (server : Text × Number) : Option Text :=
  if server.2.isPositive = true then some server.1 else none

theorem gebrJobGetServers_eq (job : GebrJob) :
    gebrJobGetServers job =
    (job.shares.map offered ++ [none], (job.shares.filterMap offered).length) := by
  unfold gebrJobGetServers GebrJob.shares
  rw [List.map_map, List.filterMap_map, List.length_filterMap_eq_countP]
  refine congrArg (Prod.mk _) (congrArg (List.countP · job.tasks) (funext fun task => ?_))
  dsimp only [Function.comp_apply, offered]
  split
  · rename_i positive
    exact positive
  · rename_i none
    exact Bool.eq_false_of_not_eq_true none

/-- The hosts with a share. -/
def hostsWithShare (servers : List (Text × Int32)) : List Text :=
  (servers.filter fun server => 0 < server.2.toInt).map Prod.fst

/-- The text is read as it was written, and the hosts with a share are given back, in order, in an
array without a hole of the length that is told. -/
def ReadBack (servers : List (Text × Int32)) : Prop :=
  let job := gebrJobSetServers (serverListText servers) gebrJobNew
  job.shares = servers.map (fun server => (server.1, .finite server.2.toInt)) ∧
    (gebrJobGetServers job).2 = (hostsWithShare servers).length ∧
    (gebrJobGetServers job).1.take ((gebrJobGetServers job).2 + 1) =
      (hostsWithShare servers).map some ++ [none]

theorem offered_share (server : Text × Int32) :
    offered (server.1, .finite server.2.toInt) = if 0 < server.2.toInt then
    some server.1 else none := by
  unfold offered Number.isPositive
  simp only [decide_eq_true_eq, Int.cast_pos]

theorem offered_isSome (server : Text × Int32) :
    (offered (server.1, .finite server.2.toInt)).isSome ↔ 0 < server.2.toInt := by
  rw [offered_share]
  split
  · rename_i positive
    exact iff_of_true rfl positive
  · rename_i none
    exact iff_of_false Bool.false_ne_true none

theorem filterMap_offered (servers : List (Text × Int32)) :
    (servers.map fun server => (server.1, Number.finite server.2.toInt)).filterMap offered =
    hostsWithShare servers := by
  unfold hostsWithShare
  rw [List.filterMap_map, ← List.filterMap_eq_map, List.filterMap_filter]
  refine congrArg (List.filterMap · servers) (funext fun server => ?_)
  dsimp only [Function.comp_apply]
  rw [offered_share]
  simp only [decide_eq_true_eq]

/-- **When the hosts with a share are given back without a hole**: each stands in front of those
without a share. -/
theorem servers_iff (servers : List (Text × Int32)) (clean : ∀ server ∈ servers, 44 ∉ server.1) :
    ReadBack servers ↔ servers.Pairwise fun earlier later => 0 < later.2.toInt → 0 <
    earlier.2.toInt := by
  have shares := shares_of_text clean (rfl : gebrJobNew.tasks = [])
  unfold ReadBack
  dsimp only
  rw [gebrJobGetServers_eq, shares, filterMap_offered]
  dsimp only
  rw [eq_self, eq_self, true_and, true_and, ← filterMap_offered, fill_iff, List.pairwise_map]
  refine List.Pairwise.iff fun earlier later => ?_
  rw [offered_isSome, offered_isSome]

/-- Two hosts, of which the second has no share. -/
theorem servers_iff_two : ReadBack [(ascii "fast", 3), (ascii "slow", 0)] :=
  (servers_iff [(ascii "fast", 3), (ascii "slow", 0)] (by decide)).2 (by decide)

/-- **A share of zero in front** leaves a hole: the one host with a share is behind it. -/
theorem hole_first : ¬ ReadBack [(ascii "slow", 0), (ascii "fast", 3)] := by
  intro back
  have filled := back.2.2
  have hosts : hostsWithShare [(ascii "slow", 0), (ascii "fast", 3)] = [ascii "fast"] := by decide
  have zero : offered (ascii "slow", .finite (0 : Int32).toInt) = none :=
    (offered_share (ascii "slow", 0)).trans (if_neg (by decide))
  rw [gebrJobGetServers_eq, shares_of_text (by decide) rfl, filterMap_offered, hosts] at filled
  rw [List.map_cons, List.map_cons, zero, List.cons_append] at filled
  exact absurd (List.cons.inj filled).1 nofun

end Codec

end Gebr.Interface.JobServers
