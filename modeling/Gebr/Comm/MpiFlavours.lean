/-
**Which servers support an MPI flavour.**

A server reports its flavours as one text. The maestro cuts the text when it chooses servers, the
runner looks for the flavour anywhere in it when it shares out processes, and the daemon that
launches a job has a table of the servers of each flavour, made of one text for all servers.

* `gebrmDaemonAcceptsMpi`, `daemonHasMpiFlavor`, `jobMpiServers`: the three.
* `getMpiFlavorsForFlow`: the flavours of a flow, as one text.
* `tokens_mem`, `jobMpiServers_eq`: what the first and the last come to.
* `agrees_iff`, `reported_iff`: when the three agree, and when each flavour is reported once.
* `flavours_iff`: the two together.
-/

import Gebr.Comm.HttpMsg
import Gebr.Lib.Separated
import Mathlib.Data.List.Nodup

namespace Gebr.Comm

open Gebr.Lib.CString Gebr.Lib.Separated

section Model

/-- A text that is an item of the lists: it has neither a comma nor a semicolon. -/
def IsWord (text : Bytes) : Prop := 44 ∉ text ∧ 59 ∉ text

instance (text : Bytes) : Decidable (IsWord text) := inferInstanceAs (Decidable (_ ∧ _))

/-- A server: the name of its host, and the names of its MPI configurations. -/
structure MpiServer where
  address : Bytes
  flavours : List Bytes
  addressWord : IsWord address
  flavourWords : ∀ flavour ∈ flavours, IsWord flavour

/-- The text a server reports (`get_mpi_flavors`, for each of its configurations): the names in
front of one another, without the last comma. -/
def mpiFlavors (server : MpiServer) : Bytes :=
  (server.flavours.foldl (fun text name => name ++ 44 :: text) []).dropLast

/-- `gebrm_daemon_accepts_mpi`. -/
def gebrmDaemonAcceptsMpi (server : MpiServer) (flavor : Bytes) : Bool :=
  (gStrsplit 44 0 (mpiFlavors server)).any fun name => name = flavor

/-- `daemon_has_mpi_flavor`; `g_strrstr` finds something where `strstr` does. -/
def daemonHasMpiFlavor (server : MpiServer) (flavor : Bytes) : Bool :=
  (strstr flavor (mpiFlavors server)).isSome

/-- The text of the servers that `mpi_run_flow` sends. -/
def mpiRunFlowServers (servers : List MpiServer) : Bytes :=
  (servers.flatMap fun server => 59 :: server.address ++ 44 :: mpiFlavors server).tail

/-- `job->mpi_servers`: a flavour without servers has the list `NULL`. -/
abbrev MpiTable := Bytes → List Bytes

/-- A turn of the inner loop of `job_new`. -/
def appendServer (address : Bytes) (table : MpiTable) (flavour : Bytes) : MpiTable := fun key =>
  if key = flavour then table key ++ [address] else table key

/-- A turn of the outer loop of `job_new`, on the text of a server. -/
def registerServer (table : MpiTable) (text : Bytes) : MpiTable :=
  match gStrsplit 44 0 text with
  | [] => table
  | address :: flavours => flavours.foldl (appendServer address) table

/-- The table that `job_new` makes of the text of the servers. -/
def jobMpiServers (serversMpi : Bytes) : MpiTable :=
  (gStrsplit 59 0 serversMpi).foldl registerServer fun _ => []

/-- A turn of the loop of `get_mpi_flavors_for_flow`, on the MPI attribute of a program. -/
def appendFlavor (text : Bytes) (mpi : Option Bytes) : Bytes :=
  match mpi with
  | none => text
  | some mpi =>
    if mpi = [] then text else if (strstr mpi text).isSome then text else text ++ 44 :: mpi

/-- `get_mpi_flavors_for_flow`. -/
def getMpiFlavorsForFlow (mpis : List (Option Bytes)) : Bytes := (mpis.foldl appendFlavor []).tail

/-- The flavours that the programs of a flow use. -/
def usedFlavours (mpis : List (Option Bytes)) : List Bytes :=
  mpis.filterMap fun mpi => mpi.filter fun mpi => mpi ≠ []

/-- The servers of a flavour are the same for the maestro, for the shares and for the table, each of
them once and in the same order. -/
structure Agrees (servers : List MpiServer) (flavor : Bytes) : Prop where
  shares : (servers.filter fun server => daemonHasMpiFlavor server flavor) =
    servers.filter fun server => gebrmDaemonAcceptsMpi server flavor
  launch : jobMpiServers (mpiRunFlowServers servers) flavor =
    (servers.filter fun server => gebrmDaemonAcceptsMpi server flavor).map MpiServer.address

/-- Each flavour of the flow is in the list that is reported for it once. -/
def ReportedOnce (mpis : List (Option Bytes)) : Prop :=
  ∀ flavour ∈ usedFlavours mpis,
    (gStrsplit 44 0 (getMpiFlavorsForFlow mpis)).count flavour = 1

/-- The first program of a flavour does not follow a program of a flavour that contains it. -/
def FirstUses (used : List Bytes) : Prop :=
  ∀ before flavour after, used = before ++ flavour :: after → flavour ∉ before →
    ∀ other ∈ before, ¬ flavour <:+: other

end Model

section Servers

variable {server : MpiServer} {servers : List MpiServer} {flavor : Bytes}

/-- The text a server reports has its flavours with commas between them. -/
theorem mpiFlavors_eq (server : MpiServer) :
    mpiFlavors server = (server.flavours.reverse.flatMap (· ++ [44])).dropLast := by
  have folded : ∀ (flavours : List Bytes) (text : Bytes),
      flavours.foldl (fun text name => name ++ 44 :: text) text =
        flavours.reverse.flatMap (· ++ [44]) ++ text := by
    intro flavours
    induction flavours with
    | nil => exact fun _ => rfl
    | cons name flavours ih =>
      intro text
      rw [List.foldl_cons, ih, List.reverse_cons, List.flatMap_append, List.flatMap_singleton,
        List.append_assoc, List.append_assoc, List.singleton_append]
  rw [mpiFlavors, folded, List.append_nil]

theorem clean_reverse (server : MpiServer) : ∀ flavour ∈ server.flavours.reverse, 44 ∉ flavour :=
  fun flavour member => (server.flavourWords flavour (List.mem_reverse.1 member)).1

/-- The maestro finds the flavours of the server. -/
theorem accepts_iff (some_byte : flavor ≠ []) :
    gebrmDaemonAcceptsMpi server flavor = true ↔ flavor ∈ server.flavours := by
  rw [gebrmDaemonAcceptsMpi, mpiFlavors_eq, List.any_eq_true, ← List.mem_reverse]
  have clean := clean_reverse server
  generalize server.flavours.reverse = flavours at clean
  by_cases text : (flavours.flatMap (· ++ [44])).dropLast = []
  · -- Without a text there is no flavour, or only the empty one.
    rw [text]
    refine iff_of_false (by simp [gStrsplit]) fun member => ?_
    have occurs : flavor <:+: (flavours.flatMap (· ++ [44])).dropLast := infix_of_mem member
    rw [text, List.infix_nil] at occurs
    exact some_byte occurs
  · rw [gStrsplit_joined clean text]
    simp

/-- The shares look for the flavour anywhere in the text. -/
theorem has_iff (some_byte : flavor ≠ []) :
    daemonHasMpiFlavor server flavor = true ↔ flavor <:+: mpiFlavors server := by
  rw [daemonHasMpiFlavor, Option.isSome_iff_ne_none, ne_eq, strstr_eq_none some_byte, not_not]

theorem has_of_accepts (some_byte : flavor ≠ [])
    (accepts : gebrmDaemonAcceptsMpi server flavor = true) :
    daemonHasMpiFlavor server flavor = true := by
  rw [has_iff some_byte, mpiFlavors_eq]
  exact infix_of_mem (List.mem_reverse.2 ((accepts_iff some_byte).1 accepts))

theorem filter_eq_filter_iff {α : Type*} {p q : α → Bool} {items : List α} :
    items.filter p = items.filter q ↔ ∀ item ∈ items, p item = q item := by
  refine ⟨fun same item member => ?_, List.filter_congr⟩
  have kept : item ∈ items.filter p ↔ item ∈ items.filter q := by rw [same]
  rw [List.mem_filter, List.mem_filter] at kept
  rw [Bool.eq_iff_iff]
  exact ⟨fun holds => (kept.1 ⟨member, holds⟩).2, fun holds => (kept.2 ⟨member, holds⟩).2⟩

/-- **The maestro and the shares see the same servers** where the flavour occurs in a text only as
one of its items. -/
theorem shares_iff (some_byte : flavor ≠ []) :
    (servers.filter fun server => daemonHasMpiFlavor server flavor) =
        servers.filter (fun server => gebrmDaemonAcceptsMpi server flavor) ↔
      ∀ server ∈ servers, flavor <:+: mpiFlavors server → flavor ∈ server.flavours := by
  rw [filter_eq_filter_iff]
  refine forall₂_congr fun server _ => ?_
  rw [Bool.eq_iff_iff, has_iff some_byte, accepts_iff some_byte]
  refine ⟨Iff.mp, fun part => ⟨part, fun member => ?_⟩⟩
  exact (has_iff some_byte).1 (has_of_accepts some_byte ((accepts_iff some_byte).2 member))

/-- The texts of the items that are registered. -/
def serverText (server : MpiServer) : Bytes := server.address ++ 44 :: mpiFlavors server

theorem mpiFlavors_word (server : MpiServer) : 59 ∉ mpiFlavors server := by
  rw [mpiFlavors_eq]
  intro member
  obtain ⟨name, given, member⟩ := List.mem_flatMap.1 (List.dropLast_subset _ member)
  rcases List.mem_append.1 member with member | member
  · exact (server.flavourWords name (List.mem_reverse.1 given)).2 member
  · exact absurd member (by decide)

theorem appendServer_foldl (address : Bytes) (flavours : List Bytes) (table : MpiTable) (key : Bytes) :
    flavours.foldl (appendServer address) table key =
      table key ++ List.replicate (flavours.count key) address := by
  induction flavours generalizing table with
  | nil => exact (List.append_nil _).symm
  | cons flavour flavours ih =>
    rw [List.foldl_cons, ih, appendServer]
    by_cases same : key = flavour
    · rw [if_pos same, same, List.count_cons_self, List.append_assoc, List.singleton_append,
        ← List.replicate_succ]
    · rw [if_neg same, List.count_cons_of_ne fun other => same other.symm]

/-- **The text of a server is registered under its flavours**, as often as each is one of them. -/
theorem registerServer_serverText (some_byte : flavor ≠ []) (table : MpiTable) (server : MpiServer) :
    registerServer table (serverText server) flavor =
      table flavor ++ List.replicate (server.flavours.count flavor) server.address := by
  have tokens : ∃ flavours, gStrsplit 44 0 (serverText server) = server.address :: flavours ∧
      flavours.count flavor = server.flavours.count flavor := by
    have long : (serverText server).length =
        (server.address.length + (mpiFlavors server).length) + 1 := by
      rw [serverText, List.length_append, List.length_cons]
      omega
    have some_text : serverText server ≠ [] := List.append_ne_nil_of_right_ne_nil _
      (List.cons_ne_nil _ _)
    rw [gStrsplit, if_neg some_text, if_pos rfl, long, serverText,
      splitTokens_cons server.addressWord.1]
    refine ⟨_, rfl, ?_⟩
    have turned : server.flavours.count flavor = server.flavours.reverse.count flavor :=
      List.count_reverse.symm
    rw [mpiFlavors_eq, turned]
    have clean := clean_reverse server
    generalize server.flavours.reverse = flavours at clean
    cases flavours with
    | nil =>
      rw [List.flatMap_nil, List.dropLast_nil, splitTokens_clean List.not_mem_nil, List.count_nil]
      exact List.count_eq_zero.2 fun member => some_byte (List.mem_singleton.1 member)
    | cons name flavours =>
      have enough : (name :: flavours).length ≤ ((name :: flavours).flatMap (· ++ [44])).length :=
        length_le_lines _
      rw [splitTokens_joined clean (List.cons_ne_nil _ _) (by rw [List.length_dropLast]; omega)]
  obtain ⟨flavours, tokens, count⟩ := tokens
  rw [registerServer, tokens]
  simp only
  rw [appendServer_foldl, count]

/-- **The table of the launching daemon**: each server, as often as the flavour is one of its. -/
theorem jobMpiServers_eq (some_byte : flavor ≠ []) (servers : List MpiServer) :
    jobMpiServers (mpiRunFlowServers servers) flavor =
      servers.flatMap fun server => List.replicate (server.flavours.count flavor) server.address := by
  have clean : ∀ text ∈ servers.map serverText, 59 ∉ text := by
    intro text member
    obtain ⟨server, -, rfl⟩ := List.mem_map.1 member
    rw [serverText, List.mem_append, List.mem_cons, not_or, not_or]
    exact ⟨server.addressWord.2, by decide, mpiFlavors_word server⟩
  have whole : mpiRunFlowServers servers =
      ((servers.map serverText).flatMap (· ++ [59])).dropLast := by
    rw [← tail_eq_dropLast, List.flatMap_map]
    rfl
  have texts : gStrsplit 59 0 (mpiRunFlowServers servers) = servers.map serverText := by
    cases servers with
    | nil => rfl
    | cons server servers =>
      rw [whole, gStrsplit_joined clean]
      rw [← List.length_pos_iff]
      simp [serverText]
  have folded : ∀ (servers : List MpiServer) (table : MpiTable),
      (servers.map serverText).foldl registerServer table flavor = table flavor ++
        servers.flatMap fun server => List.replicate (server.flavours.count flavor)
            server.address := by
    intro servers
    induction servers with
    | nil => exact fun table => (List.append_nil _).symm
    | cons server servers ih =>
      intro table
      rw [List.map_cons, List.foldl_cons, ih, registerServer_serverText some_byte, List.flatMap_cons,
        List.append_assoc]
  rw [jobMpiServers, texts, folded, List.nil_append]

/-- Where each part of one list is at least as long as its part of the other, equal lists have equal
parts. -/
theorem eq_of_flatMap_eq {α β : Type*} {f g : α → List β}
    (longer : ∀ item, (g item).length ≤ (f item).length) {items : List α}
    (same : items.flatMap f = items.flatMap g) : ∀ item ∈ items, f item = g item := by
  have total : ∀ items : List α, (items.flatMap g).length ≤ (items.flatMap f).length := by
    intro items
    induction items with
    | nil => exact le_rfl
    | cons item items ih =>
      rw [List.flatMap_cons, List.flatMap_cons, List.length_append, List.length_append]
      exact Nat.add_le_add (longer item) ih
  induction items with
  | nil => exact fun item member => absurd member List.not_mem_nil
  | cons first items ih =>
    rw [List.flatMap_cons, List.flatMap_cons] at same
    have lengths := congrArg List.length same
    rw [List.length_append, List.length_append] at lengths
    have rest := total items
    have least := longer first
    obtain ⟨head, tail⟩ := List.append_inj same (by omega)
    exact List.forall_mem_cons.2 ⟨head, ih tail⟩

/-- **The maestro and the table see the same servers**, each once, where no server has the flavour
twice. -/
theorem launch_iff (some_byte : flavor ≠ []) :
    jobMpiServers (mpiRunFlowServers servers) flavor =
        (servers.filter fun server => gebrmDaemonAcceptsMpi server flavor).map MpiServer.address ↔
      ∀ server ∈ servers, server.flavours.count flavor ≤ 1 := by
  rw [jobMpiServers_eq some_byte]
  have once : ∀ server : MpiServer, server.flavours.count flavor ≤ 1 →
      List.replicate (server.flavours.count flavor) server.address =
        if gebrmDaemonAcceptsMpi server flavor then [server.address] else [] := by
    intro server most
    split
    · rename_i accepts
      have positive := List.count_pos_iff.2 ((accepts_iff some_byte).1 accepts)
      rw [Nat.le_antisymm most positive]
      rfl
    · rename_i other
      rw [accepts_iff some_byte] at other
      rw [List.count_eq_zero.2 other]
      rfl
  have least : ∀ server : MpiServer,
      (if gebrmDaemonAcceptsMpi server flavor then [server.address] else []).length ≤
        server.flavours.count flavor := by
    intro server
    split
    · rename_i accepts
      exact List.count_pos_iff.2 ((accepts_iff some_byte).1 accepts)
    · exact Nat.zero_le _
  have listed : (servers.filter fun server => gebrmDaemonAcceptsMpi server flavor).map
      MpiServer.address = servers.flatMap fun server =>
        if gebrmDaemonAcceptsMpi server flavor then [server.address] else [] := by
    induction servers with
    | nil => rfl
    | cons server servers ih =>
      rw [List.filter_cons, List.flatMap_cons, ← ih]
      split <;> rfl
  rw [listed]
  constructor
  · intro same server member
    have longer : ∀ server : MpiServer,
        (if gebrmDaemonAcceptsMpi server flavor then [server.address] else []).length ≤
          (List.replicate (server.flavours.count flavor) server.address).length := by
      intro server
      rw [List.length_replicate]
      exact least server
    have lengths := congrArg List.length (eq_of_flatMap_eq longer same server member)
    rw [List.length_replicate] at lengths
    rw [lengths]
    split <;> simp
  · exact fun most => List.flatMap_congr fun server member => once server (most server member)

end Servers

section Reported

variable {used : List Bytes} {kept : List Bytes} {flavour : Bytes}

/-- A turn of the loop, on the flavours that are in the text. -/
def keep (kept : List Bytes) (flavour : Bytes) : List Bytes :=
  if (strstr flavour (kept.flatMap (44 :: ·))).isSome then kept else kept ++ [flavour]

/-- The text is made of the flavours that are kept. -/
theorem foldl_appendFlavor (mpis : List (Option Bytes)) (kept : List Bytes) :
    mpis.foldl appendFlavor (kept.flatMap (44 :: ·)) =
      ((usedFlavours mpis).foldl keep kept).flatMap (44 :: ·) := by
  induction mpis generalizing kept with
  | nil => rfl
  | cons mpi mpis ih =>
    rw [List.foldl_cons, usedFlavours, List.filterMap_cons]
    cases mpi with
    | none => exact ih kept
    | some mpi =>
      by_cases empty : mpi = []
      · rw [appendFlavor, if_pos empty, Option.filter_some, if_neg (by simp [empty])]
        exact ih kept
      · rw [appendFlavor, if_neg empty, Option.filter_some, if_pos (decide_eq_true empty)]
        simp only [List.foldl_cons, keep]
        split
        · exact ih kept
        · have more := ih (kept ++ [mpi])
          rw [List.flatMap_append, List.flatMap_singleton] at more
          exact more

theorem usedFlavours_ne_nil {mpis : List (Option Bytes)} :
    ∀ flavour ∈ usedFlavours mpis, flavour ≠ [] := by
  intro flavour member
  obtain ⟨mpi, -, same⟩ := List.mem_filterMap.1 member
  obtain ⟨-, some_byte⟩ := Option.filter_eq_some_iff.1 same
  exact of_decide_eq_true some_byte

/-- A flavour that occurs in the text is not added to it. -/
theorem keep_eq (some_byte : flavour ≠ []) (kept : List Bytes) :
    keep kept flavour =
      if flavour <:+: kept.flatMap (44 :: ·) then kept else kept ++ [flavour] := by
  have found : (strstr flavour (kept.flatMap (44 :: ·))).isSome = true ↔
      flavour <:+: kept.flatMap (44 :: ·) := by
    rw [Option.isSome_iff_ne_none, ne_eq, strstr_eq_none some_byte, not_not]
  rw [keep]
  simp only [found]

/-- The flavours that are kept stay, in front. -/
theorem begins_foldl_keep (used kept : List Bytes) : kept <+: used.foldl keep kept := by
  induction used generalizing kept with
  | nil => exact List.prefix_refl kept
  | cons flavour used ih =>
    refine List.IsPrefix.trans ?_ (ih (keep kept flavour))
    unfold keep
    split
    · exact List.prefix_refl kept
    · exact List.prefix_append kept _

theorem text_infix_of_longer {kept more : List Bytes} (longer : kept <+: more) :
    kept.flatMap (44 :: ·) <:+: more.flatMap (44 :: ·) := by
  obtain ⟨rest, rfl⟩ := longer
  rw [List.flatMap_append]
  exact (List.prefix_append _ _).isInfix

theorem mem_foldl_keep (member : flavour ∈ used.foldl keep kept) :
    flavour ∈ kept ∨ flavour ∈ used := by
  induction used generalizing kept with
  | nil => exact Or.inl member
  | cons first used ih =>
    rcases ih member with before | after
    · unfold keep at before
      split at before
      · exact Or.inl before
      · rcases List.mem_append.1 before with before | same
        · exact Or.inl before
        · exact Or.inr (List.mem_singleton.1 same ▸ List.mem_cons_self)
    · exact Or.inr (List.mem_cons_of_mem first after)

theorem nodup_foldl_keep (nonempty : ∀ flavour ∈ used, flavour ≠ []) (distinct : kept.Nodup) :
    (used.foldl keep kept).Nodup := by
  induction used generalizing kept with
  | nil => exact distinct
  | cons flavour used ih =>
    refine ih (fun other member => nonempty other (List.mem_cons_of_mem flavour member)) ?_
    rw [keep_eq (nonempty flavour List.mem_cons_self)]
    split
    · exact distinct
    · rename_i absent
      rw [← List.concat_eq_append, List.nodup_concat]
      exact ⟨fun member => absent (infix_flatMap_of_mem 44 member), distinct⟩

/-- Every flavour that was used occurs in the text. -/
theorem infix_foldl_keep (nonempty : ∀ flavour ∈ used, flavour ≠ []) (member : flavour ∈ used) :
    flavour <:+: (used.foldl keep kept).flatMap (44 :: ·) := by
  induction used generalizing kept with
  | nil => exact absurd member List.not_mem_nil
  | cons first used ih =>
    rcases List.mem_cons.1 member with rfl | member
    · refine List.IsInfix.trans ?_ (text_infix_of_longer (begins_foldl_keep used (keep kept flavour)))
      rw [keep_eq (nonempty flavour List.mem_cons_self)]
      split
      · assumption
      · exact infix_flatMap_of_mem 44 (List.mem_append_right kept (List.mem_singleton.2 rfl))
    · exact ih (fun other member => nonempty other (List.mem_cons_of_mem first member)) member

/-- A flavour that occurs in the text as a part of others only is never added. -/
theorem not_mem_foldl_keep (nonempty : ∀ flavour ∈ used, flavour ≠ [])
    (occurs : flavour <:+: kept.flatMap (44 :: ·)) (absent : flavour ∉ kept) :
    flavour ∉ used.foldl keep kept := by
  induction used generalizing kept with
  | nil => exact absent
  | cons first used ih =>
    have later := fun other member => nonempty other (List.mem_cons_of_mem first member)
    rw [List.foldl_cons, keep_eq (nonempty first List.mem_cons_self)]
    split
    · exact ih later occurs absent
    · rename_i new
      refine ih later (occurs.trans (text_infix_of_longer (List.prefix_append kept [first]))) ?_
      rw [List.mem_append, List.mem_singleton, not_or]
      exact ⟨absent, fun same => new (same ▸ occurs)⟩

/-- **Which flavours are kept**: all, exactly if none is first used after one that contains it. -/
theorem kept_all_iff (nonempty : ∀ flavour ∈ used, flavour ≠ [])
    (clean : ∀ flavour ∈ used, 44 ∉ flavour) : (∀ flavour ∈ used, flavour ∈ used.foldl keep []) ↔
    FirstUses used := by
  constructor
  · rintro all before flavour after rfl first other member part
    have earlier : ∀ flavour ∈ before, flavour ≠ [] :=
      fun flavour member => nonempty flavour (List.mem_append_left _ member)
    have whole : other <:+: (before.foldl keep []).flatMap (44 :: ·) := infix_foldl_keep earlier member
    have occurs := part.trans whole
    have absent : flavour ∉ before.foldl keep [] := fun kept =>
      first ((mem_foldl_keep kept).resolve_left List.not_mem_nil)
    have kept := all flavour (List.mem_append_right before List.mem_cons_self)
    rw [List.foldl_append] at kept
    exact not_mem_foldl_keep (fun other member => nonempty other (List.mem_append_right before member))
      occurs absent kept
  · intro uses
    induction used using List.reverseRecOn with
    | nil => exact fun flavour member => absurd member List.not_mem_nil
    | append_singleton before last ih =>
      have earlier : FirstUses before := by
        rintro front flavour after rfl
        exact uses front flavour (after ++ [last]) (by simp)
      have kept := ih (fun flavour member => nonempty flavour (List.mem_append_left _ member))
        (fun flavour member => clean flavour (List.mem_append_left _ member)) earlier
      intro flavour member
      rw [List.foldl_append, List.foldl_cons, List.foldl_nil]
      rcases List.mem_append.1 member with old | new
      · exact (begins_foldl_keep [last] (before.foldl keep [])).subset (kept flavour old)
      · obtain rfl := List.mem_singleton.1 new
        by_cases old : flavour ∈ before
        · exact (begins_foldl_keep [flavour] (before.foldl keep [])).subset (kept flavour old)
        · rw [keep_eq (nonempty flavour member), if_neg]
          · exact List.mem_append_right _ (List.mem_singleton.2 rfl)
          · rw [infix_flatMap_iff (clean flavour member) (nonempty flavour member)]
            rintro ⟨other, given, part⟩
            have used := (mem_foldl_keep given).resolve_left List.not_mem_nil
            exact uses before flavour [] rfl old other used part

/-- **Each flavour of a flow is reported once** exactly if none has a comma or is first used after
one that contains it. -/
theorem reported_iff (mpis : List (Option Bytes)) :
    ReportedOnce mpis ↔
      (∀ flavour ∈ usedFlavours mpis, 44 ∉ flavour) ∧ FirstUses (usedFlavours mpis) := by
  have nonempty : ∀ flavour ∈ usedFlavours mpis, flavour ≠ [] := usedFlavours_ne_nil
  have text : getMpiFlavorsForFlow mpis =
      (((usedFlavours mpis).foldl keep []).flatMap (· ++ [44])).dropLast := by
    have folded := foldl_appendFlavor mpis []
    rw [List.flatMap_nil] at folded
    rw [getMpiFlavorsForFlow, folded, tail_eq_dropLast]
  have listed : (∀ flavour ∈ usedFlavours mpis, 44 ∉ flavour) →
      gStrsplit 44 0 (getMpiFlavorsForFlow mpis) = (usedFlavours mpis).foldl keep [] := by
    intro clean
    have used : ∀ flavour ∈ (usedFlavours mpis).foldl keep [], flavour ∈ usedFlavours mpis :=
      fun flavour member => (mem_foldl_keep member).resolve_left List.not_mem_nil
    rw [text]
    generalize (usedFlavours mpis).foldl keep [] = kept at used
    cases kept with
    | nil => rfl
    | cons first kept =>
      refine gStrsplit_joined (fun flavour member => clean flavour (used flavour member)) ?_
      have positive := List.length_pos_iff.2 (nonempty first (used first List.mem_cons_self))
      rw [← List.length_pos_iff, List.length_dropLast, List.flatMap_cons, List.length_append,
        List.length_append, List.length_singleton]
      omega
  constructor
  · intro once
    have clean : ∀ flavour ∈ usedFlavours mpis, 44 ∉ flavour := by
      intro flavour member
      have present := List.count_pos_iff.1 (once flavour member ▸ Nat.one_pos)
      exact not_mem_of_mem_gStrsplit present
    refine ⟨clean, (kept_all_iff nonempty clean).1 fun flavour member => ?_⟩
    have found := once flavour member
    rw [listed clean] at found
    exact List.count_pos_iff.1 (found ▸ Nat.one_pos)
  · rintro ⟨clean, uses⟩ flavour member
    rw [listed clean]
    have kept := (kept_all_iff nonempty clean).2 uses flavour member
    exact List.count_eq_one_of_mem (nodup_foldl_keep nonempty List.nodup_nil) kept

end Reported

section Agreement

variable {flavor : Bytes}

/-- The three agree on a flavour exactly if it occurs in the text of a server only as one of its
flavours, and that once. -/
theorem agrees_iff (some_byte : flavor ≠ []) (servers : List MpiServer) :
    Agrees servers flavor ↔
      (∀ server ∈ servers, flavor <:+: mpiFlavors server → flavor ∈ server.flavours) ∧
        ∀ server ∈ servers, server.flavours.count flavor ≤ 1 := by
  rw [← shares_iff some_byte, ← launch_iff some_byte]
  exact ⟨fun agrees => ⟨agrees.shares, agrees.launch⟩, fun both => ⟨both.1, both.2⟩⟩

/-- **The flavours of servers and flows.** The maestro, the shares and the table of the launching
daemon see the same servers of a flavour, and the flow reports each flavour once, exactly if the
flavour occurs in the text of a server only as one of its flavours, once, and no flavour of the flow
has a comma or is first used after one that contains it. -/
theorem flavours_iff (servers : List MpiServer) (mpis : List (Option Bytes))
    (some_byte : flavor ≠ []) : Agrees servers flavor ∧ ReportedOnce mpis ↔
      ((∀ server ∈ servers, flavor <:+: mpiFlavors server → flavor ∈ server.flavours) ∧
        ∀ server ∈ servers, server.flavours.count flavor ≤ 1) ∧
      (∀ flavour ∈ usedFlavours mpis, 44 ∉ flavour) ∧ FirstUses (usedFlavours mpis) :=
  and_congr (agrees_iff some_byte servers) (reported_iff mpis)

/-- A server with one configuration of Open MPI. -/
def openMpiServer : MpiServer where
  address := ascii "node1"
  flavours := [ascii "openmpi"]
  addressWord := by decide
  flavourWords := by decide

/-- A server with one configuration twice. -/
def twiceServer : MpiServer where
  address := ascii "node2"
  flavours := [ascii "mpich2", ascii "mpich2"]
  addressWord := by decide
  flavourWords := by decide

theorem flavours_iff_openmpi :
    Agrees [openMpiServer] (ascii "openmpi") ∧ ReportedOnce [some (ascii "openmpi"), none] := by
  have uses : FirstUses (usedFlavours [some (ascii "openmpi"), none]) := by
    intro before flavour after same first other member
    cases before with
    | nil => exact absurd member List.not_mem_nil
    | cons head before =>
      have lengths := congrArg List.length (List.cons.inj same).2
      exact absurd lengths (by simp)
  exact (flavours_iff [openMpiServer] [some (ascii "openmpi"), none] (by decide)).2
    ⟨⟨fun server member _ => by
      obtain rfl := List.mem_singleton.1 member
      exact List.mem_singleton.2 rfl, by decide⟩, by decide, uses⟩

/-- **A part of a flavour is taken for it by the shares**, the table has a server twice, and a flow
does not report a flavour that is a part of an earlier one. -/
theorem confused :
    ¬ Agrees [openMpiServer] (ascii "mpi") ∧ ¬ Agrees [twiceServer] (ascii "mpich2") ∧
      ¬ ReportedOnce [some (ascii "openmpi"), some (ascii "mpi")] := by
  refine ⟨fun agrees => ?_, fun agrees => ?_, fun once => ?_⟩
  · have shares := congrArg List.length agrees.shares
    exact absurd shares (by decide)
  · exact absurd agrees.launch (by decide)
  · exact absurd (once (ascii "mpi") (by decide)) (by decide)

end Agreement

end Gebr.Comm
