/-
**The port of a remote program, and the forward that leads to it.**

A provider runs a program over ssh and reads the port it listens on; a second ssh then forwards a
local port to that one, and a timer polls the local port until it is taken. The port is told, or an
error.

* `gebrCommPortProviderStart`: a provider that is asked for the port of a maestro, of a daemon or of
  an sftp server.
* `handle`: what one event of an ssh, or one tick of a timer, does.
* `Safe`: one signal at most, of the one forward that is open, and no timer of another one.
* `Phase`, `phase_handle`: what a provider is waiting for, and that orderly events keep it so.
* `not_oneOutcome_of_late`: an event that is not orderly leads to a state that is not safe.
* `oneOutcome_iff` — **when every request has one outcome**.
* `refused_late`: a forward that is refused after its port was taken for open.
-/

import Gebr.Lib.CString
import Gebr.Lib.Run
import Mathlib.Data.List.Basic

namespace Gebr.Comm.PortProvider

open Gebr.Lib Gebr.Lib.CString

abbrev Text : Type := List UInt8

section Model

inductive PortProviderState where
  | init | portDefined | forward | error
  deriving DecidableEq

/-- `GebrCommPortType`, of the ports that a local forward leads to. -/
inductive GebrCommPortType where
  | maestro | daemon | sftp
  deriving DecidableEq

inductive GebrCommPortProviderError where
  | unknownType | sftpNotRequired | spawn | ssh | redirect | notFound | port
  deriving DecidableEq

structure GError where
  code : GebrCommPortProviderError
  message : Text
  deriving DecidableEq

/-- `port-defined` and `error`. -/
inductive Signal where
  | portDefined (port : UInt32)
  | error (error : GError)
  deriving DecidableEq

/-- The arguments of the command of a local forward, `-L port:addr:remotePort address -N`. -/
structure ForwardCommand where
  port : UInt32
  addr : Text
  remotePort : UInt32
  address : Text
  deriving DecidableEq

/-- A `GebrCommSsh` that runs a forward, named by its place among those that were made. -/
structure ForwardSsh where
  number : ℕ
  command : ForwardCommand
  deriving DecidableEq

structure GebrCommPortForward where
  ssh : ForwardSsh
  address : Text
  deriving DecidableEq

/-- A source with its `TunnelPollData`; `ssh` is the forward it was made for. -/
structure PollSource where
  id : ℕ
  port : UInt32
  ssh : ℕ
  deriving DecidableEq

/-- `GebrCommPortProviderPriv` up to `remotePort`. Then the static counter of `get_port`, whether
the ssh of the program runs, how many forwards were made and which of them are not killed, how many
sources were made and which of them go on, and the signals that were emitted. -/
structure GebrCommPortProvider where
  state : PortProviderState
  type : GebrCommPortType
  address : Text
  forward : Option GebrCommPortForward
  portTimeout : ℕ
  port : UInt32
  remotePort : UInt32
  p2 : UInt32
  launched : Bool
  made : ℕ
  running : List ForwardSsh
  sources : ℕ
  polls : List PollSource
  signals : List Signal

/-- `emit_signals`. -/
def emitSignals (port : UInt32) (error : Option GError) (self : GebrCommPortProvider) :
    GebrCommPortProvider :=
  match error with
  | none => { self with state := .portDefined, signals := self.signals ++ [.portDefined port] }
  | some error => { self with state := .error, signals := self.signals ++ [.error error] }

/-- `set_forward`: a forward that is held is not replaced. -/
def setForward (ssh : ForwardSsh) (self : GebrCommPortProvider) : GebrCommPortProvider :=
  match self.forward with
  | none => { self with forward := some ⟨ssh, self.address⟩ }
  | some _ => self

/-- `clear_forward`. -/
def clearForward (self : GebrCommPortProvider) : GebrCommPortProvider :=
  match self.forward with
  | none => self
  | some forward => { self with forward := none, running := self.running.filter (· ≠ forward.ssh) }

/-- `get_port`: the port is the one of the result. -/
def getPort (self : GebrCommPortProvider) : GebrCommPortProvider :=
  if self.port ≠ 0 then self else { self with port := self.p2, p2 := self.p2 + 1 }

/-- `get_local_forward_command`. -/
def getLocalForwardCommand (addr : Text) (remotePort : UInt32) (self : GebrCommPortProvider) :
    ForwardCommand × GebrCommPortProvider :=
  let self := getPort self
  (⟨self.port, addr, remotePort, self.address⟩, self)

/-- `create_local_forward`: the ssh is run also where another forward is held. -/
def createLocalForward (self : GebrCommPortProvider) : GebrCommPortProvider :=
  let (command, self) := getLocalForwardCommand (ascii "127.0.0.1") self.remotePort self
  let ssh : ForwardSsh := ⟨self.made, command⟩
  let self := setForward ssh { self with state := .forward, made := self.made + 1 }
  { self with
    running := self.running ++ [ssh]
    sources := self.sources + 1
    polls := self.polls ++ [⟨self.sources + 1, command.port, ssh.number⟩]
    portTimeout := self.sources + 1 }

/-- `on_ssh_error`. -/
def onSshError (msg : Text) (self : GebrCommPortProvider) : GebrCommPortProvider :=
  emitSignals 0 (some ⟨.ssh, msg⟩) self

/-- `GEBR_COMM_SSH_ERROR_LOCAL_FORWARD`. -/
def sshErrorLocalForward : Text := ascii "error:local-forward"

/-- `on_local_forward_ssh_error`. -/
def onLocalForwardSshError (msg : Text) (self : GebrCommPortProvider) : GebrCommPortProvider :=
  let self :=
    if self.portTimeout ≠ 0 then { self with polls := self.polls.filter (·.id ≠ self.portTimeout) }
      else self
  if msg = sshErrorLocalForward then createLocalForward { clearForward self with port := 0 } else
    onSshError msg self

/-- `on_ssh_finished`. -/
def onSshFinished (out : Text) (self : GebrCommPortProvider) : GebrCommPortProvider :=
  if self.state = .init then emitSignals 0 (some ⟨.ssh, out⟩) self else self

/-- A tick of `tunnel_poll_port`, with the answer of
`gebr_comm_listen_socket_is_local_port_available`. -/
def tunnelPollPort (id : ℕ) (available : Bool) (self : GebrCommPortProvider) : GebrCommPortProvider :=
  match self.polls.find? (·.id = id) with
  | none => self
  | some data =>
    if available then self
    else { emitSignals data.port none self with polls := self.polls.filter (·.id ≠ id) }

/-- `g_strrstr`, as the text from the last occurrence on. -/
def gStrrstr (needle : Text) : Text → Option Text
  | [] => none
  | b :: s =>
    match gStrrstr needle s with
    | some rest => some rest
    | none => if needle.isPrefixOf (b :: s) then some (b :: s) else none

/-- The user and the host of an address, in `gebr_comm_is_address_equal`. -/
def userAndHost (userName addr : Text) : Text × Text :=
  match addr.dropWhile (· ≠ 64) with
  | [] => (userName, addr)
  | _ :: host => (addr.takeWhile (· ≠ 64), host)

/-- `gebr_comm_is_address_equal`. -/
def gebrCommIsAddressEqual (userName addr1 addr2 : Text) : Bool :=
  userAndHost userName addr1 = userAndHost userName addr2

/-- `atoi`, as a `guint`. -/
def atoi (text : Text) : UInt32 := UInt32.ofInt (strtol text).1

/-- `GEBR_PORT_PREFIX`. -/
def gebrPortPrefix : Text := ascii "gebr-port="

/-- `GEBR_ADDR_PREFIX`. -/
def gebrAddrPrefix : Text := ascii "gebr-addr="

/-- `get_port_from_command_output`: the port is stored as the remote one. -/
def getPortFromCommandOutput (userName buffer : Text) (self : GebrCommPortProvider) :
    Except GError GebrCommPortProvider :=
  let isMaestro := self.type = .maestro
  let redirectAddr := gStrrstr gebrAddrPrefix buffer
  let portStr := gStrrstr gebrPortPrefix buffer
  if (strstr (ascii "command not found") buffer).isSome then
    .error ⟨.notFound,
      (if isMaestro then ascii "Maestro" else ascii "Daemon") ++ ascii " not found at " ++
        self.address⟩
  else
    match portStr, redirectAddr with
    | none, _ =>
      .error ⟨.port, ascii "Unexpected output from " ++
        (if isMaestro then ascii "maestro" else ascii "daemon") ++ ascii " at " ++ self.address ++
          ascii ": " ++ buffer⟩
    | some portStr, some redirectAddr =>
      let addr := gStrstrip ((redirectAddr.drop gebrAddrPrefix.length).takeWhile (· ≠ 10))
      if gebrCommIsAddressEqual userName self.address addr then
        .ok { self with remotePort := atoi (portStr.drop gebrPortPrefix.length) }
      else .error ⟨.redirect, addr⟩
    | some portStr, none => .ok { self with remotePort := atoi (portStr.drop gebrPortPrefix.length) }

/-- `on_ssh_stdout`. -/
def onSshStdout (userName buffer : Text) (self : GebrCommPortProvider) : GebrCommPortProvider :=
  match getPortFromCommandOutput userName buffer self with
  | .error error => emitSignals 0 (some error) self
  | .ok self => createLocalForward self

/-- `gebr_comm_port_provider_new`, with what other providers left of the counters. -/
def gebrCommPortProviderNew (type : GebrCommPortType) (address : Text) (p2 : UInt32) (sources : ℕ) :
    GebrCommPortProvider :=
  ⟨.init, type, address, none, 0, 0, 0, p2, false, 0, [], sources, [], []⟩

/-- `remote_get_port`. -/
def remoteGetPort (self : GebrCommPortProvider) : GebrCommPortProvider :=
  { self with launched := true }

/-- `remote_get_sftp_port`. -/
def remoteGetSftpPort (self : GebrCommPortProvider) : GebrCommPortProvider :=
  createLocalForward { self with remotePort := 22 }

/-- `gebr_comm_port_provider_start_with_port` at an address that is not local. -/
def gebrCommPortProviderStart (port : UInt32) (self : GebrCommPortProvider) : GebrCommPortProvider :=
  let self := { self with port := port }
  match self.type with
  | .maestro => remoteGetPort self
  | .daemon => remoteGetPort self
  | .sftp => remoteGetSftpPort self

/-- The ssh that runs the program, and those of the forwards. -/
inductive Ssh where
  | launch
  | forward (number : ℕ)
  deriving DecidableEq

/-- What an ssh reports, a tick of a source, and a port that another provider takes. -/
inductive Event where
  | sshStdout (ssh : Ssh) (buffer : Text)
  | sshError (ssh : Ssh) (msg : Text)
  | sshFinished (ssh : Ssh) (output : Text)
  | tick (id : ℕ) (available : Bool)
  | otherPort

/-- What the callbacks do about an event. The output and the end of a forward are connected to none;
a forward that was abandoned may still report an error. -/
def handle (userName : Text) (self : GebrCommPortProvider) : Event → GebrCommPortProvider
  | .sshStdout .launch buffer => if self.launched then onSshStdout userName buffer self else self
  | .sshError .launch msg => if self.launched then onSshError msg self else self
  | .sshFinished .launch output => if self.launched then onSshFinished output self else self
  | .sshError (.forward number) msg => if number < self.made then
      onLocalForwardSshError msg self else self
  | .sshStdout (.forward _) _ => self
  | .sshFinished (.forward _) _ => self
  | .tick id available => tunnelPollPort id available self
  | .otherPort => { self with p2 := self.p2 + 1 }

end Model

section Properties

/-- **One signal at most, of the one forward that is open, and no source of another one.** -/
structure Safe (provider : GebrCommPortProvider) : Prop where
  once : provider.signals.length ≤ 1
  carried : ∀ port, .portDefined port ∈ provider.signals →
    ∃ forward, provider.forward = some forward ∧ forward.ssh ∈ provider.running ∧
      forward.ssh.command.port = port
  owned : ∀ data ∈ provider.polls,
    ∃ forward, provider.forward = some forward ∧ forward.ssh ∈ provider.running ∧
      forward.ssh.number = data.ssh
  single : provider.running.length ≤ 1

/-- The provider is safe, and stays so whatever the sources that go on find out. -/
def OneOutcome (provider : GebrCommPortProvider) : Prop :=
  ∀ ticks : List (ℕ × Bool),
    Safe (ticks.foldl (fun provider tick => tunnelPollPort tick.1 tick.2 provider) provider)

/-- The program reports only before a forward was made, and a forward only while its port is waited
for. -/
def Orderly (provider : GebrCommPortProvider) : Event → Prop
  | .sshStdout .launch _ => provider.launched = true → provider.state = .init
  | .sshError .launch _ => provider.launched = true → provider.state = .init
  | .sshError (.forward number) _ => number < provider.made → provider.state = .forward
  | _ => True

/-- One event. -/
def step (userName : Text) (provider : GebrCommPortProvider) (event : Event) :
    Option GebrCommPortProvider :=
  some (handle userName provider event)

end Properties

section Waiting

/-- A forward is held, and it is the only one that is open. -/
structure Holds (provider : GebrCommPortProvider) (forward : GebrCommPortForward) : Prop where
  held : provider.forward = some forward
  alone : provider.running = [forward.ssh]

/-- No forward is held and none is open. -/
structure Free (provider : GebrCommPortProvider) : Prop where
  unheld : provider.forward = none
  closed : provider.running = []

/-- A forward is held, and the source that polls its port goes on. -/
structure Polls (provider : GebrCommPortProvider) (forward : GebrCommPortForward) : Prop where
  holds : Holds provider forward
  positive : provider.portTimeout ≠ 0
  goes : provider.polls = [⟨provider.portTimeout, forward.ssh.command.port, forward.ssh.number⟩]

/-- **What a provider is waiting for**: the program, a port, or nothing any more. -/
inductive Phase (provider : GebrCommPortProvider) : Prop where
  | asked (state : provider.state = .init) (free : Free provider) (unmade : provider.made = 0)
      (still : provider.polls = []) (untold : provider.signals = [])
  | waiting (state : provider.state = .forward) (forward : GebrCommPortForward)
      (polls : Polls provider forward) (untold : provider.signals = [])
  | found (state : provider.state = .portDefined) (forward : GebrCommPortForward)
      (holds : Holds provider forward) (still : provider.polls = [])
        (told : provider.signals = [.portDefined forward.ssh.command.port])
  | failed (state : provider.state = .error)
      (single : Free provider ∨ ∃ forward, Holds provider forward) (still : provider.polls = [])
        (error : GError) (told : provider.signals = [.error error])

variable {provider : GebrCommPortProvider}

theorem Phase.safe (phase : Phase provider) : Safe provider := by
  cases phase with
  | asked state free unmade still untold =>
    refine ⟨?_, ?_, ?_, ?_⟩
    · rw [untold]
      exact Nat.zero_le 1
    · rw [untold]
      exact fun port member => absurd member List.not_mem_nil
    · rw [still]
      exact fun data member => absurd member List.not_mem_nil
    · rw [free.closed]
      exact Nat.zero_le 1
  | waiting state forward polls untold =>
    have runs : forward.ssh ∈ provider.running := polls.holds.alone ▸ List.mem_singleton_self _
    refine ⟨?_, ?_, ?_, ?_⟩
    · rw [untold]
      exact Nat.zero_le 1
    · rw [untold]
      exact fun port member => absurd member List.not_mem_nil
    · rw [polls.goes]
      intro data member
      rw [List.mem_singleton.1 member]
      exact ⟨forward, polls.holds.held, runs, rfl⟩
    · rw [polls.holds.alone]
      exact Nat.le_refl 1
  | found state forward holds still told =>
    have runs : forward.ssh ∈ provider.running := holds.alone ▸ List.mem_singleton_self _
    refine ⟨?_, ?_, ?_, ?_⟩
    · rw [told]
      exact Nat.le_refl 1
    · rw [told]
      intro port member
      obtain rfl := Signal.portDefined.inj (List.mem_singleton.1 member)
      exact ⟨forward, holds.held, runs, rfl⟩
    · rw [still]
      exact fun data member => absurd member List.not_mem_nil
    · rw [holds.alone]
      exact Nat.le_refl 1
  | failed state single still error told =>
    refine ⟨?_, ?_, ?_, ?_⟩
    · rw [told]
      exact Nat.le_refl 1
    · rw [told]
      exact fun port member => absurd (List.mem_singleton.1 member) nofun
    · rw [still]
      exact fun data member => absurd member List.not_mem_nil
    · rcases single with free | ⟨forward, holds⟩
      · rw [free.closed]
        exact Nat.zero_le 1
      · rw [holds.alone]
        exact Nat.le_refl 1

theorem free_clearForward {forward : GebrCommPortForward} (holds : Holds provider forward) :
    Free (clearForward provider) := by
  unfold clearForward
  rw [holds.held, holds.alone]
  exact ⟨rfl, by simp⟩

@[simp] theorem clearForward_polls (provider : GebrCommPortProvider) :
    (clearForward provider).polls = provider.polls := by
  unfold clearForward
  split <;> rfl

@[simp] theorem clearForward_signals (provider : GebrCommPortProvider) :
    (clearForward provider).signals = provider.signals := by
  unfold clearForward
  split <;> rfl

/-- A port is taken before a forward is made. -/
theorem getPort_frame (provider : GebrCommPortProvider) :
    ∃ port p2, getPort provider = { provider with port := port, p2 := p2 } := by
  unfold getPort
  split
  · exact ⟨provider.port, provider.p2, rfl⟩
  · exact ⟨provider.p2, provider.p2 + 1, rfl⟩

/-- **A new forward is waited for**, where none is held or open. -/
theorem phase_createLocalForward (free : Free provider) (still : provider.polls = [])
    (untold : provider.signals = []) : Phase (createLocalForward provider) := by
  obtain ⟨port, p2, taken⟩ := getPort_frame provider
  unfold createLocalForward getLocalForwardCommand setForward
  simp only [taken, free.unheld, free.closed, still, List.nil_append]
  refine .waiting rfl _ ⟨⟨rfl, rfl⟩, Nat.succ_ne_zero _, rfl⟩ untold

/-- An error is told, where nothing was told and no source goes on. -/
theorem phase_error (single : Free provider ∨ ∃ forward, Holds provider forward)
    (still : provider.polls = []) (untold : provider.signals = []) (port : UInt32) (error : GError) :
    Phase (emitSignals port (some error) provider) := by
  refine .failed rfl ?_ still error ?_
  · exact single.imp (fun free => ⟨free.unheld, free.closed⟩)
      (Exists.imp fun forward holds => ⟨holds.held, holds.alone⟩)
  · show provider.signals ++ [_] = _
    rw [untold, List.nil_append]

/-- The answer of a program changes nothing but the remote port. -/
theorem remotePort_of_output {userName buffer : Text} {next : GebrCommPortProvider}
    (read : getPortFromCommandOutput userName buffer provider = .ok next) :
    ∃ remotePort, next = { provider with remotePort := remotePort } := by
  unfold getPortFromCommandOutput at read
  dsimp only at read
  split at read
  · exact absurd read nofun
  · split at read
    · exact absurd read nofun
    · split at read
      · exact ⟨_, (Except.ok.inj read).symm⟩
      · exact absurd read nofun
    · exact ⟨_, (Except.ok.inj read).symm⟩

theorem tunnelPollPort_still (still : provider.polls = []) (id : ℕ) (available : Bool) :
    tunnelPollPort id available provider = provider := by
  unfold tunnelPollPort
  rw [still]
  rfl

/-- **A tick**: the port that is found in use is told, and its source is gone. -/
theorem phase_tunnelPollPort (phase : Phase provider) (id : ℕ) (available : Bool) :
    Phase (tunnelPollPort id available provider) := by
  cases phase with
  | asked state free unmade still untold =>
    rw [tunnelPollPort_still still]
    exact .asked state free unmade still untold
  | found state forward holds still told =>
    rw [tunnelPollPort_still still]
    exact .found state forward holds still told
  | failed state single still error told =>
    rw [tunnelPollPort_still still]
    exact .failed state single still error told
  | waiting state forward polls untold =>
    unfold tunnelPollPort
    rw [polls.goes]
    rw [List.find?_singleton]
    by_cases same : provider.portTimeout = id
    · rw [if_pos (decide_eq_true same)]
      cases available with
      | true => exact .waiting state forward polls untold
      | false =>
        refine .found rfl forward ⟨polls.holds.held, polls.holds.alone⟩ ?_ ?_
        · simp [same]
        · show provider.signals ++ [_] = _
          rw [untold, List.nil_append]
    · rw [if_neg (by simpa using same)]
      exact .waiting state forward polls untold

/-- **An error of a forward that is waited for**: another forward is waited for, or the error is
told. -/
theorem phase_onLocalForwardSshError {forward : GebrCommPortForward} (polls : Polls provider forward)
    (untold : provider.signals = []) (msg : Text) : Phase (onLocalForwardSshError msg provider) := by
  have removed : provider.polls.filter (·.id ≠ provider.portTimeout) = [] := by
    rw [polls.goes, List.filter_cons_of_neg (by simp)]
    rfl
  have still : Holds { provider with polls := [] } forward := ⟨polls.holds.held, polls.holds.alone⟩
  unfold onLocalForwardSshError
  rw [if_pos polls.positive, removed]
  dsimp only
  by_cases refused : msg = sshErrorLocalForward
  · rw [if_pos refused]
    have free := free_clearForward still
    exact phase_createLocalForward ⟨free.unheld, free.closed⟩ (clearForward_polls _)
      ((clearForward_signals _).trans untold)
  · rw [if_neg refused]
    exact phase_error (.inr ⟨forward, still⟩) rfl untold 0 _

theorem phase_onSshStdout (free : Free provider) (still : provider.polls = [])
    (untold : provider.signals = []) (userName buffer : Text) :
    Phase (onSshStdout userName buffer provider) := by
  unfold onSshStdout
  cases read : getPortFromCommandOutput userName buffer provider with
  | error error => exact phase_error (.inl free) still untold 0 error
  | ok next =>
    obtain ⟨remotePort, rfl⟩ := remotePort_of_output read
    exact phase_createLocalForward ⟨free.unheld, free.closed⟩ still untold

/-- **Orderly events keep the provider in a phase.** -/
theorem phase_handle (userName : Text) (phase : Phase provider) {event : Event}
    (orderly : Orderly provider event) : Phase (handle userName provider event) := by
  have asked (state : provider.state = .init) :
      Free provider ∧ provider.made = 0 ∧ provider.polls = [] ∧ provider.signals = [] := by
    cases phase with
    | asked state free unmade still untold => exact ⟨free, unmade, still, untold⟩
    | waiting other => exact absurd (state.symm.trans other) nofun
    | found other => exact absurd (state.symm.trans other) nofun
    | failed other => exact absurd (state.symm.trans other) nofun
  cases event with
  | sshStdout ssh buffer =>
    cases ssh with
    | forward number => exact phase
    | launch =>
      show Phase (if provider.launched then onSshStdout userName buffer provider else provider)
      split
      · obtain ⟨free, -, still, untold⟩ := asked (orderly ‹_›)
        exact phase_onSshStdout free still untold userName buffer
      · exact phase
  | sshError ssh msg =>
    cases ssh with
    | launch =>
      show Phase (if provider.launched then onSshError msg provider else provider)
      split
      · obtain ⟨free, -, still, untold⟩ := asked (orderly ‹_›)
        exact phase_error (.inl free) still untold 0 _
      · exact phase
    | forward number =>
      show Phase (if number < provider.made then onLocalForwardSshError msg provider else provider)
      split
      · cases phase with
        | waiting state forward polls untold => exact phase_onLocalForwardSshError polls untold msg
        | asked other => exact absurd (other.symm.trans (orderly ‹_›)) nofun
        | found other => exact absurd (other.symm.trans (orderly ‹_›)) nofun
        | failed other => exact absurd (other.symm.trans (orderly ‹_›)) nofun
      · exact phase
  | sshFinished ssh output =>
    cases ssh with
    | forward number => exact phase
    | launch =>
      show Phase (if provider.launched then onSshFinished output provider else provider)
      unfold onSshFinished
      split
      · split
        · obtain ⟨free, -, still, untold⟩ := asked ‹_›
          exact phase_error (.inl free) still untold 0 _
        · exact phase
      · exact phase
  | tick id available => exact phase_tunnelPollPort phase id available
  | otherPort =>
    cases phase with
    | asked state free unmade still untold =>
      exact .asked state ⟨free.unheld, free.closed⟩ unmade still untold
    | waiting state forward polls untold =>
      exact .waiting state forward
        ⟨⟨polls.holds.held, polls.holds.alone⟩, polls.positive, polls.goes⟩ untold
    | found state forward holds still told =>
      exact .found state forward ⟨holds.held, holds.alone⟩ still told
    | failed state single still error told =>
      refine .failed state ?_ still error told
      exact single.imp (fun free => ⟨free.unheld, free.closed⟩)
        (Exists.imp fun forward holds => ⟨holds.held, holds.alone⟩)

theorem phase_start (type : GebrCommPortType) (address : Text) (port p2 : UInt32) (sources : ℕ) :
    Phase (gebrCommPortProviderStart port (gebrCommPortProviderNew type address p2 sources)) := by
  cases type with
  | maestro => exact .asked rfl ⟨rfl, rfl⟩ rfl rfl rfl
  | daemon => exact .asked rfl ⟨rfl, rfl⟩ rfl rfl rfl
  | sftp => exact phase_createLocalForward ⟨rfl, rfl⟩ rfl rfl

/-- **A provider in a phase has one outcome**, whatever the ticks are. -/
theorem Phase.oneOutcome (phase : Phase provider) : OneOutcome provider := by
  intro ticks
  induction ticks generalizing provider with
  | nil => exact phase.safe
  | cons tick ticks ih => exact ih (phase_tunnelPollPort phase tick.1 tick.2)

end Waiting

section Late

variable {provider : GebrCommPortProvider}

/-- The ticks that are left find an outcome that is not the only one. -/
theorem not_oneOutcome_of_poll (data : PollSource) (told : provider.signals ≠ [])
    (goes : data ∈ provider.polls) : ¬ OneOutcome provider := by
  intro outcome
  have once : (tunnelPollPort data.id false provider).signals.length ≤ 1 :=
    (outcome [(data.id, false)]).once
  unfold tunnelPollPort at once
  cases found : provider.polls.find? (·.id = data.id) with
  | none => exact absurd (List.find?_eq_none.1 found data goes) (by simp)
  | some first =>
    rw [found] at once
    replace once : (provider.signals ++ [_]).length ≤ 1 := once
    rw [List.length_append, List.length_singleton] at once
    have positive := List.length_pos_iff.2 told
    omega

theorem not_oneOutcome_of_error (told : provider.signals ≠ []) (port : UInt32) (error : GError) :
    ¬ OneOutcome (emitSignals port (some error) provider) := by
  intro outcome
  have once : (provider.signals ++ [Signal.error error]).length ≤ 1 := (outcome []).once
  rw [List.length_append, List.length_singleton] at once
  have positive := List.length_pos_iff.2 told
  omega

/-- A forward that is made opens one more, and polls it. -/
theorem createLocalForward_spec (provider : GebrCommPortProvider) :
    ∃ ssh data, (createLocalForward provider).running = provider.running ++ [ssh] ∧
      (createLocalForward provider).polls = provider.polls ++ [data] ∧
      (createLocalForward provider).signals = provider.signals := by
  obtain ⟨port, p2, taken⟩ := getPort_frame provider
  unfold createLocalForward getLocalForwardCommand setForward
  dsimp only
  rw [taken]
  cases provider.forward with
  | none => exact ⟨_, _, rfl, rfl, rfl⟩
  | some forward => exact ⟨_, _, rfl, rfl, rfl⟩

/-- A forward that is made after a signal leads to another one. -/
theorem not_oneOutcome_of_forward (told : provider.signals ≠ []) :
    ¬ OneOutcome (createLocalForward provider) := by
  obtain ⟨ssh, data, -, polls, signals⟩ := createLocalForward_spec provider
  refine not_oneOutcome_of_poll data (signals ▸ told) ?_
  rw [polls]
  exact List.mem_append_right _ (List.mem_singleton_self data)

/-- A forward that is made while one is open is one too many. -/
theorem not_oneOutcome_of_open (runs : provider.running ≠ []) :
    ¬ OneOutcome (createLocalForward provider) := by
  intro outcome
  obtain ⟨ssh, data, running, -, -⟩ := createLocalForward_spec provider
  have single : (createLocalForward provider).running.length ≤ 1 := (outcome []).single
  rw [running, List.length_append, List.length_singleton] at single
  have positive := List.length_pos_iff.2 runs
  omega

/-- **What comes after the program has answered**: a signal was told, or a port is waited for. -/
theorem Phase.later (phase : Phase provider) (later : provider.state ≠ .init) :
    provider.signals ≠ [] ∨ provider.running ≠ [] ∧ provider.polls ≠ [] := by
  cases phase with
  | asked state => exact absurd state later
  | waiting state forward polls untold =>
    rw [polls.holds.alone, polls.goes]
    exact .inr ⟨List.cons_ne_nil _ _, List.cons_ne_nil _ _⟩
  | found state forward holds still told =>
    rw [told]
    exact .inl (List.cons_ne_nil _ _)
  | failed state single still error told =>
    rw [told]
    exact .inl (List.cons_ne_nil _ _)

theorem not_oneOutcome_of_lateError (phase : Phase provider) (later : provider.state ≠ .init)
    (error : GError) : ¬ OneOutcome (emitSignals 0 (some error) provider) := by
  rcases phase.later later with told | ⟨-, some_poll⟩
  · exact not_oneOutcome_of_error told 0 error
  · obtain ⟨data, goes⟩ := List.exists_mem_of_ne_nil _ some_poll
    refine not_oneOutcome_of_poll data ?_ goes
    exact List.append_ne_nil_of_right_ne_nil _ (List.cons_ne_nil _ _)

/-- An error of a forward after a signal: another signal, or a forward that leads to one. -/
theorem not_oneOutcome_of_forwardError (told : provider.signals ≠ []) (msg : Text) :
    ¬ OneOutcome (onLocalForwardSshError msg provider) := by
  unfold onLocalForwardSshError
  extract_lets removed
  have same : removed.signals = provider.signals := by
    unfold removed
    split <;> rfl
  by_cases refused : msg = sshErrorLocalForward
  · rw [if_pos refused]
    refine not_oneOutcome_of_forward ?_
    rw [clearForward_signals, same]
    exact told
  · rw [if_neg refused]
    exact not_oneOutcome_of_error (same ▸ told) 0 _

/-- **An event that comes late leads to a second outcome**, or to a forward too many. -/
theorem not_oneOutcome_of_late (userName : Text) (phase : Phase provider) {event : Event}
    (late : ¬ Orderly provider event) : ¬ OneOutcome (handle userName provider event) := by
  cases event with
  | sshStdout ssh buffer =>
    cases ssh with
    | forward number => exact absurd trivial late
    | launch =>
      obtain ⟨launched, later⟩ := Classical.not_imp.1 late
      show ¬ OneOutcome (if provider.launched then onSshStdout userName buffer provider else provider)
      rw [if_pos launched]
      unfold onSshStdout
      cases read : getPortFromCommandOutput userName buffer provider with
      | error error => exact not_oneOutcome_of_lateError phase later error
      | ok next =>
        obtain ⟨remotePort, rfl⟩ := remotePort_of_output read
        rcases phase.later later with told | ⟨runs, -⟩
        · exact not_oneOutcome_of_forward told
        · exact not_oneOutcome_of_open runs
  | sshError ssh msg =>
    cases ssh with
    | launch =>
      obtain ⟨launched, later⟩ := Classical.not_imp.1 late
      show ¬ OneOutcome (if provider.launched then onSshError msg provider else provider)
      rw [if_pos launched]
      exact not_oneOutcome_of_lateError phase later _
    | forward number =>
      obtain ⟨made, later⟩ := Classical.not_imp.1 late
      show ¬ OneOutcome
        (if number < provider.made then onLocalForwardSshError msg provider else provider)
      rw [if_pos made]
      refine not_oneOutcome_of_forwardError ?_ msg
      cases phase with
      | asked state free unmade => exact absurd (unmade ▸ made) (Nat.not_lt_zero _)
      | waiting state => exact absurd state later
      | found state forward holds still told => exact told ▸ List.cons_ne_nil _ _
      | failed state single still error told => exact told ▸ List.cons_ne_nil _ _
  | sshFinished ssh output => cases ssh <;> exact absurd trivial late
  | tick id available => exact absurd trivial late
  | otherPort => exact absurd trivial late

end Late

section Runs

/-- **Every request has one outcome iff the ssh reports in order**: one signal at most in every
state of a run, whatever the sources find out, the port that is told is the one of the forward that
is open, every source that goes on is of this forward, and no other one is open. -/
theorem oneOutcome_iff (userName : Text) (type : GebrCommPortType) (address : Text)
    (port p2 : UInt32) (sources : ℕ) (events : List Event) :
    (∀ before, before <+: events → ∃ provider,
      Run.run (step userName)
        (gebrCommPortProviderStart port (gebrCommPortProviderNew type address p2 sources)) before =
      some provider ∧ OneOutcome provider) ↔ Run.Guarded (step userName) Orderly
        (gebrCommPortProviderStart port (gebrCommPortProviderNew type address p2 sources)) events := by
  refine Run.stays_iff_kept (fun provider phase => Phase.oneOutcome phase) ?_ ?_
    (phase_start type address port p2 sources)
  · intro provider event phase orderly
    exact ⟨_, rfl, phase_handle userName phase orderly⟩
  · intro provider event next phase taken outcome
    obtain rfl := Option.some.inj taken
    by_contra late
    exact not_oneOutcome_of_late userName phase late outcome

/-- **A forward that is refused late**: its port is in use by another program, which the tick takes
for the open forward; then the forward is refused, and the port of the next one is told as well. -/
theorem refused_late :
    ¬ ∀ (userName : Text) (type : GebrCommPortType) (address : Text) (port p2 : UInt32) (sources : ℕ)
      (events : List Event), ∃ provider,
        Run.run (step userName)
          (gebrCommPortProviderStart port (gebrCommPortProviderNew type address p2 sources))
          events = some provider ∧ Safe provider := by
  intro all
  obtain ⟨provider, reached, safe⟩ := all (ascii "user") .sftp (ascii "host") 0 3000 0
    [.tick 1 false, .sshError (.forward 0) (ascii "error:local-forward"), .tick 2 false]
  obtain rfl := Option.some.inj reached
  exact absurd safe.once (by decide)

end Runs

end Gebr.Comm.PortProvider
