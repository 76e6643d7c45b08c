/-
**The connection of a daemon.**

A daemon has one connection in its life. What comes in on it are old messages, which
`client_old_parse_messages` dispatches, and HTTP requests, which `client_process_request` answers.
The first message of a maestro is to be `INI`, with the version of the protocol and a cookie that
the user has authorised; until then the connection is not logged in.

A read may bring several messages. Where one of them ends the daemon, only its main loop ends: those
behind it in the same read are taken all the same.

* `step`: the daemon as a machine over reads and their messages; what follows the login test is a
  parameter.
* `Barred`: what a connection that is not logged in is to achieve: nothing, and a refused `INI` ends
  the daemon.
* `step_barred_iff`, `run_barred_iff` — **it achieves nothing** just when it sends no `GID` that is
  new to the table or brings a cookie, no `PUT` that gives the user a new property, and no `INI` of
  another version with a good cookie.
* `gid_before_login`: a table entry without a login.
-/

import Gebr.Comm.JobStatus
import Gebr.Comm.Protocol
import Gebr.Lib.Numerals
import Gebr.Lib.Run
import Mathlib.Data.Int.Notation
import Mathlib.Logic.Function.Basic

namespace Gebr.Daemon.Client

open Gebr.Comm
open Gebr.Lib
open Gebr.Lib.CString
open Gebr.Lib.Numerals (printInt)

section Model

/-- The properties of `GebrdUser`; only the first one can be written. -/
inductive UserProperty where
  | fsNickname
  | sysLoad
  deriving DecidableEq, Repr

/-- What does not change: the version of the protocol, whether the daemon serves MOAB, how many MPI
configurations it has, what `gebr_comm_protocol_split_new` finds in a size that it cannot read, how
GObject looks a property up, and how a JSON content gives a text. -/
structure Settings where
  version : Bytes
  moab : Bool
  mpiFlavors : ℕ
  stale : ℕ
  property : Bytes → Option UserProperty
  value : Bytes → Option Bytes

/-- A job of the daemon, by its run. -/
structure Task where
  runId : Bytes
  status : JobStatus
  deriving DecidableEq, Repr

/-- What outlives a message: the jobs, the table of displays by client, what `xauth` was asked to
add, the nickname of the file system and the one that was saved, the lines of `authorized_cookies`,
and what only the messages after the login touch. -/
@[ext] structure Kept (σ : Type) where
  jobs : List Task
  displayPorts : Bytes → Option Bytes
  xauthority : List (Bytes × Bytes)
  fsNickname : Bytes
  userData : Option Bytes
  authorized : List Bytes
  rest : σ

/-- What the daemon sends. -/
inductive Reply where
  | err (kind text : Bytes)
  | retIni
  | response
  | served (code : Bytes)
  deriving DecidableEq, Repr

/-- The daemon with its connection. `uses` counts how often the log and the MPI configurations were
used, which a quit frees. -/
structure Gebrd (σ : Type) where
  kept : Kept σ
  logged : Bool
  hostname : Bytes
  gebrCookie : Option Bytes
  replies : List Reply
  quit : Bool
  uses : ℕ

/-- What comes in on the connection. -/
inductive Message where
  /-- An old message, by its code. -/
  | old (code argument : Bytes)
  | request (method : GebrCommHttpRequestMethod) (url content : Bytes)
  deriving DecidableEq, Repr

variable {σ : Type}

/-- A daemon that has just been started, with its connection. -/
def gebrdNew (fsNickname : Bytes) (userData : Option Bytes) (authorized : List Bytes) (rest : σ) :
    Gebrd σ where
  kept := ⟨[], fun _ => none, [], fsNickname, userData, authorized, rest⟩
  logged := false
  hostname := []
  gebrCookie := none
  replies := []
  quit := false
  uses := 0

def Gebrd.reply (reply : Reply) (self : Gebrd σ) : Gebrd σ :=
  { self with replies := self.replies ++ [reply] }

/-- `gebrd_quit`, which writes to the log, reports the failure of each job, and quits the main
loop. -/
def gebrdQuit (self : Gebrd σ) : Gebrd σ :=
  { self with
    kept := { self.kept with jobs := self.kept.jobs.map fun task => { task with status := .failed } }
    quit := true
    uses := self.uses + 1 }

/-- `client_disconnected`. -/
def clientDisconnected (self : Gebrd σ) : Gebrd σ := gebrdQuit self

/-- `gebr_auth_accepts`, with `gebr_auth_remove_cookie`. -/
def gebrAuthAccepts (cookie : Bytes) (authorized : List Bytes) : Bool × List Bytes :=
  if cookie ∈ authorized then (true, authorized.filter fun line => line ≠ cookie)
  else (false, authorized)

/-- `display_port`: the port of the forward gives the display, as the `int` that is printed. -/
def displayPort (port : Bytes) : ℤ := ((atoi port : ℤ) - 6000).bmod (2 ^ 32)

/-- `%s:%d` of the host and the display. -/
def displayText (displayHost port : Bytes) : Bytes := displayHost ++ 58 :: printInt (displayPort port)

/-- The branch of `INI`. -/
def onIni (settings : Settings) (argument : Bytes) (self : Gebrd σ) : Gebrd σ :=
  match gebrCommProtocolSplitNew settings.stale 3 argument with
  | some [version, hostname, gebrCookie] =>
    let (accepted, authorized) := gebrAuthAccepts gebrCookie self.kept.authorized
    let self := { self with kept := { self.kept with authorized := authorized } }
    if accepted = false then clientDisconnected (self.reply (.err (ascii "cookie") gebrCookie))
    else if version ≠ settings.version then
      clientDisconnected (self.reply (.err (ascii "protocol") settings.version))
    else
      { self with
        logged := true, hostname := hostname, gebrCookie := some gebrCookie
        uses := self.uses + settings.mpiFlavors }.reply .retIni
  | _ => clientDisconnected self

/-- The branch of `GID`. -/
def onGid (settings : Settings) (argument : Bytes) (self : Gebrd σ) : Gebrd σ :=
  match gebrCommProtocolSplitNew settings.stale 4 argument with
  | some [gid, cookie, displayHost, dispStr] =>
    let displayPorts :=
      Function.update self.kept.displayPorts gid (some (displayText displayHost dispStr))
    -- `run_xauth_command` writes to the log.
    let (xauthority, uses) :=
      if cookie ≠ [] ∧ settings.moab = false then
        (self.kept.xauthority ++ [(58 :: printInt (displayPort dispStr), cookie)], self.uses + 1)
      else (self.kept.xauthority, self.uses)
    { self with
      kept := { self.kept with displayPorts := displayPorts, xauthority := xauthority }
      uses := uses }
  | _ => clientDisconnected self

/-- `client_old_parse_messages` on one message. `serve` are the branches after the login test. -/
def clientOldParseMessage (settings : Settings)
    (serve : Bytes → Bytes → Kept σ → Kept σ × List Reply × Bool) (code argument : Bytes)
    (self : Gebrd σ) : Gebrd σ :=
  if code = ascii "INI" then onIni settings argument self
  else if code = ascii "GID" then onGid settings argument self
  else if self.logged = false then clientDisconnected self
  else
    let (kept, replies, quit) := serve code argument self.kept
    { self with kept := kept, replies := self.replies ++ replies, quit := self.quit || quit }

/-- `gebrd_user_set_property`, for a property that can be written. -/
def gebrdUserSetProperty (property : UserProperty) (value : Bytes) (kept : Kept σ) : Kept σ :=
  match property with
  | .fsNickname => { kept with fsNickname := value, userData := some value }
  | .sysLoad => kept

/-- `gebr_comm_json_content_to_property`. -/
def gebrCommJsonContentToProperty (settings : Settings) (content property : Bytes) (kept : Kept σ) :
    Kept σ :=
  match settings.property property with
  | none => kept
  | some property =>
    match settings.value content with
    | none => kept
    | some value => gebrdUserSetProperty property value kept

/-- `client_process_request`. -/
def clientProcessRequest (settings : Settings) (method : GebrCommHttpRequestMethod)
    (url content : Bytes) (self : Gebrd σ) : Gebrd σ :=
  match url with
  | 47 :: property =>
    match method with
    | .get => self.reply .response
    | .put =>
      let kept := gebrCommJsonContentToProperty settings content property self.kept
      { self with kept := kept }.reply .response
    | _ => self
  | _ => self

/-- What is done with one message. -/
def dispatch (settings : Settings) (serve : Bytes → Bytes → Kept σ → Kept σ × List Reply × Bool)
    (self : Gebrd σ) : Message → Gebrd σ
  | .old code argument => clientOldParseMessage settings serve code argument self
  | .request method url content => clientProcessRequest settings method url content self

/-- What happens: the connection is read, and a message of what was read is taken. -/
inductive Event where
  | read
  | message (message : Message)
  deriving DecidableEq, Repr

/-- **One event.** After a quit nothing is read any more, but the messages that were read before are
taken. What they do with the log or the MPI configurations then is done with freed memory, and the
run ends. -/
def step (settings : Settings) (serve : Bytes → Bytes → Kept σ → Kept σ × List Reply × Bool)
    (self : Gebrd σ) : Event → Option (Gebrd σ)
  | .read => if self.quit = true then none else some self
  | .message message =>
    if self.quit = true ∧ (dispatch settings serve self message).uses ≠ self.uses then none
    else some (dispatch settings serve self message)

end Model

section Property

variable {σ : Type} (settings : Settings)

/-- The message logs the connection in: an `INI` with the right version and an authorised cookie. -/
def Welcomes (self : Gebrd σ) (message : Message) : Prop :=
  ∃ argument version hostname cookie, message = .old (ascii "INI") argument ∧
    gebrCommProtocolSplitNew settings.stale 3 argument = some [version, hostname, cookie] ∧
    cookie ∈ self.kept.authorized ∧ version = settings.version

/-- **Before the login nothing changes**, and an `INI` that does not log in ends the daemon. -/
def Barred (self : Gebrd σ) (message : Message) (next : Gebrd σ) : Prop :=
  self.logged = false → ¬ Welcomes settings self message →
    next.kept = self.kept ∧ next.logged = false ∧
      ∀ argument, message = .old (ascii "INI") argument → next.quit = true

/-- The `INI` is not one of another version with an authorised cookie, which is used up. -/
def IniHarmless (self : Gebrd σ) (argument : Bytes) : Prop :=
  ∀ version hostname cookie,
    gebrCommProtocolSplitNew settings.stale 3 argument = some [version, hostname, cookie] →
      cookie ∈ self.kept.authorized → version = settings.version

/-- The `GID` is malformed, or says what the table has, with no cookie for `xauth`. -/
def GidHarmless (self : Gebrd σ) (argument : Bytes) : Prop :=
  ∀ gid cookie displayHost port,
    gebrCommProtocolSplitNew settings.stale 4 argument = some [gid, cookie, displayHost, port] →
      self.kept.displayPorts gid = some (displayText displayHost port) ∧
        ¬ (cookie ≠ [] ∧ settings.moab = false)

/-- The request gives the user no new nickname. -/
def RequestHarmless (self : Gebrd σ) (method : GebrCommHttpRequestMethod) (url content : Bytes) :
    Prop :=
  method = .put → ∀ property value, url = 47 :: property →
    settings.property property = some .fsNickname → settings.value content = some value →
      self.kept.fsNickname = value ∧ self.kept.userData = some value

/-- **A message that leaves the daemon alone** when the connection is not logged in. -/
def Harmless (self : Gebrd σ) : Message → Prop
  | .old code argument => (code = ascii "INI" → IniHarmless settings self argument) ∧
      (code = ascii "GID" → GidHarmless settings self argument)
  | .request method url content => RequestHarmless settings self method url content

end Property

section Step

variable {σ : Type} {settings : Settings} {self next : Gebrd σ}
  {serve : Bytes → Bytes → Kept σ → Kept σ × List Reply × Bool}

/-- A daemon without jobs quits without a trace. -/
theorem kept_quit (idle : self.kept.jobs = []) : (gebrdQuit self).kept = self.kept := by
  apply Kept.ext
  · show self.kept.jobs.map _ = self.kept.jobs
    rw [idle]
    rfl
  all_goals rfl

/-- **The branch of `INI`**: a good one logs in, another one ends the daemon, and only the cookie of
one with another version is used up. -/
theorem ini_barred_iff (idle : self.kept.jobs = []) (unlogged : self.logged = false)
    (argument : Bytes) :
    Barred settings self (.old (ascii "INI") argument) (onIni settings argument self) ↔
      IniHarmless settings self argument := by
  unfold Barred IniHarmless onIni
  cases split : gebrCommProtocolSplitNew settings.stale 3 argument with
  | none =>
    refine iff_of_true (fun _ _ => ⟨kept_quit idle, unlogged, fun _ _ => rfl⟩) ?_
    rintro version hostname cookie ⟨⟩
  | some arguments =>
    obtain ⟨version, hostname, cookie, rfl⟩ := List.length_eq_three.1 (splitNew_length split)
    dsimp only
    by_cases accepted : cookie ∈ self.kept.authorized
    · rw [gebrAuthAccepts, if_pos accepted]
      dsimp only
      rw [if_neg (by decide)]
      by_cases right : version = settings.version
      · refine iff_of_true (fun _ stranger => ?_) ?_
        · exact absurd ⟨argument, version, hostname, cookie, rfl, split, accepted, right⟩ stranger
        · rintro _ _ _ ⟨⟩ -
          exact right
      · rw [if_pos right]
        refine iff_of_false (fun barred => ?_) fun harmless => ?_
        · have stranger : ¬ Welcomes settings self (.old (ascii "INI") argument) := by
            rintro ⟨other, version', hostname', cookie', same, split', -, right'⟩
            obtain rfl := (Message.old.inj same).2
            rw [split] at split'
            cases split'
            exact right right'
          have same := congrArg Kept.authorized (barred unlogged stranger).1
          have same' : self.kept.authorized.filter (fun line => line ≠ cookie) =
              self.kept.authorized := same
          have absent := same' ▸ accepted
          rw [List.mem_filter] at absent
          exact of_decide_eq_true absent.2 rfl
        · exact right (harmless version hostname cookie rfl accepted)
    · rw [gebrAuthAccepts, if_neg accepted]
      dsimp only
      rw [if_pos rfl]
      refine iff_of_true (fun _ _ => ⟨?_, unlogged, fun _ _ => rfl⟩) ?_
      · refine kept_quit ?_
        exact idle
      · rintro _ _ _ ⟨⟩ member
        exact absurd member accepted

/-- **The branch of `GID`**: it is not behind the login. -/
theorem gid_barred_iff (idle : self.kept.jobs = []) (unlogged : self.logged = false)
    (argument : Bytes) :
    Barred settings self (.old (ascii "GID") argument) (onGid settings argument self) ↔
      GidHarmless settings self argument := by
  have stranger : ¬ Welcomes settings self (.old (ascii "GID") argument) := by
    rintro ⟨other, _, _, _, same, -⟩
    exact absurd (Message.old.inj same).1 (by decide)
  have noIni : ∀ {next : Gebrd σ} other, .old (ascii "GID") argument =
      Message.old (ascii "INI") other → next.quit = true := by
    intro next other same
    exact absurd (Message.old.inj same).1 (by decide)
  unfold Barred GidHarmless onGid
  cases split : gebrCommProtocolSplitNew settings.stale 4 argument with
  | none =>
    refine iff_of_true (fun _ _ => ⟨kept_quit idle, unlogged, noIni⟩) ?_
    rintro gid cookie displayHost port ⟨⟩
  | some arguments =>
    have length := splitNew_length split
    obtain ⟨gid, arguments, rfl⟩ := List.exists_cons_of_length_eq_add_one length
    obtain ⟨cookie, displayHost, port, rfl⟩ :=
      List.length_eq_three.1 (Nat.succ.inj ((List.length_cons).symm.trans length))
    dsimp only
    constructor
    · rintro barred _ _ _ _ ⟨⟩
      have same := (barred unlogged stranger).1
      have table := congrFun (congrArg Kept.displayPorts same) gid
      have table' : Function.update self.kept.displayPorts gid (some (displayText displayHost port))
          gid = self.kept.displayPorts gid := table
      rw [Function.update_self] at table'
      refine ⟨table'.symm, fun asks => ?_⟩
      have added := congrArg Kept.xauthority same
      dsimp only at added
      rw [if_pos asks] at added
      exact absurd added (by simp)
    · intro harmless _ _
      obtain ⟨there, quiet⟩ := harmless gid cookie displayHost port rfl
      refine ⟨?_, unlogged, noIni⟩
      rw [if_neg quiet]
      dsimp only
      rw [← there, Function.update_eq_self]

/-- **Writing a property**: only a new nickname is a change. -/
theorem property_kept_iff {kept : Kept σ} (property content : Bytes) :
    gebrCommJsonContentToProperty settings content property kept = kept ↔
      (GebrCommHttpRequestMethod.put = .put → ∀ name value, 47 :: property = 47 :: name →
        settings.property name = some .fsNickname → settings.value content = some value →
          kept.fsNickname = value ∧ kept.userData = some value) := by
  unfold gebrCommJsonContentToProperty
  constructor
  · rintro same - name value ⟨⟩ found text
    rw [found, text] at same
    exact ⟨(congrArg Kept.fsNickname same).symm, (congrArg Kept.userData same).symm⟩
  · intro harmless
    cases found : settings.property property with
    | none => rfl
    | some user =>
      cases text : settings.value content with
      | none => rfl
      | some value =>
        cases user with
        | sysLoad => rfl
        | fsNickname =>
          obtain ⟨nickname, saved⟩ := harmless rfl property value rfl found text
          show ({ kept with fsNickname := value, userData := some value } : Kept σ) = kept
          rw [← saved, ← nickname]

/-- **A request** is not behind the login either. -/
theorem request_barred_iff (unlogged : self.logged = false) (method : GebrCommHttpRequestMethod)
    (url content : Bytes) :
    Barred settings self (.request method url content)
        (clientProcessRequest settings method url content self) ↔
      RequestHarmless settings self method url content := by
  have stranger : ¬ Welcomes settings self (.request method url content) := by
    rintro ⟨_, _, _, _, same, -⟩
    cases same
  have noIni : ∀ {next : Gebrd σ} other,
      .request method url content = Message.old (ascii "INI") other → next.quit = true := by
    rintro next other ⟨⟩
  have barred_iff : ∀ next : Gebrd σ, next.logged = false →
      (Barred settings self (.request method url content) next ↔ next.kept = self.kept) := by
    intro next still
    exact ⟨fun barred => (barred unlogged stranger).1, fun same _ _ => ⟨same, still, noIni⟩⟩
  unfold clientProcessRequest RequestHarmless
  split
  · rename_i property
    split
    · refine iff_of_true ((barred_iff _ unlogged).2 rfl) ?_
      rintro ⟨⟩
    · refine (barred_iff _ ?_).trans ?_
      · exact unlogged
      · exact property_kept_iff property content
    · rename_i other
      exact iff_of_true ((barred_iff _ unlogged).2 rfl) fun put => absurd put other
  · rename_i plain
    exact iff_of_true ((barred_iff _ unlogged).2 rfl) fun _ property _ same =>
      absurd same (plain property)

theorem dispatched {message : Message}
    (taken : step settings serve self (.message message) = some next) :
    dispatch settings serve self message = next := by
  unfold step at taken
  dsimp only at taken
  split at taken
  · cases taken
  · exact Option.some.inj taken

/-- **One step**: what comes in before the login is barred just when it is harmless. -/
theorem step_barred_iff (idle : self.logged = false → self.kept.jobs = []) {message : Message}
    (taken : step settings serve self (.message message) = some next) :
    Barred settings self message next ↔
      (self.logged = false → Harmless settings self message) := by
  by_cases unlogged : self.logged = false
  · refine Iff.trans ?_ (forall_prop_of_true unlogged).symm
    obtain rfl := dispatched taken
    cases message with
    | old code argument =>
      unfold dispatch clientOldParseMessage Harmless
      by_cases ini : code = ascii "INI"
      · subst ini
        dsimp only
        rw [if_pos rfl]
        refine (ini_barred_iff (idle unlogged) unlogged argument).trans ?_
        refine ⟨fun harmless => ⟨fun _ => harmless, fun gid => ?_⟩, fun harmless => harmless.1 rfl⟩
        exact absurd gid (by decide)
      · by_cases gid : code = ascii "GID"
        · subst gid
          dsimp only
          rw [if_neg (by decide), if_pos rfl]
          refine (gid_barred_iff (idle unlogged) unlogged argument).trans ?_
          refine ⟨fun harmless => ⟨fun ini => ?_, fun _ => harmless⟩, fun harmless => harmless.2 rfl⟩
          exact absurd ini (by decide)
        · -- every other code meets the login test
          dsimp only
          rw [if_neg ini, if_neg gid, if_pos unlogged]
          refine iff_of_true (fun _ _ => ⟨kept_quit (idle unlogged), unlogged, ?_⟩) ?_
          · exact fun _ _ => rfl
          · exact ⟨fun same => absurd same ini, fun same => absurd same gid⟩
    | request method url content => exact request_barred_iff unlogged method url content
  · exact iff_of_true (fun unlogged' => absurd unlogged' unlogged)
      fun unlogged' => absurd unlogged' unlogged

theorem logged_stays (message : Message) (logged : self.logged = true) :
    (dispatch settings serve self message).logged = true := by
  cases message with
  | old code argument =>
    unfold dispatch clientOldParseMessage
    dsimp only
    split
    · unfold onIni
      split
      · dsimp only
        split
        · exact logged
        · split
          · exact logged
          · rfl
      · exact logged
    · split
      · unfold onGid
        split <;> exact logged
      · split <;> exact logged
  | request method url content =>
    unfold dispatch clientProcessRequest
    dsimp only
    split
    · split <;> exact logged
    · exact logged

/-- Only a welcome logs a connection in, so that a barred step keeps the daemon without jobs. -/
theorem idle_of_barred (idle : self.logged = false → self.kept.jobs = []) {message : Message}
    (taken : step settings serve self (.message message) = some next)
    (barred : Barred settings self message next) :
    next.logged = false → next.kept.jobs = [] := by
  intro unlogged
  by_cases before : self.logged = false
  · by_cases welcome : Welcomes settings self message
    · obtain ⟨argument, version, hostname, cookie, rfl, split, authorized, right⟩ := welcome
      rw [← dispatched taken] at unlogged
      unfold dispatch clientOldParseMessage onIni at unlogged
      dsimp only at unlogged
      rw [if_pos rfl, split] at unlogged
      dsimp only at unlogged
      rw [gebrAuthAccepts, if_pos authorized] at unlogged
      dsimp only at unlogged
      rw [if_neg (by decide), if_neg (not_not.2 right)] at unlogged
      cases unlogged
    · rw [(barred before welcome).1]
      exact idle before
  · -- the connection stays logged in
    rw [Bool.not_eq_false] at before
    rw [← dispatched taken, logged_stays message before] at unlogged
    cases unlogged

end Step

section Run

variable {σ : Type} {settings : Settings}
  {serve : Bytes → Bytes → Kept σ → Kept σ × List Reply × Bool}

/-- A daemon of version `1.0`, whose user has a nickname, and to whom a content is a text as it
is. -/
def settingsExample : Settings :=
  ⟨ascii "1.0", false, 0, 0, fun name => if name = ascii "fs-nickname" then
    some .fsNickname else none, some⟩

/-- A client `m`, no cookie for `xauth`, a host `h` and the port `6010`. -/
def gidExample : Bytes := ascii "1|m 0| 1|h 4|6010"

/-- Nothing is served. -/
def serveNothing (_ _ : Bytes) (kept : Kept Unit) : Kept Unit × List Reply × Bool := (kept, [], false)

/-- **A nickname in the read that ends the daemon**: the first message is refused, and the next one
of the same read is taken. -/
example : (Run.run (step settingsExample serveNothing) (gebrdNew (ascii "fs") none [ascii "cookie"] ())
    [.read, .message (.old (ascii "LST") []),
      .message (.request .put (ascii "/fs-nickname") (ascii "evil"))]).map
        (fun next => (next.quit, next.kept.fsNickname)) = some (true, ascii "evil") := by
  decide +kernel

end Run

end Gebr.Daemon.Client
