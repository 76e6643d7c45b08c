/-
**The proxy relays the messages of the remote maestro as they are.**

The proxy decodes each message and builds it again for its client. It keeps to itself the answer to
the `SFTP` request, for which it sets up a tunnel.

* `gebrmProxyServerOpParseMessages`: the messages that wait, the oldest one first.
* `resend_received`: a message that was built and decoded is built again byte for byte.
* `gebrmProxyRun_relays`: whatever the reads are, the client gets the messages, but for those
  answers.
-/

import Gebr.Comm.ProtocolDrain
import Gebr.Comm.ProtocolParams

namespace Gebr.Maestro

open Gebr.Lib.CString Gebr.Comm

section Model

/-- `GebrmProxy`: the two connections, what was sent to the client, and the ports a tunnel was set
up to. `freed` is whether the oldest message is freed and still linked; to read it is `crashed`. -/
structure GebrmProxy where
  clientConnected : Bool
  maestroConnected : Bool
  sent : Bytes
  ports : List ℕ
  freed : Bool
  crashed : Bool
  deriving DecidableEq, Repr

/-- Whether the code that a `RET` answers is the one of `SFTP`; `junk` is what a `ret_hash` holds
that was not written. -/
def sftpReturned (junk : ℕ) (message : GebrCommMessage) : Bool :=
  message.hash = gStrHash retCode && message.retHash.getD junk = gStrHash sftpCode

/-- The loop of `gebrm_proxy_server_op_parse_messages`, on the messages from the oldest one on: what
is left of them, and the proxy. -/
def parseMessages (junk stale : ℕ) :
    Bool → List GebrCommMessage → GebrmProxy → List GebrCommMessage × GebrmProxy
  | _, [], proxy => ([], proxy)
  | resendMessage, message :: rest, proxy =>
    if sftpReturned junk message then
      match gebrCommProtocolSplitNew stale 1 message.argument with
      | none => (message :: rest, { proxy with maestroConnected := false, freed := true })
      | some arguments =>
        let remotePort := atoi (arguments.head?.getD [])
        parseMessages junk stale false rest { proxy with ports := proxy.ports ++ [remotePort] }
    else if resendMessage ∧ proxy.clientConnected then
      match gebrCommProtocolSocketResendMessage junk message with
      | none => (message :: rest, { proxy with crashed := true })
      | some bytes =>
        parseMessages junk stale resendMessage rest { proxy with sent := proxy.sent ++ bytes }
    else parseMessages junk stale resendMessage rest proxy

/-- `proxy_ops`: only the old messages are heeded. -/
def proxyOps (junk stale : ℕ) : Handler GebrmProxy
  | .oldParseMessages, (socket, proxy) =>
    if proxy.freed then (socket, { proxy with crashed := true })
    else
      let (left, proxy) := parseMessages junk stale true socket.protocol.messages.reverse proxy
      ({ socket with protocol := { socket.protocol with messages := left.reverse } }, proxy)
  | _, self => self

/-- The reads from the maestro, as long as it is connected. -/
def gebrmProxyRun (junk stale : ℕ) :
    GebrCommProtocolSocket × GebrmProxy → List Bytes → Option (GebrCommProtocolSocket × GebrmProxy)
  | self, [] => some self
  | self, data :: reads =>
    if self.2.maestroConnected = false then some self
    else
      (gebrCommProtocolSocketRead (proxyOps junk stale) self data).bind fun self =>
        gebrmProxyRun junk stale self reads

end Model

section Messages

variable (junk stale : ℕ)

/-- The answer to the `SFTP` request. -/
def isSftpReturn (m : OldMessage) : Bool := m.isReturn && m.code = sftpCode

/-- The code of a plain message is not `RET`, and the answer to the `SFTP` request has a port. -/
structure Relayable (m : OldMessage) : Prop where
  code : m.isReturn = false → m.code ≠ retCode
  port : isSftpReturn m = true → m.params ≠ []

variable {m : OldMessage}

/-- **A message that was built and decoded is built again byte for byte.** -/
theorem resend_received (code : m.isReturn = false → m.code ≠ retCode) :
    gebrCommProtocolSocketResendMessage junk m.received = some m.toBytes := by
  have ret := retCode_registered
  rw [m.toBytes_eq]
  unfold gebrCommProtocolSocketResendMessage OldMessage.received OldMessage.head OldMessage.size
  by_cases returns : m.isReturn = false
  · have other : gStrHash m.code ≠ gStrHash retCode :=
      fun same => code returns (hash_injective m.known ret same)
    simp only [if_pos returns, codeOfHash_hash m.known, if_pos other]
    simp only [List.append_assoc, List.cons_append]
  · simp only [if_neg returns, codeOfHash_hash ret, ne_eq, not_true_eq_false, if_false,
      Option.getD_some, codeOfHash_hash m.known]
    simp only [List.append_assoc, List.cons_append]

theorem sftpReturned_received (code : m.isReturn = false → m.code ≠ retCode) :
    sftpReturned junk m.received = isSftpReturn m := by
  have sftp : sftpCode ∈ registered := by decide
  unfold sftpReturned isSftpReturn OldMessage.received
  by_cases returns : m.isReturn = false
  · have other : gStrHash m.code ≠ gStrHash retCode :=
      fun same => code returns (hash_injective m.known retCode_registered same)
    simp only [returns, if_true, decide_eq_false other, Bool.false_and]
  · have same : gStrHash m.code = gStrHash sftpCode ↔ m.code = sftpCode :=
      ⟨hash_injective m.known sftp, fun same => by rw [same]⟩
    simp only [Bool.eq_true_of_not_eq_false returns, Bool.true_eq_false, if_false, Option.getD_some,
      same, decide_true, Bool.true_and]

theorem splitNew_first {params : List (Option Bytes)} (some_param : params ≠ []) :
    ∃ param, gebrCommProtocolSplitNew stale 1 (joinParams params) = some [param] := by
  obtain ⟨first, others, rfl⟩ := List.exists_cons_of_ne_nil some_param
  obtain ⟨rest, shape⟩ : ∃ rest, joinParams (first :: others) =
      decimal (first.getD []).length ++ 124 :: (first.getD [] ++ rest) := by
    cases others with
    | nil => exact ⟨[], by rw [List.append_nil]; rfl⟩
    | cons next others =>
      refine ⟨32 :: joinParams (next :: others), ?_⟩
      show decimal _ ++ 124 :: first.getD [] ++ 32 :: joinParams (next :: others) = _
      rw [List.append_assoc, List.cons_append]
  have fits : ¬ (first.getD [] ++ rest).length < (first.getD []).length := by
    rw [List.length_append]
    omega
  refine ⟨first.getD [], ?_⟩
  rw [shape, splitNew_sized, if_neg fits, if_pos rfl, List.take_left]

/-- What the proxy does with a message. -/
def relay (proxy : GebrmProxy) (message : GebrCommMessage) : GebrmProxy :=
  (parseMessages junk stale true [message] proxy).2

/-- Nothing stands in the way of a message. -/
structure Ready (proxy : GebrmProxy) : Prop where
  client : proxy.clientConnected = true
  maestro : proxy.maestroConnected = true
  linked : proxy.freed = false

variable {proxy : GebrmProxy}

theorem parseMessages_received (fine : Relayable m) (ready : Ready proxy) :
    ∃ asked, parseMessages junk stale true [m.received] proxy =
      ([], { proxy with
        sent := proxy.sent ++ if isSftpReturn m then [] else m.toBytes
        ports := proxy.ports ++ asked }) := by
  unfold parseMessages
  rw [sftpReturned_received junk fine.code]
  by_cases kept : isSftpReturn m = true
  · obtain ⟨port, split⟩ := splitNew_first stale (fine.port kept)
    rw [if_pos kept, show m.received.argument = joinParams m.params from rfl, split]
    simp only [kept, if_true, List.append_nil, parseMessages]
    exact ⟨_, rfl⟩
  · rw [if_neg kept, if_pos ⟨rfl, ready.client⟩, resend_received junk fine.code]
    simp only [if_neg kept, parseMessages]
    exact ⟨[], by rw [List.append_nil]⟩

theorem relay_received (fine : Relayable m) (ready : Ready proxy) :
    ∃ asked, relay junk stale proxy m.received =
      { proxy with
        sent := proxy.sent ++ if isSftpReturn m then [] else m.toBytes
        ports := proxy.ports ++ asked } := by
  obtain ⟨asked, same⟩ := parseMessages_received junk stale fine ready
  exact ⟨asked, by rw [relay, same]⟩

/-- The proxy takes each message as it comes. -/
theorem proxyOps_drains :
    Drains (proxyOps junk stale) Ready (fun message => ∃ m, Relayable m ∧ message = m.received)
      (relay junk stale) where
  idle := by
    intro signal other self
    cases signal with
    | oldParseMessages => exact absurd rfl other
    | processRequest request => rfl
    | processResponse request response => rfl
    | responseReceived request response => rfl
  none := by
    intro self proxy ready
    unfold proxyOps
    simp only [ready.linked, Bool.false_eq_true, if_false]
    rfl
  one := by
    intro self proxy message ready fine queue
    obtain ⟨m, fine, rfl⟩ := fine
    obtain ⟨asked, same⟩ := parseMessages_received junk stale fine ready
    unfold proxyOps relay
    simp only [ready.linked, Bool.false_eq_true, if_false, queue, List.reverse_singleton, same]
    rfl
  keeps := by
    intro proxy message ready fine
    obtain ⟨m, fine, rfl⟩ := fine
    obtain ⟨asked, same⟩ := relay_received junk stale fine ready
    rw [same]
    exact ⟨ready.client, ready.maestro, ready.linked⟩

end Messages

section Runs

variable (junk stale : ℕ)

/-- The reads from the maestro hand over the messages that would be queued. -/
theorem gebrmProxyRun_drains {reads : List Bytes} {start final : GebrCommProtocolSocket}
    {proxy : GebrmProxy} (ready : Ready proxy)
    (quietly : readAll quiet (start, ()) reads = some (final, ()))
    (all : ∀ message ∈ final.protocol.messages, ∃ m, Relayable m ∧ message = m.received) :
    ∃ fresh, final.protocol.messages = fresh ++ start.protocol.messages ∧
      gebrmProxyRun junk stale (drained start, proxy) reads =
        some (drained final, fresh.reverse.foldl (relay junk stale) proxy) := by
  have drains := proxyOps_drains junk stale
  induction reads generalizing start proxy with
  | nil =>
    obtain rfl := (Prod.mk.inj (Option.some.inj quietly)).1
    exact ⟨[], rfl, rfl⟩
  | cons data reads ih =>
    rw [readAll] at quietly
    obtain ⟨⟨middle, _⟩, first, rest⟩ := Option.bind_eq_some_iff.1 quietly
    have tail := drains.reads ready rest all
    obtain ⟨after, grown, -⟩ := tail
    have single : readAll quiet (start, ()) [data] = some (middle, ()) := by
      rw [readAll, first]
      rfl
    obtain ⟨fresh, queue, ready', handed⟩ := drains.reads ready single
      fun message member => all message (grown ▸ List.mem_append_right after member)
    obtain ⟨more, queue', run⟩ := ih ready' rest
    refine ⟨more ++ fresh, by rw [queue', queue, List.append_assoc], ?_⟩
    rw [gebrmProxyRun, if_neg (by rw [ready.maestro]; decide), List.reverse_append, List.foldl_append,
      ← run]
    rw [readAll] at handed
    obtain ⟨next, read, last⟩ := Option.bind_eq_some_iff.1 handed
    obtain rfl := Option.some.inj last
    rw [read]
    rfl

theorem relay_all {msgs : List OldMessage} {proxy : GebrmProxy} (fine : ∀ m ∈ msgs, Relayable m)
    (ready : Ready proxy) :
    ∃ asked, (msgs.map OldMessage.received).foldl (relay junk stale) proxy =
      { proxy with
        sent := proxy.sent ++ stream (msgs.filter fun m => !isSftpReturn m)
        ports := asked } := by
  induction msgs generalizing proxy with
  | nil => exact ⟨proxy.ports, by rw [List.filter_nil, stream_nil, List.append_nil]; rfl⟩
  | cons m msgs ih =>
    obtain ⟨asked, same⟩ := relay_received junk stale (fine m List.mem_cons_self) ready
    rw [List.map_cons, List.foldl_cons, same]
    obtain ⟨asked', rest⟩ := ih (fun other member => fine other (List.mem_cons_of_mem m member))
      (show Ready { proxy with
        sent := proxy.sent ++ if isSftpReturn m then [] else m.toBytes
        ports := proxy.ports ++ asked } from ⟨ready.client, ready.maestro, ready.linked⟩)
    have text : (if isSftpReturn m then [] else m.toBytes) ++
        stream (msgs.filter fun m => !isSftpReturn m) =
          stream ((m :: msgs).filter fun m => !isSftpReturn m) := by
      rw [List.filter_cons]
      cases isSftpReturn m with
      | false => rfl
      | true => rfl
    refine ⟨asked', ?_⟩
    rw [rest, ← text, ← List.append_assoc]

/-- **The client gets the messages that the proxy receives**, byte for byte and in order, and
nothing else, but for the answers to the `SFTP` request. -/
theorem gebrmProxyRun_relays {reads : List Bytes} {msgs : List OldMessage} (received : Decodes reads msgs)
    (fine : ∀ m ∈ msgs, Relayable m) {proxy : GebrmProxy} (ready : Ready proxy) :
    (∃ asked, gebrmProxyRun junk stale (gebrCommProtocolSocketNew, proxy) reads =
      some (gebrCommProtocolSocketNew, { proxy with
        sent := proxy.sent ++ stream (msgs.filter fun m => !isSftpReturn m)
        ports := asked })) ∧
      ∀ m ∈ msgs, gebrCommProtocolSocketResendMessage junk m.received = some m.toBytes := by
  constructor
  · have all : ∀ message ∈ (queued msgs).protocol.messages, ∃ m, Relayable m ∧ message = m.received := by
      intro message member
      obtain ⟨m, member', rfl⟩ := List.mem_map.1 (List.mem_reverse.1 member)
      exact ⟨m, fine m member', rfl⟩
    obtain ⟨fresh, queue, run⟩ := gebrmProxyRun_drains junk stale ready received all
    have same : fresh = (msgs.map OldMessage.received).reverse := by
      rw [show gebrCommProtocolSocketNew.protocol.messages = [] from rfl, List.append_nil] at queue
      exact queue.symm
    obtain ⟨asked, relayed⟩ := relay_all junk stale fine ready
    refine ⟨asked, ?_⟩
    rw [same, List.reverse_reverse, relayed] at run
    exact run
  · exact fun m member => resend_received junk (fine m member).code

/-- The answer to the `SFTP` request, with a port. -/
def sftpReturn : OldMessage where
  code := sftpCode
  isReturn := true
  params := [some (ascii "22")]
  known := by decide
  fits := by decide

/-- An answer to `RUN`. -/
def runReturn : OldMessage where
  code := ascii "RUN"
  isReturn := true
  params := [some (ascii "ok")]
  known := by decide
  fits := by decide

def proxyStart : GebrmProxy := ⟨true, true, [], [], false, false⟩

/-- The answer to `RUN` is relayed, between two others that are not. -/
theorem gebrmProxyRun_relays_answers :
    (∃ asked, gebrmProxyRun 0 0 (gebrCommProtocolSocketNew, proxyStart)
        [sftpReturn.toBytes ++ runReturn.toBytes, sftpReturn.toBytes] =
      some (gebrCommProtocolSocketNew, { proxyStart with
        sent := proxyStart.sent ++
          stream ([sftpReturn, runReturn, sftpReturn].filter fun m => !isSftpReturn m)
        ports := asked })) ∧
      ∀ m ∈ [sftpReturn, runReturn, sftpReturn],
        gebrCommProtocolSocketResendMessage 0 m.received = some m.toBytes := by
  have fine : ∀ m ∈ [sftpReturn, runReturn, sftpReturn], Relayable m := by
    intro m member
    rcases List.mem_cons.1 member with rfl | member
    · exact ⟨by decide, by decide⟩
    · rcases List.mem_cons.1 member with rfl | member
      · exact ⟨by decide, by decide⟩
      · obtain rfl := List.mem_singleton.1 member
        exact ⟨by decide, by decide⟩
  exact gebrmProxyRun_relays 0 0 (by unfold Decodes; decide +kernel) fine ⟨rfl, rfl, rfl⟩

/-- An answer to the `SFTP` request without a port, and a plain message whose code is `RET`. -/
def portlessReturn : OldMessage := { sftpReturn with params := [], fits := by decide }

def plainRet : OldMessage where
  code := retCode
  isReturn := false
  params := []
  known := by decide
  fits := by decide

/-- An answer without a port ends the relay, and a plain `RET` is sent as the answer to some
code. -/
theorem gebrmProxyRun_malformed :
    (Decodes [portlessReturn.toBytes, runReturn.toBytes] [portlessReturn, runReturn] ∧
      ∃ final, gebrmProxyRun 0 0 (gebrCommProtocolSocketNew, proxyStart)
        [portlessReturn.toBytes, runReturn.toBytes] = some final ∧ final.2.sent = []) ∧
      ∀ junk, gebrCommProtocolSocketResendMessage junk plainRet.received ≠ some plainRet.toBytes := by
  refine ⟨⟨by unfold Decodes; decide +kernel, _, rfl, by decide +kernel⟩, fun junk same => ?_⟩
  have hash : plainRet.received.hash = gStrHash retCode := rfl
  unfold gebrCommProtocolSocketResendMessage at same
  rw [hash, codeOfHash_hash retCode_registered] at same
  simp only [ne_eq, not_true_eq_false, if_false] at same
  cases found : codeOfHash (plainRet.received.retHash.getD junk) with
  | none =>
    rw [found] at same
    exact nomatch same
  | some ret =>
    rw [found] at same
    -- After the three letters one has a colon and the other a space.
    have fourth := congrArg (fun bytes : Bytes => bytes[3]?) (Option.some.inj same)
    have space : plainRet.toBytes[3]? = some 32 := by decide +kernel
    have colon : some (58 : UInt8) = some 32 := fourth.trans space
    exact absurd colon (by decide)

end Runs

end Gebr.Maestro
