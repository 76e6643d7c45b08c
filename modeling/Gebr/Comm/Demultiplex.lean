/-
**One socket for requests, responses and old messages.**

A read brings whole messages of any kind, one after another. Requests are sent in the other
direction, between the reads and by the handlers of what is delivered.

* `SocketEvent`, `runEvents`: reads and sends, and the socket with the peer that handles what is
  delivered.
* `Fine`: what is received can be carried, and a response comes while a request is pending.
* `arrive`: one message is delivered to its handler, and takes its own bytes only.
* `runEvents_delivers`: each message is delivered once, in order, and the responses answer the
  requests in order.
-/

import Gebr.Comm.HttpStream
import Gebr.Comm.ProtocolChunks

namespace Gebr.Comm

open Gebr.Lib.CString

section Model

/-- A call of `gebr_comm_protocol_socket_send_request`. -/
structure SendCall where
  order : HeaderOrder
  method : GebrCommHttpRequestMethod
  url : Bytes
  content : Option Bytes

/-- The request that is sent. -/
def SendCall.request (call : SendCall) : GebrCommHttpMsg :=
  gebrCommHttpMsgNewRequest call.order call.method call.url
    [(ascii "content-type", some (ascii "application/json"))] (call.content.getD [])

/-- What a handler is called with. -/
inductive Delivery where
  | request (msg : GebrCommHttpMsg)
  | response (request msg : GebrCommHttpMsg)
  | old (message : GebrCommMessage)
  deriving DecidableEq, Repr

/-- Whatever uses the socket: the requests that its handlers send for the next deliveries, what was
delivered, and the requests that were sent. -/
structure Peer where
  script : List (List SendCall)
  log : List Delivery
  sent : List GebrCommHttpMsg

def perform (self : GebrCommProtocolSocket × Peer) (call : SendCall) : GebrCommProtocolSocket × Peer :=
  let (socket, msg) := gebrCommProtocolSocketSendRequest call.order call.method call.url
    call.content self.1
  (socket, { self.2 with sent := self.2.sent ++ msg.toList })

/-- A handler notes what it is called with, and sends what it has to send. -/
def deliver (delivery : Delivery) (self : GebrCommProtocolSocket × Peer) :
    GebrCommProtocolSocket × Peer :=
  (self.2.script.head?.getD []).foldl perform
    (self.1, { self.2 with script := self.2.script.tail, log := self.2.log ++ [delivery] })

/-- The handlers of a socket. The one of the old messages takes them all, the oldest one first. -/
def peerHandler : Handler Peer
  | .processRequest msg, self => deliver (.request msg) self
  | .processResponse request msg, self => deliver (.response request msg) self
  | .responseReceived _ _, self => self
  | .oldParseMessages, (socket, peer) =>
    socket.protocol.messages.reverse.foldl (fun self message => deliver (.old message) self)
      (drainedOf socket, peer)
where
  drainedOf (socket : GebrCommProtocolSocket) : GebrCommProtocolSocket :=
    { socket with protocol := { socket.protocol with messages := [] } }

/-- A message on the stream. -/
inductive Wire where
  | http (m : HttpMessage)
  | old (m : OldMessage)

def Wire.toBytes : Wire → Bytes
  | .http m => m.built.raw
  | .old m => m.toBytes

def Wire.isResponse : Wire → Bool
  | .http m => m.built.type = .response
  | .old _ => false

/-- A message that is read, and the requests that its handler sends. -/
structure Arrival where
  wire : Wire
  calls : List SendCall

/-- A read of whole messages, or a request. -/
inductive SocketEvent where
  | read (arrivals : List Arrival)
  | send (call : SendCall)

def runEvents : GebrCommProtocolSocket × Peer → List SocketEvent →
    Option (GebrCommProtocolSocket × Peer)
  | self, [] => some self
  | self, .send call :: events => runEvents (perform self call) events
  | self, .read arrivals :: events =>
    (gebrCommProtocolSocketRead peerHandler
      (self.1, { self.2 with script := arrivals.map Arrival.calls })
      (arrivals.flatMap fun arrival => arrival.wire.toBytes)).bind fun self => runEvents self events

end Model

section Orders

/-- What happens, one thing after another. -/
inductive SocketOp where
  | send (call : SendCall)
  | receive (wire : Wire)

def Arrival.ops (arrival : Arrival) : List SocketOp := .receive arrival.wire :: arrival.calls.map .send

def SocketEvent.ops : SocketEvent → List SocketOp
  | .read arrivals => arrivals.flatMap Arrival.ops
  | .send call => [.send call]

def allOps (events : List SocketEvent) : List SocketOp := events.flatMap SocketEvent.ops

/-- The requests that are sent. -/
def requests (ops : List SocketOp) : List GebrCommHttpMsg :=
  ops.filterMap fun op => match op with
    | .send call => some call.request
    | .receive _ => none

/-- The messages that are received. -/
def received (ops : List SocketOp) : List Wire :=
  ops.filterMap fun op => match op with
    | .send _ => none
    | .receive wire => some wire

/-- How many responses are received. -/
def responses (ops : List SocketOp) : ℕ := (received ops).countP Wire.isResponse

/-- What a handler sees of a message, and which one. -/
inductive Seen where
  | request (msg : GebrCommHttpMsg)
  | response (msg : GebrCommHttpMsg)
  | old (message : GebrCommMessage)
  deriving DecidableEq, Repr

def Delivery.seen : Delivery → Seen
  | .request msg => .request msg
  | .response _ msg => .response msg
  | .old message => .old message

/-- The request that a response is handed to. -/
def Delivery.answered : Delivery → Option GebrCommHttpMsg
  | .response asked _ => some asked
  | _ => none

def Wire.seen : Wire → Seen
  | .http m => if m.built.type = .response then .response m.parsed else .request m.parsed
  | .old m => .old m.received

/-- **The condition**: what is received can be carried, and a response is received while a request
is pending. -/
structure Fine (ops : List SocketOp) : Prop where
  carried : ∀ before m after, ops = before ++ .receive (.http m) :: after → m.Carried
  solicited : ∀ before wire after, ops = before ++ .receive wire :: after → wire.isResponse = true →
    responses before < (requests before).length

/-- **What holds after some operations**: the messages were delivered in order, the responses to the
requests in order, and the other requests are pending; nothing else is. -/
structure Delivered (ops : List SocketOp) (state : GebrCommProtocolSocket × Peer) : Prop where
  socket : state.1 = { gebrCommProtocolSocketNew with
    requestsFifo := (requests ops).drop (responses ops) }
  sent : state.2.sent = requests ops
  log : state.2.log.map Delivery.seen = (received ops).map Wire.seen
  answered : state.2.log.filterMap Delivery.answered = (requests ops).take (responses ops)
  bound : responses ops ≤ (requests ops).length

end Orders

section Steps

variable {ops : List SocketOp} {socket : GebrCommProtocolSocket} {peer : Peer}

theorem requests_append (first second : List SocketOp) :
    requests (first ++ second) = requests first ++ requests second := List.filterMap_append

theorem received_append (first second : List SocketOp) :
    received (first ++ second) = received first ++ received second := List.filterMap_append

theorem requests_calls (calls : List SendCall) :
    requests (calls.map SocketOp.send) = calls.map SendCall.request := by
  unfold requests
  rw [List.filterMap_map]
  exact congrFun (List.filterMap_eq_map (f := SendCall.request)) calls

theorem received_calls (calls : List SendCall) : received (calls.map SocketOp.send) = [] := by
  unfold received
  rw [List.filterMap_map, List.filterMap_eq_nil_iff]
  exact fun _ _ => rfl

theorem perform_eq (connected : socket.connected = true) (peer : Peer) (call : SendCall) :
    perform (socket, peer) call =
      ({ socket with requestsFifo := socket.requestsFifo ++ [call.request] },
        { peer with sent := peer.sent ++ [call.request] }) := by
  unfold perform gebrCommProtocolSocketSendRequest
  simp only [connected, Bool.true_eq_false, if_false]
  rfl

theorem performAll (connected : socket.connected = true) (peer : Peer) (calls : List SendCall) :
    calls.foldl perform (socket, peer) =
      ({ socket with requestsFifo := socket.requestsFifo ++ calls.map SendCall.request },
        { peer with sent := peer.sent ++ calls.map SendCall.request }) := by
  induction calls generalizing socket peer with
  | nil => rw [List.foldl_nil, List.map_nil, List.append_nil, List.append_nil]
  | cons call calls ih =>
    rw [List.foldl_cons, perform_eq connected, ih (by exact connected)]
    simp only [List.append_assoc, List.singleton_append, List.map_cons]

/-- **What a handler does.** -/
theorem deliver_eq (connected : socket.connected = true) {calls : List SendCall}
    {script : List (List SendCall)} (next : peer.script = calls :: script) (delivery : Delivery) :
    deliver delivery (socket, peer) =
      ({ socket with requestsFifo := socket.requestsFifo ++ calls.map SendCall.request },
        ⟨script, peer.log ++ [delivery], peer.sent ++ calls.map SendCall.request⟩) := by
  unfold deliver
  rw [next]
  exact performAll connected _ calls

theorem Delivered.send (delivered : Delivered ops (socket, peer)) (call : SendCall) :
    Delivered (ops ++ [.send call]) (perform (socket, peer) call) := by
  obtain ⟨fifo, sent, log, answered, bound⟩ := delivered
  simp only at fifo sent log answered
  have more : requests (ops ++ [.send call]) = requests ops ++ [call.request] := requests_append _ _
  have same : received (ops ++ [.send call]) = received ops := by
    rw [received_append]
    exact List.append_nil _
  have count : responses (ops ++ [.send call]) = responses ops := by
    unfold responses
    rw [same]
  rw [perform_eq (by rw [fifo]; rfl)]
  refine ⟨?_, ?_, ?_, ?_, ?_⟩
  · rw [more, count, List.drop_append_of_le_length bound, fifo]
  · rw [more, sent]
  · rw [same]
    exact log
  · rw [more, count, List.take_append_of_le_length bound]
    exact answered
  · rw [more, count, List.length_append]
    omega

theorem receiveData_message (m : OldMessage) (rest : Bytes) :
    gebrCommProtocolReceiveData gebrCommProtocolNew (m.toBytes ++ rest) =
      (⟨gebrCommMessageNew, [m.received], false⟩, rest, true) := by
  have shape : m.toBytes ++ rest = m.head ++ 32 :: (m.size ++ 32 :: (m.argument ++ 10 :: rest)) := by
    rw [m.toBytes_eq]
    simp only [List.append_assoc, List.cons_append, List.nil_append]
  have complete : m.argument.length < (m.argument ++ 10 :: rest).length := by
    rw [List.length_append, List.length_cons]
    omega
  rw [shape, gebrCommProtocolReceiveData,
    if_neg (List.append_ne_nil_of_right_ne_nil _ (List.cons_ne_nil _ _)),
      if_pos (show gebrCommProtocolNew.message.hash = 0 from rfl), gebrCommProtocolNew,
    receiveHeader_whole m [] (m.argument ++ 10 :: rest)]
  unfold receiveArgument
  simp only [show m.received.argumentSize = m.argument.length from rfl, List.length_nil, Nat.sub_zero,
    if_pos complete, List.take_left, List.nil_append]
  have left : (m.argument ++ 10 :: rest).drop (m.argument.length + 1) = rest := by
    rw [← List.drop_drop, List.drop_left]
    rfl
  rw [left]
  rfl

theorem newParsing_message {m : HttpMessage} (carried : m.Carried) (rest : Bytes) :
    gebrCommHttpMsgNewParsing none (m.built.raw ++ rest) = .msg m.parsed rest := by
  have two := @HttpMessage.two_le_head m
  have opening : m.start.opening <+: m.built.raw ++ rest := by
    rw [m.raw_built, List.append_assoc]
    exact HttpMessage.opening_head.trans (List.prefix_append _ _)
  have some_byte : m.built.raw ++ rest ≠ [] := by
    rw [m.raw_built, ne_eq, ← List.length_eq_zero_iff, List.length_append, List.length_append]
    omega
  have pending : m.Pending 0 m.fresh := Or.inl ⟨rfl, by omega⟩
  have bytes : (m.built.raw ++ rest) ++ [] = (m.head ++ m.content).drop 0 ++ rest := by
    rw [m.raw_built, List.append_nil, List.drop_zero]
  obtain ⟨t, -, -, next, same, outcome⟩ := carried.parseLoop_pending pending some_byte bytes
  rw [carried.newParsing_opening opening, same]
  have length : (m.built.raw ++ rest).length = m.head.length + m.content.length + rest.length := by
    rw [m.raw_built, List.length_append, List.length_append]
  rcases outcome with ⟨rfl, count⟩ | ⟨rfl, partially⟩
  · rw [Nat.zero_add] at count
    have left : (m.built.raw ++ rest).drop t = rest := by
      rw [m.raw_built, count, ← List.length_append, List.drop_left]
    rw [left]
  · rcases partially with ⟨-, within⟩ | ⟨j, within, place, -⟩
    · omega
    · omega

/-- The requests, the messages and the responses after one more message. -/
theorem after_arrival (ops : List SocketOp) (arrival : Arrival) :
    requests (ops ++ arrival.ops) = requests ops ++ arrival.calls.map SendCall.request ∧
      received (ops ++ arrival.ops) = received ops ++ [arrival.wire] ∧
      responses (ops ++ arrival.ops) = responses ops + if arrival.wire.isResponse then 1 else 0 := by
  have asked : requests arrival.ops = arrival.calls.map SendCall.request :=
    requests_calls arrival.calls
  have read : received arrival.ops = [arrival.wire] :=
    congrArg (arrival.wire :: ·) (received_calls arrival.calls)
  refine ⟨by rw [requests_append, asked], by rw [received_append, read], ?_⟩
  unfold responses
  rw [received_append, read, List.countP_append, List.countP_singleton]

/-- What is delivered of a message that is no response. -/
theorem Delivered.other (delivered : Delivered ops (socket, peer)) (arrival : Arrival)
    (noResponse : arrival.wire.isResponse = false) (delivery : Delivery)
    (seen : delivery.seen = arrival.wire.seen) (unanswered : delivery.answered = none)
    (script : List (List SendCall)) :
    Delivered (ops ++ arrival.ops)
      ({ socket with requestsFifo := socket.requestsFifo ++ arrival.calls.map SendCall.request },
        ⟨script, peer.log ++ [delivery], peer.sent ++ arrival.calls.map SendCall.request⟩) := by
  obtain ⟨fifo, sent, log, answered, bound⟩ := delivered
  simp only at fifo sent log answered
  obtain ⟨asked, read, count⟩ := after_arrival ops arrival
  rw [noResponse, if_neg (by decide), Nat.add_zero] at count
  refine ⟨?_, ?_, ?_, ?_, ?_⟩
  · rw [asked, count, List.drop_append_of_le_length bound, fifo]
  · rw [asked, sent]
  · rw [read, List.map_append, List.map_append, log, List.map_singleton, List.map_singleton, seen]
  · rw [asked, count, List.take_append_of_le_length bound, List.filterMap_append, answered,
      List.filterMap_cons_none unanswered, List.filterMap_nil, List.append_nil]
  · rw [asked, count, List.length_append]
    omega

/-- What is delivered of a response: it goes to the first request that is pending. -/
theorem Delivered.answer (delivered : Delivered ops (socket, peer)) (arrival : Arrival)
    (isResponse : arrival.wire.isResponse = true) {first : GebrCommHttpMsg}
    {pending : List GebrCommHttpMsg} (fifo : socket.requestsFifo = first :: pending)
    {msg : GebrCommHttpMsg} (seen : arrival.wire.seen = .response msg)
    (script : List (List SendCall)) : Delivered (ops ++ arrival.ops)
      ({ socket with requestsFifo := pending ++ arrival.calls.map SendCall.request },
        ⟨script, peer.log ++ [.response first msg], peer.sent ++
        arrival.calls.map SendCall.request⟩) := by
  obtain ⟨state, sent, log, answered, bound⟩ := delivered
  simp only at state sent log answered
  obtain ⟨asked, read, count⟩ := after_arrival ops arrival
  rw [if_pos isResponse] at count
  rw [state] at fifo
  have within : responses ops < (requests ops).length := by
    by_contra beyond
    rw [List.drop_eq_nil_of_le (Nat.not_lt.1 beyond)] at fifo
    exact nomatch fifo
  have parts := List.drop_eq_getElem_cons within
  obtain ⟨rfl, rfl⟩ := List.cons.inj (fifo.symm.trans parts)
  refine ⟨?_, ?_, ?_, ?_, ?_⟩
  · rw [asked, count, List.drop_append_of_le_length within, state]
  · rw [asked, sent]
  · rw [read, List.map_append, List.map_append, log, List.map_singleton, List.map_singleton, seen]
    rfl
  · rw [asked, count, List.take_append_of_le_length within, List.filterMap_append, answered,
      List.take_succ_eq_append_getElem within]
    rfl
  · rw [asked, count, List.length_append]
    omega

theorem Delivered.idle (delivered : Delivered ops (socket, peer)) :
    socket.protocol = gebrCommProtocolNew ∧ socket.incomingMsg = none ∧ socket.connected = true := by
  have state := delivered.socket
  simp only at state
  rw [state]
  exact ⟨rfl, rfl, rfl⟩

/-- An old message is delivered, and takes its own bytes. -/
theorem arrive_old (delivered : Delivered ops (socket, peer)) (m : OldMessage) {calls : List SendCall}
    {script : List (List SendCall)} (next : peer.script = calls :: script) (rest : Bytes) :
    ∃ after, readTurn peerHandler (socket, peer) (m.toBytes ++ rest) = some (after, rest, true) ∧
      after.2.script = script ∧ Delivered (ops ++ Arrival.ops ⟨.old m, calls⟩) after := by
  obtain ⟨new, noMsg, connected⟩ := delivered.idle
  have none : (httpPrefixes.any fun first => first.isPrefixOf (m.toBytes ++ rest)) = false := by
    rw [List.any_eq_false]
    intro first member
    rw [List.isPrefixOf_iff_prefix, m.toBytes_eq, List.append_assoc, List.cons_append]
    exact m.head_not_http member _
  have handled : parseOldMsg peerHandler (socket, peer) (m.toBytes ++ rest) =
      some (deliver (.old m.received) (socket, peer), rest, true) := by
    have kept : { socket with protocol := ⟨gebrCommMessageNew, [], false⟩ } = socket := by
      rw [show (⟨gebrCommMessageNew, [], false⟩ : GebrCommProtocol) = socket.protocol from new.symm]
    unfold parseOldMsg
    simp only [new, receiveData_message m rest, if_true, peerHandler, peerHandler.drainedOf,
      List.reverse_singleton, List.foldl_cons, List.foldl_nil, kept]
  refine ⟨deliver (.old m.received) (socket, peer), ?_, ?_, ?_⟩
  · unfold readTurn turnBy
    rw [if_neg (by rw [new]; decide), if_neg (by rw [noMsg]; decide), none, if_neg (by decide),
      handled]
  · rw [deliver_eq connected next]
  · rw [deliver_eq connected next]
    exact delivered.other ⟨.old m, calls⟩ rfl (.old m.received) rfl rfl script

/-- An HTTP message is delivered, and takes its own bytes. -/
theorem arrive_http (delivered : Delivered ops (socket, peer)) {m : HttpMessage} (carried : m.Carried)
    (solicited : m.built.type = .response → responses ops < (requests ops).length)
    {calls : List SendCall} {script : List (List SendCall)} (next : peer.script = calls :: script)
    (rest : Bytes) :
    ∃ after, readTurn peerHandler (socket, peer) (m.built.raw ++ rest) = some (after, rest, true) ∧
      after.2.script = script ∧ Delivered (ops ++ Arrival.ops ⟨.http m, calls⟩) after := by
  obtain ⟨new, noMsg, connected⟩ := delivered.idle
  have some_prefix : (httpPrefixes.any fun first => first.isPrefixOf (m.built.raw ++ rest)) =
      true := by
    rw [List.any_eq_true]
    refine ⟨m.start.opening, carried.opening_mem, ?_⟩
    rw [List.isPrefixOf_iff_prefix, m.raw_built, List.append_assoc]
    exact HttpMessage.opening_head.trans (List.prefix_append _ _)
  have parsed := newParsing_message carried rest
  have done : m.parsed.parsed = true := (@HttpMessage.content_built m).2
  have turn : readTurn peerHandler (socket, peer) (m.built.raw ++ rest) =
      some (httpParsed peerHandler m.parsed ({ socket with incomingMsg := some m.parsed }, peer),
        rest, true) := by
    unfold readTurn turnBy parseHttpMsg afterParsing
    rw [if_neg (by rw [new]; decide), if_neg (by rw [noMsg]; decide), some_prefix, if_pos rfl]
    simp only [noMsg, parsed, done, Bool.true_eq_false, if_false]
  have connected' : ∀ fifo, ({ socket with
    incomingMsg := some m.parsed, requestsFifo := fifo } : GebrCommProtocolSocket).connected = true :=
    fun _ => connected
  rw [turn]
  rcases m.built_type with request | response
  · have seen : Wire.seen (.http m) = .request m.parsed := by
      show (if m.built.type = .response then Seen.response m.parsed else .request m.parsed) = _
      rw [if_neg (by rw [request]; decide)]
    have noResponse : Wire.isResponse (.http m) = false := by
      show decide (m.built.type = .response) = false
      rw [request]
      rfl
    refine ⟨_, rfl, ?_, ?_⟩
    · unfold httpParsed
      rw [show m.parsed.type = .request from request]
      simp only [peerHandler, deliver_eq (connected' _) next]
    · unfold httpParsed
      rw [show m.parsed.type = .request from request]
      simp only [peerHandler, deliver_eq (connected' _) next]
      have after := delivered.other ⟨.http m, calls⟩ noResponse (.request m.parsed) seen.symm rfl
        script
      rw [← noMsg]
      exact after
  · have seen : Wire.seen (.http m) = .response m.parsed := by
      show (if m.built.type = .response then Seen.response m.parsed else .request m.parsed) = _
      rw [if_pos response]
    have isResponse : Wire.isResponse (.http m) = true := by
      show decide (m.built.type = .response) = true
      rw [response]
      rfl
    have fifo : socket.requestsFifo = (requests ops).drop (responses ops) := by
      rw [show socket = _ from delivered.socket]
    rw [List.drop_eq_getElem_cons (solicited response)] at fifo
    refine ⟨_, rfl, ?_, ?_⟩
    · unfold httpParsed
      rw [show m.parsed.type = .response from response]
      simp only [fifo, peerHandler, deliver_eq (connected' _) next]
    · unfold httpParsed
      rw [show m.parsed.type = .response from response]
      simp only [fifo, peerHandler, deliver_eq (connected' _) next]
      have after := delivered.answer ⟨.http m, calls⟩ isResponse fifo seen script
      rw [← noMsg]
      exact after

/-- **A message is delivered to its handler, and takes its own bytes only.** -/
theorem arrive (delivered : Delivered ops (socket, peer)) (arrival : Arrival)
    (carried : ∀ m, arrival.wire = .http m → m.Carried)
    (solicited : arrival.wire.isResponse = true → responses ops < (requests ops).length)
    {script : List (List SendCall)} (next : peer.script = arrival.calls :: script) (rest : Bytes) :
    ∃ after, readTurn peerHandler (socket, peer) (arrival.wire.toBytes ++ rest) =
      some (after, rest, true) ∧ after.2.script = script ∧ Delivered (ops ++ arrival.ops) after := by
  obtain ⟨wire, calls⟩ := arrival
  cases wire with
  | old m => exact arrive_old delivered m next rest
  | http m =>
    exact arrive_http delivered (carried m rfl) (fun type => solicited (decide_eq_true type)) next rest

end Steps

section Runs

theorem wire_ne_nil (wire : Wire) : wire.toBytes ≠ [] := by
  cases wire with
  | old m =>
    rw [Wire.toBytes, m.toBytes_eq]
    exact List.append_ne_nil_of_right_ne_nil _ (List.cons_ne_nil _ _)
  | http m =>
    have two := @HttpMessage.two_le_head m
    rw [Wire.toBytes, m.raw_built]
    intro empty
    rw [(List.append_eq_nil_iff.1 empty).1] at two
    exact absurd two (by decide)

/-- A read delivers its messages, one after another. -/
theorem read_arrivals {ops after : List SocketOp} {arrivals : List Arrival}
    {socket : GebrCommProtocolSocket} {peer : Peer}
    (fine : Fine (ops ++ arrivals.flatMap Arrival.ops ++ after))
    (delivered : Delivered ops (socket, peer)) (script : peer.script = arrivals.map Arrival.calls) :
        ∃ final, gebrCommProtocolSocketRead peerHandler (socket, peer)
      (arrivals.flatMap fun arrival => arrival.wire.toBytes) = some final ∧ Delivered
      (ops ++ arrivals.flatMap Arrival.ops) final := by
  induction arrivals generalizing ops socket peer with
  | nil =>
    rw [List.flatMap_nil, List.flatMap_nil, List.append_nil]
    exact ⟨(socket, peer), rfl, delivered⟩
  | cons arrival arrivals ih =>
    have shape : ops ++ (arrival :: arrivals).flatMap Arrival.ops ++ after =
        ops ++ .receive arrival.wire ::
          (arrival.calls.map .send ++ arrivals.flatMap Arrival.ops ++ after) := by
      rw [List.flatMap_cons, List.append_assoc]
      rfl
    have shape' : ops ++ (arrival :: arrivals).flatMap Arrival.ops =
        ops ++ arrival.ops ++ arrivals.flatMap Arrival.ops := by
      rw [List.flatMap_cons, List.append_assoc]
    rw [shape'] at fine ⊢
    rw [← shape', shape] at fine
    rw [List.flatMap_cons]
    obtain ⟨⟨socket', peer'⟩, turn, script', delivered'⟩ := arrive delivered arrival
      (fun m same => fine.carried ops m _ (by rw [same])) (fine.solicited ops arrival.wire _ rfl)
        script
      (arrivals.flatMap fun arrival => arrival.wire.toBytes)
    have some_byte : arrival.wire.toBytes ++
        (arrivals.flatMap fun arrival => arrival.wire.toBytes) ≠ [] :=
      List.append_ne_nil_of_left_ne_nil (wire_ne_nil _) _
    rw [read_eq peerHandler some_byte, turn]
    refine ih ?_ delivered' script'
    rw [← shape', shape]
    exact fine

/-- A new socket, and nobody has sent anything. -/
def runStart : GebrCommProtocolSocket × Peer := (gebrCommProtocolSocketNew, ⟨[], [], []⟩)

theorem delivered_start : Delivered [] runStart := ⟨rfl, rfl, rfl, rfl, le_rfl⟩

/-- **Every message is delivered once and in order, and the responses answer the requests in
order**, over any reads of whole messages and any requests in the other direction. -/
theorem runEvents_delivers {events : List SocketEvent} (fine : Fine (allOps events)) :
    ∃ final, runEvents runStart events = some final ∧ Delivered (allOps events) final := by
  have run : ∀ (events : List SocketEvent) (ops : List SocketOp)
      (self : GebrCommProtocolSocket × Peer), Fine (ops ++ allOps events) → Delivered ops self →
      ∃ final, runEvents self events = some final ∧ Delivered (ops ++ allOps events) final := by
    intro events
    induction events with
    | nil =>
      intro ops self _ delivered
      exact ⟨self, rfl, by rw [allOps, List.flatMap_nil, List.append_nil]; exact delivered⟩
    | cons event events ih =>
      intro ops self fine delivered
      have shape : ops ++ allOps (event :: events) = ops ++ event.ops ++ allOps events := by
        rw [allOps, List.flatMap_cons, List.append_assoc]
        rfl
      rw [shape] at fine ⊢
      cases event with
      | send call => exact ih _ _ fine (delivered.send call)
      | read arrivals =>
        obtain ⟨final, read, delivered'⟩ := read_arrivals fine
          (show Delivered ops (self.1, { self.2 with script := arrivals.map Arrival.calls }) from
            ⟨delivered.socket, delivered.sent, delivered.log, delivered.answered, delivered.bound⟩) rfl
        rw [runEvents, read]
        exact ih _ final fine delivered'
  exact run events [] runStart fine delivered_start

/-- A response with a content. -/
def okResponse : HttpMessage where
  order := plainOrder
  start := .response 200
  headers := [(ascii "content-type", ascii "application/json")]
  content := ascii "[1]"
  url := fun _ _ same => nomatch same
  status := fun code same => by
    cases same
    decide
  distinct := by decide
  keys := fun entry member => by
    rw [List.mem_singleton.1 member]
    decide
  values := fun entry member => by
    rw [List.mem_singleton.1 member]
    decide
  fits := by decide

def statusCall : SendCall := ⟨plainOrder, .get, ascii "/status", none⟩

/-- An old message in front of the response to a request, in one read. -/
theorem runEvents_delivers_pair :
    ∃ final, runEvents runStart
        [.send statusCall, .read [⟨.old outMessage, []⟩, ⟨.http okResponse, [statusCall]⟩]] =
      some final ∧ Delivered (allOps
        [.send statusCall, .read [⟨.old outMessage, []⟩, ⟨.http okResponse, [statusCall]⟩]])
        final := by
  refine runEvents_delivers
    ⟨fun before m after split => ?_, fun before wire after split response => ?_⟩
  · have member : SocketOp.receive (.http m) ∈ allOps
        [.send statusCall, .read [⟨.old outMessage, []⟩, ⟨.http okResponse, [statusCall]⟩]] :=
      split ▸ List.mem_append_right before List.mem_cons_self
    have same : m = okResponse := by
      simpa [allOps, SocketEvent.ops, Arrival.ops] using member
    rw [same]
    exact ⟨(fun _ _ same => nomatch same), by decide, by decide⟩
  · match before with
    | [] => exact nomatch (List.cons.inj split).1
    | [first] =>
      obtain ⟨old, -⟩ := List.cons.inj (List.cons.inj split).2
      rw [← SocketOp.receive.inj old] at response
      exact nomatch response
    | [first, second] =>
      obtain ⟨rfl, tail⟩ := List.cons.inj split
      obtain ⟨rfl, -⟩ := List.cons.inj tail
      exact Nat.one_pos
    | [first, second, third] =>
      exact nomatch (List.cons.inj (List.cons.inj (List.cons.inj (List.cons.inj split).2).2).2).1
    | first :: second :: third :: fourth :: before =>
      have tail := (List.cons.inj (List.cons.inj (List.cons.inj (List.cons.inj split).2).2).2).2
      exact absurd tail.symm (List.append_ne_nil_of_right_ne_nil _ (List.cons_ne_nil _ _))

/-- A `POST` ends the program. -/
theorem runEvents_post :
    ¬ ∃ final, runEvents runStart
        [.read [⟨.http (oneHeader .post (ascii "host") (ascii "c") (by decide) (by decide) []
      (by decide)), []⟩]] = some final ∧
        Delivered (allOps
        [.read [⟨.http (oneHeader .post (ascii "host") (ascii "c") (by decide) (by decide) []
        (by decide)), []⟩]]) final := by
  have crash : (runEvents runStart
      [.read [⟨.http (oneHeader .post (ascii "host") (ascii "c") (by decide) (by decide) []
          (by decide)), []⟩]]).isNone = true := by
    decide +kernel
  rintro ⟨final, run, -⟩
  rw [run] at crash
  exact nomatch crash

end Runs

end Gebr.Comm
