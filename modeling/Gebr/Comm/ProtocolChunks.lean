/-
**Old messages on a stream are decoded exactly when no read tears them.**

* `Sync`: the decoder has done what it is to do with the bytes so far.
* `Sync.turn`: a turn keeps that, or the messages are lost, and a read tears one of them.
* `decodes_iff`: the reads queue exactly the messages, in order, if and only if they are clean.
-/

import Gebr.Comm.ProtocolLag

namespace Gebr.Comm

open Gebr.Lib.CString

section Definitions

/-- A socket without HTTP messages. -/
def sock (protocol : GebrCommProtocol) : GebrCommProtocolSocket × Unit :=
  ({ gebrCommProtocolSocketNew with protocol }, ())

/-- The messages that are queued, newest first. -/
def newest (msgs : List OldMessage) : List GebrCommMessage := (msgs.map OldMessage.received).reverse

/-- No read ends in the head of the message that begins at the place. -/
def WholeHead (whole : List Bytes) (start : ℕ) (m : OldMessage) : Prop :=
  ∀ place, start < place → place ≤ start + m.head.length → ¬ Cut whole place

/-- A read ends in the size of the message that begins at the place. -/
def TornSize (whole : List Bytes) (start : ℕ) (m : OldMessage) : Prop :=
  ∃ place, start + m.head.length < place ∧ place ≤ start + m.head.length + 1 + m.size.length ∧
    Cut whole place

variable (whole : List Bytes) (msgs : List OldMessage)

/-- **The decoder is in step** once so many bytes are used up. -/
inductive Sync (used : ℕ) (protocol : GebrCommProtocol) : Prop
  | fresh {done todo} (split : msgs = done ++ todo) (clean : Clean whole done)
      (place : used = (stream done).length)
        (state : protocol = ⟨gebrCommMessageNew, newest done, false⟩)
  | argument {done m todo k} (split : msgs = done ++ m :: todo) (clean : Clean whole done)
      (clean' : CleanAt whole (stream done).length m) (within : k ≤ m.argument.length)
      (place : used = (stream done).length + m.head.length + 1 + m.size.length + 1 + k)
      (state : protocol = ⟨{ m.received with argument := m.argument.take k }, newest done, false⟩)
  /-- A read ended in the size of an empty argument, and the size is taken to be zero. -/
  | short {done m todo} (split : msgs = done ++ m :: todo) (clean : Clean whole done)
      (head : WholeHead whole (stream done).length m) (torn : TornSize whole (stream done).length m)
      (empty : m.argument = []) (after : (stream done).length + m.head.length < used)
      (place : used ≤ (stream done).length + m.head.length + 1 + m.size.length)
      (state : protocol = ⟨m.received, newest done, false⟩)
  /-- The message was queued then, and a blank or two of it are left. -/
  | junk {done m todo} (split : msgs = done ++ m :: todo) (clean : Clean whole done)
      (head : WholeHead whole (stream done).length m) (torn : TornSize whole (stream done).length m)
      (empty : m.argument = []) (after : (stream done).length + m.toBytes.length ≤ used + 2)
      (place : used < (stream done).length + m.toBytes.length)
      (state : protocol = ⟨gebrCommMessageNew, newest (done ++ [m]), false⟩)

/-- In step, or lost after a read that tears a message. -/
def Kept (self : GebrCommProtocolSocket × Unit) (reads : List Bytes) : Prop :=
  (∃ used protocol, Left whole used reads ∧ self = sock protocol ∧ Sync whole msgs used protocol) ∨
    ¬ Clean whole msgs ∧ Lost msgs self.1.protocol reads.flatten

end Definitions

section Basics

variable {whole later : List Bytes} {msgs done todo : List OldMessage} {m : OldMessage} {data : Bytes}
  {used : ℕ}

theorem clean_snoc : Clean whole (done ++ [m]) ↔ Clean whole done ∧
    CleanAt whole (stream done).length m := by
  constructor
  · intro clean
    refine ⟨fun before other after same => ?_, clean done m [] rfl⟩
    exact clean before other (after ++ [m]) (by rw [same, List.append_assoc, List.cons_append])
  · intro clean before other after same
    rcases List.eq_nil_or_concat after with rfl | ⟨front, last, rfl⟩
    · obtain ⟨rfl, parts⟩ := List.append_inj' same rfl
      obtain ⟨rfl, -⟩ := List.cons.inj parts
      exact clean.2
    · have shape : done ++ [m] = (before ++ other :: front) ++ [last] := by
        rw [same, List.concat_eq_append, List.append_assoc, List.cons_append]
      obtain ⟨rfl, -⟩ := List.append_inj' shape rfl
      exact clean.1 before other front rfl

theorem Clean.at (clean : Clean whole msgs) (split : msgs = done ++ m :: todo) :
    CleanAt whole (stream done).length m :=
  clean done m todo split

theorem newest_snoc : newest (done ++ [m]) = m.received :: newest done := by
  unfold newest
  rw [List.map_append, List.reverse_append]
  rfl

theorem length_stream_cons : (stream (m :: todo)).length = m.toBytes.length +
    (stream todo).length := by
  rw [stream_cons, List.length_append]

theorem Left.count {reads : List Bytes} (left : Left whole used reads) :
    used + reads.flatten.length = whole.flatten.length := by
  have bound := left.bound
  rw [left.bytes, List.length_drop]
  omega

theorem Left.suffix {reads : List Bytes} {front rest : Bytes} (left : Left whole used reads)
    (split : whole.flatten = front ++ rest) (past : front.length ≤ used) : reads.flatten <:+ rest := by
  have count := left.count
  apply List.suffix_of_suffix_length_le (left.bytes ▸ List.drop_suffix used whole.flatten)
    (split ▸ List.suffix_append front rest)
  rw [split, List.length_append] at count
  omega

/-- The bytes to come, when a message begins. -/
theorem Left.message (left : Left whole used (data :: later)) (all : whole.flatten = stream msgs)
    (split : msgs = done ++ todo) (place : used = (stream done).length) :
    data ++ later.flatten = stream todo := by
  have bytes := left.bytes
  rw [List.flatten_cons, all, split, stream_append, place, List.drop_left] at bytes
  exact bytes

theorem readTurn_sock {protocol next : GebrCommProtocol} {rest : Bytes} {ret : Bool}
    (old : protocol.message.hash ≠ 0 ∨ ∀ first ∈ httpPrefixes, ¬ first <+: data)
    (received : gebrCommProtocolReceiveData protocol data = (next, rest, ret)) :
    readTurn quiet (sock protocol) data = some (sock next, rest, ret) := by
  have parsed : parseOldMsg quiet (sock protocol) data = some (sock next, rest, ret) := by
    unfold parseOldMsg
    rw [show (sock protocol).1.protocol = protocol from rfl, received]
    cases ret <;> rfl
  unfold readTurn turnBy
  by_cases pending : protocol.message.hash ≠ 0
  · rw [if_pos (show (sock protocol).1.protocol.message.hash ≠ 0 from pending)]
    exact parsed
  · have none : (httpPrefixes.any fun first => first.isPrefixOf data) = false := by
      rw [List.any_eq_false]
      intro first member
      rw [List.isPrefixOf_iff_prefix]
      exact old.resolve_left pending first member
    rw [if_neg (show ¬ (sock protocol).1.protocol.message.hash ≠ 0 from pending), none]
    exact parsed

theorem receiveData_pending (protocol : GebrCommProtocol) (pending : protocol.message.hash ≠ 0)
    (some_byte : data ≠ []) :
    gebrCommProtocolReceiveData protocol data =
      ((receiveArgument protocol data).1, (receiveArgument protocol data).2, true) := by
  rw [gebrCommProtocolReceiveData, if_neg some_byte, if_neg pending]

theorem receiveHeader_blank (protocol : GebrCommProtocol) {b : UInt8} (blank : b = 32 ∨ b = 10)
    (rest : Bytes) : ∃ left, receiveHeader protocol (b :: rest) = .error (protocol, left) := by
  rcases receiveHeader_cases protocol (b :: rest) with same |
    ⟨token, size, code, ret, erange, k, front, clean, -, parts, known, -, -⟩
  · exact same
  · exfalso
    obtain ⟨⟨-, -, noFeed⟩, long, -⟩ := registered_clean known
    have first : token = [] ∨ token.head? = some 10 := by
      cases token with
      | nil => exact Or.inl rfl
      | cons c token =>
        obtain ⟨same, -⟩ := List.cons_prefix_cons.1 front
        rcases blank with rfl | rfl
        · exact absurd (same ▸ List.mem_cons_self) clean
        · exact Or.inr (congrArg some same)
    have empty : code = [] ∨ code.head? = some 10 := by
      rcases splitRet_join token with ⟨-, plain⟩ | ⟨before, answer, both, whole⟩
      · obtain ⟨rfl, -⟩ := Prod.mk.inj (parts.symm.trans plain)
        exact first
      · obtain ⟨rfl, -⟩ := Prod.mk.inj (parts.symm.trans both)
        cases code with
        | nil => exact Or.inl rfl
        | cons c code =>
          rw [whole] at first
          exact Or.inr (first.resolve_left (List.cons_ne_nil _ _))
    rcases empty with rfl | first
    · exact absurd long (by decide)
    · exact noFeed (List.mem_of_mem_head? first)

/-- A parameter begins with a digit, and so does an argument. -/
theorem argument_not_blank (rest text : Bytes) (some_byte : m.argument ≠ [])
    (front : text <+: 32 :: rest) : text ≠ m.argument := by
  rintro rfl
  have digit : ∀ b ∈ m.argument.head?, isDigit b = true := by
    have first : ∀ n tail, ∀ b ∈ (decimal n ++ 124 :: tail).head?, isDigit b = true := by
      intro n tail b member
      obtain ⟨d, digits, printed⟩ := List.exists_cons_of_ne_nil (decimal_ne_nil n)
      rw [printed, List.cons_append, List.head?_cons, Option.mem_some_iff] at member
      have first : d ∈ decimal n := printed ▸ List.mem_cons_self
      exact member ▸ isDigit_of_mem_decimal first
    unfold OldMessage.argument
    match m.params with
    | [] => exact fun b member => nomatch member
    | [param] => exact first _ _
    | param :: next :: params =>
      intro b member
      refine first (param.getD []).length (param.getD [] ++ 32 :: joinParams (next :: params)) b ?_
      simpa only [joinParams, List.append_assoc, List.cons_append] using member
  rcases List.prefix_cons_iff.1 front with nil | ⟨tail, same, -⟩
  · exact some_byte nil
  · have blank := digit 32 (by rw [same]; rfl)
    exact absurd blank (by decide)

end Basics

section Turns

variable {whole later : List Bytes} {msgs done todo : List OldMessage} {m : OldMessage} {data : Bytes}
  {used k : ℕ} (left : Left whole used (data :: later))

include left

/-- The step on an argument: it takes some of the data. -/
theorem argument_step (all : whole.flatten = stream msgs) (split : msgs = done ++ m :: todo)
    (clean : Clean whole done) (clean' : CleanAt whole (stream done).length m)
    (within : k ≤ m.argument.length)
    (place : used = (stream done).length + m.head.length + 1 + m.size.length + 1 + k) :
    ∃ next taken, taken ≤ data.length ∧ Sync whole msgs (used + taken) next ∧
      receiveArgument ⟨{ m.received with argument := m.argument.take k }, newest done, false⟩ data =
        (next, data.drop taken) := by
  have bytes : data ++ later.flatten = m.argument.drop k ++ 10 :: stream todo := by
    have whole := left.bytes
    rw [List.flatten_cons, all, split, stream_append, stream_cons, m.toBytes_eq] at whole
    have front : stream done ++
        (m.head ++ 32 :: (m.size ++ 32 :: (m.argument ++ [10])) ++ stream todo) =
          (stream done ++ m.head ++ [32] ++ m.size ++ [32] ++ m.argument.take k) ++
              (m.argument.drop k ++ 10 :: stream todo) := by
      conv_lhs => rw [← List.take_append_drop k m.argument]
      simp only [List.append_assoc, List.cons_append, List.nil_append]
    rw [whole, front]
    apply List.drop_left'
    simp only [List.length_append, List.length_cons, List.length_nil, List.length_take,
      Nat.min_eq_left within]
    omega
  have missing : m.argument.length - (m.argument.take k).length = m.argument.length - k := by
    rw [List.length_take, Nat.min_eq_left within]
  unfold receiveArgument
  simp only [show m.received.argumentSize = m.argument.length from rfl, missing]
  by_cases complete : m.argument.length - k < data.length
  · rw [if_pos complete]
    have text : m.argument.take k ++ data.take (m.argument.length - k) = m.argument := by
      have taken := congrArg (List.take (m.argument.length - k)) bytes
      rw [List.take_append_of_le_length complete.le, ← List.length_drop, List.take_left] at taken
      rw [List.length_drop] at taken
      rw [taken, List.take_append_drop]
    refine ⟨_, m.argument.length - k + 1, complete, ?_, rfl⟩
    have total := m.length_toBytes
    refine .fresh (split.trans (List.append_cons ..)) (clean_snoc.2 ⟨clean, clean'⟩) ?_ ?_
    · rw [stream_append, stream_cons, stream_nil, List.append_nil, List.length_append]
      omega
    · rw [newest_snoc, text]
      rfl
  · rw [if_neg complete]
    refine ⟨_, data.length, le_rfl, ?_, by rw [List.drop_length]⟩
    have text : m.argument.take k ++ data = m.argument.take (k + data.length) := by
      have taken := congrArg (List.take data.length) bytes
      rw [List.take_left, List.take_append_of_le_length (by rw [List.length_drop]; omega)] at taken
      rw [List.take_add, ← taken]
    refine .argument split clean clean' (k := k + data.length) (by omega) (by omega) ?_
    rw [text]
    rfl

variable (some_byte : data ≠ [])

include some_byte

theorem argument_turn (all : whole.flatten = stream msgs) (split : msgs = done ++ m :: todo)
    (clean : Clean whole done) (clean' : CleanAt whole (stream done).length m)
    (within : k ≤ m.argument.length)
    (place : used = (stream done).length + m.head.length + 1 + m.size.length + 1 + k) :
    ∃ next rest ret, readTurn quiet
        (sock ⟨{ m.received with argument := m.argument.take k }, newest done, false⟩) data =
          some (next, rest, ret) ∧ Kept whole msgs next (if ret then rest :: later else later) := by
  obtain ⟨next, taken, inside, sync, step⟩ := argument_step left all split clean clean' within place
  have pending := m.hash_ne_zero
  have received := receiveData_pending ⟨{ m.received with argument := m.argument.take k }, newest done,
    false⟩ pending some_byte
  rw [step] at received
  exact ⟨_, _, _, readTurn_sock (Or.inl pending) received,
    Or.inl ⟨_, _, left.drop inside, rfl, sync⟩⟩

theorem short_turn (split : msgs = done ++ m :: todo) (clean : Clean whole done)
    (head : WholeHead whole (stream done).length m) (torn : TornSize whole (stream done).length m)
    (empty : m.argument = []) (after : (stream done).length + m.head.length < used)
    (place : used ≤ (stream done).length + m.head.length + 1 + m.size.length) :
    ∃ next rest ret, readTurn quiet (sock ⟨m.received, newest done, false⟩) data =
      some (next, rest, ret) ∧ Kept whole msgs next (if ret then rest :: later else later) := by
  have pending := m.hash_ne_zero
  have positive := List.length_pos_iff.2 some_byte
  have received := receiveData_pending ⟨m.received, newest done, false⟩ pending some_byte
  have step : receiveArgument ⟨m.received, newest done, false⟩ data =
      (⟨gebrCommMessageNew, newest (done ++ [m]), false⟩, data.drop 1) := by
    have missing : m.received.argumentSize - m.received.argument.length = 0 := Nat.sub_self _
    unfold receiveArgument
    simp only [missing]
    rw [if_pos positive, newest_snoc, List.take_zero, List.append_nil]
  rw [step] at received
  have total := m.length_toBytes
  have one : m.size.length = 1 := by
    rw [OldMessage.size, empty]
    rfl
  rw [empty, List.length_nil] at total
  refine ⟨_, _, _, readTurn_sock (Or.inl pending) received, Or.inl ⟨_, _, left.drop positive, rfl, ?_⟩⟩
  exact .junk split clean head torn empty (by omega) (by omega) rfl

/-- A read that is dropped after a message ends with it, or takes bytes of the next one. -/
theorem junk_turn (all : whole.flatten = stream msgs) (split : msgs = done ++ m :: todo)
    (clean : Clean whole done) (head : WholeHead whole (stream done).length m)
    (torn : TornSize whole (stream done).length m) (empty : m.argument = [])
    (after : (stream done).length + m.toBytes.length ≤ used + 2)
    (place : used < (stream done).length + m.toBytes.length) :
    ∃ next rest ret, readTurn quiet (sock ⟨gebrCommMessageNew, newest (done ++ [m]), false⟩) data =
      some (next, rest, ret) ∧ Kept whole msgs next (if ret then rest :: later else later) := by
  have total := m.length_toBytes
  have split' : msgs = (done ++ [m]) ++ todo := split.trans (List.append_cons ..)
  have ends : (stream (done ++ [m])).length = (stream done).length + m.toBytes.length := by
    rw [stream_append, stream_cons, stream_nil, List.append_nil, List.length_append]
  obtain ⟨b, rest, rfl, blank⟩ : ∃ b rest, data = b :: rest ∧ (b = 32 ∨ b = 10) := by
    have bytes := left.bytes
    have front : stream done ++ (m.toBytes ++ stream todo) =
        (stream done ++ m.head ++ 32 :: m.size) ++ 32 :: 10 :: stream todo := by
      rw [m.toBytes_eq, empty]
      simp only [List.append_assoc, List.cons_append, List.nil_append]
    have length : (stream done ++ m.head ++ 32 :: m.size).length + 2 =
        (stream done).length + m.toBytes.length := by
      rw [total, empty]
      simp only [List.length_append, List.length_cons, List.length_nil]
      omega
    rw [List.flatten_cons, all, split, stream_append, stream_cons, front, List.drop_append] at bytes
    obtain ⟨b, rest, rfl⟩ := List.exists_cons_of_ne_nil some_byte
    refine ⟨b, rest, rfl, ?_⟩
    obtain none | one : used - (stream done ++ m.head ++ 32 :: m.size).length = 0 ∨
        used - (stream done ++ m.head ++ 32 :: m.size).length = 1 := by omega
    · rw [none, List.drop_eq_nil_of_le (by omega), List.nil_append, List.drop_zero] at bytes
      exact Or.inl (List.cons.inj bytes).1
    · rw [one, List.drop_eq_nil_of_le (by omega), List.nil_append, List.drop_one,
        List.tail_cons] at bytes
      exact Or.inr (List.cons.inj bytes).1
  obtain ⟨dropped, error⟩ := receiveHeader_blank
    ⟨gebrCommMessageNew, newest (done ++ [m]), false⟩ blank rest
  have received : gebrCommProtocolReceiveData ⟨gebrCommMessageNew, newest (done ++ [m]), false⟩
      (b :: rest) = (⟨gebrCommMessageNew, newest (done ++ [m]), false⟩, dropped, false) := by
    rw [gebrCommProtocolReceiveData, if_neg some_byte,
      if_pos (show gebrCommMessageNew.hash = 0 from rfl), error]
  refine ⟨_, _, _, readTurn_sock (Or.inr fun first member => httpPrefix_head member blank rest)
    received, ?_⟩
  have next := left.next
  generalize (b :: rest) = data at left some_byte next
  have positive := List.length_pos_iff.2 some_byte
  have count := next.count
  rw [all, split', stream_append, List.length_append, ends] at count
  rcases lt_trichotomy (used + data.length)
    ((stream done).length + m.toBytes.length) with inside | whole' | past
  · exact Or.inl ⟨_, _, next, rfl, .junk split clean head torn empty (by omega) inside rfl⟩
  · refine Or.inl ⟨_, _, next, rfl, .fresh split' (clean_snoc.2 ⟨clean, head, ?_⟩)
      (whole'.trans ends.symm) rfl⟩
    intro place _ _ _
    refine ⟨empty, ?_⟩
    by_cases more : later.flatten = []
    · right
      rw [all, split', stream_append, List.length_append, ends]
      rw [more, List.length_nil] at count
      omega
    · rw [← whole']
      exact Or.inl (left.cut some_byte more)
  · right
    constructor
    · intro clean'
      obtain ⟨place, low, high, cut⟩ := torn
      rcases ((clean'.at split).size place low high cut).2 with ended | ended
      · exact left.uncut (by omega) past ended
      · rw [all, split', stream_append, List.length_append, ends] at ended
        omega
    · cases todo with
      | nil =>
        rw [stream_nil, List.length_nil] at count
        omega
      | cons other todo =>
        have tail := next.suffix (all.trans ((congrArg stream split').trans (stream_append _ _)))
          (by omega)
        exact .late split' rfl rfl tail (by simp only [Bool.false_eq_true, if_false]; omega)

/-- A read that ends in a head is dropped. -/
theorem torn_head_turn (all : whole.flatten = stream msgs) (split : msgs = done ++ m :: todo)
    (place : used = (stream done).length) (short : data.length ≤ m.head.length) :
    ∃ next rest ret, readTurn quiet (sock ⟨gebrCommMessageNew, newest done, false⟩) data =
      some (next, rest, ret) ∧ Kept whole msgs next (if ret then rest :: later else later) := by
  have bytes := left.message all split place
  have count := left.next.count
  have total := m.length_toBytes
  have positive := List.length_pos_iff.2 some_byte
  rw [all, split, stream_append, List.length_append, length_stream_cons] at count
  have begins : data <+: m.head := by
    rw [stream_cons, m.toBytes_eq] at bytes
    refine List.prefix_of_prefix_length_le ⟨_, bytes⟩ ?_ short
    exact (List.prefix_append _ _).trans (List.prefix_append _ _)
  have clean : 32 ∉ data := fun member => m.head_clean (begins.subset member)
  have received : gebrCommProtocolReceiveData ⟨gebrCommMessageNew, newest done, false⟩ data =
      (⟨gebrCommMessageNew, newest done, false⟩, data, false) := by
    rw [gebrCommProtocolReceiveData, if_neg some_byte,
      if_pos (show gebrCommMessageNew.hash = 0 from rfl), receiveHeader, gStrsplit_one clean some_byte]
  refine ⟨_, _, _, readTurn_sock (Or.inr fun first member front => ?_) received, Or.inr ⟨?_, ?_⟩⟩
  · obtain ⟨word, rfl, -⟩ := httpPrefix_word member
    exact clean (front.subset (List.mem_append_right _ List.mem_cons_self))
  · intro whole'
    refine (whole'.at split).head (used + data.length) (by omega) (by omega)
      (left.cut some_byte fun none => ?_)
    rw [none, List.length_nil] at count
    omega
  · refine .late split rfl rfl (left.next.suffix (all.trans ((congrArg stream split).trans
      (stream_append _ _))) (by omega)) ?_
    rw [length_stream_cons]
    simp only [Bool.false_eq_true, if_false]
    omega

/-- A read that ends in a size gives a size. -/
theorem torn_size_turn (all : whole.flatten = stream msgs) (split : msgs = done ++ m :: todo)
    (clean : Clean whole done) (place : used = (stream done).length)
    (long : m.head.length < data.length) (short : data.length ≤ m.head.length + 1 + m.size.length) :
    ∃ next rest ret, readTurn quiet (sock ⟨gebrCommMessageNew, newest done, false⟩) data =
      some (next, rest, ret) ∧ Kept whole msgs next (if ret then rest :: later else later) := by
  have bytes := left.message all split place
  have count := left.next.count
  have total := m.length_toBytes
  rw [all, split, stream_append, List.length_append, length_stream_cons] at count
  rw [stream_cons, m.toBytes_eq] at bytes
  obtain ⟨digits, rfl⟩ : ∃ digits, data = m.head ++ 32 :: digits := by
    have front : m.head ++ [32] <+: data := by
      refine List.prefix_of_prefix_length_le ?_ ⟨_, bytes⟩ (by simp; omega)
      exact ⟨m.size ++ 32 :: (m.argument ++ [10]) ++ stream todo, by simp⟩
    obtain ⟨digits, rfl⟩ := front
    exact ⟨digits, by rw [List.append_assoc, List.singleton_append]⟩
  simp only [List.append_assoc, List.cons_append, List.append_cancel_left_eq, List.cons.injEq,
    true_and] at bytes
  simp only [List.length_append, List.length_cons] at long short count
  have begins : digits <+: m.size :=
    List.prefix_of_prefix_length_le ⟨_, bytes⟩ (List.prefix_append _ _) (by omega)
  have more : later.flatten ≠ [] := fun none => by
    rw [none, List.length_nil] at count
    omega
  have cut := left.cut some_byte more
  have received : gebrCommProtocolReceiveData ⟨gebrCommMessageNew, newest done, false⟩
      (m.head ++ 32 :: digits) =
        (⟨{ m.received with argumentSize := value digits, argument := [] }, newest done, false⟩,
            [], true) := by
    rw [gebrCommProtocolReceiveData, if_neg some_byte,
      if_pos (show gebrCommMessageNew.hash = 0 from rfl), receiveHeader_short m begins (newest done)]
    simp [receiveArgument]
  refine ⟨_, _, _, readTurn_sock (Or.inr fun first member => m.head_not_http member digits)
    received, ?_⟩
  have next : Left whole (used + (m.head ++ 32 :: digits).length) ([] :: later) := by
    have dropped := left.drop le_rfl
    rw [List.drop_length] at dropped
    exact dropped
  by_cases empty : m.argument = []
  · have one : m.size = [48] := by
      rw [OldMessage.size, empty]
      rfl
    have zero : value digits = 0 := by
      rw [one] at begins
      rcases List.prefix_cons_iff.1 begins with rfl | ⟨tail, rfl, inner⟩
      · rfl
      · rw [List.prefix_nil.1 inner]
        rfl
    left
    refine ⟨_, _, next, rfl, .short split clean ?_ ⟨_, ?_, ?_, cut⟩ empty ?_ ?_ ?_⟩
    · exact fun place' after before => left.uncut (by omega) (by simp; omega)
    · simp; omega
    · simp; omega
    · simp; omega
    · simp; omega
    · have same : m.received = { m.received with argumentSize := 0, argument := [] } := by
        unfold OldMessage.received
        rw [empty]
        rfl
      rw [same, zero]
  · right
    constructor
    · intro whole'
      exact empty ((whole'.at split).size _ (by simp; omega) (by simp; omega) cut).1
    · refine .doomed split rfl m.hash_ne_zero fun text front same => ?_
      have size := congrArg GebrCommMessage.argumentSize same
      have argument : text = m.argument := congrArg GebrCommMessage.argument same
      have complete : digits = m.size := by
        by_contra proper
        exact absurd size (value_lt_of_begins begins proper (List.length_pos_iff.2 empty)).ne
      rw [complete, List.append_cancel_left_eq] at bytes
      exact argument_not_blank _ text empty (bytes ▸ front) argument

theorem whole_head_turn (all : whole.flatten = stream msgs) (split : msgs = done ++ m :: todo)
    (clean : Clean whole done) (place : used = (stream done).length)
    (long : m.head.length + 1 + m.size.length < data.length) :
    ∃ next rest ret, readTurn quiet (sock ⟨gebrCommMessageNew, newest done, false⟩) data =
      some (next, rest, ret) ∧ Kept whole msgs next (if ret then rest :: later else later) := by
  have bytes := left.message all split place
  rw [stream_cons, m.toBytes_eq] at bytes
  obtain ⟨argument, rfl⟩ : ∃ argument, data = m.head ++ 32 :: (m.size ++ 32 :: argument) := by
    have front : m.head ++ 32 :: m.size ++ [32] <+: data := by
      refine List.prefix_of_prefix_length_le ?_ ⟨_, bytes⟩ (by simp; omega)
      exact ⟨m.argument ++ [10] ++ stream todo, by simp⟩
    obtain ⟨argument, rfl⟩ := front
    exact ⟨argument, by simp⟩
  have length : (m.head ++ 32 :: (m.size ++ 32 :: argument)).length =
      m.head.length + 1 + m.size.length + 1 + argument.length := by
    simp only [List.length_append, List.length_cons]
    omega
  have clean' : CleanAt whole (stream done).length m := by
    refine ⟨fun p after before => left.uncut (by omega) (by omega), fun p after before cut => ?_⟩
    exact absurd cut (left.uncut (by omega) (by omega))
  -- The argument follows the header in the same call.
  have inside : m.head.length + 1 + m.size.length + 1 ≤
      (m.head ++ 32 :: (m.size ++ 32 :: argument)).length := by omega
  have dropped := left.drop inside
  have rest : (m.head ++ 32 :: (m.size ++ 32 :: argument)).drop
      (m.head.length + 1 + m.size.length + 1) = argument := by
    have front : m.head ++ 32 :: (m.size ++ 32 :: argument) =
        (m.head ++ 32 :: m.size ++ [32]) ++ argument := by simp
    rw [front]
    exact List.drop_left' (by simp; omega)
  rw [rest] at dropped
  obtain ⟨next, taken, within, sync, step⟩ := argument_step (k := 0) dropped all split clean clean'
    (Nat.zero_le _) (by omega)
  have received : gebrCommProtocolReceiveData ⟨gebrCommMessageNew, newest done, false⟩
      (m.head ++ 32 :: (m.size ++ 32 :: argument)) = (next, argument.drop taken, true) := by
    rw [gebrCommProtocolReceiveData, if_neg some_byte,
      if_pos (show gebrCommMessageNew.hash = 0 from rfl), receiveHeader_whole m (newest done)]
    rw [List.take_zero] at step
    simp only [step]
  refine ⟨_, _, _, readTurn_sock (Or.inr fun first member => m.head_not_http member _) received, ?_⟩
  exact Or.inl ⟨_, _, dropped.drop within, rfl, sync⟩

/-- **A turn keeps the decoder in step**, or the messages are lost, for a read tears one of them. -/
theorem Sync.turn {protocol : GebrCommProtocol} (all : whole.flatten = stream msgs)
    (sync : Sync whole msgs used protocol) :
    ∃ next rest ret, readTurn quiet (sock protocol) data = some (next, rest, ret) ∧
      Kept whole msgs next (if ret then rest :: later else later) := by
  cases sync with
  | @fresh done todo split clean place state =>
    rw [state]
    cases todo with
    | nil =>
      have bytes := left.message all split place
      exact absurd (List.append_eq_nil_iff.1 bytes).1 some_byte
    | cons m todo =>
      by_cases short : data.length ≤ m.head.length
      · exact torn_head_turn left some_byte all split place short
      · by_cases short' : data.length ≤ m.head.length + 1 + m.size.length
        · exact torn_size_turn left some_byte all split clean place (by omega) short'
        · exact whole_head_turn left some_byte all split clean place (by omega)
  | argument split clean clean' within place state =>
    rw [state]
    exact argument_turn left some_byte all split clean clean' within place
  | short split clean head torn empty after place state =>
    rw [state]
    exact short_turn left some_byte split clean head torn empty after place
  | junk split clean head torn empty after place state =>
    rw [state]
    exact junk_turn left some_byte all split clean head torn empty after place

end Turns

section Runs

variable {whole : List Bytes} {msgs : List OldMessage}

/-- A decoder that is in step at the end has queued all the messages. -/
theorem Sync.ended {used : ℕ} {protocol : GebrCommProtocol} (all : whole.flatten = stream msgs)
    (ended : used = whole.flatten.length) (sync : Sync whole msgs used protocol) :
    protocol = (queued msgs).protocol ∧ Clean whole msgs := by
  rw [all] at ended
  cases sync with
  | @fresh done todo split clean place state =>
    cases todo with
    | nil =>
      rw [List.append_nil] at split
      exact ⟨split ▸ state, split ▸ clean⟩
    | cons m todo =>
      have total := m.length_toBytes
      rw [split, stream_append, List.length_append, length_stream_cons] at ended
      omega
  | argument split clean clean' within place state =>
    rename_i m _ _
    have total := m.length_toBytes
    rw [split, stream_append, List.length_append, length_stream_cons] at ended
    omega
  | short split clean head torn empty after place state =>
    rename_i m _
    have total := m.length_toBytes
    rw [split, stream_append, List.length_append, length_stream_cons] at ended
    omega
  | junk split clean head torn empty after place state =>
    rw [split, stream_append, List.length_append, length_stream_cons] at ended
    omega

/-- **A stream of old messages is decoded if and only if no read tears a message.** -/
theorem decodes_iff (reads : List Bytes) (msgs : List OldMessage) (all : reads.flatten = stream msgs) :
    Decodes reads msgs ↔ Clean reads msgs := by
  refine @readAll_rule Unit quiet (Kept reads msgs)
    (fun final => final = some (queued msgs, ()) ↔ Clean reads msgs) ?_ ?_ ?_ _ _ ?_
  · intro self kept
    rcases kept with ⟨used, protocol, left, rfl, sync⟩ | ⟨torn, lost⟩
    · have ended := left.count
      obtain ⟨rfl, clean⟩ := sync.ended all (by simpa using ended)
      exact ⟨fun _ => clean, fun _ => rfl⟩
    · refine ⟨fun same => absurd ?_ lost.not_queued, fun clean => absurd clean torn⟩
      rw [(Prod.mk.inj (Option.some.inj same)).1]
  · intro self later kept
    rcases kept with ⟨used, protocol, left, rfl, sync⟩ | ⟨torn, lost⟩
    · exact Or.inl ⟨used, protocol, left.empty, rfl, sync⟩
    · exact Or.inr ⟨torn, lost⟩
  · intro self data later some_byte kept
    rcases kept with ⟨used, protocol, left, rfl, sync⟩ | ⟨torn, lost⟩
    · obtain ⟨next, rest, ret, turn, kept⟩ := sync.turn left some_byte all
      rw [turn]
      exact kept
    · cases turn : readTurn quiet self data with
      | none => exact ⟨fun same => absurd same (by simp), fun clean => absurd clean torn⟩
      | some outcome =>
        obtain ⟨next, rest, ret⟩ := outcome
        rw [List.flatten_cons] at lost
        have lost' := lost.readTurn turn
        refine Or.inr ⟨torn, ?_⟩
        cases ret with
        | false => exact lost'
        | true => exact lost'
  · have start : Sync reads msgs 0 gebrCommProtocolNew :=
      @Sync.fresh reads msgs 0 _ [] msgs rfl (fun _ _ _ same => absurd same (by simp)) rfl rfl
    exact Or.inl ⟨0, gebrCommProtocolNew, left_refl reads, rfl, start⟩

/-- An `OUT` with one parameter. -/
def outMessage : OldMessage where
  code := ascii "OUT"
  isReturn := false
  params := [some (ascii "ab")]
  known := by decide
  fits := by decide

/-- A cut in the argument, and one before the line feed. -/
theorem decodes_iff_argument :
    Clean [ascii "OUT 4 2|", ascii "ab", [10]] [outMessage] :=
  (decodes_iff _ _ (by decide)).1 (by unfold Decodes; decide +kernel)

/-- A cut in the code, and the message is lost. -/
theorem decodes_torn_head :
    ([ascii "OU", ascii "T 4 2|ab" ++ [10]].flatten = stream [outMessage] ∧
      ∀ data ∈ [ascii "OU", ascii "T 4 2|ab" ++ [10]], data ≠ []) ∧
      ¬ Decodes [ascii "OU", ascii "T 4 2|ab" ++ [10]] [outMessage] := by
  refine ⟨by decide, ?_⟩
  unfold Decodes
  decide +kernel

end Runs

end Gebr.Comm
