/-
**Old messages on a stream, and where the stream is cut.**

* `OldMessage`: what is built into a message, and `OldMessage.received`: what is to be decoded from
  it.
* `Decodes`: some reads queue exactly some messages, and leave nothing pending.
* `Cut`, `CleanAt`, `Clean`: no read ends inside a head; and none inside a size, except for an empty
  argument whose message is followed by the end of a read.
* `receiveHeader_whole`, `receiveHeader_short`: the decoder on the beginning of a message.
-/

import Gebr.Comm.ProtocolSocket

namespace Gebr.Comm

open Gebr.Lib.CString

section Messages

/-- A message to be built: a registered code, and an argument that fits into the memory. -/
structure OldMessage where
  code : Bytes
  isReturn : Bool
  params : List (Option Bytes)
  known : code ∈ registered
  fits : (joinParams params).length < 2 ^ 63 - 1

namespace OldMessage

variable (m : OldMessage)

def head : Bytes := if m.isReturn = false then m.code else retCode ++ 58 :: m.code

def argument : Bytes := joinParams m.params

def size : Bytes := decimal m.argument.length

def toBytes : Bytes := gebrCommProtocolBuildAnyMessagev m.code m.isReturn m.params

/-- The message that the decoder is to queue. -/
def received : GebrCommMessage where
  hash := if m.isReturn = false then gStrHash m.code else gStrHash retCode
  retHash := if m.isReturn = false then none else some (gStrHash m.code)
  argumentSize := m.argument.length
  argument := m.argument

theorem toBytes_eq : m.toBytes = m.head ++ 32 :: (m.size ++ 32 :: (m.argument ++ [10])) := by
  show m.head ++ 32 :: m.size ++ 32 :: m.argument ++ [10] = _
  simp only [List.append_assoc, List.cons_append]

theorem length_toBytes :
    m.toBytes.length = m.head.length + 1 + m.size.length + 1 + m.argument.length + 1 := by
  simp only [toBytes_eq, List.length_append, List.length_cons, List.length_nil]
  omega

end OldMessage

/-- The bytes of some messages, one after another. -/
def stream (msgs : List OldMessage) : Bytes := msgs.flatMap OldMessage.toBytes

@[simp] theorem stream_nil : stream [] = [] := rfl

@[simp] theorem stream_cons (m : OldMessage) (msgs : List OldMessage) :
    stream (m :: msgs) = m.toBytes ++ stream msgs := rfl

@[simp] theorem stream_append (first second : List OldMessage) :
    stream (first ++ second) = stream first ++ stream second := List.flatMap_append

end Messages

section Codes

theorem retCode_registered : retCode ∈ registered := by decide

theorem registered_clean {code : Bytes} (known : code ∈ registered) :
    (32 ∉ code ∧ 58 ∉ code ∧ 10 ∉ code) ∧ 2 ≤ code.length ∧ gStrHash code ≠ 0 := by
  have all : ∀ code ∈ registered,
      (32 ∉ code ∧ 58 ∉ code ∧ 10 ∉ code) ∧ 2 ≤ code.length ∧ gStrHash code ≠ 0 := by
    decide +kernel
  exact all code known

theorem hash_injective {code other : Bytes} (known : code ∈ registered) (known' : other ∈ registered)
    (same : gStrHash code = gStrHash other) : code = other := by
  have all : ∀ code ∈ registered, ∀ other ∈ registered, gStrHash code = gStrHash other →
      code = other := by
    decide +kernel
  exact all code known other known' same

theorem codeOfHash_hash {code : Bytes} (known : code ∈ registered) :
    codeOfHash (gStrHash code) = some code := by
  unfold codeOfHash
  cases found : registered.find? fun other => gStrHash other = gStrHash code with
  | none => exact absurd (decide_eq_true rfl) (List.find?_eq_none.1 found code known)
  | some other =>
    have same : gStrHash other = gStrHash code := by simpa using List.find?_some found
    rw [hash_injective (List.mem_of_find?_eq_some found) known same]

/-- No code is the first word of an HTTP message. -/
theorem httpPrefix_word {first : Bytes} (member : first ∈ httpPrefixes) :
    ∃ word, first = word ++ [32] ∧ 32 ∉ word ∧ 58 ∉ word ∧ word ∉ registered := by
  have all : ∀ first ∈ httpPrefixes, first = first.dropLast ++ [32] ∧ 32 ∉ first.dropLast ∧
      58 ∉ first.dropLast ∧ first.dropLast ∉ registered := by
    decide +kernel
  exact ⟨first.dropLast, all first member⟩

/-- An HTTP message begins with neither a space nor a line feed. -/
theorem httpPrefix_head {first : Bytes} (member : first ∈ httpPrefixes) {b : UInt8}
    (blank : b = 32 ∨ b = 10) (rest : Bytes) : ¬ first <+: b :: rest := by
  have all : ∀ first ∈ httpPrefixes, ∀ c ∈ [32, 10], first.head? ≠ none ∧ first.head? ≠ some c := by
    decide +kernel
  have away := all first member b (by rcases blank with rfl | rfl <;> decide)
  intro begins
  rcases List.prefix_cons_iff.1 begins with rfl | ⟨tail, rfl, -⟩
  · exact away.1 rfl
  · exact away.2 rfl

theorem splitRet_clean {token : Bytes} (clean : 58 ∉ token) : splitRet token = (token, none) := by
  have all : token.reverse.takeWhile (· ≠ 58) = token.reverse := by
    rw [List.takeWhile_eq_self_iff]
    intro b member
    exact decide_eq_true fun same => clean (same ▸ List.mem_reverse.1 member)
  unfold splitRet
  simp only [all, List.length_reverse, if_true]

theorem splitRet_ret {code : Bytes} (front : Bytes) (clean : 58 ∉ code) :
    splitRet (front ++ 58 :: code) = (front, some code) := by
  have tail : (front ++ 58 :: code).reverse.takeWhile (· ≠ 58) = code.reverse := by
    rw [List.reverse_append, List.reverse_cons, List.append_assoc, List.singleton_append]
    exact takeWhile_ne (fun member => clean (List.mem_reverse.1 member)) _
  have shorter : ¬ code.reverse.length = (front ++ 58 :: code).length := by
    rw [List.length_reverse, List.length_append, List.length_cons]
    omega
  have before : (front ++ 58 :: code).length - code.reverse.length - 1 = front.length := by
    rw [List.length_reverse, List.length_append, List.length_cons]
    omega
  unfold splitRet
  simp only [tail, if_neg shorter, before, List.reverse_reverse, List.take_left']

theorem splitRet_join (token : Bytes) :
    (58 ∉ token ∧ splitRet token = (token, none)) ∨
      ∃ front code, splitRet token = (front, some code) ∧ token = front ++ 58 :: code := by
  by_cases clean : 58 ∈ token
  · right
    obtain ⟨code, front, split, last⟩ := List.eq_append_cons_of_mem (List.mem_reverse.2 clean)
    have whole : token = front.reverse ++ 58 :: code.reverse := by
      rw [← List.reverse_reverse token, split]
      simp
    refine ⟨front.reverse, code.reverse, ?_, whole⟩
    rw [whole]
    exact splitRet_ret _ fun member => last (List.mem_reverse.1 member)
  · exact Or.inl ⟨clean, splitRet_clean clean⟩

end Codes

namespace OldMessage

variable (m : OldMessage)

theorem head_clean : 32 ∉ m.head := by
  have clean := (registered_clean m.known).1.1
  unfold head
  split
  · exact clean
  · intro member
    rcases List.mem_append.1 member with front | back
    · exact (registered_clean retCode_registered).1.1 front
    · exact clean ((List.mem_cons.1 back).resolve_left (by decide))

theorem two_le_head : 2 ≤ m.head.length := by
  have long := (registered_clean m.known).2.1
  unfold head
  split
  · exact long
  · rw [List.length_append, List.length_cons]
    omega

/-- The code, and the code that a `RET` answers. -/
theorem splitRet_head :
    splitRet m.head = if m.isReturn = false then (m.code, none) else (retCode, some m.code) := by
  have clean := (registered_clean m.known).1.2.1
  unfold head
  split
  · exact splitRet_clean clean
  · exact splitRet_ret retCode clean

theorem hash_ne_zero : m.received.hash ≠ 0 := by
  unfold received
  simp only
  split
  · exact (registered_clean m.known).2.2
  · exact (registered_clean retCode_registered).2.2

/-- No HTTP message begins with a head. -/
theorem head_not_http {first : Bytes} (member : first ∈ httpPrefixes) (rest : Bytes) :
    ¬ first <+: m.head ++ 32 :: rest := by
  obtain ⟨word, rfl, clean, noColon, unknown⟩ := httpPrefix_word member
  rintro ⟨tail, same⟩
  rw [List.append_assoc, List.singleton_append] at same
  have words : word = m.head := by
    rw [← takeWhile_ne clean tail, same, takeWhile_ne m.head_clean]
  have shape := words
  unfold head at shape
  split at shape
  · exact unknown (shape ▸ m.known)
  · exact noColon (shape ▸ List.mem_append_right _ List.mem_cons_self)

/-- A decoded hash and answer are those of one head only. -/
theorem head_of_hashes {token code : Bytes} {ret : Option Bytes} (split : splitRet token = (code, ret))
    (known : code ∈ registered) (known' : ∀ r ∈ ret, r ∈ registered)
    (same : gStrHash code = m.received.hash) (same' : ret.map gStrHash = m.received.retHash) :
    token = m.head := by
  unfold received at same same'
  simp only at same same'
  unfold head
  rcases splitRet_join token with ⟨-, plain⟩ | ⟨front, answer, parts, whole⟩
  · obtain ⟨rfl, rfl⟩ := Prod.mk.inj (split.symm.trans plain)
    by_cases returns : m.isReturn = false
    · rw [if_pos returns] at same ⊢
      exact hash_injective known m.known same
    · rw [if_neg returns] at same'
      exact nomatch same'
  · obtain ⟨rfl, rfl⟩ := Prod.mk.inj (split.symm.trans parts)
    by_cases returns : m.isReturn = false
    · rw [if_pos returns] at same'
      exact nomatch same'
    · rw [if_neg returns] at same same' ⊢
      rw [whole, hash_injective known retCode_registered same,
        hash_injective (known' answer rfl) m.known (Option.some.inj same')]

end OldMessage

section Headers

variable (m : OldMessage)

theorem gStrsplit_two {first size : Bytes} (clean : 32 ∉ first) (clean' : 32 ∉ size) :
    gStrsplit 32 3 (first ++ 32 :: size) = [first, size] := by
  rw [gStrsplit, if_neg (List.append_ne_nil_of_right_ne_nil _ (List.cons_ne_nil _ _))]
  show splitTokens 32 2 _ = _
  rw [splitTokens_cons clean, splitTokens_clean clean']

theorem gStrsplit_three {first size : Bytes} (clean : 32 ∉ first) (clean' : 32 ∉ size) (rest : Bytes) :
    gStrsplit 32 3 (first ++ 32 :: (size ++ 32 :: rest)) = [first, size, rest] := by
  rw [gStrsplit, if_neg (List.append_ne_nil_of_right_ne_nil _ (List.cons_ne_nil _ _))]
  show splitTokens 32 2 _ = _
  rw [splitTokens_cons clean, splitTokens_cons clean', splitTokens]

theorem gStrsplit_one {first : Bytes} (clean : 32 ∉ first) (some_byte : first ≠ []) :
    gStrsplit 32 3 first = [first] := by
  rw [gStrsplit, if_neg some_byte, splitTokens_clean clean]

theorem digits_clean {digits : Bytes} (all : ∀ b ∈ digits, isDigit b = true) : 32 ∉ digits :=
  fun member => absurd (all 32 member) (by decide)

theorem OldMessage.size_digits : ∀ b ∈ m.size, isDigit b = true := fun _ => isDigit_of_mem_decimal

/-- The decoder on a head and on digits, when `errno` is clear. -/
theorem receiveHeader_digits {digits : Bytes} (all : ∀ b ∈ digits, isDigit b = true)
    (fits : value digits < 2 ^ 63) (queue : List GebrCommMessage) (data : Bytes)
    (rest : List Bytes) (tokens : gStrsplit 32 3 data = m.head :: digits :: rest) :
    receiveHeader ⟨gebrCommMessageNew, queue, false⟩ data =
      .ok (⟨{ m.received with argumentSize := value digits, argument := [] }, queue, false⟩,
        data.drop (m.head.length + 1 + digits.length + if rest = [] then 0 else 1)) := by
  have known := m.known
  unfold receiveHeader
  rw [tokens]
  simp only [OldMessage.splitRet_head, strtol_digits all fits, toSize_natCast fits]
  cases returns : m.isReturn with
  | false =>
    simp only [if_true, known, not_true_eq_false, if_false, OldMessage.head, returns]
    simp [OldMessage.received, returns, gebrCommMessageNew]
  | true =>
    have ret := retCode_registered
    simp [OldMessage.received, returns, gebrCommMessageNew, known, ret, OldMessage.head]
    congr 1
    omega

/-- **The decoder on a whole header.** -/
theorem receiveHeader_whole (queue : List GebrCommMessage) (rest : Bytes) :
    receiveHeader ⟨gebrCommMessageNew, queue, false⟩ (m.head ++ 32 :: (m.size ++ 32 :: rest)) =
      .ok (⟨{ m.received with argument := [] }, queue, false⟩, rest) := by
  have fits : value m.size < 2 ^ 63 := by
    rw [OldMessage.size, value_decimal]
    have := m.fits
    unfold OldMessage.argument
    omega
  rw [receiveHeader_digits m m.size_digits fits queue _ [rest]
    (gStrsplit_three m.head_clean (digits_clean m.size_digits) rest)]
  congr 2
  · rw [OldMessage.size, value_decimal]
    rfl
  · have front : m.head ++ 32 :: (m.size ++ 32 :: rest) = (m.head ++ 32 :: m.size ++ [32]) ++
        rest := by
      simp only [List.append_assoc, List.cons_append, List.nil_append]
    rw [front]
    apply List.drop_left'
    simp only [List.length_append, List.length_cons, List.length_nil, List.cons_ne_nil, if_false]
    omega

/-- **The decoder on a header that is cut in its size**: it takes the digits for all of them. -/
theorem receiveHeader_short {digits : Bytes} (begins : digits <+: m.size)
    (queue : List GebrCommMessage) :
    receiveHeader ⟨gebrCommMessageNew, queue, false⟩ (m.head ++ 32 :: digits) =
      .ok (⟨{ m.received with argumentSize := value digits, argument := [] }, queue, false⟩, []) := by
  have all : ∀ b ∈ digits, isDigit b = true := fun b member => m.size_digits b (begins.subset member)
  have fits : value digits < 2 ^ 63 := by
    have room := m.fits
    by_cases whole : digits = m.size
    · rw [whole, OldMessage.size, value_decimal]
      unfold OldMessage.argument
      omega
    · rcases Nat.eq_zero_or_pos m.argument.length with none | some
      · have one : m.size = [48] := by rw [OldMessage.size, none]; rfl
        rw [one] at begins whole
        rcases List.prefix_cons_iff.1 begins with rfl | ⟨tail, rfl, inner⟩
        · decide
        · rw [List.prefix_nil.1 inner] at whole
          exact absurd rfl whole
      · have less := value_lt_of_begins begins whole some
        unfold OldMessage.argument at less
        omega
  rw [receiveHeader_digits m all fits queue _ [] (gStrsplit_two m.head_clean (digits_clean all))]
  congr 2
  apply List.drop_eq_nil_of_le
  simp only [List.length_append, List.length_cons, if_true]
  omega

end Headers

section Cuts

/-- A read ends at the place, and bytes follow. -/
def Cut (reads : List Bytes) (place : ℕ) : Prop :=
  ∃ before after, reads = before ++ after ∧ before.flatten.length = place ∧ after.flatten ≠ []

/-- A read ends at the place, or the stream does. -/
def Boundary (reads : List Bytes) (place : ℕ) : Prop :=
  Cut reads place ∨ reads.flatten.length = place

/-- The reads do not tear the message that begins at the place: none ends in its head, and none in
its size, unless the argument is empty and a read ends with the message. -/
structure CleanAt (reads : List Bytes) (start : ℕ) (m : OldMessage) : Prop where
  head : ∀ place, start < place → place ≤ start + m.head.length → ¬ Cut reads place
  size : ∀ place, start + m.head.length < place →
    place ≤ start + m.head.length + 1 + m.size.length → Cut reads place →
      m.argument = [] ∧ Boundary reads (start + m.toBytes.length)

/-- The reads do not tear any of the messages. -/
def Clean (reads : List Bytes) (msgs : List OldMessage) : Prop :=
  ∀ before m after, msgs = before ++ m :: after → CleanAt reads (stream before).length m

/-- Nobody takes the messages that are queued. -/
def quiet : Handler Unit := fun _ self => self

/-- The socket once it has queued some messages, and nothing is pending. -/
def queued (msgs : List OldMessage) : GebrCommProtocolSocket :=
  { gebrCommProtocolSocketNew with
    protocol := ⟨gebrCommMessageNew, (msgs.map OldMessage.received).reverse, false⟩ }

/-- **The reads queue exactly the messages**, in order, and leave nothing pending. -/
def Decodes (reads : List Bytes) (msgs : List OldMessage) : Prop :=
  readAll quiet (gebrCommProtocolSocketNew, ()) reads = some (queued msgs, ())

variable {whole reads later : List Bytes} {data : Bytes} {used : ℕ}

/-- What is left of some reads once some bytes are used up. -/
structure Left (whole : List Bytes) (used : ℕ) (reads : List Bytes) : Prop where
  bytes : reads.flatten = whole.flatten.drop used
  bound : used ≤ whole.flatten.length
  cuts : ∀ place, 0 < place → (Cut reads place ↔ Cut whole (used + place))

theorem left_refl (whole : List Bytes) : Left whole 0 whole :=
  ⟨rfl, Nat.zero_le _, fun place _ => by rw [Nat.zero_add]⟩

/-- The cuts behind the first bytes of a read. -/
theorem cut_drop {k place : ℕ} (inside : k ≤ data.length) (positive : 0 < place) :
    Cut (data.drop k :: later) place ↔ Cut (data :: later) (k + place) := by
  constructor
  · rintro ⟨before, after, split, length, more⟩
    cases before with
    | nil => exact absurd length (by simpa using positive.ne)
    | cons first before =>
      obtain ⟨rfl, rfl⟩ := List.cons.inj split
      refine ⟨data :: before, after, rfl, ?_, more⟩
      simp only [List.flatten_cons, List.length_append, List.length_drop] at length ⊢
      omega
  · rintro ⟨before, after, split, length, more⟩
    cases before with
    | nil => exact absurd length (by simp only [List.flatten_nil, List.length_nil]; omega)
    | cons first before =>
      obtain ⟨rfl, rfl⟩ := List.cons.inj split
      refine ⟨data.drop k :: before, after, rfl, ?_, more⟩
      simp only [List.flatten_cons, List.length_append, List.length_drop] at length ⊢
      omega

theorem cut_empty {place : ℕ} (positive : 0 < place) : Cut ([] :: later) place ↔ Cut later place := by
  constructor
  · rintro ⟨before, after, split, length, more⟩
    cases before with
    | nil => exact absurd length (by simpa using positive.ne)
    | cons first before =>
      obtain ⟨rfl, rfl⟩ := List.cons.inj split
      exact ⟨before, after, rfl, length, more⟩
  · rintro ⟨before, after, rfl, length, more⟩
    exact ⟨[] :: before, after, rfl, length, more⟩

theorem Left.empty (left : Left whole used ([] :: later)) : Left whole used later :=
  ⟨left.bytes, left.bound, fun place positive => by
    rw [← cut_empty positive, left.cuts place positive]⟩

theorem Left.drop (left : Left whole used (data :: later)) {k : ℕ} (inside : k ≤ data.length) :
    Left whole (used + k) (data.drop k :: later) := by
  refine ⟨?_, ?_, fun place positive => ?_⟩
  · have bytes := left.bytes
    rw [List.flatten_cons] at bytes ⊢
    rw [← List.drop_drop, ← bytes, List.drop_append_of_le_length inside]
  · have bytes := congrArg List.length left.bytes
    have bound := left.bound
    rw [List.flatten_cons, List.length_append, List.length_drop] at bytes
    omega
  · rw [cut_drop inside positive, left.cuts _ (by omega), Nat.add_assoc]

theorem Left.next (left : Left whole used (data :: later)) :
    Left whole (used + data.length) later := by
  have dropped := left.drop le_rfl
  rw [List.drop_length] at dropped
  exact dropped.empty

theorem Left.cut (left : Left whole used (data :: later)) (some_byte : data ≠ [])
    (more : later.flatten ≠ []) : Cut whole (used + data.length) := by
  rw [← left.cuts _ (List.length_pos_iff.2 some_byte)]
  exact ⟨[data], later, rfl, by simp, more⟩

theorem Left.uncut (left : Left whole used (data :: later)) {place : ℕ} (after : used < place)
    (inside : place < used + data.length) : ¬ Cut whole place := by
  obtain ⟨k, rfl⟩ := Nat.exists_eq_add_of_lt after
  have shift : used + k + 1 = used + (k + 1) := by omega
  rw [shift, ← left.cuts _ (Nat.succ_pos k)]
  rintro ⟨before, more, split, length, -⟩
  cases before with
  | nil => exact absurd length (by simp)
  | cons first before =>
    obtain ⟨rfl, -⟩ := List.cons.inj split
    rw [List.flatten_cons, List.length_append] at length
    omega

end Cuts

end Gebr.Comm
