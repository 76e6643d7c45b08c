/-
**The file of authorised cookies, and the processes on it.**

Each daemon and each maestro is a process of its own, and all of them work on one file: a new cookie
is read from the standard input and appended, a cookie that comes with a login is looked for, and
one that was found is removed by writing the other lines again. A symbolic link is the lock of the
file.

* `getLines`, `putLines`: the text of the file and its lines; `getLines_putLines` is the round trip.
* `Place`: where a process is, between two operations on the file or on its lock.
* `step`: any process goes on from its place, in any order.
* `Ledger`: what the lines are for: which lines are to be there, each under its number, and which
  have let a login in.
-/

import Gebr.Lib.CString
import Mathlib.Logic.Function.Basic

namespace Gebr.Auth

open Gebr.Lib.CString (isSpace gAsciiIsspace gStrstrip)

/-- A C string. -/
abbrev Bytes := List UInt8

section Text

/-- `getline`, to the end of the text: the lines, without what ends them. -/
def getLines : Bytes → List Bytes
  | [] => []
  | b :: text =>
    if b = 10 then [] :: getLines text
    else
      match getLines text with
      | [] => [[b]]
      | line :: lines => (b :: line) :: lines

/-- `fprintf (fp, "%s\n")` of each line. -/
def putLines (lines : List Bytes) : Bytes := lines.flatMap fun line => line ++ [10]

/-- The lines of a text as they are compared with a key. -/
def keysOf (text : Bytes) : List Bytes := (getLines text).map gStrstrip

/-- `scanf ("%64s")`: a word of at most 64 bytes, as a C string. -/
def scanWord (input : Bytes) : Option Bytes :=
  let word := ((input.dropWhile isSpace).takeWhile fun b => !isSpace b).take 64
  if word = [] then none else some (word.takeWhile fun b => b ≠ 0)

/-- A key that is a line of its own: no white space, and no end of the string. -/
def Clean (key : Bytes) : Prop := ∀ b ∈ key, isSpace b = false ∧ b ≠ 0

variable {key : Bytes}

theorem clean_scanWord {input : Bytes} (found : scanWord input = some key) : Clean key := by
  unfold scanWord at found
  dsimp only at found
  split at found
  · cases found
  · obtain rfl := Option.some.inj found
    intro b member
    have word := (List.takeWhile_sublist _).subset member
    have visible := List.mem_takeWhile_imp ((List.take_sublist _ _).subset word)
    have full := List.mem_takeWhile_imp member
    exact ⟨by simpa using visible, by simpa using full⟩

theorem Clean.visible (clean : Clean key) {b : UInt8} (member : b ∈ key) :
    gAsciiIsspace b = false := by
  have visible := (clean b member).1
  unfold gAsciiIsspace
  unfold isSpace at visible
  rw [Bool.or_eq_false_iff, decide_eq_false_iff_not, Bool.and_eq_false_iff] at visible
  simp only [Bool.or_eq_false_iff, decide_eq_false_iff_not]
  obtain ⟨blank, range⟩ := visible
  refine ⟨⟨⟨⟨blank, ?_⟩, ?_⟩, ?_⟩, ?_⟩ <;> rintro rfl <;> revert range <;> decide

theorem Clean.no_newline (clean : Clean key) : (10 : UInt8) ∉ key := by
  intro member
  exact absurd (clean 10 member).1 (by decide)

theorem Clean.strip (clean : Clean key) : gStrstrip key = key := by
  have whole : (key.takeWhile fun b => b ≠ 0) = key :=
    List.takeWhile_eq_self_iff.2 fun b member => decide_eq_true (clean b member).2
  have front : key.dropWhile gAsciiIsspace = key := by
    rw [List.dropWhile_eq_self_iff]
    intro some_byte
    rw [clean.visible (List.getElem_mem some_byte)]
    exact Bool.false_ne_true
  have back : key.rdropWhile gAsciiIsspace = key := by
    rw [List.rdropWhile_eq_self_iff]
    intro some_byte
    rw [clean.visible (List.getLast_mem some_byte)]
    exact Bool.false_ne_true
  rw [gStrstrip, whole, front, back]

theorem getLines_cons {line : Bytes} (single : (10 : UInt8) ∉ line) (text : Bytes) :
    getLines (line ++ 10 :: text) = line :: getLines text := by
  induction line with
  | nil => rfl
  | cons b line ih =>
    rw [List.mem_cons, not_or] at single
    rw [List.cons_append, getLines, if_neg (Ne.symm single.1), ih single.2]

/-- **What is printed line by line is read line by line.** -/
theorem getLines_putLines {lines : List Bytes} (single : ∀ line ∈ lines, (10 : UInt8) ∉ line) :
    getLines (putLines lines) = lines := by
  induction lines with
  | nil => rfl
  | cons line lines ih =>
    have rest := ih fun other member => single other (List.mem_cons_of_mem _ member)
    rw [putLines, List.flatMap_cons, List.append_assoc, List.singleton_append,
      getLines_cons (single line List.mem_cons_self)]
    exact congrArg _ rest

theorem keysOf_putLines {lines : List Bytes} (clean : ∀ line ∈ lines, Clean line) :
    keysOf (putLines lines) = lines := by
  rw [keysOf, getLines_putLines fun line member => (clean line member).no_newline]
  conv_rhs => rw [← List.map_id lines]
  exact List.map_congr_left fun line member => (clean line member).strip

theorem putLines_concat (lines : List Bytes) (line : Bytes) :
    putLines (lines ++ [line]) = putLines lines ++ putLines [line] :=
  List.flatMap_append

end Text

section Ledger

/-- **What the file is for**: the lines that are to be there, each with the number under which it
was written, and the numbers of the lines that have let a login in. -/
structure Ledger where
  written : ℕ
  lines : List (ℕ × Bytes)
  used : List ℕ
  deriving DecidableEq, Repr

/-- A new line. -/
def Ledger.write (key : Bytes) (ledger : Ledger) : Ledger :=
  { ledger with
    written := ledger.written + 1
    lines := ledger.lines ++ [(ledger.written, key)] }

/-- All lines of a cookie go. -/
def Ledger.remove (key : Bytes) (ledger : Ledger) : Ledger :=
  { ledger with lines := ledger.lines.filter fun line => line.2 ≠ key }

/-- The first line of a cookie, by its number. -/
def Ledger.find (key : Bytes) (ledger : Ledger) : Option ℕ :=
  (ledger.lines.find? fun line => line.2 = key).map Prod.fst

/-- A line lets a login in. -/
def Ledger.use (number : ℕ) (ledger : Ledger) : Ledger :=
  { ledger with used := ledger.used ++ [number] }

def Ledger.keys (ledger : Ledger) : List Bytes := ledger.lines.map Prod.snd

variable {ledger : Ledger} {key : Bytes}

@[simp] theorem Ledger.keys_write : (ledger.write key).keys = ledger.keys ++ [key] :=
  List.map_append

@[simp] theorem Ledger.keys_use (number : ℕ) : (ledger.use number).keys = ledger.keys := rfl

theorem Ledger.keys_remove : (ledger.remove key).keys = ledger.keys.filter fun other =>
    other ≠ key := by
  rw [Ledger.keys, Ledger.keys, Ledger.remove, List.filter_map]
  rfl

theorem Ledger.find_of_mem (member : key ∈ ledger.keys) :
    ∃ number, ledger.find key = some number ∧ (number, key) ∈ ledger.lines := by
  obtain ⟨⟨number, other⟩, there, rfl⟩ := List.mem_map.1 member
  cases found : ledger.lines.find? fun line => line.2 = other with
  | none =>
    have all := List.find?_eq_none.1 found _ there
    exact absurd (decide_eq_true rfl) all
  | some line =>
    have same : line.2 = other := by simpa using List.find?_some found
    refine ⟨line.1, ?_, ?_⟩
    · rw [Ledger.find, found]
      rfl
    · rw [← same]
      exact List.mem_of_find?_eq_some found

end Ledger

section Model

/-- What a process does on the file. -/
inductive Operation where
  /-- `gebr_auth_read_cookie`, with what the standard input has. -/
  | readCookie (input : Bytes)
  | accepts (key : Bytes)
  | removeCookie (key : Bytes)
  deriving DecidableEq, Repr

/-- **Where a process is**: at the next call that touches the file or its lock. In
`gebr_auth_remove_cookie`, `found` is the number of the line that the `gebr_auth_accepts` around it
has found; a removal of its own has none. -/
inductive Place where
  | idle
  | readLock (key : Bytes)
  | readOpen (key : Bytes)
  | readPrint (key : Bytes)
  | readUnlock
  | acceptOpen (key : Bytes)
  | acceptRead (key : Bytes)
  | removeLock (key : Bytes) (found : Option ℕ)
  | removeOpen (key : Bytes) (found : Option ℕ)
  | removeRead (key : Bytes) (found : Option ℕ)
  | removeTruncate (key : Bytes) (found : Option ℕ) (list : List Bytes)
  | removePrint (key : Bytes) (found : Option ℕ) (list : List Bytes)
  | removeUnlock
  deriving DecidableEq, Repr

/-- All processes, the file with its lock, and the ledger of the file. -/
structure GebrAuth (ι : Type) where
  places : ι → Place
  file : Option Bytes
  lock : Bool
  ledger : Ledger

/-- A process starts an operation, or makes its next call. -/
inductive Event (ι : Type) where
  | start (p : ι) (operation : Operation)
  | proceed (p : ι)
  deriving DecidableEq, Repr

/-- The first call of an operation; without a word in the input there is none. -/
def Operation.first : Operation → Place
  | .readCookie input =>
    match scanWord input with
    | none => .idle
    | some key => .readLock key
  | .accepts key => .acceptOpen key
  | .removeCookie key => .removeLock key none

variable {ι : Type} [DecidableEq ι]

/-- No cookie has been written, and no process is at work. -/
def authNew : GebrAuth ι := ⟨fun _ => .idle, none, false, ⟨0, [], []⟩⟩

/-- The process goes to another place. -/
def GebrAuth.goto (p : ι) (place : Place) (self : GebrAuth ι) : GebrAuth ι :=
  { self with places := Function.update self.places p place }

/-- `GEBR_LOCK_FILE`: the link is made, or is tried again. -/
def gebrLockFile (p : ι) (place : Place) (self : GebrAuth ι) : GebrAuth ι :=
  if self.lock = true then self else { self with lock := true }.goto p place

/-- `GEBR_UNLOCK_FILE`, with which the operation ends. -/
def gebrUnlockFile (p : ι) (self : GebrAuth ι) : GebrAuth ι := { self with lock := false }.goto p .idle

/-- The text of the file, for a process that has opened it. -/
def GebrAuth.text (self : GebrAuth ι) : Bytes := self.file.getD []

/-- The loop of `gebr_auth_accepts` over the lines, after which the key is removed if it was
found. -/
def acceptLines (p : ι) (key : Bytes) (self : GebrAuth ι) : GebrAuth ι :=
  if key ∈ keysOf self.text then
    match self.ledger.find key with
    | none => self.goto p (.removeLock key none)
    | some number =>
      { self with ledger := self.ledger.use number }.goto p (.removeLock key (some number))
  else self.goto p .idle

/-- The next call of a process. -/
def proceed (p : ι) (self : GebrAuth ι) : Option (GebrAuth ι) :=
  match self.places p with
  | .idle => none
  | .readLock key => some (gebrLockFile p (.readOpen key) self)
  | .readOpen key => some ({ self with file := some self.text }.goto p (.readPrint key))
  | .readPrint key =>
    -- the mode is to append
    some ({ self with
      file := some (self.text ++ putLines [key])
      ledger := self.ledger.write key }.goto p .readUnlock)
  | .readUnlock => some (gebrUnlockFile p self)
  | .acceptOpen key => some (self.goto p (if self.file.isSome then .acceptRead key else .idle))
  | .acceptRead key => some (acceptLines p key self)
  | .removeLock key found => some (gebrLockFile p (.removeOpen key found) self)
  | .removeOpen key found =>
    -- without the file the function returns, and the link stays
    some (self.goto p (if self.file.isSome then .removeRead key found else .idle))
  | .removeRead key found =>
    let list := (keysOf self.text).filter fun line => line ≠ key
    some (self.goto p (.removeTruncate key found list))
  | .removeTruncate key found list =>
    some ({ self with file := some [] }.goto p (.removePrint key found list))
  | .removePrint key _ list =>
    some ({ self with
      file := some (putLines list ++ self.text.drop (putLines list).length)
      ledger := self.ledger.remove key }.goto p .removeUnlock)
  | .removeUnlock => some (gebrUnlockFile p self)

/-- **Any process goes on.** -/
def step (self : GebrAuth ι) : Event ι → Option (GebrAuth ι)
  | .start p operation =>
    if self.places p = .idle then some (self.goto p operation.first) else none
  | .proceed p => proceed p self

end Model

end Gebr.Auth
