/-
**The addresses of the maestros of a domain.**

The settings have a list of addresses for each domain. An address is put in front of the list, or
behind it when it is not there; but the separator is left out behind a list of one byte.

* `gebrMaestroSettingsPrependAddress`, `gebrMaestroSettingsAppendAddress`: the two.
* `Op.ideal`: what they are to do to the list.
* `perform_iff`: they do it iff the address can be an item, and is not put behind a list of one
  byte.
* `addresses_iff` — **when the list is what it is to be after any of them**.
* `one_byte`: two addresses of one byte.
-/

import Gebr.Lib.KeyFile
import Gebr.Lib.Separated
import Gebr.Lib.SeparatedList

namespace Gebr.Maestro.Settings

open Gebr.Lib Gebr.Lib.CString Gebr.Lib.KeyFile Gebr.Lib.Separated Gebr.Lib.SeparatedList Gebr.Lib.Utf8

abbrev Text : Type := List UInt8

section Model

/-- The key file, and what is saved of it. -/
structure GebrMaestroSettings where
  maestroKey : GKeyFile
  saved : GKeyFile

/-- `gebr_maestro_settings_save`. -/
def gebrMaestroSettingsSave (ms : GebrMaestroSettings) : GebrMaestroSettings :=
  { ms with saved := ms.maestroKey }

/-- `gebr_g_key_file_load_string_key`. -/
def gebrGKeyFileLoadStringKey (keyFile : GKeyFile) (group key defaultValue : Text) : Text :=
  match (getString keyFile group key).1 with
  | none => defaultValue
  | some tmp => if tmp = [] then defaultValue else tmp

/-- `gebr_maestro_settings_get_addrs`. -/
def gebrMaestroSettingsGetAddrs (ms : GebrMaestroSettings) (domain : Text) : Text :=
  gebrGKeyFileLoadStringKey ms.maestroKey domain (ascii "maestro") []

/-- A list set and saved. -/
def setAddrs (ms : GebrMaestroSettings) (domain buf : Text) : GebrMaestroSettings :=
  gebrMaestroSettingsSave
    { ms with maestroKey := setString ms.maestroKey domain (ascii "maestro") buf }

/-- `gebr_maestro_settings_prepend_address`. -/
def gebrMaestroSettingsPrependAddress (ms : GebrMaestroSettings) (domain addr : Text) :
    GebrMaestroSettings :=
  if addr = [] then ms
  else
    let maestro := gebrGKeyFileLoadStringKey ms.maestroKey domain (ascii "maestro") []
    let list := gStrsplit 44 0 maestro
    setAddrs ms domain (addr ++ list.flatMap fun item => if item ≠ addr then 44 :: item else [])

/-- `gebr_maestro_settings_append_address`. -/
def gebrMaestroSettingsAppendAddress (ms : GebrMaestroSettings) (domain addr : Text) :
    GebrMaestroSettings :=
  if addr = [] then ms
  else
    let maestro := gebrGKeyFileLoadStringKey ms.maestroKey domain (ascii "maestro") []
    let list := gStrsplit 44 0 maestro
    let buf := if addr ∉ list then (if 1 < maestro.length then maestro ++ [44] else maestro) ++
      addr else maestro
    setAddrs ms domain buf

/-- One of the two, with an address. -/
inductive Op
  | prepend (addr : Text)
  | append (addr : Text)

def Op.addr : Op → Text
  | .prepend addr => addr
  | .append addr => addr

def perform (domain : Text) (ms : GebrMaestroSettings) : Op → GebrMaestroSettings
  | .prepend addr => gebrMaestroSettingsPrependAddress ms domain addr
  | .append addr => gebrMaestroSettingsAppendAddress ms domain addr

end Model

section Abstract

/-- The addresses of a domain. -/
def addresses (domain : Text) (ms : GebrMaestroSettings) : List Text :=
  gStrsplit 44 0 (gebrMaestroSettingsGetAddrs ms domain)

/-- In front, the others in their order; or behind, when it is not there. Nothing for the empty
address. -/
def Op.ideal (list : List Text) : Op → List Text
  | .prepend addr => if addr = [] then list else addr :: list.filter (· ≠ addr)
  | .append addr => if addr = [] ∨ addr ∈ list then list else list ++ [addr]

/-- The address can be an item of the list, and is not put behind a list of one byte. -/
def Fine (domain : Text) (ms : GebrMaestroSettings) (op : Op) : Prop := op.addr ≠ [] →
  isGroupName domain ∧ 44 ∉ op.addr ∧ validate op.addr ∧
    ∀ addr, op = .append addr → addr ∉ addresses domain ms →
      (gebrMaestroSettingsGetAddrs ms domain).length ≠ 1

end Abstract

section Texts

variable {domain buf addr : Text} {ms : GebrMaestroSettings} {op : Op}

theorem validate_getAddrs (ms : GebrMaestroSettings) (domain : Text) :
    validate (gebrMaestroSettingsGetAddrs ms domain) := by
  unfold gebrMaestroSettingsGetAddrs gebrGKeyFileLoadStringKey
  cases read : (getString ms.maestroKey domain (ascii "maestro")).1 with
  | none => rfl
  | some tmp =>
    obtain ⟨-, -, -, valid⟩ := value_of_getString read
    dsimp only
    split
    · rfl
    · exact valid

theorem getAddrs_of_not_name (bad : ¬ isGroupName domain) (ms : GebrMaestroSettings) :
    gebrMaestroSettingsGetAddrs ms domain = [] := by
  unfold gebrMaestroSettingsGetAddrs gebrGKeyFileLoadStringKey
  cases read : (getString ms.maestroKey domain (ascii "maestro")).1 with
  | none => rfl
  | some tmp =>
    obtain ⟨value, there, -⟩ := value_of_getString read
    exact absurd (isGroupName_of_hasGroup (hasGroup_of_value there)) bad

theorem getAddrs_setAddrs (good : isGroupName domain) (ms : GebrMaestroSettings) (buf : Text) :
    gebrMaestroSettingsGetAddrs (setAddrs ms domain buf) domain = if validate buf then
    buf else [] := by
  unfold gebrMaestroSettingsGetAddrs gebrGKeyFileLoadStringKey setAddrs gebrMaestroSettingsSave
  by_cases valid : validate buf
  · rw [getString_setString good valid, if_pos valid]
    dsimp only
    split
    · rename_i none
      exact none.symm
    · rfl
  · have value := value_setString good ms.maestroKey (ascii "maestro") buf domain (ascii "maestro")
    unfold getString
    rw [value, if_pos ⟨rfl, rfl⟩, if_neg valid]
    dsimp only
    rw [if_neg valid]

theorem addresses_setAddrs (good : isGroupName domain) (ms : GebrMaestroSettings) (buf : Text) :
    addresses domain (setAddrs ms domain buf) = gStrsplit 44 0 (if validate buf then buf else []) :=
  congrArg (gStrsplit 44 0) (getAddrs_setAddrs good ms buf)

theorem prepend_text (addr : Text) (list : List Text) :
    (addr ++ list.flatMap fun item => if item ≠ addr then 44 :: item else []) =
      [44].intercalate (addr :: list.filter (· ≠ addr)) := by
  rw [intercalate_cons]
  congr 1
  induction list with
  | nil => rfl
  | cons item list ih =>
    rw [List.flatMap_cons, ih]
    by_cases same : item = addr
    · rw [if_neg (not_not.2 same), List.filter_cons_of_neg (by simpa using same), List.nil_append]
    · rw [if_pos same, List.filter_cons_of_pos (by simpa using same), List.flatMap_cons]

theorem append_text {maestro : Text} (length : maestro.length ≠ 1) (addr : Text) :
    (if 1 < maestro.length then maestro ++ [44] else maestro) ++ addr =
      [44].intercalate (gStrsplit 44 0 maestro ++ [addr]) := by
  split
  · rename_i long
    have some_item : gStrsplit 44 0 maestro ≠ [] := by
      intro none
      have back := intercalate_gStrsplit 44 maestro
      rw [none] at back
      rw [← back] at long
      exact absurd long (by decide)
    rw [intercalate_concat some_item, intercalate_gStrsplit, List.append_assoc, List.singleton_append]
  · rename_i short
    obtain rfl : maestro = [] := List.length_eq_zero_iff.1 (by omega)
    show addr = [44].intercalate [addr]
    rw [List.intercalate_singleton]

end Texts

section Steps

variable {domain addr : Text} {ms : GebrMaestroSettings} {op : Op}

theorem tidy_ideal {list : List Text} (tidy : Tidy list) (op : Op) : Tidy (op.ideal list) := by
  cases op with
  | prepend addr =>
    unfold Op.ideal
    dsimp only
    split
    · exact tidy
    · rename_i some_byte
      exact tidy_cons_filter tidy some_byte
  | append addr =>
    unfold Op.ideal
    dsimp only
    split
    · exact tidy
    · rename_i fresh
      exact tidy_concat tidy (not_or.1 fresh).1 (not_or.1 fresh).2

/-- What is to be an item of the list. -/
theorem addr_mem_ideal (some_byte : op.addr ≠ []) (list : List Text) : op.addr ∈ op.ideal list := by
  cases op with
  | prepend addr =>
    have same : (Op.prepend addr).ideal list = addr :: list.filter (· ≠ addr) := if_neg some_byte
    rw [same]
    exact List.mem_cons_self
  | append addr =>
    show addr ∈ if addr = [] ∨ addr ∈ list then list else list ++ [addr]
    split
    · rename_i either
      exact either.resolve_left some_byte
    · exact List.mem_append_right list List.mem_cons_self

/-- The text that an address is put behind. -/
theorem perform_append (some_byte : addr ≠ []) (ms : GebrMaestroSettings) :
    perform domain ms (.append addr) = setAddrs ms domain (if addr ∉ addresses domain ms then
      (if 1 < (gebrMaestroSettingsGetAddrs ms domain).length then
        gebrMaestroSettingsGetAddrs ms domain ++ [44] else gebrMaestroSettingsGetAddrs ms domain) ++
    addr else gebrMaestroSettingsGetAddrs ms domain) := if_neg some_byte

/-- The text that is set, where the list is not one byte. -/
theorem perform_eq (some_byte : op.addr ≠ [])
    (separated : ∀ addr, op = .append addr → addr ∉ addresses domain ms →
    (gebrMaestroSettingsGetAddrs ms domain).length ≠ 1) : perform domain ms op =
    setAddrs ms domain ([44].intercalate (op.ideal (addresses domain ms))) := by
  cases op with
  | prepend addr =>
    have some_byte : addr ≠ [] := some_byte
    unfold perform gebrMaestroSettingsPrependAddress Op.ideal
    dsimp only
    rw [if_neg some_byte, if_neg some_byte, prepend_text]
    rfl
  | append addr =>
    have some_byte : addr ≠ [] := some_byte
    rw [perform_append some_byte]
    unfold Op.ideal
    dsimp only
    by_cases has : addr ∈ addresses domain ms
    · rw [if_neg (not_not.2 has), if_pos (.inr has)]
      unfold addresses
      rw [intercalate_gStrsplit]
    · rw [if_pos has, if_neg (not_or.2 ⟨some_byte, has⟩), append_text (separated addr rfl has)]
      rfl

theorem perform_nil (none : op.addr = []) (domain : Text) (ms : GebrMaestroSettings) :
    perform domain ms op = ms ∧ op.ideal (addresses domain ms) = addresses domain ms := by
  cases op with
  | prepend addr => exact ⟨if_pos none, if_pos none⟩
  | append addr => exact ⟨if_pos none, if_pos (.inl none)⟩

/-- **A fine step does to the list what it is to do.** -/
theorem addresses_perform_of_fine (tidy : Tidy (addresses domain ms)) (fine : Fine domain ms op) :
    addresses domain (perform domain ms op) = op.ideal (addresses domain ms) := by
  by_cases none : op.addr = []
  · obtain ⟨same, ideal⟩ := perform_nil none domain ms
    rw [same, ideal]
  obtain ⟨good, clean, valid, separated⟩ := fine none
  have items : ∀ item ∈ op.ideal (addresses domain ms), item = op.addr ∨
      item ∈ addresses domain ms := by
    intro item member
    cases op with
    | prepend addr =>
      have same : (Op.prepend addr).ideal (addresses domain ms) =
          addr :: (addresses domain ms).filter (· ≠ addr) := if_neg none
      rw [same, List.mem_cons, List.mem_filter] at member
      exact member.imp_right And.left
    | append addr =>
      unfold Op.ideal at member
      dsimp only at member
      split at member
      · exact .inr member
      · exact (List.mem_append.1 member).symm.imp_left List.mem_singleton.1
  have valid_text : validate ([44].intercalate (op.ideal (addresses domain ms))) := by
    refine (validate_intercalate (by decide) _).2 fun item member => ?_
    rcases items item member with rfl | there
    · exact valid
    · exact validate_of_mem_gStrsplit (by decide) (validate_getAddrs ms domain) there
  have clean_items : ∀ item ∈ op.ideal (addresses domain ms), 44 ∉ item := by
    intro item member
    rcases items item member with rfl | there
    · exact clean
    · exact not_mem_of_mem_gStrsplit there
  rw [perform_eq none separated, addresses_setAddrs good, if_pos valid_text,
    gStrsplit_intercalate clean_items, withoutEmpty_of_tidy (tidy_ideal tidy op)]

/-- A new address behind a list of one byte makes one item of the two. -/
theorem append_one_byte (tidy : Tidy (addresses domain ms)) (good : isGroupName domain)
    (clean : 44 ∉ addr) (some_byte : addr ≠ []) (fresh : addr ∉ addresses domain ms)
    (one : (gebrMaestroSettingsGetAddrs ms domain).length = 1) :
    (addresses domain (perform domain ms (.append addr))).length ≤ 1 ∧
    (addresses domain ms).length = 1 := by
  obtain ⟨b, text⟩ := List.length_eq_one_iff.1 one
  have plain : b ≠ 44 := by
    rintro rfl
    unfold addresses at tidy
    rw [text] at tidy
    exact absurd tidy.2 (by decide)
  have before : addresses domain ms = [[b]] := by
    unfold addresses
    rw [text, Components.gStrsplit_of_ne_nil (List.cons_ne_nil b []),
      List.splitOn_eq_singleton (fun member => plain (List.mem_singleton.1 member).symm)]
  have after : perform domain ms (.append addr) = setAddrs ms domain (b :: addr) := by
    rw [perform_append some_byte, if_pos fresh, text]
    rfl
  refine ⟨?_, by rw [before]; rfl⟩
  rw [after, addresses_setAddrs good]
  split
  · rw [Components.gStrsplit_of_ne_nil (List.cons_ne_nil b addr), List.splitOn_eq_singleton]
    · exact le_rfl
    · exact fun member => (List.mem_cons.1 member).elim (fun same => plain same.symm) clean
  · exact Nat.zero_le 1

/-- **A step does to the list what it is to do iff it is fine.** -/
theorem perform_iff (tidy : Tidy (addresses domain ms)) (op : Op) :
    addresses domain (perform domain ms op) = op.ideal (addresses domain ms) ↔ Fine domain ms op := by
  refine ⟨fun right some_byte => ?_, addresses_perform_of_fine tidy⟩
  have member := addr_mem_ideal some_byte (addresses domain ms)
  rw [← right] at member
  have clean := not_mem_of_mem_gStrsplit member
  have good : isGroupName domain := by
    by_contra bad
    unfold addresses at member
    rw [getAddrs_of_not_name bad] at member
    exact absurd member List.not_mem_nil
  refine ⟨good, clean, ?_, ?_⟩
  · exact validate_of_mem_gStrsplit (by decide) (validate_getAddrs _ domain) member
  · rintro addr rfl fresh one
    have some_byte : addr ≠ [] := some_byte
    have clean : 44 ∉ addr := clean
    obtain ⟨short, before⟩ := append_one_byte tidy good clean some_byte fresh one
    have ideal : (Op.append addr).ideal (addresses domain ms) = addresses domain ms ++ [addr] :=
      if_neg (not_or.2 ⟨some_byte, fresh⟩)
    rw [right, ideal, List.length_append, before, List.length_singleton] at short
    exact absurd short (by decide)

end Steps

section Runs

/-- The list after the operations. -/
def idealAll (list : List Text) (ops : List Op) : List Text :=
  ops.foldl (fun list op => op.ideal list) list

/-- **When the list is what it is to be after any operations.** -/
theorem addresses_iff (domain : Text) (ms : GebrMaestroSettings) (ops : List Op) :
    (∀ before, before <+: ops → Tidy (addresses domain (before.foldl (perform domain) ms)) ∧
      addresses domain (before.foldl (perform domain) ms) = idealAll (addresses domain ms) before) ↔
    Tidy (addresses domain ms) ∧ Run.Guarded (fun ms op => some (perform domain ms op))
    (Fine domain) ms ops := by
  induction ops generalizing ms with
  | nil =>
    constructor
    · intro all
      exact ⟨(all [] List.prefix_rfl).1, trivial⟩
    · rintro ⟨tidy, -⟩ before begins
      rw [List.prefix_nil.1 begins]
      exact ⟨tidy, rfl⟩
  | cons op ops ih =>
    constructor
    · intro all
      have tidy : Tidy (addresses domain ms) := (all [] List.nil_prefix).1
      have right : addresses domain (perform domain ms op) = op.ideal (addresses domain ms) :=
        (all [op] (List.prefix_append [op] ops)).2
      refine ⟨tidy, (perform_iff tidy op).1 right, ?_⟩
      rintro _ ⟨⟩
      refine ((ih (perform domain ms op)).1 fun before begins => ?_).2
      rw [right]
      exact all (op :: before) ((List.prefix_cons_inj op).2 begins)
    · rintro ⟨tidy, fine, later⟩ before begins
      have right := (perform_iff tidy op).2 fine
      cases before with
      | nil => exact ⟨tidy, rfl⟩
      | cons other before =>
        obtain ⟨rfl, shorter⟩ := List.cons_prefix_cons.1 begins
        have next : Tidy (addresses domain (perform domain ms other)) := by
          rw [right]
          exact tidy_ideal tidy other
        have rest := (ih (perform domain ms other)).2 ⟨next, later _ rfl⟩ before shorter
        rw [right] at rest
        exact rest

/-- **Two addresses of one byte** become one. -/
theorem one_byte :
    let ms : GebrMaestroSettings := ⟨KeyFile.empty, KeyFile.empty⟩
    gebrMaestroSettingsGetAddrs
        ([.append (ascii "a"), .append (ascii "b")].foldl (perform (ascii "d")) ms) (ascii "d") =
          ascii "ab" ∧
      idealAll (addresses (ascii "d") ms) [.append (ascii "a"), .append (ascii "b")] =
        [ascii "a", ascii "b"] ∧
      ¬ ∀ before, before <+: [Op.append (ascii "a"), .append (ascii "b")] →
        addresses (ascii "d") (before.foldl (perform (ascii "d")) ms) =
            idealAll (addresses (ascii "d") ms) before := by
  refine ⟨by decide +kernel, by decide +kernel, fun all => ?_⟩
  exact absurd (all _ List.prefix_rfl) (by decide +kernel)

end Runs

end Gebr.Maestro.Settings
