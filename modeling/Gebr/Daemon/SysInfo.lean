/-
**What a daemon knows of its processors.**

The file of the processors is read line by line; the line behind an empty one begins a new
processor, and the new processor is put in front of the others.

* `getLines`: the lines of a file, with their ends.
* `gebrdCpuInfoNewFromFile`, `gebrdCpuInfoNProcs`, `gebrdCpuInfoGet`: what is read, and what is told
  of it.
* `CpuText`: blocks of lines, with empty lines behind them.
* `cores_written`: the processors that are read of such a text.
* `processors_iff` — **when they are the blocks, in their order**.
* `two_processors`: two blocks that are not the same.
-/

import Gebr.Lib.CString
import Gebr.Lib.NamedTable

namespace Gebr.Daemon.SysInfo

open Gebr.Lib.CString Gebr.Lib.NamedTable

abbrev Text : Type := List UInt8

section Model

/-- The lines that `getline` gives, each with its line end. -/
def getLines : Text → List Text
  | [] => []
  | b :: s =>
    if b = 10 then [10] :: getLines s
    else
      match getLines s with
      | [] => [[b]]
      | line :: lines => (b :: line) :: lines

/-- The properties of a processor. -/
abbrev Table : Type := List (Text × Text)

/-- `GebrdCpuInfo`. -/
structure GebrdCpuInfo where
  length : ℕ
  cores : List Table
  counted : length = cores.length
  deriving DecidableEq

/-- The processors alone. -/
def ofCores (cores : List Table) : GebrdCpuInfo := ⟨cores.length, cores, rfl⟩

/-- A new processor. -/
def GebrdCpuInfo.prepend (self : GebrdCpuInfo) : GebrdCpuInfo :=
  ⟨self.length + 1, [] :: self.cores, congrArg (· + 1) self.counted⟩

/-- A property of the last new processor. -/
def GebrdCpuInfo.insert (prop val : Text) (self : GebrdCpuInfo) : GebrdCpuInfo :=
  match self with
  | ⟨length, [], counted⟩ => ⟨length, [], counted⟩
  | ⟨length, tb :: cores, counted⟩ => ⟨length, put prop val tb :: cores, counted⟩

/-- One line, with `create`. -/
def readLine (state : Bool × GebrdCpuInfo) (line : Text) : Bool × GebrdCpuInfo :=
  let cpuinfo := if state.1 then state.2.prepend else state.2
  let create := line.head? = some 10
  match (line.takeWhile (· ≠ 0)).dropWhile (· ≠ 58) with
  | [] => (create, cpuinfo)
  | _ :: val => (create, cpuinfo.insert (gStrstrip (line.takeWhile (· ≠ 58))) (gStrstrip val))

/-- `gebrd_cpu_info_new_from_file`, where `none` is a file that cannot be opened. -/
def gebrdCpuInfoNewFromFile (file : Option Text) : Option GebrdCpuInfo :=
  file.map fun contents => ((getLines contents).foldl readLine (true, ofCores [])).2

/-- `gebrd_cpu_info_get`. -/
def gebrdCpuInfoGet (self : GebrdCpuInfo) (procId : ℕ) (prop : Text) : Option Text :=
  if procId < self.length then (self.cores[procId]?).bind (get prop) else none

/-- `gebrd_cpu_info_n_procs`. -/
def gebrdCpuInfoNProcs (self : GebrdCpuInfo) : ℕ := self.length

end Model

section Texts

/-- A line `key : value`, with whatever blanks. -/
structure CpuLine where
  prop : Text
  val : Text
  named : 58 ∉ prop
  oneLine : 10 ∉ prop ∧ 10 ∉ val
  ends : 0 ∉ prop ∧ 0 ∉ val

/-- The line in the file. -/
def CpuLine.written (line : CpuLine) : Text := line.prop ++ 58 :: line.val

/-- A block of lines. -/
structure CpuBlock where
  lines : List CpuLine
  some_line : lines ≠ []

/-- The value that a block gives to a property: the last one, if there are many. -/
def CpuBlock.given (block : CpuBlock) (prop : Text) : Option Text :=
  (block.lines.reverse.find? fun line => gStrstrip line.prop = prop).map fun line => gStrstrip line.val

/-- Blocks, each with the number of empty lines behind it, of which only the last one may have
none. -/
structure CpuText where
  parts : List (CpuBlock × ℕ)
  apart : ∀ part ∈ parts.dropLast, 1 ≤ part.2

def CpuText.blocks (text : CpuText) : List CpuBlock := text.parts.map Prod.fst

/-- The lines of a part of the file. -/
def linesOf (part : CpuBlock × ℕ) : List Text :=
  part.1.lines.map CpuLine.written ++ List.replicate part.2 []

/-- The file. -/
def CpuText.written (text : CpuText) : Text := (text.parts.flatMap linesOf).flatMap (· ++ [10])

end Texts

section Reading

theorem getLines_cons {line : Text} (clean : 10 ∉ line) (rest : Text) :
    getLines (line ++ [10] ++ rest) = (line ++ [10]) :: getLines rest := by
  induction line with
  | nil => rfl
  | cons b line ih =>
    have other : b ≠ 10 := fun same => clean (same ▸ List.mem_cons_self)
    rw [List.cons_append, List.cons_append, getLines, if_neg other,
      ih fun member => clean (List.mem_cons_of_mem b member)]

/-- The lines that are written are the lines that are read. -/
theorem getLines_written {lines : List Text} (clean : ∀ line ∈ lines, 10 ∉ line) :
    getLines (lines.flatMap (· ++ [10])) = lines.map (· ++ [10]) := by
  induction lines with
  | nil => rfl
  | cons line lines ih =>
    rw [List.flatMap_cons, getLines_cons (clean line List.mem_cons_self),
      ih fun other member => clean other (List.mem_cons_of_mem line member), List.map_cons]

theorem clean_linesOf {part : CpuBlock × ℕ} {line : Text} (member : line ∈ linesOf part) :
    10 ∉ line := by
  rcases List.mem_append.1 member with written | blank
  · obtain ⟨source, -, rfl⟩ := List.mem_map.1 written
    rw [CpuLine.written, List.mem_append, List.mem_cons, not_or, not_or]
    exact ⟨source.oneLine.1, by decide, source.oneLine.2⟩
  · rw [(List.mem_replicate.1 blank).2]
    exact List.not_mem_nil

theorem gStrstrip_line {val : Text} (ends : 0 ∉ val) : gStrstrip (val ++ [10]) = gStrstrip val := by
  have whole : ∀ text : Text, 0 ∉ text → text.takeWhile (fun b => b ≠ 0) = text := fun text clean =>
    List.takeWhile_eq_self_iff.2 fun b member => by
      rw [decide_eq_true_iff]
      exact fun same => clean (same ▸ member)
  unfold gStrstrip
  rw [whole val ends, whole (val ++ [10]) (by simpa using ends), List.dropWhile_append]
  cases stripped : val.dropWhile gAsciiIsspace with
  | nil => rfl
  | cons b rest => exact List.rdropWhile_concat_pos gAsciiIsspace (b :: rest) 10 (by decide)

theorem readLine_written (create : Bool) (cpuinfo : GebrdCpuInfo) (line : CpuLine) :
    readLine (create, cpuinfo) (line.written ++ [10]) =
      (false, (if create then cpuinfo.prepend else cpuinfo).insert (gStrstrip line.prop)
      (gStrstrip line.val)) := by
  have ends : (line.written ++ [10]).takeWhile (· ≠ 0) = line.written ++ [10] := by
    refine List.takeWhile_eq_self_iff.2 fun b member => ?_
    rw [decide_eq_true_iff]
    rintro rfl
    simp [CpuLine.written, line.ends.1, line.ends.2] at member
  have prop : (line.written ++ [10]).takeWhile (· ≠ 58) = line.prop := by
    rw [CpuLine.written, List.append_assoc, List.cons_append]
    exact takeWhile_ne line.named _
  have val : (line.written ++ [10]).dropWhile (· ≠ 58) = 58 :: (line.val ++ [10]) := by
    have both := List.takeWhile_append_dropWhile (p := (· ≠ 58)) (l := line.written ++ [10])
    rw [prop] at both
    refine (List.append_cancel_left_eq line.prop _ _).mp (both.trans ?_)
    rw [CpuLine.written, List.append_assoc]
    rfl
  have first : (line.written ++ [10]).head? ≠ some 10 := by
    rw [CpuLine.written]
    cases given : line.prop with
    | nil => simp
    | cons b rest =>
      have other : b ≠ 10 := fun same => line.oneLine.1 (given ▸ same ▸ List.mem_cons_self)
      simpa using other
  unfold readLine
  dsimp only
  rw [ends, val, prop, decide_eq_false first]
  dsimp only
  rw [gStrstrip_line line.ends.2]

theorem readLine_blank (create : Bool) (cpuinfo : GebrdCpuInfo) :
    readLine (create, cpuinfo) [10] = (true, if create then cpuinfo.prepend else cpuinfo) := rfl

/-- The properties after a line. -/
def addLine (tb : Table) (line : CpuLine) : Table := put (gStrstrip line.prop) (gStrstrip line.val) tb

/-- The properties of a block. -/
def CpuBlock.table (block : CpuBlock) : Table := block.lines.foldl addLine []

theorem foldl_lines (lines : List CpuLine) (tb : Table) (cores : List Table) :
    (lines.map fun line => line.written ++ [10]).foldl readLine (false, ofCores (tb :: cores)) =
      (false, ofCores (lines.foldl addLine tb :: cores)) := by
  induction lines generalizing tb with
  | nil => rfl
  | cons line lines ih =>
    rw [List.map_cons, List.foldl_cons, readLine_written]
    exact ih (addLine tb line)

/-- **A block is a processor.** -/
theorem foldl_block (block : CpuBlock) (cores : List Table) :
    (block.lines.map fun line => line.written ++ [10]).foldl readLine (true, ofCores cores) =
      (false, ofCores (block.table :: cores)) := by
  obtain ⟨lines, some_line⟩ := block
  obtain ⟨line, lines, rfl⟩ := List.exists_cons_of_ne_nil some_line
  rw [List.map_cons, List.foldl_cons, readLine_written]
  exact foldl_lines lines (addLine [] line) cores

/-- **An empty line behind an empty one is a processor as well.** -/
theorem foldl_blanks (blanks : ℕ) (cores : List Table) :
    (List.replicate blanks [10]).foldl readLine (true, ofCores cores) =
      (true, ofCores (List.replicate blanks [] ++ cores)) := by
  induction blanks generalizing cores with
  | zero => rfl
  | succ blanks ih =>
    rw [List.replicate_succ, List.foldl_cons, readLine_blank]
    refine (ih ([] :: cores)).trans ?_
    rw [List.replicate_succ', List.append_assoc]
    rfl

/-- The processors of a part. -/
def tablesOf (part : CpuBlock × ℕ) : List Table := List.replicate (part.2 - 1) [] ++ [part.1.table]

theorem foldl_part (part : CpuBlock × ℕ) (cores : List Table) :
    ((linesOf part).map (· ++ [10])).foldl readLine (true, ofCores cores) =
      (decide (1 ≤ part.2), ofCores (tablesOf part ++ cores)) := by
  obtain ⟨block, blanks⟩ := part
  rw [linesOf, List.map_append, List.map_map, List.map_replicate, List.nil_append,
    List.foldl_append, Function.comp_def, foldl_block]
  cases blanks with
  | zero => rfl
  | succ blanks =>
    rw [List.replicate_succ, List.foldl_cons, readLine_blank]
    refine (foldl_blanks blanks _).trans ?_
    rw [tablesOf, Nat.add_sub_cancel, List.append_assoc, decide_eq_true (Nat.le_add_left 1 blanks)]
    rfl

/-- **The processors of the parts**, the last part in front. -/
theorem foldl_parts {parts : List (CpuBlock × ℕ)} (apart : ∀ part ∈ parts.dropLast, 1 ≤ part.2)
    (cores : List Table) :
      (((parts.flatMap linesOf).map (· ++ [10])).foldl readLine (true, ofCores cores)).2 = ofCores
      (parts.reverse.flatMap tablesOf ++ cores) := by
  induction parts generalizing cores with
  | nil => rfl
  | cons part parts ih =>
    rw [List.flatMap_cons, List.map_append, List.foldl_append, foldl_part, List.reverse_cons,
      List.flatMap_append, List.flatMap_singleton, List.append_assoc]
    cases parts with
    | nil => rfl
    | cons next parts =>
      rw [decide_eq_true (apart part List.mem_cons_self)]
      exact ih (fun other member => apart other (List.mem_cons_of_mem part member)) _

/-- **What is read of a text.** -/
theorem cores_written (text : CpuText) :
    gebrdCpuInfoNewFromFile (some text.written) =
      some (ofCores (text.parts.reverse.flatMap tablesOf)) := by
  have clean : ∀ line ∈ text.parts.flatMap linesOf, 10 ∉ line := by
    intro line member
    obtain ⟨part, -, inside⟩ := List.mem_flatMap.1 member
    exact clean_linesOf inside
  unfold gebrdCpuInfoNewFromFile
  rw [Option.map_some, CpuText.written, getLines_written clean]
  refine congrArg some ((foldl_parts text.apart []).trans ?_)
  rw [List.append_nil]

end Reading

section Order

/-- A property has the last value that the lines give to it. -/
theorem get_foldl (prop : Text) (lines : List CpuLine) (tb : Table) :
    get prop (lines.foldl addLine tb) =
      ((lines.reverse.find? fun line => gStrstrip line.prop = prop).map fun line =>
      gStrstrip line.val).or (get prop tb) := by
  induction lines generalizing tb with
  | nil => rfl
  | cons line lines ih =>
    have here := congrFun (get_put (gStrstrip line.prop) (gStrstrip line.val) tb) prop
    rw [List.foldl_cons, ih, List.reverse_cons, List.find?_append, List.find?_singleton]
    cases lines.reverse.find? fun line => gStrstrip line.prop = prop with
    | some last => rfl
    | none =>
      refine here.trans ?_
      by_cases same : gStrstrip line.prop = prop
      · simp [same]
      · simp [same, Function.update_of_ne (Ne.symm same)]

theorem get_table (block : CpuBlock) (prop : Text) : get prop block.table = block.given prop := by
  refine (get_foldl prop block.lines []).trans ?_
  exact Option.or_none

/-- The number of processors, and of those that are blocks. -/
theorem length_tablesOf_le (parts : List (CpuBlock × ℕ)) :
    parts.length ≤ (parts.flatMap tablesOf).length ∧
      ((parts.flatMap tablesOf).length = parts.length ↔ ∀ part ∈ parts, part.2 ≤ 1) := by
  induction parts with
  | nil => exact ⟨Nat.le_refl 0, iff_of_true rfl fun _ member => absurd member List.not_mem_nil⟩
  | cons part parts ih =>
    rw [List.flatMap_cons, List.length_append, List.length_cons, List.forall_mem_cons,
      ← ih.2, tablesOf, List.length_append, List.length_replicate, List.length_singleton]
    omega

/-- Without a superfluous line, the processors are the blocks from the last to the first. -/
theorem tablesOf_tidy {parts : List (CpuBlock × ℕ)} (tidy : ∀ part ∈ parts, part.2 ≤ 1) :
    parts.flatMap tablesOf = parts.map fun part => part.1.table := by
  induction parts with
  | nil => rfl
  | cons part parts ih =>
    have none : part.2 - 1 = 0 := Nat.sub_eq_zero_of_le (tidy part List.mem_cons_self)
    rw [List.flatMap_cons, List.map_cons, ih fun other member =>
      tidy other (List.mem_cons_of_mem part member), tablesOf, none]
    rfl

/-- **The processors are the blocks of the text, in their order**, iff no empty line is behind
another one and the blocks give the same values from the last to the first as from the first to the
last. -/
theorem processors_iff (text : CpuText) :
    (∃ cpuinfo, gebrdCpuInfoNewFromFile (some text.written) = some cpuinfo ∧
      gebrdCpuInfoNProcs cpuinfo = text.blocks.length ∧
      ∀ (i : ℕ) (inside : i < text.blocks.length) (prop : Text),
        gebrdCpuInfoGet cpuinfo i prop = text.blocks[i].given prop) ↔
      (∀ part ∈ text.parts, part.2 ≤ 1) ∧
      ∀ (i : ℕ) (inside : i < text.blocks.length) (prop : Text),
        text.blocks[text.blocks.length - 1 - i].given prop = text.blocks[i].given prop := by
  have size : text.blocks.length = text.parts.length := List.length_map _
  rw [cores_written]
  have count : (text.parts.reverse.flatMap tablesOf).length = text.blocks.length ↔
      ∀ part ∈ text.parts, part.2 ≤ 1 := by
    have both := (length_tablesOf_le text.parts.reverse).2
    rw [List.length_reverse, ← size] at both
    exact both.trans (forall_congr' fun part => by rw [List.mem_reverse])
  have each (tidy : ∀ part ∈ text.parts, part.2 ≤ 1) (i : ℕ) (inside : i < text.blocks.length)
      (prop : Text) : gebrdCpuInfoGet (ofCores (text.parts.reverse.flatMap tablesOf)) i prop =
        text.blocks[text.blocks.length - 1 - i].given prop := by
    have below : i < (text.parts.reverse.flatMap tablesOf).length := (count.2 tidy).symm ▸ inside
    have tables : text.parts.reverse.flatMap tablesOf = (text.blocks.map CpuBlock.table).reverse := by
      rw [tablesOf_tidy fun part member => tidy part (List.mem_reverse.1 member), CpuText.blocks,
        List.map_map, List.map_reverse]
      rfl
    refine (if_pos below).trans ?_
    show ((text.parts.reverse.flatMap tablesOf)[i]?).bind (get prop) = _
    have shorter : i < (text.blocks.map CpuBlock.table).length := by rwa [List.length_map]
    rw [tables, List.getElem?_reverse shorter, List.length_map, List.getElem?_map,
      List.getElem?_eq_getElem (show text.blocks.length - 1 - i < text.blocks.length by omega),
        Option.map_some,
      Option.bind_some, get_table]
  constructor
  · rintro ⟨cpuinfo, read, number, values⟩
    obtain rfl := Option.some.inj read
    have tidy := count.1 number
    exact ⟨tidy, fun i inside prop => (each tidy i inside prop).symm.trans (values i inside prop)⟩
  · rintro ⟨tidy, same⟩
    exact ⟨_, rfl, count.2 tidy, fun i inside prop => (each tidy i inside prop).trans
      (same i inside prop)⟩

/-- A block of one line, the number of a processor. -/
def numbered (number : Text) (clean : 10 ∉ number ∧ 0 ∉ number) : CpuBlock :=
  ⟨[⟨ascii "processor", number, by decide, ⟨by decide, clean.1⟩, ⟨by decide, clean.2⟩⟩],
    List.cons_ne_nil _ _⟩

/-- Two processors, with an empty line between them. -/
def twoProcessors : CpuText :=
  ⟨[(numbered (ascii " 0") (by decide), 1), (numbered (ascii " 1") (by decide), 0)], by simp⟩

/-- **Two processors** are read in the opposite order. -/
theorem two_processors :
    ¬ ∀ text : CpuText, ∃ cpuinfo, gebrdCpuInfoNewFromFile (some text.written) = some cpuinfo ∧
      gebrdCpuInfoNProcs cpuinfo = text.blocks.length ∧
      ∀ (i : ℕ) (inside : i < text.blocks.length) (prop : Text),
        gebrdCpuInfoGet cpuinfo i prop = text.blocks[i].given prop := by
  intro all
  obtain ⟨cpuinfo, read, -, values⟩ := all twoProcessors
  obtain rfl := Option.some.inj read
  exact absurd (values 0 (by decide) (ascii "processor")) (by decide +kernel)

end Order

end Gebr.Daemon.SysInfo
