/-
**The number of processes of an MPI program.**

The number is the value of a hidden parameter, which is made when a flavour is set and removed when
the flavour is emptied. It is found again by the keyword of the flavour.

* `setMpi`, `mpiSetNProcess`, `mpiGetNProcess`: on the flavour and the hidden parameters.
* `Allowed`: a flavour in place of the empty text or of itself, and a number while there is a
  flavour.
* `Counts`: the hidden parameter is there, with its keyword and the number.
* `run_counts` — **the number in every run of such steps**.
* `emptied`: a flavour that is emptied takes the number with it.
-/

import Gebr.Geoxml.DictSplit
import Gebr.Lib.Numerals
import Gebr.Lib.Run

namespace Gebr.Geoxml.Mpi

open Gebr.Lib.CString
open Gebr.Lib.Numerals (printInt not_mem_printInt)
open Gebr.Lib.Run

section Model

/-- `mpi_keywords`: the flavours, and the keyword of the number of processes of each. -/
def mpiKeywords : List (Text × Text) :=
  [(ascii "openmpi", ascii "-np "), (ascii "mpich2", ascii "-n ")]

/-- `get_mpi_keywords_for_flavor`. -/
def getMpiKeywordsForFlavor (flavor : Text) : Option Text :=
  (mpiKeywords.find? fun keywords => keywords.1 = flavor).map Prod.snd

/-- A hidden parameter: the keyword that its template has, and the first value of its reference. -/
structure MpiParameter where
  keyword : Text
  value : Text
  deriving DecidableEq

/-- A program. Its `mpi` element holds one group with one instance. -/
structure GebrGeoXmlProgram where
  mpi : Text
  tags : Option (List MpiParameter)
  deriving DecidableEq

/-- A program of which nothing is set. -/
def GebrGeoXmlProgram.new : GebrGeoXmlProgram := ⟨[], none⟩

/-- `gebr_geoxml_program_mpi_add_tags`; it fails at a flavour that is not known. -/
def GebrGeoXmlProgram.mpiAddTags (self : GebrGeoXmlProgram) (mpi : Text) : Option GebrGeoXmlProgram :=
  match self.tags with
  | some _ => some self
  | none => (getMpiKeywordsForFlavor mpi).map fun keyword => { self with tags := some [⟨keyword, []⟩] }

/-- `gebr_geoxml_program_mpi_remove_tags`. -/
def GebrGeoXmlProgram.mpiRemoveTags (self : GebrGeoXmlProgram) : GebrGeoXmlProgram :=
  { self with tags := none }

/-- `gebr_geoxml_program_set_mpi`. -/
def GebrGeoXmlProgram.setMpi (self : GebrGeoXmlProgram) (mpiType : Text) : Option GebrGeoXmlProgram :=
  let self := { self with mpi := mpiType }
  if mpiType = [] then some self.mpiRemoveTags else self.mpiAddTags mpiType

/-- `get_mpi_parameter`, as the place of the parameter in the instance. -/
def GebrGeoXmlProgram.getMpiParameter (self : GebrGeoXmlProgram) (keyword : Text) : Option ℕ :=
  self.tags.bind fun parameters => parameters.findIdx? fun parameter => parameter.keyword = keyword

/-- `gebr_geoxml_program_mpi_set_n_process`; it fails at a flavour that is not known, and so without
one. -/
def GebrGeoXmlProgram.mpiSetNProcess (self : GebrGeoXmlProgram) (n : ℤ) : Option GebrGeoXmlProgram :=
  (getMpiKeywordsForFlavor self.mpi).map fun keyword =>
    match self.getMpiParameter keyword with
    | none => self
    | some place =>
      let set := fun parameter : MpiParameter =>
        { parameter with value := gebrGeoxmlRemoveLineBreak (printInt n) }
      { self with tags := self.tags.map fun parameters => parameters.modify place set }

/-- `gebr_geoxml_program_mpi_get_n_process`: the number, or `NULL`; it fails as the setter does. -/
def GebrGeoXmlProgram.mpiGetNProcess (self : GebrGeoXmlProgram) : Option (Option Text) :=
  (getMpiKeywordsForFlavor self.mpi).map fun keyword =>
    (self.getMpiParameter keyword).bind fun place =>
      self.tags.bind fun parameters => parameters[place]?.map MpiParameter.value

inductive Op
  | setMpi (mpiType : Text)
  | setNProcess (n : ℤ)
  deriving DecidableEq

def step (self : GebrGeoXmlProgram) : Op → Option GebrGeoXmlProgram
  | .setMpi mpiType => self.setMpi mpiType
  | .setNProcess n => self.mpiSetNProcess n

end Model

section Statement

/-- The flavour is a known one or empty, and is not put in place of another one; a number is set
while there is a flavour. -/
def Allowed (self : GebrGeoXmlProgram) : Op → Prop
  | .setMpi mpiType => (mpiType = [] ∨ (getMpiKeywordsForFlavor mpiType).isSome) ∧
      (self.mpi = [] ∨ mpiType = [] ∨ mpiType = self.mpi)
  | .setNProcess _ => self.mpi ≠ []

instance (self : GebrGeoXmlProgram) (op : Op) : Decidable (Allowed self op) :=
  match op with
  | .setMpi _ => inferInstanceAs (Decidable (_ ∧ _))
  | .setNProcess _ => inferInstanceAs (Decidable (_ ≠ _))

/-- The number behind an operation: the one that is set, and none behind an empty flavour. -/
def countStep (count : Text) : Op → Text
  | .setMpi mpiType => if mpiType = [] then [] else count
  | .setNProcess n => printInt n

/-- The number that was set last since there was no flavour. -/
def lastCount (ops : List Op) : Text := ops.foldl countStep []

/-- With a flavour there is exactly one parameter, which has the keyword of the flavour, and the
number is what is read; without one there is none. -/
structure Counts (count : Text) (self : GebrGeoXmlProgram) : Prop where
  flavour : self.mpi ≠ [] → self.mpiGetNProcess = some (some count) ∧
    ∃ parameter, self.tags = some [parameter] ∧
      getMpiKeywordsForFlavor self.mpi = some parameter.keyword
  empty : self.mpi = [] → self.tags = none

end Statement

section Steps

variable {self : GebrGeoXmlProgram} {count keyword : Text}

theorem removeLineBreak_printInt (n : ℤ) : gebrGeoxmlRemoveLineBreak (printInt n) = printInt n :=
  removeLineBreak_of_oneLine (not_mem_printInt rfl (by decide) n)

/-- The state between two steps: the flavour with its parameter, or no flavour and no number. -/
inductive Holds (count : Text) (self : GebrGeoXmlProgram) : Prop
  | flavour (keyword : Text) (known : getMpiKeywordsForFlavor self.mpi = some keyword)
      (here : self.tags = some [⟨keyword, count⟩]) (some_flavour : self.mpi ≠ [])
  | empty (none_set : self.mpi = []) (none_there : self.tags = none) (no_count : count = [])

theorem Holds.counts (holds : Holds count self) : Counts count self := by
  cases holds with
  | flavour keyword known here some_flavour =>
    refine ⟨fun _ => ⟨?_, ⟨keyword, count⟩, here, known⟩, fun none_set => absurd none_set some_flavour⟩
    unfold GebrGeoXmlProgram.mpiGetNProcess GebrGeoXmlProgram.getMpiParameter
    rw [known, here]
    simp [List.findIdx?_cons]
  | empty none_set none_there no_count =>
    exact ⟨fun some_flavour => absurd none_set some_flavour, fun _ => none_there⟩

theorem holds_setMpi (holds : Holds count self) {mpiType : Text}
    (allowed : Allowed self (.setMpi mpiType)) :
    ∃ next, self.setMpi mpiType = some next ∧ Holds (countStep count (.setMpi mpiType)) next := by
  obtain ⟨known, place⟩ := allowed
  show ∃ next, self.setMpi mpiType = some next ∧ Holds (if mpiType = [] then [] else count) next
  unfold GebrGeoXmlProgram.setMpi
  by_cases emptied : mpiType = []
  · refine ⟨_, if_pos emptied, ?_⟩
    rw [if_pos emptied]
    exact .empty emptied rfl rfl
  · obtain ⟨keyword, found⟩ := Option.isSome_iff_exists.1 (known.resolve_left emptied)
    rw [if_neg emptied, if_neg emptied]
    cases holds with
    | flavour old knew here some_flavour =>
      obtain same : mpiType = self.mpi := (place.resolve_left some_flavour).resolve_left emptied
      refine ⟨{ self with mpi := mpiType }, ?_, .flavour old (same ▸ knew) here emptied⟩
      unfold GebrGeoXmlProgram.mpiAddTags
      dsimp only
      rw [here]
    | empty none_set none_there no_count =>
      refine ⟨⟨mpiType, some [⟨keyword, []⟩]⟩, ?_, .flavour keyword found (by rw [no_count]) emptied⟩
      unfold GebrGeoXmlProgram.mpiAddTags
      dsimp only
      rw [none_there, found]
      rfl

theorem holds_setNProcess (holds : Holds count self) {n : ℤ} (some_flavour : self.mpi ≠ []) :
    ∃ next, self.mpiSetNProcess n = some next ∧ Holds (printInt n) next := by
  cases holds with
  | flavour keyword known here _ =>
    refine ⟨⟨self.mpi, some [⟨keyword, printInt n⟩]⟩, ?_, .flavour keyword known rfl some_flavour⟩
    have found : self.getMpiParameter keyword = some 0 := by
      unfold GebrGeoXmlProgram.getMpiParameter
      rw [here]
      simp [List.findIdx?_cons]
    unfold GebrGeoXmlProgram.mpiSetNProcess
    rw [known, Option.map_some, found]
    dsimp only
    rw [here, removeLineBreak_printInt]
    rfl
  | empty none_set _ _ => exact absurd none_set some_flavour

/-- **One step.** -/
theorem holds_step (holds : Holds count self) {op : Op} (allowed : Allowed self op) :
    ∃ next, step self op = some next ∧ Holds (countStep count op) next := by
  cases op with
  | setMpi mpiType => exact holds_setMpi holds allowed
  | setNProcess n => exact holds_setNProcess holds allowed

theorem holds_run (holds : Holds count self) {ops : List Op}
    (guarded : Guarded step Allowed self ops) :
    ∃ final, run step self ops = some final ∧ Holds (ops.foldl countStep count) final := by
  induction ops generalizing self count with
  | nil => exact ⟨self, rfl, holds⟩
  | cons op ops ih =>
    obtain ⟨next, taken, after⟩ := holds_step holds guarded.1
    obtain ⟨final, reaches, last⟩ := ih after (guarded.2 next taken)
    exact ⟨final, by rw [run_cons, taken, Option.bind_some, reaches], last⟩

/-- **The number in every run.** -/
theorem run_counts {ops : List Op} (guarded : Guarded step Allowed .new ops) :
    ∃ final, run step .new ops = some final ∧ Counts (lastCount ops) final := by
  obtain ⟨final, reaches, holds⟩ := holds_run (.empty rfl rfl rfl : Holds [] .new) guarded
  exact ⟨final, reaches, holds.counts⟩

/-- A flavour that is emptied, and another one behind it. -/
def replaced : List Op :=
  [.setMpi (ascii "openmpi"), .setNProcess 4, .setMpi [], .setMpi (ascii "mpich2")]

theorem run_counts_replaced :
    ∃ final, run step .new replaced = some final ∧ Counts (lastCount replaced) final := by
  refine run_counts ⟨by decide, fun first taken => ?_⟩
  obtain rfl := Option.some.inj taken
  refine ⟨by decide, fun second taken => ?_⟩
  obtain rfl := Option.some.inj taken
  refine ⟨by decide, fun third taken => ?_⟩
  obtain rfl := Option.some.inj taken
  exact ⟨by decide, fun _ _ => trivial⟩

/-- **A flavour that is emptied takes the number with it.** -/
theorem emptied :
    (run step .new [.setMpi (ascii "openmpi"), .setNProcess 4, .setMpi [],
      .setMpi (ascii "openmpi")]).bind GebrGeoXmlProgram.mpiGetNProcess = some (some []) := by decide

end Steps

end Gebr.Geoxml.Mpi
