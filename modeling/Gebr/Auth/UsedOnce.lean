/-
**A cookie lets one login in.**

The lock keeps the writers of the file apart, so that no line is ever lost or comes back: whenever
the file is whole, it has the lines of the ledger. But `gebr_auth_accepts` reads without the lock,
and the line that it has found is there until it has the lock and writes the others again.

* `Sound`: no line has let two logins in, a whole file has the right lines, and a lock that is held
  belongs to a process at work.
* `Calm`: the step is not the loop of an accept over a line that another accept has found and not
  yet removed, and not a removal without a file.
* `Guarded`: the invariant, with one lemma for each call that changes the file or the ledger and one
  for all the others.
* `run_sound_iff` — **in a run of any processes** every state is sound just when every step is calm.
* `two_logins`: two logins with one cookie.
-/

import Gebr.Auth.CookieFile
import Gebr.Lib.Exclusion
import Gebr.Lib.Run
import Mathlib.Data.List.Nodup

namespace Gebr.Auth

open Gebr.Lib

variable {ι : Type}

section Property

/-- The process has the lock. -/
def Place.Owns : Place → Prop
  | .readOpen _ | .readPrint _ | .readUnlock => True
  | .removeOpen _ _ | .removeRead _ _ | .removeTruncate _ _ _ | .removePrint _ _
      _ | .removeUnlock => True
  | _ => False

/-- The file is cut, and its lines are in the hands of the process. -/
def Place.Cut : Place → Prop
  | .removePrint _ _ _ => True
  | _ => False

/-- The line that an accept has found and not yet removed, with its key. -/
def Place.found : Place → Option (ℕ × Bytes)
  | .removeLock key found | .removeOpen key found | .removeRead key found
  | .removeTruncate key found _ | .removePrint key found _ => found.map fun number => (number, key)
  | _ => none

/-- **No line is used twice, none is lost or comes back, and the lock is not left behind.** -/
structure Sound (auth : GebrAuth ι) : Prop where
  once : auth.ledger.used.Nodup
  right : (∀ p, ¬ (auth.places p).Cut) → keysOf auth.text = auth.ledger.keys
  held : auth.lock = true → ∃ p, (auth.places p).Owns

/-- **The steps without a race**: no accept reads a line that another accept has found and not yet
removed, and no removal opens a file that does not exist. -/
def Calm (self : GebrAuth ι) : Event ι → Prop
  | .start _ _ => True
  | .proceed p =>
    match self.places p with
    | .acceptRead key => key ∈ keysOf self.text → ∀ number, self.ledger.find key = some number →
        ∀ q other, (self.places q).found ≠ some (number, other)
    | .removeOpen _ _ => self.file.isSome
    | _ => True

end Property

section Invariant

/-- What a process has in its hands, against the ledger. -/
def Place.Right (ledger : Ledger) : Place → Prop
  | .readLock key | .readOpen key | .readPrint key => Clean key
  | .removeTruncate key _ list | .removePrint key _ list =>
    list = ledger.keys.filter fun line => line ≠ key
  | _ => True

/-- The numbers of the lines tell them apart, and a line that has been used is about to go. -/
structure Ledger.Right (ledger : Ledger) (places : ι → Place) : Prop where
  below : ∀ line ∈ ledger.lines, line.1 < ledger.written
  distinct : (ledger.lines.map Prod.fst).Nodup
  past : ∀ number ∈ ledger.used, number < ledger.written
  once : ledger.used.Nodup
  clean : ∀ key ∈ ledger.keys, Clean key
  pending : ∀ line ∈ ledger.lines, line.1 ∈ ledger.used → ∃ p, (places p).found = some line
  used : ∀ p number key, (places p).found = some (number, key) → number ∈ ledger.used

/-- **The invariant.** -/
structure Guarded (auth : GebrAuth ι) : Prop where
  exclusive : Exclusive auth.lock fun p => (auth.places p).Owns
  ledger : auth.ledger.Right auth.places
  hands : ∀ p, (auth.places p).Right auth.ledger
  cut : ∀ p, (auth.places p).Cut → auth.text = []
  whole : (∀ p, ¬ (auth.places p).Cut) → auth.text = putLines auth.ledger.keys

theorem guarded_new : Guarded (authNew : GebrAuth ι) where
  exclusive := ⟨nofun, fun _ => False.elim, fun _ _ => False.elim⟩
  ledger :=
    ⟨nofun, List.nodup_nil, nofun, List.nodup_nil, nofun, nofun, nofun⟩
  hands _ := trivial
  cut _ := False.elim
  whole _ := rfl

variable {self next : GebrAuth ι} {p : ι}

theorem Guarded.sound (guarded : Guarded self) : Sound self where
  once := guarded.ledger.once
  right whole := by
    rw [guarded.whole whole, keysOf_putLines guarded.ledger.clean]
  held := guarded.exclusive.held

theorem Place.Cut.owns {place : Place} (cut : place.Cut) : place.Owns := by
  cases place <;> trivial

/-- While a process has the lock and the file is whole in its hands, no other process has cut it. -/
theorem Guarded.uncut (guarded : Guarded self) (inside : (self.places p).Owns)
    (intact : ¬ (self.places p).Cut) : ∀ q, ¬ (self.places q).Cut := by
  intro q cut
  obtain rfl := guarded.exclusive.unique q p cut.owns inside
  exact intact cut

/-- Without the lock a process has nothing in its hands that depends on the ledger. -/
theorem Place.Right.outside {place : Place} {ledger ledger' : Ledger} (outside : ¬ place.Owns)
    (right : place.Right ledger) : place.Right ledger' := by
  cases place <;> first | exact right | exact absurd trivial outside

theorem Place.Right.congr {place : Place} {ledger ledger' : Ledger} (same : ledger'.keys = ledger.keys)
    (right : place.Right ledger) : place.Right ledger' := by
  cases place <;> first | exact right | exact right.trans (by rw [same])

section Lock

variable [DecidableEq ι] {lock : Bool} {places : ι → Place} {place : Place}

theorem exclusive_stay (exclusive : Exclusive lock fun q => (places q).Owns)
    (same : place.Owns ↔ (places p).Owns) :
    Exclusive lock fun q => (Function.update places p place q).Owns := by
  refine exclusive.congr fun q => ?_
  by_cases here : q = p
  · rw [here, Function.update_self, same]
  · rw [Function.update_of_ne here]

theorem exclusive_lock (exclusive : Exclusive false fun q => (places q).Owns) (inside : place.Owns) :
    Exclusive true fun q => (Function.update places p place q).Owns := by
  refine exclusive.acquire (p := p) fun q => ?_
  by_cases here : q = p
  · rw [here, Function.update_self]
    exact iff_of_true inside (Or.inl rfl)
  · rw [Function.update_of_ne here]
    exact (or_iff_right here).symm

theorem exclusive_unlock (exclusive : Exclusive lock fun q => (places q).Owns)
    (inside : (places p).Owns) (outside : ¬ place.Owns) :
    Exclusive false fun q => (Function.update places p place q).Owns := by
  refine exclusive.release inside fun q => ?_
  by_cases here : q = p
  · rw [here, Function.update_self]
    exact iff_of_false outside fun both => both.2 rfl
  · rw [Function.update_of_ne here]
    exact (and_iff_left here).symm

end Lock

end Invariant

section Calls

variable [DecidableEq ι] {self next : GebrAuth ι} {p : ι} {place : Place} {key : Bytes}

/-- Only the process that makes the call goes on. -/
theorem place_cases (places : next.places = Function.update self.places p place) (q : ι) :
    (q = p ∧ next.places q = place) ∨ (q ≠ p ∧ next.places q = self.places q) := by
  rw [places]
  by_cases here : q = p
  · exact Or.inl ⟨here, by rw [here, Function.update_self]⟩
  · exact Or.inr ⟨here, Function.update_of_ne here _ _⟩

/-- What the accepts have found is as before, when the process has found the same. -/
theorem found_same (places : next.places = Function.update self.places p place)
    (same : place.found = (self.places p).found) (q : ι) :
    (next.places q).found = (self.places q).found := by
  obtain ⟨rfl, there⟩ | ⟨-, there⟩ := place_cases places q
  · rw [there, same]
  · rw [there]

/-- **A call that leaves text and ledger alone**: the process has the same line in its hands as
before. -/
theorem Guarded.quiet (guarded : Guarded self)
    (places : next.places = Function.update self.places p place)
    (ledger : next.ledger = self.ledger) (text : next.text = self.text)
    (exclusive : Exclusive next.lock fun q => (Function.update self.places p place q).Owns)
    (found : place.found = (self.places p).found) (right : place.Right self.ledger)
    (uncut : ¬ place.Cut) (uncut' : ¬ (self.places p).Cut) : Guarded next := by
  have found_eq := found_same places found
  refine ⟨?_, ?_, fun q => ?_, fun q cut => ?_, fun whole => ?_⟩
  · rw [places]
    exact exclusive
  · have before := guarded.ledger
    rw [ledger]
    refine ⟨before.below, before.distinct, before.past, before.once, before.clean, ?_, ?_⟩
    · intro line there used
      obtain ⟨q, has⟩ := before.pending line there used
      exact ⟨q, (found_eq q).trans has⟩
    · intro q number key has
      exact before.used q number key ((found_eq q).symm.trans has)
  · rw [ledger]
    obtain ⟨-, there⟩ | ⟨-, there⟩ := place_cases places q
    · rw [there]
      exact right
    · rw [there]
      exact guarded.hands q
  · obtain ⟨-, there⟩ | ⟨-, there⟩ := place_cases places q
    · exact absurd (there ▸ cut) uncut
    · rw [text]
      exact guarded.cut q (there ▸ cut)
  · rw [text, ledger]
    refine guarded.whole fun q cut => ?_
    obtain ⟨rfl, -⟩ | ⟨-, there⟩ := place_cases places q
    · exact uncut' cut
    · exact whole q (there.symm ▸ cut)

/-- **A new line** is of no accept yet. -/
theorem Guarded.write (guarded : Guarded self) (here : self.places p = .readPrint key)
    (places : next.places = Function.update self.places p .readUnlock)
    (ledger : next.ledger = self.ledger.write key) (text : next.text = self.text ++ putLines [key])
    (lock : next.lock = self.lock) : Guarded next := by
  have inside : (self.places p).Owns := by rw [here]; trivial
  have uncut := guarded.uncut inside (by rw [here]; exact id)
  have clean : Clean key := by
    have hands := guarded.hands p
    rw [here] at hands
    exact hands
  have before := guarded.ledger
  have found_eq := found_same places (by rw [here]; rfl)
  refine ⟨?_, ?_, fun q => ?_, fun q cut => ?_, fun _ => ?_⟩
  · rw [places, lock]
    exact exclusive_stay guarded.exclusive (iff_of_true trivial inside)
  · rw [ledger]
    refine ⟨?_, ?_, ?_, before.once, ?_, ?_, ?_⟩
    · intro line there
      rcases List.mem_append.1 there with old | new
      · exact Nat.lt_succ_of_lt (before.below line old)
      · rw [List.mem_singleton.1 new]
        exact Nat.lt_succ_self _
    · show (List.map Prod.fst (self.ledger.lines ++ [(self.ledger.written, key)])).Nodup
      rw [List.map_append]
      refine List.nodup_append.2 ⟨before.distinct, List.pairwise_singleton _ _, ?_⟩
      rintro number old other new rfl
      obtain ⟨line, there, rfl⟩ := List.mem_map.1 old
      exact absurd (before.below line there) (by rw [List.mem_singleton.1 new]; exact lt_irrefl _)
    · exact fun number used => Nat.lt_succ_of_lt (before.past number used)
    · intro other there
      rw [Ledger.keys_write, List.mem_append, List.mem_singleton] at there
      rcases there with old | rfl
      · exact before.clean other old
      · exact clean
    · intro line there used
      rcases List.mem_append.1 there with old | new
      · obtain ⟨q, has⟩ := before.pending line old used
        exact ⟨q, (found_eq q).trans has⟩
      · rw [List.mem_singleton.1 new] at used
        exact absurd (before.past _ used) (lt_irrefl _)
    · intro q number other has
      exact before.used q number other ((found_eq q).symm.trans has)
  · obtain ⟨-, there⟩ | ⟨other, there⟩ := place_cases places q
    · rw [there]
      trivial
    · rw [there]
      refine (guarded.hands q).outside fun owns => ?_
      exact other (guarded.exclusive.unique q p owns inside)
  · obtain ⟨-, there⟩ | ⟨-, there⟩ := place_cases places q
    · rw [there] at cut
      exact cut.elim
    · rw [there] at cut
      exact absurd cut (uncut q)
  · rw [text, ledger, Ledger.keys_write, putLines_concat, ← guarded.whole uncut]

/-- **The loop of an accept** over a line that no other accept has found. -/
theorem Guarded.use (guarded : Guarded self) (here : self.places p = .acceptRead key) {number : ℕ}
    (line : (number, key) ∈ self.ledger.lines)
    (calm : ∀ q other, (self.places q).found ≠ some (number, other))
    (places : next.places = Function.update self.places p (.removeLock key (some number)))
    (ledger : next.ledger = self.ledger.use number) (text : next.text = self.text)
    (lock : next.lock = self.lock) : Guarded next := by
  have before := guarded.ledger
  have fresh : number ∉ self.ledger.used := by
    intro used
    obtain ⟨q, has⟩ := before.pending _ line used
    exact calm q key has
  have uncut : ¬ (self.places p).Cut := by rw [here]; exact id
  refine ⟨?_, ?_, fun q => ?_, fun q cut => ?_, fun whole => ?_⟩
  · rw [places, lock]
    exact exclusive_stay guarded.exclusive (iff_of_false id (by rw [here]; exact id))
  · rw [ledger]
    refine ⟨before.below, before.distinct, ?_, ?_, before.clean, ?_, ?_⟩
    · intro other used
      rcases List.mem_append.1 used with old | new
      · exact before.past other old
      · rw [List.mem_singleton.1 new]
        exact before.below _ line
    · refine List.nodup_append.2 ⟨before.once, List.pairwise_singleton _ _, ?_⟩
      rintro other old _ new rfl
      exact fresh (List.mem_singleton.1 new ▸ old)
    · intro other there used
      rcases List.mem_append.1 used with old | new
      · obtain ⟨q, has⟩ := before.pending other there old
        obtain ⟨rfl, -⟩ | ⟨-, at'⟩ := place_cases places q
        · rw [here] at has
          cases has
        · exact ⟨q, by rw [at', has]⟩
      · -- the numbers tell the lines apart
        have same := List.inj_on_of_nodup_map before.distinct there line (List.mem_singleton.1 new)
        refine ⟨p, ?_⟩
        rw [places, Function.update_self, same]
        rfl
    · intro q other key' has
      obtain ⟨-, at'⟩ | ⟨-, at'⟩ := place_cases places q
      · rw [at'] at has
        obtain ⟨rfl, rfl⟩ := Prod.mk.inj (Option.some.inj has)
        exact List.mem_append_right _ List.mem_cons_self
      · rw [at'] at has
        exact List.mem_append_left _ (before.used q other key' has)
  · obtain ⟨-, there⟩ | ⟨-, there⟩ := place_cases places q
    · rw [there]
      trivial
    · rw [there, ledger]
      exact (guarded.hands q).congr rfl
  · obtain ⟨-, there⟩ | ⟨-, there⟩ := place_cases places q
    · rw [there] at cut
      exact cut.elim
    · rw [there] at cut
      rw [text]
      exact guarded.cut q cut
  · rw [text, ledger, Ledger.keys_use]
    refine guarded.whole fun q cut => ?_
    obtain ⟨rfl, -⟩ | ⟨-, there⟩ := place_cases places q
    · exact uncut cut
    · exact whole q (there.symm ▸ cut)

/-- **The file is cut**: its lines are in the hands of the process. -/
theorem Guarded.truncate (guarded : Guarded self) {found : Option ℕ} {list : List Bytes}
    (here : self.places p = .removeTruncate key found list)
    (places : next.places = Function.update self.places p (.removePrint key found list))
    (ledger : next.ledger = self.ledger) (text : next.text = []) (lock : next.lock = self.lock) :
    Guarded next := by
  have before := guarded.ledger
  have found_eq := found_same places (by rw [here]; rfl)
  refine ⟨?_, ?_, fun q => ?_, fun _ _ => text, fun whole => ?_⟩
  · rw [places, lock]
    exact exclusive_stay guarded.exclusive (iff_of_true trivial (by rw [here]; trivial))
  · rw [ledger]
    refine ⟨before.below, before.distinct, before.past, before.once, before.clean, ?_, ?_⟩
    · intro line there used
      obtain ⟨q, has⟩ := before.pending line there used
      exact ⟨q, (found_eq q).trans has⟩
    · intro q number other has
      exact before.used q number other ((found_eq q).symm.trans has)
  · have hands := guarded.hands q
    obtain ⟨rfl, there⟩ | ⟨-, there⟩ := place_cases places q
    · rw [here] at hands
      rw [there, ledger]
      exact hands
    · rw [there, ledger]
      exact hands
  · refine absurd ?_ (whole p)
    rw [places, Function.update_self]
    trivial

/-- **The other lines are written again**: those of the key are gone, with every accept that is
still to remove them. -/
theorem Guarded.print (guarded : Guarded self) {found : Option ℕ} {list : List Bytes}
    (here : self.places p = .removePrint key found list)
    (places : next.places = Function.update self.places p .removeUnlock)
    (ledger : next.ledger = self.ledger.remove key)
    (text : next.text = putLines list ++ self.text.drop (putLines list).length)
    (lock : next.lock = self.lock) : Guarded next := by
  have before := guarded.ledger
  have inside : (self.places p).Owns := by rw [here]; trivial
  have empty : self.text = [] := guarded.cut p (by rw [here]; trivial)
  have hands : list = self.ledger.keys.filter fun line => line ≠ key := by
    have hands := guarded.hands p
    rw [here] at hands
    exact hands
  refine ⟨?_, ?_, fun q => ?_, fun q cut => ?_, fun _ => ?_⟩
  · rw [places, lock]
    exact exclusive_stay guarded.exclusive (iff_of_true trivial inside)
  · rw [ledger]
    refine ⟨?_, ?_, before.past, before.once, ?_, ?_, ?_⟩
    · exact fun line there => before.below line (List.mem_of_mem_filter there)
    · exact before.distinct.sublist (List.filter_sublist.map _)
    · intro other there
      rw [Ledger.keys_remove] at there
      exact before.clean other (List.mem_of_mem_filter there)
    · intro line there used
      obtain ⟨old, other⟩ := List.mem_filter.1 there
      obtain ⟨q, has⟩ := before.pending line old used
      obtain ⟨rfl, -⟩ | ⟨-, at'⟩ := place_cases places q
      · -- what the process itself has found has its key
        rw [here] at has
        obtain ⟨number, -, rfl⟩ := Option.map_eq_some_iff.1 has
        exact absurd rfl (of_decide_eq_true other)
      · exact ⟨q, by rw [at', has]⟩
    · intro q number other has
      obtain ⟨-, at'⟩ | ⟨-, at'⟩ := place_cases places q
      · rw [at'] at has
        cases has
      · rw [at'] at has
        exact before.used q number other has
  · obtain ⟨-, there⟩ | ⟨other, there⟩ := place_cases places q
    · rw [there]
      trivial
    · rw [there]
      refine (guarded.hands q).outside fun owns => ?_
      exact other (guarded.exclusive.unique q p owns inside)
  · obtain ⟨-, there⟩ | ⟨other, there⟩ := place_cases places q
    · rw [there] at cut
      exact cut.elim
    · rw [there] at cut
      exact absurd (guarded.exclusive.unique q p cut.owns inside) other
  · rw [text, empty, List.drop_nil, List.append_nil, ledger, Ledger.keys_remove, hands]

omit [DecidableEq ι] in
/-- An accept that finds its key finds a line of the ledger. -/
theorem Guarded.find (guarded : Guarded self) (there : key ∈ keysOf self.text) :
    ∃ number, self.ledger.find key = some number ∧ (number, key) ∈ self.ledger.lines := by
  apply Ledger.find_of_mem
  by_cases cut : ∃ q, (self.places q).Cut
  · obtain ⟨q, cut⟩ := cut
    rw [guarded.cut q cut] at there
    exact absurd there List.not_mem_nil
  · rw [guarded.whole (not_exists.1 cut), keysOf_putLines guarded.ledger.clean] at there
    exact there

/-- `GEBR_LOCK_FILE` waits, or lets the process in. -/
theorem Guarded.lock (guarded : Guarded self) (inside : place.Owns) (outside : ¬ (self.places p).Owns)
    (uncut : ¬ place.Cut) (found : place.found = (self.places p).found)
    (right : place.Right self.ledger) : Guarded (gebrLockFile p place self) := by
  unfold gebrLockFile
  by_cases taken : self.lock = true
  · rw [if_pos taken]
    exact guarded
  · rw [if_neg taken]
    refine guarded.quiet rfl rfl rfl ?_ found right uncut fun cut => outside cut.owns
    have exclusive := guarded.exclusive
    rw [Bool.eq_false_of_not_eq_true taken] at exclusive
    exact exclusive_lock exclusive inside

/-- `GEBR_UNLOCK_FILE` ends the operation of the process that has the lock. -/
theorem Guarded.unlock (guarded : Guarded self) (inside : (self.places p).Owns)
    (uncut : ¬ (self.places p).Cut) (found : (self.places p).found = none) :
    Guarded (gebrUnlockFile p self) := by
  refine guarded.quiet rfl rfl rfl ?_ found.symm trivial id uncut
  exact exclusive_unlock guarded.exclusive inside id

/-- **A calm call keeps the invariant.** -/
theorem Guarded.proceed (guarded : Guarded self) (calm : Calm self (.proceed p))
    (taken : proceed p self = some next) : Guarded next := by
  have hands := guarded.hands p
  unfold Calm at calm
  dsimp only at calm
  unfold Auth.proceed at taken
  cases here : self.places p with
  | idle =>
    rw [here] at taken
    cases taken
  | readLock key =>
    rw [here] at taken hands
    obtain rfl := Option.some.inj taken
    exact guarded.lock trivial (by rw [here]; exact id) id (by rw [here]; rfl) hands
  | readOpen key =>
    rw [here] at taken hands
    obtain rfl := Option.some.inj taken
    refine guarded.quiet rfl rfl rfl ?_ (by rw [here]; rfl) hands id (by rw [here]; exact id)
    exact exclusive_stay guarded.exclusive (iff_of_true trivial (by rw [here]; trivial))
  | readPrint key =>
    rw [here] at taken
    obtain rfl := Option.some.inj taken
    exact guarded.write here rfl rfl rfl rfl
  | readUnlock =>
    rw [here] at taken
    obtain rfl := Option.some.inj taken
    exact guarded.unlock (by rw [here]; trivial) (by rw [here]; exact id) (by rw [here]; rfl)
  | acceptOpen key =>
    rw [here] at taken
    obtain rfl := Option.some.inj taken
    refine guarded.quiet rfl rfl rfl (exclusive_stay guarded.exclusive ?_) ?_ ?_ ?_
      (by rw [here]; exact id)
    · rw [here]
      split <;> exact Iff.rfl
    · rw [here]
      split <;> rfl
    · split <;> trivial
    · split <;> exact id
  | acceptRead key =>
    rw [here] at taken calm
    obtain rfl := Option.some.inj taken
    unfold acceptLines
    by_cases there : key ∈ keysOf self.text
    · obtain ⟨number, found, line⟩ := guarded.find there
      rw [if_pos there, found]
      exact guarded.use here line (calm there number found) rfl rfl rfl rfl
    · rw [if_neg there]
      refine guarded.quiet rfl rfl rfl ?_ (by rw [here]; rfl) trivial id (by rw [here]; exact id)
      exact exclusive_stay guarded.exclusive (iff_of_false id (by rw [here]; exact id))
  | removeLock key found =>
    rw [here] at taken
    obtain rfl := Option.some.inj taken
    exact guarded.lock trivial (by rw [here]; exact id) id (by rw [here]; rfl) trivial
  | removeOpen key found =>
    rw [here] at taken calm
    have exists' : self.file.isSome = true := calm
    obtain rfl := Option.some.inj taken
    rw [if_pos exists']
    refine guarded.quiet rfl rfl rfl ?_ (by rw [here]; rfl) trivial id (by rw [here]; exact id)
    exact exclusive_stay guarded.exclusive (iff_of_true trivial (by rw [here]; trivial))
  | removeRead key found =>
    rw [here] at taken
    obtain rfl := Option.some.inj taken
    have uncut := guarded.uncut (by rw [here]; trivial) (by rw [here]; exact id)
    refine guarded.quiet rfl rfl rfl ?_ (by rw [here]; rfl) ?_ id (by rw [here]; exact id)
    · exact exclusive_stay guarded.exclusive (iff_of_true trivial (by rw [here]; trivial))
    · show (keysOf self.text).filter _ = _
      rw [guarded.whole uncut, keysOf_putLines guarded.ledger.clean]
  | removeTruncate key found list =>
    rw [here] at taken
    obtain rfl := Option.some.inj taken
    exact guarded.truncate here rfl rfl rfl rfl
  | removePrint key found list =>
    rw [here] at taken
    obtain rfl := Option.some.inj taken
    exact guarded.print here rfl rfl rfl rfl
  | removeUnlock =>
    rw [here] at taken
    obtain rfl := Option.some.inj taken
    exact guarded.unlock (by rw [here]; trivial) (by rw [here]; exact id) (by rw [here]; rfl)

/-- **A calm step keeps the invariant.** -/
theorem Guarded.step (guarded : Guarded self) {event : Event ι} (calm : Calm self event)
    (taken : step self event = some next) : Guarded next := by
  cases event with
  | proceed p => exact guarded.proceed calm taken
  | start p operation =>
    unfold Auth.step at taken
    dsimp only at taken
    split at taken
    · rename_i idle
      obtain rfl := Option.some.inj taken
      have outside : ¬ operation.first.Owns ∧ operation.first.found = none ∧
          operation.first.Right self.ledger := by
        cases operation with
        | readCookie input =>
          unfold Operation.first
          dsimp only
          split
          · exact ⟨id, rfl, trivial⟩
          · rename_i word
            exact ⟨id, rfl, clean_scanWord word⟩
        | accepts key => exact ⟨id, rfl, trivial⟩
        | removeCookie key => exact ⟨id, rfl, trivial⟩
      refine guarded.quiet rfl rfl rfl ?_ ?_ outside.2.2 (fun cut => outside.1 cut.owns) ?_
      · exact exclusive_stay guarded.exclusive (iff_of_false outside.1 (by rw [idle]; exact id))
      · rw [idle, outside.2.1]
        rfl
      · rw [idle]
        exact id
    · cases taken

/-- **A step that is not calm is not sound**: the line has let two logins in, or nobody is left who
would give the lock back. -/
theorem Guarded.calm_of_sound (guarded : Guarded self) {event : Event ι}
    (taken : Auth.step self event = some next) (sound : Sound next) : Calm self event := by
  cases event with
  | start p operation => trivial
  | proceed p =>
    unfold Auth.step Auth.proceed at taken
    unfold Calm
    dsimp only at taken ⊢
    split
    · rename_i key here
      intro there number found q other has
      rw [here] at taken
      obtain rfl := Option.some.inj taken
      have once := sound.once
      unfold acceptLines at once
      rw [if_pos there, found] at once
      exact List.disjoint_of_nodup_append once (guarded.ledger.used q number other has)
        List.mem_cons_self
    · rename_i key found here
      rw [here] at taken
      obtain rfl := Option.some.inj taken
      by_contra missing
      have inside : (self.places p).Owns := by rw [here]; trivial
      obtain ⟨q, owns⟩ := sound.held (guarded.exclusive.raised p inside)
      rw [if_neg missing] at owns
      have places : (self.goto p .idle).places = Function.update self.places p .idle := rfl
      obtain ⟨-, there⟩ | ⟨other, there⟩ := place_cases places q
      · rw [there] at owns
        exact owns
      · rw [there] at owns
        exact other (guarded.exclusive.unique q p owns inside)
    · trivial

end Calls

section Runs

/-- **A cookie lets one login in.** In every run of any processes from a new directory, in any order
of their calls: every state is sound just when no accept reads a line that another accept has found
and not yet removed, and no removal opens a file that does not exist. -/
theorem run_sound_iff [DecidableEq ι] (events : List (Event ι)) :
    (∀ s e t, (s, e, t) ∈ Run.trace step (authNew : GebrAuth ι) events → Sound t) ↔
      ∀ s e t, (s, e, t) ∈ Run.trace step (authNew : GebrAuth ι) events → Calm s e := by
  have soundKeep : ∀ (s : GebrAuth ι) e t, Guarded s → step s e = some t → Sound t →
      Guarded t ∧ Calm s e := by
    intro s e t guarded taken sound
    have calm := guarded.calm_of_sound taken sound
    exact ⟨guarded.step calm taken, calm⟩
  have calmKeep : ∀ (s : GebrAuth ι) e t, Guarded s → step s e = some t → Calm s e →
      Guarded t ∧ Sound t := by
    intro s e t guarded taken calm
    have after := guarded.step calm taken
    exact ⟨after, after.sound⟩
  exact ⟨Run.trace_carries (fun s e t => soundKeep s e t) guarded_new,
    Run.trace_carries (fun s e t => calmKeep s e t) guarded_new⟩

/-- One process writes a cookie; then two accept it, the second one before the first one removes
it. -/
def twoLogins : List (Event ℕ) :=
  let goes (p : ℕ) (n : ℕ) : List (Event ℕ) := List.replicate n (.proceed p)
  [.start 0 (.readCookie [65, 10])] ++ goes 0 4 ++
    [.start 1 (.accepts [65]), .start 2 (.accepts [65])] ++ goes 1 2 ++ goes 2 2 ++
      goes 1 6 ++ goes 2 6

/-- **Two logins with one cookie**: all operations have ended, and the line has been used twice. -/
theorem two_logins :
    ∃ auth, Run.run step authNew twoLogins = some auth ∧ auth.ledger.written = 1 ∧
      auth.ledger.used = [0, 0] ∧ auth.places 1 = .idle ∧ auth.places 2 = .idle ∧ ¬ Sound auth := by
  refine ⟨_, rfl, ?_, ?_, ?_, ?_, fun sound => ?_⟩
  · decide +kernel
  · decide +kernel
  · decide +kernel
  · decide +kernel
  · exact absurd sound.once (by decide +kernel)

end Runs

end Gebr.Auth
