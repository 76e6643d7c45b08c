/-
**A table that follows a dictionary.**

* `Describes.insert`, `Describes.remove`, `Describes.rename`: one parameter enters a dictionary,
  leaves it or changes its name, and the table does the same.
* `insertDict_entry`: a dictionary that is inserted as a whole gives its parameters the weights 1,
  2, 3, … — also when the table had some of them with these weights.
* `removeDict_entry`: the names of a dictionary leave the table.
* `synchronise_describes` — **one update**: when the cache tells the truth about the validator, its
  table describes its documents.
-/

import Mathlib.Data.List.Chain
import Mathlib.Tactic.Linarith
import Mathlib.Tactic.NormNum
import Mathlib.Tactic.Ring
import Gebr.Validator.Documents

namespace Gebr.Validator

section Describes

variable {round : ℚ → ℚ} {vars other : Vars} {scope : Scope} {dict before after : Dict}
  {param : Parameter}

/-- The names of a dictionary, without repetition, and none of them empty. -/
structure Tidy (dict : Dict) : Prop where
  nodup : (dict.map Parameter.keyword).Nodup
  named : "" ∉ dict.map Parameter.keyword

instance (dict : Dict) : Decidable (Tidy dict) :=
  decidable_of_iff ((dict.map Parameter.keyword).Nodup ∧ "" ∉ dict.map Parameter.keyword)
    ⟨fun ⟨nodup, named⟩ => ⟨nodup, named⟩, fun tidy => ⟨tidy.nodup, tidy.named⟩⟩

theorem Tidy.perm (tidy : Tidy dict) {other : Dict} (perm : other.Perm dict) : Tidy other where
  nodup := (perm.map Parameter.keyword).nodup_iff.2 tidy.nodup
  named := fun member => tidy.named ((perm.map Parameter.keyword).mem_iff.1 member)

theorem Tidy.middle : Tidy (before ++ param :: after) ↔
    Tidy (before ++ after) ∧ param.keyword ≠ "" ∧ ∀ other ∈ before ++ after, other.keyword ≠
    param.keyword := by
  have perm : (before ++ param :: after).Perm (param :: (before ++ after)) := List.perm_middle
  constructor
  · intro tidy
    have first := tidy.perm perm.symm
    have nodup := List.nodup_cons.1 first.nodup
    refine ⟨⟨nodup.2, fun member => first.named (List.mem_cons_of_mem _ member)⟩,
      fun empty => first.named (empty ▸ List.mem_cons_self), fun other member same => ?_⟩
    exact nodup.1 (same ▸ List.mem_map_of_mem member)
  · rintro ⟨tidy, named, apart⟩
    have first : Tidy (param :: (before ++ after)) := by
      refine ⟨List.nodup_cons.2 ⟨fun member => ?_, tidy.nodup⟩, fun member => ?_⟩
      · obtain ⟨other, here, same⟩ := List.mem_map.1 member
        exact apart other here same
      · rcases List.mem_cons.1 member with same | later
        · exact named same.symm
        · exact tidy.named later
    exact first.perm perm

theorem Describes.congr (described : Describes vars scope dict)
    (same : ∀ name, entry other scope name = entry vars scope name) : Describes other scope dict where
  exactly name node := by rw [same]; exact described.exactly name node
  ordered := by
    have weights : getWeight other scope = getWeight vars scope := by
      funext param
      rw [getWeight_eq, getWeight_eq, same]
    rw [weights]
    exact described.ordered

theorem Describes.entry_of_mem (described : Describes vars scope dict) (member : param ∈ dict) :
    entry vars scope param.keyword = some (param.node, getWeight vars scope param) := by
  have node := (described.exactly param.keyword param.node).2 ⟨param, member, rfl, rfl⟩
  rw [getWeight_eq]
  obtain ⟨⟨_, weight⟩, here, rfl⟩ := Option.map_eq_some_iff.1 node
  rw [here]
  rfl

theorem Describes.entry_of_not_mem (described : Describes vars scope dict) {name : String}
    (absent : ∀ param ∈ dict, param.keyword ≠ name) : entry vars scope name = none := by
  cases here : entry vars scope name with
  | none => rfl
  | some cell =>
    have node : (entry vars scope name).map Prod.fst = some cell.1 := by rw [here]; rfl
    obtain ⟨param, member, same, _⟩ := (described.exactly name cell.1).1 node
    exact absurd same (absent param member)

/-- The weight of a new parameter lies strictly between those of its neighbours. -/
structure Strict (vars : Vars) (scope : Scope) (before after : Option Parameter) (weight : ℚ) :
    Prop where
  above : ∀ param ∈ before, getWeight vars scope param < weight
  positive : 0 < weight
  below : ∀ param ∈ after, weight < getWeight vars scope param

/-- **One parameter enters.** -/
theorem Describes.insert (described : Describes vars scope (before ++ after)) {weight : ℚ}
    (strict : Strict vars scope before.getLast? after.head? weight)
    (apart : ∀ other ∈ before ++ after, other.keyword ≠ param.keyword)
    (entered : ∀ name, entry other scope name =
      if name = param.keyword then some (param.node, weight) else entry vars scope name) :
    Describes other scope (before ++ param :: after) where
  exactly name node := by
    rw [entered]
    by_cases names : name = param.keyword
    · rw [if_pos names]
      constructor
      · intro same
        exact ⟨param, by simp, names.symm, Option.some.inj same⟩
      · rintro ⟨other, member, same, rfl⟩
        rcases List.mem_append.1 member with front | back
        · exact absurd (same.trans names) (apart other (List.mem_append_left _ front))
        · rcases List.mem_cons.1 back with rfl | back
          · rfl
          · exact absurd (same.trans names) (apart other (List.mem_append_right _ back))
    · rw [if_neg names, described.exactly name node]
      refine exists_congr fun other => and_congr_left fun ⟨same, _⟩ => ?_
      rw [List.mem_append, List.mem_append, List.mem_cons]
      refine or_congr_right (or_iff_right fun equal => names ?_).symm
      rw [← same, equal]
  ordered := by
    have kept : ∀ list : Dict, (∀ q ∈ list, q ∈ before ++ after) →
        list.map (getWeight other scope) = list.map (getWeight vars scope) := fun list inside =>
      List.map_congr_left fun q member => by
        rw [getWeight_eq, getWeight_eq, entered, if_neg (apart q (inside q member))]
    have self : getWeight other scope param = weight := by
      rw [getWeight_eq, entered, if_pos rfl]
      rfl
    rw [List.map_append, List.map_cons, self, kept before fun q member =>
      List.mem_append_left _ member, kept after fun q member => List.mem_append_right _ member,
        ← List.cons_append]
    have chain := described.ordered
    rw [List.map_append, ← List.cons_append, List.isChain_append] at chain
    refine List.isChain_append.2 ⟨chain.1, List.isChain_cons.2 ⟨fun next member => ?_, chain.2.1⟩,
      fun previous last next first => ?_⟩
    · rw [List.head?_map, Option.mem_def, Option.map_eq_some_iff] at member
      obtain ⟨q, here, rfl⟩ := member
      exact strict.below q here
    · obtain rfl := Option.some.inj first
      rw [List.getLast?_cons, List.getLast?_map, Option.mem_def, Option.some.injEq] at last
      rw [← last]
      cases here : before.getLast? with
      | none => exact strict.positive
      | some q => exact strict.above q here

/-- **One parameter leaves.** -/
theorem Describes.remove (described : Describes vars scope (before ++ param :: after))
    (apart : ∀ other ∈ before ++ after, other.keyword ≠ param.keyword)
    (left : ∀ name, entry other scope name =
      if name = param.keyword then none else entry vars scope name) :
    Describes other scope (before ++ after) where
  exactly name node := by
    rw [left]
    by_cases names : name = param.keyword
    · rw [if_pos names]
      refine ⟨fun same => absurd same (Option.some_ne_none node).symm, ?_⟩
      rintro ⟨other, member, same, rfl⟩
      exact absurd (same.trans names) (apart other member)
    · rw [if_neg names, described.exactly name node]
      refine exists_congr fun other => and_congr_left fun ⟨same, _⟩ => ?_
      rw [List.mem_append, List.mem_append, List.mem_cons]
      refine or_congr_right (or_iff_right fun equal => names ?_)
      rw [← same, equal]
  ordered := by
    have kept : (before ++ after).map (getWeight other scope) =
        (before ++ after).map (getWeight vars scope) :=
      List.map_congr_left fun q member => by
        rw [getWeight_eq, getWeight_eq, left, if_neg (apart q member)]
    have fewer : (0 :: (before ++ after).map (getWeight vars scope)).Sublist
        (0 :: (before ++ param :: after).map (getWeight vars scope)) :=
      ((List.sublist_cons_self param after).append_left before).map _ |>.cons_cons 0
    rw [kept]
    exact (List.isChain_iff_pairwise.1 described.ordered).sublist fewer |>.isChain

/-- The weight that a parameter has lies between those of its neighbours. -/
theorem Describes.strict (described : Describes vars scope (before ++ param :: after)) :
    Strict vars scope before.getLast? after.head? (getWeight vars scope param) := by
  have chain := described.ordered
  rw [List.map_append, List.map_cons, ← List.cons_append, List.isChain_append] at chain
  have low := chain.2.2 _ List.getLast?_cons _ rfl
  refine ⟨fun q last => ?_, ?_, fun q first => ?_⟩
  · rw [List.getLast?_map, Option.mem_def.1 last] at low
    exact low
  · have sorted := List.isChain_iff_pairwise.1 described.ordered
    exact List.rel_of_pairwise_cons sorted (List.mem_map_of_mem (by simp))
  · refine (List.isChain_cons.1 chain.2.1).1 _ ?_
    rw [List.head?_map, Option.mem_def.1 first]
    rfl

theorem Strict.congr {first last : Option Parameter} {weight : ℚ}
    (strict : Strict vars scope first last weight)
    (sameFirst : ∀ param ∈ first, entry other scope param.keyword = entry vars scope param.keyword)
    (sameLast : ∀ param ∈ last, entry other scope param.keyword = entry vars scope param.keyword) :
    Strict other scope first last weight where
  above q member := by
    rw [getWeight_eq, sameFirst q member, ← getWeight_eq]
    exact strict.above q member
  positive := strict.positive
  below q member := by
    rw [getWeight_eq, sameLast q member, ← getWeight_eq]
    exact strict.below q member

/-- **One parameter changes its name**: it leaves, and enters at its place with its weight. -/
theorem Describes.rename (described : Describes vars scope (before ++ param :: after))
    {newName : String} (apart : ∀ other ∈ before ++ after, other.keyword ≠ param.keyword)
    (free : ∀ other ∈ before ++ after, other.keyword ≠ newName)
    (renamed : ∀ name, entry other scope name =
      if name = newName then some (param.node, getWeight vars scope param)
      else if name = param.keyword then none else entry vars scope name) :
    Describes other scope (before ++ { param with keyword := newName } :: after) := by
  have removed : ∀ name, entry (hashDataRemove vars param.keyword scope).1 scope name =
      if name = param.keyword then none else entry vars scope name := fun name => by
    rw [entry_remove]
    simp only [true_and]
  have kept : ∀ q ∈ before ++ after, entry (hashDataRemove vars param.keyword scope).1
      scope q.keyword = entry vars scope q.keyword := fun q member => by
        rw [removed, if_neg (apart q member)]
  have strict := described.strict.congr
    (fun q last => kept q (List.mem_append_left _ (List.mem_of_getLast? last)))
    fun q first => kept q (List.mem_append_right _ (List.mem_of_head? first))
  refine Describes.insert (described.remove apart removed) strict free fun name => ?_
  rw [renamed, removed]

/-- The value of a parameter is not in the table. -/
theorem Describes.revalue (described : Describes vars scope (before ++ param :: after))
    (value : String) : Describes vars scope (before ++ { param with value } :: after) where
  exactly name node := by
    rw [described.exactly name node]
    simp only [List.mem_append, List.mem_cons, or_and_right, exists_or, exists_eq_left]
  ordered := by
    have ordered := described.ordered
    rw [List.map_append, List.map_cons] at ordered ⊢
    exact ordered

theorem Tidy.revalue (tidy : Tidy (before ++ param :: after)) (value : String) :
    Tidy (before ++ { param with value } :: after) := by
  rw [Tidy.middle] at tidy ⊢
  exact tidy

end Describes

section Synchronise

variable {round : ℚ → ℚ} {vars : Vars} {scope : Scope} {dict : Dict}

/-- The parameter stands in the dictionary, and its weight is its place there, counted from one. -/
def Placed (dict : Dict) (name : String) (node : ℕ) (weight : ℚ) : Prop :=
  ∃ place param, dict[place]? = some param ∧ param.keyword = name ∧ param.node = node ∧
    weight = (place + 1 : ℕ)

/-- The doubles have the natural numbers up to 2 ^ 53. -/
def Exact (round : ℚ → ℚ) : Prop := ∀ n : ℕ, n ≤ 2 ^ 53 → round n = n

/-- The numbers that the weights of a dictionary are computed from are not rounded. -/
def Fits (round : ℚ → ℚ) (dict : Dict) : Prop := ∀ n : ℕ, n ≤ 2 * dict.length → round n = n

theorem Exact.fits (exact : Exact round) (short : dict.length ≤ 2 ^ 52) : Fits round dict :=
  fun n le => exact n (by omega)

theorem Placed.of_place (tidy : Tidy dict) {place node : ℕ} {param : Parameter} {weight : ℚ}
    (here : dict[place]? = some param) (placed : Placed dict param.keyword node weight) :
    node = param.node ∧ weight = (place + 1 : ℕ) := by
  obtain ⟨other, found, there, same, rfl, rfl⟩ := placed
  have outside : other < (dict.map Parameter.keyword).length := by
    rw [List.length_map]
    exact (List.getElem?_eq_some_iff.1 there).1
  have names : (dict.map Parameter.keyword)[other]? = (dict.map Parameter.keyword)[place]? := by
    rw [List.getElem?_map, List.getElem?_map, there, here, Option.map_some, Option.map_some, same]
  obtain rfl := (List.getElem?_inj outside tidy.nodup).1 names
  obtain rfl := Option.some.inj (there.symm.trans here)
  exact ⟨rfl, rfl⟩

/-- What is placed and complete describes the dictionary. -/
theorem describes_of_placed (tidy : Tidy dict)
    (placed : ∀ name node weight, entry vars scope name = some (node, weight) →
      Placed dict name node weight)
    (complete : ∀ param ∈ dict, entry vars scope param.keyword ≠ none) :
    Describes vars scope dict where
  exactly name node := by
    constructor
    · intro same
      obtain ⟨⟨_, weight⟩, here, rfl⟩ := Option.map_eq_some_iff.1 same
      obtain ⟨place, param, there, named, stored, _⟩ := placed name _ weight here
      exact ⟨param, List.mem_of_getElem? there, named, stored⟩
    · rintro ⟨param, member, rfl, rfl⟩
      obtain ⟨⟨node, weight⟩, here⟩ := Option.ne_none_iff_exists'.1 (complete param member)
      obtain ⟨place, there⟩ := List.getElem?_of_mem member
      rw [here, ((placed _ _ _ here).of_place tidy there).1]
      rfl
  ordered := by
    have weight : ∀ place (inside : place < dict.length),
        getWeight vars scope dict[place] = (place + 1 : ℕ) := by
      intro place inside
      obtain ⟨⟨node, weight⟩, here⟩ :=
        Option.ne_none_iff_exists'.1 (complete dict[place] (List.getElem_mem inside))
      rw [getWeight_eq, here]
      exact ((placed _ _ _ here).of_place tidy (List.getElem?_eq_getElem inside)).2
    refine List.isChain_iff_pairwise.2 (List.pairwise_cons.2 ⟨?_, ?_⟩)
    · intro a member
      obtain ⟨param, inside, rfl⟩ := List.mem_map.1 member
      obtain ⟨place, low, rfl⟩ := List.getElem_of_mem inside
      rw [weight place low]
      exact_mod_cast Nat.succ_pos place
    · rw [List.pairwise_map, List.pairwise_iff_getElem]
      intro i j first second less
      rw [weight i first, weight j second]
      exact_mod_cast Nat.succ_lt_succ less

/-- The weight that a placed table gives to the parameter after those that are done. -/
theorem computeWeight_placed (fits : Fits round dict) (tidy : Tidy dict)
    {front back : Dict} {param : Parameter} (parts : dict = front ++ param :: back)
    (placed : ∀ name node weight, entry vars scope name = some (node, weight) →
      Placed dict name node weight)
    (complete : ∀ param ∈ front, entry vars scope param.keyword ≠ none) :
    computeWeight round vars scope front.getLast? back.head? = (front.length + 1 : ℕ) := by
  have weight : ∀ {place : ℕ} {q : Parameter}, dict[place]? = some q →
      entry vars scope q.keyword ≠ none → getWeight vars scope q = (place + 1 : ℕ) := by
    intro place q here known
    obtain ⟨⟨node, weight⟩, stored⟩ := Option.ne_none_iff_exists'.1 known
    rw [getWeight_eq, stored]
    exact ((placed _ _ _ stored).of_place tidy here).2
  have low : front.getLast?.elim 0 (getWeight vars scope) = (front.length : ℚ) := by
    induction front using List.reverseRecOn with
    | nil => rfl
    | append_singleton init q _ =>
      have here : dict[init.length]? = some q := by
        rw [parts, List.append_assoc, List.getElem?_append_right (le_refl _), Nat.sub_self]
        rfl
      rw [List.getLast?_concat, Option.elim_some, weight here (complete q (by simp)),
        List.length_append, List.length_singleton]
  have length : front.length + 1 ≤ dict.length := by
    rw [parts, List.length_append, List.length_cons]
    omega
  have plain : round ((front.length : ℚ) + 1) = (front.length + 1 : ℕ) := by
    have whole := fits (front.length + 1) (by omega)
    push_cast at whole ⊢
    exact whole
  have known : ¬ (front.length : ℚ) = -1 := fun absurdity => by
    have : (0 : ℚ) ≤ front.length := Nat.cast_nonneg _
    linarith
  unfold computeWeight
  simp only [low, if_neg known]
  cases first : back.head? with
  | none => exact plain
  | some next =>
    dsimp only
    by_cases absent : entry vars scope next.keyword = none
    · have unset : getWeight vars scope next = -1 := by rw [getWeight_eq, absent]; rfl
      rw [if_pos unset]
      exact plain
    · have here : dict[front.length + 1]? = some next := by
        rw [parts, List.getElem?_append_right (by omega), Nat.add_sub_cancel_left,
          List.getElem?_cons_succ, ← List.head?_eq_getElem?]
        exact first
      have two := fits (2 * front.length + 2) (by omega)
      have one := fits (front.length + 1) (by omega)
      have sum : (((front.length + 1 + 1 : ℕ) : ℚ) + front.length) = (2 * front.length + 2 : ℕ) := by
        push_cast
        ring
      have half : ((2 * front.length + 2 : ℕ) : ℚ) / 2 = (front.length + 1 : ℕ) := by
        push_cast
        ring
      rw [weight here absent, sum, two, half, one, if_neg]
      have : (0 : ℚ) ≤ ((front.length + 1 + 1 : ℕ) : ℚ) := Nat.cast_nonneg _
      linarith

/-- The parameter after those that are done goes to its place. -/
theorem insertParam_placed (fits : Fits round dict) (tidy : Tidy dict) {front rest : Dict}
    {param : Parameter} (parts : dict = front ++ param :: rest)
    (placed : ∀ name node weight, entry vars scope name = some (node, weight) →
      Placed dict name node weight)
    (complete : ∀ param ∈ front, entry vars scope param.keyword ≠ none) :
    (∀ name node weight, entry (insertParam round vars scope front.getLast? rest.head? param) scope
        name = some (node, weight) → Placed dict name node weight) ∧
      ∀ q ∈ front ++ [param],
        entry (insertParam round vars scope front.getLast? rest.head? param) scope q.keyword ≠
        none := by
  have middle := Tidy.middle.1 (parts ▸ tidy)
  have apartFront : ∀ q ∈ front.getLast?, q.keyword ≠ param.keyword := fun q last =>
    middle.2.2 q (List.mem_append_left _ (List.mem_of_getLast? last))
  have apartBack : ∀ q ∈ rest.head?, q.keyword ≠ param.keyword := fun q first =>
    middle.2.2 q (List.mem_append_right _ (List.mem_of_head? first))
  have entered := @entry_insert round vars scope _ _ param middle.2.1 apartFront apartBack
  have weight := computeWeight_placed fits tidy parts placed complete
  have here : dict[front.length]? = some param := by
    rw [parts, List.getElem?_append_right (le_refl _), Nat.sub_self]
    rfl
  constructor
  · intro name node w stored
    rw [entered] at stored
    by_cases names : name = param.keyword
    · rw [if_pos ⟨rfl, names⟩, weight] at stored
      obtain ⟨rfl, rfl⟩ := Prod.mk.inj (Option.some.inj stored)
      subst names
      refine ⟨front.length, param, here, rfl, ?_, rfl⟩
      cases known : entry vars scope param.keyword with
      | none => rfl
      | some cell => exact ((placed _ _ _ known).of_place tidy here).1.symm
    · rw [if_neg fun at' => names at'.2] at stored
      exact placed name node w stored
  · intro q member
    rw [entered]
    by_cases names : q.keyword = param.keyword
    · rw [if_pos ⟨rfl, names⟩]
      exact Option.some_ne_none _
    · rw [if_neg fun at' => names at'.2]
      rcases List.mem_append.1 member with done | new
      · exact complete q done
      · exact absurd (congrArg Parameter.keyword (List.mem_singleton.1 new)) names

/-- **A dictionary that is inserted as a whole**, into a table that has in this scope nothing but
some of its parameters at their places. -/
theorem insertDict_placed (fits : Fits round dict) (tidy : Tidy dict)
    {front rest : Dict} (parts : dict = front ++ rest)
    (placed : ∀ name node weight, entry vars scope name = some (node, weight) →
      Placed dict name node weight)
    (complete : ∀ param ∈ front, entry vars scope param.keyword ≠ none) :
    Describes (insertDict round scope front.getLast? rest vars) scope dict := by
  induction rest generalizing front vars with
  | nil =>
    rw [List.append_nil] at parts
    subst parts
    exact describes_of_placed tidy placed complete
  | cons param rest ih =>
    have last : (front ++ [param]).getLast? = some param := List.getLast?_concat
    have entered := insertParam_placed fits tidy parts placed complete
    have next := @ih _ (front ++ [param]) (by rw [parts, List.append_assoc]; rfl) entered.1 entered.2
    rw [last] at next
    exact next

theorem insertDict_other {other : Scope} (apart : other ≠ scope) (before : Option Parameter)
    (dict : Dict) (vars : Vars) (name : String) :
    entry (insertDict round scope before dict vars) other name = entry vars other name := by
  induction dict generalizing before vars with
  | nil => rfl
  | cons param rest ih =>
    rw [insertDict, ih, entry_insert_other vars before rest.head? param apart]

/-- The names of a dictionary leave the table, in one scope. -/
theorem removeDict_entry (scope : Scope) (dict : Dict) (vars : Vars) (other : Scope) (name : String) :
    entry (removeDict scope dict vars) other name =
      if other = scope ∧ name ∈ dict.map Parameter.keyword then none else entry vars other name := by
  unfold removeDict
  induction dict generalizing vars with
  | nil => rw [List.map_nil, if_neg fun at' => List.not_mem_nil at'.2]; rfl
  | cons param dict ih =>
    rw [List.foldl_cons, ih, entry_remove]
    by_cases scopes : other = scope
    · simp only [scopes, true_and, List.map_cons, List.mem_cons]
      by_cases names : name = param.keyword
      · rw [if_pos names, if_pos (Or.inl names), ite_self]
      · simp only [names, if_false, false_or]
    · rw [if_neg fun at' => scopes at'.1, if_neg fun at' => scopes at'.1,
        if_neg fun at' => scopes at'.1]

/-- The cache names a project, and it is another one: the table is built anew. -/
def Program.Rebuilt (self : Program) (current : Scope → Option ℕ) : Prop :=
  self.cacheDocs .project ≠ none ∧ self.cacheDocs .project ≠ current .project

instance (self : Program) (current : Scope → Option ℕ) : Decidable (self.Rebuilt current) :=
  inferInstanceAs (Decidable (_ ∧ _))

/-- What is left of a scope when it is not rebuilt: a document that is not current leaves the cache,
and its names leave the table. -/
theorem cleanLoop_spec (self : Program) (current : Scope → Option ℕ) {scopes : List Scope}
    (nodup : scopes.Nodup) (synced : Synced)
    (still : .project ∈ scopes →
      synced.cacheDocs .project = none ∨ synced.cacheDocs .project = current .project)
    (scope : Scope) : ((cleanLoop self current scopes synced).cacheDocs scope =
        if scope ∈ scopes ∧ synced.cacheDocs scope ≠ current scope then none
        else synced.cacheDocs scope) ∧
      ∀ name, entry (cleanLoop self current scopes synced).vars scope name =
        if scope ∈ scopes ∧ synced.cacheDocs scope ≠ current scope ∧
          name ∈ (self.dict scope (synced.cacheDocs scope)).map Parameter.keyword then none
        else entry synced.vars scope name := by
  induction scopes generalizing synced with
  | nil => simp [cleanLoop]
  | cons first rest ih =>
    have parts := List.nodup_cons.1 nodup
    unfold cleanLoop
    have same : (synced.cacheDocs first = none ∨ synced.cacheDocs first = current first) →
        ((cleanLoop self current rest synced).cacheDocs scope =
            if scope ∈ first :: rest ∧ synced.cacheDocs scope ≠ current scope then none
            else synced.cacheDocs scope) ∧
          ∀ name, entry (cleanLoop self current rest synced).vars scope name =
            if scope ∈ first :: rest ∧ synced.cacheDocs scope ≠ current scope ∧
              name ∈ (self.dict scope (synced.cacheDocs scope)).map Parameter.keyword then none
            else entry synced.vars scope name := by
      intro kept
      have later := ih parts.2 synced fun member => still (List.mem_cons_of_mem _ member)
      by_cases here : scope = first
      · subst here
        rcases kept with unset | current
        · simp [later.1, later.2, parts.1, unset, Program.dict]
        · simp [later.1, later.2, parts.1, current]
      · simp [later.1, later.2, here]
    cases cached : synced.cacheDocs first with
    | none => exact same (Or.inl cached)
    | some doc =>
      dsimp only
      by_cases equal : current first = some doc
      · rw [if_pos equal]
        exact same (Or.inr (cached.trans equal.symm))
      · have inner : first ≠ .project := fun outer => by
          subst outer
          rcases still List.mem_cons_self with unset | agreed
          · exact absurd (cached.symm.trans unset) (Option.some_ne_none doc)
          · exact equal (agreed.symm.trans cached)
        rw [if_neg equal, if_neg inner]
        have later := ih parts.2
          { cacheDocs := Function.update synced.cacheDocs first none
            vars := removeDict first (self.dicts first doc) synced.vars }
          fun member => by
            have apart : Scope.project ≠ first := fun same => inner same.symm
            simp only [Function.update_of_ne apart]
            exact still (List.mem_cons_of_mem _ member)
        simp only [removeDict_entry] at later
        by_cases here : scope = first
        · subst here
          have differ : ¬ some doc = current scope := fun same => equal same.symm
          simp [later.1, later.2, parts.1, cached, differ, Program.dict]
        · simp [later.1, later.2, here]

/-- A scope before its turn in the update: what the cache says of it is true. -/
structure Waiting (program : Program) (current : Scope → Option ℕ) (scope : Scope) (synced : Synced) :
    Prop where
  cleaned : synced.cacheDocs scope = none ∨ synced.cacheDocs scope = current scope
  described : synced.cacheDocs scope = current scope →
    Describes synced.vars scope (program.dict scope (current scope))
  placed : synced.cacheDocs scope ≠ current scope →
    ∀ name node weight, entry synced.vars scope name = some (node, weight) →
      Placed (program.dict scope (current scope)) name node weight

/-- **One scope of the update.** -/
theorem updateScope_describes {self : Program} {current : Scope → Option ℕ}
    {synced : Synced} (tidy : Tidy (self.dict scope (current scope)))
    (fits : Fits round (self.dict scope (current scope)))
    (waiting : Waiting self current scope synced) :
    Describes (updateScope round self current synced scope).vars scope
      (self.dict scope (current scope)) := by
  obtain ⟨cleaned, described, placed⟩ := waiting
  unfold updateScope
  cases here : current scope with
  | none =>
    have agreed : synced.cacheDocs scope = current scope :=
      cleaned.elim (fun unset => unset.trans here.symm) id
    have kept := described agreed
    rw [here] at kept
    exact kept
  | some doc =>
    rw [here] at tidy fits placed described
    dsimp only
    by_cases cached : synced.cacheDocs scope = some doc
    · rw [if_pos cached]
      exact described cached
    · rw [if_neg cached]
      exact @insertDict_placed _ _ _ _ fits tidy [] _ rfl (placed cached)
        fun _ member => absurd member List.not_mem_nil

theorem updateScope_other (self : Program) (current : Scope → Option ℕ) (synced : Synced)
    {other : Scope} (apart : other ≠ scope) :
    (updateScope round self current synced scope).cacheDocs other = synced.cacheDocs other ∧
      ∀ name, entry (updateScope round self current synced scope).vars other name =
        entry synced.vars other name := by
  unfold updateScope
  cases current scope with
  | none => exact ⟨rfl, fun _ => rfl⟩
  | some doc =>
    dsimp only
    split
    · exact ⟨rfl, fun _ => rfl⟩
    · exact ⟨Function.update_of_ne apart _ _, insertDict_other apart none _ _⟩

theorem Waiting.congr {program : Program} {current : Scope → Option ℕ} {synced next : Synced}
    (waiting : Waiting program current scope synced)
    (cache : next.cacheDocs scope = synced.cacheDocs scope)
    (same : ∀ name, entry next.vars scope name = entry synced.vars scope name) :
    Waiting program current scope next where
  cleaned := by rw [cache]; exact waiting.cleaned
  described agreed := (waiting.described (cache.symm.trans agreed)).congr same
  placed differ name node weight here :=
    waiting.placed (fun agreed => differ (cache.trans agreed)) name node weight
      ((same name).symm.trans here)

/-- **The loop of the update**: every scope has its turn once. -/
theorem foldl_updateScope {self : Program} {current : Scope → Option ℕ}
    (tidy : Tidy (self.dict scope (current scope)))
    (fits : Fits round (self.dict scope (current scope))) {scopes : List Scope}
    (nodup : scopes.Nodup) {synced : Synced} (waiting : Waiting self current scope synced)
    (turn : scope ∈ scopes) :
    Describes (scopes.foldl (updateScope round self current) synced).vars scope
      (self.dict scope (current scope)) := by
  induction scopes generalizing synced with
  | nil => exact absurd turn List.not_mem_nil
  | cons first rest ih =>
    have parts := List.nodup_cons.1 nodup
    rw [List.foldl_cons]
    by_cases here : scope = first
    · subst here
      have now := updateScope_describes tidy fits waiting
      have later : ∀ (list : List Scope) (synced : Synced), scope ∉ list → ∀ name,
          entry (list.foldl (updateScope round self current) synced).vars scope name =
            entry synced.vars scope name := by
        intro list
        induction list with
        | nil => exact fun _ _ _ => rfl
        | cons other list further =>
          intro synced absent name
          rw [List.mem_cons, not_or] at absent
          rw [List.foldl_cons, further _ absent.2 name]
          exact (updateScope_other self current synced absent.1).2 name
      exact now.congr (later rest _ parts.1)
    · have frame := @updateScope_other round _ self current synced _ here
      exact ih parts.2 (waiting.congr frame.1 frame.2) ((List.mem_cons.1 turn).resolve_left here)

/-- What the cache says of the documents of a validator is true, in one scope: of a document that it
knows, the table describes it; otherwise what the table has there leaves it with the cached
document, or stands at its place in the current one. -/
def Program.Truthful (self : Program) (current : Scope → Option ℕ) (vars : Vars) (scope : Scope) :
    Prop :=
  (self.cacheDocs scope = current scope →
      Describes vars scope (self.dict scope (current scope))) ∧
    (self.cacheDocs scope ≠ current scope → ∀ name node weight,
      entry vars scope name = some (node, weight) →
        name ∈ (self.dict scope (self.cacheDocs scope)).map Parameter.keyword ∨
          Placed (self.dict scope (current scope)) name node weight)

theorem describes_nil (empty : ∀ name, entry vars scope name = none) : Describes vars scope [] where
  exactly name node := by
    rw [empty]
    exact ⟨fun same => absurd same (Option.some_ne_none node).symm, fun ⟨_, member, _⟩ =>
      absurd member List.not_mem_nil⟩
  ordered := List.isChain_singleton 0

/-- After the cache is cleaned every scope can have its turn. -/
theorem cleanCache_waiting {self : Program} {current : Scope → Option ℕ} {vars : Vars}
    (truthful : self.Rebuilt current ∨ ∀ scope, self.Truthful current vars scope) (scope : Scope) :
    Waiting self current scope (gebrValidatorCleanCache self current vars) := by
  by_cases rebuilt : self.Rebuilt current
  · obtain ⟨doc, cached⟩ := Option.ne_none_iff_exists'.1 rebuilt.1
    have anew : gebrValidatorCleanCache self current vars =
        { cacheDocs := fun _ => none, vars := fun _ => none } := by
      unfold gebrValidatorCleanCache inwards cleanLoop
      simp only [cached]
      rw [if_neg fun same => rebuilt.2 (cached.trans same.symm)]
      rfl
    rw [anew]
    refine ⟨Or.inl rfl, fun agreed => ?_, fun _ _ _ _ here => absurd here (Option.some_ne_none _).symm⟩
    rw [← agreed]
    exact describes_nil fun _ => rfl
  · have honest := truthful.resolve_left rebuilt scope
    have nodup : inwards.Nodup := by decide
    have inside : scope ∈ inwards := by cases scope <;> decide
    have spec := cleanLoop_spec self current nodup { cacheDocs := self.cacheDocs, vars }
      (fun _ => not_and_or.1 rebuilt |>.imp not_not.1 not_not.1) scope
    simp only [inside, true_and] at spec
    obtain ⟨cache, entries⟩ := spec
    by_cases agreed : self.cacheDocs scope = current scope
    · simp only [agreed, ne_eq, not_true_eq_false, if_false, false_and] at cache entries
      exact ⟨Or.inr cache, fun _ => (honest.1 agreed).congr entries, fun differ => absurd cache differ⟩
    · simp only [ne_eq, agreed, not_false_eq_true, if_true, true_and] at cache entries
      have placed : ∀ name node weight,
          entry (gebrValidatorCleanCache self current vars).vars scope name = some (node, weight) →
            Placed (self.dict scope (current scope)) name node weight := by
        intro name node weight here
        unfold gebrValidatorCleanCache at here
        rw [entries] at here
        split at here
        · exact absurd here (Option.some_ne_none _).symm
        · rename_i unnamed
          exact (honest.2 agreed name node weight here).resolve_left unnamed
      refine ⟨Or.inl cache, fun unset => ?_, fun _ => placed⟩
      have absent : current scope = none := unset.symm.trans cache
      rw [absent] at placed ⊢
      refine describes_nil fun name => ?_
      cases here : entry (gebrValidatorCleanCache self current vars).vars scope name with
      | none => rfl
      | some cell =>
        obtain ⟨place, param, there, _⟩ := placed name cell.1 cell.2 here
        exact absurd there (Option.some_ne_none param).symm

/-- **One update.** -/
theorem synchronise_describes (self : Program) (current : Scope → Option ℕ)
    (vars : Vars) (tidy : ∀ scope, Tidy (self.dict scope (current scope)))
    (fits : ∀ scope, Fits round (self.dict scope (current scope)))
    (truthful : self.Rebuilt current ∨ ∀ scope, self.Truthful current vars scope) (scope : Scope) :
    Describes (synchronise round self current vars).vars scope (self.dict scope (current scope)) :=
  foldl_updateScope (tidy scope) (fits scope) (by decide) (cleanCache_waiting truthful scope)
    (by cases scope <;> decide)

end Synchronise

end Gebr.Validator
