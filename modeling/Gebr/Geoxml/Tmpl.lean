/-
**The tagged regions of a help text.**

A region stands between two comments with its tag. A call searches the text for both comments, and
changes what it finds between them by position.

* `gebrGeoxmlTmplGet`, `gebrGeoxmlTmplSet`, `gebrGeoxmlTmplAppend`: the three calls.
* `render`: a text as its regions and what is around them; `contentAfter`: what edits make of a
  region.
* `WellFormed`: each comment of the regions occurs once.
* `get_region`, `set_region`, `append_region`: a call on one region of a text.
* `run_edits` — **a run of edits changes the contents, and nothing else**.
* `joined_mark`: values without a comment can make one together.
-/

import Gebr.Geoxml.DictSplit
import Gebr.Lib.Marks

namespace Gebr.Geoxml.Tmpl

open Gebr.Lib.CString (ascii strstr strstr_eq_none strstr_first)
open Gebr.Lib.Marks

section Model

/-- The comment in front of a region. -/
def beginMark (tag : Text) : Text := ascii "<!-- begin " ++ tag ++ ascii " -->"

/-- The comment behind a region. -/
def endMark (tag : Text) : Text := ascii "<!-- end " ++ tag ++ ascii " -->"

/-- `g_string_erase`. -/
def gStringErase (s : Text) (pos len : ℕ) : Text := s.take pos ++ s.drop (pos + len)

/-- `g_string_insert`. -/
def gStringInsert (s : Text) (pos : ℕ) (value : Text) : Text := s.take pos ++ value ++ s.drop pos

/-- `gebr_geoxml_tmpl_get`, where the inner `none` is a null pointer. The outer `none` is a call
that touches memory outside of the text: with the end mark in front of the region the length wraps
around. -/
def gebrGeoxmlTmplGet (tmpl tag : Text) : Option (Option Text) :=
  match strstr (beginMark tag) tmpl with
  | none => some none
  | some ptr =>
    let pos := ptr + 15 + tag.length
    match strstr (endMark tag) tmpl with
    | none => some none
    | some ptr => if ptr < pos then none else some (some ((tmpl.drop pos).take (ptr - pos)))

/-- `gebr_geoxml_tmpl_set`: the result, and the text; `none` is as in `gebrGeoxmlTmplGet`. -/
def gebrGeoxmlTmplSet (tmpl tag value : Text) : Option (Bool × Text) :=
  match strstr (beginMark tag) tmpl with
  | none => some (false, tmpl)
  | some ptr =>
    let pos := ptr + 15 + tag.length
    match strstr (endMark tag) tmpl with
    | none => some (false, tmpl)
    | some ptr =>
      if ptr < pos then
        none else some (true, gStringInsert (gStringErase tmpl pos (ptr - pos)) pos value)

/-- `gebr_geoxml_tmpl_append`. -/
def gebrGeoxmlTmplAppend (tmpl tag value : Text) : Bool × Text :=
  match strstr (endMark tag) tmpl with
  | none => (false, tmpl)
  | some ptr => (true, gStringInsert tmpl ptr value)

/-- A call that edits the text. -/
inductive Edit where
  | set (tag value : Text)
  | append (tag value : Text)

def Edit.tag : Edit → Text
  | set tag _ => tag
  | append tag _ => tag

def edit (tmpl : Text) : Edit → Option (Bool × Text)
  | .set tag value => gebrGeoxmlTmplSet tmpl tag value
  | .append tag value => some (gebrGeoxmlTmplAppend tmpl tag value)

/-- A run of edits: the results, and the text. -/
def run : Text → List Edit → Option (List Bool × Text)
  | tmpl, [] => some ([], tmpl)
  | tmpl, e :: edits =>
    (edit tmpl e).bind fun (result, tmpl) => (run tmpl edits).map fun (results, tmpl) =>
      (result :: results, tmpl)

end Model

section Abstract

/-- A region of a text, with the text up to the next one. -/
structure Region where
  tag : Text
  content : Text
  behind : Text

/-- The text with some regions. -/
def render (front : Text) (regions : List Region) : Text :=
  front ++ regions.flatMap fun region =>
    beginMark region.tag ++ region.content ++ endMark region.tag ++ region.behind

/-- Each comment of the regions occurs once in the text, and begins only where it stands. -/
structure WellFormed (front : Text) (regions : List Region) : Prop where
  plain : ∀ region ∈ regions, 60 ∉ region.tag
  beginOnce : ∀ region ∈ regions, count (beginMark region.tag) (render front regions) = 1
  endOnce : ∀ region ∈ regions, count (endMark region.tag) (render front regions) = 1

/-- A text has none of the comments of the regions. -/
def Unmarked (regions : List Region) (content : Text) : Prop :=
  ∀ region ∈ regions, ¬ beginMark region.tag <:+: content ∧ ¬ endMark region.tag <:+: content

instance (regions : List Region) (content : Text) : Decidable (Unmarked regions content) :=
  inferInstanceAs (Decidable (∀ region ∈ regions, _))

/-- What an edit makes of the content of a region. -/
def contentStep (tag content : Text) : Edit → Text
  | .set other value => if other = tag then value else content
  | .append other value => if other = tag then content ++ value else content

/-- What edits make of the content of a region. -/
def contentAfter (tag content : Text) (edits : List Edit) : Text :=
  edits.foldl (contentStep tag) content

/-- What edits append to a region. -/
def appended (tag : Text) (edits : List Edit) : Text :=
  edits.flatMap fun
    | .set _ _ => []
    | .append other value => if other = tag then value else []

def Region.after (edits : List Edit) (region : Region) : Region :=
  { region with content := contentAfter region.tag region.content edits }

end Abstract

section Calls

variable {front : Text} {region : Region} {before after : List Region}

theorem isMark_around {first tag last : Text} (clean : 60 ∉ first ++ last) (plain : 60 ∉ tag) :
    IsMark 60 (60 :: first ++ tag ++ last) := by
  refine ⟨first ++ tag ++ last, rfl, fun member => ?_⟩
  rw [List.mem_append, List.mem_append] at member
  rw [List.mem_append, not_or] at clean
  rcases member with (front | inside) | behind
  · exact clean.1 front
  · exact plain inside
  · exact clean.2 behind

theorem isMark_beginMark {tag : Text} (plain : 60 ∉ tag) : IsMark 60 (beginMark tag) :=
  @isMark_around (ascii "!-- begin ") tag (ascii " -->") (by decide) plain

theorem isMark_endMark {tag : Text} (plain : 60 ∉ tag) : IsMark 60 (endMark tag) :=
  @isMark_around (ascii "!-- end ") tag (ascii " -->") (by decide) plain

theorem length_beginMark (tag : Text) : (beginMark tag).length = 15 + tag.length := by
  unfold beginMark
  rw [List.length_append, List.length_append, show (ascii "<!-- begin ").length = 11 by decide,
    show (ascii " -->").length = 4 by decide]
  omega

/-- The marks of a region, and what is behind each of them. -/
def Region.parts (region : Region) : List (Text × Text) :=
  [(beginMark region.tag, region.content), (endMark region.tag, region.behind)]

theorem render_eq (front : Text) (regions : List Region) :
    render front regions = join front (regions.flatMap Region.parts) := by
  unfold render
  induction regions generalizing front with
  | nil => exact List.append_nil front
  | cons region regions ih =>
    rw [List.flatMap_cons, List.flatMap_cons]
    show _ = front ++ (beginMark region.tag ++ (region.content ++ (endMark region.tag ++
      join region.behind (regions.flatMap Region.parts))))
    rw [← ih]
    simp only [List.append_assoc]

theorem mem_parts {regions : List Region} {part : Text × Text} :
    part ∈ regions.flatMap Region.parts ↔ ∃ region ∈ regions,
      part = (beginMark region.tag, region.content) ∨ part = (endMark region.tag, region.behind) := by
  rw [List.mem_flatMap]
  refine exists_congr fun region => and_congr_right fun _ => ?_
  unfold Region.parts
  rw [List.mem_cons, List.mem_singleton]

theorem isMark_part {regions : List Region} (plain : ∀ region ∈ regions, 60 ∉ region.tag)
    {part : Text × Text} (member : part ∈ regions.flatMap Region.parts) : IsMark 60 part.1 := by
  obtain ⟨region, inside, rfl | rfl⟩ := mem_parts.1 member
  · exact isMark_beginMark (plain region inside)
  · exact isMark_endMark (plain region inside)

theorem WellFormed.once {regions : List Region} (wellFormed : WellFormed front regions) :
    Once front (regions.flatMap Region.parts) := by
  intro part member
  rw [← render_eq]
  obtain ⟨region, inside, rfl | rfl⟩ := mem_parts.1 member
  · exact wellFormed.beginOnce region inside
  · exact wellFormed.endOnce region inside

theorem wellFormed_of_once {regions : List Region} (plain : ∀ region ∈ regions, 60 ∉ region.tag)
    (once : Once front (regions.flatMap Region.parts)) : WellFormed front regions where
  plain := plain
  beginOnce region member := by
    rw [render_eq]
    exact once _ (mem_parts.2 ⟨region, member, .inl rfl⟩)
  endOnce region member := by
    rw [render_eq]
    exact once _ (mem_parts.2 ⟨region, member, .inr rfl⟩)

theorem render_region (front : Text) (before : List Region) (region : Region) (after : List Region) :
    render front (before ++ region :: after) = render front before ++ beginMark region.tag ++
      (region.content ++ (endMark region.tag ++ (region.behind ++ render [] after))) := by
  unfold render
  rw [List.flatMap_append, List.flatMap_cons]
  simp only [List.append_assoc, List.nil_append]

theorem strstr_mark {mark text : Text} (good : IsMark 60 mark) (absent : ¬ mark <:+: text)
    (rest : Text) : strstr mark (text ++ mark ++ rest) = some text.length :=
  strstr_first (not_infix_append_dropLast good absent) good.ne_nil rest

/-- **The mark in front of a region is found.** -/
theorem WellFormed.strstr_beginMark (wellFormed : WellFormed front (before ++ region :: after)) :
    strstr (beginMark region.tag) (render front (before ++ region :: after)) =
      some (render front before).length := by
  have member : region ∈ before ++ region :: after := List.mem_append_right before List.mem_cons_self
  have good := isMark_beginMark (wellFormed.plain region member)
  have once := wellFormed.once
  rw [List.flatMap_append, List.flatMap_cons] at once
  have absent := Once.not_infix_front (show Once front (before.flatMap Region.parts ++
    (beginMark region.tag, region.content) :: _) from once) good
  rw [← render_eq] at absent
  rw [render_region]
  exact strstr_mark good absent _

/-- **The mark behind a region is found.** -/
theorem WellFormed.strstr_endMark (wellFormed : WellFormed front (before ++ region :: after)) :
    strstr (endMark region.tag) (render front (before ++ region :: after)) =
      some (render front before ++ beginMark region.tag ++ region.content).length := by
  have member : region ∈ before ++ region :: after := List.mem_append_right before List.mem_cons_self
  have good := isMark_endMark (wellFormed.plain region member)
  have once := wellFormed.once
  have parts : (before ++ region :: after).flatMap Region.parts =
      (before.flatMap Region.parts ++ [(beginMark region.tag, region.content)]) ++
        (endMark region.tag, region.behind) :: after.flatMap Region.parts := by
    rw [List.flatMap_append, List.flatMap_cons, List.append_assoc]
    rfl
  rw [parts] at once
  have absent := once.not_infix_front good
  rw [join_append, ← render_eq, join, ← List.append_assoc] at absent
  rw [render_region, ← List.append_assoc, ← List.append_assoc]
  exact strstr_mark good absent _

/-- What a call finds of a region: the places behind the first mark and in front of the second
one. -/
theorem WellFormed.places (wellFormed : WellFormed front (before ++ region :: after)) : ∃ ptr,
    strstr (beginMark region.tag) (render front (before ++ region :: after)) = some ptr ∧
      ptr + 15 + region.tag.length = (render front before ++ beginMark region.tag).length ∧
      strstr (endMark region.tag) (render front (before ++ region :: after)) =
        some ((render front before ++ beginMark region.tag).length + region.content.length) := by
  refine ⟨_, wellFormed.strstr_beginMark, ?_, ?_⟩
  · rw [List.length_append, length_beginMark, Nat.add_assoc]
  · rw [wellFormed.strstr_endMark, List.length_append]

theorem gStringErase_append (first second third : Text) :
    gStringErase (first ++ (second ++ third)) first.length second.length = first ++ third := by
  unfold gStringErase
  rw [List.take_left, ← List.append_assoc, ← List.length_append, List.drop_left]

theorem gStringInsert_append (first second value : Text) :
    gStringInsert (first ++ second) first.length value = first ++ value ++ second := by
  unfold gStringInsert
  rw [List.take_left, List.drop_left]

/-- **The content of a region is read.** -/
theorem get_region (wellFormed : WellFormed front (before ++ region :: after)) :
    gebrGeoxmlTmplGet (render front (before ++ region :: after)) region.tag =
      some (some region.content) := by
  obtain ⟨ptr, begins, pos, ends⟩ := wellFormed.places
  unfold gebrGeoxmlTmplGet
  rw [begins, ends]
  dsimp only
  rw [pos, if_neg (Nat.not_lt.2 (Nat.le_add_right _ _)), Nat.add_sub_cancel_left, render_region,
    List.drop_left, List.take_left]

/-- **The content of a region is set.** -/
theorem set_region (wellFormed : WellFormed front (before ++ region :: after)) (value : Text) :
    gebrGeoxmlTmplSet (render front (before ++ region :: after)) region.tag value =
      some (true, render front (before ++ { region with content := value } :: after)) := by
  obtain ⟨ptr, begins, pos, ends⟩ := wellFormed.places
  unfold gebrGeoxmlTmplSet
  rw [begins, ends]
  dsimp only
  rw [pos, if_neg (Nat.not_lt.2 (Nat.le_add_right _ _)), Nat.add_sub_cancel_left, render_region,
    gStringErase_append, gStringInsert_append, render_region, List.append_assoc _ value]

/-- **The content of a region is appended to.** -/
theorem append_region (wellFormed : WellFormed front (before ++ region :: after)) (value : Text) :
    gebrGeoxmlTmplAppend (render front (before ++ region :: after)) region.tag value =
      (true, render front
      (before ++ { region with content := region.content ++ value } :: after)) := by
  obtain ⟨ptr, -, -, ends⟩ := wellFormed.places
  unfold gebrGeoxmlTmplAppend
  rw [ends]
  dsimp only
  rw [render_region, ← List.append_assoc, ← List.length_append, gStringInsert_append, render_region]
  simp only [List.append_assoc]

end Calls

section Runs

variable {front : Text} {region : Region} {regions : List Region} {e : Edit} {edits : List Edit}

/-- **The regions have different tags.** -/
theorem WellFormed.distinct (wellFormed : WellFormed front regions) :
    regions.Pairwise fun region other => region.tag ≠ other.tag := by
  have apart := (wellFormed.once.clean fun part member => isMark_part wellFormed.plain member).apart
  refine (List.pairwise_flatMap.1 apart).2.imp fun {region other} differ same => ?_
  refine (differ _ List.mem_cons_self _ List.mem_cons_self).1 ?_
  rw [same]

theorem Region.after_of_ne (differ : e.tag ≠ region.tag) : region.after [e] = region := by
  unfold Region.after contentAfter
  cases e with
  | set tag value =>
    have apart : tag ≠ region.tag := differ
    show { region with content := if tag = region.tag then value else region.content } = region
    rw [if_neg apart]
  | append tag value =>
    have apart : tag ≠ region.tag := differ
    show { region with content := if tag = region.tag then region.content ++
      value else region.content } = region
    rw [if_neg apart]

theorem map_after {before after : List Region}
    (wellFormed : WellFormed front (before ++ region :: after)) (here : e.tag = region.tag) :
    (before ++ region :: after).map (Region.after [e]) = before ++ region.after [e] :: after := by
  have distinct := List.pairwise_append.1 wellFormed.distinct
  have behind := (List.pairwise_cons.1 distinct.2.1).1
  have left : before.map (Region.after [e]) = before :=
    (List.map_congr_left fun other member => Region.after_of_ne fun same =>
      distinct.2.2 other member region List.mem_cons_self (same.symm.trans here)).trans (List.map_id _)
  have right : after.map (Region.after [e]) = after :=
    (List.map_congr_left fun other member => Region.after_of_ne fun same =>
      behind other member (here.symm.trans same)).trans (List.map_id _)
  rw [List.map_append, List.map_cons, left, right]

/-- **One edit.** -/
theorem edit_region (wellFormed : WellFormed front regions)
    (inside : ∃ region ∈ regions, region.tag = e.tag) :
    edit (render front regions) e = some (true, render front (regions.map (Region.after [e]))) := by
  obtain ⟨region, member, here⟩ := inside
  obtain ⟨before, after, rfl⟩ := List.append_of_mem member
  rw [map_after wellFormed here.symm]
  cases e with
  | set tag value =>
    obtain rfl : region.tag = tag := here
    have changed : region.after [.set region.tag value] = { region with content := value } := by
      show { region with content := if region.tag = region.tag then value else region.content } = _
      rw [if_pos rfl]
    rw [changed]
    exact set_region wellFormed value
  | append tag value =>
    obtain rfl : region.tag = tag := here
    have changed : region.after [.append region.tag value] =
        { region with content := region.content ++ value } := by
      show { region with content := if region.tag = region.tag then region.content ++
        value else _ } = _
      rw [if_pos rfl]
    rw [changed]
    exact congrArg some (append_region wellFormed value)

/-- **The marks stay**, as long as no content has one of them. -/
theorem WellFormed.after (wellFormed : WellFormed front regions)
    (unmarked : ∀ region ∈ regions, Unmarked regions (contentAfter region.tag region.content edits)) :
    WellFormed front (regions.map (Region.after edits)) := by
  have clean := wellFormed.once.clean fun part member => isMark_part wellFormed.plain member
  have plain : ∀ region ∈ regions.map (Region.after edits), 60 ∉ region.tag := by
    intro region member
    obtain ⟨old, oldMember, rfl⟩ := List.mem_map.1 member
    exact wellFormed.plain old oldMember
  have marks : ((regions.map (Region.after edits)).flatMap Region.parts).map Prod.fst =
      (regions.flatMap Region.parts).map Prod.fst := by
    rw [List.flatMap_map, List.map_flatMap, List.map_flatMap]
    rfl
  refine wellFormed_of_once plain
    ((clean.change marks ?_).once fun part member => isMark_part plain member)
  intro part member other there
  have listed : part.1 ∈ (regions.flatMap Region.parts).map Prod.fst :=
    marks ▸ List.mem_map_of_mem member
  obtain ⟨part', member', same⟩ := List.mem_map.1 listed
  obtain ⟨region, regionMember, tags⟩ := mem_parts.1 member'
  obtain ⟨changed, changedMember, pieces⟩ := mem_parts.1 there
  obtain ⟨old, oldMember, rfl⟩ := List.mem_map.1 changedMember
  rcases pieces with rfl | rfl
  · have absent := unmarked old oldMember region regionMember
    rcases tags with rfl | rfl
    · exact same ▸ absent.1
    · exact same ▸ absent.2
  · exact same ▸ clean.pieces part' member' _ (mem_parts.2 ⟨old, oldMember, .inr rfl⟩)

/-- **The text after a run**, and its marks. -/
theorem run_render (wellFormed : WellFormed front regions)
    (inside : ∀ e ∈ edits, ∃ region ∈ regions, region.tag = e.tag)
    (unmarked : ∀ sofar, sofar <+: edits → ∀ region ∈ regions,
      Unmarked regions (contentAfter region.tag region.content sofar)) :
    run (render front regions) edits =
      some (edits.map fun _ => true, render front (regions.map (Region.after edits))) := by
  induction edits generalizing regions with
  | nil =>
    have same : regions.map (Region.after []) = regions := List.map_id _
    rw [same]
    rfl
  | cons e edits ih =>
    have step := edit_region wellFormed (inside e List.mem_cons_self)
    have next : WellFormed front (regions.map (Region.after [e])) :=
      wellFormed.after (unmarked [e] (List.prefix_append [e] edits))
    have later := @ih (regions.map (Region.after [e])) next ?_ ?_
    · unfold run
      rw [step, Option.bind_some]
      dsimp only
      rw [later, List.map_map]
      rfl
    · intro other member
      obtain ⟨region, there, same⟩ := inside other (List.mem_cons_of_mem e member)
      exact ⟨region.after [e], List.mem_map_of_mem there, same⟩
    · intro sofar begins region member
      obtain ⟨old, oldMember, rfl⟩ := List.mem_map.1 member
      have clean := unmarked (e :: sofar) (List.cons_prefix_cons.2 ⟨rfl, begins⟩) old oldMember
      intro other there
      obtain ⟨marked, markedMember, rfl⟩ := List.mem_map.1 there
      exact clean marked markedMember

/-- Without a set, a content is what was there, and what is appended. -/
theorem contentAfter_appended {tag : Text} (content : Text)
    (noSet : ∀ value, Edit.set tag value ∉ edits) :
    contentAfter tag content edits = content ++ appended tag edits := by
  induction edits generalizing content with
  | nil => exact (List.append_nil content).symm
  | cons e edits ih =>
    have later := fun content => ih content fun value member =>
      noSet value (List.mem_cons_of_mem e member)
    show contentAfter tag (contentStep tag content e) edits = _
    rw [later]
    cases e with
    | set other value =>
      have apart : other ≠ tag := fun same => noSet value (same ▸ List.mem_cons_self)
      show (if other = tag then value else content) ++ appended tag edits = content ++
        appended tag edits
      rw [if_neg apart]
    | append other value =>
      show (if other = tag then content ++ value else content) ++ appended tag edits =
        content ++ ((if other = tag then value else []) ++ appended tag edits)
      split
      · exact List.append_assoc _ _ _
      · rfl

/-- **The value set last, and what is appended since.** -/
theorem contentAfter_set {tag : Text} (content : Text) (before : List Edit) (value : Text)
    {later : List Edit} (noSet : ∀ value, Edit.set tag value ∉ later) :
    contentAfter tag content (before ++ .set tag value :: later) = value ++ appended tag later := by
  rw [← contentAfter_appended value noSet]
  unfold contentAfter
  rw [List.foldl_append, List.foldl_cons]
  show List.foldl _ (if tag = tag then value else _) later = _
  rw [if_pos rfl]

/-- **A tag without its marks has no region.** -/
theorem no_region {tmpl tag : Text} (value : Text) :
    (¬ beginMark tag <:+: tmpl ∨ ¬ endMark tag <:+: tmpl → gebrGeoxmlTmplGet tmpl tag = some none ∧
      gebrGeoxmlTmplSet tmpl tag value = some (false, tmpl)) ∧
    (¬ endMark tag <:+: tmpl → gebrGeoxmlTmplAppend tmpl tag value = (false, tmpl)) := by
  have begins : beginMark tag ≠ [] := List.cons_ne_nil _ _
  have ends : endMark tag ≠ [] := List.cons_ne_nil _ _
  rw [← strstr_eq_none begins, ← strstr_eq_none ends]
  unfold gebrGeoxmlTmplGet gebrGeoxmlTmplSet gebrGeoxmlTmplAppend
  refine ⟨fun absent => ?_, fun absent => by rw [absent]⟩
  rcases absent with absent | absent
  · rw [absent]
    exact ⟨rfl, rfl⟩
  · rw [absent]
    cases strstr (beginMark tag) tmpl with
    | none => exact ⟨rfl, rfl⟩
    | some ptr => exact ⟨rfl, rfl⟩

/-- **A run of edits changes the contents, and nothing else.** -/
theorem run_edits (wellFormed : WellFormed front regions)
    (inside : ∀ e ∈ edits, ∃ region ∈ regions, region.tag = e.tag)
    (unmarked : ∀ sofar, sofar <+: edits → ∀ region ∈ regions,
      Unmarked regions (contentAfter region.tag region.content sofar)) : ∃ after,
    run (render front regions) edits = some (edits.map fun _ => true, after) ∧
    after = render front (regions.map (Region.after edits)) ∧
    WellFormed front (regions.map (Region.after edits)) ∧
    (∀ region ∈ regions, ∀ before value later, edits = before ++ .set region.tag value :: later →
      (∀ other, Edit.set region.tag other ∉ later) →
        gebrGeoxmlTmplGet after region.tag = some (some (value ++ appended region.tag later))) ∧
    (∀ region ∈ regions, (∀ value, Edit.set region.tag value ∉ edits) →
      gebrGeoxmlTmplGet after region.tag = some (some (region.content ++ appended region.tag edits))) ∧
    (∀ tag value, (¬ beginMark tag <:+: after ∨ ¬ endMark tag <:+: after →
        gebrGeoxmlTmplGet after tag = some none ∧ gebrGeoxmlTmplSet after tag value =
          some (false, after)) ∧
      (¬ endMark tag <:+: after → gebrGeoxmlTmplAppend after tag value = (false, after))) := by
  have next : WellFormed front (regions.map (Region.after edits)) :=
    wellFormed.after (unmarked edits List.prefix_rfl)
  have read : ∀ region ∈ regions, gebrGeoxmlTmplGet (render front (regions.map (Region.after edits)))
      region.tag = some (some (contentAfter region.tag region.content edits)) := by
    intro region member
    obtain ⟨before, after, split⟩ := List.append_of_mem
        (List.mem_map_of_mem (f := Region.after edits) member)
    rw [split] at next ⊢
    exact get_region next
  refine ⟨_, run_render wellFormed inside unmarked, rfl, next, ?_, ?_, fun tag value =>
    no_region value⟩
  · intro region member before value later split noSet
    rw [read region member, split, contentAfter_set _ _ _ noSet]
  · intro region member noSet
    rw [read region member, contentAfter_appended _ noSet]

/-- A text with a title and a description. -/
def sampleRegions : List Region := [⟨ascii "ttl", [], ascii "<p>"⟩, ⟨ascii "des", ascii "old", []⟩]

def sampleEdits : List Edit :=
  [.append (ascii "des") (ascii "er"), .set (ascii "ttl") (ascii "A"),
    .append (ascii "ttl") (ascii "B")]

theorem run_edits_title : ∃ after,
    run (render (ascii "<h1>") sampleRegions) sampleEdits =
      some (sampleEdits.map fun _ => true, after) ∧ after = render (ascii "<h1>")
    (sampleRegions.map (Region.after sampleEdits)) ∧ WellFormed (ascii "<h1>")
    (sampleRegions.map (Region.after sampleEdits)) ∧ (∀ region ∈ sampleRegions, ∀ before value later,
      sampleEdits = before ++ .set region.tag value :: later →
      (∀ other, Edit.set region.tag other ∉ later) →
        gebrGeoxmlTmplGet after region.tag = some (some (value ++ appended region.tag later))) ∧
    (∀ region ∈ sampleRegions, (∀ value, Edit.set region.tag value ∉ sampleEdits) →
      gebrGeoxmlTmplGet after region.tag =
        some (some (region.content ++ appended region.tag sampleEdits))) ∧
        (∀ tag value, (¬ beginMark tag <:+: after ∨ ¬ endMark tag <:+: after →
      gebrGeoxmlTmplGet after tag = some none ∧ gebrGeoxmlTmplSet after tag value =
        some (false, after)) ∧
      (¬ endMark tag <:+: after → gebrGeoxmlTmplAppend after tag value = (false, after))) := by
  have unmarked : ∀ sofar ∈ sampleEdits.inits, ∀ region ∈ sampleRegions,
      Unmarked sampleRegions (contentAfter region.tag region.content sofar) := by decide +kernel
  refine run_edits ⟨by decide +kernel, by decide +kernel, by decide +kernel⟩ (by decide +kernel) ?_
  exact fun sofar begins => unmarked sofar ((List.mem_inits sofar sampleEdits).2 begins)

/-- A text with one of the comments that stand around a region, of any tag. -/
def HasMark (value : Text) : Prop := ∃ tag, beginMark tag <:+: value ∨ endMark tag <:+: value

theorem length_endMark (tag : Text) : (endMark tag).length = 13 + tag.length := by
  unfold endMark
  rw [List.length_append, List.length_append, show (ascii "<!-- end ").length = 9 by decide,
    show (ascii " -->").length = 4 by decide]
  omega

theorem not_hasMark_of_short {value : Text} (short : value.length < 13) : ¬ HasMark value := by
  rintro ⟨tag, found | found⟩
  · have long := found.length_le
    rw [length_beginMark] at long
    omega
  · have long := found.length_le
    rw [length_endMark] at long
    omega

/-- **Values without a comment can make one together**: the region is then read as an empty one. And
where a tag has the beginning of a comment, a value can make the comment of another tag in its own
region. -/
theorem joined_mark :
    (let tmpl := render [] [⟨ascii "t", [], []⟩]
    let edits := [Edit.set (ascii "t") (ascii "<!-- en"), .append (ascii "t") (ascii "d t -->")]
    ¬ HasMark (ascii "<!-- en") ∧ ¬ HasMark (ascii "d t -->") ∧
      ((run tmpl edits).bind fun result => gebrGeoxmlTmplGet result.2 (ascii "t")) = some (some [])) ∧
    (let regions := [⟨ascii "<!-- begin a", [], []⟩, ⟨ascii "a -->b", [], []⟩]
    let tmpl := render [] regions
    let edits := [Edit.set (ascii "<!-- begin a") (ascii "b -->")]
    ¬ HasMark (ascii "b -->") ∧
      (∀ region ∈ regions, count (beginMark region.tag) tmpl = 1 ∧ count (endMark region.tag) tmpl =
        1) ∧
      gebrGeoxmlTmplGet tmpl (ascii "a -->b") = some (some []) ∧
      ((run tmpl edits).bind fun result => gebrGeoxmlTmplGet result.2 (ascii "a -->b")) ≠
        some (some [])) :=
  ⟨⟨not_hasMark_of_short (by decide), not_hasMark_of_short (by decide), by decide +kernel⟩,
    not_hasMark_of_short (by decide), by decide +kernel, by decide +kernel, by decide +kernel⟩

end Runs

end Gebr.Geoxml.Tmpl
