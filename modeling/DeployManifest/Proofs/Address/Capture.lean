import DeployManifest.Proofs.Address.Instance
import Mathlib.Data.List.Pairwise

/-! # What captures are bound to

A match puts each part of a path in the place of a segment (`PathPattern.placed`). A name that is
captured in several places is bound to the part in the last of them (`get?_of_match?`), so the
bindings give the path back if and only if these places hold equal parts (`restores_iff_coherent`).
Paths of every shape that a pattern matches are made by `PathPattern.samplePath`.
-/

namespace DeployManifest

namespace Segment

/-- The segment does not say what stands in its place. -/
def IsOpen : Segment → Prop
  | .literal _ => False
  | .capture _ => True
  | .wildcard => True

/-- The name that a segment binds. -/
def captured? : Segment → Option String
  | .literal _ => none
  | .capture name => some name
  | .wildcard => none

theorem captured?_eq_some_iff {s : Segment} {name : String} :
    s.captured? = some name ↔ s = .capture name := by
  cases s <;> simp [captured?]

/-- The part is what the segment becomes when bound values are put in for the captures. Anything may
stand for a wildcard. -/
inductive Restores (captures : KeyMap String) : Segment → List Char → Prop where
  | literal (text : String) : Restores captures (.literal text) text.toList
  | capture {name value : String} (bound : captures.get? name = some value) :
      Restores captures (.capture name) value.toList
  | wildcard (part : List Char) : Restores captures .wildcard part

end Segment

namespace PathPattern

variable {p : PathPattern} {pattern path : String} {captures : KeyMap String}
  {places first second : List (Segment × List Char)}

/-- The parts of a path in the places of the segments. -/
def placed (p : PathPattern) (path : String) : List (Segment × List Char) :=
  p.segments.zip (parts path)

/-- Places of one capture hold equal parts. -/
def Coherent (places : List (Segment × List Char)) : Prop :=
  ∀ name first second, (.capture name, first) ∈ places → (.capture name, second) ∈ places →
    first = second

/-- The bindings give the path back, part by part. -/
def Restores (p : PathPattern) (captures : KeyMap String) (path : String) : Prop :=
  List.Forall₂ (Segment.Restores captures) p.segments (parts path)

/-! ### The last place counts -/

/-- What stands in a place of a capture. -/
def heldFor? (name : String) (place : Segment × List Char) : Option String :=
  if place.1 = .capture name then some (String.ofList place.2) else none

/-- What stands in the last place of a capture. -/
def lastHeld? (places : List (Segment × List Char)) (name : String) : Option String :=
  places.reverse.findSome? (heldFor? name)

theorem lastHeld?_append (name : String) :
    lastHeld? (first ++ second) name = (lastHeld? second name).or (lastHeld? first name) := by
  rw [lastHeld?, List.reverse_append, List.findSome?_append, lastHeld?, lastHeld?]

theorem lastHeld?_cons (place : Segment × List Char) (name : String) :
    lastHeld? (place :: places) name = (lastHeld? places name).or (heldFor? name place) := by
  rw [← List.singleton_append, lastHeld?_append]
  congr 1
  rw [lastHeld?, List.reverse_singleton, List.findSome?_singleton]

theorem mem_of_lastHeld? {name value : String} (held : lastHeld? places name = some value) :
    (.capture name, value.toList) ∈ places := by
  obtain ⟨⟨s, part⟩, member, here⟩ := List.exists_of_findSome?_eq_some held
  rw [heldFor?] at here
  split at here
  · rename_i captured
    cases captured
    cases here
    rw [String.toList_ofList]
    exact List.mem_reverse.mp member
  · cases here

theorem exists_lastHeld? {name : String} {part : List Char}
    (member : (.capture name, part) ∈ places) : ∃ value, lastHeld? places name = some value := by
  rw [← Option.isSome_iff_exists, lastHeld?, List.findSome?_isSome_iff]
  exact ⟨_, List.mem_reverse.mpr member, by simp [heldFor?]⟩

theorem get?_of_bind? {segments : List Segment} {parts : List (List Char)} {bound : KeyMap String}
    (matched : bind? segments parts bound = some captures) (name : String) :
    captures.get? name = (lastHeld? (segments.zip parts) name).or (bound.get? name) := by
  -- Each capture adds to what is bound already, so that is generalised.
  induction segments generalizing parts bound with
  | nil =>
    cases parts with
    | nil =>
      cases matched
      rfl
    | cons part parts => cases matched
  | cons s segments ih =>
    cases parts with
    | nil => cases s <;> cases matched
    | cons part parts =>
      rw [List.zip_cons_cons, lastHeld?_cons, Option.or_assoc]
      cases s with
      | literal text =>
        rw [bind?] at matched
        split at matched
        · exact ih matched
        · cases matched
      | wildcard => exact ih matched
      | capture other =>
        rw [ih matched, KeyMap.get?_insert, heldFor?]
        by_cases same : other = name
        · simp [same]
        · simp [same]

/-- A name is bound to what stands in the last place of its capture. -/
theorem get?_of_match? (matched : p.match? path = some captures) (name : String) :
    captures.get? name = lastHeld? (p.placed path) name := by
  rw [get?_of_bind? matched]
  exact Option.or_none

theorem isAscending_of_bind? {segments : List Segment} {parts : List (List Char)}
    {bound : KeyMap String} (ascending : bound.IsAscending)
    (matched : bind? segments parts bound = some captures) : captures.IsAscending := by
  induction segments generalizing parts bound with
  | nil =>
    cases parts with
    | nil =>
      cases matched
      exact ascending
    | cons part parts => cases matched
  | cons s segments ih =>
    cases parts with
    | nil => cases s <;> cases matched
    | cons part parts =>
      cases s with
      | literal text =>
        rw [bind?] at matched
        split at matched
        · exact ih ascending matched
        · cases matched
      | wildcard => exact ih ascending matched
      | capture name => exact ih (ascending.insert name _) matched

/-! ### Giving the path back -/

/-- Where each name is bound to what stands in its last place, the bindings fit every place exactly
if no two places of a name differ. -/
theorem restores_places_iff (taken : ∀ place ∈ places, place.1.Takes place.2)
    (bound : ∀ name, captures.get? name = lastHeld? places name) :
    (∀ place ∈ places, place.1.Restores captures place.2) ↔ Coherent places := by
  constructor
  · intro restored name first second inFirst inSecond
    obtain ⟨⟩ | ⟨boundFirst⟩ := restored _ inFirst
    obtain ⟨⟩ | ⟨boundSecond⟩ := restored _ inSecond
    cases boundFirst.symm.trans boundSecond
    rfl
  · rintro coherent ⟨s, part⟩ member
    cases s with
    | literal text =>
      obtain rfl : text.toList = part := taken _ member
      exact .literal text
    | wildcard => exact .wildcard part
    | capture name =>
      obtain ⟨value, held⟩ := exists_lastHeld? member
      obtain rfl := coherent name part _ member (mem_of_lastHeld? held)
      exact .capture ((bound name).trans held)

theorem matches_of_match? (matched : p.match? path = some captures) : p.Matches path :=
  exists_match?_iff.mp ⟨captures, matched⟩

theorem restores_iff_placed (takes : p.Matches path) :
    p.Restores captures path ↔ ∀ place ∈ p.placed path, place.1.Restores captures place.2 := by
  rw [Restores, List.forall₂_iff_zip, and_iff_right takes.length_eq, Prod.forall]
  rfl

theorem takes_of_mem_placed (takes : p.Matches path) :
    ∀ place ∈ p.placed path, place.1.Takes place.2 :=
  fun _ member => List.forall₂_zip takes member

/-- The bindings of a match give the path back exactly if places of one capture hold equal parts. -/
theorem restores_iff_coherent (matched : p.match? path = some captures) :
    p.Restores captures path ↔ Coherent (p.placed path) := by
  have takes := matches_of_match? matched
  rw [restores_iff_placed takes,
    restores_places_iff (takes_of_mem_placed takes) (get?_of_match? matched)]

/-- Different captures have different names, so no two places are those of one. -/
theorem coherent_of_nodup (distinct : (places.filterMap (·.1.captured?)).Nodup) :
    Coherent places := by
  intro name first second inFirst inSecond
  by_contra differs
  -- `Pairwise` is about places in their order. As it is symmetric here, it holds of any two.
  have apart := List.pairwise_filterMap.mp distinct
  have symmetric : Std.Symm fun place other : Segment × List Char =>
      ∀ name, place.1.captured? = some name → ∀ again, other.1.captured? = some again →
        name ≠ again :=
    ⟨fun _ _ apart name here again there same => apart again there name here same.symm⟩
  exact apart.forall inFirst inSecond (fun same => differs (Prod.mk.inj same).2) name rfl name rfl rfl

theorem captureNames_eq (p : PathPattern) : p.captureNames = p.segments.filterMap (·.captured?) := by
  rw [captureNames]
  congr 1
  funext s
  cases s <;> rfl

theorem captured_placed (takes : p.Matches path) :
    (p.placed path).filterMap (·.1.captured?) = p.captureNames := by
  conv_rhs =>
    rw [captureNames_eq, ← List.map_fst_zip (le_of_eq takes.length_eq), List.filterMap_map]
  rfl

/-! ### Paths that a pattern matches -/

/-- The parts of a path in which chosen parts stand for captures and wildcards. -/
def samples (p : PathPattern) (chosen : Nat → List Char) : List (List Char) :=
  p.segments.mapIdx fun i s =>
    match s with
    | .literal text => text.toList
    | _ => chosen i

/-- A path in which chosen parts stand for captures and wildcards. -/
def samplePath (p : PathPattern) (chosen : Nat → List Char) : String :=
  String.ofList (['/'].intercalate (p.samples chosen))

variable {chosen : Nat → List Char}

theorem mem_samples_cases {i : Nat} {part : List Char}
    (here : (p.samples chosen)[i]? = some part) :
    (∃ text, .literal text ∈ p.segments ∧ part = text.toList) ∨ part = chosen i := by
  rw [samples, List.getElem?_mapIdx, Option.map_eq_some_iff] at here
  obtain ⟨s, there, rfl⟩ := here
  cases s with
  | literal text => exact .inl ⟨text, List.mem_of_getElem? there, rfl⟩
  | capture _ | wildcard => exact .inr rfl

theorem getElem?_samples {i : Nat} {s : Segment} (there : p.segments[i]? = some s)
    (isOpen : s.IsOpen) : (p.samples chosen)[i]? = some (chosen i) := by
  rw [samples, List.getElem?_mapIdx, there]
  cases s with
  | literal text => exact absurd isOpen id
  | capture _ | wildcard => rfl

/-- What is chosen for a capture stands in its place. -/
theorem mem_zip_samples {i : Nat} {name : String} (inside : i < p.segments.length)
    (captured : p.segments[i].captured? = some name) :
    (.capture name, chosen i) ∈ p.segments.zip (p.samples chosen) := by
  have there : p.segments[i]? = some (.capture name) := by
    rw [List.getElem?_eq_getElem inside, Segment.captured?_eq_some_iff.mp captured]
  exact List.mem_of_getElem? (List.getElem?_zip_eq_some.mpr ⟨there, getElem?_samples there trivial⟩)

theorem forall₂_takes_samples (p : PathPattern) (chosen : Nat → List Char) :
    List.Forall₂ Segment.Takes p.segments (p.samples chosen) := by
  refine List.forall₂_iff_get.mpr ⟨by simp [samples], fun i inside _ => ?_⟩
  simp only [samples, List.get_eq_getElem, List.getElem_mapIdx]
  cases p.segments[i] <;> simp [Segment.Takes]

/-- The chosen parts come back out of the path, also empty ones that stand inside. -/
theorem parts_samplePath (read : parse pattern = .ok p) (free : ∀ i, '/' ∉ chosen i)
    (ends : ∀ i, i = 0 ∨ i + 1 = p.segments.length → chosen i ≠ []) :
    parts (p.samplePath chosen) = p.samples chosen := by
  have slashFree : ∀ part ∈ p.samples chosen, '/' ∉ part := by
    intro part member
    obtain ⟨i, here⟩ := List.getElem?_of_mem member
    rcases mem_samples_cases here with ⟨text, inside, rfl⟩ | rfl
    · exact (isPart_of_literal read inside).2
    · exact free i
  have filled {i : Nat} (atEnd : i = 0 ∨ i + 1 = p.segments.length) :
      ∀ part ∈ (p.samples chosen)[i]?, part ≠ [] := by
    intro part here
    rcases mem_samples_cases here with ⟨text, inside, rfl⟩ | rfl
    · exact (isPart_of_literal read inside).1
    · exact ends i atEnd
  have front : ∀ part ∈ (p.samples chosen).head?, part ≠ [] := by
    rw [List.head?_eq_getElem?]
    exact filled (.inl rfl)
  have back : ∀ part ∈ (p.samples chosen).getLast?, part ≠ [] := by
    rw [List.getLast?_eq_getElem?]
    cases some : p.segments with
    | nil => simp [samples, some]
    | cons s segments =>
      refine filled (.inr ?_)
      simp [samples, some]
  -- Neither end is empty, so no slash of the path is an outer one.
  refine parts_of_stripEnds ?_ slashFree ?_
  · rw [samplePath, String.toList_ofList, ← Text.join_eq_intercalate,
      Text.stripEnds_join slashFree front back]
  · intro single
    rw [single] at front
    exact front [] rfl rfl

theorem exists_match?_samplePath (read : parse pattern = .ok p) (free : ∀ i, '/' ∉ chosen i)
    (ends : ∀ i, i = 0 ∨ i + 1 = p.segments.length → chosen i ≠ []) :
    ∃ captures, p.match? (p.samplePath chosen) = some captures := by
  rw [exists_match?_iff, Matches, parts_samplePath read free ends]
  exact forall₂_takes_samples p chosen

/-- Parts of different lengths for different places. -/
def tally (i : Nat) : List Char := List.replicate (i + 1) 'x'

theorem slash_not_mem_tally (i : Nat) : '/' ∉ tally i := by simp [tally]

theorem tally_ne_nil (i : Nat) : tally i ≠ [] := by simp [tally]

/-- No binding is ever lost exactly if the captures have names of their own. -/
theorem always_restores_iff (read : parse pattern = .ok p) :
    (∀ path captures, p.match? path = some captures → p.Restores captures path) ↔
      p.captureNames.Nodup := by
  constructor
  · intro always
    obtain ⟨captures, matched⟩ :=
      exists_match?_samplePath read slash_not_mem_tally fun i _ => tally_ne_nil i
    have coherent := (restores_iff_coherent matched).mp (always _ _ matched)
    rw [placed, parts_samplePath read slash_not_mem_tally fun i _ => tally_ne_nil i] at coherent
    rw [captureNames_eq, List.Nodup, List.pairwise_filterMap, List.pairwise_iff_getElem]
    rintro i j inFirst inSecond less name first _ second rfl
    have same : tally i = tally j :=
      coherent name _ _ (mem_zip_samples inFirst first) (mem_zip_samples inSecond second)
    have length := congrArg List.length same
    rw [tally, tally, List.length_replicate, List.length_replicate] at length
    omega
  · intro distinct path captures matched
    rw [restores_iff_coherent matched]
    exact coherent_of_nodup (captured_placed (matches_of_match? matched) ▸ distinct)

end PathPattern

end DeployManifest
