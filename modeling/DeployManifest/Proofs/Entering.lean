import DeployManifest.Proofs.Outcome
import Mathlib.Data.List.Induction
import Mathlib.Data.List.Nodup

/-! # Rows of entries with distinct keys

Items are entered one after the other. Each gives an entry on its own, and no two entries may have
one key. A fold that does so (`Entering.Steps`) ends with all entries exactly if nothing is refused
(`Steps.enters` and `Steps.foldlM_eq_ok`), and otherwise with the error of the first item that is
refused (`Steps.foldlM_eq_error_iff`).
-/

namespace DeployManifest

universe u

variable {ε ι α : Type u} {β : Type u}

/-- What items are entered as. -/
structure Entering (ε ι α : Type u) where
  entry : ι → Except ε α
  key : α → String
  /-- The error that the second item has the same key as the first. -/
  clash : ι → ι → String → ε

namespace Entering

variable {n : Entering ε ι α} {items : List ι} {entries : List α} {e : ε}

/-- Every item gives its entry, and the keys are distinct. -/
structure Enters (n : Entering ε ι α) (items : List ι) (entries : List α) : Prop where
  each : List.Forall₂ (fun item entry => n.entry item = .ok entry) items entries
  distinct : (entries.map n.key).Nodup

/-- Item `i` is refused: it gives no entry, or one with the key of an earlier item. Of several with
that key the earliest is named. -/
inductive Refuses (n : Entering ε ι α) (items : List ι) (i : Nat) : ε → Prop where
  | failed {item : ι} {e : ε} (here : items[i]? = some item) (failed : n.entry item = .error e) :
      Refuses n items i e
  | taken {item first : ι} {entry taker : α} {j : Nat} (here : items[i]? = some item)
      (given : n.entry item = .ok entry) (before : j < i) (there : items[j]? = some first)
      (taken : n.entry first = .ok taker) (same : n.key taker = n.key entry)
      (earliest : ∀ k < j, ∀ other taker, items[k]? = some other → n.entry other = .ok taker →
        n.key taker ≠ n.key entry) :
      Refuses n items i (n.clash first item (n.key entry))

/-- The error of the least item that is refused. -/
def FirstRefusal (n : Entering ε ι α) (items : List ι) (e : ε) : Prop :=
  ∃ i, n.Refuses items i e ∧ ∀ j < i, ∀ other, ¬ n.Refuses items j other

theorem Enters.length_eq (entered : n.Enters items entries) : items.length = entries.length :=
  entered.each.length_eq

theorem Enters.entry_getElem? (entered : n.Enters items entries) {i : Nat} {item : ι}
    (here : items[i]? = some item) :
    ∃ entry, entries[i]? = some entry ∧ n.entry item = .ok entry := by
  have each := entered.each
  clear entered
  induction each generalizing i with
  | nil => cases here
  | @cons first entry _ _ given _ ih =>
    cases i with
    | zero =>
      cases here
      exact ⟨entry, rfl, given⟩
    | succ i => exact ih here

theorem Enters.item_getElem? (entered : n.Enters items entries) {i : Nat} {entry : α}
    (here : entries[i]? = some entry) :
    ∃ item, items[i]? = some item ∧ n.entry item = .ok entry := by
  obtain ⟨bound, _⟩ := List.getElem?_eq_some_iff.mp here
  rw [← entered.length_eq] at bound
  obtain ⟨other, found, given⟩ := entered.entry_getElem? (List.getElem?_eq_getElem bound)
  obtain rfl := Option.some.inj (here.symm.trans found)
  exact ⟨_, List.getElem?_eq_getElem bound, given⟩

/-- Of items that are all entered, none is refused. -/
theorem Enters.not_refuses (entered : n.Enters items entries) (later : List ι) {i : Nat}
    (inside : i < items.length) : ¬ n.Refuses (items ++ later) i e := by
  have entryAt {k : Nat} {item : ι} (bound : k < items.length)
      (here : (items ++ later)[k]? = some item) :
      ∃ entry, entries[k]? = some entry ∧ n.entry item = .ok entry := by
    rw [List.getElem?_append_left bound] at here
    exact entered.entry_getElem? here
  rintro (⟨here, failed⟩ | ⟨here, given, before, there, taken, same, -⟩)
  · obtain ⟨entry, -, given⟩ := entryAt inside here
    rw [given] at failed
    cases failed
  · obtain ⟨_, atSecond, other⟩ := entryAt inside here
    obtain rfl := Except.ok.inj (given.symm.trans other)
    obtain ⟨_, atFirst, other⟩ := entryAt (Nat.lt_trans before inside) there
    obtain rfl := Except.ok.inj (taken.symm.trans other)
    -- two places with one key are one place
    refine Nat.ne_of_lt before ((List.getElem?_inj ?_ entered.distinct).mp ?_)
    · rw [List.length_map, ← entered.length_eq]
      exact Nat.lt_trans before inside
    · rw [List.getElem?_map, List.getElem?_map, atFirst, atSecond, Option.map_some, Option.map_some,
        same]

/-- An item is refused with one error only. -/
theorem Refuses.unique {i : Nat} {other : ε} (refused : n.Refuses items i e)
    (again : n.Refuses items i other) : e = other := by
  cases refused with
  | failed here failed =>
    cases again with
    | failed here' failed' =>
      obtain rfl := Option.some.inj (here.symm.trans here')
      exact Except.error.inj (failed.symm.trans failed')
    | taken here' given' =>
      obtain rfl := Option.some.inj (here.symm.trans here')
      cases failed.symm.trans given'
  | @taken item first entry taker j here given before there taken same earliest =>
    cases again with
    | failed here' failed' =>
      obtain rfl := Option.some.inj (here.symm.trans here')
      cases given.symm.trans failed'
    | @taken item' first' entry' taker' j' here' given' before' there' taken' same' earliest' =>
      obtain rfl := Option.some.inj (here.symm.trans here')
      obtain rfl := Except.ok.inj (given.symm.trans given')
      rcases Nat.lt_trichotomy j j' with less | rfl | greater
      · exact absurd same (earliest' j less first taker there taken)
      · rw [Option.some.inj (there.symm.trans there')]
      · exact absurd same' (earliest j' greater first' taker' there' taken')

theorem FirstRefusal.unique {other : ε} (refused : n.FirstRefusal items e)
    (again : n.FirstRefusal items other) : e = other := by
  obtain ⟨i, here, least⟩ := refused
  obtain ⟨j, there, least'⟩ := again
  rcases Nat.lt_trichotomy i j with less | rfl | greater
  · exact absurd here (least' i less e)
  · exact here.unique there
  · exact absurd there (least j greater other)

/-- A step enters an item: it fails with the error of the item, or of a clash with the earliest
entry of the key, or puts the entry behind the others and keeps the state sound. -/
structure Steps (n : Entering ε ι α) (sound : β → Prop) (step : β → ι → Except ε β)
    (view : β → List α) : Prop where
  failed : ∀ {state item e}, n.entry item = .error e → step state item = .error e
  taken : ∀ {state item entry first taker}, sound state → n.entry item = .ok entry →
    (view state).find? (n.key · == n.key entry) = some taker → n.entry first = .ok taker →
    step state item = .error (n.clash first item (n.key entry))
  free : ∀ {state item entry}, sound state → n.entry item = .ok entry →
    (view state).find? (n.key · == n.key entry) = none →
    ∃ next, step state item = .ok next ∧ view next = view state ++ [entry] ∧ sound next

theorem Enters.nil : n.Enters [] [] := ⟨.nil, List.nodup_nil⟩

/-- One more item is entered when it gives an entry with a key of its own. -/
theorem Enters.concat {item : ι} {entry : α} (entered : n.Enters items entries)
    (given : n.entry item = .ok entry) (free : entries.find? (n.key · == n.key entry) = none) :
    n.Enters (items ++ [item]) (entries ++ [entry]) := by
  refine ⟨List.rel_append entered.each (.cons given .nil), ?_⟩
  rw [List.map_append, List.nodup_append]
  refine ⟨entered.distinct, List.nodup_singleton _, ?_⟩
  intro key member other last
  obtain ⟨taker, inside, rfl⟩ := List.mem_map.mp member
  rw [List.map_singleton, List.mem_singleton] at last
  rw [last]
  simpa using List.find?_eq_none.mp free taker inside

theorem Enters.of_concat {item : ι} (entered : n.Enters (items ++ [item]) entries) :
    ∃ front entry, entries = front ++ [entry] ∧ n.Enters items front ∧ n.entry item = .ok entry ∧
      front.find? (n.key · == n.key entry) = none := by
  have backward := List.forall₂_reverse_iff.mpr entered.each
  rw [List.reverse_concat, List.forall₂_cons_left_iff] at backward
  obtain ⟨entry, rest, given, first, whole⟩ := backward
  obtain rfl : entries = rest.reverse ++ [entry] := by
    rw [← List.reverse_reverse entries, whole, List.reverse_cons]
  have distinct := entered.distinct
  rw [List.map_append, List.nodup_append] at distinct
  have each := List.forall₂_reverse_iff.mpr first
  rw [List.reverse_reverse] at each
  refine ⟨rest.reverse, entry, rfl, ⟨each, distinct.1⟩, given, ?_⟩
  rw [List.find?_eq_none]
  intro taker inside same
  exact distinct.2.2 _ (List.mem_map_of_mem inside) (n.key entry) (by simp) (by simpa using same)

namespace Steps

variable {step : β → ι → Except ε β} {view : β → List α} {sound : β → Prop} {start last : β}

/-- A fold that ends has entered every item. -/
theorem enters (steps : n.Steps sound step view) (initial : view start = []) (begins : sound start)
    (reached : items.foldlM step start = .ok last) : n.Enters items (view last) ∧ sound last := by
  induction items using List.reverseRecOn generalizing last with
  | nil =>
    obtain rfl := Outcome.pure_eq_ok_iff.mp reached
    rw [initial]
    exact ⟨.nil, begins⟩
  | append_singleton items item ih =>
    rw [List.foldlM_append, Outcome.bind_eq_ok_iff] at reached
    obtain ⟨state, earlier, reached⟩ := reached
    rw [List.foldlM_cons, Outcome.bind_eq_ok_iff] at reached
    obtain ⟨next, stepped, same⟩ := reached
    obtain rfl := Outcome.pure_eq_ok_iff.mp same
    obtain ⟨entered, isSound⟩ := ih earlier
    cases given : n.entry item with
    | error e => cases (steps.failed given).symm.trans stepped
    | ok entry =>
      cases found : (view state).find? (n.key · == n.key entry) with
      | some taker =>
        obtain ⟨j, there⟩ := List.getElem?_of_mem (List.mem_of_find?_eq_some found)
        obtain ⟨first, -, taken⟩ := entered.item_getElem? there
        cases (steps.taken isSound given found taken).symm.trans stepped
      | none =>
        obtain ⟨after, again, added, kept⟩ := steps.free isSound given found
        obtain rfl := Except.ok.inj (stepped.symm.trans again)
        rw [added]
        exact ⟨entered.concat given found, kept⟩

/-- A fold over items that can all be entered ends with their entries. -/
theorem foldlM_eq_ok (steps : n.Steps sound step view) (initial : view start = [])
    (begins : sound start) (entered : n.Enters items entries) :
    ∃ last, items.foldlM step start = .ok last ∧ view last = entries ∧ sound last := by
  induction items using List.reverseRecOn generalizing entries with
  | nil =>
    obtain rfl := List.forall₂_nil_left_iff.mp entered.each
    exact ⟨start, rfl, initial, begins⟩
  | append_singleton items item ih =>
    obtain ⟨front, entry, rfl, before, given, free⟩ := entered.of_concat
    obtain ⟨state, earlier, rfl, isSound⟩ := ih before
    obtain ⟨next, stepped, added, kept⟩ := steps.free isSound given free
    refine ⟨next, ?_, added, kept⟩
    rw [List.foldlM_append, earlier]
    simp only [bind, Except.bind, List.foldlM_cons, List.foldlM_nil, stepped, pure, Except.pure]

/-- A step fails only on an item that is refused. -/
theorem refuses (steps : n.Steps sound step view) {state : β} {item : ι} {later : List ι}
    (isSound : sound state) (entered : n.Enters items (view state))
    (failed : step state item = .error e) :
    n.Refuses (items ++ item :: later) items.length e := by
  have here : (items ++ item :: later)[items.length]? = some item := by simp
  cases given : n.entry item with
  | error cause =>
    obtain rfl := Except.error.inj (failed.symm.trans (steps.failed given))
    exact .failed here given
  | ok entry =>
    cases found : (view state).find? (n.key · == n.key entry) with
    | none =>
      obtain ⟨next, stepped, -⟩ := steps.free isSound given found
      cases failed.symm.trans stepped
    | some taker =>
      obtain ⟨same, j, bound, atFirst, earliest⟩ := List.find?_eq_some_iff_getElem.mp found
      obtain ⟨first, there, taken⟩ :=
        entered.item_getElem? (List.getElem?_eq_some_iff.mpr ⟨bound, atFirst⟩)
      obtain rfl := Except.error.inj (failed.symm.trans (steps.taken isSound given found taken))
      have inside : j < items.length := entered.length_eq ▸ bound
      refine .taken here given inside ?_ taken (by simpa using same) ?_
      · rw [List.getElem?_append_left inside, there]
      · intro k less other earlier atOther given'
        rw [List.getElem?_append_left (Nat.lt_trans less inside)] at atOther
        obtain ⟨_, atEarlier, given''⟩ := entered.entry_getElem? atOther
        obtain rfl := Except.ok.inj (given'.symm.trans given'')
        obtain ⟨bound', rfl⟩ := List.getElem?_eq_some_iff.mp atEarlier
        simpa using earliest k less

/-- A fold fails with the error of the first item that is refused. -/
theorem foldlM_eq_error_iff (steps : n.Steps sound step view) (initial : view start = [])
    (begins : sound start) : items.foldlM step start = .error e ↔ n.FirstRefusal items e := by
  have forward : ∀ e, items.foldlM step start = .error e → n.FirstRefusal items e := by
    intro e failed
    obtain ⟨earlier, item, later, state, rfl, reached, failed⟩ :=
      Outcome.foldlM_eq_error_iff.mp failed
    obtain ⟨entered, isSound⟩ := steps.enters initial begins reached
    exact ⟨earlier.length, steps.refuses isSound entered failed,
      fun j less other => entered.not_refuses (item :: later) less⟩
  refine ⟨forward e, fun refused => ?_⟩
  cases run : items.foldlM step start with
  | error other => rw [(forward other run).unique refused]
  | ok last =>
    obtain ⟨i, here, -⟩ := refused
    have inside : i < items.length := by
      cases here with
      | failed here _ => exact (List.getElem?_eq_some_iff.mp here).1
      | taken here _ _ _ _ _ _ => exact (List.getElem?_eq_some_iff.mp here).1
    have none := (steps.enters initial begins run).1.not_refuses [] inside (e := e)
    rw [List.append_nil] at none
    exact absurd here none

end Steps

end Entering

end DeployManifest
