import DeployManifest.Family
import DeployManifest.Proofs.Text
import Mathlib.Data.String.Basic

/-! # Keys that are derived

A derived key is a method and what stands for the address behind it. The methods of the families have
no underscore in them, so the first one of a key divides the two (`join_eq_join_iff`), and keys are
the same only if both parts are. Main statement: `derivedKey_eq_iff`.
-/

namespace DeployManifest

namespace KeyScheme

variable {scheme : KeyScheme} {method other part rest : String} {address : Option String}

/-- A letter or digit of the ASCII characters, or an underscore. -/
def IsKeyChar (c : Char) : Prop :=
  ('a' ≤ c ∧ c ≤ 'z') ∨ ('A' ≤ c ∧ c ≤ 'Z') ∨ ('0' ≤ c ∧ c ≤ '9') ∨ c = '_'

instance (c : Char) : Decidable (IsKeyChar c) := inferInstanceAs (Decidable (_ ∨ _ ∨ _ ∨ _))

/-- What stands for an address in a key: nothing, where the scheme takes no address. -/
def addressPart (scheme : KeyScheme) (address : Option String) : String :=
  match scheme, address with
  | .address, some resource => sanitizeAddress resource
  | .schedule, some cron => sanitizeSchedule cron
  | _, _ => ""

/-- A key that is not the address itself is derived by one rule. -/
theorem key_eq_join (derived : scheme ≠ .explicit) :
    scheme.key method address = join method (scheme.addressPart address) := by
  cases scheme with
  | explicit => exact absurd rfl derived
  | address | schedule | method => cases address <;> rfl

/-! ### What is left of addresses -/

theorem keeps_iff {c : Char} : keeps c = true ↔ IsKeyChar c := by
  have upper : c.isUpper = true ↔ 'A' ≤ c ∧ c ≤ 'Z' := Text.isUpper_iff
  have lower : c.isLower = true ↔ 'a' ≤ c ∧ c ≤ 'z' := Text.isLower_iff
  have digit : c.isDigit = true ↔ '0' ≤ c ∧ c ≤ '9' := Text.isDigit_iff
  have letter : c.isAlpha = true ↔ c.isUpper = true ∨ c.isLower = true :=
    Bool.or_eq_true_iff
  have alphanumeric : c.isAlphanum = true ↔ c.isAlpha = true ∨ c.isDigit = true :=
    Bool.or_eq_true_iff
  rw [keeps, Bool.or_eq_true, alphanumeric, letter, upper, lower, digit, beq_iff_eq, or_assoc,
    or_assoc]
  exact or_left_comm

/-- A character that is kept stays itself, and is no separator. -/
theorem separators_of_keeps {c : Char} (kept : keeps c = true) :
    c ≠ '/' ∧ c ≠ '-' ∧ c ≠ '.' ∧ c ≠ ' ' := by
  refine ⟨?_, ?_, ?_, ?_⟩ <;>
  · rintro rfl
    exact absurd kept (by decide)

/-- Where separators become underscores and the rest is kept or dropped, only what is kept is
left. -/
theorem keeps_of_become {separates : Prop} [Decidable separates] {c d : Char}
    (become : (if separates then some '_' else if keeps c then some c else none) = some d) :
    keeps d = true := by
  split at become
  · cases become
    rfl
  · split at become
    · cases become
      assumption
    · cases become

theorem addressChar?_of_keeps {c : Char} (kept : keeps c = true) : addressChar? c = some c := by
  obtain ⟨slash, hyphen, point, space⟩ := separators_of_keeps kept
  rw [addressChar?, if_neg (by simp [slash, hyphen, point, space]), if_pos kept]

theorem scheduleChar?_of_keeps {c : Char} (kept : keeps c = true) : scheduleChar? c = some c := by
  obtain ⟨-, hyphen, -, space⟩ := separators_of_keeps kept
  rw [scheduleChar?, if_neg (by simp [hyphen, space]), if_pos kept]

theorem keeps_sanitizeAddress (s : String) : ∀ c ∈ (sanitizeAddress s).toList, keeps c = true := by
  intro c member
  rw [sanitizeAddress, String.toList_ofList] at member
  obtain ⟨_, -, become⟩ := List.mem_filterMap.mp member
  exact keeps_of_become become

theorem keeps_sanitizeSchedule (s : String) :
    ∀ c ∈ (sanitizeSchedule s).toList, keeps c = true := by
  intro c member
  rw [sanitizeSchedule, String.toList_ofList] at member
  obtain ⟨_, -, become⟩ := List.mem_filterMap.mp member
  exact keeps_of_become become

theorem filterMap_eq_self {α : Type} {f : α → Option α} {xs : List α}
    (same : ∀ x ∈ xs, f x = some x) : xs.filterMap f = xs := by
  rw [List.filterMap_congr same, List.filterMap_some]

/-- An address of characters that are kept stays as it is. -/
theorem sanitizeAddress_eq_self {s : String} (kept : ∀ c ∈ s.toList, keeps c = true) :
    sanitizeAddress s = s := by
  have noSlash : ∀ c ∈ s.toList, (c == '/') = false := fun c member =>
    beq_eq_false_iff_ne.mpr (separators_of_keeps (kept c member)).1
  have whole : Text.stripEnds (· == '/') s.toList = s.toList :=
    Text.stripEnds_eq_self (fun c first => noSlash c (List.mem_of_mem_head? first))
      fun c last => noSlash c (List.mem_of_mem_getLast? last)
  rw [sanitizeAddress, whole,
    filterMap_eq_self fun c member => addressChar?_of_keeps (kept c member), String.ofList_toList]

theorem sanitizeSchedule_eq_self {s : String} (kept : ∀ c ∈ s.toList, keeps c = true) :
    sanitizeSchedule s = s := by
  rw [sanitizeSchedule, filterMap_eq_self fun c member => scheduleChar?_of_keeps (kept c member),
    String.ofList_toList]

theorem keeps_addressPart (scheme : KeyScheme) (address : Option String) :
    ∀ c ∈ (scheme.addressPart address).toList, keeps c = true := by
  unfold addressPart
  split
  · exact keeps_sanitizeAddress _
  · exact keeps_sanitizeSchedule _
  · nofun

/-! ### The two parts of a key -/

theorem toList_join : (join method part).toList =
    method.toList ++ if part.isEmpty then [] else '_' :: part.toList := by
  rw [join]
  split
  · rw [List.append_nil]
  · rw [String.toList_append, String.toList_append, List.append_assoc]
    rfl

/-- The method is what stands in front of the first underscore. -/
theorem takeWhile_join (plain : '_' ∉ method.toList) :
    (join method part).toList.takeWhile (· != '_') = method.toList := by
  have free : ∀ c ∈ method.toList, (c != '_') = true := by
    intro c member
    rw [bne_iff_ne]
    rintro rfl
    exact plain member
  rw [toList_join, List.takeWhile_append_of_pos free]
  split
  · simp
  · simp

theorem join_injective (same : join method part = join method rest) : part = rest := by
  have behind := congrArg String.toList same
  rw [toList_join, toList_join] at behind
  have behind := List.append_cancel_left behind
  split at behind
  · rename_i empty
    split at behind
    · rename_i empty'
      rw [String.isEmpty_iff.mp empty, String.isEmpty_iff.mp empty']
    · cases behind
  · split at behind
    · cases behind
    · exact String.toList_inj.mp (List.cons.inj behind).2

/-- Methods without an underscore and parts of any form can be told apart in what they are joined
to. -/
theorem join_eq_join_iff (plain : '_' ∉ method.toList) (plain' : '_' ∉ other.toList) :
    join method part = join other rest ↔ method = other ∧ part = rest := by
  constructor
  · intro same
    have front := congrArg (fun key => key.toList.takeWhile (· != '_')) same
    rw [takeWhile_join plain, takeWhile_join plain'] at front
    obtain rfl := String.toList_inj.mp front
    exact ⟨rfl, join_injective same⟩
  · rintro ⟨rfl, rfl⟩
    rfl

end KeyScheme

namespace Family

open KeyScheme

/-- The methods of the families are words of letters. -/
theorem isAlpha_of_mem_methods {f : Family} {method : String} (listed : method ∈ f.methods) :
    ∀ c ∈ method.toList, c.isAlpha = true := by
  have all : (f.methods.all fun method => method.toList.all Char.isAlpha) = true := by
    cases f <;> decide +kernel
  exact List.all_eq_true.mp (List.all_eq_true.mp all method listed)

theorem underscore_not_mem_of_mem_methods {f : Family} {method : String}
    (listed : method ∈ f.methods) : '_' ∉ method.toList :=
  fun member => absurd (isAlpha_of_mem_methods listed '_' member) (by decide)

theorem keeps_of_mem_methods {f : Family} {method : String} (listed : method ∈ f.methods) :
    ∀ c ∈ method.toList, keeps c = true := by
  intro c member
  rw [keeps, Char.isAlphanum, isAlpha_of_mem_methods listed c member]
  rfl

/-- A key that is derived by a method of a family has no other characters. -/
theorem isKeyChar_of_mem_key {f : Family} {method : String} {address : Option String}
    (listed : method ∈ f.methods) (derived : f.keyScheme ≠ .explicit) :
    ∀ c ∈ (f.keyScheme.key method address).toList, IsKeyChar c := by
  intro c member
  rw [← keeps_iff]
  rw [key_eq_join derived, toList_join, List.mem_append] at member
  rcases member with inMethod | behind
  · exact keeps_of_mem_methods listed c inMethod
  · split at behind
    · cases behind
    · rcases List.mem_cons.mp behind with rfl | inPart
      · rfl
      · exact keeps_addressPart _ _ c inPart

/-- No method has an underscore in it. So two keys that are derived from addresses, schedules or
nothing are the same exactly if the methods are and what is left of the addresses is. Such keys are
made of letters, digits and underscores, and nothing more is left out of an address when it is treated
again. -/
theorem derivedKey_eq_iff :
    (∀ (f : Family) (m : String), m ∈ f.methods → '_' ∉ m.toList) ∧
    (∀ (f g : Family) (m n : String) (a b : Option String), m ∈ f.methods → n ∈ g.methods →
      f.keyScheme ≠ .explicit → g.keyScheme ≠ .explicit →
        (f.keyScheme.key m a = g.keyScheme.key n b ↔
          m = n ∧ f.keyScheme.addressPart a = g.keyScheme.addressPart b)) ∧
    (∀ (f : Family) (m : String) (a : Option String), m ∈ f.methods → f.keyScheme ≠ .explicit →
      ∀ c ∈ (f.keyScheme.key m a).toList, IsKeyChar c) ∧
    (∀ s, sanitizeAddress (sanitizeAddress s) = sanitizeAddress s) ∧
    ∀ s, sanitizeSchedule (sanitizeSchedule s) = sanitizeSchedule s := by
  refine ⟨fun f m => underscore_not_mem_of_mem_methods, ?_,
    fun f m a listed derived => isKeyChar_of_mem_key listed derived,
    fun s => sanitizeAddress_eq_self (keeps_sanitizeAddress s),
    fun s => sanitizeSchedule_eq_self (keeps_sanitizeSchedule s)⟩
  intro f g m n a b listed listed' derived derived'
  rw [key_eq_join derived, key_eq_join derived']
  exact join_eq_join_iff (underscore_not_mem_of_mem_methods listed)
    (underscore_not_mem_of_mem_methods listed')

/-- Of three addresses two have the same key, and the third, which starts with a separator, has
another one. -/
theorem derivedKey_eq_iff_rooms :
    "onValueCreated" ∈ database.methods ∧ database.keyScheme ≠ .explicit ∧
      database.keyScheme.key "onValueCreated" (some "rooms.1") =
        database.keyScheme.key "onValueCreated" (some "/rooms-\x7b1\x7d/") ∧
      database.keyScheme.key "onValueCreated" (some "rooms.1") ≠
        database.keyScheme.key "onValueCreated" (some "/-rooms.1") := by
  have listed : "onValueCreated" ∈ database.methods := by decide
  have derived : database.keyScheme ≠ .explicit := by decide
  have told (a b : Option String) := derivedKey_eq_iff.2.1 database database "onValueCreated"
    "onValueCreated" a b listed listed derived derived
  refine ⟨listed, derived, (told _ _).mpr ⟨rfl, by decide +kernel⟩, fun same => ?_⟩
  exact absurd ((told _ _).mp same).2 (by decide +kernel)

end Family

end DeployManifest
