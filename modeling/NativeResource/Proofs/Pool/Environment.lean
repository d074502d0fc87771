import Mathlib.Data.Nat.Digits.Defs
import NativeResource.Pool.Limits
import NativeResource.Proofs.Text.Blanks
/-!
The grammar of the limits. A number is what its digits come to by their places, and a limit is one
of two ways to write a number of a machine word, with white space around it or without. This
grammar, and nothing in how a text is scanned, says what either variable sets and which values are
warned about.
-/
namespace NativeResource

namespace PoolLimits

section Numerals

variable {s : List Char} {digits : List Nat} {d n : Nat}

/-- Decimal digits, at least one of them and the highest first, and the number they denote. -/
def IsNumeral (s : List Char) (n : Nat) : Prop :=
  ∃ digits : List Nat, digits ≠ [] ∧ (∀ d ∈ digits, d < 10) ∧
    s = digits.map Nat.digitChar ∧ n = Nat.ofDigits 10 digits.reverse

theorem digitValue_digitChar (h : d < 10) : digitValue (Nat.digitChar d) = d := by
  have hzero : '0'.toNat = 48 := rfl
  rw [digitValue, Nat.toNat_digitChar_of_lt_ten h, hzero]
  omega

theorem isDigit_eq_true_iff (c : Char) : isDigit c = true ↔ ∃ d < 10, Nat.digitChar d = c := by
  have hzero : '0'.toNat = 48 := rfl
  have hnine : '9'.toNat = 57 := rfl
  rw [isDigit, decide_eq_true_eq, hzero, hnine]
  constructor
  · rintro ⟨hlow, hhigh⟩
    refine ⟨c.toNat - 48, by omega, ?_⟩
    apply Char.toNat_inj.mp
    rw [Nat.toNat_digitChar_of_lt_ten (by omega)]
    omega
  · rintro ⟨d, hd, rfl⟩
    rw [Nat.toNat_digitChar_of_lt_ten hd]
    omega

theorem numeral_concat (s : List Char) (c : Char) :
    numeral (s ++ [c]) = 10 * numeral s + digitValue c := by
  rw [numeral, List.foldl_append]
  rfl

/-- Scanning from the left adds up the digits by their places. -/
theorem numeral_map (h : ∀ d ∈ digits, d < 10) :
    numeral (digits.map Nat.digitChar) = Nat.ofDigits 10 digits.reverse := by
  -- The last digit is both the one scanned last and the one of the lowest place.
  induction digits using List.reverseRecOn with
  | nil => rfl
  | append_singleton digits d ih =>
    have hd : d < 10 := h d (List.mem_append_right _ List.mem_cons_self)
    have hdigits : ∀ d ∈ digits, d < 10 := fun d hd => h d (List.mem_append_left _ hd)
    rw [List.map_append, List.map_singleton, numeral_concat, ih hdigits, digitValue_digitChar hd,
      List.reverse_append, List.reverse_singleton, List.singleton_append, Nat.ofDigits_cons,
      Nat.add_comm]

theorem exists_digits (h : s.all isDigit = true) :
    ∃ digits : List Nat, (∀ d ∈ digits, d < 10) ∧ digits.map Nat.digitChar = s := by
  induction s with
  | nil => exact ⟨[], nofun, rfl⟩
  | cons c s ih =>
    rw [List.all_cons, Bool.and_eq_true] at h
    obtain ⟨d, hd, rfl⟩ := (isDigit_eq_true_iff c).mp h.1
    obtain ⟨digits, hdigits, rfl⟩ := ih h.2
    exact ⟨d :: digits, List.forall_mem_cons.mpr ⟨hd, hdigits⟩, rfl⟩

theorem isNumeral_iff : IsNumeral s n ↔ s ≠ [] ∧ s.all isDigit = true ∧ numeral s = n := by
  constructor
  · rintro ⟨digits, hne, hlt, rfl, rfl⟩
    refine ⟨?_, ?_, numeral_map hlt⟩
    · rw [ne_eq, List.map_eq_nil_iff]
      exact hne
    · rw [List.all_map, List.all_eq_true]
      intro d hd
      exact (isDigit_eq_true_iff _).mpr ⟨d, hlt d hd, rfl⟩
  · rintro ⟨hne, hall, rfl⟩
    obtain ⟨digits, hlt, rfl⟩ := exists_digits hall
    refine ⟨digits, ?_, hlt, rfl, numeral_map hlt⟩
    rintro rfl
    exact hne rfl

theorem digits?_eq_some_iff : digits? s = some n ↔ IsNumeral s n ∧ n ≤ 2 ^ 64 - 1 := by
  have hlimit : numeral s < sizeLimit ↔ numeral s ≤ 2 ^ 64 - 1 := Nat.lt_iff_le_pred (by decide)
  rw [digits?, Option.ite_none_right_eq_some, Option.some_inj, isNumeral_iff, hlimit]
  constructor
  · rintro ⟨⟨hne, hall, hle⟩, rfl⟩
    exact ⟨⟨hne, hall, rfl⟩, hle⟩
  · rintro ⟨⟨hne, hall, rfl⟩, hle⟩
    exact ⟨⟨hne, hall, hle⟩, rfl⟩

theorem not_isNumeral_plus : ¬ IsNumeral ('+' :: s) n := by
  intro h
  have hall := (isNumeral_iff.mp h).2.1
  rw [List.all_cons, Bool.and_eq_true] at hall
  exact absurd hall.1 (by decide)

inductive Writes : List Char → Nat → Prop where
  | plain {s : List Char} {n : Nat} : IsNumeral s n → n ≤ 2 ^ 64 - 1 → Writes s n
  | signed {s : List Char} {n : Nat} : IsNumeral s n → n ≤ 2 ^ 64 - 1 → Writes ('+' :: s) n

theorem unsigned?_eq_some_iff : unsigned? s = some n ↔ Writes s n := by
  constructor
  · intro h
    unfold unsigned? at h
    split at h
    · obtain ⟨hnumeral, hle⟩ := digits?_eq_some_iff.mp h
      exact .signed hnumeral hle
    · obtain ⟨hnumeral, hle⟩ := digits?_eq_some_iff.mp h
      exact .plain hnumeral hle
  · intro h
    cases h with
    | plain hnumeral hle =>
      unfold unsigned?
      split
      · exact absurd hnumeral not_isNumeral_plus
      · exact digits?_eq_some_iff.mpr ⟨hnumeral, hle⟩
    | signed hnumeral hle => exact digits?_eq_some_iff.mpr ⟨hnumeral, hle⟩

end Numerals

def Denotes (value : String) (n : Nat) : Prop :=
  ∃ core, Text.Trimmed value.toList core ∧ Writes core n

theorem parse?_eq_some_iff {value : String} {n : Nat} :
    parse? value = some n ↔ Denotes value n := by
  rw [parse?, unsigned?_eq_some_iff]
  constructor
  · intro h
    exact ⟨_, Text.trimmed_iff.mpr rfl, h⟩
  · rintro ⟨core, htrimmed, h⟩
    rw [Text.trimmed_iff.mp htrimmed]
    exact h

end PoolLimits

namespace EnvironmentValue

variable {v : EnvironmentValue} {value : String} {n m : Nat}

def Sets (v : EnvironmentValue) (n : Nat) : Prop :=
  ∃ value, v = .text value ∧ PoolLimits.Denotes value n

def Unparsable (v : EnvironmentValue) (value : String) : Prop :=
  v = .text value ∧ value ≠ "" ∧ ∀ n, ¬ PoolLimits.Denotes value n

theorem Sets.unique (hn : v.Sets n) (hm : v.Sets m) : n = m := by
  obtain ⟨value, rfl, hn⟩ := hn
  obtain ⟨same, hsame, hm⟩ := hm
  obtain rfl := EnvironmentValue.text.inj hsame
  exact Option.some.inj
    ((PoolLimits.parse?_eq_some_iff.mpr hn).symm.trans (PoolLimits.parse?_eq_some_iff.mpr hm))

theorem Unparsable.not_sets (h : v.Unparsable value) (n : Nat) : ¬ v.Sets n := by
  rintro ⟨same, hsame, hdenotes⟩
  obtain rfl := EnvironmentValue.text.inj (h.1.symm.trans hsame)
  exact h.2.2 n hdenotes

end EnvironmentValue

namespace PoolLimits

section Variables

variable {variableName other : String} {v : EnvironmentValue} {standard limit : Nat}
  {log : List Event}

inductive Overrides (variableName : String) (v : EnvironmentValue) :
    Option Nat × List Event → Prop where
  | set {n : Nat} : v.Sets n → Overrides variableName v (some n, [])
  | warned {value : String} : v.Unparsable value →
      Overrides variableName v (none, [.limitIgnored variableName value])
  | passed : (∀ n, ¬ v.Sets n) → (∀ value, ¬ v.Unparsable value) →
      Overrides variableName v (none, [])

theorem not_denotes_empty (n : Nat) : ¬ Denotes "" n := by
  rw [← parse?_eq_some_iff]
  exact nofun

theorem overrides_override (variableName : String) (v : EnvironmentValue) :
    Overrides variableName v (override variableName v) := by
  cases v with
  | unset => exact .passed nofun nofun
  | unreadable => exact .passed nofun nofun
  | text value =>
    rw [override]
    split
    · next hempty =>
      obtain rfl := String.isEmpty_iff.mp hempty
      refine .passed ?_ ?_
      · rintro n ⟨value, hvalue, hdenotes⟩
        obtain rfl := EnvironmentValue.text.inj hvalue
        exact not_denotes_empty n hdenotes
      · rintro value ⟨hvalue, hne, -⟩
        exact hne (EnvironmentValue.text.inj hvalue).symm
    · next hempty =>
      split
      · next n hparse => exact .set ⟨value, rfl, parse?_eq_some_iff.mp hparse⟩
      · next hparse =>
        refine .warned ⟨rfl, ?_, ?_⟩
        · rintro rfl
          exact hempty rfl
        · intro n hdenotes
          rw [parse?_eq_some_iff.mpr hdenotes] at hparse
          cases hparse

def warningsAbout (variableName : String) (log : List Event) : List Event :=
  log.filter fun e => decide (e.level = "WARN" ∧ e.message = "ignoring unparsable pool limit" ∧
    ("variable", variableName) ∈ e.fields)

theorem warningsAbout_append (variableName : String) (log more : List Event) :
    warningsAbout variableName (log ++ more) =
      warningsAbout variableName log ++ warningsAbout variableName more :=
  List.filter_append ..

theorem warningsAbout_self (variableName value : String) :
    warningsAbout variableName [.limitIgnored variableName value] =
      [.limitIgnored variableName value] := by
  refine List.filter_cons_of_pos ?_
  rw [decide_eq_true_eq]
  exact ⟨rfl, rfl, List.mem_cons_self⟩

theorem warningsAbout_other (hne : variableName ≠ other) (value : String) :
    warningsAbout variableName [.limitIgnored other value] = [] := by
  refine List.filter_cons_of_neg ?_
  rw [decide_eq_true_eq]
  rintro ⟨-, -, hmem⟩
  rcases List.mem_pair.mp hmem with hname | hvalue
  · exact hne (Prod.mk.inj hname).2
  · exact absurd (Prod.mk.inj hvalue).1 (by decide)

theorem warningsAbout_override (variableName : String) (v : EnvironmentValue) :
    warningsAbout variableName (override variableName v).2 = (override variableName v).2 := by
  have h := overrides_override variableName v
  generalize override variableName v = r at h
  cases h with
  | set => rfl
  | warned => exact warningsAbout_self ..
  | passed => rfl

theorem warningsAbout_override_of_ne (hne : variableName ≠ other) (v : EnvironmentValue) :
    warningsAbout variableName (override other v).2 = [] := by
  have h := overrides_override other v
  generalize override other v = r at h
  cases h with
  | set => rfl
  | warned => exact warningsAbout_other hne _
  | passed => rfl

/-- A variable is read by the grammar: it sets the limit if its value denotes one, the standard
limit stands otherwise, and it is warned about, once, if the value should have denoted one. -/
structure ReadsVariable (variableName : String) (v : EnvironmentValue) (standard limit : Nat)
    (log : List Event) : Prop where
  set : ∀ n, v.Sets n → limit = n
  stands : (∀ n, ¬ v.Sets n) → limit = standard
  warned : ∀ value, warningsAbout variableName log = [.limitIgnored variableName value] ↔
    v.Unparsable value
  silent : warningsAbout variableName log = [] ↔ ∀ value, ¬ v.Unparsable value

theorem warned_iff_of_parsable (hparsable : ∀ value, ¬ v.Unparsable value)
    (hlog : warningsAbout variableName log = []) (value : String) :
    warningsAbout variableName log = [.limitIgnored variableName value] ↔ v.Unparsable value := by
  rw [hlog]
  exact ⟨nofun, fun h => absurd h (hparsable value)⟩

theorem readsVariable_override (standard : Nat)
    (hlog : warningsAbout variableName log = (override variableName v).2) :
    ReadsVariable variableName v standard ((override variableName v).1.getD standard) log := by
  have h := overrides_override variableName v
  generalize override variableName v = r at h hlog
  cases h with
  | set hsets =>
    have hparsable : ∀ value, ¬ v.Unparsable value := fun value h => h.not_sets _ hsets
    exact ⟨fun m hm => hsets.unique hm, fun hnone => absurd hsets (hnone _),
      warned_iff_of_parsable hparsable hlog, fun _ => hparsable, fun _ => hlog⟩
  | @warned value hun =>
    refine ⟨fun n hsets => absurd hsets (hun.not_sets n), fun _ => rfl, ?_, ?_⟩
    · intro other
      rw [hlog]
      constructor
      · intro heq
        cases heq
        exact hun
      · intro hother
        rw [EnvironmentValue.text.inj (hun.1.symm.trans hother.1)]
    · rw [hlog]
      exact ⟨nofun, fun hparsable => absurd hun (hparsable value)⟩
  | passed hnone hparsable =>
    exact ⟨fun n hsets => absurd hsets (hnone n), fun _ => rfl,
      warned_iff_of_parsable hparsable hlog, fun _ => hparsable, fun _ => hlog⟩

theorem ReadsVariable.unique {limit' : Nat} {log' : List Event}
    (h : ReadsVariable variableName v standard limit log)
    (h' : ReadsVariable variableName v standard limit' log') :
    limit = limit' ∧ warningsAbout variableName log = warningsAbout variableName log' := by
  constructor
  · by_cases hsets : ∃ n, v.Sets n
    · obtain ⟨n, hn⟩ := hsets
      rw [h.set n hn, h'.set n hn]
    · have hnone : ∀ n, ¬ v.Sets n := not_exists.mp hsets
      rw [h.stands hnone, h'.stands hnone]
  · by_cases hun : ∃ value, v.Unparsable value
    · obtain ⟨value, hvalue⟩ := hun
      rw [(h.warned value).mpr hvalue, (h'.warned value).mpr hvalue]
    · have hparsable : ∀ value, ¬ v.Unparsable value := not_exists.mp hun
      rw [h.silent.mpr hparsable, h'.silent.mpr hparsable]

end Variables

/-- Each variable is read by the grammar, without regard to the other, and nothing is reported but
what is warned of. -/
structure ReadsEnvironment (slots maxBytes : EnvironmentValue) (limits : PoolLimits)
    (log : List Event) : Prop where
  slots : ReadsVariable "WINHOLD_POOL_SLOTS" slots 16 limits.maxSlots log
  maxBytes : ReadsVariable "WINHOLD_POOL_MAX_BYTES" maxBytes 65536 limits.maxPooledSize log
  reported : log =
    warningsAbout "WINHOLD_POOL_SLOTS" log ++ warningsAbout "WINHOLD_POOL_MAX_BYTES" log

theorem readsEnvironment_ofEnvironment (slots maxBytes : EnvironmentValue) :
    ReadsEnvironment slots maxBytes (ofEnvironment slots maxBytes).1
      (ofEnvironment slots maxBytes).2 := by
  have hslots : warningsAbout slotsVariable (ofEnvironment slots maxBytes).2 =
      (override slotsVariable slots).2 := by
    rw [ofEnvironment, warningsAbout_append, warningsAbout_override,
      warningsAbout_override_of_ne (by decide), List.append_nil]
  have hmaxBytes : warningsAbout maxBytesVariable (ofEnvironment slots maxBytes).2 =
      (override maxBytesVariable maxBytes).2 := by
    rw [ofEnvironment, warningsAbout_append, warningsAbout_override,
      warningsAbout_override_of_ne (by decide), List.nil_append]
  refine ⟨readsVariable_override 16 hslots, readsVariable_override 65536 hmaxBytes, ?_⟩
  exact (congrArg₂ (· ++ ·) hslots hmaxBytes).symm

/-- The limits and the log are those of the grammar, for every pair of values. -/
theorem environment_read_by_grammar (slots maxBytes : EnvironmentValue) (limits : PoolLimits)
    (log : List Event) :
    ofEnvironment slots maxBytes = (limits, log) ↔ ReadsEnvironment slots maxBytes limits log := by
  have hread := readsEnvironment_ofEnvironment slots maxBytes
  constructor
  · intro h
    rw [h] at hread
    exact hread
  · intro h
    obtain ⟨hmaxSlots, hslotsLog⟩ := hread.slots.unique h.slots
    obtain ⟨hmaxPooledSize, hmaxBytesLog⟩ := hread.maxBytes.unique h.maxBytes
    have hlimits : (ofEnvironment slots maxBytes).1 = limits := by
      cases limits
      exact congrArg₂ PoolLimits.mk hmaxSlots hmaxPooledSize
    have hlog : (ofEnvironment slots maxBytes).2 = log := by
      rw [hread.reported, hslotsLog, hmaxBytesLog, ← h.reported]
    exact Prod.ext hlimits hlog

example : ofEnvironment (.text " +007\n") (.text "18446744073709551616") =
    (⟨7, 65536⟩, [.limitIgnored "WINHOLD_POOL_MAX_BYTES" "18446744073709551616"]) := by decide

end PoolLimits

end NativeResource
