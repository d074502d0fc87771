import Mathlib.Data.List.DropRight
import NativeResource.Text.Blank
/-!
Texts without the white space at their ends. What is left of a text is the one part of it that has
white space at neither end and nothing but white space around it.
-/
namespace NativeResource.Text

variable {s core : List Char}

def whiteSpace : List Nat :=
  [0x09, 0x0A, 0x0B, 0x0C, 0x0D, 0x20, 0x85, 0xA0, 0x1680, 0x2000, 0x2001, 0x2002, 0x2003, 0x2004,
    0x2005, 0x2006, 0x2007, 0x2008, 0x2009, 0x200A, 0x2028, 0x2029, 0x202F, 0x205F, 0x3000]

def IsWhiteSpace (c : Char) : Prop := c.toNat ∈ whiteSpace

instance (c : Char) : Decidable (IsWhiteSpace c) := inferInstanceAs (Decidable (_ ∈ _))

theorem isBlank_eq_true_iff (c : Char) : isBlank c = true ↔ IsWhiteSpace c := by
  simp only [isBlank, blankRanges, IsWhiteSpace, whiteSpace, List.any_cons, List.any_nil,
    Bool.or_eq_true, Bool.false_eq_true, decide_eq_true_eq, List.mem_cons, List.not_mem_nil,
    or_false]
  omega

/-- A part of a text with white space at neither of its ends and nothing but white space around
it. -/
structure Trimmed (s core : List Char) : Prop where
  around : ∃ before after, s = before ++ core ++ after ∧
    (∀ c ∈ before, IsWhiteSpace c) ∧ ∀ c ∈ after, IsWhiteSpace c
  starts : ∀ c ∈ core.head?, ¬ IsWhiteSpace c
  ends : ∀ c ∈ core.getLast?, ¬ IsWhiteSpace c

theorem trimBlanks_eq (s : List Char) :
    trimBlanks s = (s.dropWhile isBlank).rdropWhile isBlank := rfl

theorem trimmed_trimBlanks (s : List Char) : Trimmed s (trimBlanks s) := by
  have hsplit : s = s.takeWhile isBlank ++ trimBlanks s ++
      (s.dropWhile isBlank).rtakeWhile isBlank := by
    rw [trimBlanks_eq, List.append_assoc, List.rdropWhile_append_rtakeWhile,
      List.takeWhile_append_dropWhile]
  refine ⟨⟨_, _, hsplit, ?_, ?_⟩, ?_, ?_⟩
  · intro c hc
    exact (isBlank_eq_true_iff c).mp (List.mem_takeWhile_imp hc)
  · intro c hc
    exact (isBlank_eq_true_iff c).mp (List.mem_rtakeWhile_imp hc)
  · -- The first character left was there before the other end was cut.
    intro c hc
    obtain ⟨cut, hcut⟩ := List.rdropWhile_prefix isBlank (s.dropWhile isBlank)
    have hhead : (s.dropWhile isBlank).head? = some c := by
      rw [← hcut, List.head?_append, ← trimBlanks_eq, hc, Option.some_or]
    have hnot := List.head?_dropWhile_not isBlank s
    rw [hhead] at hnot
    rw [← isBlank_eq_true_iff]
    exact Bool.eq_false_iff.mp hnot
  · intro c hc
    obtain ⟨hne, rfl⟩ := List.mem_getLast?_eq_getLast hc
    rw [← isBlank_eq_true_iff]
    exact List.rdropWhile_last_not isBlank _ hne

theorem dropWhile_append_of_head {α : Type} {p : α → Bool} {front rest : List α}
    (hfront : ∀ a ∈ front, p a = true) (hrest : ∀ a ∈ rest.head?, ¬ p a = true) :
    (front ++ rest).dropWhile p = rest := by
  rw [List.dropWhile_append_of_pos hfront]
  cases rest with
  | nil => rfl
  | cons a rest => exact List.dropWhile_cons_of_neg (hrest a rfl)

theorem Trimmed.trimBlanks_eq (h : Trimmed s core) : trimBlanks s = core := by
  obtain ⟨before, after, rfl, hbefore, hafter⟩ := h.around
  simp only [← isBlank_eq_true_iff] at hbefore hafter
  by_cases hnil : core = []
  · subst hnil
    have hall : ∀ c ∈ before ++ [] ++ after, isBlank c = true := by
      intro c hc
      rw [List.append_nil] at hc
      exact (List.mem_append.mp hc).elim (hbefore c) (hafter c)
    rw [Text.trimBlanks_eq, List.dropWhile_eq_nil_iff.mpr hall, List.rdropWhile_nil]
  · have hfront : (before ++ core ++ after).dropWhile isBlank = core ++ after := by
      rw [List.append_assoc]
      apply dropWhile_append_of_head hbefore
      intro c hc
      rw [List.head?_append_of_ne_nil _ hnil] at hc
      rw [isBlank_eq_true_iff]
      exact h.starts c hc
    have hback : (after.reverse ++ core.reverse).dropWhile isBlank = core.reverse := by
      apply dropWhile_append_of_head
      · intro c hc
        exact hafter c (List.mem_reverse.mp hc)
      · intro c hc
        rw [List.head?_reverse] at hc
        rw [isBlank_eq_true_iff]
        exact h.ends c hc
    rw [trimBlanks, hfront, List.reverse_append, hback, List.reverse_reverse]

theorem trimmed_iff : Trimmed s core ↔ trimBlanks s = core := by
  constructor
  · intro h
    exact h.trimBlanks_eq
  · rintro rfl
    exact trimmed_trimBlanks s

end NativeResource.Text
