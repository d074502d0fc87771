/-!
Named things, kept in the order of their names.
-/
namespace NativeResource

abbrev Table (α : Type) := List (String × α)

namespace Table

def find? (t : Table α) (name : String) : Option α := t.lookup name

def insert (name : String) (a : α) : Table α → Table α
  | [] => [(name, a)]
  | entry :: rest =>
    if name < entry.1 then (name, a) :: entry :: rest
    else if name = entry.1 then (name, a) :: rest
    else entry :: insert name a rest

def erase (t : Table α) (name : String) : Table α := t.filter (·.1 ≠ name)

@[simp] theorem find?_insert_self (t : Table α) (name : String) (a : α) :
    (insert name a t).find? name = some a := by
  induction t with
  | nil => simp [insert, find?]
  | cons entry rest ih =>
    obtain ⟨key, value⟩ := entry
    unfold insert
    split
    · simp [find?]
    · split
      · simp [find?]
      · next hne =>
        have hb : (name == key) = false := beq_eq_false_iff_ne.mpr hne
        simpa [find?, List.lookup_cons, hb] using ih

theorem find?_insert_of_ne (t : Table α) {name other : String} (a : α) (h : other ≠ name) :
    (insert name a t).find? other = t.find? other := by
  have hb : (other == name) = false := beq_eq_false_iff_ne.mpr h
  induction t with
  | nil => simp [insert, find?, List.lookup_cons, hb]
  | cons entry rest ih =>
    obtain ⟨key, value⟩ := entry
    unfold insert
    split
    · simp [find?, List.lookup_cons, hb]
    · split
      · next he =>
        simp only at he
        subst he
        simp [find?, List.lookup_cons, hb]
      · simp only [find?] at ih
        simp [find?, List.lookup_cons, ih]

@[simp] theorem find?_erase_self (t : Table α) (name : String) :
    (t.erase name).find? name = none := by
  induction t with
  | nil => rfl
  | cons entry rest ih =>
    obtain ⟨key, value⟩ := entry
    simp only [find?, erase] at ih ⊢
    by_cases h : key = name
    · simpa [h] using ih
    · have hb : (name == key) = false := beq_eq_false_iff_ne.mpr (Ne.symm h)
      simpa [h, List.lookup_cons, hb] using ih

theorem find?_erase_of_ne (t : Table α) {name other : String} (h : other ≠ name) :
    (t.erase name).find? other = t.find? other := by
  induction t with
  | nil => rfl
  | cons entry rest ih =>
    obtain ⟨key, value⟩ := entry
    simp only [find?, erase] at ih ⊢
    by_cases hk : key = name
    · have hb : (other == key) = false := beq_eq_false_iff_ne.mpr (hk ▸ h)
      simpa [hk, List.lookup_cons, hk ▸ hb] using ih
    · simp only [List.filter_cons, hk, ne_eq, not_false_eq_true, decide_true, if_true,
        List.lookup_cons, ih]

end Table

end NativeResource
