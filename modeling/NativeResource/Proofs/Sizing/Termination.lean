import Mathlib.Data.List.Chain
import Mathlib.Data.Nat.Log
import NativeResource.Proofs.Sizing.Growth
import NativeResource.Proofs.Sizing.Observation
/-!
Sizing ends, whatever the call answers, as long as the call never lowers the capacity. Every growth
but one doubles the capacity, the one that is cut reaches the ceiling, and no growth starts there,
so the number of attempts is logarithmic in the ceiling.
-/
namespace NativeResource

variable {σ : Type} {p : SizingPolicy} {alloc : Allocator} {call : Call σ}

/-- The call may grow the buffer and change its contents, but leaves it no smaller. -/
def Call.NeverShrinks (call : Call σ) : Prop :=
  ∀ u, u.buffer.capacity ≤ (call u).state.buffer.capacity

namespace SizingPolicy

def cuts (p : SizingPolicy) (x : Attempt σ) : Bool :=
  match x.answer with
  | none => false
  | some a =>
    decide (a.code.signal = .insufficientBuffer ∧
      p.ceiling < p.wanted x.left.buffer.capacity a.size) &&
      (p.target? x.left.buffer.capacity a.size).isSome

/-- The second attempt found more room than the first one left, twice as much unless cut. -/
def Raises (p : SizingPolicy) (x y : Attempt σ) : Prop :=
  x.left.buffer.capacity < y.found.buffer.capacity ∧
    (p.cuts x = false → 2 * x.left.buffer.capacity ≤ y.found.buffer.capacity)

variable {x : Attempt σ} {b : Buffer}

theorem Enlarged.lt_ceiling (h : p.Enlarged alloc x b) :
    x.left.buffer.capacity < p.ceiling := by
  obtain ⟨a, -, -, hg⟩ := h
  exact lt_ceiling_of_grow hg

theorem Enlarged.lt_capacity (h : p.Enlarged alloc x b) :
    x.left.buffer.capacity < b.capacity := by
  obtain ⟨a, -, -, hg⟩ := h
  exact lt_capacity_of_grow hg

theorem Enlarged.double_of_not_cuts (h : p.Enlarged alloc x b) (hc : p.cuts x = false) :
    2 * x.left.buffer.capacity ≤ b.capacity := by
  obtain ⟨a, ha, hs, hg⟩ := h
  obtain ⟨t, ht, -⟩ := le_capacity_of_grow hg
  have hw : p.wanted x.left.buffer.capacity a.size ≤ p.ceiling := by
    simpa [cuts, ha, hs, ht] using hc
  exact (capacity_of_grow_uncut hg hw).2

theorem Enlarged.ceiling_le_of_cuts (h : p.Enlarged alloc x b) (hc : p.cuts x = true) :
    p.ceiling ≤ b.capacity := by
  obtain ⟨a, ha, hs, hg⟩ := h
  obtain ⟨t, ht, -⟩ := le_capacity_of_grow hg
  have hw : p.ceiling < p.wanted x.left.buffer.capacity a.size := by
    simpa [cuts, ha, hs, ht] using hc
  exact (capacity_of_grow_cut hg hw).2

theorem cuts_eq_false (h : p.ceiling ≤ x.left.buffer.capacity) : p.cuts x = false := by
  unfold cuts
  cases x.answer with
  | none => rfl
  | some a =>
    have ht := (target?_eq_none_iff p a.size x.left.buffer.capacity_le).mpr (.inl h)
    simp [ht]

def attemptBound (ceiling capacity : Nat) : Nat :=
  if ceiling ≤ capacity then 1
  else if capacity = 0 then Nat.log 2 ceiling + 3
  else Nat.log 2 (ceiling / capacity) + 2

theorem attemptBound_of_le {ceiling capacity : Nat} (h : ceiling ≤ capacity) :
    attemptBound ceiling capacity = 1 := if_pos h

theorem two_le_attemptBound {ceiling capacity : Nat} (h : capacity < ceiling) :
    2 ≤ attemptBound ceiling capacity := by
  unfold attemptBound
  rw [if_neg (Nat.not_le.mpr h)]
  split <;> omega

theorem log_div_double {ceiling c d : Nat} (hc : 0 < c) (hcd : 2 * c ≤ d) (hd : d < ceiling) :
    Nat.log 2 (ceiling / d) + 1 ≤ Nat.log 2 (ceiling / c) := by
  have hq : 2 ≤ ceiling / c := (Nat.le_div_iff_mul_le hc).mpr (by omega)
  have hone : 1 ≤ Nat.log 2 (ceiling / c) := Nat.log_pos (by omega) hq
  have hle : ceiling / d ≤ ceiling / c / 2 := by
    rw [Nat.div_div_eq_div_mul, Nat.mul_comm c 2]
    exact Nat.div_le_div_left hcd (by omega)
  have hlog : Nat.log 2 (ceiling / d) ≤ Nat.log 2 (ceiling / c) - 1 := by
    rw [← Nat.log_div_base]
    exact Nat.log_mono_right hle
  omega

/-- A growth that doubles the capacity takes one attempt off the bound. -/
theorem attemptBound_of_double {ceiling c d : Nat} (hcd : c < d) (hdouble : 2 * c ≤ d)
    (hc : c < ceiling) : attemptBound ceiling d + 1 ≤ attemptBound ceiling c := by
  by_cases hd : ceiling ≤ d
  · rw [attemptBound_of_le hd]
    exact two_le_attemptBound hc
  · have hd' : d ≠ 0 := by omega
    rcases Nat.eq_zero_or_pos c with rfl | hpos
    · have hlog : Nat.log 2 (ceiling / d) ≤ Nat.log 2 ceiling :=
        Nat.log_mono_right (Nat.div_le_self ceiling d)
      simp only [attemptBound, if_neg hd, if_neg hd', if_neg (Nat.not_le.mpr hc), if_true]
      omega
    · have hlog := log_div_double hpos hdouble (Nat.lt_of_not_le hd)
      have hc' : c ≠ 0 := by omega
      simp only [attemptBound, if_neg hd, if_neg hd', if_neg (Nat.not_le.mpr hc), if_neg hc']
      omega

end SizingPolicy

namespace Course

variable {u : InUse σ} {earlier : List (Attempt σ)} {last : Attempt σ}

/-- Each growth brings the capacity closer to the ceiling, and none starts there; so a course ends
if no attempt that is repeated lowers the capacity. -/
theorem exists_of_keeps
    (hkeeps : ∀ u b, p.Enlarged alloc (call.attempt u) b →
      u.buffer.capacity ≤ (call.attempt u).left.buffer.capacity) (u : InUse σ) :
    ∃ earlier last, Course p alloc call u earlier last := by
  induction hm : p.ceiling - u.buffer.capacity using Nat.strongRecOn generalizing u with
  | ind m ih =>
    by_cases h : ∃ b, p.Enlarged alloc (call.attempt u) b
    · obtain ⟨b, hb⟩ := h
      have hkept := hkeeps u b hb
      have hlt := hb.lt_ceiling
      have hraised := hb.lt_capacity
      obtain ⟨earlier, last, hrest⟩ := ih (p.ceiling - b.capacity) (by omega)
        ⟨b, (call.attempt u).left.state⟩ rfl
      exact ⟨call.attempt u :: earlier, last, .again u hb hrest⟩
    · exact ⟨[], call.attempt u, .last u (fun b hb => h ⟨b, hb⟩)⟩

theorem exists_of_neverShrinks (p : SizingPolicy) (alloc : Allocator) (hcall : call.NeverShrinks)
    (u : InUse σ) : ∃ earlier last, Course p alloc call u earlier last :=
  exists_of_keeps (fun v _ _ => hcall v.clear) u

theorem le_capacity_of_neverShrinks (hcall : call.NeverShrinks)
    (h : Course p alloc call u earlier last) :
    ∀ x ∈ earlier ++ [last], u.buffer.capacity ≤ x.found.buffer.capacity := by
  induction h with
  | last u _ => exact List.forall_mem_singleton.mpr (Nat.le_refl _)
  | again u hb _ ih =>
    have hkeeps : u.buffer.capacity ≤ (call.attempt u).left.buffer.capacity := hcall u.clear
    have hraised := hb.lt_capacity
    intro x hx
    rcases List.mem_cons.mp hx with rfl | hx
    · exact Nat.le_refl _
    · exact Nat.le_trans (Nat.le_trans hkeeps (Nat.le_of_lt hraised)) (ih x hx)

theorem length_le (hcall : call.NeverShrinks) (h : Course p alloc call u earlier last) :
    earlier.length + 1 ≤ SizingPolicy.attemptBound p.ceiling u.buffer.capacity := by
  induction h with
  | last u _ =>
    by_cases hu : p.ceiling ≤ u.buffer.capacity
    · rw [SizingPolicy.attemptBound_of_le hu]
      exact Nat.le_refl 1
    · have := SizingPolicy.two_le_attemptBound (Nat.lt_of_not_le hu)
      simp only [List.length_nil]
      omega
  | again u hb _ ih =>
    have hkeeps : u.buffer.capacity ≤ (call.attempt u).left.buffer.capacity := hcall u.clear
    have hlt := hb.lt_ceiling
    have hraised := hb.lt_capacity
    simp only [List.length_cons]
    cases hcut : p.cuts (call.attempt u) with
    | true =>
      have hbound := SizingPolicy.attemptBound_of_le (hb.ceiling_le_of_cuts hcut)
      have htwo := SizingPolicy.two_le_attemptBound (Nat.lt_of_le_of_lt hkeeps hlt)
      simp only [hbound] at ih
      omega
    | false =>
      have hdouble := hb.double_of_not_cuts hcut
      have hbound := SizingPolicy.attemptBound_of_double
        (Nat.lt_of_le_of_lt hkeeps hraised) (by omega) (Nat.lt_of_le_of_lt hkeeps hlt)
      simp only at ih
      omega

theorem exists_cons (h : Course p alloc call u earlier last) :
    ∃ rest, earlier ++ [last] = call.attempt u :: rest := by
  cases h with
  | last => exact ⟨[], rfl⟩
  | again _ _ _ => exact ⟨_, rfl⟩

/-- What a growth establishes between its attempt and the next one holds all along a course. -/
theorem isChain {R : Attempt σ → Attempt σ → Prop}
    (hgrown : ∀ {x b} t, p.Enlarged alloc x b → R x (call.attempt ⟨b, t⟩))
    (h : Course p alloc call u earlier last) : (earlier ++ [last]).IsChain R := by
  induction h with
  | last u _ => exact .singleton _
  | again u hb hrest ih =>
    obtain ⟨rest, hcons⟩ := hrest.exists_cons
    rw [List.cons_append, hcons]
    rw [hcons] at ih
    exact .cons_cons (hgrown _ hb) ih

theorem isChain_raises (h : Course p alloc call u earlier last) :
    (earlier ++ [last]).IsChain p.Raises :=
  h.isChain fun _ hb => ⟨hb.lt_capacity, hb.double_of_not_cuts⟩

theorem countP_cuts_eq_zero (hcall : call.NeverShrinks) (h : Course p alloc call u earlier last)
    (hu : p.ceiling ≤ u.buffer.capacity) : (earlier ++ [last]).countP p.cuts = 0 := by
  have hkeeps : u.buffer.capacity ≤ (call.attempt u).left.buffer.capacity := hcall u.clear
  cases h with
  | last _ _ =>
    have hcut := SizingPolicy.cuts_eq_false (Nat.le_trans hu hkeeps)
    simp [hcut]
  | again _ hb _ =>
    have := hb.lt_ceiling
    omega

theorem countP_cuts_le (hcall : call.NeverShrinks) (h : Course p alloc call u earlier last) :
    (earlier ++ [last]).countP p.cuts ≤ 1 := by
  induction h with
  | last u _ => exact Nat.le_trans (List.countP_le_length) (by simp)
  | again u hb hrest ih =>
    rw [List.cons_append, List.countP_cons]
    cases hcut : p.cuts (call.attempt u) with
    | true =>
      have := hrest.countP_cuts_eq_zero hcall (hb.ceiling_le_of_cuts hcut)
      simp [this]
    | false => simpa using ih

end Course

/-- The attempts by which a call is settled, as every observer of the call notes them, with bounds
on their number and on the growths between them. -/
structure SettlesThrough (p : SizingPolicy) (alloc : Allocator) (call : Call σ) (u : InUse σ)
    (attempts : List (Attempt σ)) : Prop where
  noted : ∃ e, p.settle alloc call u = some e ∧ ∀ {ν : Type} (o : Observer ν) (notes : List ν),
    p.settle alloc (call.observed o) (u.noted notes) =
      some (e.onState (InUse.noted ((attempts.map o.ofAttempt).reverse ++ notes)))
  starts : ∃ rest, attempts = call.attempt u :: rest
  length_of_ceiling_le : p.ceiling ≤ u.buffer.capacity → attempts.length = 1
  length_of_lt_ceiling : 0 < u.buffer.capacity → u.buffer.capacity < p.ceiling →
    attempts.length ≤ Nat.log 2 (p.ceiling / u.buffer.capacity) + 2
  length_of_empty : u.buffer.capacity = 0 → 0 < p.ceiling →
    attempts.length ≤ Nat.log 2 p.ceiling + 3
  raises : attempts.IsChain p.Raises
  cut_once : attempts.countP p.cuts ≤ 1

theorem settle_ends_within_bound (p : SizingPolicy) (alloc : Allocator)
    (hcall : call.NeverShrinks) (u : InUse σ) :
    ∃ attempts, SettlesThrough p alloc call u attempts := by
  obtain ⟨earlier, last, hcourse⟩ := Course.exists_of_neverShrinks p alloc hcall u
  obtain ⟨e, he, -⟩ := hcourse.settle_eq
  have hlength := hcourse.length_le hcall
  refine ⟨earlier ++ [last], ?_⟩
  constructor
  · refine ⟨e, he, ?_⟩
    intro ν o notes
    rw [hcourse.settle_observed o notes, he]
    rfl
  · exact hcourse.exists_cons
  · intro hu
    rw [SizingPolicy.attemptBound_of_le hu] at hlength
    simp only [List.length_append, List.length_singleton]
    omega
  · intro hpos hlt
    have hne : u.buffer.capacity ≠ 0 := by omega
    simpa [SizingPolicy.attemptBound, hne, Nat.not_le.mpr hlt] using hlength
  · intro hzero hpos
    have hne : p.ceiling ≠ 0 := by omega
    simpa [SizingPolicy.attemptBound, hzero, hne] using hlength
  · exact hcourse.isChain_raises
  · exact hcourse.countP_cuts_le hcall

def Call.wanting (n : Nat) : Call Unit := fun u =>
  if n ≤ u.buffer.capacity then ⟨some ⟨.win32 Win32.success, n⟩, u, []⟩
  else ⟨some ⟨.win32 Win32.insufficientBuffer, n⟩, u, []⟩

theorem Call.wanting_neverShrinks (n : Nat) : (wanting n).NeverShrinks := by
  intro u
  unfold wanting
  split <;> exact Nat.le_refl _

theorem settle_ends_within_bound_wanting :
    (Call.wanting 100).NeverShrinks ∧
      ∃ attempts, SettlesThrough {} ⟨fun _ => true⟩ (Call.wanting 100) ⟨.empty, ()⟩ attempts :=
  ⟨Call.wanting_neverShrinks 100,
    settle_ends_within_bound {} ⟨fun _ => true⟩ (Call.wanting_neverShrinks 100) ⟨.empty, ()⟩⟩

end NativeResource
