import NativeResource.Handle.Race
/-!
Threads that release one live handle at once. Whatever the order of their steps, one thread finds
the flag clear and is the only one to close the raw value; once all are done, a failed close has
been reported to that thread and to no other.
-/
namespace NativeResource

variable {σ : Type}

namespace Race

def isClosing : Racer → Bool
  | .closing => true
  | _ => false

def closers (racers : List Racer) : Nat := racers.countP isClosing

def Finished (racers : List Racer) : Prop := ∀ r ∈ racers, ∃ result, r = .finished result

def caller (r : Race σ) (i : Nat) : List Nat :=
  match r.racers[i]? with
  | some .closing => [i]
  | _ => []

/-- The threads that close the raw value when they run in the given order of steps. -/
def callers : List Nat → Race σ → List Nat
  | [], _ => []
  | i :: rest, r => r.caller i ++ callers rest (r.step i).1

variable {r : Race σ} {racers : List Racer} {i : Nat} {result : Except Failure Unit}

theorem step_of_waiting (hi : r.racers[i]? = some .waiting) :
    (r.step i).1 =
      { r with
        handle := r.handle.markReleased
        racers := r.racers.set i (if r.handle.isLive then .closing else .finished (.ok ())) } := by
  simp only [step, hi]
  split <;> rfl

theorem step_of_closing (hi : r.racers[i]? = some .closing) :
    (r.step i).1 =
      { r with
        racers := r.racers.set i (.finished (r.handle.family.close r.handle.raw r.state).value)
        state := (r.handle.family.close r.handle.raw r.state).state } := by
  simp only [step, hi]

theorem caller_of_waiting (hi : r.racers[i]? = some .waiting) : r.caller i = [] := by
  simp only [caller, hi]

theorem caller_of_closing (hi : r.racers[i]? = some .closing) : r.caller i = [i] := by
  simp only [caller, hi]

theorem step_of_done (r : Race σ)
    (hi : r.racers[i]? = none ∨ ∃ result, r.racers[i]? = some (.finished result)) :
    (r.step i).1 = r ∧ r.caller i = [] := by
  rcases hi with hi | ⟨result, hi⟩ <;> simp only [step, caller, hi, and_self]

theorem done_or (racers : List Racer) (i : Nat) :
    racers[i]? = some .waiting ∨ racers[i]? = some .closing ∨
      (racers[i]? = none ∨ ∃ result, racers[i]? = some (.finished result)) := by
  cases racers[i]? with
  | none => exact .inr (.inr (.inl rfl))
  | some racer =>
    cases racer with
    | waiting => exact .inl rfl
    | closing => exact .inr (.inl rfl)
    | finished result => exact .inr (.inr (.inr ⟨result, rfl⟩))

theorem countP_set_add {x : Racer} (f : Racer → Bool) (y : Racer) (hi : racers[i]? = some x) :
    (racers.set i y).countP f + (f x).toNat = racers.countP f + (f y).toNat := by
  obtain ⟨hlt, rfl⟩ := List.getElem?_eq_some_iff.mp hi
  have hset := List.countP_set (p := f) (a := y) hlt
  have hpos : f racers[i] = true → 0 < racers.countP f := by
    intro hx
    exact List.countP_pos_iff.mpr ⟨_, List.getElem_mem hlt, hx⟩
  rw [hset]
  cases hx : f racers[i] with
  | true =>
    have := hpos hx
    cases f y <;>
      simp only [if_true, Bool.false_eq_true, if_false, Bool.toNat_true, Bool.toNat_false] <;> omega
  | false => cases f y <;> rfl

theorem closers_claim (hi : racers[i]? = some .waiting) :
    closers (racers.set i .closing) = closers racers + 1 := by
  have := countP_set_add isClosing .closing hi
  simpa [closers, isClosing] using this

theorem closers_yield (hi : racers[i]? = some .waiting) :
    closers (racers.set i (.finished result)) = closers racers := by
  have := countP_set_add isClosing (.finished result) hi
  simpa [closers, isClosing] using this

theorem closers_close (result : Except Failure Unit) (hi : racers[i]? = some .closing) :
    closers (racers.set i (.finished result)) + 1 = closers racers := by
  have := countP_set_add isClosing (.finished result) hi
  simpa [closers, isClosing] using this

theorem failed_claim (hi : racers[i]? = some .waiting) :
    (racers.set i .closing).countP isFailed = racers.countP isFailed := by
  have := countP_set_add isFailed .closing hi
  simpa [isFailed] using this

theorem failed_yield (hi : racers[i]? = some .waiting) :
    (racers.set i (.finished (.ok ()))).countP isFailed = racers.countP isFailed := by
  have := countP_set_add isFailed (.finished (.ok ())) hi
  simpa [isFailed] using this

theorem failed_close (hi : racers[i]? = some .closing) :
    (racers.set i (.finished result)).countP isFailed =
      racers.countP isFailed + (isFailed (.finished result)).toNat := by
  have := countP_set_add isFailed (.finished result) hi
  simpa [isFailed] using this

theorem closers_pos (hi : racers[i]? = some .closing) : 0 < closers racers :=
  List.countP_pos_iff.mpr ⟨.closing, List.mem_of_getElem? hi, rfl⟩

theorem closers_eq_zero (h : Finished racers) : closers racers = 0 := by
  rw [closers, List.countP_eq_zero]
  intro x hx
  obtain ⟨result, rfl⟩ := h x hx
  exact nofun

/-- How a race stands: the flag is clear, or one thread is about to close, or one thread has. -/
inductive Standing (h : Handle σ) (threads : Nat) (s : σ) : Race σ → List Nat → Prop where
  | untouched : Standing h threads s (start h threads s) []
  | pending {racers : List Racer} : racers.length = threads → closers racers = 1 →
      racers.countP isFailed = 0 → Standing h threads s ⟨h.markReleased, racers, s⟩ []
  | closed {racers : List Racer} {i : Nat} : racers.length = threads → closers racers = 0 →
      racers.countP isFailed =
        (isFailed (.finished (h.family.close h.raw s).value)).toNat → i < threads →
      Standing h threads s ⟨h.markReleased, racers, (h.family.close h.raw s).state⟩ [i]

variable {h : Handle σ} {threads : Nat} {s : σ} {called : List Nat}

theorem isLive_markReleased (h : Handle σ) : h.markReleased.isLive = false := rfl

theorem closers_replicate (threads : Nat) : closers (List.replicate threads .waiting) = 0 := by
  simp [closers, List.countP_replicate, isClosing]

theorem failed_replicate (threads : Nat) :
    (List.replicate threads Racer.waiting).countP isFailed = 0 := by
  simp [List.countP_replicate, isFailed]

theorem Standing.step_untouched (hlive : h.isLive = true) (j : Nat) :
    Standing h threads s ((start h threads s).step j).1 ((start h threads s).caller j) := by
  rcases done_or (start h threads s).racers j with hj | hj | hj
  · rw [step_of_waiting hj, caller_of_waiting hj]
    simp only [start, hlive, if_true] at hj ⊢
    refine .pending (by simp) ?_ ?_
    · rw [closers_claim hj, closers_replicate]
    · rw [failed_claim hj, failed_replicate]
  · have hpos := closers_pos hj
    simp only [start, closers_replicate] at hpos
    omega
  · obtain ⟨hsame, hcaller⟩ := step_of_done _ hj
    rw [hsame, hcaller]
    exact .untouched

theorem Standing.step_pending {racers : List Racer} (hlength : racers.length = threads)
    (hclosers : closers racers = 1) (hfailed : racers.countP isFailed = 0) (j : Nat) :
    Standing h threads s (Race.step j ⟨h.markReleased, racers, s⟩).1
      (Race.caller ⟨h.markReleased, racers, s⟩ j) := by
  rcases done_or racers j with hj | hj | hj
  · rw [step_of_waiting hj, caller_of_waiting hj]
    simp only [isLive_markReleased, Bool.false_eq_true, if_false]
    refine .pending (by simpa using hlength) ?_ ?_
    · rw [closers_yield hj, hclosers]
    · rw [failed_yield hj, hfailed]
  · rw [step_of_closing hj, caller_of_closing hj]
    have hlt := (List.getElem?_eq_some_iff.mp hj).1
    refine .closed (by simpa using hlength) ?_ ?_ (hlength ▸ hlt)
    · have := closers_close (h.family.close h.raw s).value hj
      simp only [hclosers] at this
      exact Nat.succ.inj this
    · rw [failed_close hj, hfailed, Nat.zero_add]
      rfl
  · obtain ⟨hsame, hcaller⟩ := step_of_done ⟨h.markReleased, racers, s⟩ hj
    rw [hsame, hcaller]
    exact .pending hlength hclosers hfailed

theorem Standing.step_closed {racers : List Racer} (hlength : racers.length = threads)
    (hclosers : closers racers = 0)
    (hfailed : racers.countP isFailed =
      (isFailed (.finished (h.family.close h.raw s).value)).toNat) (hi : i < threads) (j : Nat) :
    Standing h threads s (Race.step j ⟨h.markReleased, racers, (h.family.close h.raw s).state⟩).1
      (i :: Race.caller ⟨h.markReleased, racers, (h.family.close h.raw s).state⟩ j) := by
  rcases done_or racers j with hj | hj | hj
  · rw [step_of_waiting hj, caller_of_waiting hj]
    simp only [isLive_markReleased, Bool.false_eq_true, if_false]
    refine .closed (by simpa using hlength) ?_ ?_ hi
    · rw [closers_yield hj, hclosers]
    · rw [failed_yield hj, hfailed]
  · have hpos := closers_pos hj
    omega
  · obtain ⟨hsame, hcaller⟩ := step_of_done ⟨h.markReleased, racers, _⟩ hj
    rw [hsame, hcaller]
    exact .closed hlength hclosers hfailed hi

theorem Standing.step (hlive : h.isLive = true) (hs : Standing h threads s r called) (j : Nat) :
    Standing h threads s (r.step j).1 (called ++ r.caller j) := by
  cases hs with
  | untouched => exact step_untouched hlive j
  | pending hlength hclosers hfailed => exact step_pending hlength hclosers hfailed j
  | closed hlength hclosers hfailed hi => exact step_closed hlength hclosers hfailed hi j

theorem Standing.run (hlive : h.isLive = true) (schedule : List Nat)
    (hs : Standing h threads s r called) :
    Standing h threads s (r.run schedule).1 (called ++ callers schedule r) := by
  induction schedule generalizing r called with
  | nil => simpa [Race.run, callers] using hs
  | cons j rest ih =>
    rw [callers, ← List.append_assoc]
    exact ih (hs.step hlive j)

theorem Standing.length_le (hs : Standing h threads s r called) : called.length ≤ 1 := by
  cases hs with
  | untouched | pending => exact Nat.zero_le 1
  | closed => exact Nat.le_refl 1

theorem Standing.of_finished (hs : Standing h threads s r called) (hthreads : 0 < threads)
    (hdone : Finished r.racers) :
    ∃ i < threads, called = [i] ∧ r.state = (h.family.close h.raw s).state ∧
      r.failures = (isFailed (.finished (h.family.close h.raw s).value)).toNat := by
  cases hs with
  | untouched =>
    have hmem : Racer.waiting ∈ (start h threads s).racers :=
      List.mem_replicate.mpr ⟨Nat.ne_of_gt hthreads, rfl⟩
    obtain ⟨result, hresult⟩ := hdone _ hmem
    cases hresult
  | pending _ hclosers _ =>
    rw [closers_eq_zero hdone] at hclosers
    cases hclosers
  | closed _ _ hfailed hi => exact ⟨_, hi, rfl, rfl, hfailed⟩

end Race

end NativeResource
