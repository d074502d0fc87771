import NativeResource.Proofs.Handle.Arena
/-!
Every wrapper closes its raw value once or never. A close is owed by a wrapper that was made to own
a value other than its family's sentinel, from the moment its flag is set; it is then either in the
ledger or about to be made by one thread. Each step keeps that account, so every run does.
-/
namespace NativeResource

variable {σ : Type}

namespace Arena

def calls (l : Ledger) (k : Nat) : Nat := l.countP fun e => e.1 == k

theorem calls_append (l m : Ledger) (k : Nat) : calls (l ++ m) k = calls l k + calls m k :=
  List.countP_append

theorem calls_eq_zero {l : Ledger} {k : Nat} (h : ∀ e ∈ l, e.1 ≠ k) : calls l k = 0 := by
  rw [calls, List.countP_eq_zero]
  intro e he
  simpa using h e he

theorem calls_entry (k : Nat) (h : Handle σ) : calls (h.entry k) k = h.isLive.toNat := by
  unfold Handle.entry
  cases h.isLive <;> simp [calls]

end Arena

open Arena

def Wrapper.owes (w : Wrapper σ) : Bool := w.made.owns && !w.made.isInvalid

structure Sound (k : Nat) (w : Wrapper σ) (l : Ledger) : Prop where
  handle_eq : w.handle = { w.made with released := w.handle.released }
  viewed : w.viewed = true → w.made.owns = false
  own_raw : ∀ raw, (k, raw) ∈ l → raw = w.made.raw
  owed : calls l k + Race.closers w.racers = (w.handle.released && w.owes).toNat
  asked : w.asked = true → w.handle.released = true
  relinquished : w.stage = .relinquished → w.handle.released = false
  idle : w.stage ≠ .held → Race.closers w.racers = 0
  dropped : w.stage = .dropped → w.asked = true

namespace Sound

variable {k j : Nat} {w : Wrapper σ} {l : Ledger}

theorem raw_eq (h : Sound k w l) : w.handle.raw = w.made.raw := by rw [h.handle_eq]

theorem isLive_eq (h : Sound k w l) : w.handle.isLive = (!w.handle.released && w.owes) := by
  have howns : w.handle.owns = w.made.owns := by rw [h.handle_eq]
  have hinvalid : w.handle.isInvalid = w.made.isInvalid := by rw [h.handle_eq]; rfl
  simp only [Handle.isLive, Wrapper.owes, howns, hinvalid, Bool.and_assoc]

theorem handle_eq_markReleased (h : Sound k w l) :
    w.handle.markReleased = { w.made with released := true } := by
  rw [h.handle_eq]
  rfl

/-- Setting the flag makes exactly one close due if the handle was live, and none otherwise. -/
theorem owed_of_live (h : Sound k w l) :
    calls l k + Race.closers w.racers + w.handle.isLive.toNat = w.owes.toNat := by
  have howed := h.owed
  rw [h.isLive_eq]
  cases hr : w.handle.released <;> cases ho : w.owes <;> simp_all

theorem own_raw_append {m : Ledger} (h : Sound k w l)
    (hm : ∀ raw, (k, raw) ∈ m → raw = w.handle.raw) :
    ∀ raw, (k, raw) ∈ l ++ m → raw = w.made.raw := by
  intro raw hraw
  rcases List.mem_append.mp hraw with hold | hnew
  · exact h.own_raw raw hold
  · rw [hm raw hnew, h.raw_eq]

theorem raw_of_mem_entry {raw : RawHandle} (hraw : (k, raw) ∈ w.handle.entry k) :
    raw = w.handle.raw := by
  unfold Handle.entry at hraw
  split at hraw
  · cases List.mem_singleton.mp hraw
    rfl
  · cases hraw

theorem append_other {m : Ledger} (h : Sound k w l) (hm : ∀ e ∈ m, e.1 ≠ k) :
    Sound k w (l ++ m) := by
  refine ⟨h.handle_eq, h.viewed, ?_, ?_, h.asked, h.relinquished, h.idle, h.dropped⟩
  · apply h.own_raw_append
    intro raw hraw
    exact absurd rfl (hm _ hraw)
  · rw [calls_append, calls_eq_zero hm]
    exact h.owed

theorem of_made {made : Handle σ} {viewed : Bool} (hviewed : viewed = true → made.owns = false)
    (hflag : made.released = true → made.owns = false) (hl : ∀ e ∈ l, e.1 ≠ k) :
    Sound k { made, viewed } l := by
  refine ⟨rfl, hviewed, ?_, ?_, nofun, nofun, fun h => absurd rfl h, nofun⟩
  · intro raw hraw
    exact absurd rfl (hl _ hraw)
  · rw [calls_eq_zero hl]
    cases hr : made.released with
    | false => simp [Race.closers]
    | true => simp [Race.closers, Wrapper.owes, hflag hr]

theorem release (h : Sound k w l) (stage : Stage) (hstage : stage ≠ .relinquished)
    (hidle : stage ≠ .held → Race.closers w.racers = 0) :
    Sound k { w with handle := w.handle.markReleased, stage, asked := true }
      (l ++ w.handle.entry k) := by
  refine ⟨h.handle_eq_markReleased, h.viewed, h.own_raw_append fun _ => raw_of_mem_entry, ?_,
    fun _ => rfl, fun hr => absurd hr hstage, hidle, fun _ => rfl⟩
  have howed := h.owed_of_live
  rw [calls_append, calls_entry]
  simp only [Handle.markReleased, Bool.true_and, Wrapper.owes] at howed ⊢
  omega

theorem swap (h : Sound k w l) (hheld : w.stage = .held) (hj : w.racers[j]? = some .waiting) :
    Sound k { w with
      handle := w.handle.markReleased
      racers := w.racers.set j (if w.handle.isLive then .closing else .finished (.ok ()))
      asked := true } l := by
  refine ⟨h.handle_eq_markReleased, h.viewed, h.own_raw, ?_, fun _ => rfl, ?_, ?_,
    fun _ => rfl⟩
  · have howed := h.owed_of_live
    have hclosers : Race.closers
        (w.racers.set j (if w.handle.isLive then .closing else .finished (.ok ()))) =
          Race.closers w.racers + w.handle.isLive.toNat := by
      cases w.handle.isLive with
      | true => exact Race.closers_claim hj
      | false => exact Race.closers_yield hj
    rw [hclosers, ← Nat.add_assoc, howed]
    rfl
  · intro hr
    rw [hheld] at hr
    cases hr
  · intro hr
    exact absurd hheld hr

theorem close (h : Sound k w l) (hheld : w.stage = .held) {result : Except Failure Unit}
    (hj : w.racers[j]? = some .closing) :
    Sound k { w with racers := w.racers.set j (.finished result) }
      (l ++ [(k, w.handle.raw)]) := by
  refine ⟨h.handle_eq, h.viewed, ?_, ?_, h.asked, h.relinquished, fun hr => absurd hheld hr,
    h.dropped⟩
  · apply h.own_raw_append
    intro raw hraw
    cases List.mem_singleton.mp hraw
    rfl
  · have hclosers := Race.closers_close result hj
    have howed := h.owed
    have hone : calls [(k, w.handle.raw)] k = 1 := by simp [calls]
    rw [calls_append, hone]
    simp only [Wrapper.owes] at howed ⊢
    omega

theorem spawn (h : Sound k w l) (hheld : w.stage = .held) :
    Sound k { w with racers := w.racers ++ [.waiting] } l := by
  refine ⟨h.handle_eq, h.viewed, h.own_raw, ?_, h.asked, h.relinquished,
    fun hr => absurd hheld hr, h.dropped⟩
  have hclosers : Race.closers (w.racers ++ [.waiting]) = Race.closers w.racers := by
    simp [Race.closers, Race.isClosing]
  rw [hclosers]
  exact h.owed

theorem relinquish (h : Sound k w l) (hdone : Race.Finished w.racers)
    (hclear : w.handle.released = false) :
    Sound k { w with stage := .relinquished } l :=
  ⟨h.handle_eq, h.viewed, h.own_raw, h.owed, h.asked, fun _ => hclear,
    fun _ => Race.closers_eq_zero hdone, nofun⟩

theorem refuse (h : Sound k w l) (hdone : Race.Finished w.racers)
    (hset : w.handle.released = true) :
    Sound k { w with stage := .dropped, asked := true } l :=
  ⟨h.handle_eq, h.viewed, h.own_raw, h.owed, fun _ => hset, nofun,
    fun _ => Race.closers_eq_zero hdone, fun _ => rfl⟩

end Sound

namespace Arena

structure Invariant (a : Arena σ) : Prop where
  sound : ∀ k w, a.wrappers k = some w → Sound k w a.ledger
  fresh : ∀ k, a.count ≤ k → a.wrappers k = none
  entered : ∀ e ∈ a.ledger, ∃ w, a.wrappers e.1 = some w

theorem initial_invariant (s : σ) : Invariant (initial s) := by
  constructor
  · intro k w hw
    have hnone : (initial s).wrappers k = none := rfl
    rw [hnone] at hw
    cases hw
  · intro k _
    rfl
  · intro e he
    exact absurd he List.not_mem_nil

variable {a b : Arena σ} {i : Nat} {w w' : Wrapper σ}

theorem Invariant.lt_count (h : Invariant a) (hw : a.wrappers i = some w) : i < a.count := by
  apply Nat.lt_of_not_le
  intro hle
  rw [h.fresh i hle] at hw
  cases hw

theorem Invariant.make (h : Invariant a) {made : Handle σ} {viewed : Bool}
    (hviewed : viewed = true → made.owns = false)
    (hflag : made.released = true → made.owns = false) :
    Invariant (a.make { made, viewed }) := by
  refine ⟨?_, ?_, ?_⟩
  · intro k v hv
    by_cases hk : k = a.count
    · subst hk
      simp only [Arena.make, Function.update_self, Option.some.injEq] at hv
      subst hv
      apply Sound.of_made hviewed hflag
      intro e he hnumber
      obtain ⟨v, hv⟩ := h.entered e he
      have := h.lt_count hv
      omega
    · simp only [Arena.make, Function.update_of_ne hk] at hv
      exact h.sound k v hv
  · intro k hk
    have hne : k ≠ a.count := by
      simp only [Arena.make] at hk
      omega
    simp only [Arena.make, Function.update_of_ne hne] at hk ⊢
    exact h.fresh k (Nat.le_of_succ_le hk)
  · intro e he
    obtain ⟨v, hv⟩ := h.entered e he
    have hne : e.1 ≠ a.count := Nat.ne_of_lt (h.lt_count hv)
    exact ⟨v, by simpa only [Arena.make, Function.update_of_ne hne] using hv⟩

theorem Invariant.put (h : Invariant a) (s : σ) (new : Ledger) (hw : a.wrappers i = some w)
    (hnew : ∀ e ∈ new, e.1 = i) (hs : Sound i w' (a.ledger ++ new)) :
    Invariant (a.put i w' s (a.ledger ++ new)) := by
  refine ⟨?_, ?_, ?_⟩
  · intro k v hv
    by_cases hk : k = i
    · subst hk
      simp only [Arena.put, Function.update_self, Option.some.injEq] at hv
      subst hv
      exact hs
    · simp only [Arena.put, Function.update_of_ne hk] at hv
      apply (h.sound k v hv).append_other
      intro e he hnumber
      exact hk (hnumber.symm.trans (hnew e he))
  · intro k hk
    have hlt := h.lt_count hw
    have hne : k ≠ i := by
      simp only [Arena.put] at hk
      omega
    simp only [Arena.put, Function.update_of_ne hne]
    exact h.fresh k hk
  · intro e he
    by_cases hk : e.1 = i
    · exact ⟨w', by simp only [Arena.put, hk, Function.update_self]⟩
    · rcases List.mem_append.mp he with hold | hnew'
      · obtain ⟨v, hv⟩ := h.entered e hold
        exact ⟨v, by simpa only [Arena.put, Function.update_of_ne hk] using hv⟩
      · exact absurd (hnew e hnew') hk

theorem Invariant.put_same (h : Invariant a) (s : σ) (hw : a.wrappers i = some w)
    (hs : Sound i w' a.ledger) : Invariant (a.put i w' s a.ledger) := by
  have hnil := h.put s [] hw nofun (by rwa [List.append_nil])
  rwa [List.append_nil] at hnil

theorem number_of_mem_entry {h : Handle σ} {e : Nat × RawHandle} (he : e ∈ h.entry i) :
    e.1 = i := by
  unfold Handle.entry at he
  split at he
  · cases List.mem_singleton.mp he
    rfl
  · cases he

theorem step_preserves_invariant (h : Invariant a) (hstep : Step a b) : Invariant b := by
  cases hstep with
  | wrap raw family owns => exact h.make nofun nofun
  | view hw _ => exact h.make (fun _ => rfl) (fun _ => rfl)
  | borrow _ _ _ => exact h
  | @release i w result handle s log hw hheld hrelease =>
    have hhandle : handle = w.handle.markReleased := by
      have := Handle.handle_release w.handle a.state
      rwa [hrelease] at this
    subst hhandle
    rw [Handle.release_marked]
    have hstage : w.stage ≠ .relinquished := by
      rw [hheld]
      exact nofun
    exact h.put s _ hw (fun _ => number_of_mem_entry)
      ((h.sound i w hw).release w.stage hstage (fun hr => absurd hheld hr))
  | spawn hw hheld => exact h.put_same _ hw ((h.sound _ _ hw).spawn hheld)
  | @swap i j w r log hw hheld hj hrace =>
    have hr : r = (Race.step j ⟨w.handle, w.racers, a.state⟩).1 := by rw [hrace]
    subst hr
    have hcaller : Race.caller ⟨w.handle, w.racers, a.state⟩ j = [] := Race.caller_of_waiting hj
    rw [Race.step_marked, hcaller, Race.step_of_waiting hj, List.map_nil, List.append_nil]
    exact h.put_same _ hw ((h.sound i w hw).swap hheld hj)
  | @close i j w r log hw hheld hj hrace =>
    have hr : r = (Race.step j ⟨w.handle, w.racers, a.state⟩).1 := by rw [hrace]
    subst hr
    have hcaller : Race.caller ⟨w.handle, w.racers, a.state⟩ j = [j] := Race.caller_of_closing hj
    rw [Race.step_marked, hcaller, Race.step_of_closing hj]
    refine h.put _ _ hw ?_ ((h.sound i w hw).close hheld hj)
    intro e he
    cases List.mem_singleton.mp he
    rfl
  | @drop i w s log hw hheld hdone hdrop =>
    rw [Handle.drop_marked]
    exact h.put s _ hw (fun _ => number_of_mem_entry)
      ((h.sound i w hw).release .dropped nofun (fun _ => Race.closers_eq_zero hdone))
  | @relinquish i w raw s log hw hheld hdone hvalue =>
    have hclear : w.handle.released = false := by
      rw [Handle.relinquish_apply] at hvalue
      cases hr : w.handle.released with
      | false => rfl
      | true => simp [hr] at hvalue
    rw [Handle.relinquish_marked]
    exact h.put_same s hw ((h.sound i w hw).relinquish hdone hclear)
  | @refuse i w f s log hw hheld hdone hvalue =>
    have hset : w.handle.released = true := by
      rw [Handle.relinquish_apply] at hvalue
      cases hr : w.handle.released with
      | false => simp [hr] at hvalue
      | true => rfl
    rw [Handle.relinquish_marked]
    exact h.put_same s hw ((h.sound i w hw).refuse hdone hset)

theorem execution_preserves_invariant (h : Invariant a) (hrun : Execution a b) : Invariant b := by
  induction hrun with
  | refl => exact h
  | tail _ hstep ih => exact step_preserves_invariant ih hstep

/-- How often the close of a wrapper ran, and on what. -/
structure ClosedOnce (k : Nat) (w : Wrapper σ) (l : Ledger) : Prop where
  at_most_once : calls l k ≤ 1
  own_raw : ∀ raw, (k, raw) ∈ l → raw = w.made.raw
  never : w.made.owns = false ∨ w.viewed = true ∨ w.made.isInvalid = true ∨
    w.stage = .relinquished → calls l k = 0
  once : w.made.owns = true → w.made.isInvalid = false →
    w.stage = .dropped ∨
      (w.stage = .held ∧ w.asked = true ∧ Race.closers w.racers = 0) → calls l k = 1

end Arena

theorem Sound.closedOnce {k : Nat} {w : Wrapper σ} {l : Ledger} (h : Sound k w l) :
    ClosedOnce k w l := by
  have howed := h.owed
  refine ⟨?_, h.own_raw, ?_, ?_⟩
  · have := Bool.toNat_le (w.handle.released && w.owes)
    omega
  · intro hexempt
    have hzero : (w.handle.released && w.owes) = false := by
      rcases hexempt with howns | hviewed | hinvalid | hstage
      · simp [Wrapper.owes, howns]
      · simp [Wrapper.owes, h.viewed hviewed]
      · simp [Wrapper.owes, hinvalid]
      · simp [h.relinquished hstage]
    rw [hzero, Bool.toNat_false] at howed
    omega
  · intro howns hvalid hstage
    have hdue : w.asked = true ∧ Race.closers w.racers = 0 := by
      rcases hstage with hdropped | ⟨-, hasked, hidle⟩
      · refine ⟨h.dropped hdropped, h.idle ?_⟩
        rw [hdropped]
        exact nofun
      · exact ⟨hasked, hidle⟩
    have howes : w.owes = true := by simp [Wrapper.owes, howns, hvalid]
    rw [h.asked hdue.1, howes, hdue.2] at howed
    exact howed

/-- Over any run, every wrapper closes its own raw value once or never; and of any number of
threads that release one live handle together, one closes it and alone hears of a failure. -/
theorem close_runs_once_or_never :
    (∀ (s : σ) (a : Arena σ), Execution (initial s) a →
      (∀ k w, a.wrappers k = some w → ClosedOnce k w a.ledger) ∧
      ∀ e ∈ a.ledger, ∃ w, a.wrappers e.1 = some w) ∧
    ∀ (h : Handle σ) (threads : Nat) (schedule : List Nat) (s : σ), h.isLive = true →
      (Race.callers schedule (Race.start h threads s)).length ≤ 1 ∧
      (0 < threads →
        Race.Finished (Race.run schedule (Race.start h threads s)).1.racers →
        ∃ i < threads, Race.callers schedule (Race.start h threads s) = [i] ∧
          (Race.run schedule (Race.start h threads s)).1.state =
            (h.family.close h.raw s).state ∧
          (Race.run schedule (Race.start h threads s)).1.failures =
            match (h.family.close h.raw s).value with
            | .ok _ => 0
            | .error _ => 1) := by
  constructor
  · intro s a hrun
    have hinvariant := execution_preserves_invariant (initial_invariant s) hrun
    exact ⟨fun k w hw => (hinvariant.sound k w hw).closedOnce, hinvariant.entered⟩
  · intro h threads schedule s hlive
    have hstanding : Race.Standing h threads s (Race.start h threads s) [] := .untouched
    have hended := hstanding.run hlive schedule
    rw [List.nil_append] at hended
    refine ⟨hended.length_le, ?_⟩
    intro hthreads hdone
    obtain ⟨i, hi, hcallers, hstate, hfailures⟩ := hended.of_finished hthreads hdone
    refine ⟨i, hi, hcallers, hstate, ?_⟩
    rw [hfailures]
    cases (h.family.close h.raw s).value <;> rfl

def Family.failing : Family Nat where
  name := "Key"
  sentinel := .zero
  close _ := fun s => ⟨.error (.reported (.win32 Win32.invalidHandle)), s + 1, []⟩

theorem close_runs_once_or_never_failing :
    (∃ a, Execution (initial 0) a ∧ calls a.ledger 0 = 1) ∧
      (∃ i < 2, Race.callers [0, 1, 0] (Race.start ⟨5, Family.failing, true, false⟩ 2 0) = [i]) ∧
      (Race.run [0, 1, 0] (Race.start ⟨5, Family.failing, true, false⟩ 2 0)).1.failures = 1 := by
  obtain ⟨hruns, hraces⟩ := close_runs_once_or_never (σ := Nat)
  refine ⟨?_, ?_⟩
  · let w : Wrapper Nat := { made := ⟨5, Family.failing, true, false⟩, viewed := false }
    have hwrap : Execution (initial 0) ((initial 0).make w) :=
      .tail (.refl _) (.wrap _ 5 Family.failing true)
    have hrun := hwrap.tail (.drop _ (i := 0) (w := w) rfl rfl nofun rfl)
    exact ⟨_, hrun, ((hruns 0 _ hrun).1 0 _ rfl).once rfl rfl (.inl rfl)⟩
  · have hracers : (Race.run [0, 1, 0]
        (Race.start ⟨5, Family.failing, true, false⟩ 2 0)).1.racers =
          [.finished (.error (.reported (.win32 Win32.invalidHandle))), .finished (.ok ())] := rfl
    have hdone : Race.Finished (Race.run [0, 1, 0]
        (Race.start ⟨5, Family.failing, true, false⟩ 2 0)).1.racers := by
      rw [hracers]
      simp [Race.Finished]
    obtain ⟨-, hrace⟩ := hraces ⟨5, Family.failing, true, false⟩ 2 [0, 1, 0] 0 rfl
    obtain ⟨i, hi, hcallers, -, hfailures⟩ := hrace (by decide) hdone
    exact ⟨⟨i, hi, hcallers⟩, hfailures⟩

end NativeResource
