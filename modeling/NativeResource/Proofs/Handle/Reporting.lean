import Mathlib.Data.List.Basic
import NativeResource.Proofs.Broker.Conduct
import NativeResource.Proofs.Handle.Closing
/-!
Who hears of a close that fails. Wrappers are made, viewed, borrowed, released, dropped and given
up in any order; each turn shows what was returned, what was reported and which closes it made. A
failed close is returned by the release that made it or reported by the drop that made it, never
both; and a wrapper that was released has nothing left to close, even if that close failed.
-/
namespace NativeResource

variable {σ : Type}

/-- One call that closes a raw value, with what it returned and what it reported itself. -/
structure CloseCall where
  family : String
  raw : RawHandle
  result : Except Failure Unit
  log : List Event

namespace CloseCall

def failure? (c : CloseCall) : Option Failure :=
  match c.result with
  | .ok () => none
  | .error f => some f

/-- What is reported of a call beside what it reports itself, if nobody waits for its result. -/
def complaint (c : CloseCall) : List Event :=
  match c.result with
  | .ok () => []
  | .error f => [.dropFailed c.family f]

end CloseCall

def Family.recorded (f : Family σ) : Family (σ × List CloseCall) where
  name := f.name
  sentinel := f.sentinel
  close raw := fun s =>
    let e := f.close raw s.1
    ⟨e.value, (e.state, s.2 ++ [⟨f.name, raw, e.value, e.log⟩]), e.log⟩

namespace Handle

def recorded (h : Handle σ) : Handle (σ × List CloseCall) :=
  ⟨h.raw, h.family.recorded, h.owns, h.released⟩

def closeCall (h : Handle σ) (s : σ) : CloseCall :=
  let e := h.family.close h.raw s
  ⟨h.family.name, h.raw, e.value, e.log⟩

theorem not_live_of_released {h : Handle σ} (hr : h.released = true) : h.isLive = false := by
  rw [isLive, hr]
  rfl

theorem closes_release (h : Handle σ) (s : σ) :
    (h.recorded.release (s, [])).state.2 = if h.isLive then [h.closeCall s] else [] := by
  let note (raw : RawHandle) (e : Effect σ (Except Failure Unit)) : CloseCall :=
    ⟨h.family.name, raw, e.value, e.log⟩
  rw [show h.recorded = h.noting note from rfl, release_noting]
  rfl

theorem closes_drop (h : Handle σ) (s : σ) :
    (h.recorded.drop (s, [])).state.2 = if h.isLive then [h.closeCall s] else [] := by
  rw [state_drop, closes_release]

theorem closes_relinquish (h : Handle σ) (s : σ) :
    (h.recorded.relinquish (s, [])).state.2 = [] := by
  rw [relinquish_apply]

theorem released_of_release {h h' : Handle σ} {result : Except Failure Unit} {s s' : σ}
    {log : List Event} (hrelease : h.release s = ⟨(result, h'), s', log⟩) :
    h'.released = true := by
  have hhandle := handle_release h s
  rw [hrelease] at hhandle
  rw [show h' = _ from hhandle]
  rfl

theorem drop_of_live {h : Handle σ} (hlive : h.isLive = true) (s : σ) :
    h.drop s = ⟨(), (h.family.close h.raw s).state,
      .releasing h.family.name h.raw :: (h.closeCall s).log ++ (h.closeCall s).complaint⟩ := by
  rw [drop, Action.bind_apply, release_of_live hlive, CloseCall.complaint, closeCall]
  cases (h.family.close h.raw s).value <;> rfl

theorem drop_of_not_live {h : Handle σ} (hlive : h.isLive = false) (s : σ) :
    h.drop s = ⟨(), s, []⟩ := by
  rw [drop, Action.bind_apply, release_of_not_live hlive]
  rfl

end Handle

/-- What was done with a wrapper, and what came back. Of a view it is seen whether it starts out
released. -/
inductive Act where
  | wrapped
  | viewed (late : Bool)
  | borrowed (result : Except Failure RawHandle)
  | released (result : Except Failure Unit)
  | dropped
  | relinquished (result : Except Failure RawHandle)

def Act.Inert : Act → Prop
  | wrapped => False
  | viewed late => late = true
  | released result => result = .ok ()
  | dropped => True
  | borrowed result | relinquished result => ∃ f, result = .error f ∧ f.kind = .invalidHandle

structure Turn where
  /-- The number of the wrapper, in the order in which they were made. -/
  wrapper : Nat
  act : Act
  closes : List CloseCall
  log : List Event

/-- The wrappers made so far. One that was dropped or given up leaves its place empty. -/
structure Roster (σ : Type) where
  places : List (Option (Handle σ))
  state : σ

namespace Roster

def initial (s : σ) : Roster σ := ⟨[], s⟩

def make (r : Roster σ) (h : Handle σ) : Roster σ := { r with places := r.places ++ [some h] }

def put (r : Roster σ) (i : Nat) (place : Option (Handle σ)) (s : σ) : Roster σ :=
  ⟨r.places.set i place, s⟩

def Holds (r : Roster σ) (i : Nat) (h : Handle σ) : Prop := r.places[i]? = some (some h)

inductive Step : Roster σ → Turn → Roster σ → Prop where
  | wrap (r : Roster σ) (raw : RawHandle) (family : Family σ) (owns : Bool) :
      Step r ⟨r.places.length, .wrapped, [], []⟩ (r.make { raw, family, owns })
  | view (r : Roster σ) {i : Nat} {h : Handle σ} :
      r.Holds i h → Step r ⟨i, .viewed h.view.released, [], []⟩ (r.make h.view)
  | borrow (r : Roster σ) {i : Nat} {h : Handle σ} {result : Except Failure RawHandle} :
      r.Holds i h → h.borrow = result → Step r ⟨i, .borrowed result, [], []⟩ r
  | release (r : Roster σ) {i : Nat} {h released : Handle σ} {result : Except Failure Unit}
      {s : σ} {log : List Event} :
      r.Holds i h → h.release r.state = ⟨(result, released), s, log⟩ →
      Step r ⟨i, .released result, (h.recorded.release (r.state, [])).state.2, log⟩
        (r.put i (some released) s)
  | drop (r : Roster σ) {i : Nat} {h : Handle σ} {s : σ} {log : List Event} :
      r.Holds i h → h.drop r.state = ⟨(), s, log⟩ →
      Step r ⟨i, .dropped, (h.recorded.drop (r.state, [])).state.2, log⟩ (r.put i none s)
  | relinquish (r : Roster σ) {i : Nat} {h : Handle σ} {result : Except Failure RawHandle}
      {s : σ} {log : List Event} :
      r.Holds i h → h.relinquish r.state = ⟨result, s, log⟩ →
      Step r ⟨i, .relinquished result, (h.recorded.relinquish (r.state, [])).state.2, log⟩
        (r.put i none s)

inductive Execution : Roster σ → List Turn → Roster σ → Prop where
  | nil (r : Roster σ) : Execution r [] r
  | cons {a b c : Roster σ} {t : Turn} {turns : List Turn} :
      Step a t b → Execution b turns c → Execution a (t :: turns) c

theorem Execution.of_append {a c : Roster σ} {before after : List Turn}
    (hrun : Execution a (before ++ after) c) :
    ∃ b, Execution a before b ∧ Execution b after c := by
  induction before generalizing a with
  | nil => exact ⟨a, .nil a, hrun⟩
  | cons t before ih =>
    cases hrun with
    | cons hstep hrest =>
      obtain ⟨b, hbefore, hafter⟩ := ih hrest
      exact ⟨b, .cons hstep hbefore, hafter⟩

end Roster

namespace Turn

/-- What a turn may show. It makes one close at most, and announces it first. A release returns
the result of its close; a drop reports it if it is a failure. -/
inductive Accounted : Turn → Prop where
  | idle (i : Nat) {act : Act} (hreturned : ∀ result, act = .released result → result = .ok ()) :
      Accounted ⟨i, act, [], []⟩
  | released (i : Nat) (c : CloseCall) :
      Accounted ⟨i, .released c.result, [c], .releasing c.family c.raw :: c.log⟩
  | dropped (i : Nat) (c : CloseCall) :
      Accounted ⟨i, .dropped, [c], .releasing c.family c.raw :: c.log ++ c.complaint⟩

structure Inert (t : Turn) : Prop where
  closes : t.closes = []
  log : t.log = []
  act : t.act.Inert

def returned? (t : Turn) : Option Failure :=
  match t.act with
  | .released (.error f) => some f
  | _ => none

end Turn

def Event.announces (family : String) (raw : RawHandle) : Event → Bool
  | .releasing named closed => named = family ∧ closed = raw
  | _ => false

def Event.complains (f : Failure) : Event → Bool
  | .dropFailed _ g => g = f
  | _ => false

/-- The closes of some turns against what the turns reported, beside what the closes reported
themselves: each was announced, and each failure was either returned or complained of. -/
structure Balanced (turns : List Turn) : Prop where
  announced : ∀ family raw,
    (turns.flatMap Turn.closes).countP (fun c => c.family = family ∧ c.raw = raw) +
        ((turns.flatMap Turn.closes).flatMap CloseCall.log).countP (Event.announces family raw) =
      (turns.flatMap Turn.log).countP (Event.announces family raw)
  heard : ∀ f,
    (turns.flatMap Turn.closes).countP (fun c => c.failure? = some f) +
        ((turns.flatMap Turn.closes).flatMap CloseCall.log).countP (Event.complains f) =
      turns.countP (fun t => t.returned? = some f) +
        (turns.flatMap Turn.log).countP (Event.complains f)

namespace CloseCall

theorem returned?_eq (c : CloseCall) (i : Nat) (closes : List CloseCall) (log : List Event) :
    (⟨i, .released c.result, closes, log⟩ : Turn).returned? = c.failure? := by
  obtain ⟨family, raw, result, own⟩ := c
  cases result <;> rfl

theorem announces_complaint (c : CloseCall) (family : String) (raw : RawHandle) :
    c.complaint.countP (Event.announces family raw) = 0 := by
  obtain ⟨named, closed, result, own⟩ := c
  cases result <;> rfl

theorem complains_complaint (c : CloseCall) (f : Failure) :
    c.complaint.countP (Event.complains f) = if c.failure? = some f then 1 else 0 := by
  obtain ⟨named, closed, result, own⟩ := c
  cases result with
  | ok u => rfl
  | error g => simp [complaint, failure?, Event.complains]

end CloseCall

theorem Turn.Accounted.balanced {t : Turn} (h : t.Accounted) : Balanced [t] := by
  cases h with
  | @idle i act hreturned =>
    refine ⟨fun family raw => rfl, fun f => ?_⟩
    have hnone : (⟨i, act, [], []⟩ : Turn).returned? = none := by
      cases act with
      | released result =>
        cases hreturned result rfl
        rfl
      | _ => rfl
    simp [hnone]
  | released i c =>
    constructor
    · intro family raw
      simp [List.countP_cons, Event.announces, Nat.add_comm]
    · intro f
      simp [List.countP_cons, Event.complains, c.returned?_eq]
  | dropped i c =>
    constructor
    · intro family raw
      simp [List.countP_cons, Event.announces, c.announces_complaint, Nat.add_comm]
    · intro f
      simp [List.countP_cons, Event.complains, c.complains_complaint, Turn.returned?, Nat.add_comm]

theorem Balanced.cons {t : Turn} {turns : List Turn} (h : Balanced [t]) (hrest : Balanced turns) :
    Balanced (t :: turns) := by
  constructor
  · intro family raw
    have hfirst := h.announced family raw
    have hlast := hrest.announced family raw
    simp only [List.flatMap_cons, List.flatMap_nil, List.append_nil, List.flatMap_append,
      List.countP_append] at hfirst ⊢
    omega
  · intro f
    have hfirst := h.heard f
    have hlast := hrest.heard f
    simp only [List.flatMap_cons, List.flatMap_nil, List.append_nil, List.flatMap_append,
      List.countP_append, List.countP_cons, List.countP_nil] at hfirst ⊢
    omega

theorem balanced_of_accounted {turns : List Turn} (h : ∀ t ∈ turns, t.Accounted) :
    Balanced turns := by
  induction turns with
  | nil => exact ⟨fun _ _ => rfl, fun _ => rfl⟩
  | cons t turns ih =>
    obtain ⟨ht, hturns⟩ := List.forall_mem_cons.mp h
    exact ht.balanced.cons (ih hturns)

namespace Roster

variable {r r' : Roster σ} {t : Turn} {turns : List Turn} {i : Nat}

theorem step_accounted (hstep : Step r t r') : t.Accounted := by
  cases hstep with
  | wrap | view | borrow => exact .idle _ nofun
  | @release i h released result s log _ hrelease =>
    rw [Handle.closes_release]
    cases hlive : h.isLive with
    | true =>
      rw [Handle.release_of_live hlive] at hrelease
      cases hrelease
      exact .released i (h.closeCall r.state)
    | false =>
      rw [Handle.release_of_not_live hlive] at hrelease
      cases hrelease
      refine .idle i fun result hresult => ?_
      cases hresult
      rfl
  | @drop i h s log _ hdrop =>
    rw [Handle.closes_drop]
    cases hlive : h.isLive with
    | true =>
      rw [Handle.drop_of_live hlive] at hdrop
      cases hdrop
      exact .dropped i (h.closeCall r.state)
    | false =>
      rw [Handle.drop_of_not_live hlive] at hdrop
      cases hdrop
      exact .idle i nofun
  | @relinquish i h result s log _ hrelinquish =>
    rw [Handle.closes_relinquish]
    rw [Handle.relinquish_apply] at hrelinquish
    cases hrelinquish
    exact .idle i nofun

theorem execution_accounted (hrun : Execution r turns r') : ∀ t ∈ turns, t.Accounted := by
  induction hrun with
  | nil => exact nofun
  | cons hstep _ ih => exact List.forall_mem_cons.mpr ⟨step_accounted hstep, ih⟩

/-- The place of a wrapper that was released: it is empty or its handle says so. -/
structure Spent (r : Roster σ) (i : Nat) : Prop where
  made : i < r.places.length
  released : ∀ h, r.Holds i h → h.released = true

theorem Holds.lt {h : Handle σ} (hi : r.Holds i h) : i < r.places.length :=
  (List.getElem?_eq_some_iff.mp hi).1

theorem holds_make (hi : i < r.places.length) (made h : Handle σ) :
    (r.make made).Holds i h ↔ r.Holds i h := by
  rw [Holds, make, List.getElem?_append_left hi, Holds]

theorem Spent.make (hspent : r.Spent i) (made : Handle σ) : (r.make made).Spent i := by
  refine ⟨?_, fun h hi => hspent.released h ((holds_make hspent.made made h).mp hi)⟩
  rw [Roster.make, List.length_append]
  exact Nat.lt_add_right _ hspent.made

theorem spent_put (hi : i < r.places.length) {place : Option (Handle σ)} {s : σ}
    (hplace : ∀ h, place = some h → h.released = true) : (r.put i place s).Spent i := by
  refine ⟨by rwa [put, List.length_set], fun h hh => hplace h ?_⟩
  rw [Holds, put, List.getElem?_set_self hi] at hh
  exact Option.some.inj hh

theorem Spent.put (hspent : r.Spent i) (j : Nat) {place : Option (Handle σ)} {s : σ}
    (hplace : j = i → ∀ h, place = some h → h.released = true) : (r.put j place s).Spent i := by
  by_cases hj : j = i
  · subst hj
    exact spent_put hspent.made (hplace rfl)
  · refine ⟨by rw [Roster.put, List.length_set]; exact hspent.made, fun h hh => ?_⟩
    rw [Holds, Roster.put, List.getElem?_set_ne hj] at hh
    exact hspent.released h hh

theorem step_spent (hspent : r.Spent i) (hstep : Step r t r') :
    r'.Spent i ∧ (t.wrapper = i → t.Inert) := by
  cases hstep with
  | wrap raw family owns =>
    refine ⟨hspent.make _, fun hi => ?_⟩
    have hlt := hspent.made
    rw [← hi] at hlt
    exact absurd hlt (Nat.lt_irrefl _)
  | @view j h hj =>
    refine ⟨hspent.make _, fun hi => ⟨rfl, rfl, ?_⟩⟩
    subst hi
    exact hspent.released h hj
  | @borrow j h result hj hborrow =>
    refine ⟨hspent, fun hi => ⟨rfl, rfl, ?_⟩⟩
    subst hi hborrow
    exact Handle.borrow_of_released (hspent.released h hj)
  | @release j h released result s log hj hrelease =>
    refine ⟨hspent.put j fun _ h' hh' => ?_, fun hi => ?_⟩
    · cases hh'
      exact Handle.released_of_release hrelease
    · subst hi
      have hlive := Handle.not_live_of_released (hspent.released h hj)
      rw [Handle.release_of_not_live hlive] at hrelease
      cases hrelease
      refine ⟨?_, rfl, rfl⟩
      rw [Handle.closes_release, hlive]
      rfl
  | @drop j h s log hj hdrop =>
    refine ⟨hspent.put j fun _ => nofun, fun hi => ?_⟩
    subst hi
    have hlive := Handle.not_live_of_released (hspent.released h hj)
    rw [Handle.drop_of_not_live hlive] at hdrop
    cases hdrop
    refine ⟨?_, rfl, trivial⟩
    rw [Handle.closes_drop, hlive]
    rfl
  | @relinquish j h result s log hj hrelinquish =>
    refine ⟨hspent.put j fun _ => nofun, fun hi => ?_⟩
    subst hi
    rw [Handle.relinquish_apply, hspent.released h hj] at hrelinquish
    cases hrelinquish
    exact ⟨Handle.closes_relinquish h r.state, rfl, _, rfl, rfl⟩

theorem execution_spent (hspent : r.Spent i) (hrun : Execution r turns r') :
    ∀ t ∈ turns, t.wrapper = i → t.Inert := by
  induction hrun with
  | nil => exact nofun
  | cons hstep _ ih =>
    obtain ⟨hkept, hinert⟩ := step_spent hspent hstep
    exact List.forall_mem_cons.mpr ⟨hinert, ih hkept⟩

/-- Whatever its close returned, a wrapper is released by its release. -/
theorem spent_of_released {result : Except Failure Unit} (hact : t.act = .released result)
    (hstep : Step r t r') : r'.Spent t.wrapper := by
  cases hstep with
  | @release i h released result s log hi hrelease =>
    refine spent_put hi.lt fun h' hh' => ?_
    cases hh'
    exact Handle.released_of_release hrelease
  | wrap | view | borrow | drop | relinquish => cases hact

/-- Over any run, each close is announced by one event and made by a release, which returns its
result, or by a drop, which reports it if it failed. Nothing comes of a wrapper after its release,
also if that failed. So the failed closes are those that a release returned and those that a drop
reported, each of them once. -/
theorem failures_reported_once {s : σ} (hrun : Execution (initial s) turns r) :
    (∀ t ∈ turns, t.Accounted) ∧
      (∀ before t after result, turns = before ++ t :: after → t.act = .released result →
        ∀ later ∈ after, later.wrapper = t.wrapper → later.Inert) ∧
      Balanced turns := by
  have haccounted := execution_accounted hrun
  refine ⟨haccounted, ?_, balanced_of_accounted haccounted⟩
  rintro before t after result rfl hact
  obtain ⟨b, -, hrest⟩ := hrun.of_append
  cases hrest with
  | cons hstep hafter => exact execution_spent (spent_of_released hact hstep) hafter

/-- Of two wrappers whose closes fail, one is released and then dropped, the other one dropped. -/
theorem failures_reported_once_failing :
    let failure : Failure := .reported (.win32 Win32.invalidHandle)
    let closed (raw : RawHandle) : CloseCall := ⟨"Key", raw, .error failure, []⟩
    let turns : List Turn := [⟨0, .wrapped, [], []⟩,
      ⟨0, .released (.error failure), [closed 5], [.releasing "Key" 5]⟩, ⟨0, .dropped, [], []⟩,
      ⟨1, .wrapped, [], []⟩,
      ⟨1, .dropped, [closed 6], [.releasing "Key" 6, .dropFailed "Key" failure]⟩]
    (∃ r, Execution (initial (0 : Nat)) turns r) ∧ (⟨0, .dropped, [], []⟩ : Turn).Inert ∧
      Balanced turns := by
  intro failure closed turns
  let first : Handle Nat := ⟨5, Family.failing, true, false⟩
  let second : Handle Nat := ⟨6, Family.failing, true, false⟩
  have hrun : Execution (initial 0) turns ⟨[none, none], 2⟩ :=
    .cons (.wrap _ 5 Family.failing true) <|
      .cons (.release _ (i := 0) (h := first) rfl rfl) <|
        .cons (.drop _ (i := 0) (h := first.markReleased) rfl rfl) <|
          .cons (.wrap _ 6 Family.failing true) <|
            .cons (.drop _ (i := 1) (h := second) rfl rfl) (.nil _)
  obtain ⟨-, hinert, hbalanced⟩ := failures_reported_once hrun
  exact ⟨⟨_, hrun⟩, hinert [⟨0, .wrapped, [], []⟩] _ _ _ rfl rfl _ List.mem_cons_self rfl,
    hbalanced⟩

/-- What is reported of a failure that nobody waited for. -/
example (family : String) (f : Failure) : (Event.dropFailed family f).level = "WARN" ∧
    (Event.dropFailed family f).message = "release failed during drop" ∧
    (Event.dropFailed family f).fields = [("family", family), ("error", f.text)] :=
  ⟨rfl, rfl, rfl⟩

end Roster

end NativeResource
