import Mathlib.Logic.Function.Basic
import NativeResource.Proofs.Handle.Race
/-!
Any number of wrappers, in any order of calls on them. A wrapper is a handle with the threads that
are releasing it. What closes is kept in a ledger beside the state: which wrapper's close ran, on
which raw value. Only the holder of a wrapper can drop it or give it up, so no thread is then still
at work on it.
-/
namespace NativeResource

variable {σ ν : Type}

/-- The family with a note of each call of its close kept beside the state. -/
def Family.noting (note : RawHandle → Effect σ (Except Failure Unit) → ν) (f : Family σ) :
    Family (σ × List ν) where
  name := f.name
  sentinel := f.sentinel
  close raw := fun s =>
    let e := f.close raw s.1
    ⟨e.value, (e.state, s.2 ++ [note raw e]), e.log⟩

def Handle.noting (note : RawHandle → Effect σ (Except Failure Unit) → ν) (h : Handle σ) :
    Handle (σ × List ν) :=
  ⟨h.raw, h.family.noting note, h.owns, h.released⟩

abbrev Ledger := List (Nat × RawHandle)

/-- The family with its closes entered in a ledger under a number. -/
def Family.marked (k : Nat) (f : Family σ) : Family (σ × Ledger) where
  name := f.name
  sentinel := f.sentinel
  close raw := fun s =>
    let e := f.close raw s.1
    ⟨e.value, (e.state, s.2 ++ [(k, raw)]), e.log⟩

def Handle.marked (k : Nat) (h : Handle σ) : Handle (σ × Ledger) :=
  ⟨h.raw, h.family.marked k, h.owns, h.released⟩

inductive Stage where
  | held
  | dropped
  | relinquished
  deriving DecidableEq

structure Wrapper (σ : Type) where
  /-- The handle as it was made. -/
  made : Handle σ
  viewed : Bool
  handle : Handle σ := made
  racers : List Racer := []
  stage : Stage := .held
  /-- Whether a release has begun, or the wrapper was dropped. -/
  asked : Bool := false

structure Arena (σ : Type) where
  wrappers : Nat → Option (Wrapper σ)
  count : Nat
  ledger : Ledger
  state : σ

namespace Arena

def initial (s : σ) : Arena σ := ⟨fun _ => none, 0, [], s⟩

def make (a : Arena σ) (w : Wrapper σ) : Arena σ :=
  { a with wrappers := Function.update a.wrappers a.count (some w), count := a.count + 1 }

def put (a : Arena σ) (i : Nat) (w : Wrapper σ) (s : σ) (ledger : Ledger) : Arena σ :=
  ⟨Function.update a.wrappers i (some w), a.count, ledger, s⟩

/-- One call on one wrapper, or one step of one of its threads. Only the ledger is read off the
marked handle. -/
inductive Step : Arena σ → Arena σ → Prop where
  | wrap (a : Arena σ) (raw : RawHandle) (family : Family σ) (owns : Bool) :
      Step a (a.make { made := { raw, family, owns }, viewed := false })
  | view (a : Arena σ) {i : Nat} {w : Wrapper σ} :
      a.wrappers i = some w → w.stage = .held →
      Step a (a.make { made := w.handle.view, viewed := true })
  | borrow (a : Arena σ) {i : Nat} {w : Wrapper σ} {result : Except Failure RawHandle} :
      a.wrappers i = some w → w.stage = .held → w.handle.borrow = result → Step a a
  | release (a : Arena σ) {i : Nat} {w : Wrapper σ} {result : Except Failure Unit}
      {h : Handle σ} {s : σ} {log : List Event} :
      a.wrappers i = some w → w.stage = .held →
      w.handle.release a.state = ⟨(result, h), s, log⟩ →
      Step a (a.put i { w with handle := h, asked := true } s
        ((w.handle.marked i).release (a.state, a.ledger)).state.2)
  | spawn (a : Arena σ) {i : Nat} {w : Wrapper σ} :
      a.wrappers i = some w → w.stage = .held →
      Step a (a.put i { w with racers := w.racers ++ [.waiting] } a.state a.ledger)
  | swap (a : Arena σ) {i j : Nat} {w : Wrapper σ} {r : Race σ} {log : List Event} :
      a.wrappers i = some w → w.stage = .held → w.racers[j]? = some .waiting →
      Race.step j ⟨w.handle, w.racers, a.state⟩ = (r, log) →
      Step a (a.put i { w with handle := r.handle, racers := r.racers, asked := true } r.state
        (Race.step j ⟨w.handle.marked i, w.racers, (a.state, a.ledger)⟩).1.state.2)
  | close (a : Arena σ) {i j : Nat} {w : Wrapper σ} {r : Race σ} {log : List Event} :
      a.wrappers i = some w → w.stage = .held → w.racers[j]? = some .closing →
      Race.step j ⟨w.handle, w.racers, a.state⟩ = (r, log) →
      Step a (a.put i { w with handle := r.handle, racers := r.racers } r.state
        (Race.step j ⟨w.handle.marked i, w.racers, (a.state, a.ledger)⟩).1.state.2)
  | drop (a : Arena σ) {i : Nat} {w : Wrapper σ} {s : σ} {log : List Event} :
      a.wrappers i = some w → w.stage = .held → Race.Finished w.racers →
      w.handle.drop a.state = ⟨(), s, log⟩ →
      Step a (a.put i { w with handle := w.handle.markReleased, stage := .dropped, asked := true }
        s ((w.handle.marked i).drop (a.state, a.ledger)).state.2)
  | relinquish (a : Arena σ) {i : Nat} {w : Wrapper σ} {raw : RawHandle} {s : σ}
      {log : List Event} :
      a.wrappers i = some w → w.stage = .held → Race.Finished w.racers →
      w.handle.relinquish a.state = ⟨.ok raw, s, log⟩ →
      Step a (a.put i { w with stage := .relinquished } s
        ((w.handle.marked i).relinquish (a.state, a.ledger)).state.2)
  | refuse (a : Arena σ) {i : Nat} {w : Wrapper σ} {f : Failure} {s : σ} {log : List Event} :
      a.wrappers i = some w → w.stage = .held → Race.Finished w.racers →
      w.handle.relinquish a.state = ⟨.error f, s, log⟩ →
      Step a (a.put i { w with stage := .dropped, asked := true } s
        ((w.handle.marked i).relinquish (a.state, a.ledger)).state.2)

inductive Execution : Arena σ → Arena σ → Prop where
  | refl (a : Arena σ) : Execution a a
  | tail {a b c : Arena σ} : Execution a b → Step b c → Execution a c

end Arena

namespace Handle

def entry (k : Nat) (h : Handle σ) : Ledger := if h.isLive then [(k, h.raw)] else []

theorem isLive_marked (k : Nat) (h : Handle σ) : (h.marked k).isLive = h.isLive := rfl

theorem release_of_live {h : Handle σ} (hlive : h.isLive = true) (s : σ) :
    h.release s = ⟨((h.family.close h.raw s).value, h.markReleased),
      (h.family.close h.raw s).state,
      .releasing h.family.name h.raw :: (h.family.close h.raw s).log⟩ := by
  simp only [release, hlive, if_true, Action.bind_apply, Action.pure_apply, Action.report,
    List.append_nil]
  rfl

theorem release_of_not_live {h : Handle σ} (hlive : h.isLive = false) (s : σ) :
    h.release s = ⟨(.ok (), h.markReleased), s, []⟩ := by
  simp [release, hlive, Action.pure_apply]

section Noting

variable (note : RawHandle → Effect σ (Except Failure Unit) → ν)

def notes (h : Handle σ) (s : σ) : List ν :=
  if h.isLive then [note h.raw (h.family.close h.raw s)] else []

theorem release_noting (h : Handle σ) (s : σ) (l : List ν) :
    (h.noting note).release (s, l) =
      ⟨((h.release s).value.1, (h.release s).value.2.noting note),
        ((h.release s).state, l ++ h.notes note s), (h.release s).log⟩ := by
  cases hlive : h.isLive with
  | true =>
    have hnoting : (h.noting note).isLive = true := hlive
    rw [release_of_live hlive, release_of_live hnoting, notes, hlive]
    rfl
  | false =>
    have hnoting : (h.noting note).isLive = false := hlive
    rw [release_of_not_live hlive, release_of_not_live hnoting, notes, hlive]
    simp
    rfl

theorem drop_noting (h : Handle σ) (s : σ) (l : List ν) :
    (h.noting note).drop (s, l) =
      ⟨(), ((h.drop s).state, l ++ h.notes note s), (h.drop s).log⟩ := by
  simp only [drop, Action.bind_apply, release_noting]
  cases (h.release s).value.1 <;> rfl

end Noting

theorem release_marked (k : Nat) (h : Handle σ) (s : σ) (l : Ledger) :
    (h.marked k).release (s, l) =
      ⟨((h.release s).value.1, (h.release s).value.2.marked k),
        ((h.release s).state, l ++ h.entry k), (h.release s).log⟩ :=
  release_noting (fun raw _ => (k, raw)) h s l

theorem drop_marked (k : Nat) (h : Handle σ) (s : σ) (l : Ledger) :
    (h.marked k).drop (s, l) = ⟨(), ((h.drop s).state, l ++ h.entry k), (h.drop s).log⟩ :=
  drop_noting (fun raw _ => (k, raw)) h s l

theorem relinquish_apply (h : Handle σ) (s : σ) :
    h.relinquish s =
      ⟨if h.released then .error ⟨.releasedHandle h.family.name, none⟩ else .ok h.raw, s, []⟩ := by
  have hlive : h.markReleased.isLive = false := rfl
  simp [relinquish, drop, release_of_not_live hlive, Action.bind_apply, Action.pure_apply]

theorem relinquish_marked (k : Nat) (h : Handle σ) (s : σ) (l : Ledger) :
    (h.marked k).relinquish (s, l) = ⟨(h.relinquish s).value, (s, l), []⟩ := by
  rw [relinquish_apply, relinquish_apply]
  rfl

theorem handle_release (h : Handle σ) (s : σ) : (h.release s).value.2 = h.markReleased := by
  unfold release
  split <;> rfl

end Handle

namespace Race

/-- Marking the handle of a race enters the close of the thread that calls it. -/
theorem step_marked (k : Nat) (h : Handle σ) (racers : List Racer) (s : σ) (l : Ledger)
    (j : Nat) :
    (Race.step j ⟨h.marked k, racers, (s, l)⟩).1 =
      ⟨(Race.step j ⟨h, racers, s⟩).1.handle.marked k, (Race.step j ⟨h, racers, s⟩).1.racers,
        ((Race.step j ⟨h, racers, s⟩).1.state,
          l ++ (Race.caller ⟨h, racers, s⟩ j).map fun _ => (k, h.raw))⟩ := by
  rcases done_or racers j with hj | hj | hj
  · rw [step_of_waiting (r := ⟨h, racers, s⟩) hj, caller_of_waiting (r := ⟨h, racers, s⟩) hj,
      step_of_waiting (r := ⟨h.marked k, racers, (s, l)⟩) hj]
    simp only [Handle.isLive_marked, List.map_nil, List.append_nil]
    rfl
  · rw [step_of_closing (r := ⟨h, racers, s⟩) hj, caller_of_closing (r := ⟨h, racers, s⟩) hj,
      step_of_closing (r := ⟨h.marked k, racers, (s, l)⟩) hj]
    rfl
  · obtain ⟨hsame, hcaller⟩ := step_of_done ⟨h, racers, s⟩ hj
    rw [hsame, hcaller, (step_of_done ⟨h.marked k, racers, (s, l)⟩ hj).1]
    simp

end Race

end NativeResource
