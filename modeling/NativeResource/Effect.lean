import NativeResource.Event
/-!
Actions over a state. An action turns a state into a value, a new state and the events it
reported, in order; actions compose by threading the state and joining their events. A run is an
action that may go on for ever, as a loop around foreign code can.
-/
namespace NativeResource

structure Effect (σ α : Type) where
  value : α
  state : σ
  log : List Event

def Effect.after (log : List Event) (e : Effect σ α) : Effect σ α := { e with log := log ++ e.log }

@[simp] theorem Effect.value_after (log : List Event) (e : Effect σ α) :
    (e.after log).value = e.value := rfl

@[simp] theorem Effect.state_after (log : List Event) (e : Effect σ α) :
    (e.after log).state = e.state := rfl

@[simp] theorem Effect.log_after (log : List Event) (e : Effect σ α) :
    (e.after log).log = log ++ e.log := rfl

theorem Effect.after_nil : (Effect.after [] : Effect σ α → Effect σ α) = id := rfl

theorem Effect.after_comp (log more : List Event) :
    (Effect.after log ∘ Effect.after more : Effect σ α → Effect σ α) =
      Effect.after (log ++ more) := by
  funext e
  simp [Effect.after]

def Action (σ α : Type) := σ → Effect σ α

namespace Action

def done (a : α) : Action σ α := fun s => ⟨a, s, []⟩

def andThen (x : Action σ α) (f : α → Action σ β) : Action σ β := fun s =>
  let first := x s
  let second := f first.value first.state
  ⟨second.value, second.state, first.log ++ second.log⟩

instance : Monad (Action σ) where
  pure := done
  bind := andThen

def report (e : Event) : Action σ Unit := fun s => ⟨(), s, [e]⟩

/-- An action that asks and changes the state without reporting anything. -/
def quiet (f : σ → α × σ) : Action σ α := fun s =>
  let r := f s
  ⟨r.1, r.2, []⟩

theorem pure_apply (a : α) (s : σ) : (pure a : Action σ α) s = ⟨a, s, []⟩ := rfl

theorem bind_apply (x : Action σ α) (f : α → Action σ β) (s : σ) :
    (x >>= f) s =
      ⟨(f (x s).value (x s).state).value, (f (x s).value (x s).state).state,
        (x s).log ++ (f (x s).value (x s).state).log⟩ := rfl

theorem map_apply (f : α → β) (x : Action σ α) (s : σ) :
    (f <$> x) s = ⟨f (x s).value, (x s).state, (x s).log⟩ := by
  simp [Functor.map, andThen, done]

instance : LawfulMonad (Action σ) := LawfulMonad.mk' (Action σ)
  (fun x => by funext s; simp [Functor.map, andThen, done])
  (fun a f => by funext s; simp [bind_apply, pure_apply])
  (fun x f g => by funext s; simp [bind_apply])

end Action

/-- An action that may go on for ever, in which case it has no effect to show. -/
def Run (σ α : Type) := σ → Option (Effect σ α)

namespace Run

def done (a : α) : Run σ α := fun s => some ⟨a, s, []⟩

def andThen (x : Run σ α) (f : α → Run σ β) : Run σ β := fun s => do
  let first ← x s
  let second ← f first.value first.state
  return second.after first.log

instance : Monad (Run σ) where
  pure := done
  bind := andThen

def ofAction (x : Action σ α) : Run σ α := fun s => some (x s)

def loop (step : Run σ (Option β)) (s : σ) : Option (Effect σ β) := do
  let e ← step s
  match e.value with
  | some b => some ⟨b, e.state, e.log⟩
  | none => do
    -- The same loop, from where the step left the state.
    let again := loop (s := e.state)
    let rest ← again step
    return rest.after e.log
partial_fixpoint

theorem pure_apply (a : α) (s : σ) : (pure a : Run σ α) s = some ⟨a, s, []⟩ := rfl

theorem bind_eq_some {x : Run σ α} {f : α → Run σ β} {s : σ} {e : Effect σ β} :
    (x >>= f) s = some e ↔ ∃ first second, x s = some first ∧
      f first.value first.state = some second ∧ e = second.after first.log := by
  change (x s).bind (fun first => (f first.value first.state).bind
    fun second => some (second.after first.log)) = some e ↔ _
  constructor
  · intro h
    obtain ⟨first, hx, h⟩ := Option.bind_eq_some_iff.mp h
    obtain ⟨second, hf, h⟩ := Option.bind_eq_some_iff.mp h
    exact ⟨first, second, hx, hf, (Option.some.inj h).symm⟩
  · rintro ⟨first, second, hx, hf, rfl⟩
    simp only [hx, hf, Option.bind_some]

variable {step : Run σ (Option β)} {s t : σ} {b : β} {log : List Event} {e : Effect σ β}

theorem loop_of_done (h : step s = some ⟨some b, t, log⟩) :
    loop step s = some ⟨b, t, log⟩ := by
  rw [loop, h]
  rfl

theorem loop_of_again (h : step s = some ⟨none, t, log⟩) :
    loop step s = (loop step t).map (Effect.after log) := by
  rw [loop, h]
  change (loop step t).bind _ = _
  cases loop step t <;> rfl

/-- A step that does what the step from elsewhere does, after reporting something, makes the loop
do so. -/
theorem loop_of_after (h : step s = (step t).map (Effect.after log)) :
    loop step s = (loop step t).map (Effect.after log) := by
  cases ht : step t with
  | none =>
    rw [ht] at h
    rw [loop, h, loop, ht]
    rfl
  | some e =>
    obtain ⟨value, v, rest⟩ := e
    rw [ht] at h
    cases value with
    | some b => rw [loop_of_done ht, loop_of_done h]; rfl
    | none =>
      rw [loop_of_again ht, loop_of_again h]
      rw [Option.map_map, Effect.after_comp]

/-- What holds of a last step and is handed back from each step to the one before holds of every
loop that ends. -/
theorem loop_induction {motive : σ → Effect σ β → Prop}
    (done : ∀ s b t log, step s = some ⟨some b, t, log⟩ → motive s ⟨b, t, log⟩)
    (again : ∀ s t log e, step s = some ⟨none, t, log⟩ → motive t e → motive s (e.after log))
    (hloop : loop step s = some e) : motive s e := by
  refine loop.partial_correctness (fun x s e => x = step → motive s e) ?_ step s e hloop rfl
  clear hloop
  rintro loop ih x s e h rfl
  obtain ⟨first, hfirst, h⟩ := Option.bind_eq_some_iff.mp h
  obtain ⟨value, t, log⟩ := first
  cases value with
  | some b =>
    cases h
    exact done s b t log hfirst
  | none =>
    obtain ⟨rest, hrest, h⟩ := Option.bind_eq_some_iff.mp h
    cases h
    exact again s t log rest hfirst (ih x t rest hrest rfl)

end Run

/-- How foreign code ends: with a value, with a failure, or by unwinding. -/
inductive Outcome (α : Type) where
  | returned (value : α)
  | failed (failure : Failure)
  | panicked
  deriving DecidableEq, Repr

namespace Outcome

def ofExcept : Except Failure α → Outcome α
  | .ok a => returned a
  | .error f => failed f

def map (f : α → β) : Outcome α → Outcome β
  | returned a => returned (f a)
  | failed e => failed e
  | panicked => panicked

end Outcome

end NativeResource
