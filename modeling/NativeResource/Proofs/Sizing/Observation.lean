import NativeResource.Proofs.Sizing.Course
import NativeResource.Sizing.Observer
/-!
Observation. What an observer keeps of a sizing is exactly its course, and nothing else about the
sizing changes.
-/
namespace NativeResource

variable {σ τ ν α : Type}

def InUse.mapState (f : σ → τ) (u : InUse σ) : InUse τ := ⟨u.buffer, f u.state⟩

def InUse.noted (notes : List ν) (u : InUse σ) : InUse (σ × List ν) := u.mapState (·, notes)

def Session.mapState (f : σ → τ) (s : Session σ) : Session τ := ⟨s.pool, f s.state⟩

def Session.noted (notes : List ν) (s : Session σ) : Session (σ × List ν) :=
  ⟨s.pool, (s.state, notes)⟩

def Effect.onState (f : σ → τ) (e : Effect σ α) : Effect τ α := ⟨e.value, f e.state, e.log⟩

def Observer.ofAttempt (o : Observer ν) (x : Attempt σ) : ν :=
  o.attempt x.found.buffer x.answer x.left.buffer

section Settling

variable {p : SizingPolicy} {alloc : Allocator} {call : Call σ}

/-- The sizing loop does not look at the caller's state. -/
theorem SizingPolicy.conclude_mapState (f : σ → τ) {x : Attempt σ} {y : Attempt τ}
    (ha : y.answer = x.answer) (hl : y.left = x.left.mapState f) (hlog : y.log = x.log) :
    p.conclude alloc y = (p.conclude alloc x).onState (InUse.mapState f) := by
  unfold conclude
  rw [ha, hl, hlog]
  cases x.answer with
  | none => rfl
  | some a =>
    suffices h : p.respond alloc a (x.left.mapState f) =
        (p.respond alloc a x.left).onState (InUse.mapState f) by
      simp only [h]
      rfl
    unfold respond
    cases a.code.signal with
    | insufficientBuffer =>
      simp only [enlarge, InUse.mapState]
      cases (p.grow alloc a x.left.buffer).result <;> rfl
    | success | moreEntries =>
      simp only [Settled.produce, InUse.mapState]
      cases x.left.buffer.setLength a.size <;> rfl
    | noMoreEntries | failure => rfl

/-- The second call is the first one with notes kept in its state, one more for each attempt. -/
def Call.NotedBy (call : Call σ) (note : Attempt σ → ν) (place : List ν → σ → τ)
    (other : Call τ) : Prop :=
  ∀ u notes, other (u.clear.mapState (place notes)) =
    (call u.clear).onState (InUse.mapState (place (note (call.attempt u) :: notes)))

variable {note : Attempt σ → ν} {place : List ν → σ → τ} {other : Call τ}

theorem Call.NotedBy.conclude (h : call.NotedBy note place other) (p : SizingPolicy)
    (alloc : Allocator) (u : InUse σ) (notes : List ν) :
    p.conclude alloc (other.attempt (u.mapState (place notes))) =
      (p.conclude alloc (call.attempt u)).onState
        (InUse.mapState (place (note (call.attempt u) :: notes))) := by
  have hcall := h u notes
  exact SizingPolicy.conclude_mapState _ (congrArg Effect.value hcall)
    (congrArg Effect.state hcall) (congrArg Effect.log hcall)

theorem Course.settle_noted {u : InUse σ} {earlier : List (Attempt σ)} {last : Attempt σ}
    (hnoted : call.NotedBy note place other) (h : Course p alloc call u earlier last)
    (notes : List ν) :
    p.settle alloc other (u.mapState (place notes)) =
      (p.settle alloc call u).map (Effect.onState
        (InUse.mapState (place (((earlier ++ [last]).map note).reverse ++ notes)))) := by
  induction h generalizing notes with
  | last u hn =>
    obtain ⟨outcome, v, log, hc⟩ := SizingPolicy.exists_conclude_of_not_enlarged hn
    have ho := hnoted.conclude p alloc u notes
    rw [hc] at ho
    rw [SizingPolicy.settle_of_last hc, SizingPolicy.settle_of_last ho]
    rfl
  | again u hb _ ih =>
    obtain ⟨log, hc⟩ := SizingPolicy.conclude_of_enlarged hb
    have ho := hnoted.conclude p alloc u notes
    rw [hc] at ho
    rw [SizingPolicy.settle_of_repeat hc, SizingPolicy.settle_of_repeat ho]
    have hr := ih (note (call.attempt u) :: notes)
    simp only [List.cons_append, List.map_cons, List.reverse_cons, List.append_assoc,
      List.nil_append]
    change (p.settle alloc other (InUse.mapState _ _)).map _ = _
    rw [hr]
    cases p.settle alloc call _ <;> rfl

theorem Call.notedBy_observed (call : Call σ) (o : Observer ν) :
    call.NotedBy o.ofAttempt (fun notes s => (s, notes)) (call.observed o) := fun _ _ => rfl

/-- An observer keeps one note of each attempt, in their order. -/
theorem Course.settle_observed {u : InUse σ} {earlier : List (Attempt σ)} {last : Attempt σ}
    (h : Course p alloc call u earlier last) (o : Observer ν) (notes : List ν) :
    p.settle alloc (call.observed o) (u.noted notes) =
      (p.settle alloc call u).map (Effect.onState
        (InUse.noted (((earlier ++ [last]).map o.ofAttempt).reverse ++ notes))) :=
  h.settle_noted (call.notedBy_observed o) notes

end Settling

end NativeResource
