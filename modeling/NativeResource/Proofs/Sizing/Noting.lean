import NativeResource.Proofs.Sizing.Batches
/-!
Enumerations whose call keeps notes. A call that notes each of its attempts in its state, and a
decoder that leaves the notes alone, go through the rounds of the call without notes: one note is
kept of each round, in their order, and nothing else about the enumeration changes.
-/
namespace NativeResource.Session

variable {σ τ ν α : Type} {p : SizingPolicy} {alloc : Allocator} {call : Call σ} {other : Call τ}
  {decode : Decoder σ (List α)} {decode' : Decoder τ (List α)} {note : Attempt σ → ν}
  {place : List ν → σ → τ} {items : List α} {u v : InUse σ} {r m : Reading σ α}
  {y last : Round σ α} {rounds : List (Round σ α)} {outcome : Outcome (List α)}

theorem noted_attempt (hcall : call.NotedBy note place other) (u : InUse σ) (notes : List ν) :
    other.attempt (u.mapState (place notes)) =
      ⟨u.clear.mapState (place notes), (call.attempt u).answer,
        (call.attempt u).left.mapState (place (note (call.attempt u) :: notes)),
        (call.attempt u).log⟩ := by
  have h := hcall u notes
  exact congrArg (fun e : Effect _ _ => Attempt.mk _ e.value e.state e.log) h

theorem decode_noted (hdecode : ∀ notes, decode.Besides (place notes) decode') {b : Buffer}
    {n : Nat} {s t : σ} {value : Outcome (List α)} {log : List Event}
    (h : decode b n s = ⟨value, t, log⟩) (notes : List ν) :
    decode' b n (place notes s) = ⟨value, place notes t, log⟩ := by
  rw [hdecode notes b n s, h]
  rfl

theorem Continues.noted (hcall : call.NotedBy note place other)
    (hdecode : ∀ notes, decode.Besides (place notes) decode')
    (h : Continues p alloc decode items (call.attempt u) y m) (notes : List ν) :
    ∃ y', Continues p alloc decode' items (other.attempt (u.mapState (place notes))) y'
        ⟨m.items, m.used.mapState (place (note y.attempt :: notes))⟩ ∧ y'.log = y.log := by
  rw [noted_attempt hcall]
  cases h with
  | grown ha hs hg => exact ⟨_, .grown ha hs hg, rfl⟩
  | more ha hs hb hd => exact ⟨_, .more ha hs hb (decode_noted hdecode hd _), rfl⟩

theorem Concludes.noted (hcall : call.NotedBy note place other)
    (hdecode : ∀ notes, decode.Besides (place notes) decode')
    (h : Concludes p alloc decode items (call.attempt u) last outcome v) (notes : List ν) :
    ∃ last', Concludes p alloc decode' items (other.attempt (u.mapState (place notes))) last'
        outcome (v.mapState (place (note last.attempt :: notes))) ∧ last'.log = last.log := by
  rw [noted_attempt hcall]
  cases h with
  | complete ha hs hb hd => exact ⟨_, .complete ha hs hb (decode_noted hdecode hd _), rfl⟩
  | exhausted ha hs => exact ⟨_, .exhausted ha hs, rfl⟩
  | undecoded ha hs hb hd => exact ⟨_, .undecoded ha hs hb (decode_noted hdecode hd _), rfl⟩
  | abandoned ha hs hb hd => exact ⟨_, .abandoned ha hs hb (decode_noted hdecode hd _), rfl⟩
  | tooLong ha hs hb => exact ⟨_, .tooLong ha hs hb, rfl⟩
  | reported ha hs => exact ⟨_, .reported ha hs, rfl⟩
  | ungrown ha hs hg => exact ⟨_, .ungrown ha hs hg, rfl⟩
  | unwound ha => exact ⟨_, .unwound ha, rfl⟩

/-- One note of each round is kept, the latest first. -/
theorem Rounds.noted (hcall : call.NotedBy note place other)
    (hdecode : ∀ notes, decode.Besides (place notes) decode')
    (h : Rounds p alloc call decode r rounds m) (notes : List ν) :
    ∃ rounds', Rounds p alloc other decode' ⟨r.items, r.used.mapState (place notes)⟩ rounds'
        ⟨m.items, m.used.mapState
          (place ((rounds.map fun y => note y.attempt).reverse ++ notes))⟩ ∧
      rounds'.flatMap Round.log = rounds.flatMap Round.log := by
  induction h generalizing notes with
  | refl r => exact ⟨[], .refl _, rfl⟩
  | @head r m r' y rounds hy _ ih =>
    obtain ⟨y', hy', hlog⟩ := hy.noted hcall hdecode notes
    obtain ⟨rounds', hrounds', hlogs⟩ := ih (note y.attempt :: notes)
    refine ⟨y' :: rounds', .head hy' ?_, ?_⟩
    · simpa using hrounds'
    · rw [List.flatMap_cons, List.flatMap_cons, hlog, hlogs]

theorem enumerate_noted {s : Session σ} {n : Nat} {b : Buffer} {rest : Pool}
    (hlease : s.pool.acquire alloc n = (.ok b, rest))
    (hcall : call.NotedBy note place other)
    (hdecode : ∀ notes, decode.Besides (place notes) decode')
    (hrounds : Rounds p alloc call decode ⟨[], ⟨b, s.state⟩⟩ rounds r)
    (hlast : Concludes p alloc decode r.items (call.attempt r.used) last outcome v)
    (notes : List ν) :
    enumerate p alloc n other decode' (s.mapState (place notes)) =
      (enumerate p alloc n call decode s).map (Effect.onState (Session.mapState
        (place (((rounds ++ [last]).map fun y => note y.attempt).reverse ++ notes)))) := by
  have hlease' : (s.mapState (place notes)).pool.acquire alloc n = (.ok b, rest) := hlease
  obtain ⟨rounds', hrounds', hlogs⟩ := hrounds.noted hcall hdecode notes
  obtain ⟨last', hlast', hlog⟩ := hlast.noted hcall hdecode
    ((rounds.map fun y => note y.attempt).reverse ++ notes)
  rw [enumerate_of_rounds hlease hrounds hlast, enumerate_of_rounds hlease' hrounds' hlast']
  simp only [List.flatMap_append, List.flatMap_singleton, hlogs, hlog, List.map_append,
    List.map_singleton, List.reverse_append, List.reverse_singleton, List.append_assoc]
  rfl

end NativeResource.Session
