import NativeResource.Proofs.Sizing.Batches
import NativeResource.Proofs.Sizing.Likeness
/-!
What earlier users left in a buffer. Buffers are handed out and grown without being wiped, so the
bytes past the length are old ones. A call that sees only the capacity, and puts at least the bytes
that it says it has produced, never lets them come within the length: runs over pools that differ
only in what their buffers hold make the same attempts, return the same and leave the same.
-/
namespace NativeResource

variable {σ α β ν : Type}

namespace Buffer

variable {b c : Buffer} {i : Nat}

def put (b : Buffer) (w : Nat × ByteArray) : Buffer := (b.write? w.1 w.2).getD b

def putAll (b : Buffer) (writes : List (Nat × ByteArray)) : Buffer := writes.foldl put b

def Covers (capacity : Nat) (w : Nat × ByteArray) (i : Nat) : Prop :=
  w.1 + w.2.size ≤ capacity ∧ w.1 ≤ i ∧ i < w.1 + w.2.size

instance (capacity : Nat) (w : Nat × ByteArray) (i : Nat) : Decidable (Covers capacity w i) :=
  inferInstanceAs (Decidable (_ ∧ _ ∧ _))

theorem capacity_put (b : Buffer) (w : Nat × ByteArray) : (b.put w).capacity = b.capacity := by
  unfold put
  cases h : b.write? w.1 w.2 with
  | none => rfl
  | some c => exact capacity_of_write? h

theorem length_put (b : Buffer) (w : Nat × ByteArray) : (b.put w).length = b.length := by
  unfold put write?
  split <;> rfl

theorem get_put (b : Buffer) (w : Nat × ByteArray) (i : Nat) :
    Bytes.get (b.put w).bytes i =
      if Covers b.capacity w i then Bytes.get w.2 (i - w.1) else Bytes.get b.bytes i := by
  by_cases hfits : w.1 + w.2.size ≤ b.capacity
  · obtain ⟨c, hc, hbytes, -⟩ := write?_eq_some hfits
    rw [put, hc, Option.getD_some, hbytes, Bytes.get_overwrite hfits]
    simp only [Covers, hfits, true_and]
  · have hput : b.put w = b := by
      unfold put write?
      rw [dif_neg hfits, Option.getD_none]
    rw [hput, if_neg fun hcovers => hfits hcovers.1]

theorem capacity_putAll (b : Buffer) (writes : List (Nat × ByteArray)) :
    (b.putAll writes).capacity = b.capacity := by
  induction writes generalizing b with
  | nil => rfl
  | cons w writes ih => exact (ih (b.put w)).trans (b.capacity_put w)

theorem length_putAll (b : Buffer) (writes : List (Nat × ByteArray)) :
    (b.putAll writes).length = b.length := by
  induction writes generalizing b with
  | nil => rfl
  | cons w writes ih => exact (ih (b.put w)).trans (b.length_put w)

/-- The same bytes put into two buffers of one capacity make them agree wherever some are put, and
leave them so wherever they agreed before. -/
theorem get_putAll_congr {writes : List (Nat × ByteArray)} (hcapacity : b.capacity = c.capacity)
    (h : Bytes.get b.bytes i = Bytes.get c.bytes i ∨ ∃ w ∈ writes, Covers b.capacity w i) :
    Bytes.get (b.putAll writes).bytes i = Bytes.get (c.putAll writes).bytes i := by
  -- Once put, a byte is the same in both; later writes find it so and keep it so.
  induction writes generalizing b c with
  | nil =>
    rcases h with h | ⟨w, hw, -⟩
    · exact h
    · cases hw
  | cons w writes ih =>
    have hput : (b.put w).capacity = (c.put w).capacity := by
      rw [capacity_put, capacity_put, hcapacity]
    apply ih hput
    rw [get_put, get_put, capacity_put, ← hcapacity]
    by_cases hcovers : Covers b.capacity w i
    · rw [if_pos hcovers, if_pos hcovers]
      exact .inl rfl
    · rw [if_neg hcovers, if_neg hcovers]
      rcases h with h | ⟨x, hx, hxi⟩
      · exact .inl h
      · rcases List.mem_cons.mp hx with rfl | hx
        · exact absurd hxi hcovers
        · exact .inr ⟨x, hx, hxi⟩

end Buffer

/-- What an attempt does: its answer if it gives one, the bytes that it puts and where, in order,
the state that it leaves, and what it reports. -/
structure Writing (σ : Type) where
  answer : Option Answer
  writes : List (Nat × ByteArray)
  state : σ
  log : List Event := []

/-- A call that sees nothing of the buffer but its capacity, and only puts bytes into it. -/
abbrev Writer (σ : Type) := Nat → σ → Writing σ

def Call.ofWriter (w : Writer σ) : Call σ := fun u =>
  let done := w u.buffer.capacity u.state
  ⟨done.answer, ⟨u.buffer.putAll done.writes, done.state⟩, done.log⟩

/-- Whatever the call says it has produced, at its end or as a batch, it has put into the buffer,
if there is room for as much. -/
def Writer.Covers (w : Writer σ) : Prop :=
  ∀ capacity s a, (w capacity s).answer = some a →
    a.code.signal = .success ∨ a.code.signal = .moreEntries → a.size ≤ capacity →
    ∀ i < a.size, ∃ x ∈ (w capacity s).writes, Buffer.Covers capacity x i

/-- A decoder that reads the buffer's bytes, units and text within its length, and the size. -/
abbrev View (σ α : Type) := ByteArray → List UInt16 → String → Nat → Action σ (Outcome α)

def Decoder.ofView (view : View σ α) : Decoder σ α := fun b n => view b.contents b.units b.text n

/-- Keeps how much room each attempt found and left and what it answered, and what was read at each
decoding. -/
def Observer.visible (f : Nat → Option Answer → Nat → ν) (g : ByteArray → Nat → ν) : Observer ν :=
  ⟨fun found answer left => f found.capacity answer left.capacity, fun b n => g b.contents n⟩

theorem Call.ofWriter_blind {w : Writer σ} (hw : w.Covers) : (ofWriter w).Blind := by
  intro u v huv
  have hcapacity : u.clear.buffer.capacity = v.clear.buffer.capacity := huv.buffer.capacity
  have hstate : u.clear.state = v.clear.state := huv.state
  have hdone : w u.clear.buffer.capacity u.clear.state =
      w v.clear.buffer.capacity v.clear.state := by
    rw [hcapacity, hstate]
  unfold attempt ofWriter
  rw [← hdone]
  refine ⟨huv.clear, rfl, ⟨.of_length_zero ?_ ?_ ?_, rfl⟩, rfl, ?_⟩
  · rw [Buffer.capacity_putAll, Buffer.capacity_putAll, hcapacity]
  · exact Buffer.length_putAll _ _
  · exact Buffer.length_putAll _ _
  · intro a ha hs hfits i hi
    rw [Buffer.capacity_putAll] at hfits
    exact Buffer.get_putAll_congr hcapacity (.inr (hw _ _ a ha hs hfits i hi))

theorem Decoder.ofView_blind (view : View σ α) : (ofView view).Blind := by
  intro b c n hbc
  unfold ofView
  rw [hbc.contents, hbc.units, hbc.text]

section Observed

variable {f : Nat → Option Answer → Nat → ν} {g : ByteArray → Nat → ν}

theorem Call.Blind.observed {call : Call σ} (h : call.Blind) :
    (call.observed (.visible f g)).Blind := by
  intro u v huv
  have hattempt : (call.attempt (u.mapState Prod.fst)).Alike (call.attempt (v.mapState Prod.fst)) :=
    h _ _ ⟨huv.buffer, congrArg Prod.fst huv.state⟩
  refine ⟨huv.clear, hattempt.answer, ⟨hattempt.left.buffer, ?_⟩, hattempt.log,
    hattempt.delivered⟩
  have hnote : (Observer.visible f g).ofAttempt (call.attempt (u.mapState Prod.fst)) =
      (Observer.visible f g).ofAttempt (call.attempt (v.mapState Prod.fst)) := by
    simp only [Observer.ofAttempt, Observer.visible, hattempt.found.buffer.capacity,
      hattempt.answer, hattempt.left.buffer.capacity]
  exact Prod.ext hattempt.left.state (List.cons_eq_cons.mpr ⟨hnote, congrArg Prod.snd huv.state⟩)

theorem Decoder.Blind.observed {decode : Decoder σ α} (h : decode.Blind) :
    (decode.observed (.visible f g)).Blind := by
  intro b c n hbc
  funext s
  simp only [Decoder.observed, Observer.visible, h b c n hbc, hbc.contents]

end Observed

structure Round.Alike (x y : Round σ α) : Prop where
  attempt : x.attempt.Alike y.attempt
  decoded : Option.Rel (fun d e => d.1.Alike e.1 ∧ d.2 = e.2) x.decoded y.decoded
  items : x.items = y.items
  log : x.log = y.log

theorem Buffer.ServedAlike.exists_ok {r r' : Except Failure Buffer} {b : Buffer}
    (h : ServedAlike r r') (hr : r = .ok b) : ∃ c, r' = .ok c ∧ b.Alike c := by
  cases h with
  | ok hbc =>
    cases hr
    exact ⟨_, rfl, hbc⟩
  | error => cases hr

namespace Session

variable {p : SizingPolicy} {alloc : Allocator} {n : Nat} {call : Call σ}
  {decode : Decoder σ (List α)} {s t : Session σ}

theorem Continues.alike {items : List α} {x y : Attempt σ} {z : Round σ α} {m : Reading σ α}
    (hdecode : decode.Blind) (hxy : x.Alike y) (h : Continues p alloc decode items x z m) :
    ∃ z' m', Continues p alloc decode items y z' m' ∧ z.Alike z' ∧ m.Alike m' := by
  cases h with
  | @grown a b ha hs hg =>
    obtain ⟨hresult, hlog⟩ := p.grow_alike alloc a hxy.left.buffer
    obtain ⟨c, hc, hbc⟩ := hresult.exists_ok hg
    refine ⟨_, _, .grown (hxy.answer ▸ ha) hs hc, ⟨hxy, .none, rfl, ?_⟩, rfl, hbc, hxy.left.state⟩
    rw [hxy.log, hlog]
  | @more a b batch t log ha hs hb hd =>
    have hserved := Buffer.Alike.setLength hxy.left.buffer.capacity
      (hxy.delivered a ha (.inr hs))
    obtain ⟨c, hc, hbc⟩ := hserved.exists_ok hb
    rw [hdecode b c a.size hbc, hxy.left.state] at hd
    refine ⟨_, _, .more (hxy.answer ▸ ha) hs hc hd, ⟨hxy, .some ⟨hbc, rfl⟩, rfl, ?_⟩, rfl, hbc, rfl⟩
    rw [hxy.log]

theorem Rounds.alike {r m r' : Reading σ α} {rounds : List (Round σ α)} (hcall : call.Blind)
    (hdecode : decode.Blind) (hr : r.Alike r') (h : Rounds p alloc call decode r rounds m) :
    ∃ rounds' m', Rounds p alloc call decode r' rounds' m' ∧
      List.Forall₂ Round.Alike rounds rounds' ∧ m.Alike m' := by
  induction h generalizing r' with
  | refl r => exact ⟨[], r', .refl r', .nil, hr⟩
  | head hz _ ih =>
    obtain ⟨z', m', hz', hzz, hmm⟩ := hz.alike hdecode (hcall _ _ hr.used)
    rw [hr.items] at hz'
    obtain ⟨rounds', last, hrounds', hall, hlast⟩ := ih hmm
    exact ⟨z' :: rounds', last, .head hz' hrounds', .cons hzz hall, hlast⟩

/-- The rounds that an enumeration has gone through at some point, and where it is then. -/
def Reaches (p : SizingPolicy) (alloc : Allocator) (n : Nat) (call : Call σ)
    (decode : Decoder σ (List α)) (s : Session σ) (rounds : List (Round σ α))
    (r : Reading σ α) : Prop :=
  ∃ b rest, s.pool.acquire alloc n = (.ok b, rest) ∧
    Rounds p alloc call decode ⟨[], ⟨b, s.state⟩⟩ rounds r

/-- Wherever an enumeration of the first session comes, that of the second one comes through alike
rounds. -/
def Mirrors (p : SizingPolicy) (alloc : Allocator) (n : Nat) (call : Call σ)
    (decode : Decoder σ (List α)) (s t : Session σ) : Prop :=
  ∀ rounds r, Reaches p alloc n call decode s rounds r →
    ∃ rounds' r', Reaches p alloc n call decode t rounds' r' ∧
      List.Forall₂ Round.Alike rounds rounds' ∧ r.Alike r'

theorem mirrors_of_alike (hcall : call.Blind) (hdecode : decode.Blind) (hst : s.Alike t) :
    Mirrors p alloc n call decode s t := by
  rintro rounds r ⟨b, rest, hlease, hrounds⟩
  obtain ⟨hserved, -⟩ := hst.pool.acquire alloc n
  rw [hlease] at hserved
  obtain ⟨c, hc, hbc⟩ := hserved.exists_ok rfl
  have hstart : Reading.Alike (α := α) ⟨[], ⟨b, s.state⟩⟩ ⟨[], ⟨c, t.state⟩⟩ :=
    ⟨rfl, hbc, hst.state⟩
  obtain ⟨rounds', r', hrounds', hall, hr⟩ := hrounds.alike hcall hdecode hstart
  exact ⟨rounds', r', ⟨c, _, Prod.ext hc rfl, hrounds'⟩, hall, hr⟩

/-- Nothing that a single run or an enumeration of the call does tells the two sessions apart: what
they return, report and leave, what is noted of their attempts and decodings while they run, and
how far an enumeration has come at any point, also of one that never ends. -/
structure Indistinct (p : SizingPolicy) (alloc : Allocator) (n : Nat) (call : Call σ)
    (decode : Decoder σ β) (batches : Decoder σ (List α)) (s t : Session σ) : Prop where
  single : Option.Rel (Effect.Same Alike) (single p alloc n call decode s)
    (single p alloc n call decode t)
  enumerate : Option.Rel (Effect.Same Alike) (enumerate p alloc n call batches s)
    (enumerate p alloc n call batches t)
  single_noted : ∀ {ν : Type} (f : Nat → Option Answer → Nat → ν) (g : ByteArray → Nat → ν)
    (seen : List ν), Option.Rel (Effect.Same Alike)
      (Session.single p alloc n (call.observed (.visible f g)) (decode.observed (.visible f g))
        (s.noted seen))
      (Session.single p alloc n (call.observed (.visible f g)) (decode.observed (.visible f g))
        (t.noted seen))
  enumerate_noted : ∀ {ν : Type} (f : Nat → Option Answer → Nat → ν) (g : ByteArray → Nat → ν)
    (seen : List ν), Option.Rel (Effect.Same Alike)
      (Session.enumerate p alloc n (call.observed (.visible f g)) (batches.observed (.visible f g))
        (s.noted seen))
      (Session.enumerate p alloc n (call.observed (.visible f g)) (batches.observed (.visible f g))
        (t.noted seen))
  mirrors : Mirrors p alloc n call batches s t
  mirrored : Mirrors p alloc n call batches t s

/-- What earlier users left in the buffers of a pool cannot be observed. Sessions whose pools retain
buffers of the same capacities, whatever is in them, cannot be told apart by a call that sees only
the capacity of its buffer and puts at least what it says it has produced, with decoders that read
no further than the length. -/
theorem leftovers_not_observable (p : SizingPolicy) (alloc : Allocator) (n : Nat) {w : Writer σ}
    (hw : w.Covers) (view : View σ β) (batches : View σ (List α)) {s t : Session σ}
    (hst : s.Alike t) :
    Indistinct p alloc n (.ofWriter w) (.ofView view) (.ofView batches) s t := by
  have hcall := Call.ofWriter_blind hw
  have hview := Decoder.ofView_blind view
  have hbatches := Decoder.ofView_blind batches
  refine ⟨single_alike n hcall hview s t hst, enumerate_alike n hcall hbatches s t hst,
    ?_, ?_, mirrors_of_alike hcall hbatches hst, mirrors_of_alike hcall hbatches hst.symm⟩
  · intro ν f g seen
    exact single_alike n hcall.observed hview.observed _ _ (hst.noted seen)
  · intro ν f g seen
    exact enumerate_alike n hcall.observed hbatches.observed _ _ (hst.noted seen)

end Session

def Writer.putting (blocks : List (Code × ByteArray)) : Writer Nat := fun capacity k =>
  match blocks[k]? with
  | none => ⟨none, [], k, []⟩
  | some (code, data) =>
    if data.size ≤ capacity then ⟨some ⟨code, data.size⟩, [(0, data)], k + 1, []⟩
    else ⟨some ⟨.win32 Win32.insufficientBuffer, data.size⟩, [], k, []⟩

theorem Writer.putting_covers (blocks : List (Code × ByteArray)) : (putting blocks).Covers := by
  intro capacity k a ha hs hfits i hi
  unfold putting at ha ⊢
  cases hblock : blocks[k]? with
  | none =>
    rw [hblock] at ha
    cases ha
  | some block =>
    obtain ⟨code, data⟩ := block
    simp only [hblock] at ha ⊢
    by_cases hroom : data.size ≤ capacity
    · rw [if_pos hroom] at ha ⊢
      cases ha
      refine ⟨(0, data), List.mem_singleton.mpr rfl, ?_, Nat.zero_le i, ?_⟩
      · rwa [Nat.zero_add]
      · rwa [Nat.zero_add]
    · rw [if_neg hroom] at ha
      cases ha
      rcases hs with hs | hs <;> cases hs

namespace Session

theorem leftovers_not_observable_putting :
    ∃ b c : Buffer, b.capacity = c.capacity ∧ b.bytes ≠ c.bytes ∧
      Indistinct {} ⟨fun _ => true⟩ 0
        (.ofWriter (.putting [(.ntStatus NtStatus.moreEntries, ⟨#[1, 2, 3]⟩),
          (.win32 Win32.success, ⟨#[4]⟩)]))
        (.ofView fun contents _ _ _ => pure (.returned contents))
        (.ofView fun contents _ _ _ => pure (.returned (Bytes.toList contents)))
        ⟨⟨{}, [b]⟩, 0⟩ ⟨⟨{}, [c]⟩, 0⟩ := by
  let b := Buffer.empty.extend 8 (by decide)
  let c := b.put (4, ⟨#[7]⟩)
  have hcapacity : b.capacity = c.capacity := (b.capacity_put _).symm
  have hwritten : Bytes.get c.bytes 4 = 7 := by
    rw [Buffer.get_put, if_pos]
    · rfl
    · rw [Buffer.capacity_extend]
      decide
  have hblank : Bytes.get b.bytes 4 = 0 := Buffer.get_of_made (.inr ⟨⟨fun _ => true⟩, 8, rfl⟩) 4
  refine ⟨b, c, hcapacity, ?_, ?_⟩
  · intro hsame
    rw [← hsame, hblank] at hwritten
    cases hwritten
  · refine leftovers_not_observable {} ⟨fun _ => true⟩ 0 (Writer.putting_covers _) _ _
      ⟨⟨rfl, ?_⟩, rfl⟩
    rw [List.map_singleton, List.map_singleton, hcapacity]

end Session

end NativeResource
