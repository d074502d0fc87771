import NativeResource.Host.Script
import NativeResource.Proofs.Broker.Acquiring
/-!
The tenure of a handle: what is done through it and through views of it, from its acquisition on.
Of all that, only releasing or dropping the handle itself closes anything. So the system sees no
close before that and one close afterwards, by the call that belongs to the handle's family.
-/
namespace NativeResource

variable {σ ω : Type}

def Host.closing (host : Host ω) : ResourceFamily → RawHandle → Request
  | .file, raw | .kernelObject, raw => .closeHandle raw
  | .ntObject, raw => .closeObject raw
  | .registryKey, raw => .closeKey raw
  | .certificateStore, raw => .closeStore raw 0
  | .heapMemory, raw => .heapFree host.processHeap 0 raw
  | .globalMemory, raw => .globalFree raw
  | .localMemory, raw => .localFree raw

/-- Whether a call closes a handle or frees a block that was acquired. Texts that the system
allocated for a query are not acquired, so freeing them does not count. -/
def Request.closes : Request → Bool
  | .closeHandle .. | .closeObject .. | .closeKey .. | .closeStore .. | .heapFree ..
  | .globalFree .. => true
  | _ => false

def closings (calls : List Exchange) : List Request :=
  (calls.map Exchange.request).filter Request.closes

def ClosedSince (first : List Exchange) (closed : List Request) (s : ω × List Exchange) : Prop :=
  ∃ since, s.2 = since ++ first ∧ closings since = closed

structure LentView (σ : Type) where
  handle : Handle σ
  late : Bool

/-- The view closes nothing, and one that was taken late cannot be borrowed. -/
structure LentView.Harmless (v : LentView σ) : Prop where
  owns : v.handle.owns = false
  late : v.late = true → v.handle.released = true

theorem LentView.Harmless.not_live {v : LentView σ} (h : v.Harmless) :
    v.handle.isLive = false := by
  rw [Handle.isLive, h.owns, Bool.and_false, Bool.false_and]

/-- A handle with the views of it that are around. -/
structure Tenure (σ : Type) where
  /-- None once the handle was dropped. -/
  wrapper : Option (Handle σ)
  /-- Whether the handle was released or dropped. -/
  ended : Bool := false
  views : List (LentView σ) := []
  session : Session σ

namespace Tenure

inductive Holds (t : Tenure σ) : Handle σ → Prop where
  | wrapper {h : Handle σ} : t.wrapper = some h → Holds t h
  | view {v : LentView σ} : v ∈ t.views → Holds t v.handle

/-- The handles through which nothing can be done any more: the released one, and the views that
were taken of it after that. -/
inductive Spent (t : Tenure σ) : Handle σ → Prop where
  | wrapper {h : Handle σ} : t.wrapper = some h → t.ended = true → Spent t h
  | view {v : LentView σ} : v ∈ t.views → v.late = true → Spent t v.handle

inductive Step (b : Broker σ) : Tenure σ → Tenure σ → Prop where
  | borrow (t : Tenure σ) {h : Handle σ} {result : Except Failure RawHandle} :
      t.Holds h → h.borrow = result → Step b t t
  | view (t : Tenure σ) {h : Handle σ} : t.wrapper = some h →
      Step b t { t with views := ⟨h.view, t.ended⟩ :: t.views }
  | viewOfView (t : Tenure σ) {v : LentView σ} : v ∈ t.views →
      Step b t { t with views := ⟨v.handle.view, v.late⟩ :: t.views }
  | query (t : Tenure σ) {h : Handle σ} (q : Query)
      {e : Effect (Session σ) (Outcome q.Found)} :
      t.Holds h → q.run b h t.session = some e → Step b t { t with session := e.state }
  | openBelow (t : Tenure σ) {h : Handle σ} (subkey : String) (access : UInt32)
      {result : Except Failure (Handle σ)} {s : σ} {log : List Event} :
      t.Holds h → b.host.openRegistryKey h subkey access t.session.state = ⟨result, s, log⟩ →
      Step b t { t with session := ⟨t.session.pool, s⟩ }
  | release (t : Tenure σ) {h released : Handle σ} {result : Except Failure Unit} {s : σ}
      {log : List Event} :
      t.wrapper = some h → h.release t.session.state = ⟨(result, released), s, log⟩ →
      Step b t { t with wrapper := some released, ended := true, session := ⟨t.session.pool, s⟩ }
  | drop (t : Tenure σ) {h : Handle σ} {s : σ} {log : List Event} :
      t.wrapper = some h → h.drop t.session.state = ⟨(), s, log⟩ →
      Step b t { t with wrapper := none, ended := true, session := ⟨t.session.pool, s⟩ }
  | releaseView (t : Tenure σ) {before after : List (LentView σ)} {v : LentView σ}
      {released : Handle σ} {result : Except Failure Unit} {s : σ} {log : List Event} :
      t.views = before ++ v :: after →
      v.handle.release t.session.state = ⟨(result, released), s, log⟩ →
      Step b t { t with
        views := before ++ ⟨released, v.late⟩ :: after, session := ⟨t.session.pool, s⟩ }
  | dropView (t : Tenure σ) {before after : List (LentView σ)} {v : LentView σ} {s : σ}
      {log : List Event} :
      t.views = before ++ v :: after → v.handle.drop t.session.state = ⟨(), s, log⟩ →
      Step b t { t with views := before ++ after, session := ⟨t.session.pool, s⟩ }

inductive Execution (b : Broker σ) : Tenure σ → Tenure σ → Prop where
  | refl (t : Tenure σ) : Execution b t t
  | tail {t u v : Tenure σ} : Execution b t u → Step b u v → Execution b t v

end Tenure

section Closings

variable {first : List Exchange} {closed : List Request} {w v : ω × List Exchange}

theorem closings_append (later earlier : List Exchange) :
    closings (later ++ earlier) = closings later ++ closings earlier := by
  rw [closings, List.map_append, List.filter_append]
  rfl

theorem closings_eq_nil {calls : List Exchange} (h : ∀ x ∈ calls, x.request.closes = false) :
    closings calls = [] := by
  rw [closings, List.filter_eq_nil_iff]
  intro r hr
  obtain ⟨x, hx, rfl⟩ := List.mem_map.mp hr
  rw [h x hx]
  exact Bool.false_ne_true

theorem ClosedSince.refl (w : ω × List Exchange) : ClosedSince w.2 [] w := ⟨[], rfl, rfl⟩

theorem ClosedSince.callsOnly (h : ClosedSince first closed w)
    (hcalls : CallsOnly Prod.snd (fun r => r.closes = false) w v) :
    ClosedSince first closed v := by
  obtain ⟨since, hsince, hclosed⟩ := h
  obtain ⟨more, hmore, hother⟩ := hcalls
  refine ⟨more ++ since, ?_, ?_⟩
  · rw [hmore, hsince, List.append_assoc]
  · rw [closings_append, closings_eq_nil hother, hclosed]
    rfl

theorem ClosedSince.close {r : Request} {reply : r.Reply} (h : ClosedSince first closed w)
    (hr : r.closes = true) (hcalls : v.2 = ⟨r, reply⟩ :: w.2) :
    ClosedSince first (r :: closed) v := by
  obtain ⟨since, hsince, hclosed⟩ := h
  refine ⟨⟨r, reply⟩ :: since, ?_, ?_⟩
  · rw [hcalls, hsince]
    rfl
  · rw [closings, List.map_cons, List.filter_cons_of_pos hr, ← hclosed]
    rfl

theorem Query.Makes.not_closes {q : Query} {raw : RawHandle} {r : Request}
    (h : q.Makes raw r) : r.closes = false := by
  cases h <;> rfl

theorem Host.close_calls (host : Host ω) (f : ResourceFamily) (raw : RawHandle)
    (w : ω × List Exchange) :
    ∃ reply, (host.observed.close f raw w).state.2 = ⟨host.closing f raw, reply⟩ :: w.2 := by
  cases f with
  | file | kernelObject | certificateStore | heapMemory | globalMemory | localMemory =>
    exact ⟨_, congrArg Prod.snd (host.observed.checkFlag_apply _ _).1⟩
  | ntObject | registryKey => exact ⟨_, rfl⟩

end Closings

namespace Tenure

/-- What holds throughout the tenure of a handle on a value that is no sentinel. -/
structure Invariant (b : Broker ω) (f : ResourceFamily) (raw : RawHandle)
    (first : List Exchange) (t : Tenure (ω × List Exchange)) : Prop where
  closed : ClosedSince first (if t.ended then [b.host.closing f raw] else []) t.session.state
  wrapper : ∀ h, t.wrapper = some h → h = { b.observed.host.own f raw with released := t.ended }
  dropped : t.wrapper = none → t.ended = true
  views : ∀ v ∈ t.views, v.Harmless

variable {b : Broker ω} {f : ResourceFamily} {raw : RawHandle} {first : List Exchange}
  {t u : Tenure (ω × List Exchange)}

theorem start_invariant (b : Broker ω) (f : ResourceFamily) (raw : RawHandle)
    (s : Session (ω × List Exchange)) :
    Invariant b f raw s.state.2 { wrapper := some (b.observed.host.own f raw), session := s } := by
  refine ⟨.refl s.state, ?_, nofun, nofun⟩
  intro h hh
  cases hh
  rfl

namespace Invariant

theorem views_split (h : Invariant b f raw first t)
    {before after : List (LentView (ω × List Exchange))} {v : LentView (ω × List Exchange)}
    (hviews : t.views = before ++ v :: after) :
    (∀ w ∈ before, w.Harmless) ∧ v.Harmless ∧ ∀ w ∈ after, w.Harmless := by
  have hall := h.views
  rw [hviews, List.forall_mem_append, List.forall_mem_cons] at hall
  exact hall

theorem closed_of_release (h : Invariant b f raw first t) (hraw : f.sentinel.holds raw = false)
    (hf : (b.host.closing f raw).closes = true) {held : Handle (ω × List Exchange)}
    (hheld : t.wrapper = some held) :
    ClosedSince first [b.host.closing f raw] (held.release t.session.state).state := by
  have hclosed := h.closed
  have howned := h.wrapper held hheld
  by_cases hended : t.ended = true
  · have hdone : held.isLive = false := by
      rw [howned, hended]
      rfl
    rw [if_pos hended] at hclosed
    rw [Handle.release_of_not_live hdone]
    exact hclosed
  · have hlive : held.isLive = true := by
      rw [howned, Bool.eq_false_iff.mpr hended]
      simp only [Handle.isLive, Host.own, Handle.isInvalid, Host.family, hraw]
      rfl
    rw [if_neg hended] at hclosed
    obtain ⟨reply, hcalls⟩ := b.host.close_calls f raw t.session.state
    rw [Handle.release_of_live hlive, howned]
    exact hclosed.close hf hcalls

end Invariant

theorem step_preserves_invariant (h : Invariant b f raw first t)
    (hraw : f.sentinel.holds raw = false) (hf : (b.host.closing f raw).closes = true)
    (hstep : Step b.observed t u) : Invariant b f raw first u := by
  cases hstep with
  | borrow => exact h
  | @view held hheld =>
    refine ⟨h.closed, h.wrapper, h.dropped, List.forall_mem_cons.mpr ⟨⟨rfl, ?_⟩, h.views⟩⟩
    intro hlate
    rw [h.wrapper held hheld]
    exact hlate
  | @viewOfView source hsource =>
    have hview : LentView.Harmless ⟨source.handle.view, source.late⟩ :=
      ⟨rfl, (h.views source hsource).late⟩
    exact ⟨h.closed, h.wrapper, h.dropped, List.forall_mem_cons.mpr ⟨hview, h.views⟩⟩
  | @query held q e hheld hrun =>
    refine ⟨h.closed.callsOnly ?_, h.wrapper, h.dropped, h.views⟩
    exact (q.asks_run b held t.session e hrun).mono fun r hr => hr.not_closes
  | @openBelow held subkey access result s log hheld hopen =>
    refine ⟨h.closed.callsOnly ?_, h.wrapper, h.dropped, h.views⟩
    have hcalls := b.host.asks_openRegistryKey held subkey access
      (P := fun r => r.closes = false) (fun root => rfl) t.session.state
    have hstate := congrArg Effect.state hopen
    rw [← show _ = s from hstate]
    exact hcalls
  | @release held released result s log hheld hrelease =>
    have hclosed := h.closed_of_release hraw hf hheld
    have hreleased := held.handle_release t.session.state
    rw [hrelease] at hclosed hreleased
    refine ⟨hclosed, ?_, fun _ => rfl, h.views⟩
    intro w hw
    cases hw
    rw [show released = _ from hreleased, h.wrapper held hheld]
    rfl
  | @drop held s log hheld hdrop =>
    have hclosed := h.closed_of_release hraw hf hheld
    rw [← Handle.state_drop, hdrop] at hclosed
    exact ⟨hclosed, nofun, fun _ => rfl, h.views⟩
  | @releaseView before after v released result s log hviews hrelease =>
    obtain ⟨hbefore, hv, hafter⟩ := h.views_split hviews
    rw [Handle.release_of_not_live hv.not_live] at hrelease
    cases hrelease
    have hreleased : LentView.Harmless ⟨v.handle.markReleased, v.late⟩ := ⟨hv.owns, fun _ => rfl⟩
    exact ⟨h.closed, h.wrapper, h.dropped,
      List.forall_mem_append.mpr ⟨hbefore, List.forall_mem_cons.mpr ⟨hreleased, hafter⟩⟩⟩
  | @dropView before after v s log hviews hdrop =>
    obtain ⟨hbefore, hv, hafter⟩ := h.views_split hviews
    have hstate := Handle.state_drop v.handle t.session.state
    rw [hdrop, Handle.release_of_not_live hv.not_live] at hstate
    cases hstate
    exact ⟨h.closed, h.wrapper, h.dropped, List.forall_mem_append.mpr ⟨hbefore, hafter⟩⟩

theorem execution_preserves_invariant (h : Invariant b f raw first t)
    (hraw : f.sentinel.holds raw = false) (hf : (b.host.closing f raw).closes = true)
    (hrun : Execution b.observed t u) : Invariant b f raw first u := by
  induction hrun with
  | refl => exact h
  | tail _ hstep ih => exact step_preserves_invariant ih hraw hf hstep

theorem execution_of_opens {obtained : Option RawHandle}
    {result : Except Failure (Handle (ω × List Exchange))} {h : Handle (ω × List Exchange)}
    {s : Session (ω × List Exchange)} (hopens : b.observed.host.Opens f obtained result)
    (hok : result = .ok h) (hf : ∀ raw, (b.host.closing f raw).closes = true)
    (hrun : Execution b.observed { wrapper := some h, session := s } t) :
    Invariant b f h.raw s.state.2 t := by
  obtain ⟨raw, -, hraw, rfl⟩ := (hopens h).mp hok
  exact execution_preserves_invariant (start_invariant b f raw s) hraw (hf raw) hrun

theorem Invariant.released_of_spent (h : Invariant b f raw first t)
    {spent : Handle (ω × List Exchange)} (hspent : t.Spent spent) : spent.released = true := by
  cases hspent with
  | wrapper hheld hended =>
    rw [h.wrapper spent hheld]
    exact hended
  | view hv hlate => exact (h.views _ hv).late hlate

end Tenure

structure Handle.Refused (b : Broker σ) (h : Handle σ) (s : Session σ) : Prop where
  query : ∀ q : Query, ∃ failure, q.run b h s = some ⟨.failed failure, s, []⟩ ∧
    failure.kind = .invalidHandle
  openBelow : ∀ subkey access, ∃ failure,
    b.host.openRegistryKey h subkey access s.state = ⟨.error failure, s.state, []⟩ ∧
      failure.kind = .invalidHandle

theorem Handle.refused_of_released {h : Handle σ} (hr : h.released = true) (b : Broker σ)
    (s : Session σ) : h.Refused b s := by
  obtain ⟨failure, hborrow, hkind⟩ := borrow_of_released hr
  constructor
  · intro q
    exact ⟨failure, q.run_of_error b hborrow s, hkind⟩
  · intro subkey access
    exact ⟨failure, Host.openRegistryKey_of_error hborrow b.host subkey access s.state, hkind⟩

def Exchange.obtained? (x : Exchange) : Option RawHandle := x.request.obtained? x.reply

namespace Acquisition

def exchange? (a : Acquisition σ) (host : Host ω) (w : ω) : Option Exchange :=
  (a.request? host.processHeap).map fun r => ⟨r, (host.perform r w).1⟩

theorem closing_closes (a : Acquisition σ) (host : Host ω) (raw : RawHandle) :
    (host.closing a.family raw).closes = true := by
  cases a <;> rfl

/-- What an acquisition leads to on an observed host, from its call to the end of the handle that
it gave. -/
structure Account (b : Broker ω) (a : Acquisition (ω × List Exchange)) (w : ω × List Exchange)
    (e : Effect (ω × List Exchange) (Except Failure (Handle (ω × List Exchange)))) : Prop where
  calls : e.state.2 = (a.exchange? b.host w.1).toList ++ w.2
  opens : b.observed.host.Opens a.family ((a.exchange? b.host w.1).bind Exchange.obtained?) e.value
  kept : ∀ h pool t, e.value = .ok h →
    Tenure.Execution b.observed { wrapper := some h, session := ⟨pool, e.state⟩ } t →
    t.ended = false → ClosedSince e.state.2 [] t.session.state
  closed : ∀ h pool t, e.value = .ok h →
    Tenure.Execution b.observed { wrapper := some h, session := ⟨pool, e.state⟩ } t →
    t.wrapper = none → ClosedSince e.state.2 [b.host.closing a.family h.raw] t.session.state
  refused : ∀ h pool t spent, e.value = .ok h →
    Tenure.Execution b.observed { wrapper := some h, session := ⟨pool, e.state⟩ } t →
    t.Spent spent → spent.Refused b.observed t.session

theorem calls_and_opens (b : Broker ω) (a : Acquisition (ω × List Exchange))
    (w : ω × List Exchange) :
    (a.perform b.observed.host w).state.2 = (a.exchange? b.host w.1).toList ++ w.2 ∧
      b.observed.host.Opens a.family ((a.exchange? b.host w.1).bind Exchange.obtained?)
        (a.perform b.observed.host w).value := by
  cases hr : a.request? b.host.processHeap with
  | none =>
    have hnone : a.request? b.observed.host.processHeap = none := hr
    obtain ⟨failure, hrun⟩ := perform_of_none hnone w
    rw [hrun, exchange?, hr]
    exact ⟨rfl, Host.opens_none failure⟩
  | some r =>
    have hsome : a.request? b.observed.host.processHeap = some r := hr
    obtain ⟨hstate, hopens⟩ := perform_of_some hsome w
    rw [hstate, exchange?, hr]
    exact ⟨rfl, hopens⟩

/-- An acquisition makes one native call at most, and gives a handle exactly if that call told
success in its own way and handed out a value that is not its family's sentinel. The handle owns
that value. Whatever is done through it and through views of it, nothing is closed before it is
released or dropped; once it is dropped the system has seen one close, the one of its family and of
that value. What is asked of it after its release, or of a view taken after that, reaches no native
call. -/
theorem gives_one_handle_closed_once (b : Broker ω) (a : Acquisition (ω × List Exchange))
    (w : ω × List Exchange) : a.Account b w (a.perform b.observed.host w) := by
  obtain ⟨hcalls, hopens⟩ := calls_and_opens b a w
  have hf := a.closing_closes b.host
  refine ⟨hcalls, hopens, ?_, ?_, ?_⟩
  · intro h pool t hok hrun hended
    have hclosed := (Tenure.execution_of_opens hopens hok hf hrun).closed
    rw [hended] at hclosed
    exact hclosed
  · intro h pool t hok hrun hdropped
    have hinvariant := Tenure.execution_of_opens hopens hok hf hrun
    have hclosed := hinvariant.closed
    rw [hinvariant.dropped hdropped] at hclosed
    exact hclosed
  · intro h pool t spent hok hrun hspent
    have hinvariant := Tenure.execution_of_opens hopens hok hf hrun
    exact Handle.refused_of_released (hinvariant.released_of_spent hspent) b.observed t.session

theorem gives_one_handle_closed_once_file :
    let b : Broker HostScript := ⟨HostScript.host 7, ⟨fun _ => true⟩, {}⟩
    let opened := (file "a" 1 2 3).perform b.observed.host ({ answers := [{ result := 5 }] }, [])
    ∃ h t, opened.value = .ok h ∧
      Tenure.Execution b.observed { wrapper := some h, session := ⟨⟨{}, []⟩, opened.state⟩ } t ∧
      t.wrapper = none ∧ ClosedSince opened.state.2 [.closeHandle 5] t.session.state ∧
      ∃ v ∈ t.views, v.handle.Refused b.observed t.session := by
  intro b opened
  have haccount := gives_one_handle_closed_once b (file "a" 1 2 3)
    ({ answers := [{ result := 5 }] }, [])
  have hok : opened.value = .ok (b.observed.host.own .file 5) := rfl
  have hrun : Tenure.Execution b.observed
      { wrapper := some (b.observed.host.own .file 5), session := ⟨⟨{}, []⟩, opened.state⟩ } _ :=
    (((Tenure.Execution.refl _).tail (.release _ rfl rfl)).tail (.view _ rfl)).tail
      (.drop _ rfl rfl)
  have hview := List.mem_singleton_self
    (⟨(b.observed.host.own .file 5).markReleased.view, true⟩ :
      LentView (HostScript × List Exchange))
  exact ⟨_, _, hok, hrun, rfl, haccount.closed _ _ _ hok hrun rfl, _, hview,
    haccount.refused _ _ _ _ hok hrun (.view hview rfl)⟩

end Acquisition

end NativeResource
