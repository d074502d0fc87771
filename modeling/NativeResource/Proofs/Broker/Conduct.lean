import NativeResource.Proofs.Handle.Arena
import NativeResource.Proofs.Host.Conduct
/-!
What the queries of a broker ask of the system. Each query makes calls of its own kind about the
value it borrowed, and frees nothing but texts that the system allocated for it; a handle that
cannot be borrowed is asked about nothing.
-/
namespace NativeResource

variable {σ ω : Type}

inductive Query where
  | finalPath
  | value (name : String)
  | subkeyNames
  | directoryEntries
  | linkTarget
  | objectName
  | objectType
  | tokenUser

namespace Query

def Found : Query → Type
  | finalPath | linkTarget | objectName | objectType | tokenUser => String
  | value _ => Option RegistryValue
  | subkeyNames => List String
  | directoryEntries => List DirectoryEntry

def run (b : Broker σ) (h : Handle σ) : (q : Query) → Run (Session σ) (Outcome q.Found)
  | finalPath => b.finalPath h
  | value name => b.queryValue h name
  | subkeyNames => b.subkeyNames h
  | directoryEntries => b.directoryEntries h
  | linkTarget => b.symbolicLinkTarget h
  | objectName => b.objectName h
  | objectType => b.objectType h
  | tokenUser => b.tokenUser h

/-- The calls that a query makes with the value it borrowed. -/
inductive Makes (raw : RawHandle) : Query → Request → Prop where
  | finalPath (into : Destination) (chars : UInt32) :
      Makes raw .finalPath (.finalPathName raw into chars 0)
  | value (name : String) (into : Destination) (size : UInt32) :
      Makes raw (.value name) (.queryValue raw (Utf16.encodeTerminated name) into size)
  | subkeyNames (index : UInt32) (into : Destination) (chars : UInt32) :
      Makes raw .subkeyNames (.enumerateKey raw index into chars)
  | directoryEntries (into : Destination) (length context : UInt32) :
      Makes raw .directoryEntries (.queryDirectory raw into length false false context)
  | linkTarget (into : Destination) (room : UInt16) :
      Makes raw .linkTarget (.querySymbolicLink raw into 0 room)
  | objectName (into : Destination) (length : UInt32) :
      Makes raw .objectName (.queryObject raw Broker.nameInformation into length)
  | objectType (into : Destination) (length : UInt32) :
      Makes raw .objectType (.queryObject raw Broker.typeInformation into length)
  | tokenUser (into : Destination) (length : UInt32) :
      Makes raw .tokenUser (.tokenInformation raw Broker.userInformation into length)
  | identifierText (identifier : Address) : Makes raw .tokenUser (.identifierText identifier)
  | freeText (text : RawHandle) : Makes raw .tokenUser (.localFree text)

end Query

namespace Handle

theorem borrow_eq_ok_iff {h : Handle σ} {raw : RawHandle} :
    h.borrow = .ok raw ↔ h.isInvalid = false ∧ h.released = false ∧ raw = h.raw := by
  unfold borrow
  cases h.isInvalid <;> cases h.released <;> simp [eq_comm]

theorem refused_of_borrow_error {h : Handle σ} {f : Failure} (hf : h.borrow = .error f) :
    f.kind = .invalidHandle ∧ f.context = none := by
  unfold borrow at hf
  split at hf
  · cases hf
    exact ⟨rfl, rfl⟩
  · split at hf
    · cases hf
      exact ⟨rfl, rfl⟩
    · cases hf

theorem borrow_of_released {h : Handle σ} (hr : h.released = true) :
    ∃ f, h.borrow = .error f ∧ f.kind = .invalidHandle := by
  cases hborrow : h.borrow with
  | ok raw =>
    have hlive := (borrow_eq_ok_iff.mp hborrow).2.1
    rw [hr] at hlive
    cases hlive
  | error f => exact ⟨f, rfl, (refused_of_borrow_error hborrow).1⟩

variable {seen : σ → List Exchange} {P : Request → Prop} {h : Handle σ}

theorem asks_release (hclose : (h.family.close h.raw).Asks seen P) : h.release.Asks seen P := by
  intro s
  cases hlive : h.isLive with
  | true =>
    rw [release_of_live hlive]
    exact hclose s
  | false =>
    rw [release_of_not_live hlive]
    exact .refl s

theorem state_drop (h : Handle σ) (s : σ) : (h.drop s).state = (h.release s).state := by
  rw [drop, Action.bind_apply]
  cases (h.release s).value.1 <;> rfl

theorem asks_drop (hclose : (h.family.close h.raw).Asks seen P) : h.drop.Asks seen P := by
  intro s
  rw [state_drop]
  exact asks_release hclose s

end Handle

namespace Broker

variable {h : Handle σ} {seen : σ → List Exchange} {P : Request → Prop} {b : Broker ω}

theorem asks_borrowing {α : Type} {query : RawHandle → Run (Session σ) (Outcome α)}
    (hquery : (query h.raw).Asks (fun s => seen s.state) P) :
    (borrowing h query).Asks (fun s => seen s.state) P := by
  unfold borrowing
  cases hborrow : h.borrow with
  | ok raw =>
    obtain ⟨-, -, rfl⟩ := Handle.borrow_eq_ok_iff.mp hborrow
    exact hquery
  | error f => exact Run.asks_pure _

theorem borrowing_of_error {α : Type} {query : RawHandle → Run (Session σ) (Outcome α)}
    {f : Failure} (hf : h.borrow = .error f) (s : Session σ) :
    borrowing h query s = some ⟨.failed f, s, []⟩ := by
  rw [borrowing, hf]
  rfl

variable (b : Broker ω) (raw : RawHandle)

theorem asks_pathCall :
    (b.observed.pathCall raw).Asks (fun u => u.state.2) (Query.Makes raw .finalPath) := by
  apply CountedCall.asks_filling
  intro buffer
  apply Action.asks_bind (b.host.asks_ask (.finalPath _ _))
  intro reply
  by_cases hzero : reply.count = 0
  · rw [if_pos hzero]
    exact Action.asks_bind (Host.asks_lastCode _) fun _ => Action.asks_pure _
  · rw [if_neg hzero]
    exact Action.asks_pure _

theorem asks_valueCall (name : String) :
    (b.observed.valueCall raw (Utf16.encodeTerminated name)).Asks
      (fun u => besideNote Prod.snd u.state) (Query.Makes raw (.value name)) := by
  apply Call.asks_filling
  intro buffer
  apply Action.asks_bind (Action.asks_onFirst (b.host.asks_ask (.value _ _ _)))
  intro reply
  exact Action.asks_bind (Action.asks_note _) fun _ => Action.asks_pure _

theorem asks_keyNameCall (index : UInt32) :
    (b.observed.keyNameCall raw index).Asks (fun u => u.state.2)
      (Query.Makes raw .subkeyNames) := by
  apply Call.asks_filling
  intro buffer
  exact Action.asks_bind (b.host.asks_ask (.subkeyNames _ _ _)) fun _ => Action.asks_pure _

theorem asks_directoryCall :
    (b.observed.directoryCall raw).Asks (fun u => besideNote Prod.snd u.state)
      (Query.Makes raw .directoryEntries) := by
  apply Call.asks_filling
  intro buffer
  apply Action.asks_bind Action.asks_noted
  intro context
  apply Action.asks_bind (Action.asks_onFirst (b.host.asks_ask (.directoryEntries _ _ _)))
  intro reply
  exact Action.asks_bind (Action.asks_note _) fun _ => Action.asks_pure _

theorem asks_linkCall :
    (b.observed.linkCall raw).Asks (fun u => u.state.2) (Query.Makes raw .linkTarget) := by
  apply Call.asks_filling
  intro buffer
  exact Action.asks_bind (b.host.asks_ask (.linkTarget _ _)) fun _ => Action.asks_pure _

theorem asks_objectCall {informationClass : UInt32}
    (hP : ∀ into length, P (.queryObject raw informationClass into length)) :
    (b.observed.objectCall informationClass raw).Asks (fun u => u.state.2) P := by
  apply Call.asks_filling
  intro buffer
  exact Action.asks_bind (b.host.asks_ask (hP _ _)) fun _ => Action.asks_pure _

theorem asks_userCall :
    (b.observed.userCall raw).Asks (fun u => u.state.2) (Query.Makes raw .tokenUser) := by
  apply Call.asks_filling
  intro buffer
  apply Action.asks_bind (b.host.asks_ask (.tokenUser _ _))
  intro reply
  dsimp only
  split
  · exact Action.asks_bind (Action.asks_pure _) fun _ => Action.asks_pure _
  · exact Action.asks_bind (Host.asks_lastCode _) fun _ => Action.asks_pure _

/-- After the one call for it, the text of an identifier is only read, and freed by whoever asked
for it. -/
theorem exists_identifierText_eq (hfree : ∀ text, P (.localFree text)) (identifier : Address) :
    ∃ f, identifierText b.observed.host identifier =
        (b.observed.host.ask (.identifierText identifier) >>= f) ∧
      ∀ reply, (f reply).Asks Prod.snd P := by
  have hclose : ∀ text, ((b.observed.host.family .localMemory).close text).Asks Prod.snd P := by
    intro text
    apply Action.asks_bind (b.host.asks_ask (hfree text))
    intro rest
    exact b.observed.host.asks_checkFlag _
  refine ⟨_, rfl, ?_⟩
  intro (reply : IdentifierReply)
  split
  · apply Action.asks_bind (Action.asks_quiet fun _ => rfl)
    intro text
    apply Action.asks_bind_value (Handle.asks_release (hclose _))
    intro w
    have hdropped := Handle.handle_release
      (b.observed.host.own .localMemory reply.text.toInt64) w
    generalize ((b.observed.host.own .localMemory reply.text.toInt64).release w).value = released
      at hdropped ⊢
    obtain ⟨freed, _⟩ := released
    cases hdropped
    exact Action.asks_bind (Handle.asks_drop (hclose _)) fun _ => Action.asks_pure _
  · exact Host.asks_failLast _

theorem asks_identifierText (htext : ∀ identifier, P (.identifierText identifier))
    (hfree : ∀ text, P (.localFree text)) (identifier : Address) :
    (identifierText b.observed.host identifier).Asks Prod.snd P := by
  obtain ⟨f, heq, hf⟩ := b.exists_identifierText_eq hfree identifier
  rw [heq]
  exact Action.asks_bind (b.host.asks_ask (htext identifier)) hf

theorem asks_decodeUser (htext : ∀ identifier, P (.identifierText identifier))
    (hfree : ∀ text, P (.localFree text)) (buffer : Buffer) (n : Nat) :
    (b.observed.decodeUser buffer n).Asks Prod.snd P := by
  unfold decodeUser
  cases Layout.tokenUser? buffer with
  | none => exact Action.asks_pure _
  | some identifier =>
    exact Action.asks_bind (b.asks_identifierText htext hfree identifier) fun _ =>
      Action.asks_pure _

theorem asks_subkeyNamesFrom {raw : RawHandle}
    (hcall : ∀ index, (b.observed.keyNameCall raw index).Asks (fun u => u.state.2) P)
    (remaining index : Nat) (names : List String) :
    (b.observed.subkeyNamesFrom raw remaining index names).Asks (fun s => s.state.2) P := by
  induction remaining generalizing index names with
  | zero => exact Run.asks_pure _
  | succ remaining ih =>
    apply Run.asks_bind (Session.asks_single (hcall _) fun _ _ => Action.asks_pure _)
    intro outcome
    cases outcome with
    | returned name => exact ih (index + 1) (name :: names)
    | failed f =>
      dsimp only
      split
      · exact Run.asks_pure _
      · exact Run.asks_pure _
    | panicked => exact Run.asks_pure _

end Broker

namespace Query

/-- What holds of every buffer-filling call of a query, on a host under observation. -/
def AllCalls (F : ∀ {σ : Type}, (σ → List Exchange) → Call σ → Prop) (b : Broker ω)
    (raw : RawHandle) : Query → Prop
  | finalPath => F Prod.snd (b.observed.pathCall raw).toCall
  | value name =>
    F (besideNote Prod.snd) (b.observed.valueCall raw (Utf16.encodeTerminated name))
  | subkeyNames => ∀ index, F Prod.snd (b.observed.keyNameCall raw index)
  | directoryEntries => F (besideNote Prod.snd) (b.observed.directoryCall raw)
  | linkTarget => F Prod.snd (b.observed.linkCall raw)
  | objectName => F Prod.snd (b.observed.objectCall Broker.nameInformation raw)
  | objectType => F Prod.snd (b.observed.objectCall Broker.typeInformation raw)
  | tokenUser => F Prod.snd (b.observed.userCall raw)

/-- A query asks for what its buffer-filling calls ask for, and that of a token for the text of an
identifier and its release. -/
theorem asks_of_allCalls {P : Request → Prop} (b : Broker ω) (h : Handle (ω × List Exchange))
    {q : Query}
    (hcalls : q.AllCalls (fun seen call => call.Asks (fun u => seen u.state) P) b h.raw)
    (htext : q = tokenUser → ∀ identifier, P (.identifierText identifier))
    (hfree : q = tokenUser → ∀ text, P (.localFree text)) :
    (q.run b.observed h).Asks (fun s => s.state.2) P := by
  cases q with
  | finalPath =>
    exact Broker.asks_borrowing (Session.asks_single hcalls fun _ _ => Action.asks_pure _)
  | value name =>
    apply Broker.asks_borrowing
    apply Run.asks_bind _ fun _ => Run.asks_pure _
    exact Session.asks_withNote _ (Session.asks_single hcalls fun _ _ =>
      Action.asks_bind Action.asks_noted fun _ => Action.asks_pure _)
  | subkeyNames => exact Broker.asks_borrowing (b.asks_subkeyNamesFrom hcalls _ _ _)
  | directoryEntries =>
    apply Broker.asks_borrowing
    exact Session.asks_withNote _ (Session.asks_enumerate hcalls fun _ _ =>
      Action.asks_quiet fun _ => rfl)
  | linkTarget =>
    exact Broker.asks_borrowing (Session.asks_single hcalls fun _ _ => Action.asks_pure _)
  | objectName | objectType =>
    exact Broker.asks_borrowing (Session.asks_single hcalls fun _ _ =>
      Action.asks_quiet fun _ => rfl)
  | tokenUser =>
    exact Broker.asks_borrowing (Session.asks_single hcalls
      (b.asks_decodeUser (htext rfl) (hfree rfl)))

theorem asks_run (b : Broker ω) (h : Handle (ω × List Exchange)) (q : Query) :
    (q.run b.observed h).Asks (fun s => s.state.2) (q.Makes h.raw) := by
  apply asks_of_allCalls b h
  · cases q with
    | finalPath => exact b.asks_pathCall h.raw
    | value name => exact b.asks_valueCall h.raw name
    | subkeyNames => exact b.asks_keyNameCall h.raw
    | directoryEntries => exact b.asks_directoryCall h.raw
    | linkTarget => exact b.asks_linkCall h.raw
    | objectName => exact b.asks_objectCall h.raw .objectName
    | objectType => exact b.asks_objectCall h.raw .objectType
    | tokenUser => exact b.asks_userCall h.raw
  · rintro rfl
    exact .identifierText
  · rintro rfl
    exact .freeText

theorem run_of_error (b : Broker σ) {h : Handle σ} {f : Failure} (hf : h.borrow = .error f)
    (q : Query) (s : Session σ) : q.run b h s = some ⟨.failed f, s, []⟩ := by
  cases q <;> exact Broker.borrowing_of_error hf s

end Query

end NativeResource
