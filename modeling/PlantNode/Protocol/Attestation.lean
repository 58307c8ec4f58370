import PlantNode.Charter.Attestation
import PlantNode.Telemetry.Drain
import PlantNode.Telemetry.Gate

/-!
# Devices, charter and the attestation topic

Any number of devices share the attestation topic with one charter.  Everything
published there is kept in a log with its origin, and a delivery on the topic is of a
message in the log.  `answered` lists the devices a query of which the charter has
answered; no step reads it, nor the origins.
-/

namespace PlantNode.Protocol.Attestation

open Foundation Crypto Comms Telemetry Charter

variable {ι K : Type}

inductive Origin (ι : Type) where
  | device (i : ι)
  | charter
  deriving DecidableEq, Repr

structure Message (ι : Type) where
  origin : Origin ι
  payload : List UInt8
  deriving DecidableEq, Repr

structure System (ι K : Type) where
  devices : ι → Telemetry.State K
  log : List (Message ι)
  answered : List ι

def System.boot (zero : K) : System ι K where
  devices _ := .boot zero
  log := []
  answered := []

/-- A step of a device, or the charter handles a message; `printed` as for
`handle_attestation_message`. -/
inductive Action (ι K : Type) where
  | device (i : ι) (a : Telemetry.Action K)
  | charter (m : Message ι) (printed : Bool)

/-- What a step of a device sends on the attestation topic. -/
def sends (d : Telemetry.State K) : Telemetry.Action K → List (List UInt8)
  | .comms (.mqtt o) =>
      match d.comms.pc with
      | .publishing p _ =>
          if p.topic = TopicAttestation ∧ (0 ≤ o.ret ∨ o.sent) then [p.payload] else []
      | _ => []
  | _ => []

/-- Only what is in the log is delivered on the attestation topic. -/
def deliverable (log : List (Message ι)) (cbs : List Callback) : Bool :=
  cbs.all fun
    | .publish _ topic payload =>
        decide (topic = TopicAttestation → payload ∈ log.map Message.payload)
    | .ack _ _ => true

/-- The evidence of a device carries its own id. -/
def ownEvidence (id : List UInt8) : Telemetry.Action K → Bool
  | .ask (some e) => decide (e.device = id)
  | _ => true

/-- One step of a device, or one message handled by the charter. -/
def step [DecidableEq ι] (ids : ι → List UInt8) (box : SecretBox K)
    (float : List UInt8 → List UInt8) (s : System ι K) : Action ι K → Option (System ι K)
  | .device i a =>
      let log := s.log ++ (sends (s.devices i) a).map fun payload ↦ ⟨.device i, payload⟩
      if ownEvidence (ids i) a && deliverable log a.callbacks then
        (Telemetry.step box (s.devices i) a).map fun d ↦
          { s with devices := Function.update s.devices i d, log := log }
      else none
  | .charter m printed =>
      if m ∈ s.log then
        match handleAttestationMessage float true printed m.payload with
        | none => some s
        | some response => some { s with
            log := s.log ++ [⟨.charter, response⟩]
            answered := match m.origin with
              | .device i => s.answered ++ [i]
              | .charter => s.answered }
      else none

/-- An answer that a device keeps comes after the charter has answered that device. -/
def AnsweredFirst (s : System ι K) : Action ι K → Prop
  | .device i a => (s.devices i).comms.mailbox.sRaPending = false →
      ∀ payload, Offers a.callbacks payload → ⟨.charter, payload⟩ ∈ s.log → i ∈ s.answered
  | .charter _ _ => True

/-! ## Queries -/

/-- A device publishes nothing but queries on the attestation topic. -/
def Asks (p : Publication K) : Prop :=
  p.topic = TopicAttestation → ∃ e, p.payload = queryText e

section Devices

variable {box : SecretBox K} {d d' : Telemetry.State K} {a : Telemetry.Action K}

theorem ping_ne : TopicPing ≠ TopicAttestation := by decide

theorem key_ne : TopicKey ≠ TopicAttestation := by decide

theorem telemetry_ne : TopicTelemetry ≠ TopicAttestation := by decide

theorem asks_of_topic {p : Publication K} (h : p.topic ≠ TopicAttestation) : Asks p :=
  fun htopic ↦ absurd htopic h

theorem asks_call {request : Request} {pc : Telemetry.Pc}
    (h : ∀ p, request.Opens d.comms.session (.publishing p []) → Asks p) :
    (Telemetry.call box d request pc).comms.pc.Publishes Asks := by
  obtain ⟨session, pc', heq, -, hopens⟩ := startCall_spec box d.comms request
  simp only [Telemetry.call, heq]
  exact hopens.publishes (asks_of_topic ping_ne) h

theorem asks_step (h : Telemetry.step box d a = some d') (hd : d.comms.pc.Publishes Asks) :
    d'.comms.pc.Publishes Asks := by
  rcases Telemetry.step_cases h with ⟨b, c, rfl, hcall, hstep, rfl⟩ | ⟨last, -, hown⟩
  · exact step_publishes hcall hstep hd
  · cases hown with
    | first hpc => exact asks_call fun p hp ↦ hp.elim
    | retry hpc hlast => exact asks_call fun p hp ↦ hp.elim
    | session kx hpc hlast =>
        refine asks_call fun p hp ↦ asks_of_topic ?_
        cases hp
        exact key_ne
    | query e hpc hattested =>
        refine asks_call fun p hp ↦ ?_
        cases hp
        exact fun _ ↦ ⟨e, rfl⟩
    | report reading seed hpc hattested =>
        refine asks_call fun p hp ↦ asks_of_topic ?_
        rw [hp.1]
        exact telemetry_ne
    | poll i hpc hi => exact asks_call fun p hp ↦ hp.elim
    | drained i hpc =>
        obtain ⟨mailbox, taken, attested, heq, -⟩ := drainRaMessages_spec d
        rw [heq]
        exact hd
    | _ => exact hd

theorem asks_sends (hd : d.comms.pc.Publishes Asks) {payload : List UInt8}
    (h : payload ∈ sends d a) : ∃ e, payload = queryText e := by
  unfold sends at h
  split at h
  · split at h
    · rename_i p packets hpc
      rw [hpc] at hd
      split at h
      · rename_i hsent
        rw [List.mem_singleton.mp h]
        exact hd hsent.1
      · cases h
    · cases h
  · cases h

end Devices

/-! ## Runs -/

/-- What a delivery can bring, and what the devices have of it. -/
structure Matched (s : System ι K) : Prop where
  queries : ∀ m ∈ s.log, m.origin ≠ .charter → ∃ e, m.payload = queryText e
  publishes : ∀ i, (s.devices i).comms.pc.Publishes Asks
  slot : ∀ i, (s.devices i).comms.mailbox.sRaPending = true → i ∈ s.answered
  attested : ∀ i, (s.devices i).sAttested = true → i ∈ s.answered

theorem matched_boot (zero : K) : Matched (System.boot zero : System ι K) where
  queries _ hm := nomatch hm
  publishes _ := trivial
  slot _ := nofun
  attested _ := nofun

/-- Whatever passes the filter of a device is an answer of the charter. -/
theorem charter_of_offers {log : List (Message ι)}
    (hqueries : ∀ m ∈ log, m.origin ≠ .charter → ∃ e, m.payload = queryText e)
    {cbs : List Callback} (hcbs : deliverable log cbs = true) {payload : List UInt8}
    (h : Offers cbs payload) : ⟨.charter, payload⟩ ∈ log := by
  obtain ⟨hmem, hquery, -⟩ := h
  have hlog := of_decide_eq_true (List.all_eq_true.mp hcbs _ hmem)
  obtain ⟨m, hm, rfl⟩ := List.mem_map.mp (hlog rfl)
  cases horigin : m.origin with
  | charter =>
      rw [← horigin]
      exact hm
  | device i =>
      obtain ⟨e, he⟩ := hqueries m hm (by rw [horigin]; nofun)
      rw [he, contains_queryText] at hquery
      cases hquery

theorem Matched.queries_sends {s : System ι K} (hs : Matched s) (i : ι)
    (a : Telemetry.Action K) :
    ∀ m ∈ s.log ++ (sends (s.devices i) a).map fun payload ↦ (⟨.device i, payload⟩ : Message ι),
      m.origin ≠ .charter → ∃ e, m.payload = queryText e := by
  intro m hm horigin
  rcases List.mem_append.mp hm with hm | hm
  · exact hs.queries m hm horigin
  · obtain ⟨payload, hpayload, rfl⟩ := List.mem_map.mp hm
    exact asks_sends (hs.publishes i) hpayload

section Runs

variable [DecidableEq ι] {ids : ι → List UInt8} {box : SecretBox K}
  {float : List UInt8 → List UInt8} {s t : System ι K}

theorem Matched.deviceStep {i : ι} {a : Telemetry.Action K} {d : Telemetry.State K}
    (hs : Matched s) (hguard : AnsweredFirst s (.device i a))
    (hdeliver : deliverable
      (s.log ++ (sends (s.devices i) a).map fun payload ↦ ⟨.device i, payload⟩) a.callbacks = true)
    (hd : Telemetry.step box (s.devices i) a = some d) :
    Matched { s with
      devices := Function.update s.devices i d
      log := s.log ++ (sends (s.devices i) a).map fun payload ↦ ⟨.device i, payload⟩ } := by
  have hqueries := hs.queries_sends i a
  obtain ⟨hslot, hattested⟩ := step_slot hd
  have hmine : d.comms.mailbox.sRaPending = true → i ∈ s.answered := by
    intro hpending
    rcases hslot hpending with hold | ⟨hempty, payload, hoffers⟩
    · exact hs.slot i hold
    · have hcharter := charter_of_offers hqueries hdeliver hoffers
      refine hguard hempty payload hoffers ((List.mem_append.mp hcharter).resolve_right ?_)
      intro hmem
      obtain ⟨_, -, hm⟩ := List.mem_map.mp hmem
      cases hm
  refine ⟨hqueries, fun j ↦ ?_, fun j ↦ ?_, fun j ↦ ?_⟩
  all_goals dsimp only
  · rcases eq_or_ne j i with rfl | hj
    · rw [Function.update_self]
      exact asks_step hd (hs.publishes j)
    · rw [Function.update_of_ne hj]
      exact hs.publishes j
  · rcases eq_or_ne j i with rfl | hj
    · rw [Function.update_self]
      exact hmine
    · rw [Function.update_of_ne hj]
      exact hs.slot j
  · rcases eq_or_ne j i with rfl | hj
    · rw [Function.update_self]
      intro hset
      rcases hattested hset with hold | hpending
      · exact hs.attested j hold
      · exact hs.slot j hpending
    · rw [Function.update_of_ne hj]
      exact hs.attested j

theorem Matched.step {a : Action ι K} (hs : Matched s) (hguard : AnsweredFirst s a)
    (h : step ids box float s a = some t) : Matched t := by
  cases a with
  | device i a =>
      simp only [Attestation.step] at h
      split at h
      · rename_i hok
        obtain ⟨d, hd, rfl⟩ := Option.map_eq_some_iff.mp h
        exact hs.deviceStep hguard ((Bool.and_eq_true _ _).mp hok).2 hd
      · cases h
  | charter m printed =>
      simp only [Attestation.step] at h
      split at h
      · split at h
        · cases h
          exact hs
        · cases h
          refine ⟨fun m' hm' horigin ↦ ?_, hs.publishes, fun i hi ↦ ?_, fun i hi ↦ ?_⟩
          · exact hs.queries m' (mem_of_mem_snoc hm' fun heq ↦ horigin (by rw [heq])) horigin
          · split
            · exact List.mem_append_left _ (hs.slot i hi)
            · exact hs.slot i hi
          · split
            · exact List.mem_append_left _ (hs.attested i hi)
            · exact hs.attested i hi
      · cases h

theorem step_charter {m : Message ι} {printed : Bool}
    (h : step ids box float s (.charter m printed) = some t) : t = s ∨ ∃ response,
      handleAttestationMessage float true printed m.payload = some response ∧
        t.log = s.log ++ [⟨.charter, response⟩] := by
  simp only [Attestation.step] at h
  split at h
  · split at h
    · cases h
      exact .inl rfl
    · rename_i response hresponse
      cases h
      exact .inr ⟨response, hresponse, rfl⟩
  · cases h

theorem handleAttestationMessage_confirms {mqttClient printed : Bool} {raw response : List UInt8}
    (h : handleAttestationMessage float mqttClient printed raw = some response) :
    responseIsAttested response = true := by
  unfold handleAttestationMessage at h
  split at h
  · cases h
  · rename_i request hrequest
    split at h
    · cases h
      refine (Bool.or_eq_true _ _).mpr (.inr (contains_iff.mpr ?_))
      have hkey : ascii "\"attested\": true" <:+: ascii "\x7b\"attested\": true" :=
        contains_iff.mp (by decide)
      exact hkey.trans (buildResponse_starts float request).isInfix
    · cases h

/-- Every answer of the charter confirms attestation. -/
def Confirms (s : System ι K) : Prop :=
  ∀ m ∈ s.log, m.origin = .charter → responseIsAttested m.payload = true

omit [DecidableEq ι] in
theorem confirms_boot (zero : K) : Confirms (System.boot zero : System ι K) :=
  fun _ hm ↦ nomatch hm

theorem Confirms.step {a : Action ι K} (hs : Confirms s) (h : step ids box float s a = some t) :
    Confirms t := by
  cases a with
  | device i a =>
      simp only [Attestation.step] at h
      split at h
      · obtain ⟨d, -, rfl⟩ := Option.map_eq_some_iff.mp h
        intro m hm horigin
        rcases List.mem_append.mp hm with hm | hm
        · exact hs m hm horigin
        · obtain ⟨payload, -, rfl⟩ := List.mem_map.mp hm
          cases horigin
      · cases h
  | charter m printed =>
      rcases step_charter h with rfl | ⟨response, hresponse, hlog⟩
      · exact hs
      · intro m' hm' horigin
        rw [hlog] at hm'
        rcases List.mem_append.mp hm' with hm' | hm'
        · exact hs m' hm' horigin
        · cases List.mem_singleton.mp hm'
          exact handleAttestationMessage_confirms hresponse

/-- What a device does quietly, it does in the system. -/
theorem quietly_device (ids : ι → List UInt8) (float : List UInt8 → List UInt8) {i : ι}
    {d : Telemetry.State K} (h : Quietly box (s.devices i) d) :
    ∃ log, Reachable (step ids box float) s
      { s with devices := Function.update s.devices i d, log := log } := by
  induction h with
  | init =>
      refine ⟨s.log, ?_⟩
      rw [Function.update_eq_self]
      exact .init
  | next a prior ha move ih =>
      rename_i d₀ d₁
      obtain ⟨log, hreach⟩ := ih
      let u : System ι K := { s with devices := Function.update s.devices i d₀, log := log }
      have hown : ownEvidence (ids i) a = true := by
        cases a with
        | ask evidence =>
            cases evidence with
            | none => rfl
            | some e => exact ha.elim
        | _ => rfl
      have hdeliver : ∀ l : List (Message ι), deliverable l a.callbacks = true := by
        intro l
        refine List.all_eq_true.mpr fun cb hcb ↦ ?_
        cases a with
        | comms b =>
            cases cb with
            | ack packet isReject => rfl
            | publish valid topic payload => exact nomatch ha.acks _ hcb
        | _ => cases hcb
      have hstep : step ids box float u (.device i a) = some { s with
          devices := Function.update s.devices i d₁
          log := log ++ (sends d₀ a).map fun payload ↦ ⟨.device i, payload⟩ } := by
        simp only [Attestation.step, u, Function.update_self, hown, hdeliver, Bool.and_true,
          if_true, move, Option.map_some, Function.update_idem]
      exact ⟨_, .next _ hreach trivial hstep⟩

/-- A delivery outside `AnsweredFirst` lets the device become attested before the
charter has answered it. -/
theorem attested_unanswered {a : Action ι K} (hs : Matched s) (hconfirms : Confirms s)
    (hguard : ¬ AnsweredFirst s a) (h : step ids box float s a = some t) :
    ∃ u i, Reachable (step ids box float) t u ∧ (u.devices i).sAttested = true ∧
      i ∉ u.answered := by
  cases a with
  | charter m printed => exact absurd trivial hguard
  | device i a =>
      simp only [AnsweredFirst, Classical.not_imp, not_forall] at hguard
      obtain ⟨hempty, payload, hoffers, -, hnot⟩ := hguard
      have hconfirmed := hconfirms.step h
      simp only [Attestation.step] at h
      split at h
      · rename_i hok
        have hdeliver := ((Bool.and_eq_true _ _).mp hok).2
        obtain ⟨d, hd, rfl⟩ := Option.map_eq_some_iff.mp h
        rcases Telemetry.step_cases hd with ⟨b, c, rfl, hcall, hstep, rfl⟩ | ⟨last, -, hown⟩
        · obtain ⟨kept, hkept, hslot⟩ := slot_filled hcall hstep hempty hoffers
          have hcharter := charter_of_offers (hs.queries_sends i _) hdeliver hkept
          have hyes : responseIsAttested kept = true :=
            hconfirmed ⟨.charter, kept⟩ hcharter rfl
          obtain ⟨d, hquiet, hattested⟩ := attested_of_slot box
            (s := { s.devices i with comms := c }) (by rw [hslot])
            (by rw [hslot, List.take_length]; exact hyes)
          let u : System ι K := { s with
            devices := Function.update s.devices i { s.devices i with comms := c }
            log := s.log ++ (sends (s.devices i) (.comms b)).map
              fun payload ↦ ⟨.device i, payload⟩ }
          have hu : u.devices i = { s.devices i with comms := c } := Function.update_self ..
          rw [← hu] at hquiet
          obtain ⟨log, hreach⟩ := quietly_device ids float hquiet
          refine ⟨_, i, hreach, ?_, hnot⟩
          dsimp only
          rw [Function.update_self]
          exact hattested
        · cases hown <;> cases hoffers.1
      · cases h

end Runs

/-- A device of a run that delivers answers only to devices the charter has answered is
attested only after that; any other delivery of an answer that the device keeps leads
to a device that is attested and was not answered. -/
theorem attestation_matched [DecidableEq ι] (ids : ι → List UInt8) (box : SecretBox K)
    (float : List UInt8 → List UInt8) (zero : K) :
    (∀ s, Steps (step ids box float) AnsweredFirst (.boot zero) s →
      ∀ i, (s.devices i).sAttested = true → i ∈ s.answered) ∧
    ∀ s a t, Steps (step ids box float) AnsweredFirst (.boot zero) s → ¬ AnsweredFirst s a →
      step ids box float s a = some t → ∃ u i, Reachable (step ids box float) t u ∧
        (u.devices i).sAttested = true ∧ i ∉ u.answered := by
  have hmatched : ∀ s, Steps (step ids box float) AnsweredFirst (.boot zero) s → Matched s :=
    fun s hs ↦ hs.invariant (matched_boot zero) fun _ _ _ ih hguard hstep ↦ ih.step hguard hstep
  refine ⟨fun s hs ↦ (hmatched s hs).attested, fun s a t hs hguard hstep ↦ ?_⟩
  have hconfirms : Confirms s := hs.invariant (I := Confirms) (confirms_boot zero)
    fun _ _ _ ih _ hstep ↦ ih.step hstep
  exact attested_unanswered (hmatched s hs) hconfirms hguard hstep

/-! ## Two devices -/

def evidenceOf (id : List UInt8) (h : id.length ≤ DeviceIdMaxLength) : AttestationEvidence where
  deviceId := id ++ List.replicate (DeviceIdMaxLength - id.length) 0
  deviceIdLen := id.length
  token := List.replicate AttestationTokenLength 0x21
  deviceId_length := by
    rw [List.length_append, List.length_replicate]
    exact Nat.add_sub_cancel' h
  deviceIdLen_le := h
  token_length := List.length_replicate

/-- The device ids `plantnode-001` and `plantnode-002`. -/
def twoIds : Bool → List UInt8
  | false => ascii "plantnode-001"
  | true => ascii "plantnode-002"

def firstEvidence : AttestationEvidence := evidenceOf (twoIds false) (by decide)

def firstAnswer : List UInt8 := ascii "\x7b\"attested\": true, \"device\": \"plantnode-001\"\x7d"

def asking : List (Telemetry.Action ℕ) :=
  startup ++ [.ask (some firstEvidence), .comms (.mqtt ⟨[.ack 4 false], 0, true⟩)]

def polling : List (Telemetry.Action ℕ) :=
  startup ++ [.ask none, .sample sampled true true 1, .poll]

/-- The first device asks and the charter answers, while the second device is about to
poll without having asked. -/
def firstAnswered : List (Action Bool ℕ) :=
  asking.map (.device false) ++ polling.map (.device true) ++
    [.charter ⟨.device false, queryText firstEvidence⟩ true]

/-- The answer reaches the device `i` while it polls. -/
def answerPoll (i : Bool) : List (Action Bool ℕ) :=
  [.device i (.comms (.mqtt ⟨[.publish true TopicAttestation firstAnswer], 0, false⟩)),
    .device i .resume]

/-- A test that implies the guard: a device that was not answered gets answers to its
packets only. -/
def acksOnly (s : System Bool ℕ) : Action Bool ℕ → Bool
  | .device i a => a.callbacks.all Callback.isAck || decide (i ∈ s.answered)
  | .charter _ _ => true

theorem answeredFirst_of_acksOnly {s : System Bool ℕ} {a : Action Bool ℕ}
    (h : acksOnly s a = true) : AnsweredFirst s a := by
  cases a with
  | device i a =>
      intro _ payload hoffers _
      rcases (Bool.or_eq_true _ _).mp h with hacks | hanswered
      · exact absurd (List.all_eq_true.mp hacks _ hoffers.1) (by simp [Callback.isAck])
      · exact of_decide_eq_true hanswered
  | charter m printed => trivial

/-- The first device gets its answer, which the second device must not get. -/
theorem attestation_matched_two_devices :
    (∃ s, Steps (step twoIds SecretBox.tagged id) AnsweredFirst (.boot 0) s ∧
      (s.devices false).sAttested = true ∧ false ∈ s.answered) ∧
    ∃ s u i, Steps (step twoIds SecretBox.tagged id) AnsweredFirst (.boot 0) s ∧
      Reachable (step twoIds SecretBox.tagged id) s u ∧ (u.devices i).sAttested = true ∧
        i ∉ u.answered := by
  obtain ⟨hmatched, hunmatched⟩ := attestation_matched twoIds SecretBox.tagged id 0
  constructor
  · have hrun : (exec (step twoIds SecretBox.tagged id) acksOnly (.boot 0)
        (firstAnswered ++ [.device false .resume, .device false (.sample sampled true true 1),
          .device false .poll] ++ answerPoll false)).map
        (fun s ↦ (s.devices false).sAttested) = some true := by
      decide +kernel
    obtain ⟨s, hexec, hs⟩ := Option.map_eq_some_iff.mp hrun
    have hsteps := (exec_steps hexec).mono fun s a h ↦ answeredFirst_of_acksOnly h
    exact ⟨s, hsteps, hs, hmatched s hsteps false hs⟩
  · let a : Action Bool ℕ :=
      .device true (.comms (.mqtt ⟨[.publish true TopicAttestation firstAnswer], 0, false⟩))
    have hrun : (exec (step twoIds SecretBox.tagged id) acksOnly (.boot 0) firstAnswered).bind
        (fun s ↦ (step twoIds SecretBox.tagged id s a).map fun _ ↦
          ((s.devices true).comms.mailbox.sRaPending, decide (true ∈ s.answered),
            decide (⟨.charter, firstAnswer⟩ ∈ s.log))) = some (false, false, true) := by
      decide +kernel
    obtain ⟨s, hexec, hs⟩ := Option.bind_eq_some_iff.mp hrun
    obtain ⟨t, ht, hfacts⟩ := Option.map_eq_some_iff.mp hs
    simp only [Prod.mk.injEq, decide_eq_false_iff_not, decide_eq_true_eq] at hfacts
    obtain ⟨hempty, hnot, hlog⟩ := hfacts
    have hsteps := (exec_steps hexec).mono fun s a h ↦ answeredFirst_of_acksOnly h
    have hoffers : Offers (Telemetry.Action.callbacks (K := ℕ)
        (.comms (.mqtt ⟨[.publish true TopicAttestation firstAnswer], 0, false⟩))) firstAnswer :=
      ⟨List.mem_singleton.mpr rfl, by decide +kernel, by decide +kernel⟩
    have hguard : ¬ AnsweredFirst s a := fun h ↦ hnot (h hempty firstAnswer hoffers hlog)
    obtain ⟨u, i, hreach, hattested, hunanswered⟩ := hunmatched s a t hsteps hguard ht
    exact ⟨s, u, i, hsteps, .trans (.next a .init trivial ht) hreach, hattested, hunanswered⟩

/-- The answer to the first device attests the second, which has not asked. -/
theorem attested_by_another_answer :
    Function.Injective twoIds ∧
    ¬ ∀ s, Reachable (step twoIds SecretBox.tagged id) (.boot 0) s →
      ∀ i, (s.devices i).sAttested = true → i ∈ s.answered := by
  refine ⟨fun i j h ↦ ?_, fun hall ↦ ?_⟩
  · revert i j
    decide
  · have hrun : (exec (step twoIds SecretBox.tagged id) (fun _ _ ↦ true) (.boot 0)
        (firstAnswered ++ answerPoll true)).map
        (fun s ↦ ((s.devices true).sAttested, decide (true ∈ s.answered))) =
        some (true, false) := by
      decide +kernel
    obtain ⟨s, hexec, hs⟩ := Option.map_eq_some_iff.mp hrun
    obtain ⟨hattested, hanswered⟩ := Prod.ext_iff.mp hs
    have hmem := hall s (exec_steps hexec).reachable true hattested
    exact of_decide_eq_false hanswered hmem

end PlantNode.Protocol.Attestation
