import PlantNode.Plant.System

/-!
# The plant refines the command protocol

Without the irrigation loop and the readings, a step of the plant is a step of
`Protocol.System` or no step at all.  So what is known of the commands in every run of
that system holds in every run of the plant.
-/

namespace PlantNode.Plant

open Foundation Crypto Charter Comms Irrigation Protocol Charter.Watering

variable {K : Type} {config : Config K} {py : Python} {known : K → Prop} {s t : State K}
  {a : Action K}

/-- The payload decrypts under the receiving key of the charter only if the network knows
that key or a party encrypted it under that key and message id. -/
def UnforgedReading (config : Config K) (known : K → Prop) (s : State K) (payload : List UInt8) :
    Prop :=
  ∀ item ∈ s.monitor.sessions.head?,
    (config.box.decrypt defaultContext item.2.rxKey (rawMsgId payload) (payload.drop 8)).isSome →
      known item.2.rxKey ∨ ∃ e ∈ s.log, e.key = item.2.rxKey ∧ e.msgId = rawMsgId payload ∧
        e.cipher = payload.drop 8

/-- Both primitives are ideal, as in `Protocol.Ideal`, for what either side receives. -/
def Ideal (config : Config K) (known : K → Prop) (s : State K) : Action K → Prop
  | .initSession (some kx) => FreshKeys known s.exchanges kx
  | .deliver _ _ payload => Unforged config.box known s.system payload
  | .message msg _ => UnforgedReading config known s msg.payload
  | _ => True

/-! ## What the steps do to the sessions of the charter -/

theorem erase_restore {sessions : List (List UInt8 × WateringSession K)}
    {sent : List (List UInt8 × SensorSession K)}
    (hkeys : sent.map Prod.fst = sessions.map Prod.fst) :
    (⟨restore sessions sent, []⟩ : Monitor K).erase = sent := by
  induction sessions generalizing sent with
  | nil => simpa [restore, Monitor.erase] using hkeys.symm
  | cons item items ih =>
      cases sent with
      | nil => simp at hkeys
      | cons item' sent =>
          obtain ⟨hkey, hkeys⟩ := List.cons.inj hkeys
          have hkey : item'.1 = item.1 := hkey
          have ih : List.map _ (restore items sent) = sent := ih hkeys
          simp only [restore, Monitor.erase, List.zipWith_cons_cons, List.map_cons] at ih ⊢
          rw [ih, ← hkey]

/-- A command leaves the order of the devices alone. -/
theorem keys_sendThresholdUpdate (box : SecretBox K) (state : AppState K) (threshold now : ℤ)
    (seed : ℕ) :
    (sendThresholdUpdate box state threshold now seed).2.sessions.map Prod.fst =
      state.sessions.map Prod.fst := by
  unfold sendThresholdUpdate
  cases hsessions : state.sessions with
  | nil => simp [hsessions]
  | cons item others =>
      obtain ⟨deviceId, session⟩ := item
      dsimp only
      split
      · rw [hsessions]
      · split <;> rfl

theorem keys_erase (m : Monitor K) : m.erase.map Prod.fst = m.sessions.map Prod.fst := by
  simp [Monitor.erase]

/-- A message either carries a key packet, or leaves the keys of the sessions alone. -/
theorem erase_onMessage (config : Config K) (py : Python) (m : Monitor K) (msg : Message)
    (state : AppState K) :
    { state with sessions := (Watering.onMessage config py m msg).2.erase } =
        { state with sessions := m.erase } ∨
      { state with sessions := (Watering.onMessage config py m msg).2.erase } =
        onKeyMessage config.recover { state with sessions := m.erase } (lastLevel msg.topic)
          msg.payload := by
  by_cases hkeys : (config.topicPrefix ++ ascii "/keys/").isPrefixOf msg.topic = true
  · right
    rw [erase_onKeyPacket]
    simp only [Watering.onMessage, if_pos hkeys]
  · left
    have heq := onMessage_erase config py m msg state false
    simp only [Charter.onMessage, if_neg hkeys] at heq
    rw [← heq]
    split
    · cases m.erase with
      | nil => rfl
      | cons item others => rfl
    · split <;> rfl

/-! ## One step -/

/-- The irrigation thread does not change the policy. -/
theorem irrigate_policy {i j : Irrigation.State} {b : Irrigation.Action}
    (hb : ∀ packet, b ≠ .update packet) (h : Irrigation.step i b = some j) :
    j.policy = i.policy := by
  cases b with
  | sense reading =>
      simp only [Irrigation.step] at h
      split at h <;> cases h <;> rfl
  | clock tv =>
      simp only [Irrigation.step] at h
      split at h <;> cases h
      rfl
  | evaluate =>
      simp only [Irrigation.step] at h
      split at h <;> cases h
      rfl
  | record =>
      simp only [Irrigation.step] at h
      split at h <;> cases h <;> rfl
  | update packet => exact absurd rfl (hb packet)
  | get =>
      cases h
      rfl

/-- What a step of the irrigation thread does to the plant. -/
theorem irrigate_ok {b : Irrigation.Action} (h : step config py s (.irrigate b) = some t) :
    (∀ packet, b ≠ .update packet) ∧ ∃ j, Irrigation.step s.irrigation b = some j ∧
      t = { s with irrigation := j, pulses := s.pulses ++ pulseOf s b } := by
  have hmap : ∀ {o : Option Irrigation.State},
      o.map (fun irrigation ↦ { s with irrigation, pulses := s.pulses ++ pulseOf s b }) = some t →
        ∃ j, o = some j ∧ t = { s with irrigation := j, pulses := s.pulses ++ pulseOf s b } := by
    intro o ho
    obtain ⟨j, hj, rfl⟩ := Option.map_eq_some_iff.mp ho
    exact ⟨j, hj, rfl⟩
  cases b with
  | update packet => cases h
  | _ => exact ⟨by simp, hmap h⟩

theorem appState_send {threshold now : ℤ} {seed : ℕ}
    (h : step config py s (.send threshold now seed) = some t) :
    t.appState = (sendThresholdUpdate config.box s.appState threshold now seed).2 := by
  cases Option.some.inj h
  have hkeys := (keys_sendThresholdUpdate config.box s.appState threshold now seed).trans
    (keys_erase s.monitor)
  have hsessions := erase_restore hkeys
  rw [State.appState, Monitor.erase]
  rw [Monitor.erase] at hsessions
  rw [hsessions]

/-- A step of the plant is a step of the command protocol, or nothing to it. -/
theorem step_refines (hideal : Ideal config known s a) (h : step config py s a = some t) :
    t.system = s.system ∨ ∃ b, Protocol.Ideal config.box known s.system b ∧
      Protocol.step config.box s.system b = some t.system := by
  cases a with
  | boot zero =>
      cases Option.some.inj h
      exact .inr ⟨.boot zero, trivial, rfl⟩
  | initSession kx =>
      cases Option.some.inj h
      refine .inr ⟨.initSession kx, ?_, rfl⟩
      cases kx with
      | none => trivial
      | some kx => exact hideal
  | irrigate b =>
      obtain ⟨hb, j, hj, rfl⟩ := irrigate_ok h
      left
      simp only [State.system, irrigate_policy hb hj]
      rfl
  | report moistureRaw temperatureCx10 humidityRx10 tv seed =>
      cases Option.some.inj h
      exact .inr ⟨.encryptReading _ seed, trivial, rfl⟩
  | deliver valid topic payload =>
      cases Option.some.inj h
      exact .inr ⟨.deliver valid topic payload, hideal, rfl⟩
  | charterStart =>
      cases Option.some.inj h
      exact .inr ⟨.charterStart, trivial, rfl⟩
  | charterConnect =>
      cases Option.some.inj h
      exact .inr ⟨.charterConnect, trivial, rfl⟩
  | message msg forged =>
      cases Option.some.inj h
      rcases erase_onMessage (recovering config s.exchanges forged) py s.monitor msg s.appState with
        hsame | hkeys
      · left
        simp only [State.system, State.appState] at hsame ⊢
        rw [hsame]
      · refine .inr ⟨.keyPacket (lastLevel msg.topic) msg.payload forged, trivial, ?_⟩
        simp only [State.system, State.appState, Protocol.step] at hkeys ⊢
        rw [hkeys]
        rfl
  | send threshold now seed =>
      refine .inr ⟨.send threshold now seed, trivial, ?_⟩
      simp only [State.system, appState_send h]
      cases Option.some.inj h
      rfl

/-! ## Runs -/

theorem steps_system {zero : K} (h : Steps (step config py) (Ideal config known) (.start zero) s) :
    Steps (Protocol.step config.box) (Protocol.Ideal config.box known) (.start zero) s.system :=
  h.refine_stutter State.system fun _ _ _ hideal hstep ↦ step_refines hideal hstep

end PlantNode.Plant
