import PlantNode.Plant.Delivery
import PlantNode.Telemetry.Gate

/-!
# The telemetry thread in the plant

`Telemetry.step` runs on the comms compartment call by call, and `Plant.step` has a device that
does in one step what takes the thread many.  Here both run side by side on the same events:
the plant goes along with every boot, key exchange, reading and delivery of the thread, and the
thread with nothing else.  They never come apart.
-/

namespace PlantNode.Plant.Threads

open Foundation Crypto Charter Comms Irrigation Protocol Charter.Watering

variable {K : Type}

structure Joint (K : Type) where
  thread : Telemetry.State K
  plant : Plant.State K

def Joint.start (zero : K) : Joint K := ⟨.boot zero, .start zero⟩

/-- A step of the telemetry thread, which reads the sensors, the clock and the mailbox of the
irrigation thread in `sample`, or of the irrigation thread or the charter. -/
inductive Action (K : Type) where
  | boot (zero : K)
  | thread (a : Telemetry.Action K)
  | sample (moistureRaw : UInt16) (temperatureCx10 : Int16) (humidityRx10 : UInt16)
      (tv : Option ℤ) (moistureOk tempOk : Bool) (seed : ℕ)
  | other (a : Plant.Action K)

def deliveries (callbacks : List Callback) : List (Plant.Action K) :=
  callbacks.filterMap fun
    | .ack _ _ => none
    | .publish valid topic payload => some (.deliver valid topic payload)

/-- What the plant sees of a step. -/
def events (s : Joint K) : Action K → List (Plant.Action K)
  | .boot zero => [.boot zero]
  | .thread (.comms b) => deliveries b.callbacks
  | .thread (.keyExchange kx) => [.initSession kx]
  | .thread _ => []
  | .sample moistureRaw temperatureCx10 humidityRx10 tv moistureOk tempOk seed =>
      if s.thread.sAttested && (moistureOk && tempOk) && s.thread.comms.sHandle then
        [.report moistureRaw temperatureCx10 humidityRx10 tv seed]
      else []
  | .other a => [a]

def threadStep (box : SecretBox K) (s : Joint K) : Action K → Option (Telemetry.State K)
  | .boot zero => some (.boot zero)
  | .thread (.sample _ _ _ _) => none
  | .thread a => Telemetry.step box s.thread a
  | .sample moistureRaw temperatureCx10 humidityRx10 tv moistureOk tempOk seed =>
      Telemetry.step box s.thread (.sample
        (takeReading s.plant.irrigation moistureRaw temperatureCx10 humidityRx10 tv)
        moistureOk tempOk seed)
  | .other a =>
      match a with
      | .irrigate _ | .charterStart | .charterConnect | .message _ _ | .send _ _ _ =>
          some s.thread
      | _ => none

def step (config : Config K) (py : Python) (s : Joint K) (a : Action K) : Option (Joint K) :=
  (threadStep config.box s a).bind fun thread ↦
    (exec (Plant.step config py) (fun _ _ ↦ true) s.plant (events s a)).map fun plant ↦
      ⟨thread, plant⟩

/-- Every event of the list is ideal when it comes. -/
def AllIdeal (config : Config K) (py : Python) (known : K → Prop) :
    Plant.State K → List (Plant.Action K) → Prop
  | _, [] => True
  | s, a :: rest => Plant.Ideal config known s a ∧
      ∀ t, Plant.step config py s a = some t → AllIdeal config py known t rest

def Ideal (config : Config K) (py : Python) (known : K → Prop) (s : Joint K) (a : Action K) :
    Prop :=
  AllIdeal config py known s.plant (events s a)

variable {config : Config K} {py : Python} {known : K → Prop} {s t : Joint K} {a : Action K}

/-! ## The plant -/

theorem AllIdeal.steps {p q : Plant.State K} {acts : List (Plant.Action K)}
    (hideal : AllIdeal config py known p acts)
    (h : exec (Plant.step config py) (fun _ _ ↦ true) p acts = some q) :
    Steps (Plant.step config py) (Plant.Ideal config known) p q := by
  induction acts generalizing p with
  | nil =>
      cases h
      exact .init
  | cons a acts ih =>
      simp only [exec, if_true] at h
      obtain ⟨m, hm, hrest⟩ := Option.bind_eq_some_iff.mp h
      exact (Steps.next a .init hideal.1 hm).trans (ih (hideal.2 m hm) hrest)

theorem step_ok (h : step config py s a = some t) : threadStep config.box s a = some t.thread ∧
    exec (Plant.step config py) (fun _ _ ↦ true) s.plant (events s a) = some t.plant := by
  obtain ⟨thread, hthread, h⟩ := Option.bind_eq_some_iff.mp h
  obtain ⟨plant, hplant, rfl⟩ := Option.map_eq_some_iff.mp h
  exact ⟨hthread, hplant⟩

theorem steps_plant {zero : K}
    (h : Steps (step config py) (Ideal config py known) (.start zero) s) :
    Steps (Plant.step config py) (Plant.Ideal config known) (.start zero) s.plant := by
  induction h with
  | init => exact .init
  | next a _ hideal hstep ih => exact ih.trans (hideal.steps (step_ok hstep).2)

theorem exec_deliveries (config : Config K) (py : Python) (p : Plant.State K)
    (callbacks : List Callback) :
    ∃ q, exec (Plant.step config py) (fun _ _ ↦ true) p (deliveries callbacks) = some q := by
  induction callbacks generalizing p with
  | nil => exact ⟨p, rfl⟩
  | cons cb rest ih =>
      cases cb with
      | ack packet isReject => exact ih p
      | publish valid topic payload => exact ih _

/-- The plant goes along with every step of the thread. -/
theorem follows {thread : Telemetry.State K} (ha : ∀ b, a ≠ .other b)
    (h : threadStep config.box s a = some thread) :
    ∃ plant, step config py s a = some ⟨thread, plant⟩ := by
  have hevents : ∃ q, exec (Plant.step config py) (fun _ _ ↦ true) s.plant (events s a) =
      some q := by
    cases a with
    | boot zero => exact ⟨_, rfl⟩
    | thread b =>
        cases b with
        | comms b => exact exec_deliveries config py s.plant b.callbacks
        | _ => exact ⟨_, rfl⟩
    | sample moistureRaw temperatureCx10 humidityRx10 tv moistureOk tempOk seed =>
        simp only [events]
        split <;> exact ⟨_, rfl⟩
    | other b => exact absurd rfl (ha b)
  obtain ⟨q, hq⟩ := hevents
  exact ⟨q, by rw [step, h, hq]; rfl⟩

/-! ## Deliveries -/

/-- The thread and the plant have the same session and the same policy. -/
structure Same (c : Comms.State K) (p : Plant.State K) : Prop where
  session : p.session = c.session
  policy : p.irrigation.policy = c.policy

theorem same_receive {c d : Comms.State K} {p : Plant.State K} {cb : Callback} (hs : Same c p)
    (h : receive config.box c cb = some d) {q : Plant.State K}
    (hq : exec (Plant.step config py) (fun _ _ ↦ true) p (deliveries [cb]) = some q) :
    Same d q ∧ q.reports = p.reports ∧ q.boots = p.boots := by
  cases cb with
  | ack packet isReject =>
      cases hq
      simp only [receive] at h
      split at h
      · cases h
        exact ⟨⟨hs.session, hs.policy⟩, rfl, rfl⟩
      · cases h
  | publish valid topic payload =>
      cases h
      cases Option.some.inj hq
      refine ⟨⟨hs.session, ?_⟩, rfl, rfl⟩
      show (publishCallback config.box p.session p.mailbox p.irrigation.policy valid topic
        payload).policy = _
      rw [hs.session, hs.policy]
      exact policy_publishCallback ..

theorem same_receiveAll {callbacks : List Callback} {c d : Comms.State K} {p q : Plant.State K}
    (hs : Same c p) (h : receiveAll config.box c callbacks = some d)
    (hq : exec (Plant.step config py) (fun _ _ ↦ true) p (deliveries callbacks) = some q) :
    Same d q ∧ q.reports = p.reports ∧ q.boots = p.boots := by
  induction callbacks generalizing c p with
  | nil =>
      cases h
      cases hq
      exact ⟨hs, rfl, rfl⟩
  | cons cb rest ih =>
      obtain ⟨m, hm, hrest⟩ := receiveAll_cons h
      have hsplit : (deliveries (cb :: rest) : List (Plant.Action K)) =
          deliveries [cb] ++ deliveries rest := by
        simp [deliveries, ← List.filterMap_append]
      rw [hsplit, exec_append] at hq
      obtain ⟨p', hp', hq⟩ := Option.bind_eq_some_iff.mp hq
      obtain ⟨hs', hreports', hboots'⟩ := same_receive hs hm hp'
      obtain ⟨hs'', hreports, hboots⟩ := ih hs' hrest hq
      exact ⟨hs'', hreports.trans hreports', hboots.trans hboots'⟩

/-! ## Packets -/

/-- The key and the payload of a telemetry message. -/
def packetOf (p : Publication K) : Option (K × List UInt8) :=
  match p.source with
  | .telemetry key => some (key, p.payload)
  | _ => none

def offeredOf : Event K → Option (K × List UInt8)
  | .offered p => packetOf p
  | _ => none

/-- The telemetry that the compartment has passed to `mqtt_publish` since the boot. -/
def offered (c : Comms.State K) : List (K × List UInt8) := c.trace.filterMap offeredOf

/-- The telemetry that it is about to pass to it. -/
def pending : Comms.Pc K → List (K × List UInt8)
  | .publishing p _ => (packetOf p).toList
  | _ => []

/-- The telemetry that the device has encrypted since the boot. -/
def encrypted (p : Plant.State K) : List (K × List UInt8) :=
  (p.reports.filter fun r ↦ r.boot = p.boots).map fun r ↦ (r.key, r.packet)

section Comms

variable {c d : Comms.State K} {b : Comms.Action} {box : SecretBox K}

theorem offered_emit (c : Comms.State K) (e : Event K) :
    offered (c.emit e) = offered c ++ (offeredOf e).toList := by
  simp only [offered, State.emit, List.filterMap_append]
  cases h : offeredOf e <;> simp [h]

theorem offered_receiveAll {callbacks : List Callback} (h : receiveAll box c callbacks = some d) :
    offered d = offered c := by
  have hnone : (callbacks.map (Callback.event (K := K))).filterMap offeredOf = [] := by
    rw [List.filterMap_eq_nil_iff]
    intro e he
    obtain ⟨cb, -, rfl⟩ := List.mem_map.mp he
    cases cb <;> rfl
  rw [offered, (receiveAll_sameCall h).2, List.filterMap_append, hnone, List.append_nil, offered]

theorem offered_offer (c : Comms.State K) (p : Publication K) (o : MqttOutcome) :
    offered (offer c p o) = offered c ++ (packetOf p).toList := by
  have htrace : (offer c p o).trace = (c.emit (.offered p)).trace := offer_trace c p o
  rw [offered, htrace]
  exact offered_emit c (.offered p)

/-- The call holds no telemetry, and nothing else of it has changed that the plant has. -/
structure Settles (c d : Comms.State K) : Prop where
  session : d.session = c.session
  policy : d.policy = c.policy
  offered : offered d = offered c
  pending : pending d.pc = []

theorem settles_finishPublish (c : Comms.State K) (p : Publication K) (packets : List ℕ)
    (ret : Result) : Settles c (finishPublish c p packets ret) := by
  unfold finishPublish
  split
  · refine ⟨rfl, rfl, ?_, rfl⟩
    exact (offered_emit c (.connected packets)).trans (List.append_nil _)
  · exact ⟨rfl, rfl, rfl, rfl⟩

theorem settles_awaitPublish (c : Comms.State K) (p : Publication K) (packets : List ℕ)
    (packet : ℕ) (expected : Int32) :
    Settles c (awaitPublish c p packets packet expected) := by
  unfold awaitPublish
  split
  · exact ⟨rfl, rfl, rfl, rfl⟩
  · obtain ⟨hsession, hpolicy, hoffered, hpending⟩ :=
      settles_finishPublish (c.emit (.published p packet)) p packets (.ok ())
    refine ⟨hsession, hpolicy, hoffered.trans ?_, hpending⟩
    exact (offered_emit c (.published p packet)).trans (List.append_nil _)

theorem settles_awaitSubacks (c : Comms.State K) (packets : List ℕ) :
    Settles c (awaitSubacks c packets) := by
  unfold awaitSubacks
  split <;> exact ⟨rfl, rfl, rfl, rfl⟩

/-- A call in progress passes on the telemetry that it holds, lets the callbacks in, and holds
none then. -/
abbrev Delivers (box : SecretBox K) (callbacks : List Callback) (c d : Comms.State K) : Prop :=
  ∃ m n, m.session = c.session ∧ m.policy = c.policy ∧ offered m = offered c ++ pending c.pc ∧
    receiveAll box m callbacks = some n ∧ Settles n d

theorem step_delivers (hcall : ∀ request, b ≠ .call request) (h : Comms.step box c b = some d) :
    Delivers box b.callbacks c d := by
  have hreceived : ∀ {m : Comms.State K}, pending c.pc = [] →
      receiveAll box c b.callbacks = some m → Settles m d → Delivers box b.callbacks c d := by
    intro m hpending hm hd
    exact ⟨c, m, rfl, rfl, by rw [hpending, List.append_nil], hm, hd⟩
  have hsilent : pending c.pc = [] → b.callbacks = [] → Settles c d →
      Delivers box b.callbacks c d := by
    intro hpending hnone hd
    exact hreceived hpending (by rw [hnone]; rfl) hd
  have hpassed : ∀ {m : Comms.State K} {p packets o}, c.pc = .publishing p packets →
      receiveAll box (offer c p o) b.callbacks = some m → Settles m d →
        Delivers box b.callbacks c d := by
    intro m p packets o hpc hm hd
    refine ⟨offer c p o, m, ?_, ?_, ?_, hm, hd⟩
    · unfold offer
      split <;> rfl
    · unfold offer
      split <;> rfl
    · rw [offered_offer, hpc]
      rfl
  cases progress_of_step hcall h with
  | notSynced hpc =>
      have hpending : pending c.pc = [] := by rw [hpc]; rfl
      exact hsilent hpending rfl ⟨rfl, rfl, rfl, hpending⟩
  | synced hpc => exact hsilent (by rw [hpc]; rfl) rfl ⟨rfl, rfl, rfl, rfl⟩
  | linked hpc => exact hsilent (by rw [hpc]; rfl) rfl ⟨rfl, rfl, rfl, rfl⟩
  | notLinked hpc => exact hsilent (by rw [hpc]; rfl) rfl ⟨rfl, rfl, rfl, rfl⟩
  | notSubscribed hpc ho hret =>
      refine hsilent (by rw [hpc]; rfl) ho ?_
      split <;> exact ⟨rfl, rfl, rfl, rfl⟩
  | subscribed hpc ho => exact hsilent (by rw [hpc]; rfl) ho ⟨rfl, rfl, rfl, rfl⟩
  | subscribedBoth hpc ho hne =>
      obtain ⟨hsession, hpolicy, hoffered, hpending⟩ := settles_awaitSubacks c.send _
      exact hsilent (by rw [hpc]; rfl) ho ⟨hsession, hpolicy, hoffered, hpending⟩
  | subackFailed hpc hm hret => exact hreceived (by rw [hpc]; rfl) hm ⟨rfl, rfl, rfl, rfl⟩
  | suback hpc hm hret => exact hreceived (by rw [hpc]; rfl) hm (settles_awaitSubacks _ _)
  | abandoned hpc ho => exact hsilent (by rw [hpc]; rfl) ho ⟨rfl, rfl, rfl, rfl⟩
  | publishFailed hpc hm hret => exact hpassed hpc hm (settles_finishPublish _ _ _ _)
  | publish hpc hm hret => exact hpassed hpc hm (settles_awaitPublish _ _ _ _ _)
  | pubackFailed hpc hm hret =>
      exact hreceived (by rw [hpc]; rfl) hm (settles_finishPublish _ _ _ _)
  | puback hpc hm hret =>
      exact hreceived (by rw [hpc]; rfl) hm (settles_awaitPublish _ _ _ _ _)
  | polled hpc hm => exact hreceived (by rw [hpc]; rfl) hm ⟨rfl, rfl, rfl, rfl⟩
  | disconnected hpc ho => exact hsilent (by rw [hpc]; rfl) ho ⟨rfl, rfl, rfl, rfl⟩

theorem step_packets (hcall : ∀ request, b ≠ .call request) (h : Comms.step box c b = some d) :
    offered d ++ pending d.pc = offered c ++ pending c.pc := by
  obtain ⟨m, n, -, -, hoffered, hreceive, hd⟩ := step_delivers hcall h
  rw [hd.offered, hd.pending, offered_receiveAll hreceive, hoffered, List.append_nil]

/-- Where `comms_publish_telemetry` is after `crypto_encrypt`. -/
def afterEncrypt (key : K) : Except Errno Output → Comms.Pc K
  | .error e => .idle (.error (.errno e))
  | .ok out => .publishing ⟨TopicTelemetry, out.data, false, .telemetry key⟩ []

theorem startCall_telemetry (hhandle : c.sHandle = true) {reading : SensorReading} {seed : ℕ}
    {result : Except Errno Output} {session : Session K}
    (h : cryptoEncrypt box c.session (some reading) true seed = (result, session)) :
    startCall box c (.publishTelemetry (some reading) seed) = { c with
      session := session
      pc := afterEncrypt c.session.sSessionTxKey result
      trace := c.trace ++ [.called (.publishTelemetry (some reading) seed)] } := by
  simp only [startCall, State.emit, hhandle, h, Bool.not_true, Bool.false_eq_true, if_false]
  cases result <;> rfl

/-- A call that does not publish telemetry only opens. -/
theorem startCall_other {request : Request}
    (hother : ∀ reading seed, request ≠ .publishTelemetry reading seed) :
    ∃ pc, startCall box c request = { c with pc, trace := c.trace ++ [.called request] } ∧
      pending pc = [] := by
  cases request with
  | publishTelemetry reading seed => exact absurd rfl (hother reading seed)
  | connect => exact ⟨_, rfl, rfl⟩
  | publish topic payload =>
      cases topic <;> cases payload <;> simp only [startCall]
      all_goals first
        | exact ⟨_, rfl, rfl⟩
        | split <;> exact ⟨_, rfl, rfl⟩
  | publishKeyPacket packet =>
      cases packet <;> simp only [startCall]
      all_goals first
        | exact ⟨_, rfl, rfl⟩
        | split <;> exact ⟨_, rfl, rfl⟩
  | publishAttestation bytes =>
      cases bytes <;> simp only [startCall]
      all_goals first
        | exact ⟨_, rfl, rfl⟩
        | split <;> exact ⟨_, rfl, rfl⟩
  | poll =>
      simp only [startCall]
      split <;> exact ⟨_, rfl, rfl⟩
  | disconnect =>
      simp only [startCall]
      split <;> exact ⟨_, rfl, rfl⟩

end Comms

/-! ## The two together -/

theorem Same.of_eq {c d : Comms.State K} {p : Plant.State K} (hs : Same c p)
    (h : d.session = c.session ∧ d.policy = c.policy) : Same d p :=
  ⟨hs.session.trans h.1.symm, hs.policy.trans h.2.symm⟩

/-- The plant goes along with the callbacks of a step. -/
theorem same_step {c d : Comms.State K} {b : Comms.Action} {p q : Plant.State K} (hs : Same c p)
    (hcall : ∀ request, b ≠ .call request) (h : Comms.step config.box c b = some d)
    (hq : exec (Plant.step config py) (fun _ _ ↦ true) p (deliveries b.callbacks) = some q) :
    Same d q ∧ q.reports = p.reports ∧ q.boots = p.boots := by
  obtain ⟨m, n, hsession, hpolicy, -, hreceive, hd⟩ := step_delivers hcall h
  obtain ⟨hsame, hrest⟩ := same_receiveAll (hs.of_eq ⟨hsession, hpolicy⟩) hreceive hq
  exact ⟨hsame.of_eq ⟨hd.session, hd.policy⟩, hrest⟩

/-- The thread has passed on what the plant has encrypted since the boot, up to a packet that
it holds, and it has done so only when attested. -/
structure Agree (thread : Telemetry.State K) (plant : Plant.State K) : Prop where
  same : Same thread.comms plant
  packets : offered thread.comms ++ pending thread.comms.pc = encrypted plant
  attested : encrypted plant ≠ [] → thread.sAttested = true

section Agree

variable {thread thread' : Telemetry.State K} {plant plant' : Plant.State K}

theorem Agree.of_thread (ha : Agree thread plant)
    (hsame : thread'.comms.session = thread.comms.session ∧
      thread'.comms.policy = thread.comms.policy)
    (hpackets : offered thread'.comms ++ pending thread'.comms.pc =
      offered thread.comms ++ pending thread.comms.pc)
    (hattested : thread.sAttested = true → thread'.sAttested = true) : Agree thread' plant :=
  ⟨ha.same.of_eq hsame, hpackets.trans ha.packets, fun hne ↦ hattested (ha.attested hne)⟩

/-- Steps of the plant that encrypt nothing. -/
theorem Agree.of_plant (ha : Agree thread plant) (hsame : Same thread'.comms plant')
    (hpackets : offered thread'.comms ++ pending thread'.comms.pc =
      offered thread.comms ++ pending thread.comms.pc)
    (hattested : thread'.sAttested = thread.sAttested)
    (hreports : plant'.reports = plant.reports) (hboots : plant'.boots = plant.boots) :
    Agree thread' plant' := by
  have hencrypted : encrypted plant' = encrypted plant := by
    rw [encrypted, hreports, hboots, encrypted]
  refine ⟨hsame, hpackets.trans (ha.packets.trans hencrypted.symm), ?_⟩
  rw [hencrypted, hattested]
  exact ha.attested

/-- Between calls nothing is held. -/
theorem pending_idle {c : Comms.State K} {last : Result} (hidle : c.pc = .idle last) :
    pending c.pc = [] := by
  rw [hidle]
  rfl

theorem Agree.call {last : Result} (ha : Agree thread plant)
    (hidle : thread.comms.pc = .idle last) {request : Request} {pc : Telemetry.Pc}
    (hother : ∀ reading seed, request ≠ .publishTelemetry reading seed) :
    Agree (Telemetry.call config.box thread request pc) plant := by
  obtain ⟨commsPc, hstart, hpending⟩ : ∃ pc, startCall config.box thread.comms request =
      { thread.comms with pc, trace := thread.comms.trace ++ [.called request] } ∧
        pending pc = [] := startCall_other hother
  refine ha.of_thread ?_ ?_ id
  · rw [Telemetry.call, hstart]
    exact ⟨rfl, rfl⟩
  · simp only [Telemetry.call, hstart, hpending, pending_idle hidle]
    exact congrArg (· ++ []) ((offered_emit thread.comms (.called request)).trans
      (List.append_nil _))

theorem Agree.drain (ha : Agree thread plant) : Agree (Telemetry.drainRaMessages thread) plant := by
  obtain ⟨mailbox, taken, attested, hdrain, htaken⟩ := Telemetry.drainRaMessages_spec thread
  have hnone : taken.filterMap (offeredOf (K := K)) = [] := by
    rw [List.filterMap_eq_nil_iff]
    intro e he
    obtain ⟨m, rfl⟩ := htaken e he
    rfl
  refine ha.of_thread ?_ ?_ ?_
  · rw [hdrain]
    exact ⟨rfl, rfl⟩
  · rw [hdrain]
    simp only [offered, List.filterMap_append, hnone, List.append_nil]
  · exact Telemetry.drainRaMessages_latched

/-- A step of the thread between calls, other than taking a reading. -/
theorem Agree.own {last : Result} (ha : Agree thread plant) (hidle : thread.comms.pc = .idle last)
    {a : Telemetry.Action K} (hown : Telemetry.Own config.box thread last a thread')
    (hsample : ∀ reading moistureOk tempOk seed, a ≠ .sample reading moistureOk tempOk seed)
    (hq : exec (Plant.step config py) (fun _ _ ↦ true) plant
      (events ⟨thread, plant⟩ (.thread a)) = some plant') : Agree thread' plant' := by
  cases hown with
  | first hpc =>
      cases hq
      exact ha.call hidle (by simp)
  | retry hpc hlast =>
      cases hq
      exact ha.call hidle (by simp)
  | noSession hpc hlast =>
      cases Option.some.inj hq
      exact ha.of_plant ⟨ha.same.session, ha.same.policy⟩ rfl rfl rfl rfl
  | session kx hpc hlast =>
      cases Option.some.inj hq
      have hstarted : Agree (Telemetry.startSession thread kx)
          { plant with
            session := (cryptoInitSession plant.session true (some kx)).2
            exchanges := plant.exchanges ++ [kx] } :=
        ⟨⟨rfl, ha.same.policy⟩, ha.packets, ha.attested⟩
      exact hstarted.call hidle (by simp)
  | keySent hpc =>
      cases hq
      exact ha.of_thread ⟨rfl, rfl⟩ rfl id
  | query e hpc hattested =>
      cases hq
      exact ha.call hidle (by simp)
  | noQuery evidence hpc =>
      cases hq
      exact ha.of_thread ⟨rfl, rfl⟩ rfl id
  | asked hpc =>
      cases hq
      exact ha.of_thread ⟨rfl, rfl⟩ rfl id
  | report reading seed hpc hattested => exact absurd rfl (hsample _ _ _ _)
  | noReport reading moistureOk tempOk seed hpc => exact absurd rfl (hsample _ _ _ _)
  | reported hpc =>
      cases hq
      exact ha.of_thread ⟨rfl, rfl⟩ rfl id
  | poll i hpc hi =>
      cases hq
      exact ha.call hidle (by simp)
  | again i hpc hi =>
      cases hq
      exact ha.of_thread ⟨rfl, rfl⟩ rfl id
  | drained i hpc =>
      cases hq
      exact ha.drain.of_thread ⟨rfl, rfl⟩ rfl id

/-- What the plant reports is what the call is about to publish. -/
theorem packets_reportOf (hbox : config.box.Lawful) {reading : SensorReading} {seed : ℕ}
    {result : Except Errno Output} {session : Session K}
    (h : cryptoEncrypt config.box plant.session (some reading) true seed = (result, session)) :
    (reportOf plant reading result).map (fun r ↦ (r.key, r.packet)) =
      pending (afterEncrypt plant.session.sSessionTxKey result) := by
  cases result with
  | error e => rfl
  | ok out =>
      rw [cryptoEncrypt_eq (cryptoEncrypt_ready h)] at h
      obtain ⟨cipher, hcipher, rfl, -⟩ := encryptPlain_ok h
      have hdata := data_encryptPlain hbox hcipher
      simp only [reportOf, Report.packet, afterEncrypt, pending, packetOf, hdata,
        List.drop_left' (length_toLE ..), List.map_cons, List.map_nil, Option.toList_some]

/-- A reading is encrypted and about to be published, or it is not encrypted. -/
theorem Agree.report {last : Result} (hbox : config.box.Lawful) (ha : Agree thread plant)
    (hidle : thread.comms.pc = .idle last) (hattested : thread.sAttested = true)
    (hhandle : thread.comms.sHandle = true) {moistureRaw : UInt16} {temperatureCx10 : Int16}
    {humidityRx10 : UInt16} {tv : Option ℤ} {seed : ℕ} {pc : Telemetry.Pc}
    (hq : Plant.step config py plant
      (.report moistureRaw temperatureCx10 humidityRx10 tv seed) = some plant') :
    Agree (Telemetry.call config.box thread (.publishTelemetry
      (some (takeReading plant.irrigation moistureRaw temperatureCx10 humidityRx10 tv)) seed) pc)
      plant' := by
  cases Option.some.inj hq
  generalize takeReading plant.irrigation moistureRaw temperatureCx10 humidityRx10 tv = reading
  generalize hcall : cryptoEncrypt config.box plant.session (some reading) true seed = call
  obtain ⟨result, session⟩ := call
  have hnew := packets_reportOf hbox hcall
  have hboot : ∀ r ∈ reportOf plant reading result, r.boot = plant.boots := by
    cases result <;> simp [reportOf]
  rw [ha.same.session] at hcall
  rw [Telemetry.call, startCall_telemetry hhandle hcall]
  have hencrypted : ∀ q : Plant.State K,
      q.reports = plant.reports ++ reportOf plant reading result → q.boots = plant.boots →
        offered thread.comms ++ pending (afterEncrypt plant.session.sSessionTxKey result) =
          encrypted q := by
    intro q hreports hboots
    have hpackets := ha.packets
    rw [pending_idle hidle, List.append_nil] at hpackets
    rw [encrypted, hreports, hboots, List.filter_append, List.map_append, ← hnew, hpackets,
      encrypted, List.filter_eq_self.mpr fun r hr ↦ decide_eq_true (hboot r hr)]
  refine ⟨⟨rfl, ha.same.policy⟩, ?_, fun _ ↦ hattested⟩
  have hcalled := (offered_emit thread.comms
    (.called (.publishTelemetry (some reading) seed))).trans (List.append_nil _)
  rw [← ha.same.session]
  exact (congrArg (· ++ pending _) hcalled).trans (hencrypted _ rfl rfl)

theorem Agree.sample {last : Result} (hbox : config.box.Lawful) (ha : Agree thread plant)
    (hidle : thread.comms.pc = .idle last) {moistureRaw : UInt16} {temperatureCx10 : Int16}
    {humidityRx10 : UInt16} {tv : Option ℤ} {moistureOk tempOk : Bool} {seed : ℕ}
    (h : Telemetry.step config.box thread (.sample
      (takeReading plant.irrigation moistureRaw temperatureCx10 humidityRx10 tv)
      moistureOk tempOk seed) = some thread')
    (hq : exec (Plant.step config py) (fun _ _ ↦ true) plant (events ⟨thread, plant⟩
      (.sample moistureRaw temperatureCx10 humidityRx10 tv moistureOk tempOk seed)) =
        some plant') : Agree thread' plant' := by
  have hpc : thread.pc = .asked := by
    simp only [Telemetry.step, hidle, Telemetry.ownStep] at h
    split at h
    · assumption
    · cases h
  simp only [Telemetry.step, hidle, Telemetry.ownStep, hpc, Option.some.injEq] at h
  subst h
  by_cases hreport : thread.sAttested = true ∧ (moistureOk && tempOk) = true
  · obtain ⟨hattested, hvalid⟩ := hreport
    simp only [Telemetry.sampleStep, hattested, hvalid, if_true]
    cases hhandle : thread.comms.sHandle with
    | false =>
        -- `comms_publish_telemetry` returns before it encrypts
        simp only [events, hattested, hvalid, hhandle, Bool.and_false, Bool.false_eq_true,
          if_false] at hq
        cases hq
        refine ha.of_thread ?_ ?_ id
        · simp only [Telemetry.call, startCall, State.emit, hhandle, Bool.not_false, if_true]
          exact ⟨rfl, rfl⟩
        · have hcalled := fun request ↦ (offered_emit thread.comms (.called request)).trans
            (List.append_nil _)
          simp only [Telemetry.call, startCall, State.emit, hhandle, Bool.not_false, if_true,
            pending_idle hidle]
          exact congrArg (· ++ []) (hcalled _)
    | true =>
        simp only [events, hattested, hvalid, hhandle, Bool.and_self, if_true, exec,
          Option.bind_fun_some] at hq
        exact ha.report hbox hidle hattested hhandle hq
  · have hsilent : events (K := K) ⟨thread, plant⟩ (.sample moistureRaw temperatureCx10
        humidityRx10 tv moistureOk tempOk seed) = [] := by
      rw [events, if_neg]
      rw [Bool.and_eq_true, Bool.and_eq_true]
      exact fun h ↦ hreport h.1
    rw [hsilent] at hq
    cases hq
    have hskipped : ∀ reading, Telemetry.sampleStep config.box thread reading moistureOk tempOk
        seed = { thread with pc := .waiting 0 } := by
      intro reading
      unfold Telemetry.sampleStep
      split
      · rename_i hattested
        exact if_neg fun hvalid ↦ hreport ⟨hattested, hvalid⟩
      · rfl
    rw [hskipped]
    exact ha.of_thread ⟨rfl, rfl⟩ rfl id

end Agree

theorem agree_start (zero : K) : Agree (.boot zero) (.start zero) := by
  refine ⟨⟨rfl, rfl⟩, rfl, ?_⟩
  intro hne
  exact absurd rfl hne

theorem Agree.step (hbox : config.box.Lawful) (hf : Fits s.plant) (ha : Agree s.thread s.plant)
    (h : step config py s a = some t) : Agree t.thread t.plant := by
  obtain ⟨hthread, hplant⟩ := step_ok h
  cases a with
  | boot zero =>
      obtain ⟨hsession, hpolicy, hreports, hboots⟩ : t.plant.session = .boot zero ∧
          t.plant.irrigation.policy = .boot ∧ t.plant.reports = s.plant.reports ∧
          t.plant.boots = s.plant.boots + 1 := by
        rw [← Option.some.inj hplant]
        exact ⟨rfl, rfl, rfl, rfl⟩
      have hencrypted : encrypted t.plant = [] := by
        rw [encrypted, List.map_eq_nil_iff, List.filter_eq_nil_iff, hreports, hboots]
        intro r hr hboot
        have hle := hf.boots r hr
        have heq := of_decide_eq_true hboot
        omega
      rw [← Option.some.inj hthread]
      exact ⟨⟨hsession, hpolicy⟩, hencrypted.symm, fun hne ↦ absurd hencrypted hne⟩
  | thread b =>
      have hsample : ∀ reading moistureOk tempOk seed,
          b ≠ .sample reading moistureOk tempOk seed := by
        rintro reading moistureOk tempOk seed rfl
        cases hthread
      have hstep : Telemetry.step config.box s.thread b = some t.thread := by
        cases b with
        | sample => exact absurd rfl (hsample _ _ _ _)
        | _ => exact hthread
      rcases Telemetry.step_cases hstep with ⟨b, c, rfl, hcall, hc, ht⟩ | ⟨last, hidle, hown⟩
      · obtain ⟨hsame, hreports, hboots⟩ := same_step ha.same hcall hc hplant
        rw [ht]
        exact ha.of_plant hsame (step_packets hcall hc) rfl hreports hboots
      · exact ha.own hidle hown hsample hplant
  | sample moistureRaw temperatureCx10 humidityRx10 tv moistureOk tempOk seed =>
      rcases Telemetry.step_cases hthread with ⟨b, c, hb, -⟩ | ⟨last, hidle, -⟩
      · cases hb
      · exact ha.sample hbox hidle hthread hplant
  | other b =>
      have hplant : Plant.step config py s.plant b = some t.plant := by
        simpa only [events, exec, if_true, Option.bind_fun_some] using hplant
      have hkept : s.thread = t.thread ∧ t.plant.session = s.plant.session ∧
          t.plant.irrigation.policy = s.plant.irrigation.policy ∧
          t.plant.reports = s.plant.reports ∧ t.plant.boots = s.plant.boots := by
        cases b with
        | irrigate b =>
            obtain ⟨hb, j, hj, ht⟩ := irrigate_ok hplant
            rw [ht]
            exact ⟨Option.some.inj hthread, rfl, irrigate_policy hb hj, rfl, rfl⟩
        | charterStart =>
            rw [← Option.some.inj hplant]
            exact ⟨Option.some.inj hthread, rfl, rfl, rfl, rfl⟩
        | charterConnect =>
            rw [← Option.some.inj hplant]
            exact ⟨Option.some.inj hthread, rfl, rfl, rfl, rfl⟩
        | message msg forged =>
            rw [← Option.some.inj hplant]
            exact ⟨Option.some.inj hthread, rfl, rfl, rfl, rfl⟩
        | send threshold now seed =>
            rw [← Option.some.inj hplant]
            exact ⟨Option.some.inj hthread, rfl, rfl, rfl, rfl⟩
        | _ => cases hthread
      obtain ⟨hsame, hsession, hpolicy, hreports, hboots⟩ := hkept
      rw [← hsame]
      exact ha.of_plant ⟨hsession.trans ha.same.session, hpolicy.trans ha.same.policy⟩ rfl rfl
        hreports hboots

/-- The plant is in a state of one of its own runs, and what the thread has passed to
`mqtt_publish` since the boot is what the plant has encrypted, but for a last packet that the
thread still holds. -/
structure Realised (config : Config K) (py : Python) (known : K → Prop) (zero : K)
    (s : Joint K) : Prop where
  plant : Steps (Plant.step config py) (Plant.Ideal config known) (.start zero) s.plant
  session : s.plant.session = s.thread.comms.session
  policy : s.plant.irrigation.policy = s.thread.comms.policy
  packets : offered s.thread.comms ++ pending s.thread.comms.pc = encrypted s.plant
  attested : encrypted s.plant ≠ [] → s.thread.sAttested = true
  follows : ∀ a thread, (∀ b, a ≠ .other b) → threadStep config.box s a = some thread →
    ∃ plant, step config py s a = some ⟨thread, plant⟩

/-- In every run of the two together. -/
theorem thread_realises_plant (hbox : config.box.Lawful) {zero : K}
    (h : Steps (step config py) (Ideal config py known) (.start zero) s) :
    Realised config py known zero s := by
  have hfits : ∀ s, Steps (step config py) (Ideal config py known) (.start zero) s →
      Fits s.plant := fun _ hs ↦ fits hbox (steps_plant hs)
  have ha : Agree s.thread s.plant := h.invariant_over (I := fun s ↦ Agree s.thread s.plant) hfits
    (agree_start zero) fun _ _ _ hf ha _ hstep ↦ ha.step hbox hf hstep
  exact ⟨steps_plant h, ha.same.session, ha.same.policy, ha.packets, ha.attested,
    fun _ _ hb hthread ↦ follows hb hthread⟩

/-- A test that implies `AllIdeal` where the network knows the keys below 10. -/
def allIdealTest (s : Plant.State ℕ) : List (Plant.Action ℕ) → Bool
  | [] => true
  | a :: rest => idealTest s a &&
      (Plant.step testConfig .integers s a).all fun t ↦ allIdealTest t rest

theorem allIdeal_of_test {s : Plant.State ℕ} {acts : List (Plant.Action ℕ)}
    (h : allIdealTest s acts = true) : AllIdeal testConfig .integers (· < 10) s acts := by
  induction acts generalizing s with
  | nil => trivial
  | cons a rest ih =>
      rw [allIdealTest, Bool.and_eq_true] at h
      refine ⟨ideal_of_idealTest rfl s a h.1, fun t ht ↦ ih ?_⟩
      simpa only [ht, Option.all_some] using h.2

/-- The startup without a failure. -/
def startup : List (Telemetry.Action ℕ) :=
  [.connect, .comms (.sntp true), .comms (.handle true), .comms (.mqtt ⟨[], 0, true⟩),
    .comms (.mqtt ⟨[], 0, true⟩), .comms (.mqtt ⟨[.ack 0 false, .ack 1 false], 0, false⟩),
    .comms (.mqtt ⟨[.ack 2 false], 0, true⟩),
    .keyExchange (some ⟨11, 12, List.replicate 48 1⟩),
    .comms (.mqtt ⟨[.ack 3 false], 0, true⟩), .resume]

/-- The first reading after the device has become attested is with the broker, the second one
is encrypted and about to be passed on. -/
theorem thread_realises_plant_attested :
    ∃ s, (offered s.thread.comms).length = 1 ∧ (pending s.thread.comms.pc).length = 1 ∧
      Realised testConfig .integers (· < 10) 0 s := by
  have hrun : (exec (step testConfig .integers) (fun s a ↦ allIdealTest s.plant (events s a))
      (.start 0)
      (startup.map .thread ++
        [.thread (.ask none), .sample 310 235 455 (some 1700000000) true true 1] ++
        (Telemetry.pollWith (ascii "\x7b\"attested\":true\x7d") ++
          (List.replicate 9 Telemetry.quietPoll).flatten).map .thread ++
        [.thread .poll, .thread (.ask none),
          .sample 310 235 455 (some 1700000900) true true 2,
          .thread (.comms (.mqtt ⟨[.ack 4 false], 0, true⟩)), .thread .resume] ++
        (List.replicate 10 Telemetry.quietPoll).flatten.map .thread ++
        [.thread .poll, .thread (.ask none),
          .sample 320 240 450 (some 1700001800) true true 3])).map
      (fun s ↦ ((offered s.thread.comms).length, (pending s.thread.comms.pc).length)) =
        some (1, 1) := by
    decide +kernel
  obtain ⟨s, hexec, hs⟩ := Option.map_eq_some_iff.mp hrun
  obtain ⟨hoffered, hpending⟩ := Prod.mk.inj hs
  exact ⟨s, hoffered, hpending, thread_realises_plant (by exact SecretBox.tagged_lawful)
    ((exec_steps hexec).mono fun _ _ htest ↦ allIdeal_of_test htest)⟩

end PlantNode.Plant.Threads
