import PlantNode.Plant.Delivery
import PlantNode.Protocol.Staleness

/-!
# Service after a key exchange

Whatever has happened before, a new key exchange whose packet reaches the charter puts both
directions back into service: from then on every packet of the device can be delivered, and
every command of the charter that is new can be, until the device boots or exchanges keys
again, the charter starts again, or another key packet comes under the same name.
-/

namespace PlantNode.Plant

open Foundation Crypto Charter Comms Irrigation Protocol Charter.Watering

variable {K : Type} {config : Config K} {py : Python} {known : K → Prop} {s t u : State K}
  {a : Action K} {kx : KeyExchange K} {deviceId : List UInt8}

/-- The message with which the device announces an exchange. -/
def announcement (config : Config K) (deviceId : List UInt8) (kx : KeyExchange K) : Message :=
  ⟨config.topicPrefix ++ ascii "/keys/" ++ deviceId, kx.packet1⟩

/-- A message that does not replace the session of `deviceId` by one from another packet. -/
def Harmless (config : Config K) (deviceId : List UInt8) (kx : KeyExchange K) (msg : Message) :
    Prop :=
  (config.topicPrefix ++ ascii "/keys/").isPrefixOf msg.topic = true →
    lastLevel msg.topic = deviceId → msg.payload.length = 48 → msg.payload = kx.packet1

/-- Steps that leave the session alone, with ideal primitives. -/
def Undisturbed (config : Config K) (known : K → Prop) (deviceId : List UInt8)
    (kx : KeyExchange K) (s : State K) (a : Action K) : Prop :=
  Ideal config known s a ∧
    match a with
    | .boot _ | .initSession (some _) | .charterStart => False
    | .message msg _ => Harmless config deviceId kx msg
    | _ => True

/-- Both ends use the keys of the exchange `kx`. -/
structure InService (deviceId : List UInt8) (kx : KeyExchange K) (s : State K) : Prop where
  ready : s.session.sSessionReady = true
  tx : s.session.sSessionTxKey = kx.tx
  rx : s.session.sSessionRxKey = kx.rx
  packet : s.exchanges.find? (fun old ↦ old.packet1 = kx.packet1) = some kx
  front : ∃ session others, s.monitor.sessions = (deviceId, session) :: others ∧
    session.rxKey = kx.tx ∧ session.txKey = kx.rx

/-! ## The session stays -/

theorem session_cryptoEncrypt (box : SecretBox K) (session : Session K)
    (reading : Option SensorReading) (outputs : Bool) (seed : ℕ) :
    ∃ msgId, (cryptoEncrypt box session reading outputs seed).2 =
      { session with sMsgId := msgId } := by
  unfold cryptoEncrypt encryptPlain
  repeat' split
  all_goals exact ⟨_, rfl⟩

/-- The front of the sessions, and the keys in it. -/
abbrev Fronted (deviceId : List UInt8) (kx : KeyExchange K)
    (sessions : List (List UInt8 × WateringSession K)) : Prop :=
  ∃ session others, sessions = (deviceId, session) :: others ∧
    session.rxKey = kx.tx ∧ session.txKey = kx.rx

theorem Fronted.onKeyPacket {recover : List UInt8 → Option (K × K)} {m : Monitor K}
    {name payload : List UInt8} (hf : Fronted deviceId kx m.sessions)
    (hrecover : recover kx.packet1 = some (kx.tx, kx.rx))
    (hsame : name = deviceId → payload.length = 48 → payload = kx.packet1) :
    Fronted deviceId kx (onKeyPacket recover m name payload).sessions := by
  obtain ⟨session, others, hsessions, hrx, htx⟩ := hf
  unfold Watering.onKeyPacket
  split
  · exact ⟨session, others, hsessions, hrx, htx⟩
  rename_i hlen
  split
  · exact ⟨session, others, hsessions, hrx, htx⟩
  rename_i rxKey txKey hkeys
  simp only [hsessions, dictSet]
  by_cases hname : deviceId = name
  · obtain rfl := hsame hname.symm (not_not.mp hlen)
    cases hrecover.symm.trans hkeys
    rw [if_pos hname, ← hname]
    exact ⟨_, _, rfl, rfl, rfl⟩
  · rw [if_neg hname]
    exact ⟨session, _, rfl, hrx, htx⟩

theorem Fronted.onMessage {m : Monitor K} {msg : Message} (hf : Fronted deviceId kx m.sessions)
    (hrecover : config.recover kx.packet1 = some (kx.tx, kx.rx))
    (hharmless : Harmless config deviceId kx msg) :
    Fronted deviceId kx (Watering.onMessage config py m msg).2.sessions := by
  unfold Watering.onMessage
  split
  · rename_i hkeys
    exact hf.onKeyPacket hrecover (hharmless hkeys)
  split
  · obtain ⟨session, others, hsessions, hrx, htx⟩ := hf
    simp only [hsessions]
    split
    · exact ⟨session, others, hsessions, hrx, htx⟩
    rename_i reading hreading
    split
    · exact ⟨session, others, hsessions, hrx, htx⟩
    rename_i event next hresult
    have hkeys := (onReading_next hresult).2
    exact ⟨next, others, rfl, hkeys ▸ hrx, hkeys ▸ htx⟩
  · exact hf

theorem Fronted.send {m : Monitor K} {state : AppState K} (hf : Fronted deviceId kx m.sessions)
    (herase : state.sessions = m.erase) (box : SecretBox K) (threshold now : ℤ) (seed : ℕ) :
    Fronted deviceId kx
      (restore m.sessions (sendThresholdUpdate box state threshold now seed).2.sessions) := by
  obtain ⟨session, others, hsessions, hrx, htx⟩ := hf
  have hstate : state.sessions = (deviceId, session.toSensorSession) ::
      (⟨others, []⟩ : Monitor K).erase := by
    rw [herase, Monitor.erase, hsessions]
    rfl
  unfold sendThresholdUpdate
  simp only [hstate, hsessions]
  split
  · simp only [hstate, restore, List.zipWith_cons_cons]
    exact ⟨_, _, rfl, hrx, htx⟩
  split
  · simp only [restore, List.zipWith_cons_cons]
    exact ⟨_, _, rfl, hrx, htx⟩
  · simp only [restore, List.zipWith_cons_cons]
    exact ⟨_, _, rfl, hrx, htx⟩

theorem InService.recover (hs : InService deviceId kx s) (forged : Option (K × K)) :
    (recovering config s.exchanges forged).recover kx.packet1 = some (kx.tx, kx.rx) := by
  simp only [recovering, recoverSessionKeys, hs.packet]

theorem InService.step (hs : InService deviceId kx s)
    (hundisturbed : Undisturbed config known deviceId kx s a) (h : step config py s a = some t) :
    InService deviceId kx t := by
  obtain ⟨-, hguard⟩ := hundisturbed
  cases a with
  | boot zero => exact hguard.elim
  | charterStart => exact hguard.elim
  | initSession exchange =>
      cases exchange with
      | some exchange => exact hguard.elim
      | none =>
          cases Option.some.inj h
          exact ⟨hs.ready, hs.tx, hs.rx, by simpa using hs.packet, hs.front⟩
  | irrigate b =>
      obtain ⟨-, j, -, rfl⟩ := irrigate_ok h
      exact ⟨hs.ready, hs.tx, hs.rx, hs.packet, hs.front⟩
  | report moistureRaw temperatureCx10 humidityRx10 tv seed =>
      cases Option.some.inj h
      obtain ⟨msgId, hsession⟩ := session_cryptoEncrypt config.box s.session
        (some (takeReading s.irrigation moistureRaw temperatureCx10 humidityRx10 tv)) true seed
      simp only [hsession]
      exact ⟨hs.ready, hs.tx, hs.rx, hs.packet, hs.front⟩
  | deliver valid topic payload =>
      cases Option.some.inj h
      exact ⟨hs.ready, hs.tx, hs.rx, hs.packet, hs.front⟩
  | charterConnect =>
      cases Option.some.inj h
      exact ⟨hs.ready, hs.tx, hs.rx, hs.packet, hs.front⟩
  | message msg forged =>
      cases Option.some.inj h
      have hfront : Fronted deviceId kx s.monitor.sessions := hs.front
      exact ⟨hs.ready, hs.tx, hs.rx, hs.packet, hfront.onMessage (hs.recover forged) hguard⟩
  | send threshold now seed =>
      cases Option.some.inj h
      have hfront : Fronted deviceId kx s.monitor.sessions := hs.front
      exact ⟨hs.ready, hs.tx, hs.rx, hs.packet, hfront.send rfl config.box threshold now seed⟩

/-! ## The exchange -/

theorem lastLevel_keys (topicPrefix : List UInt8) (hname : 47 ∉ deviceId) :
    lastLevel (topicPrefix ++ ascii "/keys/" ++ deviceId) = deviceId := by
  have hslash : (ascii "/keys/").reverse = 47 :: (ascii "/keys").reverse := by decide
  have hall : ∀ b ∈ deviceId.reverse, decide (b ≠ 47) = true := by
    intro b hb
    refine decide_eq_true fun heq ↦ hname ?_
    rw [← heq]
    exact List.mem_reverse.mp hb
  rw [lastLevel, List.reverse_append, List.reverse_append, hslash,
    List.takeWhile_append_of_pos hall, List.cons_append, List.takeWhile_cons_of_neg (by decide),
    List.append_nil, List.reverse_reverse]

theorem fronted_dictSet {sessions : List (List UInt8 × WateringSession K)}
    {session : WateringSession K} (hfirst : ∀ item ∈ sessions.head?, item.1 = deviceId)
    (hrx : session.rxKey = kx.tx) (htx : session.txKey = kx.rx) :
    Fronted deviceId kx (dictSet deviceId session sessions) := by
  cases sessions with
  | nil => exact ⟨session, [], rfl, hrx, htx⟩
  | cons item others =>
      have hitem : item.1 = deviceId := hfirst item rfl
      simp only [dictSet, if_pos hitem]
      exact ⟨session, others, rfl, hrx, htx⟩

/-- The exchange, and its announcement to the charter. -/
theorem exec_announcement (py : Python) (hfresh : FreshKeys known s.exchanges kx)
    (hgenuine : UnforgedReading config known s kx.packet1)
    (hpacket : ∀ old ∈ s.exchanges, old.packet1 ≠ kx.packet1) (hlen : kx.packet1.length = 48)
    (hname : 47 ∉ deviceId) (hfirst : ∀ item ∈ s.monitor.sessions.head?, item.1 = deviceId) :
    ∃ t, exec (step config py) (fun _ _ ↦ true) s
        [.initSession (some kx), .message (announcement config deviceId kx) none] = some t ∧
      Steps (step config py) (Ideal config known) s t ∧ InService deviceId kx t := by
  have hfind : (s.exchanges ++ [kx]).find? (fun old ↦ old.packet1 = kx.packet1) = some kx := by
    have hnone : s.exchanges.find? (fun old ↦ old.packet1 = kx.packet1) = none := by
      refine List.find?_eq_none.mpr fun old hold ↦ ?_
      simpa using hpacket old hold
    rw [List.find?_append, hnone, Option.none_or]
    simp
  have hkeys : (config.topicPrefix ++ ascii "/keys/").isPrefixOf
      (announcement config deviceId kx).topic = true :=
    List.isPrefixOf_iff_prefix.mpr (List.prefix_append _ _)
  have hsteps : ∀ {s₁ t : State K}, step config py s (.initSession (some kx)) = some s₁ →
      step config py s₁ (.message (announcement config deviceId kx) none) = some t →
        Steps (step config py) (Ideal config known) s t := by
    intro s₁ t hexchange hannounce
    refine .next _ (.next (.initSession (some kx)) .init hfresh hexchange) ?_ hannounce
    cases Option.some.inj hexchange
    exact hgenuine
  refine ⟨_, rfl, hsteps rfl rfl, rfl, rfl, rfl, hfind, ?_⟩
  have hsession : (Watering.onMessage (recovering config (s.exchanges ++ [kx]) none) py s.monitor
      (announcement config deviceId kx)).2.sessions =
        dictSet deviceId ⟨⟨kx.tx, kx.rx, 0⟩, none⟩ s.monitor.sessions := by
    have hlevel : lastLevel (announcement config deviceId kx).topic = deviceId :=
      lastLevel_keys config.topicPrefix hname
    have hrecover : recoverSessionKeys (s.exchanges ++ [kx]) none kx.packet1 =
        some (kx.tx, kx.rx) := by
      simp only [recoverSessionKeys, hfind]
    simp only [recovering, Watering.onMessage, if_pos hkeys, hlevel, onKeyPacket]
    simp only [announcement, hlen, ne_eq, not_true_eq_false, if_false, hrecover]
  have hfronted : Fronted deviceId kx (dictSet deviceId ⟨⟨kx.tx, kx.rx, 0⟩, none⟩
      s.monitor.sessions) := fronted_dictSet hfirst rfl rfl
  rwa [← hsession] at hfronted

/-! ## Both directions -/

/-- The report that a successful encryption leaves. -/
theorem step_report (hbox : config.box.Lawful) (hready : u.session.sSessionReady = true)
    {moistureRaw : UInt16} {temperatureCx10 : Int16} {humidityRx10 : UInt16} {tv : Option ℤ}
    {seed : ℕ} {out : Output}
    (hout : (cryptoEncrypt config.box u.session (some (takeReading u.irrigation moistureRaw
      temperatureCx10 humidityRx10 tv)) true seed).1 = .ok out) :
    ∃ v, ∃ r ∈ v.reports, step config py u (.report moistureRaw temperatureCx10 humidityRx10 tv
        seed) = some v ∧
      v.monitor = u.monitor ∧ v.arrivals = u.arrivals ∧ r.key = u.session.sSessionTxKey ∧
        r.reading = takeReading u.irrigation moistureRaw temperatureCx10 humidityRx10 tv ∧
          r.packet = out.data := by
  have hplain := hout
  rw [cryptoEncrypt_eq hready] at hplain
  obtain ⟨cipher, hcipher, rfl, -⟩ := encryptPlain_ok (Prod.ext hplain rfl)
  have hdata := data_encryptPlain hbox hcipher
  refine ⟨_, ⟨u.session.sSessionTxKey, u.session.sMsgId, cipher, _, u.boots,
    u.irrigation.recorded⟩, ?_, rfl, rfl, rfl, rfl, rfl, hdata.symm⟩
  refine List.mem_append_right _ ?_
  rw [hout, reportOf, hdata, List.drop_left' (length_toLE ..)]
  exact List.mem_singleton_self _

/-- A reading that the device takes and encrypts is taken up as it is, if its packet comes. -/
theorem report_served (hbox : config.box.Lawful) (hpy : Usual py) {zero : K}
    (h : Steps (step config py) (Ideal config known) (.start zero) u)
    (hs : InService deviceId kx u) {moistureRaw : UInt16} {temperatureCx10 : Int16}
    {humidityRx10 : UInt16} {tv : Option ℤ} {seed : ℕ} {out : Output}
    (hout : (cryptoEncrypt config.box u.session (some (takeReading u.irrigation moistureRaw
      temperatureCx10 humidityRx10 tv)) true seed).1 = .ok out) :
    ∃ v x, exec (step config py) (fun _ _ ↦ true) u
        [.report moistureRaw temperatureCx10 humidityRx10 tv seed,
          .message (telemetryOf config out.data) none] = some v ∧
      v.arrivals = u.arrivals ++ [x] ∧ x.payload =
        payloadOf (takeReading u.irrigation moistureRaw temperatureCx10 humidityRx10 tv) := by
  obtain ⟨session, others, hfront, hrx, -⟩ := hs.front
  obtain ⟨v, r, hmem, hstep, hmonitor, harrivals, hkey, hreading, hpacket⟩ :=
    step_report hbox hs.ready hout
  have hnext : Steps (step config py) (Ideal config known) (.start zero) v :=
    h.next (.report moistureRaw temperatureCx10 humidityRx10 tv seed) trivial hstep
  obtain ⟨-, hlogs, -⟩ := sound_logs_pulses hbox hnext
  obtain ⟨w, x, hdeliver, hadded, hpayload⟩ : ∃ w x,
      step config py v (deliverReport config r) = some w ∧ w.arrivals = v.arrivals ++ [x] ∧
        x.payload = payloadOf r.reading :=
    ⟨_, _, step_deliverReport hbox hpy hlogs (fits hbox hnext) (hmonitor ▸ hfront) hmem
      (hkey.trans (hs.tx.trans hrx.symm)), rfl, rfl⟩
  rw [deliverReport, hpacket] at hdeliver
  refine ⟨w, x, ?_, harrivals ▸ hadded, hreading ▸ hpayload⟩
  simp only [exec, if_true, hstep, Option.bind_some, hdeliver]

/-- A command that is new to the device is applied, if it comes. -/
theorem command_served (hbox : config.box.Lawful) (hs : InService deviceId kx u)
    (hclient : u.mqttClient = true) {session : WateringSession K}
    {others : List (List UInt8 × WateringSession K)}
    (hfront : u.monitor.sessions = (deviceId, session) :: others) {threshold now : ℤ} {seed : ℕ}
    (hrange : 0 ≤ threshold ∧ threshold ≤ 65535) (hfits : now < 2 ^ 32)
    (hnew : (u.irrigation.policy.sLastCommandTimestamp : ℤ) < now) {raw : List UInt8}
    (hraw : encryptCommand config.box session.txKey session.txMsgId seed
      (buildThresholdCommand now threshold) = .ok raw) :
    (sendThresholdUpdate config.box u.appState threshold now seed).1.published = .ok (some raw) ∧
      ∃ v, exec (step config py) (fun _ _ ↦ true) u
          [.send threshold now seed, .deliver true TopicCommands raw] = some v ∧
        v.irrigation.policy = ⟨threshold.toNat, now.toNat⟩ := by
  obtain ⟨session', others', hfront', -, htx⟩ := hs.front
  cases hfront.symm.trans hfront'
  refine ⟨?_, _, rfl, ?_⟩
  · have hsessions : u.appState.sessions = (deviceId, session.toSensorSession) ::
        (⟨others, []⟩ : Monitor K).erase := by
      rw [State.appState, Monitor.erase, hfront]
      rfl
    have hmqtt : u.appState.mqttClient = true := hclient
    simp only [sendThresholdUpdate, hsessions, hmqtt, Bool.not_true, Bool.false_eq_true, if_false,
      hraw]
  let c : Staleness.Command := ⟨threshold, now, hrange, by omega, hfits⟩
  have hraw : encryptCommand config.box u.session.sSessionRxKey session.txMsgId seed
      (buildThresholdCommand c.now c.threshold) = .ok raw := by
    rw [hs.rx, ← htx]
    exact hraw
  have hdelivered := Staleness.publishCallback_command hbox hs.ready c hraw u.irrigation.policy
  rw [if_pos hnew] at hdelivered
  show (publishCallback config.box u.session u.mailbox u.irrigation.policy true TopicCommands
    raw).policy = _
  rw [policy_publishCallback _ _ _ .boot, hdelivered]

/-- What the two ends can do for each other in a state: the charter takes up what the device
reports, and the device applies what is new of the commands that the charter sends. -/
structure Serves (config : Config K) (py : Python) (deviceId : List UInt8) (u : State K) :
    Prop where
  report : ∀ moistureRaw temperatureCx10 humidityRx10 tv seed out,
    (cryptoEncrypt config.box u.session (some (takeReading u.irrigation moistureRaw temperatureCx10
      humidityRx10 tv)) true seed).1 = .ok out →
    ∃ v x, exec (step config py) (fun _ _ ↦ true) u
        [.report moistureRaw temperatureCx10 humidityRx10 tv seed,
          .message (telemetryOf config out.data) none] = some v ∧
      v.arrivals = u.arrivals ++ [x] ∧ x.payload =
        payloadOf (takeReading u.irrigation moistureRaw temperatureCx10 humidityRx10 tv)
  command : ∃ session others, u.monitor.sessions = (deviceId, session) :: others ∧
    ∀ threshold now seed raw, u.mqttClient = true → 0 ≤ threshold ∧ threshold ≤ 65535 →
      now < 2 ^ 32 → (u.irrigation.policy.sLastCommandTimestamp : ℤ) < now →
        encryptCommand config.box session.txKey session.txMsgId seed
          (buildThresholdCommand now threshold) = .ok raw →
        (sendThresholdUpdate config.box u.appState threshold now seed).1.published =
            .ok (some raw) ∧
          ∃ v, exec (step config py) (fun _ _ ↦ true) u
              [.send threshold now seed, .deliver true TopicCommands raw] = some v ∧
            v.irrigation.policy = ⟨threshold.toNat, now.toNat⟩

/-- After any run, whatever the network did in it: an exchange of keys whose packet reaches
the charter restores the service, and no network takes it away again except by another key
packet under the name of the device. -/
theorem service_restored (hbox : config.box.Lawful) (hpy : Usual py) {zero : K}
    (h : Steps (step config py) (Ideal config known) (.start zero) s)
    (hfresh : FreshKeys known s.exchanges kx)
    (hgenuine : UnforgedReading config known s kx.packet1)
    (hpacket : ∀ old ∈ s.exchanges, old.packet1 ≠ kx.packet1) (hlen : kx.packet1.length = 48)
    (hname : 47 ∉ deviceId) (hfirst : ∀ item ∈ s.monitor.sessions.head?, item.1 = deviceId) :
    ∃ t, exec (step config py) (fun _ _ ↦ true) s
        [.initSession (some kx), .message (announcement config deviceId kx) none] = some t ∧
      ∀ u, Steps (step config py) (Undisturbed config known deviceId kx) t u →
        Serves config py deviceId u := by
  obtain ⟨t, hexec, hsteps, hservice⟩ :=
    exec_announcement py hfresh hgenuine hpacket hlen hname hfirst
  refine ⟨t, hexec, fun u hu ↦ ?_⟩
  have hin : InService deviceId kx u :=
    hu.invariant hservice fun _ _ _ hs hundisturbed hstep ↦ hs.step hundisturbed hstep
  have hreached : Steps (step config py) (Ideal config known) (.start zero) u :=
    (h.trans hsteps).trans (hu.mono fun _ _ hundisturbed ↦ hundisturbed.1)
  obtain ⟨session, others, hfront, -⟩ := hin.front
  constructor
  · intro moistureRaw temperatureCx10 humidityRx10 tv seed out hout
    exact report_served hbox hpy hreached hin hout
  · refine ⟨session, others, hfront, ?_⟩
    intro threshold now seed raw hclient hrange hfits hnew hraw
    exact command_served hbox hin hclient hfront hrange hfits hnew hraw

/-- A reboot after a command, with the session of the charter still under the old keys. -/
theorem service_restored_rebooted :
    let kx : KeyExchange ℕ := ⟨13, 14, List.replicate 48 2⟩
    ∃ s t : State ℕ, s.boots = 1 ∧
      exec (step testConfig .integers) (fun _ _ ↦ true) s [.initSession (some kx),
        .message (announcement testConfig (ascii "plantnode-001") kx) none] = some t ∧
      ∀ u, Steps (step testConfig .integers)
          (Undisturbed testConfig (· < 10) (ascii "plantnode-001") kx) t u →
        Serves testConfig .integers (ascii "plantnode-001") u := by
  intro kx
  let tests (s : State ℕ) : List Bool := [decide (s.boots = 1),
    idealTest s (.initSession (some kx)), idealTest s (.message ⟨[], kx.packet1⟩ none),
    s.exchanges.all fun old ↦ decide (old.packet1 ≠ kx.packet1),
    s.monitor.sessions.head?.all fun item ↦ decide (item.1 = ascii "plantnode-001")]
  have hrun : (exec (step testConfig .integers) idealTest (.start 0)
      [.initSession (some ⟨11, 12, List.replicate 48 1⟩), .charterConnect,
        .message ⟨ascii "plantnode/keys/plantnode-001", List.replicate 48 1⟩ none,
        .send 500 1700000000 1,
        .deliver true TopicCommands (toLE 8 0 ++ (toLE 12 12 ++ toLE 12 0 ++
          toLE 12 (ofLE KBoxCtx) ++ buildThresholdCommand 1700000000 500)),
        .boot 0]).map tests = some (List.replicate 5 true) := by
    decide +kernel
  obtain ⟨s, hexec, hs⟩ := Option.map_eq_some_iff.mp hrun
  have hs : tests s = [true, true, true, true, true] := hs
  simp only [tests, List.cons.injEq, decide_eq_true_eq, List.all_eq_true] at hs
  obtain ⟨hboots, hfresh, hgenuine, hpacket, hfirst, -⟩ := hs
  have hfirst' : ∀ item ∈ s.monitor.sessions.head?, item.1 = ascii "plantnode-001" := by
    intro item hitem
    rw [Option.mem_def.mp hitem] at hfirst
    exact of_decide_eq_true hfirst
  have hreached : Steps (step testConfig .integers) (Ideal testConfig (· < 10)) (.start 0) s :=
    (exec_steps hexec).mono (ideal_of_idealTest rfl)
  have hexchange : Ideal testConfig (· < 10) s (.initSession (some kx)) :=
    ideal_of_idealTest rfl s _ hfresh
  have hannounce : Ideal testConfig (· < 10) s (.message ⟨[], kx.packet1⟩ none) :=
    ideal_of_idealTest rfl s _ hgenuine
  have hbox : testConfig.box.Lawful := SecretBox.tagged_lawful
  obtain ⟨t, ht⟩ := service_restored hbox usual_integers hreached hexchange hannounce hpacket
    (by decide) (by decide) hfirst'
  exact ⟨s, t, hboots, ht⟩

end PlantNode.Plant
