import PlantNode.Plant.Readings

/-!
# What is delivered is taken up

The other half of `readings_genuine`: under a key that the network does not know, the charter
takes a message for a reading exactly if it is a packet of the device, and whichever of these
packets arrive, each adds its own reading.
-/

namespace PlantNode.Plant

open Foundation Crypto Charter Comms Irrigation Protocol Charter.Watering

variable {K : Type} {config : Config K} {py : Python} {known : K → Prop} {s t : State K}
  {a : Action K} {r : Report K} {deviceId : List UInt8} {session : WateringSession K}
  {others : List (List UInt8 × WateringSession K)}

/-- The payload of the telemetry message for a report. -/
def Report.packet (r : Report K) : List UInt8 := toLE 8 r.msgId ++ r.cipher

def telemetryOf (config : Config K) (payload : List UInt8) : Message :=
  ⟨config.topicPrefix ++ ascii "/telemetry", payload⟩

/-- Python takes every number of 32 bits for a float and every time of 32 bits for a date. -/
structure Usual (py : Python) : Prop where
  float : ∀ n : ℤ, -2 ^ 32 < n → n < 2 ^ 32 → py.float (.int n) = true
  fromtimestamp : ∀ n : ℕ, n < 2 ^ 32 → py.fromtimestamp n = true

/-! ## Bounds -/

/-- Message ids have 64 bits, and no report is from a later boot. -/
structure Fits (s : State K) : Prop where
  current : s.session.sMsgId < 2 ^ 64
  reports : ∀ r ∈ s.reports, r.msgId < 2 ^ 64
  boots : ∀ r ∈ s.reports, r.boot ≤ s.boots

theorem fits_start (zero : K) : Fits (.start zero) := by
  constructor <;> simp [State.start, Session.boot]

theorem Fits.step (hbox : config.box.Lawful) (hf : Fits s) (h : step config py s a = some t) :
    Fits t := by
  cases a with
  | boot zero =>
      cases Option.some.inj h
      exact ⟨by norm_num [Session.boot], hf.reports,
        fun r hr ↦ (hf.boots r hr).trans (Nat.le_succ _)⟩
  | initSession kx =>
      cases Option.some.inj h
      cases kx with
      | none => exact ⟨hf.current, hf.reports, hf.boots⟩
      | some kx => exact ⟨by norm_num [cryptoInitSession], hf.reports, hf.boots⟩
  | irrigate b =>
      obtain ⟨-, j, hj, rfl⟩ := irrigate_ok h
      exact ⟨hf.current, hf.reports, hf.boots⟩
  | report moistureRaw temperatureCx10 humidityRx10 tv seed =>
      cases Option.some.inj h
      generalize takeReading s.irrigation moistureRaw temperatureCx10 humidityRx10 tv = reading
      generalize hcall : cryptoEncrypt config.box s.session (some reading) true seed = call
      obtain ⟨result, session⟩ := call
      rcases report_cases hbox s reading seed hcall with ⟨-, hreports, rfl⟩ |
        ⟨cipher, -, -, -, hreports, rfl⟩
      · exact ⟨hf.current, by simpa [hreports] using hf.reports, by simpa [hreports] using hf.boots⟩
      · refine ⟨Nat.mod_lt _ (Nat.two_pow_pos 64), ?_, ?_⟩
        all_goals simp only [hreports]
        · exact List.forall_mem_append.mpr ⟨hf.reports, List.forall_mem_singleton.mpr hf.current⟩
        · exact List.forall_mem_append.mpr ⟨hf.boots, List.forall_mem_singleton.mpr le_rfl⟩
  | _ =>
      cases Option.some.inj h
      exact ⟨hf.current, hf.reports, hf.boots⟩

theorem fits (hbox : config.box.Lawful) {zero : K}
    (h : Steps (step config py) (Ideal config known) (.start zero) s) : Fits s :=
  h.invariant (fits_start zero) fun _ _ _ hf _ hstep ↦ hf.step hbox hstep

/-! ## One packet -/

theorem fromDict_payloadOf (hpy : Usual py) (reading : SensorReading) :
    fromDict py (readingObject reading) = some (payloadOf reading) := by
  have htemperature : py.float (.int reading.temperatureCx10.toInt) = true := by
    have hlower := reading.temperatureCx10.le_toInt
    have hupper := reading.temperatureCx10.toInt_lt
    exact hpy.float _ (by omega) (by omega)
  have hhumidity : py.float (.int reading.humidityRx10.toNat) = true := by
    have hlt := reading.humidityRx10.toNat_lt
    exact hpy.float _ (by omega) (by omega)
  simp [fromDict, readingObject, member, points, Json.points, ascii, py.int_int,
    Option.filter_some, htemperature, hhumidity, payloadOf]

theorem rawMsgId_packet (hf : Fits s) (hmem : r ∈ s.reports) : rawMsgId r.packet = r.msgId := by
  rw [rawMsgId, Report.packet, List.take_left' (length_toLE 8 _), ofLE_toLE]
  exact Nat.mod_eq_of_lt (hf.reports r hmem)

theorem readTelemetry_packet (hbox : config.box.Lawful) (hpy : Usual py)
    (hr : Logs config.box s) (hf : Fits s) (hmem : r ∈ s.reports) (hkey : r.key = session.rxKey) :
    readTelemetry config py session r.packet = some (payloadOf r.reading) := by
  obtain ⟨seed, hencrypt⟩ := hr.encrypted r hmem
  have hlong : ¬r.packet.length < 8 := by
    rw [Report.packet, List.length_append, length_toLE]
    omega
  have hundo : config.box.decrypt defaultContext session.rxKey r.msgId (r.packet.drop 8) =
      some (readingText r.reading) := by
    rw [Report.packet, List.drop_left' (length_toLE 8 _), ← hkey]
    exact hbox.undoes hencrypt
  simp only [readTelemetry, decryptTelemetry, if_neg hlong, rawMsgId_packet hf hmem, hundo,
    loads_readingText, fromDict_payloadOf hpy]

/-- The event for a reading after a reading with the watering `seen`. -/
def eventFor (deviceId : List UInt8) (seen : Option ℤ) (reading : SensorReading) :
    Option PlotterEvent :=
  seen.bind fun last ↦
    if (reading.lastWatering.toNat : ℤ) = last then none
    else some (deviceId, reading.lastWatering.toNat)

theorem onReading_payloadOf (hpy : Usual py) (deviceId : List UInt8)
    (session : WateringSession K) (reading : SensorReading) :
    onReading py deviceId session (payloadOf reading) =
      some (eventFor deviceId session.lastWateringSeen reading,
        { session with lastWateringSeen := some reading.lastWatering.toNat }) := by
  have htime := hpy.fromtimestamp reading.lastWatering.toNat reading.lastWatering.toNat_lt
  cases hseen : session.lastWateringSeen with
  | none => rw [onReading_first hseen]; rfl
  | some last =>
      simp only [onReading, hseen, payloadOf, eventFor, Option.bind_some, htime, if_true]
      split <;> rfl

/-- The charter takes up a packet under the key of its first session. -/
theorem onMessage_packet (hbox : config.box.Lawful) (hpy : Usual py) (hr : Logs config.box s)
    (hf : Fits s) {m : Monitor K} (hfront : m.sessions = (deviceId, session) :: others)
    (hmem : r ∈ s.reports) (hkey : r.key = session.rxKey) :
    Watering.onMessage config py m (telemetryOf config r.packet) =
      (some ⟨deviceId, r.reading.lastWatering.toNat,
          eventFor deviceId session.lastWateringSeen r.reading⟩,
        { sessions := (deviceId, { session with
            lastWateringSeen := some r.reading.lastWatering.toNat }) :: others
          wateringQueue := m.wateringQueue ++
            (eventFor deviceId session.lastWateringSeen r.reading).toList }) := by
  have hread := readTelemetry_packet hbox hpy hr hf hmem hkey
  have hkeys := @not_keys_of_telemetry _ config (telemetryOf config r.packet) rfl
  simp only [Watering.onMessage, hkeys, hfront]
  simp only [telemetryOf, if_true, Bool.false_eq_true, if_false, hread,
    onReading_payloadOf hpy deviceId session r.reading]
  rfl

theorem arrivalOf_packet (hbox : config.box.Lawful) (hpy : Usual py) (hr : Logs config.box s)
    (hf : Fits s) {m : Monitor K} (hfront : m.sessions = (deviceId, session) :: others)
    (hmem : r ∈ s.reports) (hkey : r.key = session.rxKey) :
    arrivalOf config py m (telemetryOf config r.packet) =
      [⟨session.rxKey, r.msgId, payloadOf r.reading, session.lastWateringSeen.isNone,
        eventFor deviceId session.lastWateringSeen r.reading⟩] := by
  have hread : readTelemetry config py session (telemetryOf config r.packet).payload = _ :=
    readTelemetry_packet hbox hpy hr hf hmem hkey
  have hid : rawMsgId (telemetryOf config r.packet).payload = r.msgId := rawMsgId_packet hf hmem
  simp only [arrivalOf, onMessage_packet hbox hpy hr hf hfront hmem hkey, hfront, hread, hid,
    Option.toList_some, List.map_cons, List.map_nil]

/-! ## Packets one after another -/

/-- What the charter records of `reports` after a reading with the watering `seen`. -/
def arrivalsOf (deviceId : List UInt8) (key : K) :
    Option ℤ → List (Report K) → List (Arrival K)
  | _, [] => []
  | seen, r :: reports =>
      ⟨key, r.msgId, payloadOf r.reading, seen.isNone, eventFor deviceId seen r.reading⟩ ::
        arrivalsOf deviceId key (some r.reading.lastWatering.toNat) reports

def deliverReport (config : Config K) (r : Report K) : Action K :=
  .message (telemetryOf config r.packet) none

theorem step_deliverReport (hbox : config.box.Lawful) (hpy : Usual py) (hr : Logs config.box s)
    (hf : Fits s) (hfront : s.monitor.sessions = (deviceId, session) :: others)
    (hmem : r ∈ s.reports) (hkey : r.key = session.rxKey) :
    step config py s (deliverReport config r) = some { s with
      monitor := {
        sessions := (deviceId, { session with
          lastWateringSeen := some r.reading.lastWatering.toNat }) :: others
        wateringQueue := s.monitor.wateringQueue ++
          (eventFor deviceId session.lastWateringSeen r.reading).toList }
      arrivals := s.arrivals ++ [⟨session.rxKey, r.msgId, payloadOf r.reading,
        session.lastWateringSeen.isNone,
        eventFor deviceId session.lastWateringSeen r.reading⟩] } := by
  -- the keys that the charter would recover play no part in a reading
  have hbox' : (recovering config s.exchanges none).box.Lawful := hbox
  have hmessage := onMessage_packet hbox' hpy hr hf hfront hmem hkey
  have harrival := arrivalOf_packet hbox' hpy hr hf hfront hmem hkey
  simp only [telemetryOf, recovering] at hmessage harrival
  simp only [step, deliverReport, telemetryOf, recovering, hmessage, harrival]

theorem exec_deliverReport (hbox : config.box.Lawful) (hpy : Usual py) (hr : Logs config.box s)
    (hf : Fits s) (hfront : s.monitor.sessions = (deviceId, session) :: others)
    {reports : List (Report K)}
    (hreports : ∀ r ∈ reports, r ∈ s.reports ∧ r.key = session.rxKey) :
    ∃ t, exec (step config py) (fun _ _ ↦ true) s (reports.map (deliverReport config)) = some t ∧
      t.arrivals = s.arrivals ++
        arrivalsOf deviceId session.rxKey session.lastWateringSeen reports := by
  induction reports generalizing s session with
  | nil => exact ⟨s, rfl, (List.append_nil _).symm⟩
  | cons r reports ih =>
      obtain ⟨⟨hmem, hkey⟩, hrest⟩ := List.forall_mem_cons.mp hreports
      have hstep := step_deliverReport hbox hpy hr hf hfront hmem hkey
      generalize hm : (⟨_, _⟩ : Monitor K) = m at hstep
      generalize ha : s.arrivals ++ [_] = arrivals at hstep
      have hr' : Logs config.box { s with monitor := m, arrivals := arrivals } :=
        hr.of_eq hr.holds rfl (fun _ he _ ↦ he) (fun _ hkx ↦ hkx) fun _ hx ↦ hx
      obtain ⟨t, hexec, harrivals⟩ := ih hr' ⟨hf.current, hf.reports, hf.boots⟩
        (congrArg Monitor.sessions hm).symm hrest
      refine ⟨t, ?_, ?_⟩
      · simp only [List.map_cons, exec, if_true, hstep, Option.bind_some, hexec]
      · rw [harrivals, arrivalsOf]
        simp only [← ha, List.append_assoc, List.singleton_append]

/-! ## What is taken up -/

/-- The charter takes up a payload under a key that the network does not know exactly if it
is a packet of the device. -/
theorem arrivalOf_telemetry (hbox : config.box.Lawful) (hpy : Usual py) (hr : Logs config.box s)
    (hs : Sound config.box known s.system) (hf : Fits s)
    (hfront : s.monitor.sessions = (deviceId, session) :: others) (hsecret : ¬known session.rxKey)
    {payload : List UInt8} (hideal : UnforgedReading config known s payload) :
    arrivalOf config py s.monitor (telemetryOf config payload) ≠ [] ↔
      ∃ r ∈ s.reports, r.key = session.rxKey ∧ payload = r.packet := by
  constructor
  · intro hne
    rcases message_cases config py s.monitor (telemetryOf config payload) with
      ⟨hnone, -⟩ | ⟨deviceId', session', next, others', reading, event, hfront', hreads, -⟩
    · exact absurd hnone hne
    cases hfront.symm.trans hfront'
    have hread : readTelemetry config py session payload = some reading := hreads.2
    have hlong : 8 ≤ payload.length := by
      by_contra hshort
      simp [readTelemetry, decryptTelemetry, Nat.lt_of_not_le hshort] at hread
    obtain ⟨r, hmem, hkey, hid, -, hcipher⟩ :=
      (genuine_reading hbox hr hs hfront hideal hread).resolve_left hsecret
    refine ⟨r, hmem, hkey, ?_⟩
    have hhead : toLE 8 (rawMsgId payload) = payload.take 8 := by
      have hlen : (payload.take 8).length = 8 := by
        rw [List.length_take]
        omega
      rw [rawMsgId]
      simpa only [hlen] using toLE_ofLE (payload.take 8)
    rw [Report.packet, hid, hcipher, hhead, List.take_append_drop]
  · rintro ⟨r, hmem, hkey, rfl⟩
    rw [arrivalOf_packet hbox hpy hr hf hfront hmem hkey]
    exact List.cons_ne_nil _ _

/-- Under a key that the network does not know, exactly the packets of the device are taken
up, and in whatever order and however often they come, each adds its own reading, with an
event if its time of the last watering is not that of the reading before it. -/
structure Delivered (config : Config K) (py : Python) (known : K → Prop) (s : State K) :
    Prop where
  taken : ∀ deviceId session others, s.monitor.sessions = (deviceId, session) :: others →
    ¬known session.rxKey → ∀ payload, UnforgedReading config known s payload →
      (arrivalOf config py s.monitor (telemetryOf config payload) ≠ [] ↔
        ∃ r ∈ s.reports, r.key = session.rxKey ∧ payload = r.packet)
  each : ∀ deviceId session others, s.monitor.sessions = (deviceId, session) :: others →
    ∀ reports : List (Report K), (∀ r ∈ reports, r ∈ s.reports ∧ r.key = session.rxKey) →
      ∃ t, exec (step config py) (fun _ _ ↦ true) s (reports.map (deliverReport config)) = some t ∧
        t.arrivals = s.arrivals ++
          arrivalsOf deviceId session.rxKey session.lastWateringSeen reports

/-- In every run, whatever the network does. -/
theorem reports_delivered (hbox : config.box.Lawful) (hpy : Usual py) {zero : K}
    (h : Steps (step config py) (Ideal config known) (.start zero) s) :
    Delivered config py known s := by
  obtain ⟨hsound, hlogs, -⟩ := sound_logs_pulses hbox h
  have hfits := fits hbox h
  constructor
  · intro deviceId session others hfront hsecret payload hideal
    exact arrivalOf_telemetry hbox hpy hlogs hsound hfits hfront hsecret hideal
  · intro deviceId session others hfront reports hreports
    exact exec_deliverReport hbox hpy hlogs hfits hfront hreports

theorem usual_integers : Usual .integers where
  float _ _ _ := rfl
  fromtimestamp n hn := by
    have hlt : (n : ℤ) < 253402300800 := by omega
    simp [Python.integers, hlt]

/-- Two reports before the charter has received any of them. -/
theorem reports_delivered_pending :
    ∃ s, s.reports.map Report.msgId = [0, 1] ∧ s.monitor.sessions.map Prod.fst =
        [ascii "plantnode-001"] ∧
      Delivered testConfig .integers (· < 10) (s : State ℕ) := by
  have hrun : (exec (step testConfig .integers) idealTest (.start 0)
      [.initSession (some ⟨11, 12, List.replicate 48 1⟩),
        .message ⟨ascii "plantnode/keys/plantnode-001", List.replicate 48 1⟩ none,
        .report 310 235 455 (some 1700000900) 1, .report 320 240 450 (some 1700001800) 2]).map
      (fun s ↦ (s.reports.map Report.msgId, s.monitor.sessions.map Prod.fst)) =
        some ([0, 1], [ascii "plantnode-001"]) := by
    decide +kernel
  obtain ⟨s, hexec, hs⟩ := Option.map_eq_some_iff.mp hrun
  obtain ⟨hids, hfirst⟩ := Prod.mk.inj hs
  exact ⟨s, hids, hfirst, reports_delivered (by exact SecretBox.tagged_lawful) usual_integers
    ((exec_steps hexec).mono (ideal_of_idealTest rfl))⟩

end PlantNode.Plant
