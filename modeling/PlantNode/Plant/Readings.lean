import PlantNode.Crypto.Telemetry
import PlantNode.Plant.Pump

/-!
# Genuine readings

What the charter processes under a key that the network does not know is a reading of the
device, field by field, and a watering that it reports is one that the device recorded.
A command sent back to the charter is never taken for a reading: its object lacks the
members of one.
-/

namespace PlantNode.Plant

open Foundation Crypto Charter Comms Irrigation Protocol Charter.Watering

variable {K : Type} {config : Config K} {py : Python} {known : K → Prop} {s t : State K}
  {a : Action K}

/-- What `SensorPayload.from_dict` makes of a reading. -/
def payloadOf (reading : SensorReading) : SensorPayload where
  timestamp := reading.timestamp.toNat
  temperature := .int reading.temperatureCx10.toInt
  humidity := .int reading.humidityRx10.toNat
  moisture := reading.moistureRaw.toNat
  lastWatering := reading.lastWatering.toNat

/-! ## The two kinds of plaintext -/

theorem fromDict_readingObject {reading : SensorReading} {payload : SensorPayload}
    (h : fromDict py (readingObject reading) = some payload) : payload = payloadOf reading := by
  simp [fromDict, readingObject, member, points, Json.points, ascii, py.int_int] at h
  obtain ⟨temperature, htemperature, h⟩ := Option.bind_eq_some_iff.mp h
  obtain ⟨humidity, hhumidity, h⟩ := Option.bind_eq_some_iff.mp h
  cases (Option.filter_eq_some_iff.mp htemperature).1
  cases (Option.filter_eq_some_iff.mp hhumidity).1
  cases h
  rfl

def commandObject (now threshold : ℤ) : Json :=
  .object [(Json.points (ascii "timestamp"), .int now),
    (Json.points (ascii "threshold"), .int threshold)]

theorem loads_buildThresholdCommand (now threshold : ℤ) :
    Json.loads (buildThresholdCommand now threshold) = some (commandObject now threshold) := by
  have htext : buildThresholdCommand now threshold = Json.openBrace ::
      (Json.memberText (ascii "timestamp", now) ++
        Json.membersText [(ascii "threshold", threshold)]) := by
    have h₁ : ascii "\x7b\"timestamp\":" =
        Json.openBrace :: Json.quote :: (ascii "timestamp" ++ [Json.quote, Json.colon]) := by decide
    have h₂ : ascii ",\"threshold\":" =
        Json.comma :: Json.quote :: (ascii "threshold" ++ [Json.quote, Json.colon]) := by decide
    have h₃ : ascii "\x7d" = [Json.closeBrace] := by decide
    simp [buildThresholdCommand, h₁, h₂, h₃, Json.memberText, Json.membersText]
  rw [htext]
  apply Json.loads_object (ascii "timestamp", now) [(ascii "threshold", threshold)]
  · simp only [List.forall_mem_cons]
    exact ⟨by decide, by decide, by simp⟩
  · simp only [List.map_cons, List.map_nil]
    decide

/-- A command is not a reading. -/
theorem fromDict_commandObject (now threshold : ℤ) :
    fromDict py (commandObject now threshold) = none := by
  simp [fromDict, commandObject, member, points, Json.points, ascii]

/-! ## One message to the charter -/

theorem readTelemetry_some {session : WateringSession K} {payload : List UInt8}
    {reading : SensorPayload} (h : readTelemetry config py session payload = some reading) :
    ∃ plaintext data, config.box.decrypt defaultContext session.rxKey (rawMsgId payload)
        (payload.drop 8) = some plaintext ∧
      Json.loads plaintext = some data ∧ fromDict py data = some reading := by
  unfold readTelemetry decryptTelemetry at h
  split at h
  · cases h
  rename_i data hdata
  split at hdata
  · cases hdata
  split at hdata
  · cases hdata
  rename_i plaintext hplaintext
  split at hdata
  · cases hdata
  rename_i hvalue
  cases hdata
  exact ⟨plaintext, data, hplaintext, hvalue, h⟩

/-- A message changes the sessions as a key packet does or not at all, or is a reading of
the first session. -/
theorem message_cases (config : Config K) (py : Python) (m : Monitor K) (msg : Message) :
    (arrivalOf config py m msg = [] ∧
      ((Watering.onMessage config py m msg).2 = m ∨
        ∃ deviceId session, session.lastWateringSeen = none ∧
          (Watering.onMessage config py m msg).2 =
            { m with sessions := dictSet deviceId session m.sessions })) ∨
    ∃ deviceId session next others reading event,
      m.sessions = (deviceId, session) :: others ∧ Reads config py session msg reading ∧
        onReading py deviceId session reading = some (event, next) ∧
        (Watering.onMessage config py m msg).2 =
          ⟨(deviceId, next) :: others, m.wateringQueue ++ event.toList⟩ ∧
        arrivalOf config py m msg = [⟨session.rxKey, rawMsgId msg.payload, reading,
          session.lastWateringSeen.isNone, event⟩] := by
  have hmoves := handle_moves config py ⟨m, []⟩ msg
  generalize ht : Watering.handle config py ⟨m, []⟩ msg = t at hmoves
  have hmonitor : (Watering.onMessage config py m msg).2 = t.monitor := by rw [← ht]; rfl
  have hprocessed : (Watering.onMessage config py m msg).1.toList = t.processed := by
    rw [← ht, Watering.handle, List.nil_append]
  have hnone : t.processed = [] → arrivalOf config py m msg = [] := by
    intro hnil
    rw [hnil, Option.toList_eq_nil_iff] at hprocessed
    rw [arrivalOf, hprocessed]
    split
    · rename_i hsome
      cases hsome
    · rfl
  cases hmoves with
  | quiet idle => exact .inl ⟨hnone rfl, .inl hmonitor⟩
  | keys idle deviceId session fresh =>
      exact .inl ⟨hnone rfl, .inr ⟨deviceId, session, fresh, hmonitor⟩⟩
  | reading deviceId session next others reading event before reads result =>
      refine .inr ⟨deviceId, session, next, others, reading, event, before, reads, result,
        hmonitor, ?_⟩
      have hsome : (Watering.onMessage config py m msg).1 =
          some ⟨deviceId, reading.lastWatering, event⟩ := by
        rw [List.nil_append] at hprocessed
        exact Option.toList_eq_singleton_iff.mp hprocessed
      have hread : readTelemetry config py session msg.payload = some reading := reads.2
      have before : m.sessions = (deviceId, session) :: others := before
      simp only [arrivalOf, before, hsome, hread, Option.toList_some, List.map_cons, List.map_nil]

/-! ## What the device encrypts -/

theorem data_encryptPlain {key : K} {msgId seed : ℕ} {plain cipher : List UInt8}
    (hbox : config.box.Lawful)
    (h : config.box.encrypt KBoxCtx key msgId seed plain = some cipher) :
    Output.data ⟨toLE 8 msgId ++ cipher, 8 + hydroSecretboxHeaderBytes + plain.length⟩ =
      toLE 8 msgId ++ cipher := by
  have hadds := hbox.adds h
  have hlen : (toLE 8 msgId ++ cipher).length ≤
      8 + hydroSecretboxHeaderBytes + plain.length := by
    rw [List.length_append, length_toLE, hadds]
    omega
  exact List.take_of_length_le hlen

/-- A call of `crypto_encrypt` adds nothing to the logs, or one report to both. -/
theorem report_cases (hbox : config.box.Lawful) (s : State K) (reading : SensorReading)
    (seed : ℕ) {result : Except Errno Output} {session : Session K}
    (h : cryptoEncrypt config.box s.session (some reading) true seed = (result, session)) :
    (readingEntry s.session result = [] ∧ reportOf s reading result = [] ∧ session = s.session) ∨
    ∃ cipher, s.session.sSessionReady = true ∧
      config.box.encrypt KBoxCtx s.session.sSessionTxKey s.session.sMsgId seed
        (readingText reading) = some cipher ∧
      readingEntry s.session result =
        [⟨s.session.sSessionTxKey, s.session.sMsgId, cipher, .reading⟩] ∧
      reportOf s reading result = [⟨s.session.sSessionTxKey, s.session.sMsgId, cipher, reading,
        s.boots, s.irrigation.recorded⟩] ∧
      session = { s.session with sMsgId := (s.session.sMsgId + 1) % 2 ^ 64 } := by
  by_cases hready : s.session.sSessionReady = true
  · rw [cryptoEncrypt_eq hready] at h
    cases result with
    | error e =>
        obtain ⟨-, rfl⟩ := encryptPlain_error hready h
        exact .inl ⟨rfl, rfl, rfl⟩
    | ok out =>
        obtain ⟨cipher, hcipher, rfl, rfl⟩ := encryptPlain_ok h
        have hdata := data_encryptPlain hbox hcipher
        refine .inr ⟨cipher, hready, hcipher, ?_, ?_, rfl⟩
        · rw [readingEntry, hdata, List.drop_left' (length_toLE ..)]
        · rw [reportOf, hdata, List.drop_left' (length_toLE ..)]
  · have hnone : cryptoEncrypt config.box s.session (some reading) true seed =
        (.error .ENOSYS, s.session) := by
      simp [cryptoEncrypt, hready]
    cases h.symm.trans hnone
    exact .inl ⟨rfl, rfl, rfl⟩

/-! ## Reports -/

/-- The logs say what the device encrypted, and the reports say what its irrigation thread
had recorded. -/
structure Logs (box : SecretBox K) (s : State K) : Prop where
  holds : Holds s.irrigation
  taken : ∀ r ∈ s.reports,
    r.reading.lastWatering.toNat = (r.recorded.getLast?.map timestampOf).getD 0
  encrypted : ∀ r ∈ s.reports, ∃ seed,
    box.encrypt KBoxCtx r.key r.msgId seed (readingText r.reading) = some r.cipher
  logged : ∀ e ∈ s.log, e.origin = .reading →
    ∃ r ∈ s.reports, r.key = e.key ∧ r.msgId = e.msgId ∧ r.cipher = e.cipher
  exchanged : ∀ r ∈ s.reports, ∃ kx ∈ s.exchanges, r.key = kx.tx
  pumped : ∀ r ∈ s.reports, r.recorded ≠ [] → ∃ x ∈ s.pulses, x.boot = r.boot

theorem timestampOf_lt (tv : Option ℤ) : timestampOf tv < 2 ^ 32 := by
  cases tv with
  | none => norm_num [timestampOf]
  | some tvSec =>
      have hlt : tvSec % 2 ^ 32 < 2 ^ 32 := Int.emod_lt_of_pos tvSec (by norm_num)
      have hnonneg : 0 ≤ tvSec % 2 ^ 32 := Int.emod_nonneg tvSec (by norm_num)
      rw [timestampOf]
      omega

theorem lastWatering_takeReading {i : Irrigation.State} (h : Holds i) (moistureRaw : UInt16)
    (temperatureCx10 : Int16) (humidityRx10 : UInt16) (tv : Option ℤ) :
    (takeReading i moistureRaw temperatureCx10 humidityRx10 tv).lastWatering.toNat =
      (i.recorded.getLast?.map timestampOf).getD 0 := by
  have hvalue : (takeReading i moistureRaw temperatureCx10 humidityRx10 tv).lastWatering =
      UInt32.ofNat i.sLastWatering := rfl
  have hlt : (i.recorded.getLast?.map timestampOf).getD 0 < 2 ^ 32 := by
    cases i.recorded.getLast? with
    | none => norm_num
    | some tv => exact timestampOf_lt tv
  rw [hvalue, h, UInt32.toNat_ofNat', Nat.mod_eq_of_lt hlt]

theorem logs_start (zero : K) : Logs config.box (.start zero) where
  holds := rfl
  taken := by simp [State.start]
  encrypted := by simp [State.start]
  logged := by simp [State.start]
  exchanged := by simp [State.start]
  pumped := by simp [State.start]

/-- A step that makes no report and logs no reading keeps what is known of them. -/
theorem Logs.of_eq (hr : Logs config.box s) (hholds : Holds t.irrigation)
    (hreports : t.reports = s.reports)
    (hlog : ∀ e ∈ t.log, e.origin = .reading → e ∈ s.log)
    (hexchanges : ∀ kx ∈ s.exchanges, kx ∈ t.exchanges)
    (hpulses : ∀ x ∈ s.pulses, x ∈ t.pulses) : Logs config.box t := by
  refine ⟨hholds, ?_, ?_, fun e he horigin ↦ ?_, fun r hr' ↦ ?_, fun r hr' hne ↦ ?_⟩
  · rw [hreports]
    exact hr.taken
  · rw [hreports]
    exact hr.encrypted
  · rw [hreports]
    exact hr.logged e (hlog e he horigin) horigin
  · rw [hreports] at hr'
    obtain ⟨kx, hkx, hkey⟩ := hr.exchanged r hr'
    exact ⟨kx, hexchanges kx hkx, hkey⟩
  · rw [hreports] at hr'
    obtain ⟨x, hx, hboot⟩ := hr.pumped r hr' hne
    exact ⟨x, hpulses x hx, hboot⟩

theorem sentEntry_origin {sessions : List (List UInt8 × SensorSession K)} {sent : Sent}
    {threshold now : ℤ} {e : Entry K} (he : e ∈ sentEntry sessions sent threshold now) :
    e.origin = .command threshold now := by
  unfold sentEntry at he
  split at he
  · rw [List.mem_singleton.mp he]
  · cases he

theorem Logs.step (hbox : config.box.Lawful) (hr : Logs config.box s) (hp : Pulses s)
    (hs : Sound config.box known s.system) (h : step config py s a = some t) :
    Logs config.box t := by
  cases a with
  | boot zero =>
      cases Option.some.inj h
      exact hr.of_eq rfl rfl (fun e he _ ↦ he) (fun _ hkx ↦ hkx) fun _ hx ↦ hx
  | initSession kx =>
      cases Option.some.inj h
      exact hr.of_eq hr.holds rfl (fun e he _ ↦ he) (fun _ hkx ↦ List.mem_append_left _ hkx)
        fun _ hx ↦ hx
  | irrigate b =>
      obtain ⟨-, j, hj, rfl⟩ := irrigate_ok h
      exact hr.of_eq (hr.holds.step hj) rfl (fun e he _ ↦ he) (fun _ hkx ↦ hkx)
        fun _ hx ↦ List.mem_append_left _ hx
  | report moistureRaw temperatureCx10 humidityRx10 tv seed =>
      cases Option.some.inj h
      have htaken := lastWatering_takeReading hr.holds moistureRaw temperatureCx10 humidityRx10 tv
      generalize takeReading s.irrigation moistureRaw temperatureCx10 humidityRx10 tv = reading
        at htaken ⊢
      generalize hcall : cryptoEncrypt config.box s.session (some reading) true seed = call
      obtain ⟨result, session⟩ := call
      rcases report_cases hbox s reading seed hcall with ⟨hlog, hreports, -⟩ |
        ⟨cipher, hready, hcipher, hlog, hreports, -⟩
      · exact hr.of_eq hr.holds (by simp [hreports])
          (fun e he _ ↦ by simpa [hlog] using he) (fun _ hkx ↦ hkx) fun _ hx ↦ hx
      obtain ⟨kx, hkx, htx, -⟩ := hs.current hready
      have hpumped : s.irrigation.recorded ≠ [] → ∃ x ∈ s.pulses, x.boot = s.boots := by
        intro hne
        have hcount := hp.recorded
        have hpos := List.length_pos_iff.mpr hne
        obtain ⟨x, hx⟩ := List.exists_mem_of_length_pos (hcount ▸ Nat.add_pos_left hpos _)
        obtain ⟨hx, hboot⟩ := List.mem_filter.mp hx
        exact ⟨x, hx, of_decide_eq_true hboot⟩
      simp only [hlog, hreports]
      refine ⟨hr.holds, ?_, ?_, ?_, ?_, ?_⟩
      · exact List.forall_mem_append.mpr ⟨hr.taken, List.forall_mem_singleton.mpr htaken⟩
      · exact List.forall_mem_append.mpr
          ⟨hr.encrypted, List.forall_mem_singleton.mpr ⟨seed, hcipher⟩⟩
      · intro e he horigin
        rcases List.mem_append.mp he with hold | hnew
        · obtain ⟨r, hmem, heq⟩ := hr.logged e hold horigin
          exact ⟨r, List.mem_append_left _ hmem, heq⟩
        · rw [List.mem_singleton.mp hnew]
          exact ⟨_, List.mem_append_right _ (List.mem_singleton.mpr rfl), rfl, rfl, rfl⟩
      · exact List.forall_mem_append.mpr
          ⟨hr.exchanged, List.forall_mem_singleton.mpr ⟨kx, hkx, htx⟩⟩
      · exact List.forall_mem_append.mpr ⟨hr.pumped, List.forall_mem_singleton.mpr hpumped⟩
  | send threshold now seed =>
      cases Option.some.inj h
      refine hr.of_eq hr.holds rfl (fun e he horigin ↦ ?_) (fun _ hkx ↦ hkx) fun _ hx ↦ hx
      rcases List.mem_append.mp he with hold | hnew
      · exact hold
      · cases (sentEntry_origin hnew).symm.trans horigin
  | _ =>
      cases Option.some.inj h
      exact hr.of_eq hr.holds rfl (fun e he _ ↦ he) (fun _ hkx ↦ hkx) fun _ hx ↦ hx

/-! ## Arrivals -/

/-- What the charter processed, and what it put on the queue for it. -/
structure Traced (known : K → Prop) (s : State K) : Prop where
  reading : ∀ x ∈ s.arrivals, known x.key ∨
    ∃ r ∈ s.reports, r.key = x.key ∧ r.msgId = x.msgId ∧ x.payload = payloadOf r.reading
  event : ∀ x ∈ s.arrivals, ∀ e ∈ x.event, e.2 = x.payload.lastWatering

theorem event_onReading {deviceId : List UInt8} {session next : WateringSession K}
    {reading : SensorPayload} {event : Option PlotterEvent}
    (h : onReading py deviceId session reading = some (event, next)) :
    ∀ e ∈ event, e = (deviceId, reading.lastWatering) := by
  simp only [onReading] at h
  split at h
  · cases h
    simp
  · split at h
    · cases h
      simp
    · split at h <;> cases h
      simp

/-- A reading under a key that the network does not know is one that the device encrypted:
nothing else was encrypted under that key but commands. -/
theorem genuine_reading (hbox : config.box.Lawful) (hr : Logs config.box s)
    (hs : Sound config.box known s.system) {deviceId : List UInt8} {session : WateringSession K}
    {others : List (List UInt8 × WateringSession K)} {payload : List UInt8}
    {reading : SensorPayload} (hsessions : s.monitor.sessions = (deviceId, session) :: others)
    (hideal : UnforgedReading config known s payload)
    (hread : readTelemetry config py session payload = some reading) :
    known session.rxKey ∨ ∃ r ∈ s.reports, r.key = session.rxKey ∧ r.msgId = rawMsgId payload ∧
      reading = payloadOf r.reading ∧ r.cipher = payload.drop 8 := by
  obtain ⟨plaintext, data, hdecrypt, hloads, hfrom⟩ := readTelemetry_some hread
  have hhead : (deviceId, session) ∈ s.monitor.sessions.head? := by rw [hsessions]; rfl
  rcases hideal _ hhead (by rw [hdecrypt]; rfl) with hknown | ⟨e, he, hkey, hmsgId, hcipher⟩
  · exact .inl hknown
  right
  cases horigin : e.origin with
  | reading =>
      obtain ⟨r, hmem, hrkey, hrid, hrcipher⟩ := hr.logged e he horigin
      obtain ⟨seed, hencrypt⟩ := hr.encrypted r hmem
      refine ⟨r, hmem, hrkey.trans hkey, hrid.trans hmsgId, ?_, hrcipher.trans hcipher⟩
      have hundo := hbox.undoes hencrypt
      rw [hrkey, hrid, hrcipher, hkey, hmsgId, hcipher] at hundo
      cases hdecrypt.symm.trans hundo
      cases hloads.symm.trans (loads_readingText r.reading)
      exact fromDict_readingObject hfrom
  | command threshold now =>
      have hrecorded := hs.log e he
      simp only [Recorded, horigin] at hrecorded
      obtain ⟨seed, hencrypt⟩ := hrecorded
      have hundo := hbox.undoes hencrypt
      rw [hkey, hmsgId, hcipher] at hundo
      cases hdecrypt.symm.trans hundo
      cases hloads.symm.trans (loads_buildThresholdCommand now threshold)
      rw [fromDict_commandObject] at hfrom
      cases hfrom

theorem Traced.of_eq (ht : Traced known s) (harrivals : t.arrivals = s.arrivals)
    (hreports : ∀ r ∈ s.reports, r ∈ t.reports) : Traced known t := by
  constructor
  · rw [harrivals]
    intro x hx
    refine (ht.reading x hx).imp_right ?_
    rintro ⟨r, hr, heq⟩
    exact ⟨r, hreports r hr, heq⟩
  · rw [harrivals]
    exact ht.event

theorem Traced.step (hbox : config.box.Lawful) (ht : Traced known s) (hr : Logs config.box s)
    (hs : Sound config.box known s.system) (hideal : Ideal config known s a)
    (h : step config py s a = some t) : Traced known t := by
  cases a with
  | irrigate b =>
      obtain ⟨-, j, hj, rfl⟩ := irrigate_ok h
      exact ht.of_eq rfl fun _ hr ↦ hr
  | report moistureRaw temperatureCx10 humidityRx10 tv seed =>
      cases Option.some.inj h
      exact ht.of_eq rfl fun _ hr ↦ List.mem_append_left _ hr
  | message msg forged =>
      cases Option.some.inj h
      rcases message_cases (recovering config s.exchanges forged) py s.monitor msg with
        ⟨hnone, -⟩ | ⟨deviceId, session, next, others, reading, event, hsessions, hreads, hresult,
          -, harrival⟩
      · exact ht.of_eq (by simp [hnone]) fun _ hr ↦ hr
      · have hgenuine : known session.rxKey ∨ ∃ r ∈ s.reports, r.key = session.rxKey ∧
            r.msgId = rawMsgId msg.payload ∧ reading = payloadOf r.reading := by
          refine (genuine_reading hbox hr hs hsessions hideal hreads.2).imp_right ?_
          rintro ⟨r, hmem, hkey, hid, hpayload, -⟩
          exact ⟨r, hmem, hkey, hid, hpayload⟩
        simp only [harrival]
        refine ⟨?_, ?_⟩
        · exact List.forall_mem_append.mpr ⟨ht.reading, List.forall_mem_singleton.mpr hgenuine⟩
        · refine List.forall_mem_append.mpr ⟨ht.event, List.forall_mem_singleton.mpr ?_⟩
          intro e he
          rw [event_onReading hresult e he]
  | _ =>
      cases Option.some.inj h
      exact ht.of_eq rfl fun _ hr ↦ hr

/-- What the charter can be told of the device without its keys.  A reading that it
processes under a key the network does not know is one that the device encrypted under that
key, and its time of the last watering was the one in the mailbox then; an event for it is
the time of an activation that the device had recorded, of a boot in which the pump ran, or
0 where an older reading comes late or the clock was not set. -/
structure Genuine (known : K → Prop) (s : State K) : Prop where
  reading : ∀ x ∈ s.arrivals, ¬known x.key → ∃ r ∈ s.reports, r.key = x.key ∧
    r.msgId = x.msgId ∧ x.payload = payloadOf r.reading ∧
    r.reading.lastWatering.toNat = (r.recorded.getLast?.map timestampOf).getD 0
  event : ∀ x ∈ s.arrivals, ¬known x.key → ∀ e ∈ x.event, e.2 = 0 ∨
    ∃ r ∈ s.reports, r.key = x.key ∧ (∃ tv ∈ r.recorded.getLast?, e.2 = timestampOf tv) ∧
      ∃ p ∈ s.pulses, p.boot = r.boot ∧ p.moistureRaw.toNat < p.threshold

/-- The logs and the pulses in every run. -/
theorem sound_logs_pulses (hbox : config.box.Lawful) {zero : K}
    (h : Steps (step config py) (Ideal config known) (.start zero) s) :
    Sound config.box known s.system ∧ Logs config.box s ∧ Pulses s := by
  have hsound : ∀ u, Steps (step config py) (Ideal config known) (.start zero) u →
      Sound config.box known u.system ∧ Backed u.system := fun _ hu ↦
    ⟨(sound_and_once hbox (steps_system hu)).1, backed hbox (steps_system hu)⟩
  refine ⟨(hsound s h).1, ?_⟩
  exact h.invariant_over (I := fun u ↦ Logs config.box u ∧ Pulses u) hsound
    ⟨logs_start zero, pulses_start zero⟩ fun _ _ _ hk hi _ hstep ↦
      ⟨hi.1.step hbox hi.2 hk.1 hstep, hi.2.step hk.2 hstep⟩

theorem traced (hbox : config.box.Lawful) {zero : K}
    (h : Steps (step config py) (Ideal config known) (.start zero) s) : Traced known s :=
  h.invariant_over (fun _ ↦ sound_logs_pulses hbox) ⟨by simp [State.start], by simp [State.start]⟩
    fun _ _ _ hk ht hideal hstep ↦ ht.step hbox hk.2.1 hk.1 hideal hstep

/-- In every run, whatever the network does. -/
theorem readings_genuine (hbox : config.box.Lawful) {zero : K}
    (h : Steps (step config py) (Ideal config known) (.start zero) s) : Genuine known s := by
  obtain ⟨-, hlogs, hpulses⟩ := sound_logs_pulses hbox h
  have htraced := traced hbox h
  have hreading : ∀ x ∈ s.arrivals, ¬known x.key → ∃ r ∈ s.reports, r.key = x.key ∧
      r.msgId = x.msgId ∧ x.payload = payloadOf r.reading :=
    fun x hx hsecret ↦ (htraced.reading x hx).resolve_left hsecret
  constructor
  · intro x hx hsecret
    obtain ⟨r, hr, hkey, hmsgId, hpayload⟩ := hreading x hx hsecret
    exact ⟨r, hr, hkey, hmsgId, hpayload, hlogs.taken r hr⟩
  · intro x hx hsecret e he
    obtain ⟨r, hr, hkey, -, hpayload⟩ := hreading x hx hsecret
    have hvalue : e.2 = r.reading.lastWatering.toNat := by
      rw [htraced.event x hx e he, hpayload]
      rfl
    have htaken := hlogs.taken r hr
    cases hlast : r.recorded.getLast? with
    | none =>
        left
        simp only [hlast, Option.map_none, Option.getD_none] at htaken
        rw [hvalue, htaken]
        rfl
    | some tv =>
        right
        have hne : r.recorded ≠ [] := by
          intro hnil
          simp [hnil] at hlast
        obtain ⟨p, hp, hboot⟩ := hlogs.pumped r hr hne
        simp only [hlast, Option.map_some, Option.getD_some] at htaken
        exact ⟨r, hr, hkey, ⟨tv, hlast, by rw [hvalue, htaken]⟩, p, hp, hboot,
          (hpulses.dry p hp).1⟩

/-- A watering between two readings, and the first reading again at the end. -/
theorem readings_genuine_replayed :
    ∃ s, s.arrivals.map Arrival.event =
        [none, some (ascii "plantnode-001", 1700000500), some (ascii "plantnode-001", 0)] ∧
      Genuine (· < 10) (s : State ℕ) := by
  let packet : Message := ⟨ascii "plantnode/keys/plantnode-001", List.replicate 48 1⟩
  let telemetry (msgId : ℕ) (lastWatering : UInt32) : Message := ⟨ascii "plantnode/telemetry",
    toLE 8 msgId ++ (toLE 12 11 ++ toLE 12 msgId ++ toLE 12 (ofLE KBoxCtx) ++
      readingText ⟨310, 235, 455, 1700000900, lastWatering, true⟩)⟩
  have hrun : (exec (step testConfig .integers) idealTest (.start 0)
      [.initSession (some ⟨11, 12, List.replicate 48 1⟩), .message packet none,
        .report 310 235 455 (some 1700000900) 1,
        .irrigate (.sense (.ok 250)), .irrigate (.clock (some 1700000500)),
        .irrigate .evaluate, .irrigate .record,
        .report 310 235 455 (some 1700000900) 1, .message (telemetry 0 0) none,
        .message (telemetry 1 1700000500) none, .message (telemetry 0 0) none]).map
      (fun s ↦ s.arrivals.map Arrival.event) =
        some [none, some (ascii "plantnode-001", 1700000500), some (ascii "plantnode-001", 0)] := by
    decide +kernel
  obtain ⟨s, hexec, hs⟩ := Option.map_eq_some_iff.mp hrun
  exact ⟨s, hs, readings_genuine (by exact SecretBox.tagged_lawful)
    ((exec_steps hexec).mono (ideal_of_idealTest rfl))⟩

end PlantNode.Plant
