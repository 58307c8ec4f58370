import PlantNode.Charter.Messages
import PlantNode.Crypto.Serialise

/-!
# Detection of waterings

`on_message` with what it remembers of each reading: `last_watering_seen` is a field of
the session, and a key packet replaces the session.  The plots and the log come after
the detection and are left out.  `Python` is what the charter relies on Python for.
-/

namespace PlantNode.Charter.Watering

open Foundation Crypto

/-- `int(v)`, whether `float(v)` is a number, and whether `datetime.fromtimestamp` takes
a time. -/
structure Python where
  int : Json → Option ℤ
  float : Json → Bool
  fromtimestamp : ℤ → Bool
  int_int : ∀ n, int (.int n) = some n

/-- Temperature and humidity are a tenth of the number that is kept here. -/
structure SensorPayload where
  timestamp : ℤ
  temperature : Json
  humidity : Json
  moisture : ℤ
  lastWatering : ℤ

/-- `SensorPayload.from_dict`, `none` when it raises an exception. -/
def fromDict (py : Python) : Json → Option SensorPayload
  | .object d => do
      let timestamp ← (member (points "timestamp") d).bind py.int
      let temperature ← (member (points "temperature") d).filter py.float
      let humidity ← (member (points "humidity") d).filter py.float
      let moisture ← (member (points "moisture") d).bind py.int
      let lastWatering ← py.int ((member (points "lastWatering") d).getD (.int 0))
      return ⟨timestamp, temperature, humidity, moisture, lastWatering⟩
  | _ => none

structure WateringSession (K : Type) extends SensorSession K where
  lastWateringSeen : Option ℤ

/-- An entry of `watering_queue`: the sender and the time of the watering. -/
abbrev PlotterEvent := List UInt8 × ℤ

structure Monitor (K : Type) where
  sessions : List (List UInt8 × WateringSession K)
  wateringQueue : List PlotterEvent

variable {K : Type}

/-- The reading in a telemetry message, `none` when an exception is raised. -/
def readTelemetry (config : Config K) (py : Python) (session : WateringSession K)
    (payload : List UInt8) : Option SensorPayload :=
  match decryptTelemetry config.box session.rxKey payload with
  | .error _ => none
  | .ok data => fromDict py data

/-- What `on_message` does with a reading: the event it puts on the queue, and the
session after it; `none` when an exception is raised. -/
def onReading (py : Python) (deviceId : List UInt8) (session : WateringSession K)
    (reading : SensorPayload) : Option (Option PlotterEvent × WateringSession K) :=
  let next := { session with lastWateringSeen := some reading.lastWatering }
  match session.lastWateringSeen with
  | none => some (none, next)
  | some seen =>
      if reading.lastWatering = seen then some (none, next)
      else if py.fromtimestamp reading.lastWatering then
        some (some (deviceId, reading.lastWatering), next)
      else none

/-- A key packet, as in `onKeyMessage`. -/
def onKeyPacket (recover : List UInt8 → Option (K × K)) (m : Monitor K)
    (deviceId payload : List UInt8) : Monitor K :=
  if payload.length ≠ 48 then m
  else match recover payload with
    | none => m
    | some (rxKey, txKey) =>
        { m with sessions := dictSet deviceId ⟨⟨rxKey, txKey, 0⟩, none⟩ m.sessions }

/-- A reading that was processed, and the event that was put on the queue for it. -/
structure Processed where
  deviceId : List UInt8
  lastWatering : ℤ
  event : Option PlotterEvent
  deriving DecidableEq

structure Message where
  topic : List UInt8
  payload : List UInt8
  deriving DecidableEq

/-- `on_message` -/
def onMessage (config : Config K) (py : Python) (m : Monitor K) (msg : Message) :
    Option Processed × Monitor K :=
  if (config.topicPrefix ++ ascii "/keys/").isPrefixOf msg.topic then
    (none, onKeyPacket config.recover m (lastLevel msg.topic) msg.payload)
  else if msg.topic = config.topicPrefix ++ ascii "/telemetry" then
    match m.sessions with
    | [] => (none, m)
    | (deviceId, session) :: others =>
        match readTelemetry config py session msg.payload with
        | none => (none, m)
        | some reading =>
            match onReading py deviceId session reading with
            | none => (none, m)
            | some (event, next) =>
                (some ⟨deviceId, reading.lastWatering, event⟩,
                  { sessions := (deviceId, next) :: others
                    wateringQueue := m.wateringQueue ++ event.toList })
  else (none, m)

/-- The sessions as `send_threshold_update` sees them. -/
def Monitor.erase (m : Monitor K) : List (List UInt8 × SensorSession K) :=
  m.sessions.map fun item ↦ (item.1, item.2.toSensorSession)

/-- The charter, and the readings it has processed; nothing reads the latter. -/
structure History (K : Type) where
  monitor : Monitor K
  processed : List Processed

def History.start (K : Type) : History K where
  monitor := ⟨[], []⟩
  processed := []

def handle (config : Config K) (py : Python) (s : History K) (msg : Message) : History K :=
  let r := onMessage config py s.monitor msg
  { monitor := r.2, processed := s.processed ++ r.1.toList }

def handled (config : Config K) (py : Python) (msgs : List Message) : History K :=
  msgs.foldl (handle config py) (.start K)

/-- A watering is reported for a reading after another reading, if they differ. -/
def Reported (past : List Processed) (r : Processed) : Prop :=
  r.event.isSome = true ↔ ∃ last ∈ past.getLast?, last.lastWatering ≠ r.lastWatering

/-- The message is a reading that a session can decrypt. -/
def Reads (config : Config K) (py : Python) (session : WateringSession K) (msg : Message)
    (reading : SensorPayload) : Prop :=
  msg.topic = config.topicPrefix ++ ascii "/telemetry" ∧
    readTelemetry config py session msg.payload = some reading

/-- The first reading of a session says the same as the last reading before it. -/
def Continues (config : Config K) (py : Python) (s : History K) (msg : Message) : Prop :=
  ∀ item ∈ s.monitor.sessions.head?, item.2.lastWateringSeen = none →
    ∀ reading, Reads config py item.2 msg reading →
      ∀ last ∈ s.processed.getLast?, last.lastWatering = reading.lastWatering

/-- What a session remembers is the last reading. -/
def Follows (s : History K) : Prop :=
  ∀ item ∈ s.monitor.sessions.head?, ∀ seen ∈ item.2.lastWateringSeen,
    ∃ last ∈ s.processed.getLast?, last.lastWatering = seen

variable {config : Config K} {py : Python} {m : Monitor K} {s t : History K} {msg : Message}
  {session : WateringSession K} {reading : SensorPayload} {deviceId : List UInt8}

/-! ## One message -/

theorem not_keys_of_telemetry (h : msg.topic = config.topicPrefix ++ ascii "/telemetry") :
    (config.topicPrefix ++ ascii "/keys/").isPrefixOf msg.topic = false := by
  rw [Bool.eq_false_iff, ne_eq, List.isPrefixOf_iff_prefix, h, List.prefix_append_right_inj]
  decide

theorem head?_dictSet (key : List UInt8) (value : WateringSession K)
    (items : List (List UInt8 × WateringSession K)) :
    (dictSet key value items).head? = some (key, value) ∨
      (dictSet key value items).head? = items.head? := by
  cases items with
  | nil => exact .inl rfl
  | cons item items =>
      simp only [dictSet]
      split
      · exact .inl rfl
      · exact .inr rfl

/-- A message replaces or adds a session that has seen nothing, or is a reading of the
first session, or does nothing. -/
inductive Moves (config : Config K) (py : Python) (s : History K) (msg : Message) :
    History K → Prop
  | quiet (idle : ∀ item ∈ s.monitor.sessions.head?, item.2.lastWateringSeen = none →
      ∀ reading, ¬Reads config py item.2 msg reading) : Moves config py s msg s
  | keys (idle : ∀ session reading, ¬Reads config py session msg reading)
      (deviceId : List UInt8) (session : WateringSession K)
      (fresh : session.lastWateringSeen = none) :
      Moves config py s msg
        { s with monitor :=
          { s.monitor with sessions := dictSet deviceId session s.monitor.sessions } }
  | reading (deviceId : List UInt8) (session next : WateringSession K)
      (others : List (List UInt8 × WateringSession K)) (reading : SensorPayload)
      (event : Option PlotterEvent) (before : s.monitor.sessions = (deviceId, session) :: others)
      (reads : Reads config py session msg reading)
      (result : onReading py deviceId session reading = some (event, next)) :
      Moves config py s msg
        ⟨⟨(deviceId, next) :: others, s.monitor.wateringQueue ++ event.toList⟩,
          s.processed ++ [⟨deviceId, reading.lastWatering, event⟩]⟩

theorem onReading_first (h : session.lastWateringSeen = none) :
    onReading py deviceId session reading =
      some (none, { session with lastWateringSeen := some reading.lastWatering }) := by
  simp only [onReading, h]

/-- An event is put for a reading that differs from what the session has seen. -/
theorem onReading_event {event : Option PlotterEvent} {next : WateringSession K}
    (h : onReading py deviceId session reading = some (event, next)) :
    event.isSome = true ↔ ∃ seen ∈ session.lastWateringSeen, reading.lastWatering ≠ seen := by
  cases hseen : session.lastWateringSeen with
  | none =>
      rw [onReading_first hseen] at h
      cases h
      simp
  | some seen =>
      simp only [onReading, hseen] at h
      split at h
      · rename_i hsame
        cases h
        simp [hsame]
      · rename_i hchanged
        split at h
        · cases h
          simp [hchanged]
        · cases h

theorem handle_moves (config : Config K) (py : Python) (s : History K) (msg : Message) :
    Moves config py s msg (handle config py s msg) := by
  by_cases hkeys : (config.topicPrefix ++ ascii "/keys/").isPrefixOf msg.topic = true
  · have idle : ∀ session reading, ¬Reads config py session msg reading := by
      rintro session reading ⟨htopic, -⟩
      rw [not_keys_of_telemetry htopic] at hkeys
      cases hkeys
    have hquiet : Moves config py s msg s := .quiet fun item _ _ ↦ idle item.2
    simp only [handle, onMessage, if_pos hkeys, onKeyPacket, Option.toList_none, List.append_nil]
    split
    · exact hquiet
    · split
      · exact hquiet
      · exact .keys idle _ _ rfl
  · by_cases htopic : msg.topic = config.topicPrefix ++ ascii "/telemetry"
    · simp only [handle, onMessage, if_neg hkeys, if_pos htopic]
      cases hsessions : s.monitor.sessions with
      | nil =>
          have hquiet : Moves config py s msg s := .quiet (by simp [hsessions])
          simpa using hquiet
      | cons item others =>
          obtain ⟨deviceId, session⟩ := item
          cases hread : readTelemetry config py session msg.payload with
          | none =>
              have hquiet : Moves config py s msg s := by
                refine .quiet fun item hitem _ reading hreads ↦ ?_
                rw [hsessions] at hitem
                cases hitem
                cases hread.symm.trans hreads.2
              simpa [hread] using hquiet
          | some reading =>
              cases hresult : onReading py deviceId session reading with
              | none =>
                  have hquiet : Moves config py s msg s := by
                    refine .quiet fun item hitem hfresh reading hreads ↦ ?_
                    rw [hsessions] at hitem
                    cases hitem
                    cases hresult.symm.trans (onReading_first hfresh)
                  simpa [hread, hresult] using hquiet
              | some result =>
                  obtain ⟨event, next⟩ := result
                  have hmove := Moves.reading deviceId session next others reading event hsessions
                    ⟨htopic, hread⟩ hresult
                  simpa [hread, hresult] using hmove
    · have hquiet : Moves config py s msg s := .quiet fun _ _ _ _ hreads ↦ htopic hreads.1
      simpa [handle, onMessage, hkeys, htopic] using hquiet

/-- A reading that follows is reported as meant exactly if it continues. -/
theorem reported_iff (hs : Follows s) {next : WateringSession K}
    {others : List (List UInt8 × WateringSession K)} {event : Option PlotterEvent}
    (before : s.monitor.sessions = (deviceId, session) :: others)
    (reads : Reads config py session msg reading)
    (result : onReading py deviceId session reading = some (event, next)) :
    Reported s.processed ⟨deviceId, reading.lastWatering, event⟩ ↔ Continues config py s msg := by
  have hhead : s.monitor.sessions.head? = some (deviceId, session) := by rw [before]; rfl
  cases hseen : session.lastWateringSeen with
  | none =>
      rw [onReading_first hseen] at result
      cases result
      have hcontinues : Continues config py s msg ↔
          ∀ last ∈ s.processed.getLast?, last.lastWatering = reading.lastWatering := by
        constructor
        · exact fun h ↦ h _ hhead hseen reading reads
        · intro h item hitem _ reading' reads'
          cases hhead.symm.trans hitem
          cases reads.2.symm.trans reads'.2
          exact h
      rw [hcontinues, Reported]
      simp only [Option.isSome_none, Bool.false_eq_true, false_iff, not_exists, not_and, not_not]
  | some seen =>
      obtain ⟨last, hlast, hvalue⟩ := hs _ hhead seen hseen
      have hcontinues : Continues config py s msg := by
        intro item hitem hfresh
        cases hhead.symm.trans hitem
        cases hseen.symm.trans hfresh
      have hmeant : (∃ last ∈ s.processed.getLast?, last.lastWatering ≠ reading.lastWatering) ↔
          reading.lastWatering ≠ seen := by
        rw [Option.mem_def] at hlast
        simp [hlast, hvalue, eq_comm]
      refine ⟨fun _ ↦ hcontinues, fun _ ↦ ?_⟩
      rw [Reported, hmeant, onReading_event result, hseen]
      simp

theorem onReading_next {result : Option PlotterEvent × WateringSession K}
    (h : onReading py deviceId session reading = some result) :
    result.2.lastWateringSeen = some reading.lastWatering ∧
      result.2.toSensorSession = session.toSensorSession := by
  simp only [onReading] at h
  split at h
  · cases h
    exact ⟨rfl, rfl⟩
  · split at h
    · cases h
      exact ⟨rfl, rfl⟩
    · split at h
      · cases h
        exact ⟨rfl, rfl⟩
      · cases h

theorem Follows.moves (hs : Follows s) (h : Moves config py s msg t) : Follows t := by
  cases h with
  | quiet idle => exact hs
  | keys idle deviceId session fresh =>
      intro item hitem seen hseen
      rcases head?_dictSet deviceId session s.monitor.sessions with hnew | hold
      · have hitem : item ∈ (dictSet deviceId session s.monitor.sessions).head? := hitem
        rw [hnew] at hitem
        cases hitem
        cases fresh.symm.trans hseen
      · have hitem : item ∈ (dictSet deviceId session s.monitor.sessions).head? := hitem
        rw [hold] at hitem
        exact hs item hitem seen hseen
  | reading deviceId session next others reading event before reads result =>
      intro item hitem seen hseen
      cases hitem
      rw [(onReading_next result).1] at hseen
      cases hseen
      exact ⟨_, List.getLast?_concat, rfl⟩

theorem Follows.reported_moves (hs : Follows s) (h : Moves config py s msg t) :
    EachAfter Reported t.processed ↔
      EachAfter Reported s.processed ∧ Continues config py s msg := by
  cases h with
  | quiet idle =>
      refine (and_iff_left ?_).symm
      exact fun item hitem hfresh reading reads ↦ absurd reads (idle item hitem hfresh reading)
  | keys idle deviceId session fresh =>
      refine (and_iff_left ?_).symm
      exact fun item _ _ reading reads ↦ absurd reads (idle item.2 reading)
  | reading deviceId session next others reading event before reads result =>
      rw [eachAfter_snoc, reported_iff hs before reads result]

/-! ## Runs -/

theorem handled_snoc {msgs : List Message} :
    handled config py (msgs ++ [msg]) = handle config py (handled config py msgs) msg := by
  simp [handled]

theorem follows_handled (config : Config K) (py : Python) (msgs : List Message) :
    Follows (handled config py msgs) := by
  induction msgs using List.reverseRecOn with
  | nil => exact fun item hitem ↦ by cases hitem
  | append_singleton msgs msg ih =>
      rw [handled_snoc]
      exact ih.moves (handle_moves config py _ msg)

theorem queue_handled (config : Config K) (py : Python) (msgs : List Message) :
    (handled config py msgs).monitor.wateringQueue =
      (handled config py msgs).processed.filterMap Processed.event := by
  induction msgs using List.reverseRecOn with
  | nil => rfl
  | append_singleton msgs msg ih =>
      rw [handled_snoc]
      have hmoves := handle_moves config py (handled config py msgs) msg
      generalize handle config py (handled config py msgs) msg = t at hmoves
      cases hmoves with
      | quiet idle => exact ih
      | keys idle deviceId session fresh => exact ih
      | reading deviceId session next others reading event before reads result =>
          rw [List.filterMap_append, ← ih]
          cases event <;> simp

/-- The queue holds the events of the readings, and each of these is there as it is meant
exactly if the first reading of every session says the same as the last reading before
it. -/
theorem waterings_reported (config : Config K) (py : Python) (msgs : List Message) :
    (handled config py msgs).monitor.wateringQueue =
        (handled config py msgs).processed.filterMap Processed.event ∧
      (EachAfter Reported (handled config py msgs).processed ↔
        EachAfter (fun past msg ↦ Continues config py (handled config py past) msg) msgs) := by
  refine ⟨queue_handled config py msgs, ?_⟩
  induction msgs using List.reverseRecOn with
  | nil => exact ⟨fun _ ↦ EachAfter.nil, fun _ ↦ EachAfter.nil⟩
  | append_singleton msgs msg ih =>
      rw [eachAfter_snoc, ← ih, handled_snoc]
      exact (follows_handled config py msgs).reported_moves (handle_moves config py _ msg)

/-- The integers of a device that sends no other numbers. -/
def Python.integers : Python where
  int
    | .int n => some n
    | _ => none
  float
    | .int _ => true
    | _ => false
  fromtimestamp t := decide (0 ≤ t ∧ t < 253402300800)
  int_int _ := rfl

/-- A watering between two readings, and the key packet again before the second. -/
theorem watering_missed :
    let config : Config ℕ := ⟨SecretBox.tagged, fun _ ↦ some (1, 2), id, ascii "plantnode"⟩
    let packet : Message := ⟨ascii "plantnode/keys/plantnode-001", List.replicate 48 7⟩
    let telemetry (lastWatering : UInt32) : Message := ⟨ascii "plantnode/telemetry", toLE 8 0 ++
      (SecretBox.tagged.encrypt defaultContext 1 0 1
        (readingText ⟨250, 235, 455, 1700000900, lastWatering, true⟩)).getD []⟩
    ¬EachAfter Reported
      (handled config .integers [packet, telemetry 0, packet, telemetry 1700000000]).processed := by
  intro config packet telemetry heach
  have hrun : (handled config .integers
      [packet, telemetry 0, packet, telemetry 1700000000]).processed =
        [⟨ascii "plantnode-001", 0, none⟩, ⟨ascii "plantnode-001", 1700000000, none⟩] := by
    decide +kernel
  rw [hrun] at heach
  have hlast := heach [⟨ascii "plantnode-001", 0, none⟩]
    ⟨ascii "plantnode-001", 1700000000, none⟩ [] rfl
  cases hlast.mpr ⟨_, rfl, by decide⟩

/-! ## The sessions of the other modules -/

theorem map_dictSet {key : List UInt8} {value : WateringSession K}
    {items : List (List UInt8 × WateringSession K)} :
    (dictSet key value items).map (fun item ↦ (item.1, item.2.toSensorSession)) =
      dictSet key value.toSensorSession
        (items.map fun item ↦ (item.1, item.2.toSensorSession)) := by
  induction items with
  | nil => rfl
  | cons item items ih =>
      by_cases hkey : item.1 = key
      · simp [dictSet, hkey]
      · simp [dictSet, hkey, ih]

theorem erase_onKeyPacket (recover : List UInt8 → Option (K × K)) (m : Monitor K)
    (deviceId payload : List UInt8) (state : AppState K) :
    onKeyMessage recover { state with sessions := m.erase } deviceId payload =
      { state with sessions := (onKeyPacket recover m deviceId payload).erase } := by
  simp only [onKeyMessage, onKeyPacket]
  split
  · rfl
  · cases recover payload with
    | none => rfl
    | some keys => simp only [Monitor.erase, map_dictSet]

/-- Without what it remembers of readings, the charter is the one of `Charter.onMessage`. -/
theorem onMessage_erase (config : Config K) (py : Python) (m : Monitor K) (msg : Message)
    (state : AppState K) (printed : Bool) :
    (Charter.onMessage config { state with sessions := m.erase } msg.topic msg.payload printed).2 =
      { state with sessions := (onMessage config py m msg).2.erase } := by
  simp only [Charter.onMessage, onMessage]
  split
  · exact erase_onKeyPacket ..
  · split
    · cases hsessions : m.sessions with
      | nil => simp [Monitor.erase, hsessions]
      | cons item others =>
          obtain ⟨deviceId, session⟩ := item
          simp only [Monitor.erase, hsessions, List.map_cons]
          cases readTelemetry config py session msg.payload with
          | none => simp [hsessions]
          | some reading =>
              cases hresult : onReading py deviceId session reading with
              | none => simp [hsessions, hresult]
              | some result => simp [hresult, (onReading_next hresult).2]
    · split <;> rfl

end PlantNode.Charter.Watering
