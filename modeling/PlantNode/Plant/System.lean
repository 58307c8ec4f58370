import PlantNode.Charter.Watering
import PlantNode.Irrigation.Loop
import PlantNode.Protocol.Authenticity

/-!
# The whole plant

The device with its irrigation loop, the charter with what it remembers of waterings, and
the network between them.  The device answers to commands as in `Protocol.System`, waters
as in `Irrigation.step`, and reports readings whose time of the last watering is read
from the mailbox of the irrigation thread.  The network hands over whatever it likes to
both sides.
-/

namespace PlantNode.Plant

open Foundation Crypto Charter Comms Irrigation Protocol Charter.Watering

variable {K : Type}

/-- A reading that the device encrypted, with the activations that it had recorded since
the boot when it took the reading. -/
structure Report (K : Type) where
  key : K
  msgId : ℕ
  cipher : List UInt8
  reading : SensorReading
  boot : ℕ
  recorded : List (Option ℤ)

/-- A reading that the charter processed, under the receiving key `key`; `first` says that
it was the first one of its session. -/
structure Arrival (K : Type) where
  key : K
  msgId : ℕ
  payload : SensorPayload
  first : Bool
  event : Option PlotterEvent

/-- A run of the pump, with the commands that had been applied when it began. -/
structure Pulse (K : Type) where
  boot : ℕ
  moistureRaw : UInt16
  threshold : ℕ
  applied : List (Application K)
  deriving DecidableEq, Repr

/-- The device, up to `boots`, and the charter.  The fields from `exchanges` on record what
happened; no step reads them. -/
structure State (K : Type) where
  session : Session K
  mailbox : Mailbox
  irrigation : Irrigation.State
  boots : ℕ
  monitor : Monitor K
  mqttClient : Bool
  lastSentTimestamp : List (List UInt8 × ℤ)
  exchanges : List (KeyExchange K)
  log : List (Entry K)
  applied : List (Application K)
  reports : List (Report K)
  arrivals : List (Arrival K)
  pulses : List (Pulse K)

def State.start (zero : K) : State K where
  session := .boot zero
  mailbox := .boot
  irrigation := .boot
  boots := 0
  monitor := ⟨[], []⟩
  mqttClient := false
  lastSentTimestamp := []
  exchanges := []
  log := []
  applied := []
  reports := []
  arrivals := []
  pulses := []

/-- `state` as `send_threshold_update` sees it. -/
def State.appState (s : State K) : AppState K where
  sessions := s.monitor.erase
  mqttClient := s.mqttClient
  lastSentTimestamp := s.lastSentTimestamp

/-- Without the irrigation loop and the readings. -/
def State.system (s : State K) : System K where
  session := s.session
  mailbox := s.mailbox
  policy := s.irrigation.policy
  boots := s.boots
  charter := s.appState
  exchanges := s.exchanges
  log := s.log
  applied := s.applied

/-- A step of the plant: of the irrigation thread, of the telemetry thread, which takes a valid
reading and encrypts it with `tv` from `gettimeofday`, of the network and of the charter.
`forged` is as in `Protocol.Action`; commands come to the device through `deliver` only. -/
inductive Action (K : Type) where
  | boot (zero : K)
  | initSession (kx : Option (KeyExchange K))
  | irrigate (a : Irrigation.Action)
  | report (moistureRaw : UInt16) (temperatureCx10 : Int16) (humidityRx10 : UInt16)
      (tv : Option ℤ) (seed : ℕ)
  | deliver (valid : Bool) (topic payload : List UInt8)
  | charterStart
  | charterConnect
  | message (msg : Message) (forged : Option (K × K))
  | send (threshold now : ℤ) (seed : ℕ)

/-- The reading of `telemetry_loop`. -/
def takeReading (irrigation : Irrigation.State) (moistureRaw : UInt16) (temperatureCx10 : Int16)
    (humidityRx10 : UInt16) (tv : Option ℤ) : SensorReading where
  moistureRaw := moistureRaw
  temperatureCx10 := temperatureCx10
  humidityRx10 := humidityRx10
  timestamp := UInt32.ofNat (timestampOf tv)
  lastWatering :=
    match irrigationGetLastWatering irrigation true with
    | .ok out => UInt32.ofNat out
    | .error _ => 0
  valid := true

def reportOf (s : State K) (reading : SensorReading) : Except Errno Output → List (Report K)
  | .error _ => []
  | .ok out => [{
      key := s.session.sSessionTxKey
      msgId := s.session.sMsgId
      cipher := out.data.drop 8
      reading := reading
      boot := s.boots
      recorded := s.irrigation.recorded }]

def pulseOf (s : State K) : Irrigation.Action → List (Pulse K)
  | .evaluate =>
      match s.irrigation.pc with
      | .timed moistureRaw tv =>
          match (policyEvaluate s.irrigation.policy moistureRaw (timestampOf tv)).1 with
          | .PumpActivation =>
              [⟨s.boots, moistureRaw, s.irrigation.policy.sMoistureLow, s.applied⟩]
          | .NoAction => []
      | _ => []
  | _ => []

def arrivalOf (config : Config K) (py : Python) (m : Monitor K) (msg : Message) :
    List (Arrival K) :=
  match m.sessions, (onMessage config py m msg).1 with
  | (_, session) :: _, some processed =>
      (readTelemetry config py session msg.payload).toList.map fun payload ↦
        ⟨session.rxKey, rawMsgId msg.payload, payload, session.lastWateringSeen.isNone,
          processed.event⟩
  | _, _ => []

/-- The sessions after `send_threshold_update`, with what they remember of readings. -/
def restore (sessions : List (List UInt8 × WateringSession K))
    (sent : List (List UInt8 × SensorSession K)) : List (List UInt8 × WateringSession K) :=
  List.zipWith (fun item item' ↦ (item.1, { item.2 with toSensorSession := item'.2 }))
    sessions sent

/-- The configuration under which the charter recovers the keys of the exchanges. -/
def recovering (config : Config K) (exchanges : List (KeyExchange K)) (forged : Option (K × K)) :
    Config K :=
  { config with recover := recoverSessionKeys exchanges forged }

def step (config : Config K) (py : Python) (s : State K) : Action K → Option (State K)
  | .boot zero => some { s with
      session := .boot zero, mailbox := .boot, irrigation := .boot, boots := s.boots + 1 }
  | .initSession kx => some { s with
      session := (cryptoInitSession s.session true kx).2
      exchanges := s.exchanges ++ kx.toList }
  | .irrigate a =>
      match a with
      | .update _ => none
      | _ => (Irrigation.step s.irrigation a).map fun irrigation ↦
          { s with irrigation, pulses := s.pulses ++ pulseOf s a }
  | .report moistureRaw temperatureCx10 humidityRx10 tv seed =>
      let reading := takeReading s.irrigation moistureRaw temperatureCx10 humidityRx10 tv
      let r := cryptoEncrypt config.box s.session (some reading) true seed
      some { s with
        session := r.2
        log := s.log ++ readingEntry s.session r.1
        reports := s.reports ++ reportOf s reading r.1 }
  | .deliver valid topic payload =>
      let d :=
        publishCallback config.box s.session s.mailbox s.irrigation.policy valid topic payload
      some { s with
        mailbox := d.mailbox
        irrigation := { s.irrigation with policy := d.policy }
        applied := if d.result = some (.ok ()) then s.applied ++ [s.system.application d.policy]
          else s.applied }
  | .charterStart => some { s with
      monitor := ⟨[], []⟩, mqttClient := false, lastSentTimestamp := [] }
  | .charterConnect => some { s with mqttClient := true }
  | .message msg forged =>
      let config := recovering config s.exchanges forged
      some { s with
        monitor := (onMessage config py s.monitor msg).2
        arrivals := s.arrivals ++ arrivalOf config py s.monitor msg }
  | .send threshold now seed =>
      let r := sendThresholdUpdate config.box s.appState threshold now seed
      some { s with
        monitor := { s.monitor with sessions := restore s.monitor.sessions r.2.sessions }
        mqttClient := r.2.mqttClient
        lastSentTimestamp := r.2.lastSentTimestamp
        log := s.log ++ sentEntry s.appState.sessions r.1 threshold now }

end PlantNode.Plant
