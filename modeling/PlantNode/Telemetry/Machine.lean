import PlantNode.Comms.Calls
import PlantNode.Telemetry.Query

/-!
# The telemetry thread as a machine

`telemetry_loop` runs on top of the comms compartment: while one of its calls is in
progress the thread takes the steps of that call, and otherwise its own.  It is the
only thread that calls into comms and crypto.
-/

namespace PlantNode.Telemetry

open Foundation Crypto Comms

/-- `PollsPerCycle` -/
def PollsPerCycle : ℕ := 10

/-- Where `telemetry_loop` is.  In `connecting`, `sendingKey`, `asking`, `reporting` and `polling`
it is in `comms_connect`, `comms_publish_key_packet`, `comms_publish_attestation`,
`comms_publish_telemetry` and `comms_poll`, or that call has just returned; `head` is the head of
`while (true)`, `asked` the second test of `sAttested`, and `waiting` the test of the poll
loop. -/
inductive Pc where
  | boot
  | connecting
  | sendingKey
  | head
  | asking
  | asked
  | reporting
  | waiting (i : ℕ)
  | polling (i : ℕ)
  deriving DecidableEq, Repr

/-- `exchanges` has the key exchanges of this boot; no step reads them. -/
structure State (K : Type) where
  comms : Comms.State K
  sAttested : Bool
  pc : Pc
  exchanges : List (KeyExchange K)

/-- A step of the call in progress, or of the thread itself with what it reads from the rest of
the system: on after a call whose result is only logged, the evidence, `none` when
`attestation_get_evidence` fails, and the readings with whether both sensors returned 0. -/
inductive Action (K : Type) where
  | comms (a : Comms.Action)
  | resume
  | connect
  | keyExchange (kx : Option (KeyExchange K))
  | ask (evidence : Option AttestationEvidence)
  | sample (reading : SensorReading) (moistureOk tempOk : Bool) (seed : ℕ)
  | poll

variable {K : Type}

def State.boot (zero : K) : State K where
  comms := .boot zero
  sAttested := false
  pc := .boot
  exchanges := []

/-- The loop of `drain_ra_messages`. -/
def drainLoop : ℕ → State K → State K
  | 0, s => s
  | fuel + 1, s =>
      match commsTakeRaMessage s.comms with
      | (.error _, _) => s
      | (.ok message, comms) =>
          drainLoop fuel { s with
            comms := comms
            sAttested := s.sAttested || responseIsAttested message }

/-- `drain_ra_messages`.  No callback runs during the loop, so the slot is empty at
its second test. -/
def drainRaMessages (s : State K) : State K := drainLoop 2 s

section Machine

variable (box : SecretBox K)

def call (s : State K) (request : Request) (pc : Pc) : State K :=
  { s with comms := startCall box s.comms request, pc := pc }

/-- `crypto_init_session`, and the publication of what it wrote. -/
def keyStep (s : State K) (kx : Option (KeyExchange K)) : State K :=
  match cryptoInitSession s.comms.session true kx with
  | (.error _, session) => { s with comms := { s.comms with session }, pc := .head }
  | (.ok out, session) =>
      call box { s with
        comms := { s.comms with session }
        exchanges := s.exchanges ++ kx.toList } (.publishKeyPacket (some out.data)) .sendingKey

/-- The first half of the loop body, with `send_attestation_query`. -/
def askStep (s : State K) (evidence : Option AttestationEvidence) : State K :=
  if s.sAttested then { s with pc := .asked }
  else match evidence.bind (buildAttestationQuery reqBufSize) with
    | none => { s with pc := .asked }
    | some query => call box s (.publishAttestation (some query)) .asking

/-- The second half of the loop body, up to the poll loop. -/
def sampleStep (s : State K) (reading : SensorReading) (moistureOk tempOk : Bool) (seed : ℕ) :
    State K :=
  if s.sAttested then
    let reading := { reading with valid := moistureOk && tempOk }
    if reading.valid then call box s (.publishTelemetry (some reading) seed) .reporting
    else { s with pc := .waiting 0 }
  else { s with pc := .waiting 0 }

/-- A step of the thread, between calls; `last` is what the last call returned.  The loop is
entered also when the key packet was not sent. -/
def ownStep (s : State K) (last : Result) : Action K → Option (State K)
  | .comms _ => none
  | .resume =>
      match s.pc with
      | .sendingKey => some { s with pc := .head }
      | .asking => some { s with pc := .asked }
      | .reporting => some { s with pc := .waiting 0 }
      | .polling i => some { drainRaMessages s with pc := .waiting (i + 1) }
      | _ => none
  | .connect =>
      match s.pc, last with
      | .boot, _ => some (call box s .connect .connecting)
      | .connecting, .error _ => some (call box s .connect .connecting)
      | _, _ => none
  | .keyExchange kx =>
      match s.pc, last with
      | .connecting, .ok _ => some (keyStep box s kx)
      | _, _ => none
  | .ask evidence =>
      match s.pc with
      | .head => some (askStep box s evidence)
      | _ => none
  | .sample reading moistureOk tempOk seed =>
      match s.pc with
      | .asked => some (sampleStep box s reading moistureOk tempOk seed)
      | _ => none
  | .poll =>
      match s.pc with
      | .waiting i =>
          some (if i < PollsPerCycle then call box s .poll (.polling i) else { s with pc := .head })
      | _ => none

def step (s : State K) (a : Action K) : Option (State K) :=
  match s.comms.pc with
  | .idle last => ownStep box s last a
  | _ =>
      match a with
      | .comms a => (Comms.step box s.comms a).map fun comms ↦ { s with comms }
      | _ => none

end Machine

end PlantNode.Telemetry
