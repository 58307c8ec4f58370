import PlantNode.Comms.Callback

/-!
# The comms compartment as a machine

One call runs at a time, and each of its MQTT calls is one step, whose outcome the
environment chooses: the callbacks it makes and the value it returns.  Packets are
numbered in the order in which they were sent; the broker answers each of them at
most once, whenever a later `mqtt_publish` or `mqtt_run` lets the answer in.  The
trace records what an observer of the compartment sees; no step reads it.
-/

namespace PlantNode.Comms

open Foundation Crypto

def TopicTelemetry : List UInt8 := ascii "plantnode/telemetry"
def TopicKey : List UInt8 := ascii "plantnode/keys/plantnode-001"
def TopicPing : List UInt8 := ascii "plantnode/ping"
def DebugMsg : List UInt8 := ascii "plantnode-online"

/-- What a call returns if not 0: an `errno`, or a negative result of the MQTT
library. -/
inductive Failure where
  | errno (e : Errno)
  | mqtt (ret : ℤ)
  deriving DecidableEq, Repr

abbrev Result := Except Failure Unit

/-- A call of the compartment; an argument is `none` when its pointer is null or fails
`check_pointer`. -/
inductive Request where
  | connect
  | publish (topic payload : Option (List UInt8))
  | publishKeyPacket (packet : Option (List UInt8))
  | publishTelemetry (reading : Option SensorReading) (seed : ℕ)
  | publishAttestation (bytes : Option (List UInt8))
  | poll
  | disconnect
  deriving DecidableEq, Repr

/-- The function that publishes; telemetry with the key it was encrypted under. -/
inductive Source (K : Type) where
  | ping
  | request
  | keyPacket
  | telemetry (key : K)
  | attestation
  deriving DecidableEq, Repr

structure Publication (K : Type) where
  topic : List UInt8
  payload : List UInt8
  retain : Bool
  source : Source K
  deriving DecidableEq, Repr

/-- Where the call in progress is, or what the last one returned.  In `syncing` it is in the loop
around `sntp_update`, in `subscribing` before `mqtt_subscribe`, in `abandoning` before
`mqtt_disconnect`, after which `comms_connect` returns `failure`, and in `awaiting` in
`wait_for_ack(expected)` for the packet `packet`; `packets` are the subscriptions sent so
far. -/
inductive Pc (K : Type) where
  | idle (last : Result)
  | syncing
  | connecting
  | subscribing (packets : List ℕ)
  | awaitingSubacks (packets : List ℕ)
  | abandoning (failure : Failure)
  | publishing (p : Publication K) (packets : List ℕ)
  | awaiting (p : Publication K) (packets : List ℕ) (packet : ℕ) (expected : Int32)
  | polling
  | disconnecting
  deriving DecidableEq, Repr

/-- A call that the MQTT library makes. -/
inductive Callback where
  | ack (packet : ℕ) (isReject : Bool)
  | publish (valid : Bool) (topic payload : List UInt8)
  deriving DecidableEq, Repr

/-- The outcome of one MQTT call.  `sent`: a packet left although the call failed. -/
structure MqttOutcome where
  callbacks : List Callback
  ret : ℤ
  sent : Bool
  deriving DecidableEq, Repr

/-- What an observer sees: a call, a publication when `mqtt_publish` is called for it, an answer
of the broker, a message, and the return of 0 by `publish_and_wait` or
`comms_publish_key_packet`, by `comms_connect` with its subscriptions, and by
`comms_take_ra_message`. -/
inductive Event (K : Type) where
  | called (request : Request)
  | offered (p : Publication K)
  | acked (packet : ℕ) (isReject : Bool)
  | delivered (valid : Bool) (topic payload : List UInt8)
  | published (p : Publication K) (packet : ℕ)
  | connected (packets : List ℕ)
  | taken (message : List UInt8)
  deriving DecidableEq, Repr

/-- `sHandle` says whether the handle is a valid capability, `packets` is the number of packets
sent so far, and `unanswered` has those of them that the broker has not answered. -/
structure State (K : Type) where
  session : Session K
  policy : Policy.State
  mailbox : Mailbox
  sHandle : Bool
  sAckReceived : Int32
  pc : Pc K
  packets : ℕ
  unanswered : List ℕ
  trace : List (Event K)

variable {K : Type}

def State.boot (zero : K) : State K where
  session := .boot zero
  policy := .boot
  mailbox := .boot
  sHandle := false
  sAckReceived := 0
  pc := .idle (.ok ())
  packets := 0
  unanswered := []
  trace := []

namespace State

def emit (s : State K) (e : Event K) : State K :=
  { s with trace := s.trace ++ [e] }

def setPc (s : State K) (pc : Pc K) : State K :=
  { s with pc := pc }

def send (s : State K) : State K :=
  { s with packets := s.packets + 1, unanswered := s.unanswered ++ [s.packets] }

end State

section Machine

variable (box : SecretBox K)

/-! ## Callbacks -/

/-- `ack_callback` and `publish_callback`.  The broker answers only what was sent
and not answered before. -/
def receive (s : State K) : Callback → Option (State K)
  | .ack packet isReject =>
      if packet ∈ s.unanswered then
        some ({ s with
          sAckReceived := s.sAckReceived + 1
          unanswered := s.unanswered.erase packet }.emit (.acked packet isReject))
      else none
  | .publish valid topic payload =>
      let d := publishCallback box s.session s.mailbox s.policy valid topic payload
      some ({ s with mailbox := d.mailbox, policy := d.policy }.emit
        (.delivered valid topic payload))

def receiveAll (s : State K) : List Callback → Option (State K)
  | [] => some s
  | cb :: rest => (receive box s cb).bind fun t ↦ receiveAll t rest

/-! ## Calls -/

/-- `comms_connect` returns 0, after the ping. -/
def finishConnect (s : State K) (packets : List ℕ) : State K :=
  (s.emit (.connected packets)).setPc (.idle (.ok ()))

/-- `publish_and_wait` returns `ret` to the function that called it. -/
def finishPublish (s : State K) (p : Publication K) (packets : List ℕ) (ret : Result) : State K :=
  match p.source with
  | .ping => finishConnect s packets
  | _ => s.setPc (.idle ret)

/-- The test of the loop of `wait_for_ack` in a publish. -/
def awaitPublish (s : State K) (p : Publication K) (packets : List ℕ) (packet : ℕ)
    (expected : Int32) : State K :=
  if s.sAckReceived < expected then s.setPc (.awaiting p packets packet expected)
  else finishPublish (s.emit (.published p packet)) p packets (.ok ())

/-- The test of the loop of `wait_for_ack(2)` in `comms_connect`. -/
def awaitSubacks (s : State K) (packets : List ℕ) : State K :=
  if s.sAckReceived < 2 then s.setPc (.awaitingSubacks packets)
  else s.setPc (.publishing ⟨TopicPing, DebugMsg, false, .ping⟩ packets)

/-- A call, up to its first call of the MQTT library. -/
def startCall (s : State K) (request : Request) : State K :=
  let s := s.emit (.called request)
  match request with
  | .connect => s.setPc .syncing
  | .publish (some topic) (some payload) =>
      if !s.sHandle then s.setPc (.idle (.error (.errno .ENOTCONN)))
      else s.setPc (.publishing ⟨topic, payload, false, .request⟩ [])
  | .publish _ _ => s.setPc (.idle (.error (.errno .EINVAL)))
  | .publishKeyPacket none => s.setPc (.idle (.error (.errno .EINVAL)))
  | .publishKeyPacket (some packet) =>
      if !s.sHandle then s.setPc (.idle (.error (.errno .ENOTCONN)))
      else s.setPc (.publishing ⟨TopicKey, packet, true, .keyPacket⟩ [])
  | .publishTelemetry none _ => s.setPc (.idle (.error (.errno .EINVAL)))
  | .publishTelemetry (some reading) seed =>
      if !s.sHandle then s.setPc (.idle (.error (.errno .ENOTCONN)))
      else
        match cryptoEncrypt box s.session (some reading) true seed with
        | (.error e, session) => { s with session }.setPc (.idle (.error (.errno e)))
        | (.ok out, session) =>
            { s with session }.setPc
              (.publishing ⟨TopicTelemetry, out.data, false, .telemetry s.session.sSessionTxKey⟩ [])
  | .publishAttestation none => s.setPc (.idle (.error (.errno .EINVAL)))
  | .publishAttestation (some bytes) =>
      if !s.sHandle then s.setPc (.idle (.error (.errno .ENOTCONN)))
      else s.setPc (.publishing ⟨TopicAttestation, bytes, false, .attestation⟩ [])
  | .poll =>
      if !s.sHandle then s.setPc (.idle (.error (.errno .ENOTCONN))) else s.setPc .polling
  | .disconnect => if !s.sHandle then s.setPc (.idle (.ok ())) else s.setPc .disconnecting

/-! ## Calls of the MQTT library -/

/-- `mqtt_subscribe`, first to the commands and then to the attestation topic. -/
def subscribeStep (s : State K) (packets : List ℕ) (o : MqttOutcome) : Option (State K) :=
  if o.callbacks ≠ [] then none
  else if o.ret < 0 then
    some ((if o.sent then s.send else s).setPc (.abandoning (.mqtt o.ret)))
  else if packets.length = 0 then some (s.send.setPc (.subscribing [s.packets]))
  else some (awaitSubacks s.send (packets ++ [s.packets]))

/-- `mqtt_run` in `wait_for_ack(2)`. -/
def subackStep (s : State K) (packets : List ℕ) (o : MqttOutcome) : Option (State K) :=
  (receiveAll box s o.callbacks).map fun t ↦
    if o.ret < 0 then t.setPc (.abandoning (.mqtt o.ret)) else awaitSubacks t packets

/-- `mqtt_publish` in `publish_and_wait` or `comms_publish_key_packet`, which read
`sAckReceived` before. -/
def publishStep (s : State K) (p : Publication K) (packets : List ℕ) (o : MqttOutcome) :
    Option (State K) :=
  let expected := s.sAckReceived + 1
  let offered := s.emit (.offered p)
  (receiveAll box (if 0 ≤ o.ret ∨ o.sent then offered.send else offered) o.callbacks).map fun t ↦
    if o.ret < 0 then finishPublish t p packets (.error (.mqtt o.ret))
    else awaitPublish t p packets s.packets expected

/-- `mqtt_run` in the `wait_for_ack` of a publish. -/
def pubackStep (s : State K) (p : Publication K) (packets : List ℕ) (packet : ℕ)
    (expected : Int32) (o : MqttOutcome) : Option (State K) :=
  (receiveAll box s o.callbacks).map fun t ↦
    if o.ret < 0 then finishPublish t p packets (.error (.mqtt o.ret))
    else awaitPublish t p packets packet expected

/-- `mqtt_run` in `comms_poll`. -/
def pollStep (s : State K) (o : MqttOutcome) : Option (State K) :=
  (receiveAll box s o.callbacks).map fun t ↦
    t.setPc (.idle (if o.ret < 0 then .error (.mqtt o.ret) else .ok ()))

/-- `mqtt_disconnect`, after which the call returns `ret`. -/
def disconnectStep (s : State K) (ret : Result) (o : MqttOutcome) : Option (State K) :=
  if o.callbacks ≠ [] then none else some ({ s with sHandle := false }.setPc (.idle ret))

/-- A call, the result of one `sntp_update`, whether the handle that `mqtt_connect` returned is
valid, or the outcome of another MQTT call. -/
inductive Action where
  | call (request : Request)
  | sntp (ok : Bool)
  | handle (valid : Bool)
  | mqtt (o : MqttOutcome)
  deriving DecidableEq, Repr

def step (s : State K) : Action → Option (State K)
  | .call request =>
      match s.pc with
      | .idle _ => some (startCall box s request)
      | _ => none
  | .sntp ok =>
      match s.pc with
      | .syncing => some (if ok then s.setPc .connecting else s)
      | _ => none
  | .handle valid =>
      match s.pc with
      | .connecting =>
          some (if valid then { s with sHandle := true, sAckReceived := 0 }.setPc (.subscribing [])
            else { s with sHandle := false }.setPc (.idle (.error (.errno .ENOTCONN))))
      | _ => none
  | .mqtt o =>
      match s.pc with
      | .subscribing packets => subscribeStep s packets o
      | .awaitingSubacks packets => subackStep box s packets o
      | .abandoning failure => disconnectStep s (.error failure) o
      | .publishing p packets => publishStep box s p packets o
      | .awaiting p packets packet expected => pubackStep box s p packets packet expected o
      | .polling => pollStep box s o
      | .disconnecting => disconnectStep s (if o.ret < 0 then .error (.mqtt o.ret) else .ok ()) o
      | _ => none

end Machine

/-- `comms_take_ra_message`, with valid pointers. -/
def commsTakeRaMessage (s : State K) : Except Errno (List UInt8) × State K :=
  if !s.mailbox.sRaPending then (.error .ENOENT, s)
  else
    let message := s.mailbox.sRaBuf.take s.mailbox.sRaLen
    (.ok message,
      { s with mailbox := { s.mailbox with sRaPending := false } }.emit (.taken message))

end PlantNode.Comms
