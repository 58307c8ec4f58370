import PlantNode.Charter.Commands
import PlantNode.Comms.Callback
import PlantNode.Foundation.Run

/-!
# Device, charter and network

The device over any number of boots and the charter over any number of starts,
with a network that hands over whatever it likes: a delivery and a key packet carry
arbitrary bytes.  Two logs record what happened and are read by no step of the
parties: the encryptions under session keys, and the commands that were applied.
`Ideal` is what is assumed of the two primitives.
-/

namespace PlantNode.Protocol

open Foundation Crypto Charter Comms

variable {K : Type}

/-- A reading, or `send_threshold_update(threshold)` at the time `now`. -/
inductive Origin where
  | reading
  | command (threshold now : ℤ)
  deriving DecidableEq, Repr

structure Entry (K : Type) where
  key : K
  msgId : ℕ
  cipher : List UInt8
  origin : Origin

/-- A command that changed the policy state, under the receiving key `key` of the
device in its boot number `boot`. -/
structure Application (K : Type) where
  boot : ℕ
  key : K
  timestamp : ℕ
  threshold : ℕ
  deriving DecidableEq, Repr

structure System (K : Type) where
  session : Session K
  mailbox : Mailbox
  policy : Policy.State
  boots : ℕ
  charter : AppState K
  exchanges : List (KeyExchange K)
  log : List (Entry K)
  applied : List (Application K)

def System.application (s : System K) (policy : Policy.State) : Application K where
  boot := s.boots
  key := s.session.sSessionRxKey
  timestamp := policy.sLastCommandTimestamp
  threshold := policy.sMoistureLow

/-- The first boot; `zero` is the all-zero key. -/
def System.start (zero : K) : System K where
  session := .boot zero
  mailbox := .boot
  policy := .boot
  boots := 0
  charter := .start K
  exchanges := []
  log := []
  applied := []

/-- A step of the device, the network or the charter; `forged` is what the charter recovers from
a key packet that the device did not make. -/
inductive Action (K : Type) where
  | boot (zero : K)
  | initSession (kx : Option (KeyExchange K))
  | encryptReading (reading : SensorReading) (seed : ℕ)
  | deliver (valid : Bool) (topic payload : List UInt8)
  | charterStart
  | charterConnect
  | keyPacket (deviceId payload : List UInt8) (forged : Option (K × K))
  | send (threshold now : ℤ) (seed : ℕ)

/-- `recover_session_keys`: from a packet of the device the keys of that exchange, the
device's sending key to receive with. -/
def recoverSessionKeys (exchanges : List (KeyExchange K)) (forged : Option (K × K))
    (payload : List UInt8) : Option (K × K) :=
  match exchanges.find? fun kx ↦ kx.packet1 = payload with
  | some kx => some (kx.tx, kx.rx)
  | none => forged

def sentEntry (sessions : List (List UInt8 × SensorSession K)) (sent : Sent) (threshold now : ℤ) :
    List (Entry K) :=
  match sessions, sent.published with
  | (_, session) :: _, .ok (some raw) =>
      [⟨session.txKey, session.txMsgId, raw.drop 8, .command threshold now⟩]
  | _, _ => []

def readingEntry (session : Session K) : Except Errno Output → List (Entry K)
  | .error _ => []
  | .ok out => [⟨session.sSessionTxKey, session.sMsgId, out.data.drop 8, .reading⟩]

def step (box : SecretBox K) (s : System K) : Action K → Option (System K)
  | .boot zero => some { s with
      session := .boot zero, mailbox := .boot, policy := .boot, boots := s.boots + 1 }
  | .initSession kx => some { s with
      session := (cryptoInitSession s.session true kx).2
      exchanges := s.exchanges ++ kx.toList }
  | .encryptReading reading seed =>
      let r := cryptoEncrypt box s.session (some reading) true seed
      some { s with session := r.2, log := s.log ++ readingEntry s.session r.1 }
  | .deliver valid topic payload =>
      let d := publishCallback box s.session s.mailbox s.policy valid topic payload
      some { s with
        mailbox := d.mailbox
        policy := d.policy
        applied :=
          if d.result = some (.ok ()) then s.applied ++ [s.application d.policy] else s.applied }
  | .charterStart => some { s with charter := .start K }
  | .charterConnect => some { s with charter := { s.charter with mqttClient := true } }
  | .keyPacket deviceId payload forged => some { s with
      charter := onKeyMessage (recoverSessionKeys s.exchanges forged) s.charter deviceId payload }
  | .send threshold now seed =>
      let r := sendThresholdUpdate box s.charter threshold now seed
      some { s with
        charter := r.2
        log := s.log ++ sentEntry s.charter.sessions r.1 threshold now }

/-! ## The primitives -/

/-- The keys of an exchange are distinct, unknown to the network and never used before. -/
structure FreshKeys (known : K → Prop) (exchanges : List (KeyExchange K)) (kx : KeyExchange K) :
    Prop where
  distinct : kx.tx ≠ kx.rx
  secret : ¬known kx.tx ∧ ¬known kx.rx
  unused : ∀ old ∈ exchanges, kx.tx ≠ old.tx ∧ kx.tx ≠ old.rx ∧ kx.rx ≠ old.tx ∧ kx.rx ≠ old.rx

/-- The payload decrypts under the receiving key of the device only if the network
knows that key or a party encrypted it under that key and message id. -/
def Unforged (box : SecretBox K) (known : K → Prop) (s : System K) (payload : List UInt8) : Prop :=
  s.session.sSessionReady = true →
    (box.decrypt KBoxCtx s.session.sSessionRxKey (ofLE (payload.take 8)) (payload.drop 8)).isSome →
      known s.session.sSessionRxKey ∨ ∃ e ∈ s.log, e.key = s.session.sSessionRxKey ∧
        e.msgId = ofLE (payload.take 8) ∧ e.cipher = payload.drop 8

/-- Both primitives are ideal.  What the charter recovers from a packet that the
device did not make is left open. -/
def Ideal (box : SecretBox K) (known : K → Prop) (s : System K) : Action K → Prop
  | .initSession (some kx) => FreshKeys known s.exchanges kx
  | .deliver _ _ payload => Unforged box known s payload
  | _ => True

end PlantNode.Protocol
