import PlantNode.Charter.Attestation
import PlantNode.Charter.Commands
import PlantNode.Charter.RoundTrip
import PlantNode.Foundation.Run

/-!
# One run of the charter

`on_message` and `send_threshold_update` in any order.  What is plotted, logged and
printed is left out: none of it is read back.
-/

namespace PlantNode.Charter

open Foundation Crypto

variable {K : Type}

/-- What the charter runs with; `recover` is `recover_session_keys` under the keys of
the verifier, and `float` prints a float as Python does. -/
structure Config (K : Type) where
  box : SecretBox K
  recover : List UInt8 → Option (K × K)
  float : List UInt8 → List UInt8
  topicPrefix : List UInt8

/-- What came of a message. -/
inductive Handled where
  | nothing
  | keys (deviceId : List UInt8)
  | reading (deviceId : List UInt8) (data : Except PyError Json)
  | attestation (answer : Option (List UInt8))

/-- `topic.split("/")[-1]` -/
def lastLevel (topic : List UInt8) : List UInt8 :=
  (topic.reverse.takeWhile fun b ↦ b ≠ 47).reverse

/-- `on_message`; `printed` is as in `handleAttestationMessage`. -/
def onMessage (config : Config K) (state : AppState K) (topic payload : List UInt8)
    (printed : Bool) : Handled × AppState K :=
  if (config.topicPrefix ++ ascii "/keys/").isPrefixOf topic then
    (.keys (lastLevel topic), onKeyMessage config.recover state (lastLevel topic) payload)
  else if topic = config.topicPrefix ++ ascii "/telemetry" then
    match state.sessions with
    | [] => (.nothing, state)
    | (deviceId, session) :: _ =>
        (.reading deviceId (decryptTelemetry config.box session.rxKey payload), state)
  else if topic = config.topicPrefix ++ ascii "/attestation" then
    (.attestation (handleAttestationMessage config.float state.mqttClient printed payload), state)
  else (.nothing, state)

/-- `main` stores the client, a message comes, or the operator sends a threshold. -/
inductive Event where
  | client
  | message (topic payload : List UInt8) (printed : Bool)
  | send (threshold now : ℤ) (seed : ℕ)

/-- The charter, and the key and the message id of each command that `encrypt_command`
has returned. -/
structure Process (K : Type) where
  state : AppState K
  commands : List (K × ℕ)

def Process.start (K : Type) : Process K where
  state := .start K
  commands := []

def encrypted (state : AppState K) (sent : Sent) : List (K × ℕ) :=
  match state.sessions, sent.published with
  | (_, session) :: _, .ok (some _) => [(session.txKey, session.txMsgId)]
  | _, _ => []

def handle (config : Config K) (s : Process K) : Event → Process K
  | .client => { s with state := { s.state with mqttClient := true } }
  | .message topic payload printed =>
      { s with state := (onMessage config s.state topic payload printed).2 }
  | .send threshold now seed =>
      let r := sendThresholdUpdate config.box s.state threshold now seed
      { state := r.2, commands := s.commands ++ encrypted s.state r.1 }

def handled (config : Config K) (events : List Event) : Process K :=
  events.foldl (handle config) (.start K)

variable {config : Config K} {s : Process K} {event : Event} {session : SensorSession K}

theorem handled_snoc {events : List Event} :
    handled config (events ++ [event]) = handle config (handled config events) event := by
  simp [handled]

/-- The event encrypts a command in `session`. -/
def Encrypts (config : Config K) (state : AppState K) (session : SensorSession K) :
    Event → Prop
  | .send threshold now seed => state.mqttClient = true ∧
      (state.sessions.head?.map Prod.snd) = some session ∧
      ∃ raw, encryptCommand config.box session.txKey session.txMsgId seed
        (buildThresholdCommand now threshold) = .ok raw
  | _ => False

theorem Encrypts.unique {session' : SensorSession K}
    (h : Encrypts config s.state session event) (h' : Encrypts config s.state session' event) :
    session = session' := by
  cases event with
  | client => exact h.elim
  | message topic payload printed => exact h.elim
  | send threshold now seed => exact Option.some.inj (h.2.1.symm.trans h'.2.1)

/-- An event either replaces or adds a session whose counter is zero, or encrypts under
the key and the counter of the first session, which it moves on by one, or does
neither. -/
inductive Moves (config : Config K) (s t : Process K) (event : Event) : Prop
  | quiet (idle : ∀ session, ¬Encrypts config s.state session event)
      (sessions : t.state.sessions = s.state.sessions) (commands : t.commands = s.commands)
  | keys (idle : ∀ session, ¬Encrypts config s.state session event)
      {deviceId : List UInt8} {session : SensorSession K} (zero : session.txMsgId = 0)
      (sessions : t.state.sessions = dictSet deviceId session s.state.sessions)
      (commands : t.commands = s.commands)
  | encrypts {deviceId : List UInt8} {session : SensorSession K}
      {others : List (List UInt8 × SensorSession K)}
      (encrypts : Encrypts config s.state session event)
      (before : s.state.sessions = (deviceId, session) :: others)
      (sessions : t.state.sessions =
        (deviceId, { session with txMsgId := session.txMsgId + 1 }) :: others)
      (commands : t.commands = s.commands ++ [(session.txKey, session.txMsgId)])

theorem onKeyMessage_cases (recover : List UInt8 → Option (K × K)) (state : AppState K)
    (deviceId payload : List UInt8) :
    onKeyMessage recover state deviceId payload = state ∨
      ∃ rxKey txKey, (onKeyMessage recover state deviceId payload).sessions =
        dictSet deviceId ⟨rxKey, txKey, 0⟩ state.sessions := by
  unfold onKeyMessage
  split
  · exact .inl rfl
  · split
    · exact .inl rfl
    · exact .inr ⟨_, _, rfl⟩

theorem moves_message {topic payload : List UInt8} {printed : Bool} :
    Moves config s (handle config s (.message topic payload printed))
      (.message topic payload printed) := by
  have idle : ∀ session, ¬Encrypts config s.state session (.message topic payload printed) :=
    fun _ h ↦ h
  simp only [handle, onMessage]
  split
  · rcases onKeyMessage_cases config.recover s.state (lastLevel topic) payload with h | ⟨rx, tx, h⟩
    · exact .quiet idle (by rw [h]) rfl
    · exact .keys idle rfl h rfl
  · split
    · split <;> exact .quiet idle rfl rfl
    · split <;> exact .quiet idle rfl rfl

theorem moves_send {threshold now : ℤ} {seed : ℕ} :
    Moves config s (handle config s (.send threshold now seed)) (.send threshold now seed) := by
  simp only [handle, sendThresholdUpdate, encrypted]
  cases hsessions : s.state.sessions with
  | nil => exact .quiet (fun _ h ↦ by simp [Encrypts, hsessions] at h) rfl (by simp)
  | cons item others =>
      obtain ⟨deviceId, session⟩ := item
      by_cases hclient : s.state.mqttClient = true
      · simp only [hclient, Bool.not_true, Bool.false_eq_true, if_false]
        cases hraw : encryptCommand config.box session.txKey session.txMsgId seed
            (buildThresholdCommand now threshold) with
        | error e =>
            refine .quiet (fun _ h ↦ ?_) hsessions.symm (by simp)
            obtain ⟨-, hhead, raw, h⟩ := h
            rw [hsessions, List.head?_cons, Option.map_some, Option.some.injEq] at hhead
            subst hhead
            cases hraw.symm.trans h
        | ok raw =>
            exact .encrypts ⟨hclient, by rw [hsessions]; rfl, raw, hraw⟩ hsessions rfl rfl
      · refine .quiet (fun _ h ↦ hclient h.1) ?_ ?_ <;> simp [hclient, hsessions]

theorem handle_moves : Moves config s (handle config s event) event := by
  cases event with
  | client => exact .quiet (fun _ h ↦ h) rfl rfl
  | message topic payload printed => exact moves_message
  | send threshold now seed => exact moves_send

end PlantNode.Charter
