import PlantNode.Comms.Machine
import PlantNode.Foundation.Run

/-!
# Calls and callbacks

What the callbacks of one MQTT call do, and what the start of a call does.
-/

namespace PlantNode.Comms

open Foundation Crypto

variable {K : Type} {box : SecretBox K} {s t : State K}

/-! ## Callbacks -/

def answers (callbacks : List Callback) : ℕ :=
  callbacks.countP fun
    | .ack _ _ => true
    | .publish _ _ _ => false

def Callback.event : Callback → Event K
  | .ack packet isReject => .acked packet isReject
  | .publish valid topic payload => .delivered valid topic payload

/-- What callbacks leave alone. -/
structure SameCall (s t : State K) : Prop where
  session : t.session = s.session
  sHandle : t.sHandle = s.sHandle
  pc : t.pc = s.pc
  packets : t.packets = s.packets

theorem receive_sameCall {cb : Callback} (h : receive box s cb = some t) :
    SameCall s t ∧ t.trace = s.trace ++ [cb.event] := by
  cases cb with
  | ack packet isReject =>
      simp only [receive] at h
      split at h
      · cases h
        exact ⟨⟨rfl, rfl, rfl, rfl⟩, rfl⟩
      · cases h
  | publish valid topic payload =>
      cases h
      exact ⟨⟨rfl, rfl, rfl, rfl⟩, rfl⟩

theorem receiveAll_cons {cb : Callback} {rest : List Callback}
    (h : receiveAll box s (cb :: rest) = some t) :
    ∃ m, receive box s cb = some m ∧ receiveAll box m rest = some t :=
  Option.bind_eq_some_iff.mp h

/-- The induction rule for the callbacks of one call. -/
theorem receiveAll_invariant {I : State K → Prop} {callbacks : List Callback}
    (hstep : ∀ s t cb, cb ∈ callbacks → I s → receive box s cb = some t → I t)
    (h : receiveAll box s callbacks = some t) (hs : I s) : I t := by
  induction callbacks generalizing s with
  | nil =>
      cases h
      exact hs
  | cons cb rest ih =>
      obtain ⟨m, hm, hrest⟩ := receiveAll_cons h
      refine ih (fun s t cb' hcb ↦ hstep s t cb' (List.mem_cons_of_mem _ hcb)) hrest ?_
      exact hstep s m cb List.mem_cons_self hs hm

theorem receiveAll_sameCall {callbacks : List Callback} (h : receiveAll box s callbacks = some t) :
    SameCall s t ∧ t.trace = s.trace ++ callbacks.map Callback.event := by
  induction callbacks generalizing s with
  | nil =>
      cases h
      exact ⟨⟨rfl, rfl, rfl, rfl⟩, (List.append_nil _).symm⟩
  | cons cb rest ih =>
      obtain ⟨m, hm, hrest⟩ := receiveAll_cons h
      obtain ⟨hsame, htrace⟩ := receive_sameCall hm
      obtain ⟨hsame', htrace'⟩ := ih hrest
      refine ⟨⟨hsame'.session.trans hsame.session, hsame'.sHandle.trans hsame.sHandle,
        hsame'.pc.trans hsame.pc, hsame'.packets.trans hsame.packets⟩, ?_⟩
      rw [htrace', htrace, List.append_assoc]
      rfl

/-- `sAckReceived` counts the answers, modulo its width. -/
theorem receiveAll_count {callbacks : List Callback} (h : receiveAll box s callbacks = some t) :
    t.sAckReceived = s.sAckReceived + Int32.ofNat (answers callbacks) := by
  induction callbacks generalizing s with
  | nil =>
      cases h
      exact (Int32.add_zero _).symm
  | cons cb rest ih =>
      obtain ⟨m, hm, hrest⟩ := receiveAll_cons h
      rw [ih hrest]
      cases cb with
      | ack packet isReject =>
          simp only [receive] at hm
          split at hm
          · cases hm
            have hcons : answers (.ack packet isReject :: rest) = answers rest + 1 := by
              simp [answers]
            rw [hcons, Int32.ofNat_add, Int32.add_comm (Int32.ofNat _), ← Int32.add_assoc]
            rfl
          · cases hm
      | publish valid topic payload =>
          cases hm
          have hcons : answers (.publish valid topic payload :: rest) = answers rest := by
            simp [answers]
          rw [hcons]
          rfl

theorem receiveAll_toInt {callbacks : List Callback} (h : receiveAll box s callbacks = some t)
    (hfits : s.sAckReceived.toInt + answers callbacks < 2 ^ 31) :
    t.sAckReceived.toInt = s.sAckReceived.toInt + answers callbacks := by
  have hle := s.sAckReceived.le_toInt
  have hlt := s.sAckReceived.toInt_lt
  rw [receiveAll_count h, Int32.toInt_add, Int32.toInt_ofNat', Int.add_bmod_bmod]
  apply Int.bmod_eq_of_le
  · simp only [Int32.size]
    omega
  · simp only [Int32.size]
    omega

theorem mem_receiveAll {callbacks : List Callback} (h : receiveAll box s callbacks = some t)
    {packet : ℕ} {isReject : Bool} : .acked packet isReject ∈ t.trace ↔
      .acked packet isReject ∈ s.trace ∨ .ack packet isReject ∈ callbacks := by
  rw [(receiveAll_sameCall h).2, List.mem_append, List.mem_map]
  refine or_congr_right ⟨?_, fun hmem ↦ ⟨_, hmem, rfl⟩⟩
  rintro ⟨cb, hmem, hcb⟩
  cases cb with
  | ack packet' isReject' =>
      cases hcb
      exact hmem
  | publish valid topic payload => cases hcb

theorem answers_ne_zero {packet : ℕ} {isReject : Bool} {callbacks : List Callback}
    (h : .ack packet isReject ∈ callbacks) : answers callbacks ≠ 0 := by
  have : 0 < answers callbacks := List.countP_pos_iff.mpr ⟨_, h, rfl⟩
  omega

/-! ## Starts -/

/-- What encryption leaves alone in a session. -/
structure SameKeys (s t : Session K) : Prop where
  tx : t.sSessionTxKey = s.sSessionTxKey
  rx : t.sSessionRxKey = s.sSessionRxKey
  ready : t.sSessionReady = s.sSessionReady

theorem SameKeys.refl (s : Session K) : SameKeys s s :=
  ⟨rfl, rfl, rfl⟩

theorem encryptPlain_sameKeys {session session' : Session K} {seed : ℕ} {plain : List UInt8}
    {r : Except Errno Output} (h : encryptPlain box session seed plain = (r, session')) :
    SameKeys session session' := by
  unfold encryptPlain at h
  split at h
  · cases h
    exact .refl _
  · split at h
    · cases h
      exact .refl _
    · cases h
      exact ⟨rfl, rfl, rfl⟩

theorem cryptoEncrypt_sameKeys {session session' : Session K} {reading : Option SensorReading}
    {outputs : Bool} {seed : ℕ} {r : Except Errno Output}
    (h : cryptoEncrypt box session reading outputs seed = (r, session')) :
    SameKeys session session' := by
  unfold cryptoEncrypt at h
  split at h
  · cases h
    exact .refl _
  · split at h
    · cases h
      exact .refl _
    · split at h
      · cases h
        exact .refl _
      · split at h
        · cases h
          exact .refl _
        · exact encryptPlain_sameKeys h

theorem cryptoEncrypt_ready {session session' : Session K} {reading : Option SensorReading}
    {outputs : Bool} {seed : ℕ} {out : Output}
    (h : cryptoEncrypt box session reading outputs seed = (.ok out, session')) :
    session.sSessionReady = true := by
  cases hready : session.sSessionReady with
  | true => rfl
  | false => cases reading <;> cases outputs <;> simp [cryptoEncrypt, hready] at h

/-- Where a call is before its first call of the MQTT library. -/
def Request.Opens (session : Session K) : Request → Pc K → Prop
  | .disconnect, .idle (.ok _) => True
  | _, .idle (.error _) => True
  | .connect, .syncing => True
  | .publish (some topic) (some payload), .publishing p [] =>
      p = ⟨topic, payload, false, .request⟩
  | .publishKeyPacket (some packet), .publishing p [] =>
      p = ⟨TopicKey, packet, true, .keyPacket⟩
  | .publishTelemetry _ _, .publishing p [] =>
      p.topic = TopicTelemetry ∧ p.source = .telemetry session.sSessionTxKey ∧
        session.sSessionReady = true
  | .publishAttestation (some bytes), .publishing p [] =>
      p = ⟨TopicAttestation, bytes, false, .attestation⟩
  | .poll, .polling => True
  | .disconnect, .disconnecting => True
  | _, _ => False

theorem startCall_spec (box : SecretBox K) (s : State K) (request : Request) :
    ∃ session pc, startCall box s request =
      { s with session, pc, trace := s.trace ++ [.called request] } ∧
        SameKeys s.session session ∧ request.Opens s.session pc := by
  cases request with
  | connect => exact ⟨_, _, rfl, .refl _, trivial⟩
  | publish topic payload =>
      cases topic with
      | none => exact ⟨_, _, rfl, .refl _, trivial⟩
      | some topic =>
          cases payload with
          | none => exact ⟨_, _, rfl, .refl _, trivial⟩
          | some payload =>
              simp only [startCall]
              split
              · exact ⟨_, _, rfl, .refl _, trivial⟩
              · exact ⟨_, _, rfl, .refl _, rfl⟩
  | publishKeyPacket packet =>
      cases packet with
      | none => exact ⟨_, _, rfl, .refl _, trivial⟩
      | some packet =>
          simp only [startCall]
          split
          · exact ⟨_, _, rfl, .refl _, trivial⟩
          · exact ⟨_, _, rfl, .refl _, rfl⟩
  | publishTelemetry reading seed =>
      cases reading with
      | none => exact ⟨_, _, rfl, .refl _, trivial⟩
      | some reading =>
          simp only [startCall]
          split
          · exact ⟨_, _, rfl, .refl _, trivial⟩
          · split
            · rename_i henc
              exact ⟨_, _, rfl, cryptoEncrypt_sameKeys henc, trivial⟩
            · rename_i henc
              exact ⟨_, _, rfl, cryptoEncrypt_sameKeys henc, rfl, rfl, cryptoEncrypt_ready henc⟩
  | publishAttestation bytes =>
      cases bytes with
      | none => exact ⟨_, _, rfl, .refl _, trivial⟩
      | some bytes =>
          simp only [startCall]
          split
          · exact ⟨_, _, rfl, .refl _, trivial⟩
          · exact ⟨_, _, rfl, .refl _, rfl⟩
  | poll =>
      simp only [startCall]
      split
      · exact ⟨_, _, rfl, .refl _, trivial⟩
      · exact ⟨_, _, rfl, .refl _, trivial⟩
  | disconnect =>
      simp only [startCall]
      split
      · exact ⟨_, _, rfl, .refl _, trivial⟩
      · exact ⟨_, _, rfl, .refl _, trivial⟩

/-- Where a call is when it has not sent anything. -/
def Pc.Opening : Pc K → Prop
  | .idle _ | .syncing | .polling | .disconnecting => True
  | .publishing p [] => p.source ≠ .ping
  | _ => False

theorem Request.Opens.opening {session : Session K} {request : Request} {pc : Pc K}
    (h : request.Opens session pc) : pc.Opening := by
  unfold Request.Opens at h
  split at h
  all_goals first
    | trivial
    | exact h.elim
    | rw [h]; nofun
    | rw [Pc.Opening, h.2.1]; nofun

/-- The event of a call is not one that its later steps emit. -/
theorem Request.Opens.publication {session : Session K} {request : Request} {p : Publication K}
    {packets : List ℕ} (h : request.Opens session (.publishing p packets)) : packets = [] := by
  cases packets with
  | nil => rfl
  | cons packet rest => exact h.opening.elim

/-- A publish up to the callbacks of its `mqtt_publish`. -/
def offer (s : State K) (p : Publication K) (o : MqttOutcome) : State K :=
  if 0 ≤ o.ret ∨ o.sent then (s.emit (.offered p)).send else s.emit (.offered p)

@[simp] theorem offer_trace (s : State K) (p : Publication K) (o : MqttOutcome) :
    (offer s p o).trace = s.trace ++ [.offered p] := by
  unfold offer
  split
  · rfl
  · rfl

@[simp] theorem offer_sAckReceived (s : State K) (p : Publication K) (o : MqttOutcome) :
    (offer s p o).sAckReceived = s.sAckReceived := by
  unfold offer
  split
  · rfl
  · rfl

theorem finishPublish_trace (s : State K) (p : Publication K) (packets : List ℕ) (ret : Result) :
    s.trace <+: (finishPublish s p packets ret).trace := by
  unfold finishPublish
  split
  · exact List.prefix_append _ _
  · exact List.prefix_refl _

theorem awaitPublish_trace (s : State K) (p : Publication K) (packets : List ℕ) (packet : ℕ)
    (expected : Int32) : s.trace <+: (awaitPublish s p packets packet expected).trace := by
  unfold awaitPublish
  split
  · exact List.prefix_refl _
  · have hemit : s.trace <+: (s.emit (.published p packet)).trace := List.prefix_append _ _
    exact hemit.trans (finishPublish_trace _ _ _ _)

end PlantNode.Comms
