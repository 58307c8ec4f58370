import PlantNode.Comms.Slot
import PlantNode.Telemetry.Machine

/-!
# Steps of the telemetry thread

What a step of the thread can do, one case for each way through `telemetry_loop`, and
what draining the mailbox does.
-/

namespace PlantNode.Telemetry

open Foundation Crypto Comms

variable {K : Type} {box : SecretBox K} {s t : State K} {a : Action K}

/-- The session that `crypto_init_session` sets up. -/
def sessionOf (kx : KeyExchange K) : Session K where
  sSessionTxKey := kx.tx
  sSessionRxKey := kx.rx
  sSessionReady := true
  sMsgId := 0

/-- The key packet that `crypto_init_session` hands out. -/
def keyPacket (kx : KeyExchange K) : List UInt8 := kx.packet1.take CryptoKxPacketLen

def startSession (s : State K) (kx : KeyExchange K) : State K :=
  { s with
    comms := { s.comms with session := sessionOf kx }
    exchanges := s.exchanges ++ [kx] }

/-- A step of the thread from `s`, after a call that returned `last`. -/
inductive Own (box : SecretBox K) (s : State K) (last : Result) : Action K → State K → Prop
  | first (hpc : s.pc = .boot) : Own box s last .connect (call box s .connect .connecting)
  | retry {f : Failure} (hpc : s.pc = .connecting) (hlast : last = .error f) :
      Own box s last .connect (call box s .connect .connecting)
  | noSession (hpc : s.pc = .connecting) (hlast : last = .ok ()) :
      Own box s last (.keyExchange none) { s with pc := .head }
  | session (kx : KeyExchange K) (hpc : s.pc = .connecting) (hlast : last = .ok ()) :
      Own box s last (.keyExchange (some kx))
        (call box (startSession s kx) (.publishKeyPacket (some (keyPacket kx))) .sendingKey)
  | keySent (hpc : s.pc = .sendingKey) : Own box s last .resume { s with pc := .head }
  | query (e : AttestationEvidence) (hpc : s.pc = .head) (hattested : s.sAttested = false) :
      Own box s last (.ask (some e))
        (call box s (.publishAttestation (some (queryText e))) .asking)
  | noQuery (evidence : Option AttestationEvidence) (hpc : s.pc = .head) :
      Own box s last (.ask evidence) { s with pc := .asked }
  | asked (hpc : s.pc = .asking) : Own box s last .resume { s with pc := .asked }
  | report (reading : SensorReading) (seed : ℕ) (hpc : s.pc = .asked)
      (hattested : s.sAttested = true) :
      Own box s last (.sample reading true true seed)
        (call box s (.publishTelemetry (some { reading with valid := true }) seed) .reporting)
  | noReport (reading : SensorReading) (moistureOk tempOk : Bool) (seed : ℕ)
      (hpc : s.pc = .asked) :
      Own box s last (.sample reading moistureOk tempOk seed) { s with pc := .waiting 0 }
  | reported (hpc : s.pc = .reporting) : Own box s last .resume { s with pc := .waiting 0 }
  | poll (i : ℕ) (hpc : s.pc = .waiting i) (hi : i < PollsPerCycle) :
      Own box s last .poll (call box s .poll (.polling i))
  | again (i : ℕ) (hpc : s.pc = .waiting i) (hi : PollsPerCycle ≤ i) :
      Own box s last .poll { s with pc := .head }
  | drained (i : ℕ) (hpc : s.pc = .polling i) :
      Own box s last .resume { drainRaMessages s with pc := .waiting (i + 1) }

theorem own_of_ownStep {last : Result} (h : ownStep box s last a = some t) :
    Own box s last a t := by
  cases a with
  | comms a => cases h
  | resume =>
      simp only [ownStep] at h
      split at h
      · rename_i hpc
        cases h
        exact .keySent hpc
      · rename_i hpc
        cases h
        exact .asked hpc
      · rename_i hpc
        cases h
        exact .reported hpc
      · rename_i i hpc
        cases h
        exact .drained i hpc
      · cases h
  | connect =>
      simp only [ownStep] at h
      split at h
      · rename_i hpc
        cases h
        exact .first hpc
      · rename_i f hpc
        cases h
        exact .retry hpc rfl
      · cases h
  | keyExchange kx =>
      simp only [ownStep] at h
      split at h
      · rename_i hpc
        cases h
        cases kx with
        | none => exact .noSession hpc rfl
        | some kx => exact .session kx hpc rfl
      · cases h
  | ask evidence =>
      simp only [ownStep] at h
      split at h
      · rename_i hpc
        cases h
        unfold askStep
        split
        · exact .noQuery evidence hpc
        · rename_i hattested
          cases evidence with
          | none => exact .noQuery none hpc
          | some e =>
              rw [Option.bind_some, buildAttestationQuery_reqBufSize]
              exact .query e hpc (Bool.eq_false_of_not_eq_true hattested)
      · cases h
  | sample reading moistureOk tempOk seed =>
      simp only [ownStep] at h
      split at h
      · rename_i hpc
        cases h
        unfold sampleStep
        split
        · rename_i hattested
          dsimp only
          split
          · rename_i hvalid
            obtain ⟨rfl, rfl⟩ := (Bool.and_eq_true _ _).mp hvalid
            exact .report reading seed hpc hattested
          · exact .noReport reading moistureOk tempOk seed hpc
        · exact .noReport reading moistureOk tempOk seed hpc
      · cases h
  | poll =>
      simp only [ownStep] at h
      split at h
      · rename_i i hpc
        cases h
        split
        · rename_i hi
          exact .poll i hpc hi
        · rename_i hi
          exact .again i hpc (not_lt.mp hi)
      · cases h

/-- A step is one of the call in progress, or one of the thread's own. -/
theorem step_cases (h : step box s a = some t) :
    (∃ b c, a = .comms b ∧ (∀ request, b ≠ .call request) ∧
      Comms.step box s.comms b = some c ∧ t = { s with comms := c }) ∨
    ∃ last, s.comms.pc = .idle last ∧ Own box s last a t := by
  unfold step at h
  split at h
  · rename_i last hpc
    exact .inr ⟨last, hpc, own_of_ownStep h⟩
  · rename_i hbusy
    split at h
    · rename_i b
      obtain ⟨c, hc, rfl⟩ := Option.map_eq_some_iff.mp h
      refine .inl ⟨b, c, rfl, ?_, hc, rfl⟩
      rintro request rfl
      simp only [Comms.step] at hc
      cases hc
    · cases h

/-- The callbacks of a step. -/
def Action.callbacks : Action K → List Callback
  | .comms b => b.callbacks
  | _ => []

/-! ## Draining -/

theorem commsTakeRaMessage_empty {c : Comms.State K} (h : c.mailbox.sRaPending = false) :
    commsTakeRaMessage c = (.error .ENOENT, c) := by
  simp [commsTakeRaMessage, h]

theorem commsTakeRaMessage_pending {c : Comms.State K} (h : c.mailbox.sRaPending = true) :
    commsTakeRaMessage c = (.ok (c.mailbox.sRaBuf.take c.mailbox.sRaLen),
      { c with mailbox := { c.mailbox with sRaPending := false } }.emit
        (.taken (c.mailbox.sRaBuf.take c.mailbox.sRaLen))) := by
  simp [commsTakeRaMessage, h]

theorem drainLoop_empty (fuel : ℕ) (h : s.comms.mailbox.sRaPending = false) :
    drainLoop fuel s = s := by
  cases fuel with
  | zero => rfl
  | succ fuel => rw [drainLoop, commsTakeRaMessage_empty h]

/-- The message taken from the slot, if there is one, is all that is drained. -/
theorem drainLoop_pending (fuel : ℕ) (h : s.comms.mailbox.sRaPending = true) :
    drainLoop (fuel + 1) s = { s with
      comms := (commsTakeRaMessage s.comms).2
      sAttested := s.sAttested ||
        responseIsAttested (s.comms.mailbox.sRaBuf.take s.comms.mailbox.sRaLen) } := by
  rw [drainLoop, commsTakeRaMessage_pending h]
  exact drainLoop_empty fuel rfl

/-- More than two tests never happen. -/
theorem drainLoop_add_two (fuel : ℕ) : drainLoop (fuel + 2) s = drainRaMessages s := by
  cases h : s.comms.mailbox.sRaPending with
  | false => rw [drainRaMessages, drainLoop_empty _ h, drainLoop_empty _ h]
  | true => rw [drainRaMessages, drainLoop_pending _ h, drainLoop_pending _ h]

theorem drainRaMessages_spec (s : State K) :
    ∃ mailbox taken attested, drainRaMessages s =
      { s with
        comms := { s.comms with mailbox, trace := s.comms.trace ++ taken }
        sAttested := attested } ∧ ∀ e ∈ taken, ∃ m, e = .taken m := by
  cases h : s.comms.mailbox.sRaPending with
  | false =>
      refine ⟨s.comms.mailbox, [], s.sAttested, ?_, fun e he ↦ nomatch he⟩
      rw [drainRaMessages, drainLoop_empty _ h, List.append_nil]
  | true =>
      refine ⟨{ s.comms.mailbox with sRaPending := false },
        [.taken (s.comms.mailbox.sRaBuf.take s.comms.mailbox.sRaLen)],
        s.sAttested || responseIsAttested (s.comms.mailbox.sRaBuf.take s.comms.mailbox.sRaLen),
        ?_, fun e he ↦ ⟨_, List.mem_singleton.mp he⟩⟩
      rw [drainRaMessages, drainLoop_pending _ h, commsTakeRaMessage_pending h]
      rfl

theorem drainRaMessages_empties (s : State K) :
    (drainRaMessages s).comms.mailbox.sRaPending = false := by
  cases h : s.comms.mailbox.sRaPending with
  | false => rwa [drainRaMessages, drainLoop_empty _ h]
  | true =>
      rw [drainRaMessages, drainLoop_pending _ h, commsTakeRaMessage_pending h]
      rfl

/-! ## The slot and the latch -/

theorem call_mailbox (box : SecretBox K) (s : State K) (request : Request) (pc : Pc) :
    (call box s request pc).comms.mailbox = s.comms.mailbox := by
  obtain ⟨session, pc', heq, -, -⟩ := startCall_spec box s.comms request
  simp only [call, heq]

theorem drainRaMessages_attested (h : (drainRaMessages s).sAttested = true) :
    s.sAttested = true ∨ s.comms.mailbox.sRaPending = true := by
  cases hpending : s.comms.mailbox.sRaPending with
  | true => exact .inr rfl
  | false =>
      rw [drainRaMessages, drainLoop_empty _ hpending] at h
      exact .inl h

/-- A message is in the slot after a step only if one was there before, or the step
brought one; and the device becomes attested by one that was there before. -/
theorem step_slot (h : step box s a = some t) :
    (t.comms.mailbox.sRaPending = true → s.comms.mailbox.sRaPending = true ∨
      (s.comms.mailbox.sRaPending = false ∧ ∃ payload, Offers a.callbacks payload)) ∧
    (t.sAttested = true → s.sAttested = true ∨ s.comms.mailbox.sRaPending = true) := by
  rcases step_cases h with ⟨b, c, rfl, hcall, hstep, rfl⟩ | ⟨last, -, hown⟩
  · refine ⟨fun hpending ↦ ?_, .inl⟩
    rcases slot_step hcall hstep with hsame | ⟨hempty, payload, hoffers, -⟩
    · rw [hsame] at hpending
      exact .inl hpending
    · exact .inr ⟨hempty, payload, hoffers⟩
  · have hcall : ∀ request pc, (call box s request pc).comms.mailbox.sRaPending = true →
        s.comms.mailbox.sRaPending = true := by
      intro request pc hpending
      rwa [call_mailbox] at hpending
    cases hown with
    | first hpc => exact ⟨fun hpending ↦ .inl (hcall _ _ hpending), .inl⟩
    | retry hpc hlast => exact ⟨fun hpending ↦ .inl (hcall _ _ hpending), .inl⟩
    | session kx hpc hlast =>
        refine ⟨fun hpending ↦ ?_, .inl⟩
        rw [call_mailbox] at hpending
        exact .inl hpending
    | query e hpc hattested => exact ⟨fun hpending ↦ .inl (hcall _ _ hpending), .inl⟩
    | report reading seed hpc hattested =>
        exact ⟨fun hpending ↦ .inl (hcall _ _ hpending), .inl⟩
    | poll i hpc hi => exact ⟨fun hpending ↦ .inl (hcall _ _ hpending), .inl⟩
    | drained i hpc =>
        refine ⟨fun hpending ↦ ?_, drainRaMessages_attested⟩
        rw [show _ = false from drainRaMessages_empties s] at hpending
        cases hpending
    | _ => exact ⟨.inl, .inl⟩

end PlantNode.Telemetry
