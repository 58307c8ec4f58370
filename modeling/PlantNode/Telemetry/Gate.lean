import PlantNode.Telemetry.Steps

/-!
# The telemetry gate

`sAttested` is set by an attestation message that passed the filter of
`publish_callback`, the single slot of the mailbox and the substring test, so no
reading is published before such a message was delivered and drained.
-/

namespace PlantNode.Telemetry

open Foundation Crypto Comms

variable {K : Type} {box : SecretBox K} {s t : State K} {c d : Comms.State K}

/-- A message that confirms attestation and is not an echo of a query was delivered
on the attestation topic, and later taken out of the mailbox. -/
def Opened (trace : List (Event K)) : Prop :=
  ∃ m, contains m (ascii "\"query\"") = false ∧ responseIsAttested m = true ∧
    [.delivered true TopicAttestation m, .taken m].Sublist trace

/-- `comms_publish_telemetry` is called after that only. -/
def Gated (pre : List (Event K)) (e : Event K) : Prop :=
  ∀ reading seed, e = .called (.publishTelemetry reading seed) → Opened pre

theorem Opened.append {trace : List (Event K)} (h : Opened trace) (later : List (Event K)) :
    Opened (trace ++ later) := by
  obtain ⟨m, hquery, hyes, hsub⟩ := h
  exact ⟨m, hquery, hyes, hsub.trans (List.sublist_append_left _ _)⟩

/-! ## Steps -/

/-- What is known of a state before the gate opens, and after. -/
structure Guarded (s : State K) : Prop where
  buffered : Buffered s.comms
  attested : s.sAttested = true → Opened s.comms.trace
  gated : EachAfter Gated s.comms.trace

theorem guarded_boot (zero : K) : Guarded (.boot zero) where
  buffered := nofun
  attested := nofun
  gated := EachAfter.nil

theorem Guarded.commsStep {b : Comms.Action} (hs : Guarded s)
    (hcall : ∀ request, b ≠ .call request) (h : Comms.step box s.comms b = some c) :
    Guarded { s with comms := c } := by
  refine ⟨buffered_step hcall h hs.buffered, fun hattested ↦ ?_, ?_⟩
  · obtain ⟨later, hlater⟩ := trace_prefix hcall h
    rw [← hlater]
    exact (hs.attested hattested).append later
  · refine step_induction (I := fun u ↦ EachAfter Gated u.trace) hcall ?_ ?_ ?_ h hs.gated
    · intro u v huv hu
      rw [huv.trace]
      exact hu
    · intro u e he hu
      refine eachAfter_snoc.mpr ⟨hu, ?_⟩
      rintro reading seed rfl
      exact he.elim
    · intro u v cb _ hu hv
      rw [(receive_sameCall hv).2]
      refine eachAfter_snoc.mpr ⟨hu, ?_⟩
      intro reading seed he
      cases cb with
      | ack packet isReject => cases he
      | publish valid topic payload => cases he

theorem Guarded.call (hs : Guarded s) (request : Request) (pc : Pc)
    (hreport : ∀ reading seed, request = .publishTelemetry reading seed → s.sAttested = true) :
    Guarded (call box s request pc) := by
  obtain ⟨session, pc', heq, -, -⟩ := startCall_spec box s.comms request
  simp only [Telemetry.call, heq]
  refine ⟨?_, fun hattested ↦ (hs.attested hattested).append _, ?_⟩
  · exact buffered_emit (c := { s.comms with session, pc := pc' }) _ hs.buffered
  · refine eachAfter_snoc.mpr ⟨hs.gated, fun reading seed he ↦ ?_⟩
    exact hs.attested (hreport reading seed (Event.called.inj he))

theorem Guarded.drain (hs : Guarded s) : Guarded (drainRaMessages s) := by
  cases hpending : s.comms.mailbox.sRaPending with
  | false =>
      rw [drainRaMessages, drainLoop_empty _ hpending]
      exact hs
  | true =>
      obtain ⟨hlen, hquery, hmem⟩ := hs.buffered hpending
      rw [drainRaMessages, drainLoop_pending _ hpending, commsTakeRaMessage_pending hpending,
        hlen, List.take_length]
      refine ⟨fun hfull ↦ absurd hfull Bool.false_ne_true, fun hattested ↦ ?_, ?_⟩
      · rcases (Bool.or_eq_true _ _).mp hattested with hattested | hyes
        · exact (hs.attested hattested).append _
        · exact ⟨_, hquery, hyes, pair_sublist_snoc.mpr (.inr ⟨rfl, hmem⟩)⟩
      · exact eachAfter_snoc.mpr ⟨hs.gated, by simp [Gated]⟩

theorem Guarded.step (hs : Guarded s) (h : step box s a = some t) : Guarded t := by
  rcases step_cases h with ⟨b, c, rfl, hcall, hstep, rfl⟩ | ⟨last, -, hown⟩
  · exact hs.commsStep hcall hstep
  · cases hown with
    | first hpc => exact hs.call .connect _ nofun
    | retry hpc hlast => exact hs.call .connect _ nofun
    | noSession hpc hlast => exact ⟨hs.buffered, hs.attested, hs.gated⟩
    | session kx hpc hlast =>
        have hstart : Guarded (startSession s kx) := ⟨hs.buffered, hs.attested, hs.gated⟩
        exact hstart.call (.publishKeyPacket _) _ nofun
    | keySent hpc => exact ⟨hs.buffered, hs.attested, hs.gated⟩
    | query e hpc hattested => exact hs.call (.publishAttestation _) _ nofun
    | noQuery evidence hpc => exact ⟨hs.buffered, hs.attested, hs.gated⟩
    | asked hpc => exact ⟨hs.buffered, hs.attested, hs.gated⟩
    | report reading seed hpc hattested =>
        exact hs.call (.publishTelemetry _ _) _ fun _ _ _ ↦ hattested
    | noReport reading moistureOk tempOk seed hpc =>
        exact ⟨hs.buffered, hs.attested, hs.gated⟩
    | reported hpc => exact ⟨hs.buffered, hs.attested, hs.gated⟩
    | poll i hpc hi => exact hs.call .poll _ nofun
    | again i hpc hi => exact ⟨hs.buffered, hs.attested, hs.gated⟩
    | drained i hpc => exact ⟨hs.drain.buffered, hs.drain.attested, hs.drain.gated⟩

theorem drainRaMessages_latched (h : s.sAttested = true) :
    (drainRaMessages s).sAttested = true := by
  cases hpending : s.comms.mailbox.sRaPending with
  | false => rwa [drainRaMessages, drainLoop_empty _ hpending]
  | true =>
      rw [drainRaMessages, drainLoop_pending _ hpending]
      exact (Bool.or_eq_true _ _).mpr (.inl h)

theorem sAttested_latched (h : step box s a = some t) (hs : s.sAttested = true) :
    t.sAttested = true := by
  rcases step_cases h with ⟨b, c, -, -, -, rfl⟩ | ⟨last, -, hown⟩
  · exact hs
  · cases hown with
    | drained i hpc => exact drainRaMessages_latched hs
    | _ => exact hs

/-! ## Runs -/

/-- An echo of a query does not open the gate. -/
theorem not_opened_of_echoes {trace : List (Event K)}
    (h : ∀ valid payload, .delivered valid TopicAttestation payload ∈ trace →
      ∃ cap e, buildAttestationQuery cap e = some payload) : ¬ Opened trace := by
  rintro ⟨m, hquery, -, hsub⟩
  obtain ⟨cap, e, he⟩ := h true m (hsub.subset List.mem_cons_self)
  rw [buildAttestationQuery_eq_some he, contains_queryText] at hquery
  cases hquery

/-- No reading is handed to comms before the gate was opened by a message, which no
query is; and the gate stays open. -/
theorem telemetry_gated (box : SecretBox K) (zero : K) :
    (∀ s, Reachable (step box) (.boot zero) s → EachAfter Gated s.comms.trace) ∧
    (∀ s, Reachable (step box) (.boot zero) s →
      (∀ valid payload, .delivered valid TopicAttestation payload ∈ s.comms.trace →
        ∃ cap e, buildAttestationQuery cap e = some payload) → s.sAttested = false) ∧
    ∀ s t, Reachable (step box) s t → s.sAttested = true → t.sAttested = true := by
  have hguarded : ∀ s, Reachable (step box) (.boot zero) s → Guarded s := fun s hs ↦
    hs.invariant (guarded_boot zero) fun _ _ _ ih _ hstep ↦ ih.step hstep
  refine ⟨fun s hs ↦ (hguarded s hs).gated, fun s hs hechoes ↦ ?_, fun s t hst hs ↦ ?_⟩
  · cases hattested : s.sAttested with
    | false => rfl
    | true => exact absurd ((hguarded s hs).attested hattested) (not_opened_of_echoes hechoes)
  · exact hst.invariant (I := fun u ↦ u.sAttested = true) hs
      fun _ _ _ ih _ hstep ↦ sAttested_latched hstep ih

/-! ## A run -/

/-- The startup up to the end of the call that publishes the key packet, whose
`mqtt_publish` has this outcome. -/
def startupWith (o : MqttOutcome) : List (Action ℕ) :=
  [.connect, .comms (.sntp true), .comms (.handle true), .comms (.mqtt ⟨[], 0, true⟩),
    .comms (.mqtt ⟨[], 0, true⟩), .comms (.mqtt ⟨[.ack 0 false, .ack 1 false], 0, false⟩),
    .comms (.mqtt ⟨[.ack 2 false], 0, true⟩), .keyExchange (some ⟨7, 8, [9]⟩),
    .comms (.mqtt o)]

/-- The startup without a failure. -/
def startup : List (Action ℕ) := startupWith ⟨[.ack 3 false], 0, true⟩ ++ [.resume]

/-- One poll, in which `message` is delivered on the attestation topic. -/
def pollWith (message : List UInt8) : List (Action ℕ) :=
  [.poll, .comms (.mqtt ⟨[.publish true TopicAttestation message], 0, false⟩), .resume]

def quietPoll : List (Action ℕ) :=
  [.poll, .comms (.mqtt ⟨[], 0, false⟩), .resume]

def sampled : SensorReading := ⟨500, 215, 480, 1700000000, 0, true⟩

/-- One pass through the loop, in which `message` is delivered. -/
def cycleWith (message : List UInt8) : List (Action ℕ) :=
  [.ask none, .sample sampled true true 1] ++ pollWith message ++
    (List.replicate 9 quietPoll).flatten ++ [.poll]

def evidence : AttestationEvidence where
  deviceId := ascii "plantnode-001" ++ List.replicate 51 0
  deviceIdLen := 13
  token := List.replicate 32 0x21
  deviceId_length := by decide
  deviceIdLen_le := by decide
  token_length := by decide

/-- An answer opens the gate, and telemetry is sent; an echo of the query of the
device does not. -/
theorem telemetry_gated_answer_and_echo :
    (∃ s, Reachable (step SecretBox.tagged) (.boot 0) s ∧ EachAfter Gated s.comms.trace ∧
      .called (.publishTelemetry (some sampled) 1) ∈ s.comms.trace) ∧
    (∃ s, Reachable (step SecretBox.tagged) (.boot 0) s ∧
      .delivered true TopicAttestation (queryText evidence) ∈ s.comms.trace ∧
      s.sAttested = false) ∧
    ∃ s t, Reachable (step SecretBox.tagged) s t ∧ s.sAttested = true ∧ s.pc = .head ∧
      t.pc = .asked ∧ t.sAttested = true := by
  obtain ⟨hgated, hechoes, hlatched⟩ := telemetry_gated SecretBox.tagged 0
  refine ⟨?_, ?_, ?_⟩
  · have hrun : (exec (step SecretBox.tagged) (fun _ _ ↦ true) (.boot 0)
        (startup ++ cycleWith (ascii "\x7b\"attested\":true\x7d") ++
          [.ask none, .sample sampled true true 1])).map
        (fun s ↦ decide (.called (.publishTelemetry (some sampled) 1) ∈ s.comms.trace)) =
        some true := by
      decide +kernel
    obtain ⟨s, hexec, hs⟩ := Option.map_eq_some_iff.mp hrun
    have hreach := (exec_steps hexec).reachable
    exact ⟨s, hreach, hgated s hreach, of_decide_eq_true hs⟩
  · have hrun : (exec (step SecretBox.tagged) (fun _ _ ↦ true) (.boot 0)
        (startup ++ [.ask (some evidence), .comms (.mqtt ⟨[.ack 4 false], 0, true⟩), .resume,
          .sample sampled true true 1] ++ pollWith (queryText evidence))).map
        (fun s ↦ (decide (.delivered true TopicAttestation (queryText evidence) ∈ s.comms.trace),
          s.comms.trace.all fun
            | .delivered _ _ payload => decide (payload = queryText evidence)
            | _ => true)) =
        some (true, true) := by
      decide +kernel
    obtain ⟨s, hexec, hs⟩ := Option.map_eq_some_iff.mp hrun
    obtain ⟨hmem, hall⟩ := Prod.ext_iff.mp hs
    have hreach := (exec_steps hexec).reachable
    refine ⟨s, hreach, of_decide_eq_true hmem, hechoes s hreach fun valid payload hdel ↦ ?_⟩
    have hpayload := List.all_eq_true.mp hall _ hdel
    rw [of_decide_eq_true hpayload]
    exact ⟨reqBufSize, evidence, buildAttestationQuery_reqBufSize evidence⟩
  · have hrun : (exec (step SecretBox.tagged) (fun _ _ ↦ true) (.boot 0)
        (startup ++ cycleWith (ascii "\x7b\"attested\": true\x7d"))).map
        (fun s ↦ (s.sAttested, s.pc, s.comms.pc)) = some (true, .head, .idle (.ok ())) := by
      decide +kernel
    obtain ⟨s, -, hs⟩ := Option.map_eq_some_iff.mp hrun
    obtain ⟨hattested, hs⟩ := Prod.ext_iff.mp hs
    obtain ⟨hpc, hidle⟩ := Prod.ext_iff.mp hs
    replace hattested : s.sAttested = true := hattested
    replace hpc : s.pc = .head := hpc
    replace hidle : s.comms.pc = .idle (.ok ()) := hidle
    have hstep : step SecretBox.tagged s (.ask none) = some { s with pc := .asked } := by
      simp [step, hidle, ownStep, hpc, askStep, hattested]
    have hreach : Reachable (step SecretBox.tagged) s { s with pc := .asked } :=
      .next _ .init trivial hstep
    exact ⟨s, _, hreach, hattested, hpc, rfl, hlatched s _ hreach hattested⟩

end PlantNode.Telemetry
