import PlantNode.Telemetry.Drain
import PlantNode.Telemetry.KeyPacket

/-!
# Where the thread cannot report any more

The loop of `telemetry_loop` is entered whether or not `crypto_init_session` succeeded, and
never left.  Without a session no reading is ever published; with one, whatever has happened,
a network that answers can still make the thread publish the next reading.
-/

namespace PlantNode.Telemetry

open Foundation Crypto Comms

variable {K : Type} {box : SecretBox K} {s t u : State K} {a : Action K}

/-- A reading is published and acknowledged in what comes after `trace`. -/
def Reports (trace trace' : List (Event K)) : Prop :=
  ∃ later, trace' = trace ++ later ∧
    ∃ p key n, p.source = .telemetry key ∧ .acked n false ∈ later ∧ .published p n ∈ later

/-! ## After the startup -/

/-- The loop is not left, and the session is set up only before it. -/
theorem started_step (h : step box s a = some t) (hs : s.pc.Started) :
    t.pc.Started ∧ t.comms.session.sSessionReady = s.comms.session.sSessionReady := by
  have hcall : ∀ request pc, pc.Started → (call box s request pc).pc.Started ∧
      (call box s request pc).comms.session.sSessionReady = s.comms.session.sSessionReady := by
    intro request pc hpc
    obtain ⟨session, pc', heq, hkeys, -⟩ := startCall_spec box s.comms request
    rw [call, heq]
    exact ⟨hpc, hkeys.ready⟩
  rcases step_cases h with ⟨b, c, rfl, hb, hstep, rfl⟩ | ⟨last, -, hown⟩
  · exact ⟨hs, congrArg Session.sSessionReady (step_session hb hstep)⟩
  · cases hown with
    | first hpc =>
        rw [hpc] at hs
        exact hs.elim
    | retry hpc hlast =>
        rw [hpc] at hs
        exact hs.elim
    | noSession hpc hlast =>
        rw [hpc] at hs
        exact hs.elim
    | session kx hpc hlast =>
        rw [hpc] at hs
        exact hs.elim
    | query e hpc hattested => exact hcall _ _ trivial
    | report reading seed hpc hattested => exact hcall _ _ trivial
    | poll i hpc hi => exact hcall _ _ trivial
    | drained i hpc =>
        obtain ⟨mailbox, taken, attested, heq, -⟩ := drainRaMessages_spec s
        rw [heq]
        exact ⟨trivial, rfl⟩
    | _ => exact ⟨trivial, rfl⟩

theorem started_reachable (h : Reachable (step box) s t) (hs : s.pc.Started) :
    t.pc.Started ∧ t.comms.session.sSessionReady = s.comms.session.sSessionReady :=
  h.invariant (I := fun t ↦ t.pc.Started ∧
      t.comms.session.sSessionReady = s.comms.session.sSessionReady) ⟨hs, rfl⟩
    fun _ _ _ ih _ hstep ↦
      ⟨(started_step hstep ih.1).1, (started_step hstep ih.1).2.trans ih.2⟩

/-- Between calls the thread only adds to the trace: it starts a call or empties the mailbox. -/
theorem own_trace {last : Result} (h : Own box s last a t) :
    ∃ new, t.comms.trace = s.comms.trace ++ new ∧
      ∀ e ∈ new, (∃ request, e = .called request) ∨ ∃ message, e = .taken message := by
  have hcall : ∀ (u : State K) request pc, u.comms.trace = s.comms.trace →
      ∃ new, (call box u request pc).comms.trace = s.comms.trace ++ new ∧
        ∀ e ∈ new, (∃ request, e = .called request) ∨ ∃ message, e = .taken message := by
    intro u request pc hu
    obtain ⟨session, pc', heq, -, -⟩ := startCall_spec box u.comms request
    rw [call, heq, ← hu]
    refine ⟨[.called request], rfl, fun e he ↦ .inl ⟨request, List.mem_singleton.mp he⟩⟩
  cases h with
  | first hpc => exact hcall s _ _ rfl
  | retry hpc hlast => exact hcall s _ _ rfl
  | session kx hpc hlast => exact hcall (startSession s kx) _ _ rfl
  | query e hpc hattested => exact hcall s _ _ rfl
  | report reading seed hpc hattested => exact hcall s _ _ rfl
  | poll i hpc hi => exact hcall s _ _ rfl
  | drained i hpc =>
      obtain ⟨mailbox, taken, attested, heq, htaken⟩ := drainRaMessages_spec s
      rw [heq]
      exact ⟨taken, rfl, fun e he ↦ .inr (htaken e he)⟩
  | _ => exact ⟨[], (List.append_nil _).symm, fun e he ↦ (List.not_mem_nil he).elim⟩

/-! ## What a trace has not got -/

/-- What is new in a trace, without an event of the kind `P`. -/
def Lacks (P : Event K → Prop) (trace trace' : List (Event K)) : Prop :=
  ∃ later, trace' = trace ++ later ∧ ∀ e ∈ later, ¬P e

section Lacks

variable {P : Event K → Prop} {trace trace' : List (Event K)}

theorem Lacks.refl (trace : List (Event K)) : Lacks P trace trace :=
  ⟨[], (List.append_nil _).symm, fun _ he ↦ (List.not_mem_nil he).elim⟩

theorem Lacks.append {new : List (Event K)} (h : Lacks P trace trace')
    (hnew : ∀ e ∈ new, ¬P e) : Lacks P trace (trace' ++ new) := by
  obtain ⟨later, rfl, hlater⟩ := h
  refine ⟨later ++ new, List.append_assoc .., fun e he ↦ ?_⟩
  exact (List.mem_append.mp he).elim (hlater e) (hnew e)

theorem Lacks.snoc {e : Event K} (h : Lacks P trace trace') (he : ¬P e) :
    Lacks P trace (trace' ++ [e]) :=
  h.append fun _ hmem ↦ List.mem_singleton.mp hmem ▸ he

/-- A step of a call adds its own events and those of its callbacks. -/
theorem lacks_comms {b : Comms.Action} {c d : Comms.State K}
    (hcall : ∀ request, b ≠ .call request) (h : Comms.step box c b = some d)
    (hown : ∀ e : Event K, e.Of c.pc → ¬P e) (hcallbacks : ∀ cb ∈ b.callbacks, ¬P cb.event)
    (hs : Lacks P trace c.trace) : Lacks P trace d.trace := by
  refine step_induction (I := fun u ↦ Lacks P trace u.trace) hcall ?_ ?_ ?_ h hs
  · intro u v hframe hu
    rw [hframe.trace]
    exact hu
  · intro u e he hu
    exact hu.snoc (hown e he)
  · intro u v cb hcb hu hv
    rw [(receive_sameCall hv).2]
    exact hu.snoc (hcallbacks cb hcb)

theorem lacks_own {last : Result} (h : Own box s last a t)
    (hcalled : ∀ request, ¬P (.called request)) (htaken : ∀ message, ¬P (.taken message))
    (hs : Lacks P trace s.comms.trace) : Lacks P trace t.comms.trace := by
  obtain ⟨new, heq, hnew⟩ := own_trace h
  rw [heq]
  refine hs.append fun e he ↦ ?_
  rcases hnew e he with ⟨request, rfl⟩ | ⟨message, rfl⟩
  · exact hcalled request
  · exact htaken message

end Lacks

/-! ## Without a session -/

/-- A publication of a reading has returned. -/
def IsReading (e : Event K) : Prop :=
  ∃ p key n, p.source = .telemetry key ∧ e = .published p n

theorem not_reports_of_lacks {trace trace' : List (Event K)} (h : Lacks IsReading trace trace') :
    ¬Reports trace trace' := by
  obtain ⟨later, rfl, hlater⟩ := h
  rintro ⟨later', heq, p, key, n, hp, -, hmem⟩
  cases List.append_cancel_left heq
  exact hlater _ hmem ⟨p, key, n, hp, rfl⟩

theorem callback_not_reading (cb : Callback) : ¬IsReading (K := K) cb.event := by
  rintro ⟨p, key, n, -, he⟩
  cases cb <;> cases he

/-- Without a session no reading is published in a step. -/
theorem silent_step {trace : List (Event K)} (hk : Keyed s)
    (hready : s.comms.session.sSessionReady = false) (h : step box s a = some t)
    (hs : Lacks IsReading trace s.comms.trace) : Lacks IsReading trace t.comms.trace := by
  rcases step_cases h with ⟨b, c, rfl, hb, hstep, rfl⟩ | ⟨last, -, hown⟩
  · refine lacks_comms hb hstep ?_ (fun cb _ ↦ callback_not_reading cb) hs
    rintro e he ⟨p, key, n, hsource, rfl⟩
    have hallowed := hk.allowed.of_publication he
    simp only [Allowed, hsource] at hallowed
    exact Bool.false_ne_true (hready.symm.trans hallowed.2.1)
  · refine lacks_own hown ?_ ?_ hs
    · rintro request ⟨p, key, n, -, he⟩
      cases he
    · rintro message ⟨p, key, n, -, he⟩
      cases he

/-! ## With a session -/

/-- `exchanges` is a record that no step reads. -/
def forget (s : State K) : State K := { s with exchanges := [] }

theorem forget_drain (s : State K) :
    drainRaMessages (forget s) = forget (drainRaMessages s) := by
  rw [drainRaMessages, drainRaMessages]
  cases hpending : s.comms.mailbox.sRaPending with
  | false => rw [drainLoop_empty _ hpending, drainLoop_empty (s := forget s) _ hpending]
  | true =>
      rw [drainLoop_pending _ hpending, drainLoop_pending (s := forget s) _ hpending]
      rfl

theorem forget_keyStep (s : State K) (kx : Option (KeyExchange K)) :
    forget (keyStep box (forget s) kx) = forget (keyStep box s kx) := by
  cases kx <;> rfl

theorem forget_askStep (s : State K) (evidence : Option AttestationEvidence) :
    askStep box (forget s) evidence = forget (askStep box s evidence) := by
  unfold askStep
  cases h : s.sAttested with
  | true => simp [forget, h]
  | false =>
      cases evidence.bind (buildAttestationQuery reqBufSize) <;> simp [forget, h, call]

theorem forget_sampleStep (s : State K) (reading : SensorReading) (moistureOk tempOk : Bool)
    (seed : ℕ) : sampleStep box (forget s) reading moistureOk tempOk seed =
      forget (sampleStep box s reading moistureOk tempOk seed) := by
  unfold sampleStep
  cases h : s.sAttested with
  | false => simp [forget, h]
  | true => cases hvalid : moistureOk && tempOk <;> simp [forget, h, call]

theorem forget_own (s : State K) (last : Result) (a : Action K) :
    (ownStep box (forget s) last a).map forget = (ownStep box s last a).map forget := by
  cases a with
  | comms b => rfl
  | resume =>
      simp only [ownStep, show (forget s).pc = s.pc from rfl, forget_drain]
      split <;> rfl
  | connect =>
      simp only [ownStep, show (forget s).pc = s.pc from rfl]
      split <;> rfl
  | keyExchange kx =>
      simp only [ownStep, show (forget s).pc = s.pc from rfl]
      split
      · exact congrArg some (forget_keyStep s kx)
      · rfl
  | ask evidence =>
      simp only [ownStep, show (forget s).pc = s.pc from rfl, forget_askStep]
      split <;> rfl
  | sample reading moistureOk tempOk seed =>
      simp only [ownStep, show (forget s).pc = s.pc from rfl, forget_sampleStep]
      split <;> rfl
  | poll =>
      simp only [ownStep, show (forget s).pc = s.pc from rfl]
      split
      · split <;> rfl
      · rfl

theorem forget_step (s : State K) (a : Action K) :
    (step box (forget s) a).map forget = (step box s a).map forget := by
  unfold step
  rw [show (forget s).comms = s.comms from rfl]
  split
  · rename_i last _
    exact forget_own s last a
  · cases a with
    | comms b => cases h : Comms.step box s.comms b <;> simp [h, forget]
    | _ => rfl

theorem reachable_forget (h : Reachable (step box) (forget s) u) :
    ∃ t, Reachable (step box) s t ∧ forget t = forget u := by
  induction h with
  | init => exact ⟨s, .init, rfl⟩
  | next a _ _ hstep ih =>
      obtain ⟨t, hreach, heq⟩ := ih
      have hmap := congrArg (Option.map forget) hstep
      rw [← forget_step, ← heq, forget_step] at hmap
      obtain ⟨v, hv, hforget⟩ := Option.map_eq_some_iff.mp hmap
      exact ⟨v, .next a hreach trivial hv, hforget⟩

/-- Between two calls in the loop, with a session. -/
structure Docked (s : State K) : Prop where
  idle : ∃ last, s.comms.pc = .idle last
  sHandle : s.comms.sHandle = true
  ready : s.comms.session.sSessionReady = true

theorem Docked.adrift (hs : Docked s) : Adrift (forget s) where
  idle := hs.idle
  sHandle := hs.sHandle
  ready := hs.ready
  unpublished _ hkx := by cases hkx

theorem docked_of_forget (hu : Adrift u) (heq : forget t = forget u) : Docked t := by
  have hcomms : (forget t).comms = (forget u).comms := congrArg State.comms heq
  replace hcomms : t.comms = u.comms := hcomms
  constructor
  · rw [hcomms]
    exact hu.idle
  · rw [hcomms]
    exact hu.sHandle
  · rw [hcomms]
    exact hu.ready

variable (box) in
/-- The rest of the poll loop. -/
theorem Adrift.again (hs : Adrift s) {i : ℕ} (hpc : s.pc = .waiting i) :
    ∃ t, Reachable (step box) s t ∧ Adrift t ∧ t.pc = .head := by
  induction hn : PollsPerCycle - i generalizing s i with
  | zero =>
      obtain ⟨last, hstep⟩ := hs.step_eq box (a := .poll)
      have hagain : step box s .poll = some { s with pc := .head } := by
        rw [hstep]
        simp only [ownStep, hpc, if_neg (Nat.not_lt.mpr (Nat.sub_eq_zero_iff_le.mp hn))]
      exact ⟨_, .next _ .init trivial hagain, hs.goto .head, rfl⟩
  | succ n ih =>
      obtain ⟨u, hreach, hu, hupc, -, -⟩ := hs.round box hpc (by omega)
      obtain ⟨t, hreach', ht, htpc⟩ := ih hu hupc (by omega)
      exact ⟨t, hreach.trans hreach', ht, htpc⟩

variable (box) in
/-- From the poll loop the thread can come to its head, attested. -/
theorem Docked.attested (hs : Docked s) {i : ℕ} (hpc : s.pc = .waiting i) :
    ∃ t, Reachable (step box) s t ∧ Docked t ∧ t.pc = .head ∧ t.sAttested = true := by
  obtain ⟨u, hreach, hu, hupc⟩ := hs.adrift.again box (i := i) hpc
  obtain ⟨v, hreach', hv, hvpc, hattested⟩ := hu.cycle box hupc ⟨0, 0, 0, 0, 0, true⟩
  obtain ⟨t, ht, heq⟩ := reachable_forget (hreach.trans hreach')
  refine ⟨t, ht, docked_of_forget hv heq, ?_, ?_⟩
  · exact (congrArg State.pc heq).trans hvpc
  · exact (congrArg State.sAttested heq).trans hattested

variable (box) in
/-- From the head of the loop an attested device can publish a reading. -/
theorem Docked.reports (hs : Docked s) (hpc : s.pc = .head) (hattested : s.sAttested = true)
    (hbox : ∀ key msgId plain, ∃ seed cipher,
      box.encrypt KBoxCtx key msgId seed plain = some cipher) :
    ∃ t, Reachable (step box) s t ∧ Reports s.comms.trace t.comms.trace := by
  obtain ⟨last, hidle⟩ := hs.idle
  let reading : SensorReading := ⟨0, 0, 0, 0, 0, true⟩
  have hask : step box s (.ask none) = some { s with pc := .asked } := by
    simp only [step, hidle, ownStep, hpc, askStep, Option.bind_none, ite_self]
  obtain ⟨seed, cipher, hcipher⟩ := hbox s.comms.session.sSessionTxKey s.comms.session.sMsgId
    (readingText reading)
  obtain ⟨out, session, hout⟩ : ∃ out session,
      cryptoEncrypt box s.comms.session (some reading) true seed = (.ok out, session) := by
    rw [cryptoEncrypt_eq hs.ready]
    simp [encryptPlain, hs.ready, hcipher]
  let p : Publication K :=
    ⟨TopicTelemetry, out.data, false, .telemetry s.comms.session.sSessionTxKey⟩
  let c : Comms.State K :=
    ({ s.comms.emit (.called (.publishTelemetry (some reading) seed)) with session }).setPc
      (.publishing p [])
  have hsample : step box { s with pc := .asked } (.sample reading true true seed) =
      some { s with comms := c, pc := .reporting } := by
    simp [step, hidle, ownStep, sampleStep, hattested, call, startCall, State.emit, hs.sHandle,
      hout, c, p, reading]
  -- the broker answers at once
  have hpublish : ∃ d, Comms.step box c (.mqtt ⟨[.ack c.packets false], 0, true⟩) = some d ∧
      d.trace = c.trace ++ [.offered p, .acked c.packets false, .published p c.packets] := by
    simp [Comms.step, c, p, State.setPc, State.emit, publishStep, State.send, receiveAll, receive,
      awaitPublish, finishPublish]
  obtain ⟨d, hd, htrace⟩ := hpublish
  have hsent : step box { s with comms := c, pc := .reporting }
      (.comms (.mqtt ⟨[.ack c.packets false], 0, true⟩)) =
        some { s with comms := d, pc := .reporting } := by
    show (Comms.step box c _).map _ = _
    rw [hd]
    rfl
  refine ⟨_, .next _ (.next _ (.next _ .init trivial hask) trivial hsample) trivial hsent,
    [.called (.publishTelemetry (some reading) seed), .offered p, .acked c.packets false,
      .published p c.packets], ?_, p, _, c.packets, rfl, by simp, by simp⟩
  exact htrace.trans (List.append_assoc ..)

/-! ## Which it is -/

theorem trace_reachable (h : Reachable (step box) s t) : s.comms.trace <+: t.comms.trace := by
  refine h.invariant (I := fun t ↦ s.comms.trace <+: t.comms.trace) List.prefix_rfl ?_
  intro u v a ih _ hstep
  refine ih.trans ?_
  rcases step_cases hstep with ⟨b, c, rfl, hb, hc, rfl⟩ | ⟨last, -, hown⟩
  · exact trace_prefix hb hc
  · obtain ⟨new, heq, -⟩ := own_trace hown
    rw [heq]
    exact List.prefix_append _ _

theorem Reports.weaken {trace trace' trace'' : List (Event K)} (h : Reports trace' trace'')
    (hfront : trace <+: trace') : Reports trace trace'' := by
  obtain ⟨between, rfl⟩ := hfront
  obtain ⟨later, rfl, p, key, n, hp, hacked, hmem⟩ := h
  exact ⟨between ++ later, List.append_assoc .., p, key, n, hp, List.mem_append_right _ hacked,
    List.mem_append_right _ hmem⟩

section Session

variable {zero : K} (hbox : ∀ key msgId plain, ∃ seed cipher,
  box.encrypt KBoxCtx key msgId seed plain = some cipher)

include hbox

/-- In the loop, with a session. -/
theorem reports_of_ready (hs : Reachable (step box) (.boot zero) s) (hstarted : s.pc.Started)
    (hready : s.comms.session.sSessionReady = true) :
    ∃ t, Reachable (step box) s t ∧ Reports s.comms.trace t.comms.trace := by
  obtain ⟨u, i, hu, hpc, ⟨last, hidle⟩, -⟩ := drains box s
  have hreach : Reachable (step box) s u := Steps.reachable hu
  have hserving := (keyed_of_reachable (hs.trans hreach)).serving (by rw [hpc]; trivial)
  have hresume : step box u .resume =
      some { drainRaMessages u with pc := .waiting (i + 1) } := by
    simp only [step, hidle, ownStep, hpc]
  obtain ⟨mailbox, taken, attested, hdrain, -⟩ := drainRaMessages_spec u
  have hdocked : Docked { drainRaMessages u with pc := .waiting (i + 1) } := by
    rw [hdrain]
    exact ⟨⟨last, hidle⟩, hserving.sHandle, (started_reachable hreach hstarted).2.trans hready⟩
  obtain ⟨v, hv, hdocked, hvpc, hattested⟩ := hdocked.attested box rfl
  obtain ⟨t, ht, hreports⟩ := hdocked.reports box hvpc hattested hbox
  have hv' := (Steps.next _ hreach trivial hresume).trans hv
  exact ⟨t, hv'.trans ht, hreports.weaken (trace_reachable hv')⟩

/-- Before the loop, `crypto_init_session` can still succeed. -/
theorem reports_of_connected {last : Result} (hs : Reachable (step box) (.boot zero) s)
    (hpc : s.pc = .connecting) (hidle : s.comms.pc = .idle last) (hok : last = .ok ()) :
    ∃ t, Reachable (step box) s t ∧ Reports s.comms.trace t.comms.trace := by
  let kx : KeyExchange K :=
    ⟨s.comms.session.sSessionTxKey, s.comms.session.sSessionTxKey, []⟩
  have hstep : step box s (.keyExchange (some kx)) = some
      (call box (startSession s kx) (.publishKeyPacket (some (keyPacket kx))) .sendingKey) := by
    rw [hok] at hidle
    simp only [step, hidle, ownStep, hpc]
    rfl
  have hreach : Reachable (step box) s _ := .next _ .init trivial hstep
  have hready : (call box (startSession s kx) (.publishKeyPacket (some (keyPacket kx)))
      .sendingKey).comms.session.sSessionReady = true := by
    obtain ⟨session, pc', heq, hkeys, -⟩ :=
      startCall_spec box (startSession s kx).comms (.publishKeyPacket (some (keyPacket kx)))
    rw [call, heq]
    exact hkeys.ready
  obtain ⟨t, ht, hreports⟩ := reports_of_ready hbox (hs.trans hreach) trivial hready
  exact ⟨t, hreach.trans ht, hreports.weaken (trace_reachable hreach)⟩

theorem reports_of_connect (hs : Reachable (step box) (.boot zero) s)
    (hstep : step box s .connect = some (call box s .connect .connecting)) :
    ∃ t, Reachable (step box) s t ∧ Reports s.comms.trace t.comms.trace := by
  obtain ⟨c, hc, hcpc⟩ := connects box (s := (call box s .connect .connecting).comms) rfl
  have hreach : Reachable (step box) s { call box s .connect .connecting with comms := c } :=
    (Steps.next _ .init trivial hstep).trans (Steps.reachable (quietly_comms hc))
  obtain ⟨t, ht, hreports⟩ := reports_of_connected hbox (hs.trans hreach) rfl hcpc rfl
  exact ⟨t, hreach.trans ht, hreports.weaken (trace_reachable hreach)⟩

/-- At every point of every run, the next reading can be published, as long as the broker can
answer, exactly if there is a session, or the loop is not entered yet. -/
theorem reports_iff_ready (hs : Reachable (step box) (.boot zero) s) :
    (∃ t, Reachable (step box) s t ∧ Reports s.comms.trace t.comms.trace) ↔
      (s.pc.Started → s.comms.session.sSessionReady = true) := by
  constructor
  · rintro ⟨t, hreach, hreports⟩ hstarted
    by_contra hnone
    rw [Bool.not_eq_true] at hnone
    have hsilent : Lacks IsReading s.comms.trace t.comms.trace := by
      refine hreach.invariant_over (I := fun t ↦ Lacks IsReading s.comms.trace t.comms.trace)
        (K := fun t ↦ Keyed t ∧ t.comms.session.sSessionReady = false) ?_ (.refl _)
        fun _ _ _ hk hsilent _ hstep ↦ silent_step hk.1 hk.2 hstep hsilent
      intro u hu
      have hready := (started_reachable hu hstarted).2
      exact ⟨keyed_of_reachable (hs.trans hu), hready.trans hnone⟩
    exact not_reports_of_lacks hsilent hreports
  · intro hsession
    by_cases hstarted : s.pc.Started
    · exact reports_of_ready hbox hs hstarted (hsession hstarted)
    cases hpc : s.pc with
    | boot =>
        rcases (keyed_of_reachable hs).link with ⟨-, last, hidle⟩ | ⟨hconnecting, -⟩ | ⟨hstart, -⟩
        · exact reports_of_connect hbox hs (by simp only [step, hidle, ownStep, hpc])
        · cases hpc.symm.trans hconnecting
        · exact absurd hstart hstarted
    | connecting =>
        obtain ⟨c, last, hc, hidle⟩ := returns box s.comms
        have hreach : Reachable (step box) s { s with comms := c } :=
          Steps.reachable (quietly_comms hc)
        have hreports : ∃ t, Reachable (step box) { s with comms := c } t ∧
            Reports c.trace t.comms.trace := by
          cases last with
          | ok _ => exact reports_of_connected hbox (hs.trans hreach) hpc hidle rfl
          | error f =>
              refine reports_of_connect hbox (hs.trans hreach) ?_
              simp only [step, hidle, ownStep, hpc]
        obtain ⟨t, ht, hreports⟩ := hreports
        exact ⟨t, hreach.trans ht, hreports.weaken (trace_reachable hreach)⟩
    | _ =>
        rw [hpc] at hstarted
        exact absurd trivial hstarted

end Session

end PlantNode.Telemetry
