import PlantNode.Telemetry.Gate

/-!
# Whether telemetry can be decrypted

The verifier recovers the session keys from the key packet.  `telemetry_loop` goes on
whether or not the packet could be published, so telemetry can be decrypted exactly
if the loop is entered after the call that publishes it returned 0.
-/

namespace PlantNode.Telemetry

open Foundation Crypto Comms

variable {K : Type} {box : SecretBox K} {s t : State K} {a : Action K} {kx : KeyExchange K}

def keyPublication (kx : KeyExchange K) : Publication K :=
  ⟨TopicKey, keyPacket kx, true, .keyPacket⟩

/-- `comms_publish_key_packet` returned 0 for the packet of this key exchange. -/
def KeyPublished (trace : List (Event K)) (kx : KeyExchange K) : Prop :=
  ∃ n, .published (keyPublication kx) n ∈ trace

/-- Telemetry handed to the broker is encrypted under a key whose packet was published
before. -/
def Decryptable (exchanges : List (KeyExchange K)) (pre : List (Event K)) (e : Event K) : Prop :=
  ∀ p key, e = .offered p → p.source = .telemetry key →
    ∃ kx ∈ exchanges, kx.tx = key ∧ KeyPublished pre kx

/-- The loop is not entered after `comms_publish_key_packet` failed. -/
def KeySent (s : State K) : Action K → Prop
  | .resume => s.pc = .sendingKey → s.comms.pc = .idle (.ok ())
  | _ => True

theorem KeyPublished.append {trace : List (Event K)} (h : KeyPublished trace kx)
    (later : List (Event K)) : KeyPublished (trace ++ later) kx := by
  obtain ⟨n, hn⟩ := h
  exact ⟨n, List.mem_append_left _ hn⟩

theorem keyPublished_append {trace later : List (Event K)}
    (hlater : ∀ p n, .published p n ∉ later) :
    KeyPublished (trace ++ later) kx ↔ KeyPublished trace kx := by
  refine ⟨?_, fun h ↦ h.append later⟩
  rintro ⟨n, hn⟩
  exact ⟨n, (List.mem_append.mp hn).resolve_right (hlater _ n)⟩

/-! ## The startup -/

/-- `telemetry_loop` is past the connection. -/
def Pc.Started : Pc → Prop
  | .boot | .connecting => False
  | _ => True

/-- What a call of the thread at `pc` may publish. -/
def Allowed (pc : Pc) (session : Session K) (exchanges : List (KeyExchange K))
    (p : Publication K) : Prop :=
  match p.source with
  | .telemetry key =>
      pc = .reporting ∧ session.sSessionReady = true ∧ key = session.sSessionTxKey
  | .keyPacket => pc = .sendingKey ∧ ∃ kx ∈ exchanges, p = keyPublication kx
  | _ => True

/-- The session, the connection and the key packet, in any run. -/
structure Keyed (s : State K) : Prop where
  link : (s.pc = .boot ∧ ∃ last, s.comms.pc = .idle last) ∨
    (s.pc = .connecting ∧ Linking s.comms) ∨ (s.pc.Started ∧ Serving s.comms)
  session : (s.exchanges = [] ∧ s.comms.session.sSessionReady = false) ∨
    ∃ kx, s.exchanges = [kx] ∧ s.pc.Started ∧ s.comms.session.sSessionReady = true ∧
      s.comms.session.sSessionTxKey = kx.tx
  allowed : s.comms.pc.Publishes (Allowed s.pc s.comms.session s.exchanges)
  sending : s.pc = .sendingKey → ∃ kx, s.exchanges = [kx] ∧
    (s.comms.pc.publication = some (keyPublication kx) ∨
      (∃ f, s.comms.pc = .idle (.error f)) ∨
      (s.comms.pc = .idle (.ok ()) ∧ KeyPublished s.comms.trace kx))
  unsent : ∀ kx, KeyPublished s.comms.trace kx →
    s.pc.Started ∧ (s.pc = .sendingKey → s.comms.pc = .idle (.ok ()))

theorem keyed_boot (zero : K) : Keyed (.boot zero) where
  link := .inl ⟨rfl, _, rfl⟩
  session := .inl ⟨rfl, rfl⟩
  allowed := trivial
  sending := nofun
  unsent _ h := by
    obtain ⟨n, hn⟩ := h
    cases hn

theorem Keyed.serving (hs : Keyed s) (hstarted : s.pc.Started) : Serving s.comms := by
  rcases hs.link with ⟨hpc, -⟩ | ⟨hpc, -⟩ | ⟨-, hserving⟩
  · rw [hpc] at hstarted
    exact hstarted.elim
  · rw [hpc] at hstarted
    exact hstarted.elim
  · exact hserving

theorem Keyed.commsStep {b : Comms.Action} {c : Comms.State K} (hs : Keyed s)
    (hcall : ∀ request, b ≠ .call request) (h : Comms.step box s.comms b = some c) :
    Keyed { s with comms := c } := by
  have hsession := step_session hcall h
  refine ⟨?_, ?_, ?_, ?_, ?_⟩
  · rcases hs.link with ⟨-, last, hidle⟩ | ⟨hpc, hlinking⟩ | ⟨hstarted, hserving⟩
    · exact absurd hidle (not_idle_of_step hcall h)
    · exact .inr (.inl ⟨hpc, step_linking hcall h hlinking⟩)
    · exact .inr (.inr ⟨hstarted, step_serving hcall h hserving⟩)
  · dsimp only
    rw [hsession]
    exact hs.session
  · dsimp only
    rw [hsession]
    exact step_publishes hcall h hs.allowed
  · intro hpc
    obtain ⟨kx, hkx, hsub⟩ := hs.sending hpc
    refine ⟨kx, hkx, ?_⟩
    rcases hsub with hp | ⟨f, hidle⟩ | ⟨hidle, -⟩
    · rcases step_publication hcall h hp nofun with ⟨hgoing | hfailed, -⟩ | ⟨hok, hmem⟩
      · exact .inl hgoing
      · exact .inr (.inl hfailed)
      · exact .inr (.inr ⟨hok, hmem⟩)
    · exact absurd hidle (not_idle_of_step hcall h)
    · exact absurd hidle (not_idle_of_step hcall h)
  · rintro kx ⟨n, hn⟩
    rcases step_published hcall h hn with hold | hnew
    · obtain ⟨hstarted, hdone⟩ := hs.unsent kx ⟨n, hold⟩
      exact ⟨hstarted, fun hpc ↦ absurd (hdone hpc) (not_idle_of_step hcall h)⟩
    · have hallowed : Allowed s.pc s.comms.session s.exchanges (keyPublication kx) :=
        hs.allowed.of_publication hnew
      have hpc : s.pc = .sendingKey := hallowed.1
      refine ⟨by dsimp only; rw [hpc]; trivial, fun _ ↦ ?_⟩
      rcases step_publication hcall h hnew nofun with ⟨-, hold⟩ | ⟨hok, -⟩
      · have hdone := (hs.unsent kx ⟨n, hold _ n hn⟩).2 hpc
        exact absurd hdone (not_idle_of_step hcall h)
      · exact hok

/-- A step that only moves the thread within the loop. -/
theorem Keyed.goto {last : Result} {pc : Pc} (hs : Keyed s) (hidle : s.comms.pc = .idle last)
    (hfrom : s.pc.Started) (hto : pc.Started) (hne : pc ≠ .sendingKey) :
    Keyed { s with pc } := by
  refine ⟨.inr (.inr ⟨hto, hs.serving hfrom⟩), ?_, ?_, fun hpc ↦ absurd hpc hne, ?_⟩
  · rcases hs.session with hnone | ⟨kx, hkx, -, hready, htx⟩
    · exact .inl hnone
    · exact .inr ⟨kx, hkx, hto, hready, htx⟩
  · dsimp only
    rw [hidle]
    trivial
  · exact fun kx hkx ↦ ⟨hto, fun hpc ↦ absurd hpc hne⟩

section Opens

variable {session : Session K} {exchanges : List (KeyExchange K)} {pc : Comms.Pc K}

theorem opens_attestation {bytes : List UInt8}
    (h : (Request.publishAttestation (some bytes)).Opens session pc) :
    pc.Publishes (Allowed .asking session exchanges) := by
  refine h.publishes trivial fun p hp ↦ ?_
  cases hp
  trivial

theorem opens_telemetry {reading : Option SensorReading} {seed : ℕ}
    (h : (Request.publishTelemetry reading seed).Opens session pc) :
    pc.Publishes (Allowed .reporting session exchanges) := by
  refine h.publishes trivial fun p hp ↦ ?_
  obtain ⟨-, hsource, hready⟩ := hp
  simp only [Allowed, hsource]
  exact ⟨trivial, hready, trivial⟩

theorem opens_poll {i : ℕ} (h : Request.poll.Opens session pc) :
    pc.Publishes (Allowed (.polling i) session exchanges) :=
  h.publishes trivial fun _ hp ↦ hp.elim

theorem opens_served {request : Request} (h : request.Opens session pc)
    (hconnect : request ≠ .connect) (hdisconnect : request ≠ .disconnect) : pc.Served := by
  cases pc with
  | syncing => cases request <;> first | exact h.elim | exact absurd rfl hconnect
  | disconnecting => cases request <;> first | exact h.elim | exact absurd rfl hdisconnect
  | idle last => trivial
  | publishing p packets => trivial
  | polling => trivial
  | awaiting p packets packet expected => trivial
  | _ => exact h.opening.elim

end Opens

/-- A call that neither connects nor sends the key packet. -/
theorem Keyed.call {request : Request} {pc : Pc} (hs : Keyed s) (hfrom : s.pc.Started)
    (hto : pc.Started) (hne : pc ≠ .sendingKey)
    (hconnect : request ≠ .connect) (hdisconnect : request ≠ .disconnect)
    (hopens : ∀ pc', request.Opens s.comms.session pc' →
      pc'.Publishes (Allowed pc s.comms.session s.exchanges)) :
    Keyed (call box s request pc) := by
  obtain ⟨session, pc', heq, hkeys, hpc'⟩ := startCall_spec box s.comms request
  have hserved := opens_served hpc' hconnect hdisconnect
  have hpublishes := hopens pc' hpc'
  simp only [Telemetry.call, heq]
  refine ⟨.inr (.inr ⟨hto, (hs.serving hfrom).sHandle, hserved⟩), ?_, ?_,
    fun hpc ↦ absurd hpc hne, ?_⟩
  · dsimp only
    rw [hkeys.ready, hkeys.tx]
    rcases hs.session with hnone | ⟨kx, hkx, -, hready, htx⟩
    · exact .inl hnone
    · exact .inr ⟨kx, hkx, hto, hready, htx⟩
  · refine hpublishes.mono fun p hp ↦ ?_
    unfold Allowed at hp ⊢
    rw [hkeys.ready, hkeys.tx]
    exact hp
  · exact fun kx hkx ↦ ⟨hto, fun hpc ↦ absurd hpc hne⟩

theorem Keyed.connect (hs : Keyed s) (hfrom : s.pc = .boot ∨ s.pc = .connecting) :
    Keyed (Telemetry.call box s .connect .connecting) := by
  have hstarted : ¬ s.pc.Started := by
    rcases hfrom with hpc | hpc
    · rw [hpc]
      exact id
    · rw [hpc]
      exact id
  refine ⟨.inr (.inl ⟨rfl, trivial⟩), ?_, trivial, nofun, fun kx hkx ↦ ?_⟩
  · rcases hs.session with hnone | ⟨kx, -, hpc, -⟩
    · exact .inl hnone
    · exact absurd hpc hstarted
  · have hold : KeyPublished s.comms.trace kx := (keyPublished_append (by simp)).mp hkx
    exact absurd (hs.unsent kx hold).1 hstarted

/-- `comms_connect` has returned 0. -/
theorem Keyed.linked (hs : Keyed s) (hpc : s.pc = .connecting)
    (hidle : s.comms.pc = .idle (.ok ())) : s.comms.sHandle = true := by
  rcases hs.link with ⟨hboot, -⟩ | ⟨-, hlinking⟩ | ⟨hstart, -⟩
  · rw [hpc] at hboot
    cases hboot
  · exact hlinking.at_pc hidle
  · rw [hpc] at hstart
    exact hstart.elim

theorem Keyed.startSession (hs : Keyed s) (hpc : s.pc = .connecting)
    (hidle : s.comms.pc = .idle (.ok ())) :
    Keyed (Telemetry.call box (startSession s kx) (.publishKeyPacket (some (keyPacket kx)))
      .sendingKey) := by
  have hstarted : ¬ s.pc.Started := by
    rw [hpc]
    exact id
  have hhandle := hs.linked hpc hidle
  have hnone : s.exchanges = [] := by
    rcases hs.session with ⟨hnone, -⟩ | ⟨kx, -, hstart, -⟩
    · exact hnone
    · exact absurd hstart hstarted
  have hcall : startCall box (Telemetry.startSession s kx).comms
      (.publishKeyPacket (some (keyPacket kx))) =
      ((Telemetry.startSession s kx).comms.emit
        (.called (.publishKeyPacket (some (keyPacket kx))))).setPc
        (.publishing (keyPublication kx) []) := by
    simp [startCall, Telemetry.startSession, State.emit, hhandle, keyPublication]
  simp only [Telemetry.call, hcall]
  refine ⟨.inr (.inr ⟨trivial, hhandle, trivial⟩), .inr ⟨kx, ?_, trivial, rfl, rfl⟩, ?_, ?_, ?_⟩
  · show s.exchanges ++ [kx] = [kx]
    rw [hnone, List.nil_append]
  · exact ⟨rfl, kx, List.mem_append_right _ (List.mem_singleton.mpr rfl), rfl⟩
  · refine fun _ ↦ ⟨kx, ?_, .inl rfl⟩
    show s.exchanges ++ [kx] = [kx]
    rw [hnone, List.nil_append]
  · intro kx' hkx'
    have hold : KeyPublished s.comms.trace kx' := (keyPublished_append (by simp)).mp hkx'
    exact absurd (hs.unsent kx' hold).1 hstarted

theorem Keyed.noSession (hs : Keyed s) (hpc : s.pc = .connecting)
    (hidle : s.comms.pc = .idle (.ok ())) : Keyed { s with pc := .head } := by
  have hstarted : ¬ s.pc.Started := by
    rw [hpc]
    exact id
  refine ⟨.inr (.inr ⟨trivial, hs.linked hpc hidle, ?_⟩), ?_, ?_, nofun, fun kx hkx ↦ ?_⟩
  · dsimp only
    rw [hidle]
    trivial
  · rcases hs.session with hnone | ⟨kx, -, hstart, -⟩
    · exact .inl hnone
    · exact absurd hstart hstarted
  · dsimp only
    rw [hidle]
    trivial
  · exact absurd (hs.unsent kx hkx).1 hstarted

theorem Keyed.drain (hs : Keyed s) : Keyed (drainRaMessages s) := by
  obtain ⟨mailbox, taken, attested, heq, htaken⟩ := drainRaMessages_spec s
  have hsame : ∀ kx, KeyPublished (s.comms.trace ++ taken) kx ↔ KeyPublished s.comms.trace kx :=
    fun kx ↦ keyPublished_append fun p n hmem ↦ by
      obtain ⟨m, hm⟩ := htaken _ hmem
      cases hm
  rw [heq]
  refine ⟨?_, hs.session, hs.allowed, ?_, ?_⟩
  · rcases hs.link with hboot | ⟨hpc, hlinking⟩ | ⟨hstarted, hserving⟩
    · exact .inl hboot
    · exact .inr (.inl ⟨hpc, hlinking⟩)
    · exact .inr (.inr ⟨hstarted, hserving.sHandle, hserving.pc⟩)
  · intro hpc
    obtain ⟨kx, hkx, hsub⟩ := hs.sending hpc
    refine ⟨kx, hkx, ?_⟩
    rcases hsub with hp | hfailed | ⟨hok, hmem⟩
    · exact .inl hp
    · exact .inr (.inl hfailed)
    · exact .inr (.inr ⟨hok, (hsame kx).mpr hmem⟩)
  · exact fun kx hkx ↦ hs.unsent kx ((hsame kx).mp hkx)

theorem Keyed.step (hs : Keyed s) (h : step box s a = some t) : Keyed t := by
  rcases step_cases h with ⟨b, c, rfl, hcall, hstep, rfl⟩ | ⟨last, hidle, hown⟩
  · exact hs.commsStep hcall hstep
  · cases hown with
    | first hpc => exact hs.connect (.inl hpc)
    | retry hpc hlast => exact hs.connect (.inr hpc)
    | noSession hpc hlast =>
        subst hlast
        exact hs.noSession hpc hidle
    | session kx hpc hlast =>
        subst hlast
        exact hs.startSession hpc hidle
    | keySent hpc => exact hs.goto hidle (by rw [hpc]; trivial) trivial nofun
    | query e hpc hattested =>
        exact hs.call (by rw [hpc]; trivial) trivial nofun nofun nofun fun _ ↦ opens_attestation
    | noQuery evidence hpc => exact hs.goto hidle (by rw [hpc]; trivial) trivial nofun
    | asked hpc => exact hs.goto hidle (by rw [hpc]; trivial) trivial nofun
    | report reading seed hpc hattested =>
        exact hs.call (by rw [hpc]; trivial) trivial nofun nofun nofun fun _ ↦ opens_telemetry
    | noReport reading moistureOk tempOk seed hpc =>
        exact hs.goto hidle (by rw [hpc]; trivial) trivial nofun
    | reported hpc => exact hs.goto hidle (by rw [hpc]; trivial) trivial nofun
    | poll i hpc hi =>
        exact hs.call (by rw [hpc]; trivial) trivial nofun nofun nofun fun _ ↦ opens_poll
    | again i hpc hi => exact hs.goto hidle (by rw [hpc]; trivial) trivial nofun
    | drained i hpc =>
        obtain ⟨mailbox, taken, attested, heq, -⟩ := drainRaMessages_spec s
        have hcomms : (drainRaMessages s).comms.pc = .idle last := by
          rw [heq]
          exact hidle
        refine hs.drain.goto hcomms ?_ trivial nofun
        · rw [heq]
          dsimp only
          rw [hpc]
          trivial

theorem keyed_of_reachable {zero : K} (h : Reachable (step box) (.boot zero) s) : Keyed s :=
  h.invariant (keyed_boot zero) fun _ _ _ ih _ hstep ↦ ih.step hstep

/-! ## Runs in which the key packet is published -/

structure Followed (s : State K) : Prop where
  sent : s.pc.Started → s.pc ≠ .sendingKey → ∀ kx ∈ s.exchanges, KeyPublished s.comms.trace kx
  decryptable : EachAfter (Decryptable s.exchanges) s.comms.trace

theorem followed_boot (zero : K) : Followed (.boot zero) where
  sent := nofun
  decryptable := EachAfter.nil

theorem Followed.commsStep {b : Comms.Action} {c : Comms.State K} (hs : Followed s)
    (hkeyed : Keyed s) (hcall : ∀ request, b ≠ .call request)
    (h : Comms.step box s.comms b = some c) : Followed { s with comms := c } := by
  constructor
  · intro hstarted hne kx hkx
    obtain ⟨later, hlater⟩ := trace_prefix hcall h
    rw [← hlater]
    exact (hs.sent hstarted hne kx hkx).append later
  · refine (step_induction (I := fun u ↦ s.comms.trace <+: u.trace ∧
      EachAfter (Decryptable s.exchanges) u.trace) hcall ?_ ?_ ?_ h
        ⟨List.prefix_refl _, hs.decryptable⟩).2
    · intro u v hframe hu
      rw [hframe.trace]
      exact hu
    · rintro u e he ⟨hstart, hu⟩
      refine ⟨hstart.trans (List.prefix_append _ _), eachAfter_snoc.mpr ⟨hu, ?_⟩⟩
      rintro p key rfl hsource
      have hallowed := hkeyed.allowed.of_publication he
      simp only [Allowed, hsource] at hallowed
      obtain ⟨hpc, hready, rfl⟩ := hallowed
      rcases hkeyed.session with ⟨-, hnot⟩ | ⟨kx, hkx, hstarted, -, htx⟩
      · rw [hready] at hnot
        cases hnot
      · have hmem : kx ∈ s.exchanges := by
          rw [hkx]
          exact List.mem_singleton.mpr rfl
        obtain ⟨later, hlater⟩ := hstart
        refine ⟨kx, hmem, htx.symm, ?_⟩
        rw [← hlater]
        exact (hs.sent hstarted (by rw [hpc]; nofun) kx hmem).append later
    · rintro u v cb - ⟨hstart, hu⟩ hv
      rw [(receive_sameCall hv).2]
      refine ⟨hstart.trans (List.prefix_append _ _), eachAfter_snoc.mpr ⟨hu, ?_⟩⟩
      intro p key he
      cases cb with
      | ack packet isReject => cases he
      | publish valid topic payload => cases he

theorem Followed.call (hs : Followed s) (request : Request) {pc : Pc}
    (hsent : pc.Started → pc ≠ .sendingKey → ∀ kx ∈ s.exchanges, KeyPublished s.comms.trace kx) :
    Followed (call box s request pc) := by
  obtain ⟨session, pc', heq, -, -⟩ := startCall_spec box s.comms request
  simp only [Telemetry.call, heq]
  refine ⟨fun hstarted hne kx hkx ↦ (hsent hstarted hne kx hkx).append _, ?_⟩
  exact eachAfter_snoc.mpr ⟨hs.decryptable, by simp [Decryptable]⟩

theorem Followed.goto (hs : Followed s) (hfrom : s.pc.Started) (hne : s.pc ≠ .sendingKey)
    (pc : Pc) : Followed { s with pc } :=
  ⟨fun _ _ ↦ hs.sent hfrom hne, hs.decryptable⟩

theorem Followed.drain (hs : Followed s) : Followed (drainRaMessages s) := by
  obtain ⟨mailbox, taken, attested, heq, htaken⟩ := drainRaMessages_spec s
  rw [heq]
  refine ⟨fun hstarted hne kx hkx ↦ (hs.sent hstarted hne kx hkx).append taken, ?_⟩
  refine hs.decryptable.append fun e he pre ↦ ?_
  obtain ⟨m, rfl⟩ := htaken e he
  exact nofun

/-- A further key exchange takes nothing away. -/
theorem Decryptable.mono {exchanges later : List (KeyExchange K)} {pre : List (Event K)}
    {e : Event K} (h : Decryptable exchanges pre e) : Decryptable (exchanges ++ later) pre e := by
  intro p key he hsource
  obtain ⟨kx, hkx, hrest⟩ := h p key he hsource
  exact ⟨kx, List.mem_append_left _ hkx, hrest⟩

theorem Followed.step (hs : Followed s) (hkeyed : Keyed s) (hguard : KeySent s a)
    (h : step box s a = some t) : Followed t := by
  rcases step_cases h with ⟨b, c, rfl, hcall, hstep, rfl⟩ | ⟨last, hidle, hown⟩
  · exact hs.commsStep hkeyed hcall hstep
  · cases hown with
    | first hpc => exact hs.call .connect nofun
    | retry hpc hlast => exact hs.call .connect nofun
    | noSession hpc hlast =>
        refine ⟨fun _ _ kx hkx ↦ ?_, hs.decryptable⟩
        rcases hkeyed.session with ⟨hnone, -⟩ | ⟨kx', -, hstart, -⟩
        · rw [hnone] at hkx
          cases hkx
        · rw [hpc] at hstart
          exact hstart.elim
    | session kx hpc hlast =>
        have hstart : Followed { startSession s kx with pc := .connecting } :=
          ⟨nofun, fun pre e post hl ↦ (hs.decryptable pre e post hl).mono⟩
        exact hstart.call _ fun _ hne ↦ absurd rfl hne
    | keySent hpc =>
        refine ⟨fun _ _ kx hkx ↦ ?_, hs.decryptable⟩
        have hok := hguard hpc
        obtain ⟨kx', hone, hsub⟩ := hkeyed.sending hpc
        rw [hone] at hkx
        cases List.mem_singleton.mp hkx
        rw [hok] at hsub
        rcases hsub with hp | ⟨f, hfailed⟩ | ⟨-, hmem⟩
        · cases hp
        · cases hfailed
        · exact hmem
    | query e hpc hattested =>
        exact hs.call _ fun _ _ ↦ hs.sent (by rw [hpc]; trivial) (by rw [hpc]; nofun)
    | report reading seed hpc hattested =>
        exact hs.call _ fun _ _ ↦ hs.sent (by rw [hpc]; trivial) (by rw [hpc]; nofun)
    | poll i hpc hi =>
        exact hs.call _ fun _ _ ↦ hs.sent (by rw [hpc]; trivial) (by rw [hpc]; nofun)
    | drained i hpc =>
        obtain ⟨mailbox, taken, attested, heq, -⟩ := drainRaMessages_spec s
        refine ⟨fun _ _ ↦ hs.drain.sent ?_ ?_, hs.drain.decryptable⟩
        · rw [heq]
          dsimp only
          rw [hpc]
          trivial
        · rw [heq]
          dsimp only
          rw [hpc]
          nofun
    | noQuery evidence hpc => exact hs.goto (by rw [hpc]; trivial) (by rw [hpc]; nofun) _
    | asked hpc => exact hs.goto (by rw [hpc]; trivial) (by rw [hpc]; nofun) _
    | noReport reading moistureOk tempOk seed hpc =>
        exact hs.goto (by rw [hpc]; trivial) (by rw [hpc]; nofun) _
    | reported hpc => exact hs.goto (by rw [hpc]; trivial) (by rw [hpc]; nofun) _
    | again i hpc hi => exact hs.goto (by rw [hpc]; trivial) (by rw [hpc]; nofun) _

/-! ## After a key packet that was not published -/

/-- Between two calls, with a session whose key packet was not published. -/
structure Adrift (s : State K) : Prop where
  idle : ∃ last, s.comms.pc = .idle last
  sHandle : s.comms.sHandle = true
  ready : s.comms.session.sSessionReady = true
  unpublished : ∀ kx ∈ s.exchanges, ¬ KeyPublished s.comms.trace kx

variable (box) in
theorem Adrift.step_eq (hs : Adrift s) {a : Action K} :
    ∃ last, step box s a = ownStep box s last a := by
  obtain ⟨last, hidle⟩ := hs.idle
  exact ⟨last, by simp only [step, hidle]⟩

theorem Adrift.goto (hs : Adrift s) (pc : Pc) : Adrift { s with pc } :=
  ⟨hs.idle, hs.sHandle, hs.ready, hs.unpublished⟩

/-- An answer that confirms attestation. -/
def confirmation : List UInt8 := ascii "\x7b\"attested\": true\x7d"

theorem confirmation_buffered {session : Session K} {mailbox : Mailbox} {policy : Policy.State}
    (h : mailbox.sRaPending = false) :
    (publishCallback box session mailbox policy true TopicAttestation confirmation).mailbox =
      ⟨confirmation, confirmation.length, true⟩ := by
  have hne : TopicAttestation ≠ TopicCommands := by decide
  have hquery : contains confirmation (ascii "\"query\"") = false := by decide
  have hlen : ¬ raBufSize < confirmation.length := by decide
  simp [publishCallback, hne, hquery, h, hlen]

variable (box) in
/-- One round of the poll loop, in which a confirmation is delivered: the slot is
empty afterwards, and if it was empty before, the device is attested. -/
theorem Adrift.round (hs : Adrift s) {i : ℕ} (hpc : s.pc = .waiting i) (hi : i < PollsPerCycle) :
    ∃ t, Reachable (step box) s t ∧ Adrift t ∧ t.pc = .waiting (i + 1) ∧
      t.comms.mailbox.sRaPending = false ∧
      ((s.comms.mailbox.sRaPending = false ∨ s.sAttested = true) → t.sAttested = true) := by
  obtain ⟨last, hstep⟩ := hs.step_eq box (a := .poll)
  have hpoll : startCall box s.comms .poll = (s.comms.emit (.called .poll)).setPc .polling := by
    simp [startCall, State.emit, hs.sHandle]
  have hcall : step box s .poll =
      some { s with comms := (s.comms.emit (.called .poll)).setPc .polling, pc := .polling i } := by
    rw [hstep]
    simp only [ownStep, hpc, if_pos hi, call, hpoll]
  let d := publishCallback box s.comms.session s.comms.mailbox s.comms.policy true
    TopicAttestation confirmation
  let u : State K :=
    { s with
      comms := (({ s.comms with mailbox := d.mailbox, policy := d.policy }.emit
        (.called .poll)).emit (.delivered true TopicAttestation confirmation)).setPc
          (.idle (.ok ()))
      pc := .polling i }
  have hrun : step box
      { s with comms := (s.comms.emit (.called .poll)).setPc .polling, pc := .polling i }
      (.comms (.mqtt ⟨[.publish true TopicAttestation confirmation], 0, false⟩)) = some u := rfl
  have hresume : step box u .resume =
      some { drainRaMessages u with pc := .waiting (i + 1) } := rfl
  obtain ⟨mailbox, taken, attested, heq, htaken⟩ := drainRaMessages_spec u
  have hempty := drainRaMessages_empties u
  refine ⟨_, .next _ (.next _ (.next _ .init trivial hcall) trivial hrun) trivial hresume,
    ?_, rfl, hempty, ?_⟩
  · have hpublished : ∀ kx, KeyPublished (u.comms.trace ++ taken) kx ↔
        KeyPublished s.comms.trace kx := by
      intro kx
      rw [keyPublished_append fun p n hmem ↦ by
        obtain ⟨m, hm⟩ := htaken _ hmem
        cases hm]
      show KeyPublished (s.comms.trace ++ [_] ++ [_]) kx ↔ _
      rw [keyPublished_append (by simp), keyPublished_append (by simp)]
    rw [heq]
    refine ⟨⟨_, rfl⟩, hs.sHandle, hs.ready, fun kx hkx hmem ↦ ?_⟩
    exact hs.unpublished kx hkx ((hpublished kx).mp hmem)
  · rintro (hslot | hattested)
    · have hbuffered : u.comms.mailbox = ⟨confirmation, confirmation.length, true⟩ :=
        confirmation_buffered hslot
      have hpending : u.comms.mailbox.sRaPending = true := by rw [hbuffered]
      have hyes : responseIsAttested confirmation = true := by decide
      show (drainRaMessages u).sAttested = true
      rw [drainRaMessages, drainLoop_pending _ hpending, hbuffered, List.take_length, hyes]
      exact Bool.or_true _
    · exact drainRaMessages_latched (s := u) hattested

variable (box) in
/-- The poll loop, in which confirmations arrive. -/
theorem Adrift.rounds (hs : Adrift s) (hpc : s.pc = .waiting 0) {n : ℕ}
    (hn : n ≤ PollsPerCycle) :
    ∃ t, Reachable (step box) s t ∧ Adrift t ∧ t.pc = .waiting n ∧
      (1 ≤ n → t.comms.mailbox.sRaPending = false) ∧ (2 ≤ n → t.sAttested = true) := by
  induction n with
  | zero => exact ⟨s, .init, hs, hpc, by omega, by omega⟩
  | succ n ih =>
      obtain ⟨u, hreach, hu, hupc, hslot, hattested⟩ := ih (by omega)
      obtain ⟨t, hround, ht, htpc, htslot, htattested⟩ := hu.round box hupc (by omega)
      refine ⟨t, hreach.trans hround, ht, htpc, fun _ ↦ htslot, fun h2 ↦ htattested ?_⟩
      exact .inl (hslot (by omega))

theorem Adrift.ask (hs : Adrift s) (hpc : s.pc = .head) :
    step box s (.ask none) = some { s with pc := .asked } := by
  obtain ⟨last, hstep⟩ := hs.step_eq box (a := .ask none)
  rw [hstep]
  simp only [ownStep, hpc, askStep, Option.bind_none, ite_self]

theorem Adrift.skip (hs : Adrift s) (hpc : s.pc = .asked) (reading : SensorReading) :
    step box s (.sample reading false false 0) = some { s with pc := .waiting 0 } := by
  obtain ⟨last, hstep⟩ := hs.step_eq box (a := .sample reading false false 0)
  rw [hstep]
  simp [ownStep, hpc, sampleStep]

variable (box) in
/-- A pass through the loop in which confirmations arrive. -/
theorem Adrift.cycle (hs : Adrift s) (hpc : s.pc = .head) (reading : SensorReading) :
    ∃ t, Reachable (step box) s t ∧ Adrift t ∧ t.pc = .head ∧ t.sAttested = true := by
  have hasked := hs.goto .asked
  have hwaiting := hs.goto (.waiting 0)
  have hstart : Reachable (step box) s { s with pc := .waiting 0 } :=
    .next _ (.next _ .init trivial (hs.ask hpc)) trivial (hasked.skip rfl reading)
  obtain ⟨u, hreach, hu, hupc, -, hattested⟩ :=
    hwaiting.rounds box rfl (le_refl PollsPerCycle)
  obtain ⟨last, hstep⟩ := hu.step_eq box (a := .poll)
  have hagain : step box u .poll = some { u with pc := .head } := by
    rw [hstep]
    simp only [ownStep, hupc, lt_irrefl, if_false]
  refine ⟨_, .next _ (hstart.trans hreach) trivial hagain, hu.goto .head, rfl, ?_⟩
  exact hattested (by decide)

/-- From the head of the loop the device comes to send telemetry. -/
theorem Adrift.offers (hs : Adrift s) (hpc : s.pc = .head)
    (hbox : ∀ key msgId plain, ∃ seed cipher,
      box.encrypt KBoxCtx key msgId seed plain = some cipher) :
    ∃ t, Reachable (step box) s t ∧ ¬ EachAfter (Decryptable t.exchanges) t.comms.trace := by
  let reading : SensorReading := ⟨0, 0, 0, 0, 0, true⟩
  obtain ⟨u, hreach, hu, hupc, hattested⟩ := hs.cycle box hpc reading
  have hasked := hu.goto .asked
  obtain ⟨seed, cipher, hcipher⟩ := hbox u.comms.session.sSessionTxKey u.comms.session.sMsgId
    (readingText reading)
  obtain ⟨last, hstep⟩ := hasked.step_eq box (a := .sample reading true true seed)
  have hsample : step box { u with pc := .asked } (.sample reading true true seed) =
      some (call box { u with pc := .asked } (.publishTelemetry (some reading) seed)
        .reporting) := by
    rw [hstep]
    simp [ownStep, sampleStep, hattested, reading]
  have hencrypt : ∃ out session, cryptoEncrypt box u.comms.session (some reading) true seed =
      (.ok out, session) := by
    rw [cryptoEncrypt_eq hu.ready]
    simp [encryptPlain, hu.ready, hcipher]
  obtain ⟨out, session, hout⟩ := hencrypt
  let p : Publication K :=
    ⟨TopicTelemetry, out.data, false, .telemetry u.comms.session.sSessionTxKey⟩
  let c : Comms.State K :=
    ({ u.comms.emit (.called (.publishTelemetry (some reading) seed)) with session }).setPc
      (.publishing p [])
  have hcall : call box { u with pc := .asked } (.publishTelemetry (some reading) seed)
      .reporting = { u with comms := c, pc := .reporting } := by
    simp [call, startCall, State.emit, hu.sHandle, hout, c, p]
  have hoffer : step box { u with comms := c, pc := .reporting }
      (.comms (.mqtt ⟨[], 0, true⟩)) = some
        { u with
          comms := awaitPublish (offer c p ⟨[], 0, true⟩) p [] c.packets (c.sAckReceived + 1)
          pc := .reporting } := rfl
  rw [hcall] at hsample
  refine ⟨_, .next _ (.next _ (.next _ hreach trivial (hu.ask hupc)) trivial hsample) trivial
    hoffer, fun hall ↦ ?_⟩
  obtain ⟨later, hlater⟩ :=
    awaitPublish_trace (offer c p ⟨[], 0, true⟩) p [] c.packets (c.sAckReceived + 1)
  dsimp only at hall
  rw [← hlater, offer_trace] at hall
  obtain ⟨kx, hkx, -, hmem⟩ := (eachAfter_snoc.mp hall.of_append).2 p _ rfl rfl
  exact hu.unpublished kx hkx ((keyPublished_append (by simp)).mp hmem)

/-- Each reading handed to the broker can be decrypted in every run that enters the
loop after the key packet was published; and a run that enters it otherwise goes on
to publish a reading that cannot, if encryption can succeed. -/
theorem telemetry_decryptable (box : SecretBox K) (zero : K) :
    (∀ s, Steps (step box) KeySent (.boot zero) s →
      EachAfter (Decryptable s.exchanges) s.comms.trace) ∧
    ((∀ key msgId plain, ∃ seed cipher,
        box.encrypt KBoxCtx key msgId seed plain = some cipher) →
      ∀ s a t, Reachable (step box) (.boot zero) s → ¬ KeySent s a → step box s a = some t →
        ∃ u, Reachable (step box) t u ∧ ¬ EachAfter (Decryptable u.exchanges) u.comms.trace) := by
  constructor
  · intro s hs
    have hfollowed : Followed s := hs.invariant_over (K := Keyed)
      (fun s hs ↦ keyed_of_reachable hs.reachable) (followed_boot zero)
      fun _ _ _ hkeyed ih hguard hstep ↦ ih.step hkeyed hguard hstep
    exact hfollowed.decryptable
  · intro hbox s a t hs hguard hstep
    have hkeyed := keyed_of_reachable hs
    cases a with
    | resume =>
        simp only [KeySent, Classical.not_imp] at hguard
        obtain ⟨hpc, hfailed⟩ := hguard
        obtain ⟨kx, hkx, hsub⟩ := hkeyed.sending hpc
        rcases step_cases hstep with ⟨b, c, hb, -⟩ | ⟨last, hidle, hown⟩
        · cases hb
        have hready : s.comms.session.sSessionReady = true := by
          rcases hkeyed.session with ⟨hnone, -⟩ | ⟨_, -, -, hready, -⟩
          · rw [hnone] at hkx
            cases hkx
          · exact hready
        have hserving := hkeyed.serving (by rw [hpc]; trivial)
        have hadrift : Adrift s := ⟨⟨last, hidle⟩, hserving.sHandle, hready,
          fun kx _ hmem ↦ hfailed ((hkeyed.unsent kx hmem).2 hpc)⟩
        have ht : t = { s with pc := .head } := by
          simp only [step, hidle, ownStep, hpc, Option.some.injEq] at hstep
          exact hstep.symm
        subst ht
        exact (hadrift.goto .head).offers rfl hbox
    | _ => exact absurd trivial hguard

/-- From there on, a device that is attested sends its first reading. -/
def firstReading : List (Action ℕ) :=
  [.resume] ++ cycleWith confirmation ++
    [.ask none, .sample sampled true true 1, .comms (.mqtt ⟨[], 0, true⟩)]

/-- Telemetry under the key 7 was handed to the broker. -/
def offersUnder (key : ℕ) (trace : List (Event ℕ)) : Bool :=
  trace.any fun
    | .offered p => decide (p.source = .telemetry key)
    | _ => false

theorem exists_offered {key : ℕ} {trace : List (Event ℕ)} (h : offersUnder key trace = true) :
    ∃ p, .offered p ∈ trace ∧ p.source = .telemetry key := by
  obtain ⟨e, hmem, he⟩ := List.any_eq_true.mp h
  cases e with
  | offered p => exact ⟨p, hmem, of_decide_eq_true he⟩
  | _ => cases he

theorem telemetry_decryptable_first_reading :
    (∃ s, Steps (step SecretBox.tagged) KeySent (.boot 0) s ∧
      (∃ p, .offered p ∈ s.comms.trace ∧ p.source = .telemetry 7) ∧
      EachAfter (Decryptable s.exchanges) s.comms.trace) ∧
    ∃ s t u, Reachable (step SecretBox.tagged) (.boot 0) s ∧
      step SecretBox.tagged s .resume = some t ∧ Reachable (step SecretBox.tagged) t u ∧
      ¬ EachAfter (Decryptable u.exchanges) u.comms.trace := by
  obtain ⟨hdecryptable, hundecryptable⟩ := telemetry_decryptable SecretBox.tagged 0
  constructor
  · let sent (s : State ℕ) : Action ℕ → Bool
      | .resume => decide (s.pc = .sendingKey → s.comms.pc = .idle (.ok ()))
      | _ => true
    have hsent : ∀ s a, sent s a = true → KeySent s a := by
      intro s a h
      cases a with
      | resume => simpa only [KeySent, sent, decide_eq_true_eq] using h
      | _ => trivial
    have hrun : (exec (step SecretBox.tagged) sent (.boot 0)
        (startupWith ⟨[.ack 3 false], 0, true⟩ ++ firstReading)).map
        (fun s ↦ offersUnder 7 s.comms.trace) = some true := by
      decide +kernel
    obtain ⟨s, hexec, hs⟩ := Option.map_eq_some_iff.mp hrun
    have hsteps := (exec_steps hexec).mono hsent
    exact ⟨s, hsteps, exists_offered hs, hdecryptable s hsteps⟩
  · have hrun : (exec (step SecretBox.tagged) (fun _ _ ↦ true) (.boot 0)
        (startupWith ⟨[], -1, false⟩)).map (fun s ↦ (s.pc, s.comms.pc)) =
        some (.sendingKey, .idle (.error (.mqtt (-1)))) := by
      decide +kernel
    obtain ⟨s, hexec, hs⟩ := Option.map_eq_some_iff.mp hrun
    obtain ⟨hpc, hidle⟩ := Prod.ext_iff.mp hs
    replace hpc : s.pc = .sendingKey := hpc
    replace hidle : s.comms.pc = .idle (.error (.mqtt (-1))) := hidle
    have hstep : step SecretBox.tagged s .resume = some { s with pc := .head } := by
      simp [step, hidle, ownStep, hpc]
    have hreach := (exec_steps hexec).reachable
    have hencrypts : ∀ key msgId plain, ∃ seed cipher,
        SecretBox.tagged.encrypt KBoxCtx key msgId seed plain = some cipher :=
      fun _ _ _ ↦ ⟨1, _, rfl⟩
    obtain ⟨u, hu, hbad⟩ := hundecryptable hencrypts s .resume _ hreach
      (by simp [KeySent, hpc, hidle]) hstep
    exact ⟨s, _, u, hreach, hstep, hu, hbad⟩

/-- The key packet cannot be sent, and a reading is published all the same. -/
theorem published_without_key_packet : ¬ ∀ s, Reachable (step SecretBox.tagged) (.boot 0) s →
    EachAfter (Decryptable s.exchanges) s.comms.trace := by
  intro hall
  have hrun : (exec (step SecretBox.tagged) (fun _ _ ↦ true) (.boot 0)
      (startupWith ⟨[], -1, false⟩ ++ firstReading)).map
      (fun s ↦ (offersUnder 7 s.comms.trace, s.comms.trace.all fun
        | .published p _ => decide (p.source ≠ .keyPacket)
        | _ => true)) = some (true, true) := by
    decide +kernel
  obtain ⟨s, hexec, hs⟩ := Option.map_eq_some_iff.mp hrun
  obtain ⟨hoffered, hnone⟩ := Prod.ext_iff.mp hs
  obtain ⟨p, hmem, hsource⟩ := exists_offered hoffered
  obtain ⟨pre, hpre, hbefore⟩ := (hall s (exec_steps hexec).reachable).of_mem hmem
  obtain ⟨kx, -, -, n, hn⟩ := hbefore p 7 rfl hsource
  have hbad := List.all_eq_true.mp hnone _ (hpre.subset hn)
  exact of_decide_eq_true hbad rfl

end PlantNode.Telemetry
