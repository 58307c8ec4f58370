import PlantNode.Protocol.System
import PlantNode.Charter.RoundTrip

/-!
# Authentic commands, each applied at most once

The crypto layer does not remember message ids.  That a replayed command changes
nothing follows from three things together: the session key, which ties a command
to one boot, the plaintext, which ties it to one timestamp, and the latch on the
timestamp, which a boot resets together with the key.
-/

namespace PlantNode.Protocol

open Foundation Crypto Charter Comms

variable {K : Type} {box : SecretBox K} {known : K → Prop} {s t : System K} {a : Action K}

/-! ## What a step does -/

def Entered (box : SecretBox K) (s : System K) (e : Entry K) : Prop :=
  match e.origin with
  | .reading => s.session.sSessionReady = true ∧ e.key = s.session.sSessionTxKey
  | .command threshold now => ∃ seed,
      box.encrypt KBoxCtx e.key e.msgId seed (buildThresholdCommand now threshold) = some e.cipher

structure Quiet (box : SecretBox K) (s t : System K) : Prop where
  ready : t.session.sSessionReady = s.session.sSessionReady
  tx : t.session.sSessionTxKey = s.session.sSessionTxKey
  rx : t.session.sSessionRxKey = s.session.sSessionRxKey
  policy : t.policy = s.policy
  boots : t.boots = s.boots
  exchanges : t.exchanges = s.exchanges
  applied : t.applied = s.applied
  log : ∃ new, t.log = s.log ++ new ∧ ∀ e ∈ new, Entered box s e

structure Applies (box : SecretBox K) (s t : System K) (payload : List UInt8) : Prop where
  command : ∃ out, cryptoDecrypt box s.session (some payload) true = .ok out ∧
    Policy.policyUpdateThreshold s.policy (some out.data) = (.ok (), t.policy)
  session : t.session = s.session
  boots : t.boots = s.boots
  exchanges : t.exchanges = s.exchanges
  log : t.log = s.log
  applied : t.applied = s.applied ++ [s.application t.policy]

theorem Quiet.of_charter (charter : AppState K) : Quiet box s { s with charter := charter } :=
  ⟨rfl, rfl, rfl, rfl, rfl, rfl, rfl, [], by simp, by simp⟩

theorem quiet_encryptReading {reading : SensorReading} {seed : ℕ}
    (h : step box s (.encryptReading reading seed) = some t) : Quiet box s t := by
  cases Option.some.inj h
  rcases hr : cryptoEncrypt box s.session (some reading) true seed with ⟨result, session⟩
  by_cases hready : s.session.sSessionReady = true
  · rw [cryptoEncrypt_eq hready] at hr
    cases result with
    | error e =>
        obtain ⟨-, rfl⟩ := encryptPlain_error hready hr
        exact ⟨rfl, rfl, rfl, rfl, rfl, rfl, rfl, [], rfl, by simp⟩
    | ok out =>
        obtain ⟨cipher, -, -, rfl⟩ := encryptPlain_ok hr
        refine ⟨rfl, rfl, rfl, rfl, rfl, rfl, rfl, _, rfl, fun e he ↦ ?_⟩
        rw [List.mem_singleton.mp he]
        exact ⟨hready, rfl⟩
  · have hnone : cryptoEncrypt box s.session (some reading) true seed =
        (.error .ENOSYS, s.session) := by
      simp [cryptoEncrypt, hready]
    cases hr.symm.trans hnone
    exact ⟨rfl, rfl, rfl, rfl, rfl, rfl, rfl, [], rfl, by simp⟩

theorem sentEntry_entered {threshold now : ℤ} {seed : ℕ} {e : Entry K}
    (he : e ∈ sentEntry s.charter.sessions (sendThresholdUpdate box s.charter threshold now seed).1
      threshold now) : Entered box s e := by
  unfold sentEntry sendThresholdUpdate at he
  cases hsessions : s.charter.sessions with
  | nil => simp [hsessions] at he
  | cons item others =>
      obtain ⟨deviceId, session⟩ := item
      simp only [hsessions] at he
      by_cases hclient : s.charter.mqttClient = true
      · simp only [hclient, Bool.not_true, Bool.false_eq_true, if_false] at he
        cases hraw : encryptCommand box session.txKey session.txMsgId seed
            (buildThresholdCommand now threshold) with
        | error err => simp [hraw] at he
        | ok raw =>
            obtain ⟨cipher, hcipher, -, rfl⟩ := encryptCommand_ok hraw
            simp only [hraw, List.mem_singleton] at he
            subst he
            refine ⟨seed, ?_⟩
            rw [List.drop_left' (length_toLE 8 _)]
            exact hcipher
      · simp [hclient] at he

theorem quiet_send {threshold now : ℤ} {seed : ℕ}
    (h : step box s (.send threshold now seed) = some t) : Quiet box s t := by
  cases Option.some.inj h
  exact ⟨rfl, rfl, rfl, rfl, rfl, rfl, rfl, _, rfl, fun e he ↦ sentEntry_entered he⟩

/-- One step: a boot, a new session, a command that is applied, or nothing that
matters to the device. -/
theorem step_cases (h : step box s a = some t) :
    (∃ zero, a = .boot zero ∧ t = { s with
      session := .boot zero, mailbox := .boot, policy := .boot, boots := s.boots + 1 }) ∨
    (∃ kx, a = .initSession (some kx) ∧ t = { s with
      session := ⟨kx.tx, kx.rx, true, 0⟩, exchanges := s.exchanges ++ [kx] }) ∨
    (∃ valid payload, a = .deliver valid TopicCommands payload ∧ Applies box s t payload) ∨
    Quiet box s t := by
  cases a with
  | boot zero => exact .inl ⟨zero, rfl, (Option.some.inj h).symm⟩
  | initSession kx =>
      cases kx with
      | some kx => exact .inr (.inl ⟨kx, rfl, (Option.some.inj h).symm⟩)
      | none =>
          cases Option.some.inj h
          exact .inr (.inr (.inr ⟨rfl, rfl, rfl, rfl, rfl, by simp, rfl, [], by simp, by simp⟩))
  | encryptReading reading seed => exact .inr (.inr (.inr (quiet_encryptReading h)))
  | deliver valid topic payload =>
      cases Option.some.inj h
      generalize hd : publishCallback box s.session s.mailbox s.policy valid topic payload = d
      rcases publishCallback_cases hd with ⟨hpolicy, hresult⟩ | ⟨out, rfl, hout, hupdate, hresult⟩
      · refine .inr (.inr (.inr ⟨rfl, rfl, rfl, hpolicy, rfl, rfl, ?_, [], by simp, by simp⟩))
        exact if_neg hresult
      · exact .inr (.inr (.inl ⟨valid, payload, rfl, ⟨out, hout, hupdate⟩, rfl, rfl, rfl, rfl,
          if_pos hresult⟩))
  | charterStart =>
      cases Option.some.inj h
      exact .inr (.inr (.inr (.of_charter _)))
  | charterConnect =>
      cases Option.some.inj h
      exact .inr (.inr (.inr (.of_charter _)))
  | keyPacket deviceId payload forged =>
      cases Option.some.inj h
      exact .inr (.inr (.inr (.of_charter _)))
  | send threshold now seed => exact .inr (.inr (.inr (quiet_send h)))

/-! ## Invariants -/

def Recorded (box : SecretBox K) (exchanges : List (KeyExchange K)) (e : Entry K) : Prop :=
  match e.origin with
  | .reading => ∃ kx ∈ exchanges, e.key = kx.tx
  | .command threshold now => ∃ seed,
      box.encrypt KBoxCtx e.key e.msgId seed (buildThresholdCommand now threshold) = some e.cipher

theorem Recorded.mono {exchanges exchanges' : List (KeyExchange K)} {e : Entry K}
    (h : Recorded box exchanges e) (hsub : ∀ kx ∈ exchanges, kx ∈ exchanges') :
    Recorded box exchanges' e := by
  unfold Recorded at h ⊢
  cases horigin : e.origin with
  | reading =>
      simp only [horigin] at h ⊢
      obtain ⟨kx, hkx, heq⟩ := h
      exact ⟨kx, hsub kx hkx, heq⟩
  | command threshold now =>
      simp only [horigin] at h ⊢
      exact h

/-- The keys of the device come from an exchange; no sending key is a receiving key;
each logged message is what its origin says. -/
structure Sound (box : SecretBox K) (known : K → Prop) (s : System K) : Prop where
  current : s.session.sSessionReady = true → ∃ kx ∈ s.exchanges,
    s.session.sSessionTxKey = kx.tx ∧ s.session.sSessionRxKey = kx.rx
  secret : ∀ kx ∈ s.exchanges, ¬known kx.rx
  separate : ∀ kx ∈ s.exchanges, ∀ kx' ∈ s.exchanges, kx.tx ≠ kx'.rx
  log : ∀ e ∈ s.log, Recorded box s.exchanges e

theorem sound_start (zero : K) : Sound box known (.start zero) where
  current h := absurd h (by simp [System.start, Session.boot])
  secret := by simp [System.start]
  separate := by simp [System.start]
  log := by simp [System.start]

theorem Sound.recorded (hs : Sound box known s) {e : Entry K} (he : Entered box s e) :
    Recorded box s.exchanges e := by
  unfold Entered at he
  unfold Recorded
  cases horigin : e.origin with
  | reading =>
      simp only [horigin] at he ⊢
      obtain ⟨kx, hkx, htx, -⟩ := hs.current he.1
      exact ⟨kx, hkx, he.2.trans htx⟩
  | command threshold now =>
      simp only [horigin] at he ⊢
      exact he

theorem sound_step (hs : Sound box known s) (hideal : Ideal box known s a)
    (h : step box s a = some t) : Sound box known t := by
  rcases step_cases h with ⟨zero, rfl, rfl⟩ | ⟨kx, rfl, rfl⟩ | ⟨valid, payload, rfl, happ⟩ | hquiet
  · exact ⟨fun hready ↦ absurd hready (by simp [Session.boot]), hs.secret, hs.separate, hs.log⟩
  · have hfresh : FreshKeys known s.exchanges kx := hideal
    refine ⟨fun _ ↦ ⟨kx, by simp, rfl, rfl⟩, fun kx' hkx' ↦ ?_, fun kx' hkx' kx'' hkx'' ↦ ?_,
      fun e he ↦ (hs.log e he).mono fun kx' hkx' ↦ List.mem_append_left _ hkx'⟩
    · rcases List.mem_append.mp hkx' with hold | hnew
      · exact hs.secret kx' hold
      · rw [List.mem_singleton.mp hnew]
        exact hfresh.secret.2
    · rcases List.mem_append.mp hkx' with hold | hnew <;>
        rcases List.mem_append.mp hkx'' with hold' | hnew'
      · exact hs.separate kx' hold kx'' hold'
      · rw [List.mem_singleton.mp hnew']
        exact (hfresh.unused kx' hold).2.2.1.symm
      · rw [List.mem_singleton.mp hnew]
        exact (hfresh.unused kx'' hold').2.1
      · rw [List.mem_singleton.mp hnew, List.mem_singleton.mp hnew']
        exact hfresh.distinct
  · exact ⟨by rw [happ.session, happ.exchanges]; exact hs.current,
      by rw [happ.exchanges]; exact hs.secret,
      by rw [happ.exchanges]; exact hs.separate, by rw [happ.log, happ.exchanges]; exact hs.log⟩
  · obtain ⟨new, hlog, hnew⟩ := hquiet.log
    refine ⟨by rw [hquiet.ready, hquiet.tx, hquiet.rx, hquiet.exchanges]; exact hs.current,
      by rw [hquiet.exchanges]; exact hs.secret, by rw [hquiet.exchanges]; exact hs.separate, ?_⟩
    rw [hlog, hquiet.exchanges]
    intro e he
    rcases List.mem_append.mp he with hold | hadded
    · exact hs.log e hold
    · exact hs.recorded (hnew e hadded)

/-- The command that an entry of the log records is the one applied. -/
def Entry.AppliedAs (e : Entry K) (x : Application K) : Prop :=
  e.key = x.key ∧ e.origin = .command x.threshold x.timestamp

/-- What the policy compartment applies was sent under the current receiving key. -/
theorem Applies.authentic (hbox : box.Lawful) (hs : Sound box known s) {payload : List UInt8}
    (hideal : Unforged box known s payload) (happ : Applies box s t payload) :
    s.session.sSessionReady = true ∧
      s.policy.sLastCommandTimestamp < t.policy.sLastCommandTimestamp ∧
      ∃ e ∈ s.log, e.AppliedAs (s.application t.policy) := by
  obtain ⟨out, hout, hupdate⟩ := happ.command
  obtain ⟨hready, hdecrypt, hlen⟩ := cryptoDecrypt_ok hout
  obtain ⟨kx, hkx, -, hrx⟩ := hs.current hready
  obtain ⟨t', h', hparse, hnew, hpolicy⟩ := Policy.policyUpdateThreshold_ok hupdate
  rcases hideal hready (by rw [hdecrypt]; rfl) with hknown | ⟨e, he, hkey, hmsgId, hcipher⟩
  · exact absurd (hrx ▸ hknown) (hs.secret kx hkx)
  have hrecorded := hs.log e he
  unfold Recorded at hrecorded
  refine ⟨hready, by rw [hpolicy]; exact hnew, e, he, hkey, ?_⟩
  cases horigin : e.origin with
  | reading =>
      simp only [horigin] at hrecorded
      obtain ⟨kx', hkx', htx⟩ := hrecorded
      exact absurd (htx.symm.trans (hkey.trans hrx)) (hs.separate kx' hkx' kx hkx)
  | command threshold now =>
      simp only [horigin] at hrecorded
      obtain ⟨seed, hencrypt⟩ := hrecorded
      have hundo := hbox.undoes hencrypt
      rw [hkey, hmsgId, hcipher] at hundo
      have hbytes : out.bytes = buildThresholdCommand now threshold :=
        Option.some.inj (hdecrypt.symm.trans hundo)
      have hdata : out.data = buildThresholdCommand now threshold := by
        rw [Output.data, hlen, ← hcipher, hbox.adds hencrypt, Nat.add_sub_cancel, hbytes,
          List.take_length]
      rw [hdata] at hparse
      obtain ⟨rfl, rfl⟩ := parseCommand_build hparse
      rw [hpolicy]
      rfl

/-- What the log of applications says about the boots. -/
structure Once (s : System K) : Prop where
  keys : ∀ x ∈ s.applied, ∃ kx ∈ s.exchanges, x.key = kx.rx
  boots : ∀ x ∈ s.applied, x.boot ≤ s.boots
  latched : ∀ x ∈ s.applied, x.boot = s.boots → x.timestamp ≤ s.policy.sLastCommandTimestamp
  thisBoot : s.session.sSessionReady = true → ∀ x ∈ s.applied,
    x.key = s.session.sSessionRxKey → x.boot = s.boots
  increasing : s.applied.Pairwise fun x y ↦ x.boot = y.boot → x.timestamp < y.timestamp
  sameBoot : s.applied.Pairwise fun x y ↦ x.key = y.key → x.boot = y.boot

theorem once_start (zero : K) : Once (.start zero) := by
  constructor <;> simp [System.start]

theorem once_step (hbox : box.Lawful) (hs : Sound box known s) (ho : Once s)
    (hideal : Ideal box known s a) (h : step box s a = some t) : Once t := by
  rcases step_cases h with ⟨zero, rfl, rfl⟩ | ⟨kx, rfl, rfl⟩ | ⟨valid, payload, rfl, happ⟩ | hquiet
  · refine ⟨ho.keys, fun x hx ↦ (ho.boots x hx).trans (Nat.le_succ _), fun x hx heq ↦ ?_,
      fun hready ↦ absurd hready (by simp [Session.boot]), ho.increasing, ho.sameBoot⟩
    have := ho.boots x hx
    exact absurd heq (by simp only; omega)
  · have hfresh : FreshKeys known s.exchanges kx := hideal
    refine ⟨fun x hx ↦ ?_, ho.boots, ho.latched, fun _ x hx hkey ↦ ?_, ho.increasing, ho.sameBoot⟩
    · obtain ⟨old, hold, heq⟩ := ho.keys x hx
      exact ⟨old, List.mem_append_left _ hold, heq⟩
    · obtain ⟨old, hold, heq⟩ := ho.keys x hx
      exact absurd (hkey.symm.trans heq) (hfresh.unused old hold).2.2.2
  · obtain ⟨hready, hnew, -⟩ := happ.authentic hbox hs hideal
    obtain ⟨kx, hkx, -, hrx⟩ := hs.current hready
    have hmem : ∀ x ∈ t.applied, x ∈ s.applied ∨ x = s.application t.policy := by
      simp [happ.applied]
    have hold : ∀ x ∈ s.applied, x.boot = s.boots → x.timestamp < t.policy.sLastCommandTimestamp :=
      fun x hx hboot ↦ (ho.latched x hx hboot).trans_lt hnew
    refine ⟨fun x hx ↦ ?_, fun x hx ↦ ?_, fun x hx hboot ↦ ?_, fun _ x hx hkey ↦ ?_, ?_, ?_⟩
    · rw [happ.exchanges]
      rcases hmem x hx with hx | rfl
      · exact ho.keys x hx
      · exact ⟨kx, hkx, hrx⟩
    · rw [happ.boots]
      rcases hmem x hx with hx | rfl
      · exact ho.boots x hx
      · exact le_rfl
    · rw [happ.boots] at hboot
      rcases hmem x hx with hx | rfl
      · exact (hold x hx hboot).le
      · exact le_rfl
    · rw [happ.session] at hkey
      rw [happ.boots]
      rcases hmem x hx with hx | rfl
      · exact ho.thisBoot hready x hx hkey
      · rfl
    · rw [happ.applied, List.pairwise_append]
      refine ⟨ho.increasing, by simp, fun x hx y hy hboot ↦ ?_⟩
      rw [List.mem_singleton.mp hy] at hboot ⊢
      exact hold x hx hboot
    · rw [happ.applied, List.pairwise_append]
      refine ⟨ho.sameBoot, by simp, fun x hx y hy hkey ↦ ?_⟩
      rw [List.mem_singleton.mp hy] at hkey ⊢
      exact ho.thisBoot hready x hx hkey
  · refine ⟨?_, ?_, ?_, ?_, ?_, ?_⟩
    · rw [hquiet.applied, hquiet.exchanges]
      exact ho.keys
    · rw [hquiet.applied, hquiet.boots]
      exact ho.boots
    · rw [hquiet.applied, hquiet.boots, hquiet.policy]
      exact ho.latched
    · rw [hquiet.ready, hquiet.applied, hquiet.rx, hquiet.boots]
      exact ho.thisBoot
    · rw [hquiet.applied]
      exact ho.increasing
    · rw [hquiet.applied]
      exact ho.sameBoot

/-! ## Runs -/

theorem sound_and_once (hbox : box.Lawful) {zero : K}
    (h : Steps (step box) (Ideal box known) (.start zero) s) : Sound box known s ∧ Once s :=
  h.invariant (I := fun s ↦ Sound box known s ∧ Once s) ⟨sound_start zero, once_start zero⟩
    fun _ _ _ hs hideal hstep ↦
      ⟨sound_step hs.1 hideal hstep, once_step hbox hs.1 hs.2 hideal hstep⟩

theorem Once.lt_irrefl (ho : Once s) {e : Entry K} {i j : ℕ} {x y : Application K}
    (hi : s.applied[i]? = some x) (hj : s.applied[j]? = some y) (hx : e.AppliedAs x)
    (hy : e.AppliedAs y) : ¬i < j := by
  intro hij
  have hboot := pairwise_getElem? ho.sameBoot hij hi hj (hx.1.symm.trans hy.1)
  have hlt := pairwise_getElem? ho.increasing hij hi hj hboot
  have horigin := hx.2.symm.trans hy.2
  have htimestamp : (x.timestamp : ℤ) = y.timestamp := (Origin.command.inj horigin).2
  exact absurd hlt (by omega)

/-- What the device can be made to do in `s`.  A step that changes the policy and is no
boot applies a command that the charter sent under the receiving key of the device; no
command that was sent was applied twice; the timestamps applied in one boot
increase. -/
structure Authentic (box : SecretBox K) (known : K → Prop) (s : System K) : Prop where
  command : ∀ a t, Ideal box known s a → step box s a = some t →
    (∃ zero, a = .boot zero ∧ t.policy = .boot ∧ t.applied = s.applied) ∨
      (t.policy = s.policy ∧ t.applied = s.applied) ∨
        (s.session.sSessionReady = true ∧ t.applied = s.applied ++ [s.application t.policy] ∧
          ∃ e ∈ s.log, e.AppliedAs (s.application t.policy))
  once : ∀ e ∈ s.log, ∀ (i j : ℕ) (x y : Application K), s.applied[i]? = some x →
    s.applied[j]? = some y → e.AppliedAs x → e.AppliedAs y → i = j
  increasing : s.applied.Pairwise fun x y ↦ x.boot = y.boot → x.timestamp < y.timestamp

/-- In every run, whatever the network does. -/
theorem commands_authentic_once (hbox : box.Lawful) {zero : K}
    (h : Steps (step box) (Ideal box known) (.start zero) s) : Authentic box known s := by
  obtain ⟨hs, ho⟩ := sound_and_once hbox h
  refine ⟨fun a t hideal hstep ↦ ?_, fun e _ i j x y hi hj hx hy ↦ ?_, ho.increasing⟩
  · rcases step_cases hstep with ⟨zero, rfl, rfl⟩ | ⟨kx, rfl, rfl⟩ | ⟨valid, payload, rfl, happ⟩ |
      hquiet
    · exact .inl ⟨zero, rfl, rfl, rfl⟩
    · exact .inr (.inl ⟨rfl, rfl⟩)
    · obtain ⟨hready, -, hentry⟩ := happ.authentic hbox hs hideal
      exact .inr (.inr ⟨hready, happ.applied, hentry⟩)
    · exact .inr (.inl ⟨hquiet.policy, hquiet.applied⟩)
  · have hij := ho.lt_irrefl hi hj hx hy
    have hji := ho.lt_irrefl hj hi hy hx
    omega

/-- A test that implies `Ideal` where the network knows the keys below 10. -/
def idealTest (s : System ℕ) : Action ℕ → Bool
  | .initSession (some kx) => decide (kx.tx ≠ kx.rx ∧ 10 ≤ kx.tx ∧ 10 ≤ kx.rx) &&
      s.exchanges.all fun old ↦ decide (kx.tx ≠ old.tx ∧ kx.tx ≠ old.rx ∧ kx.rx ≠ old.tx ∧
        kx.rx ≠ old.rx)
  | .deliver _ _ payload => !(SecretBox.tagged.decrypt KBoxCtx s.session.sSessionRxKey
        (ofLE (payload.take 8)) (payload.drop 8)).isSome ||
      s.log.any fun e ↦ decide (e.key = s.session.sSessionRxKey ∧
        e.msgId = ofLE (payload.take 8) ∧ e.cipher = payload.drop 8)
  | _ => true

theorem ideal_of_test (s : System ℕ) (a : Action ℕ) (h : idealTest s a = true) :
    Ideal .tagged (· < 10) s a := by
  cases a with
  | initSession kx =>
      cases kx with
      | none => trivial
      | some kx =>
          simp only [idealTest, Bool.and_eq_true, decide_eq_true_eq, List.all_eq_true] at h
          obtain ⟨⟨hdistinct, htx, hrx⟩, hunused⟩ := h
          exact ⟨hdistinct, ⟨Nat.not_lt.mpr htx, Nat.not_lt.mpr hrx⟩, hunused⟩
  | deliver valid topic payload =>
      intro _ hsome
      simp only [idealTest, hsome, Bool.not_true, Bool.false_or, List.any_eq_true,
        decide_eq_true_eq] at h
      exact .inr h
  | _ => trivial

/-- One command, delivered twice in its boot and once more after the next. -/
theorem commands_authentic_once_replayed :
    ∃ s, s.applied = [⟨0, 12, 1700000000, 500⟩] ∧ s.boots = 1 ∧
      Authentic .tagged (· < 10) (s : System ℕ) := by
  have hrun : (exec (step .tagged) idealTest (.start 0)
      [.initSession (some ⟨11, 12, List.replicate 48 1⟩), .charterConnect,
        .keyPacket (ascii "plantnode-001") (List.replicate 48 1) none,
        .send 500 1700000000 1,
        .deliver true TopicCommands (toLE 8 0 ++ (toLE 12 12 ++ toLE 12 0 ++
          toLE 12 (ofLE KBoxCtx) ++ buildThresholdCommand 1700000000 500)),
        .deliver true TopicCommands (toLE 8 0 ++ (toLE 12 12 ++ toLE 12 0 ++
          toLE 12 (ofLE KBoxCtx) ++ buildThresholdCommand 1700000000 500)),
        .boot 0, .initSession (some ⟨13, 14, List.replicate 48 2⟩),
        .deliver true TopicCommands (toLE 8 0 ++ (toLE 12 12 ++ toLE 12 0 ++
          toLE 12 (ofLE KBoxCtx) ++ buildThresholdCommand 1700000000 500))]).map
      (fun s ↦ (s.applied, s.boots)) = some ([⟨0, 12, 1700000000, 500⟩], 1) := by
    decide
  obtain ⟨s, hexec, hs⟩ := Option.map_eq_some_iff.mp hrun
  exact ⟨s, congrArg Prod.fst hs, congrArg Prod.snd hs,
    commands_authentic_once SecretBox.tagged_lawful ((exec_steps hexec).mono ideal_of_test)⟩

end PlantNode.Protocol
