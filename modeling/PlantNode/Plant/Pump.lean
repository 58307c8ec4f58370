import PlantNode.Plant.Refinement

/-!
# Who turns the pump on

The pump runs for a reading below the threshold in force, which is the one of the last
command applied since the boot.  With the authenticity of commands, the network alone can
neither raise the threshold nor keep it.
-/

namespace PlantNode.Plant

open Foundation Crypto Charter Comms Irrigation Protocol Charter.Watering

variable {K : Type} {config : Config K} {py : Python} {known : K → Prop}

/-- The threshold after the commands `applied`, in boot number `boot`. -/
def inForce (boot : ℕ) (applied : List (Application K)) : ℕ :=
  ((applied.filter fun x ↦ x.boot = boot).getLast?.map Application.threshold).getD
    Policy.State.boot.sMoistureLow

/-- What the pump driver and the display are told for one activation. -/
def pulseCalls : List PumpCall :=
  [.display true, .on, .wait 2500, .off, .display false]

/-! ## Commands -/

section Commands

variable {box : SecretBox K} {s t : System K} {a : Protocol.Action K}

/-- The policy holds what the applied commands say, and the charter sent them. -/
structure Backed (s : System K) : Prop where
  force : s.policy.sMoistureLow = inForce s.boots s.applied
  entries : ∀ x ∈ s.applied, ∃ e ∈ s.log, e.AppliedAs x

theorem inForce_concat (applied : List (Application K)) (x : Application K) :
    inForce x.boot (applied ++ [x]) = x.threshold := by
  simp [inForce]

theorem inForce_new {boot : ℕ} {applied : List (Application K)}
    (h : ∀ x ∈ applied, x.boot < boot) : inForce boot applied = Policy.State.boot.sMoistureLow := by
  have hnone : applied.filter (fun x ↦ x.boot = boot) = [] := by
    refine List.filter_eq_nil_iff.mpr fun x hx heq ↦ ?_
    exact absurd (of_decide_eq_true heq) (h x hx).ne
  simp [inForce, hnone]

theorem backed_start (zero : K) : Backed (.start zero) := by
  constructor <;> simp [System.start, inForce]

theorem Backed.step (hbox : box.Lawful) (hb : Backed s) (hs : Sound box known s) (ho : Once s)
    (hideal : Protocol.Ideal box known s a) (h : Protocol.step box s a = some t) : Backed t := by
  rcases step_cases h with ⟨zero, rfl, rfl⟩ | ⟨kx, rfl, rfl⟩ | ⟨valid, payload, rfl, happ⟩ | hquiet
  · refine ⟨(inForce_new fun x hx ↦ ?_).symm, hb.entries⟩
    exact Nat.lt_succ_of_le (ho.boots x hx)
  · exact ⟨hb.force, hb.entries⟩
  · obtain ⟨-, -, hentry⟩ := happ.authentic hbox hs hideal
    constructor
    · rw [happ.applied, happ.boots]
      exact (inForce_concat s.applied (s.application t.policy)).symm
    · intro x hx
      rw [happ.log]
      rw [happ.applied] at hx
      rcases List.mem_append.mp hx with hold | hnew
      · exact hb.entries x hold
      · rw [List.mem_singleton.mp hnew]
        exact hentry
  · obtain ⟨new, hlog, -⟩ := hquiet.log
    constructor
    · rw [hquiet.policy, hquiet.boots, hquiet.applied]
      exact hb.force
    · intro x hx
      rw [hquiet.applied] at hx
      obtain ⟨e, he, happlied⟩ := hb.entries x hx
      exact ⟨e, hlog ▸ List.mem_append_left new he, happlied⟩

theorem backed (hbox : box.Lawful) {zero : K}
    (h : Steps (Protocol.step box) (Protocol.Ideal box known) (.start zero) s) : Backed s :=
  h.invariant_over (fun _ ↦ sound_and_once hbox) (backed_start zero)
    fun _ _ _ hk hb hideal hstep ↦ hb.step hbox hk.1 hk.2 hideal hstep

end Commands

/-! ## The pump -/

variable {s t : State K} {a : Action K}

/-- The activation that is not recorded yet. -/
def pending : Pc → ℕ
  | .evaluated .PumpActivation _ => 1
  | _ => 0

/-- The runs of the pump, and what the threads of this boot know of them. -/
structure Pulses (s : State K) : Prop where
  boots : ∀ x ∈ s.pulses, x.boot ≤ s.boots
  dry : ∀ x ∈ s.pulses, x.moistureRaw.toNat < x.threshold ∧
    x.applied <+: s.applied ∧ x.threshold = inForce x.boot x.applied
  calls : s.irrigation.pump =
    ((s.pulses.filter fun x ↦ x.boot = s.boots).map fun _ ↦ pulseCalls).flatten
  recorded : (s.pulses.filter fun x ↦ x.boot = s.boots).length =
    s.irrigation.recorded.length + pending s.irrigation.pc

theorem pulses_start (zero : K) : Pulses (.start zero) := by
  constructor <;> simp [State.start, Irrigation.State.boot, pending]

/-- A step that leaves the pump and the irrigation thread alone keeps what is known. -/
theorem Pulses.of_eq (hp : Pulses s) (hpulses : t.pulses = s.pulses) (hboots : t.boots = s.boots)
    (happlied : s.applied <+: t.applied) (hpump : t.irrigation.pump = s.irrigation.pump)
    (hrecorded : t.irrigation.recorded = s.irrigation.recorded)
    (hpc : t.irrigation.pc = s.irrigation.pc) : Pulses t := by
  refine ⟨?_, ?_, ?_, ?_⟩
  · rw [hpulses, hboots]
    exact hp.boots
  · rw [hpulses]
    intro x hx
    obtain ⟨hdry, hpast, hforce⟩ := hp.dry x hx
    exact ⟨hdry, hpast.trans happlied, hforce⟩
  · rw [hpump, hpulses, hboots]
    exact hp.calls
  · rw [hrecorded, hpc, hpulses, hboots]
    exact hp.recorded

/-- A step of the irrigation thread evaluates a reading, records the outcome, or does
neither. -/
theorem irrigation_cases {i j : Irrigation.State} {b : Irrigation.Action}
    (h : Irrigation.step i b = some j) :
    (∃ moistureRaw tv, b = .evaluate ∧ i.pc = .timed moistureRaw tv ∧
      j.pc = .evaluated (policyEvaluate i.policy moistureRaw (timestampOf tv)).1 tv ∧
      j.pump = i.pump ++ (policyEvaluate i.policy moistureRaw (timestampOf tv)).2 ∧
      j.recorded = i.recorded) ∨
    (b = .record ∧ (∃ tv, i.pc = .evaluated .PumpActivation tv ∧
      j.recorded = i.recorded ++ [tv]) ∧ j.pc = .head ∧ j.pump = i.pump) ∨
    (b ≠ .evaluate ∧ j.recorded = i.recorded ∧ pending j.pc = pending i.pc ∧ j.pump = i.pump) := by
  cases b with
  | sense reading =>
      simp only [Irrigation.step] at h
      split at h <;> cases h
      · exact .inr (.inr ⟨by simp, rfl, rfl, rfl⟩)
      · rename_i hpc
        exact .inr (.inr ⟨by simp, rfl, by simp [hpc, pending], rfl⟩)
  | clock tv =>
      simp only [Irrigation.step] at h
      split at h <;> cases h
      rename_i hpc
      exact .inr (.inr ⟨by simp, rfl, by simp [hpc, pending], rfl⟩)
  | evaluate =>
      simp only [Irrigation.step] at h
      split at h <;> cases h
      rename_i moistureRaw tv hpc
      exact .inl ⟨moistureRaw, tv, rfl, hpc, rfl, rfl, rfl⟩
  | record =>
      simp only [Irrigation.step] at h
      split at h <;> cases h
      · rename_i tv hpc
        exact .inr (.inl ⟨rfl, ⟨tv, hpc, rfl⟩, rfl, rfl⟩)
      · rename_i hpc
        exact .inr (.inr ⟨by simp, rfl, by simp [hpc, pending], rfl⟩)
  | update packet =>
      cases h
      exact .inr (.inr ⟨by simp, rfl, rfl, rfl⟩)
  | get =>
      cases h
      exact .inr (.inr ⟨by simp, rfl, rfl, rfl⟩)

theorem Pulses.irrigate (hp : Pulses s) (hforce : s.irrigation.policy.sMoistureLow =
      inForce s.boots s.applied) {b : Irrigation.Action} {j : Irrigation.State}
    (h : Irrigation.step s.irrigation b = some j) :
    Pulses { s with irrigation := j, pulses := s.pulses ++ pulseOf s b } := by
  rcases irrigation_cases h with ⟨moistureRaw, tv, rfl, hpc, hnext, hpump, hrecorded⟩ |
    ⟨rfl, ⟨tv, hpc, hrecorded⟩, hnext, hpump⟩ | ⟨hother, hrecorded, hnext, hpump⟩
  · by_cases hdry : moistureRaw.toNat < s.irrigation.policy.sMoistureLow
    · have houtcome : policyEvaluate s.irrigation.policy moistureRaw (timestampOf tv) =
          (.PumpActivation, pulseCalls) := by
        rw [policyEvaluate, if_pos hdry, pulseCalls]
      have hpulse : pulseOf s .evaluate =
          [⟨s.boots, moistureRaw, s.irrigation.policy.sMoistureLow, s.applied⟩] := by
        simp only [pulseOf, hpc, houtcome]
      rw [houtcome] at hnext hpump
      rw [hpulse]
      refine ⟨fun x hx ↦ ?_, fun x hx ↦ ?_, ?_, ?_⟩
      · rcases List.mem_append.mp hx with hold | hnew
        · exact hp.boots x hold
        · rw [List.mem_singleton.mp hnew]
      · rcases List.mem_append.mp hx with hold | hnew
        · exact hp.dry x hold
        · rw [List.mem_singleton.mp hnew]
          exact ⟨hdry, List.prefix_rfl, hforce⟩
      · simp [hpump, hp.calls]
      · have hcount := hp.recorded
        simp only [hpc, pending, Nat.add_zero] at hcount
        simp [hnext, hrecorded, hcount, pending]
    · have houtcome : policyEvaluate s.irrigation.policy moistureRaw (timestampOf tv) =
          (.NoAction, []) := by
        rw [policyEvaluate, if_neg hdry]
      have hpulse : pulseOf s .evaluate = [] := by
        simp only [pulseOf, hpc, houtcome]
      rw [houtcome] at hnext hpump
      rw [hpulse, List.append_nil]
      refine ⟨hp.boots, hp.dry, ?_, ?_⟩
      · simpa [hpump] using hp.calls
      · have hcount := hp.recorded
        simp only [hpc, pending, Nat.add_zero] at hcount
        simp [hnext, hrecorded, hcount, pending]
  · simp only [pulseOf, List.append_nil]
    refine ⟨hp.boots, hp.dry, ?_, ?_⟩
    · rw [hpump]
      exact hp.calls
    · have hcount := hp.recorded
      simp only [hpc, pending] at hcount
      simp [hnext, hrecorded, hcount, pending]
  · have hpulse : pulseOf s b = [] := by
      cases b with
      | evaluate => exact absurd rfl hother
      | _ => rfl
    rw [hpulse, List.append_nil]
    refine ⟨hp.boots, hp.dry, ?_, ?_⟩
    · rw [hpump]
      exact hp.calls
    · rw [hrecorded, hnext]
      exact hp.recorded

theorem Pulses.step (hp : Pulses s) (hb : Backed s.system) (h : step config py s a = some t) :
    Pulses t := by
  cases a with
  | boot zero =>
      cases Option.some.inj h
      have hnone : s.pulses.filter (fun x ↦ x.boot = s.boots + 1) = [] := by
        refine List.filter_eq_nil_iff.mpr fun x hx heq ↦ ?_
        have hold := hp.boots x hx
        have heq := of_decide_eq_true heq
        omega
      refine ⟨fun x hx ↦ (hp.boots x hx).trans (Nat.le_succ _), hp.dry, ?_, ?_⟩
      · simp [hnone, Irrigation.State.boot]
      · simp [hnone, Irrigation.State.boot, pending]
  | irrigate b =>
      obtain ⟨-, j, hj, rfl⟩ := irrigate_ok h
      exact hp.irrigate hb.force hj
  | deliver valid topic payload =>
      cases Option.some.inj h
      refine hp.of_eq rfl rfl ?_ rfl rfl rfl
      dsimp only
      split
      · exact List.prefix_append _ _
      · exact List.prefix_rfl
  | _ =>
      cases Option.some.inj h
      exact hp.of_eq rfl rfl List.prefix_rfl rfl rfl rfl

theorem mem_pulseOf {b : Irrigation.Action} {x : Pulse K} (hx : x ∈ pulseOf s b) :
    x.boot = s.boots ∧ x.applied = s.applied := by
  unfold pulseOf at hx
  split at hx
  · split at hx
    · split at hx
      · cases List.mem_singleton.mp hx
        exact ⟨rfl, rfl⟩
      · cases hx
    · cases hx
  · cases hx

/-- A run of the pump that begins in a step has the commands applied before it. -/
theorem step_pulses (h : step config py s a = some t) : ∃ new, t.pulses = s.pulses ++ new ∧
    ∀ x ∈ new, x.boot = s.boots ∧ x.applied = s.applied := by
  cases a with
  | irrigate b =>
      obtain ⟨-, j, -, rfl⟩ := irrigate_ok h
      exact ⟨pulseOf s b, rfl, fun x ↦ mem_pulseOf⟩
  | _ =>
      cases Option.some.inj h
      exact ⟨[], (List.append_nil _).symm, by simp⟩

/-- What the operator and the sensor decide.  Each run of the pump was for a reading below
the threshold that the commands applied when it began had left in force in that boot, the
charter sent each of these commands, and the calls of the pump driver are whole pulses, one for
each activation that was recorded or is about to be. -/
structure Commanded (s : State K) : Prop where
  dry : ∀ x ∈ s.pulses, x.moistureRaw.toNat < x.threshold ∧
    x.applied <+: s.applied ∧ x.threshold = inForce x.boot x.applied
  begun : ∀ (config : Config K) py a t, step config py s a = some t → ∃ new,
    t.pulses = s.pulses ++ new ∧ ∀ x ∈ new, x.boot = s.boots ∧ x.applied = s.applied
  sent : ∀ x ∈ s.applied, ∃ e ∈ s.log, e.AppliedAs x
  calls : ∃ n, s.irrigation.pump = (List.replicate n pulseCalls).flatten ∧
    n = s.irrigation.recorded.length + pending s.irrigation.pc

/-- In every run, whatever the network does. -/
theorem pump_commanded (hbox : config.box.Lawful) {zero : K}
    (h : Steps (step config py) (Ideal config known) (.start zero) s) : Commanded s := by
  have hbacked : ∀ u, Steps (step config py) (Ideal config known) (.start zero) u →
      Backed u.system := fun _ hu ↦ backed hbox (steps_system hu)
  have hp : Pulses s := h.invariant_over hbacked (pulses_start zero)
    fun _ _ _ hb hp _ hstep ↦ hp.step hb hstep
  refine ⟨hp.dry, fun _ _ _ _ ↦ step_pulses, (hbacked s h).entries, _, ?_, hp.recorded⟩
  rw [hp.calls, List.map_const']

/-- A test that implies `Ideal` where the network knows the keys below 10. -/
def idealTest (s : State ℕ) : Action ℕ → Bool
  | .initSession kx => Protocol.idealTest s.system (.initSession kx)
  | .deliver valid topic payload => Protocol.idealTest s.system (.deliver valid topic payload)
  | .message msg _ => s.monitor.sessions.head?.all fun item ↦
      !(SecretBox.tagged.decrypt defaultContext item.2.rxKey (rawMsgId msg.payload)
          (msg.payload.drop 8)).isSome ||
        s.log.any fun e ↦ decide (e.key = item.2.rxKey ∧ e.msgId = rawMsgId msg.payload ∧
          e.cipher = msg.payload.drop 8)
  | _ => true

theorem ideal_of_idealTest {config : Config ℕ} (hbox : config.box = .tagged) (s : State ℕ)
    (a : Action ℕ) (h : idealTest s a = true) : Ideal config (· < 10) s a := by
  cases a with
  | initSession kx =>
      have hideal := ideal_of_test s.system (.initSession kx) h
      cases kx with
      | none => trivial
      | some kx => exact hideal
  | deliver valid topic payload =>
      have hideal := ideal_of_test s.system (.deliver valid topic payload) h
      simp only [Ideal, hbox]
      exact hideal
  | message msg forged =>
      intro item hitem hsome
      rw [hbox] at hsome
      rw [Option.mem_def] at hitem
      simp only [idealTest, hitem, Option.all_some, hsome, Bool.not_true, Bool.false_or,
        List.any_eq_true, decide_eq_true_eq] at h
      exact .inr h
  | _ => trivial

/-- The configuration of the tests. -/
def testConfig : Config ℕ := ⟨.tagged, fun _ ↦ none, id, ascii "plantnode"⟩

/-- A command of the operator, replayed after the next boot, where the threshold is 300
again. -/
theorem pump_commanded_replayed :
    ∃ s, s.pulses = [⟨0, 400, 500, [⟨0, 12, 1700000000, 500⟩]⟩,
        ⟨1, 250, 300, [⟨0, 12, 1700000000, 500⟩]⟩] ∧ Commanded (s : State ℕ) := by
  have hrun : (exec (step testConfig .integers) idealTest (.start 0)
      [.initSession (some ⟨11, 12, List.replicate 48 1⟩), .charterConnect,
        .message ⟨ascii "plantnode/keys/plantnode-001", List.replicate 48 1⟩ none,
        .send 500 1700000000 1,
        .deliver true TopicCommands (toLE 8 0 ++ (toLE 12 12 ++ toLE 12 0 ++
          toLE 12 (ofLE KBoxCtx) ++ buildThresholdCommand 1700000000 500)),
        .irrigate (.sense (.ok 400)), .irrigate (.clock none), .irrigate .evaluate,
        .boot 0, .initSession (some ⟨13, 14, List.replicate 48 2⟩),
        .deliver true TopicCommands (toLE 8 0 ++ (toLE 12 12 ++ toLE 12 0 ++
          toLE 12 (ofLE KBoxCtx) ++ buildThresholdCommand 1700000000 500)),
        .irrigate (.sense (.ok 250)), .irrigate (.clock none), .irrigate .evaluate]).map
      (fun s ↦ s.pulses) = some [⟨0, 400, 500, [⟨0, 12, 1700000000, 500⟩]⟩,
        ⟨1, 250, 300, [⟨0, 12, 1700000000, 500⟩]⟩] := by
    decide +kernel
  obtain ⟨s, hexec, hs⟩ := Option.map_eq_some_iff.mp hrun
  exact ⟨s, hs, pump_commanded (by exact SecretBox.tagged_lawful)
    ((exec_steps hexec).mono (ideal_of_idealTest rfl))⟩

end PlantNode.Plant
