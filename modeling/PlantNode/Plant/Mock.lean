import Mathlib.Data.List.Iterate
import PlantNode.Plant.Delivery

/-!
# The moisture readings of the prototype

Both threads read the moisture from `moisture_read_raw_mock`, which hands out one descending
sequence after another from a static variable.  A reading that one thread takes is gone for
the other.
-/

namespace PlantNode.Plant.Mock

open Foundation Crypto Charter Comms Irrigation Protocol Charter.Watering

variable {K : Type}

def KFakeMoistureReset : UInt16 := 900
def KFakeMoistureStep : UInt16 := 60
def KFakeMoistureLow : UInt16 := 300

/-- `sFakeMoisture` after a boot. -/
def initialMoisture : UInt16 := 310

/-- `moisture_read_raw_mock` -/
def moistureReadRawMock (sFakeMoisture : UInt16) (rawOut : Bool) : Except Errno UInt16 × UInt16 :=
  if !rawOut then (.error .EINVAL, sFakeMoisture)
  else (.ok sFakeMoisture,
    if sFakeMoisture < KFakeMoistureLow then KFakeMoistureReset
    else sFakeMoisture - KFakeMoistureStep)

inductive Reader where
  | irrigation
  | telemetry
  deriving DecidableEq, Repr

/-- `handed` records who got which reading since the boot; no step reads it. -/
structure State (K : Type) where
  sFakeMoisture : UInt16
  handed : List (Reader × UInt16)
  plant : Plant.State K

def State.start (zero : K) : State K := ⟨initialMoisture, [], .start zero⟩

/-- The irrigation thread reads the moisture, or the telemetry thread does, and encrypts a reading
or has read in vain; or any other step of the plant. -/
inductive Action (K : Type) where
  | boot (zero : K)
  | sense
  | report (temperatureCx10 : Int16) (humidityRx10 : UInt16) (tv : Option ℤ) (seed : ℕ)
  | waste
  | other (a : Plant.Action K)

/-- What `reader` takes, and what is left. -/
def State.take (s : State K) (reader : Reader) : Except Errno UInt16 × State K :=
  let r := moistureReadRawMock s.sFakeMoisture true
  (r.1, { s with sFakeMoisture := r.2, handed := s.handed ++ [(reader, s.sFakeMoisture)] })

/-- What the plant does in a step. -/
def event (s : State K) : Action K → Option (Plant.Action K)
  | .boot zero => some (.boot zero)
  | .sense => some (.irrigate (.sense (s.take .irrigation).1))
  | .report temperatureCx10 humidityRx10 tv seed =>
      match (s.take .telemetry).1 with
      | .error _ => none
      | .ok moistureRaw => some (.report moistureRaw temperatureCx10 humidityRx10 tv seed)
  | .waste => none
  | .other a =>
      match a with
      | .boot _ | .report _ _ _ _ _ | .irrigate (.sense _) => none
      | _ => some a

/-- The state but for the plant. -/
def after (s : State K) : Action K → State K
  | .boot _ => { s with sFakeMoisture := initialMoisture, handed := [] }
  | .sense => (s.take .irrigation).2
  | .report _ _ _ _ | .waste => (s.take .telemetry).2
  | .other _ => s

def step (config : Config K) (py : Python) (s : State K) (a : Action K) : Option (State K) :=
  match event s a, a with
  | some b, _ => (Plant.step config py s.plant b).map fun plant ↦ { after s a with plant }
  | none, .waste => some (after s a)
  | none, _ => none

def Ideal (config : Config K) (known : K → Prop) (s : State K) (a : Action K) : Prop :=
  ∀ b ∈ event s a, Plant.Ideal config known s.plant b

/-! ## The sequence -/

def next (sFakeMoisture : UInt16) : UInt16 := (moistureReadRawMock sFakeMoisture true).2

/-- The first two readings after a boot, and then the ones that repeat. -/
def readings : List UInt16 :=
  [310, 250, 900, 840, 780, 720, 660, 600, 540, 480, 420, 360, 300, 240]

theorem next_mem : ∀ m ∈ readings, next m ∈ readings := by
  have hall : readings.all (fun m ↦ decide (next m ∈ readings)) = true := by decide
  exact fun m hm ↦ of_decide_eq_true (List.all_eq_true.mp hall m hm)

/-- The subtraction does not wrap round. -/
theorem lowest_le : ∀ m ∈ readings, 240 ≤ m.toNat := by
  have hall : readings.all (fun m ↦ decide (240 ≤ m.toNat)) = true := by decide
  exact fun m hm ↦ of_decide_eq_true (List.all_eq_true.mp hall m hm)

theorem lowest_mem_iterate : ∀ m ∈ readings, 240 ∈ List.iterate next m 14 := by
  have hall : readings.all (fun m ↦ decide (240 ∈ List.iterate next m 14)) = true := by
    decide +kernel
  exact fun m hm ↦ of_decide_eq_true (List.all_eq_true.mp hall m hm)

theorem iterate_mem {m : UInt16} (hm : m ∈ readings) (n : ℕ) : next^[n] m ∈ readings := by
  induction n with
  | zero => exact hm
  | succ n ih =>
      rw [Function.iterate_succ_apply']
      exact next_mem _ ih

/-- The readings of a sequence that `policy_evaluate` finds below the threshold. -/
def low (threshold n : ℕ) (m : UInt16) : List UInt16 :=
  (List.iterate next m n).filter fun m ↦ m.toNat < threshold

theorem low_ne_nil {threshold n : ℕ} {m : UInt16} (hm : m ∈ readings) (hn : 14 ≤ n)
    (hthreshold : 240 < threshold) : low threshold n m ≠ [] := by
  obtain ⟨k, rfl⟩ := Nat.exists_eq_add_of_le hn
  refine List.ne_nil_of_mem (a := 240) (List.mem_filter.mpr ⟨?_, decide_eq_true hthreshold⟩)
  rw [List.iterate_add]
  exact List.mem_append_left _ (lowest_mem_iterate m hm)

/-! ## One step -/

variable {config : Config K} {py : Python} {known : K → Prop} {s t : State K} {a : Action K}

/-- A step of the plant, or a reading that is wasted. -/
theorem step_ok (h : step config py s a = some t) :
    (∃ b, event s a = some b ∧ Plant.step config py s.plant b = some t.plant ∧
      t = { after s a with plant := t.plant }) ∨ (a = .waste ∧ t = after s a) := by
  unfold step at h
  split at h
  · rename_i b hevent
    obtain ⟨plant, hplant, rfl⟩ := Option.map_eq_some_iff.mp h
    exact .inl ⟨b, hevent, hplant, rfl⟩
  · cases h
    exact .inr ⟨rfl, rfl⟩
  · cases h

theorem steps_plant {zero : K}
    (h : Steps (step config py) (Ideal config known) (.start zero) s) :
    Steps (Plant.step config py) (Plant.Ideal config known) (.start zero) s.plant := by
  induction h with
  | init => exact .init
  | next a _ hideal hstep ih =>
      rcases step_ok hstep with ⟨b, hevent, hplant, -⟩ | ⟨rfl, rfl⟩
      · exact .next b ih (hideal b hevent) hplant
      · exact ih

/-! ## Who gets which reading -/

def handedTo (reader : Reader) (handed : List (Reader × UInt16)) : List UInt16 :=
  (handed.filter fun item ↦ item.1 = reader).map Prod.snd

/-- The reading that the irrigation thread has not evaluated. -/
def held : Irrigation.Pc → List UInt16
  | .sensed moistureRaw => [moistureRaw]
  | .timed moistureRaw _ => [moistureRaw]
  | _ => []

/-- The readings for which the pump has run since the boot. -/
def pumped (p : Plant.State K) : List UInt16 :=
  (p.pulses.filter fun x ↦ x.boot = p.boots).map Pulse.moistureRaw

/-- The readings that were encrypted since the boot. -/
def reported (p : Plant.State K) : List UInt16 :=
  (p.reports.filter fun r ↦ r.boot = p.boots).map fun r ↦ r.reading.moistureRaw

theorem handedTo_take (s : State K) (reader taker : Reader) :
    handedTo reader (s.take taker).2.handed =
      handedTo reader s.handed ++ if taker = reader then [s.sFakeMoisture] else [] := by
  simp only [State.take, handedTo, List.filter_append, List.map_append]
  split
  · rename_i heq
    simp [heq]
  · rename_i hne
    simp [hne]

/-- The irrigation thread pumps only for the reading that it holds. -/
theorem pulseOf_held {p : Plant.State K} {b : Irrigation.Action} {j : Irrigation.State}
    (hb : ∀ reading, b ≠ .sense reading) (h : Irrigation.step p.irrigation b = some j) :
    (∀ x ∈ pulseOf p b, x.boot = p.boots) ∧
      ((pulseOf p b).map Pulse.moistureRaw ++ held j.pc).Sublist (held p.irrigation.pc) := by
  cases b with
  | sense reading => exact absurd rfl (hb reading)
  | clock tv =>
      simp only [Irrigation.step] at h
      split at h <;> cases h
      rename_i hpc
      simp [pulseOf, held, hpc]
  | evaluate =>
      simp only [Irrigation.step] at h
      split at h <;> cases h
      rename_i moistureRaw tv hpc
      simp only [pulseOf, hpc, held]
      split <;> simp
  | record =>
      simp only [Irrigation.step] at h
      split at h <;> cases h <;> simp [pulseOf, held]
  | update packet =>
      cases h
      simp [pulseOf]
  | get =>
      cases h
      simp [pulseOf]

/-- No reading is taken, and the pump runs only for the one that is held. -/
structure Keeps (p q : Plant.State K) : Prop where
  boots : q.boots = p.boots
  reports : q.reports = p.reports
  pulses : ∃ new, q.pulses = p.pulses ++ new ∧ (∀ x ∈ new, x.boot = p.boots) ∧
    (new.map Pulse.moistureRaw ++ held q.irrigation.pc).Sublist (held p.irrigation.pc)

/-- Steps of the plant other than those that take a reading, and a boot. -/
theorem keeps_other {p q : Plant.State K} {b : Plant.Action K}
    (h : Plant.step config py p b = some q) (hboot : ∀ zero, b ≠ .boot zero)
    (hsense : ∀ reading, b ≠ .irrigate (.sense reading))
    (hreport : ∀ m temperatureCx10 humidityRx10 tv seed,
      b ≠ .report m temperatureCx10 humidityRx10 tv seed) : Keeps p q := by
  cases b with
  | boot zero => exact absurd rfl (hboot zero)
  | report m temperatureCx10 humidityRx10 tv seed => exact absurd rfl (hreport _ _ _ _ _)
  | irrigate b =>
      obtain ⟨-, j, hj, rfl⟩ := irrigate_ok h
      obtain ⟨hboots, hheld⟩ := pulseOf_held (fun reading heq ↦ hsense reading (by rw [heq])) hj
      exact ⟨rfl, rfl, _, rfl, hboots, hheld⟩
  | _ =>
      cases Option.some.inj h
      exact ⟨rfl, rfl, [], by simp⟩

/-- Both threads take their readings from one sequence, and no reading twice. -/
structure Shares (s : State K) : Prop where
  sequence : s.handed.map Prod.snd = List.iterate next initialMoisture s.handed.length
  current : s.sFakeMoisture = next^[s.handed.length] initialMoisture
  pulses : (pumped s.plant ++ held s.plant.irrigation.pc).Sublist (handedTo .irrigation s.handed)
  reports : (reported s.plant).Sublist (handedTo .telemetry s.handed)
  dry : ∀ x ∈ s.plant.pulses, x.moistureRaw ∈ readings

theorem Shares.mem (hs : Shares s) : s.sFakeMoisture ∈ readings := by
  rw [hs.current]
  exact iterate_mem (by decide) _

theorem Shares.handed_mem (hs : Shares s) {item : Reader × UInt16} (h : item ∈ s.handed) :
    item.2 ∈ readings := by
  have hmem : item.2 ∈ s.handed.map Prod.snd := List.mem_map_of_mem h
  rw [hs.sequence] at hmem
  obtain ⟨k, -, hk⟩ := List.mem_iterate.mp hmem
  rw [hk]
  exact iterate_mem (by decide) k

theorem shares_start (zero : K) : Shares (.start zero) := by
  constructor <;> simp [State.start, Plant.State.start, pumped, reported, held, handedTo,
    Irrigation.State.boot]

/-- A reading is taken, and the plant keeps its pulses and what it has encrypted. -/
theorem Shares.take (hs : Shares s) (reader : Reader) {p : Plant.State K}
    (hpulses : p.pulses = s.plant.pulses) (hboots : p.boots = s.plant.boots)
    (hheld : (held p.irrigation.pc).Sublist (held s.plant.irrigation.pc ++
      if reader = .irrigation then [s.sFakeMoisture] else []))
    (hreports : (reported p).Sublist (reported s.plant ++
      if reader = .telemetry then [s.sFakeMoisture] else [])) :
    Shares { (s.take reader).2 with plant := p } := by
  refine ⟨?_, ?_, ?_, ?_, ?_⟩
  · simp only [State.take, List.map_append, List.map_cons, List.map_nil, List.length_append,
      List.length_cons, List.length_nil, List.iterate_add, hs.sequence, ← hs.current]
    rfl
  · simp only [State.take, List.length_append, List.length_cons, List.length_nil, Nat.zero_add,
      Function.iterate_succ_apply', ← hs.current]
    rfl
  · have hpumped : pumped p = pumped s.plant := by rw [pumped, hpulses, hboots, pumped]
    show (pumped p ++ held p.irrigation.pc).Sublist (handedTo .irrigation (s.take reader).2.handed)
    rw [handedTo_take, hpumped]
    refine (List.Sublist.append_left hheld _).trans ?_
    rw [← List.append_assoc]
    exact hs.pulses.append_right _
  · show (reported p).Sublist (handedTo .telemetry (s.take reader).2.handed)
    rw [handedTo_take]
    exact hreports.trans (hs.reports.append_right _)
  · simp only [hpulses]
    exact hs.dry

theorem Shares.boot (hs : Shares s) (hp : Pulses s.plant) (hf : Fits s.plant) {zero : K}
    {p : Plant.State K} (h : Plant.step config py s.plant (.boot zero) = some p) :
    Shares { after s (.boot zero) with plant := p } := by
  cases Option.some.inj h
  refine ⟨rfl, rfl, ?_, ?_, hs.dry⟩
  · have hnone : s.plant.pulses.filter (fun x ↦ x.boot = s.plant.boots + 1) = [] := by
      rw [List.filter_eq_nil_iff]
      intro x hx heq
      have hle := hp.boots x hx
      have := of_decide_eq_true heq
      omega
    simp [pumped, hnone, held, Irrigation.State.boot]
  · have hnone : s.plant.reports.filter (fun r ↦ r.boot = s.plant.boots + 1) = [] := by
      rw [List.filter_eq_nil_iff]
      intro r hr heq
      have hle := hf.boots r hr
      have := of_decide_eq_true heq
      omega
    simp [reported, hnone]

theorem Shares.sense (hs : Shares s) {p : Plant.State K}
    (h : Plant.step config py s.plant (.irrigate (.sense (s.take .irrigation).1)) = some p) :
    Shares { after s .sense with plant := p } := by
  obtain ⟨-, j, hj, rfl⟩ := irrigate_ok h
  have hpulses : s.plant.pulses ++ pulseOf s.plant (.sense (s.take .irrigation).1) =
      s.plant.pulses := List.append_nil _
  rw [hpulses]
  refine hs.take .irrigation rfl rfl ?_ ?_
  · simp only [State.take, moistureReadRawMock, Irrigation.step] at hj
    split at hj
    · cases hj
      simp
    · cases hj
      rename_i hreading
      cases hreading
      simp [held]
    · cases hj
  · exact List.sublist_append_left _ _

theorem Shares.report (hs : Shares s) {temperatureCx10 : Int16} {humidityRx10 : UInt16}
    {tv : Option ℤ} {seed : ℕ} {p : Plant.State K}
    (h : Plant.step config py s.plant (.report s.sFakeMoisture temperatureCx10 humidityRx10 tv
      seed) = some p) :
    Shares { after s (.report temperatureCx10 humidityRx10 tv seed) with plant := p } := by
  cases Option.some.inj h
  refine hs.take .telemetry rfl rfl (List.sublist_append_left _ _) ?_
  simp only [reported, List.filter_append, List.map_append, if_true]
  refine List.Sublist.append_left ?_ _
  generalize cryptoEncrypt config.box s.plant.session _ true seed = r
  obtain ⟨result, session⟩ := r
  cases result with
  | error e => exact List.nil_sublist _
  | ok out => simp [reportOf, takeReading]

theorem Shares.other (hs : Shares s) {b : Plant.Action K} {p : Plant.State K}
    (h : Plant.step config py s.plant b = some p)
    (hboot : ∀ zero, b ≠ .boot zero) (hsense : ∀ reading, b ≠ .irrigate (.sense reading))
    (hreport : ∀ m temperatureCx10 humidityRx10 tv seed,
      b ≠ .report m temperatureCx10 humidityRx10 tv seed) :
    Shares { s with plant := p } := by
  obtain ⟨hboots, hreports, new, hpulses, hnew, hheld⟩ := keeps_other h hboot hsense hreport
  have hpumped : pumped p = pumped s.plant ++ new.map Pulse.moistureRaw := by
    rw [pumped, hpulses, hboots, List.filter_append, List.map_append, pumped,
      List.filter_eq_self.mpr fun x hx ↦ decide_eq_true (hnew x hx)]
  refine ⟨hs.sequence, hs.current, ?_, ?_, ?_⟩
  · show (pumped p ++ held p.irrigation.pc).Sublist (handedTo .irrigation s.handed)
    rw [hpumped, List.append_assoc]
    exact (hheld.append_left _).trans hs.pulses
  · show (reported p).Sublist (handedTo .telemetry s.handed)
    rw [reported, hreports, hboots]
    exact hs.reports
  · rw [hpulses]
    refine List.forall_mem_append.mpr ⟨hs.dry, fun x hx ↦ ?_⟩
    -- the reading was held, and what is held was handed out
    have hmem : x.moistureRaw ∈ held s.plant.irrigation.pc :=
      hheld.subset (List.mem_append_left _ (List.mem_map_of_mem hx))
    have hmem : x.moistureRaw ∈ handedTo .irrigation s.handed :=
      hs.pulses.subset (List.mem_append_right _ hmem)
    obtain ⟨item, hitem, heq⟩ := List.mem_map.mp hmem
    rw [← heq]
    exact hs.handed_mem (List.mem_of_mem_filter hitem)

theorem Shares.step (hs : Shares s) (hp : Pulses s.plant) (hf : Fits s.plant)
    (h : step config py s a = some t) : Shares t := by
  rcases step_ok h with ⟨b, hevent, hplant, ht⟩ | ⟨rfl, rfl⟩
  · rw [ht]
    cases a with
    | boot zero =>
        cases Option.some.inj hevent
        exact hs.boot hp hf hplant
    | sense =>
        cases Option.some.inj hevent
        exact hs.sense hplant
    | report temperatureCx10 humidityRx10 tv seed =>
        cases Option.some.inj hevent
        exact hs.report hplant
    | waste => cases hevent
    | other b' =>
        have hb : b = b' ∧ (∀ zero, b ≠ .boot zero) ∧ (∀ reading, b ≠ .irrigate (.sense reading)) ∧
            ∀ m temperatureCx10 humidityRx10 tv seed,
              b ≠ .report m temperatureCx10 humidityRx10 tv seed := by
          simp only [event] at hevent
          split at hevent
          · cases hevent
          · cases hevent
          · cases hevent
          · cases hevent
            exact ⟨rfl, by assumption, by assumption, by assumption⟩
        obtain ⟨rfl, hboot, hsense, hreport⟩ := hb
        exact hs.other hplant hboot hsense hreport
  · exact hs.take .telemetry rfl rfl (by simp) (by simp)

/-! ## The loop alone -/

/-- One pass of `irrigation_loop`; `tv` is what `gettimeofday` gives. -/
def pass (tv : Option ℤ) : List (Action K) :=
  [.sense, .other (.irrigate (.clock tv)), .other (.irrigate .evaluate),
    .other (.irrigate .record)]

variable (config py) in
/-- The pump runs if the reading is below the threshold. -/
theorem exec_pass (hhead : s.plant.irrigation.pc = .head) (tv : Option ℤ) :
    ∃ t, exec (step config py) (fun _ _ ↦ true) s (pass tv) = some t ∧
      t.plant.irrigation.pc = .head ∧ t.plant.irrigation.policy = s.plant.irrigation.policy ∧
      t.plant.boots = s.plant.boots ∧ t.plant.applied = s.plant.applied ∧
      t.sFakeMoisture = next s.sFakeMoisture ∧
      t.plant.pulses = s.plant.pulses ++
        (low s.plant.irrigation.policy.sMoistureLow 1 s.sFakeMoisture).map fun m ↦
          ⟨s.plant.boots, m, s.plant.irrigation.policy.sMoistureLow, s.plant.applied⟩ := by
  have hreading : (s.take .irrigation).1 = .ok s.sFakeMoisture := rfl
  by_cases hlow : s.sFakeMoisture.toNat < s.plant.irrigation.policy.sMoistureLow
  · simp only [pass, exec, step, event, hreading, Plant.step, Irrigation.step, hhead, pulseOf,
      policyEvaluate, hlow, if_true, after, Option.map_some, Option.bind_some]
    exact ⟨_, rfl, rfl, rfl, rfl, rfl, rfl, by simp [low, List.iterate, hlow]⟩
  · simp only [pass, exec, step, event, hreading, Plant.step, Irrigation.step, hhead, pulseOf,
      policyEvaluate, hlow, if_false, if_true, after, Option.map_some, Option.bind_some]
    exact ⟨_, rfl, rfl, rfl, rfl, rfl, rfl, by simp [low, List.iterate, hlow]⟩

variable (config py) in
theorem exec_passes (hhead : s.plant.irrigation.pc = .head) (tvs : List (Option ℤ)) :
    ∃ t, exec (step config py) (fun _ _ ↦ true) s (tvs.flatMap pass) = some t ∧
      t.plant.pulses = s.plant.pulses ++
        (low s.plant.irrigation.policy.sMoistureLow tvs.length s.sFakeMoisture).map fun m ↦
          ⟨s.plant.boots, m, s.plant.irrigation.policy.sMoistureLow, s.plant.applied⟩ := by
  induction tvs generalizing s with
  | nil => exact ⟨s, rfl, (List.append_nil _).symm⟩
  | cons tv tvs ih =>
      obtain ⟨m, hm, hpc, hpolicy, hboots, happlied, hnext, hpulses⟩ :=
        exec_pass config py hhead tv
      obtain ⟨t, ht, hrest⟩ := ih hpc
      refine ⟨t, ?_, ?_⟩
      · rw [List.flatMap_cons, exec_append, hm, Option.bind_some, ht]
      · rw [hrest, hpolicy, hboots, happlied, hnext, hpulses, List.append_assoc, ← List.map_append,
          List.length_cons, Nat.add_comm, low, low, low, ← List.filter_append, List.iterate_add]
        rfl

/-- The plant is in a state of one of its own runs.  Each reading of the sequence has gone to
one thread, none is below 240, and the pump never runs for a threshold up to that.  Passes of the
irrigation loop without a reading of the other thread in between pump for exactly the low ones
among the readings to come, and within 14 passes for at least one. -/
structure Fed (config : Config K) (py : Python) (known : K → Prop) (zero : K) (s : State K) :
    Prop where
  plant : Steps (Plant.step config py) (Plant.Ideal config known) (.start zero) s.plant
  sequence : s.handed.map Prod.snd = List.iterate next initialMoisture s.handed.length
  pumped : (pumped s.plant).Sublist (handedTo .irrigation s.handed)
  reported : (reported s.plant).Sublist (handedTo .telemetry s.handed)
  lowest : ∀ item ∈ s.handed, 240 ≤ item.2.toNat
  never : ∀ x ∈ s.plant.pulses, 240 < x.threshold
  passes : s.plant.irrigation.pc = .head → ∀ tvs : List (Option ℤ),
    ∃ t, exec (step config py) (fun _ _ ↦ true) s (tvs.flatMap pass) = some t ∧
      t.plant.pulses = s.plant.pulses ++
        (low s.plant.irrigation.policy.sMoistureLow tvs.length s.sFakeMoisture).map (fun m ↦
          ⟨s.plant.boots, m, s.plant.irrigation.policy.sMoistureLow, s.plant.applied⟩) ∧
      (14 ≤ tvs.length → 240 < s.plant.irrigation.policy.sMoistureLow →
        s.plant.pulses.length < t.plant.pulses.length)

/-- In every run, whatever the network does. -/
theorem mock_feeds_plant (hbox : config.box.Lawful) {zero : K}
    (h : Steps (step config py) (Ideal config known) (.start zero) s) :
    Fed config py known zero s := by
  have hplant : ∀ s, Steps (step config py) (Ideal config known) (.start zero) s →
      Pulses s.plant ∧ Fits s.plant :=
    fun _ hs ↦ ⟨(sound_logs_pulses hbox (steps_plant hs)).2.2, fits hbox (steps_plant hs)⟩
  have hs : Shares s := h.invariant_over hplant (shares_start zero)
    fun _ _ _ hinv hs _ hstep ↦ hs.step hinv.1 hinv.2 hstep
  refine ⟨steps_plant h, hs.sequence, ?_, hs.reports, fun item hitem ↦ ?_, ?_, ?_⟩
  · exact (List.sublist_append_left _ _).trans hs.pulses
  · exact lowest_le _ (hs.handed_mem hitem)
  · intro x hx
    exact (lowest_le _ (hs.dry x hx)).trans_lt ((hplant s h).1.dry x hx).1
  · intro hhead tvs
    obtain ⟨t, ht, hpulses⟩ := exec_passes config py hhead tvs
    refine ⟨t, ht, hpulses, fun hn hthreshold ↦ ?_⟩
    have hne := low_ne_nil hs.mem hn hthreshold
    have hpos := List.length_pos_iff.mpr hne
    rw [hpulses, List.length_append, List.length_map]
    omega

/-- Two readings of the telemetry thread between those of the irrigation thread. -/
theorem mock_feeds_plant_shared :
    ∃ s, s.handed = [(.irrigation, 310), (.telemetry, 250), (.irrigation, 900),
        (.telemetry, 840)] ∧
      Fed testConfig .integers (· < 10) 0 (s : State ℕ) := by
  have hrun : (exec (step testConfig .integers) (fun s a ↦ (event s a).all (idealTest s.plant))
      (.start 0)
      (.other (.initSession (some ⟨11, 12, List.replicate 48 1⟩)) :: pass none ++
        [.report 235 455 none 1] ++ pass none ++ [.waste])).map (fun s ↦ s.handed) =
        some [(.irrigation, 310), (.telemetry, 250), (.irrigation, 900), (.telemetry, 840)] := by
    decide +kernel
  obtain ⟨s, hexec, hs⟩ := Option.map_eq_some_iff.mp hrun
  refine ⟨s, hs, mock_feeds_plant (by exact SecretBox.tagged_lawful)
    ((exec_steps hexec).mono fun s a htest b hb ↦ ideal_of_idealTest rfl s.plant b ?_)⟩
  rw [Option.mem_def.mp hb] at htest
  exact htest

end PlantNode.Plant.Mock
