import PlantNode.Sensors.Contracts

/-!
# What is on the wire

The calls of the sensors alone decide which bytes are written, and a call that succeeds has
all its bytes on the wire: those it wrote, and those it has in its buffer.
-/

namespace PlantNode.Sensors

open Driver Foundation

def sensorCaps : Set I2CDeviceCap := {moistureI2cCap, tempI2cCap}

theorem sensorCaps_fit : (I2CDeviceCap.address '' sensorCaps).encard ≤ MaxReservations := by
  rw [sensorCaps, Set.image_pair]
  apply (Set.encard_insert_le _ _).trans
  rw [Set.encard_singleton]
  decide

theorem sensorRequest_sound {request : Request} (h : request ∈ sensorRequests) :
    request.Sound sensorCaps := by
  simp only [sensorRequests, List.mem_cons, List.not_mem_nil, or_false] at h
  rcases h with rfl | rfl | rfl | rfl
  · exact ⟨tempI2cCap, _, rfl, .inr rfl, by decide, by unfold Passed; decide⟩
  · exact ⟨tempI2cCap, _, rfl, .inr rfl, by decide, by unfold Passed; decide⟩
  · exact ⟨tempI2cCap, _, rfl, .inr rfl, by decide, by unfold Passed; decide⟩
  · exact ⟨moistureI2cCap, _, rfl, .inl rfl, by decide, by unfold Passed; decide⟩

/-- The calls are those of the sensor programs. -/
def OfSensors (_ : Driver.State) : Driver.Action → Prop
  | .call _ request => request ∈ sensorRequests
  | _ => True

section Calls

variable {msToTicks : ℕ → ℕ} {driver : Driver.State}

theorem soundly_of_ofSensors (h : Steps (Driver.step msToTicks) OfSensors .boot driver) :
    Steps (Driver.step msToTicks) (Soundly sensorCaps) .boot driver := by
  refine h.mono fun s a ha ↦ ?_
  cases a with
  | call me request => exact sensorRequest_sound ha
  | _ => trivial

theorem called_ofSensors (h : Steps (Driver.step msToTicks) OfSensors .boot driver) :
    ∀ id me request, .called id me request ∈ driver.trace → request ∈ sensorRequests := by
  refine h.invariant (I := fun s ↦ ∀ id me request, .called id me request ∈ s.trace →
    request ∈ sensorRequests) (by simp [Driver.State.boot]) ?_
  intro s a t hs hsensor hstep id me request hcalled
  rcases (step_trans msToTicks hstep).called_from hcalled with hold | ⟨-, rfl⟩
  · exact hs id me request hold
  · exact hsensor

/-- No call of a sensor is refused. -/
theorem answered_of_returned (h : Steps (Driver.step msToTicks) OfSensors .boot driver)
    {call : ℕ} {u : ThreadId} {ret : Ret} (hreturned : .returned call u ret ∈ driver.trace) :
    ret = .ok () ∨ ret = .error .EIo ∨ ret = .error .ETIMEDOUT := by
  obtain ⟨b, -, -, -, hserved⟩ :=
    served_of_returned sensorCaps_fit (soundly_of_ofSensors h) hreturned
  generalize transfersOf call driver.trace = l at hserved
  cases hserved with
  | complete => exact .inl rfl
  | failed => exact .inr (.inl rfl)
  | lost => exact .inr (.inr rfl)

end Calls

/-! ## The steps of a batch -/

/-- A step of a sensor's batch that is no delay. -/
inductive BusStep : Request → UInt8 → I2CStep → Prop where
  | status : BusStep statusRead 0x38 ⟨I2cRead, 1, 0, some statusAt⟩
  | init : BusStep initWrite 0x38 ⟨I2cWrite, 3, 0, some initAt⟩
  | trigger : BusStep measurement 0x38 ⟨I2cWrite, 3, 0, some triggerAt⟩
  | measured : BusStep measurement 0x38 ⟨I2cRead, 6, 0, some bufAt⟩
  | touch : BusStep touchRead 0x36 ⟨I2cWrite, 2, 0, some cmdAt⟩
  | touched : BusStep touchRead 0x36 ⟨I2cRead, 2, 0, some bufAt⟩

theorem busStep_of_mem {cap : I2CDeviceCap} {steps : List I2CStep} {tm : Timeout} {st : I2CStep}
    (h : .transact (some cap) (some steps) tm ∈ sensorRequests) (hst : st ∈ steps)
    (hbus : st.kind ≠ I2cDelay) :
    BusStep (.transact (some cap) (some steps) tm) cap.address st := by
  simp only [sensorRequests, List.mem_cons, List.not_mem_nil, or_false] at h
  rcases h with h | h | h | h <;> cases h <;>
    simp only [List.mem_cons, List.not_mem_nil, or_false] at hst
  · subst hst
    exact .status
  · subst hst
    exact .init
  · rcases hst with rfl | rfl | rfl
    · exact .trigger
    · exact absurd rfl hbus
    · exact .measured
  · rcases hst with rfl | rfl | rfl
    · exact .touch
    · exact absurd rfl hbus
    · exact .touched

/-- A batch has one step of each direction at most. -/
theorem BusStep.same {request : Request} {address address' : UInt8} {st st' : I2CStep}
    (h : BusStep request address st) (h' : BusStep request address' st')
    (hdirection : st.direction = st'.direction) : st = st' := by
  generalize hreq : request = request' at h'
  cases h <;> cases h' <;> first | rfl | exact absurd hreq (by decide) |
    exact absurd hdirection (by decide)

/-! ## Passages -/

/-- A passage of a batch that was entered. -/
inductive Makes (trace : List Event) : Passage → Prop where
  | intro (me : ThreadId) (b : Batch) (st : I2CStep) (ok : Bool) (sent : ℕ → UInt8)
      (entered : .entered me b ∈ trace) (mem : st ∈ b.steps) (bus : st.kind ≠ I2cDelay) :
      Makes trace ⟨b.transferOf me st ok, carried st sent⟩

theorem Makes.mono {trace trace' : List Event} {p : Passage} (h : Makes trace p)
    (hpre : trace <+: trace') : Makes trace' p := by
  cases h with
  | intro me b st ok sent entered mem bus =>
      exact .intro me b st ok sent (hpre.subset entered) mem bus

variable {msToTicks : ℕ → ℕ} {d d' : Driver.State} {a : Driver.Action} {sent : ℕ → UInt8}

theorem makes_passage? (hledger : Ledger d) {p : Passage} (h : passage? d a sent = some p) :
    Makes d.trace p := by
  cases a with
  | tick => cases h
  | call me request => cases h
  | run me ok =>
      simp only [passage?] at h
      split at h
      swap
      · cases h
      rename_i b lease st rest hpc
      obtain ⟨x, hx, rfl⟩ := Option.map_eq_some_iff.mp h
      obtain ⟨hentered, hprogress⟩ := hledger.batches me b (by rw [hpc]; rfl)
      rw [hpc] at hprogress
      obtain ⟨pre, hsplit, -, hbus, -⟩ := hprogress
      simp only [doTransfer] at hx
      split at hx
      · cases hx
      · cases hx
        exact .intro me b st ok sent hentered (by simp [hsplit]) hbus

/-- A step of the driver puts its passage on the bus. -/
theorem onBus_step (hstep : Driver.step msToTicks d a = some d') (sent : ℕ → UInt8) :
    onBus d'.trace = onBus d.trace ++ ((passage? d a sent).map Passage.transfer).toList := by
  cases step_trans msToTicks hstep with
  | tick fits => exact (List.append_nil _).symm
  | rejected me request e at_ refused =>
      simp [onBus, Driver.State.finish, Driver.State.opened, Event.transfer?, passage?]
  | started me request pc at_ accepted =>
      simp [onBus, Driver.State.opened, Event.transfer?, passage?]
  | moved me ok at_ move =>
      cases move with
      | malformed b lease st rest bad => simp [passage?, at_, doTransfer, bad]
      | _ => simp [passage?, at_]
  | claimed me ok c tm i at_ vacant free =>
      rw [onBus_granted]
      simp [passage?, at_, onBus, Event.transfer?]
  | reentered me ok c tm h at_ found ours =>
      rw [onBus_granted]
      simp [passage?, at_]
  | transferred me ok b lease st rest at_ good =>
      simp [passage?, at_, doTransfer, good, onBus, Event.transfer?]
  | returned me ok at_ done =>
      cases done <;> simp [passage?, at_, Driver.State.finish, onBus, Event.transfer?]

/-! ## What a call that succeeds leaves on the wire -/

theorem carried_write {st : I2CStep} (h : st.direction = .write) (sent sent' : ℕ → UInt8) :
    carried st sent = carried st sent' := by
  simp [carried, h]

theorem carried_read {st : I2CStep} (h : st.direction = .read) :
    carried st sent = (List.range st.len.toNat).map sent := by
  simp [carried, h]

/-- The buffer of a call, when its last read has been `p`. -/
theorem carried_bufferOf {st : I2CStep} (h : st.direction = .read) {call : ℕ}
    {wire : List Passage} {p : Passage}
    (hlast : (wire.filter fun p ↦ p.transfer.call == call &&
      p.transfer.direction == .read).getLast? = some p) (hp : p.bytes = carried st sent) :
    carried st (bufferOf call wire) = p.bytes := by
  rw [hp, carried_read h, carried_read h]
  refine List.map_congr_left fun i hi ↦ ?_
  have hi := List.mem_range.mp hi
  simp only [bufferOf, hlast, Option.elim_some, hp, carried_read h]
  simp [List.getD, hi]

/-- Every step of the batch is on the wire with its bytes: those written, and those that the
answer has in its buffer. -/
def Delivered (wire : List Passage) (me : ThreadId) (request : Request) (answer : Answer) :
    Prop :=
  ∀ cap steps tm, request = .transact (some cap) (some steps) tm →
    ∀ st ∈ steps, st.kind ≠ I2cDelay →
      ⟨Batch.transferOf ⟨answer.call, cap, steps⟩ me st true, carried st answer.buffer⟩ ∈ wire

theorem Delivered.mono {wire wire' : List Passage} {me : ThreadId} {request : Request}
    {answer : Answer} (h : Delivered wire me request answer) (hpre : wire <+: wire') :
    Delivered wire' me request answer :=
  fun cap steps tm hrequest st hst hbus ↦ hpre.subset (h cap steps tm hrequest st hst hbus)

section Delivery

variable {wire : List Passage} {me : ThreadId} {cap : I2CDeviceCap} {steps : List I2CStep}
  {tm : Timeout} {call : ℕ} {st : I2CStep}

/-- A passage of a call is one of the steps of its batch. -/
theorem Makes.of_called (hledger : Ledger d) {p : Passage} (h : Makes d.trace p)
    (hcalled : .called p.transfer.call me (.transact (some cap) (some steps) tm) ∈ d.trace) :
    ∃ st ∈ steps, st.kind ≠ I2cDelay ∧ ∃ ok sent,
      p = ⟨Batch.transferOf ⟨p.transfer.call, cap, steps⟩ me st ok, carried st sent⟩ := by
  cases h with
  | intro u b st ok sent entered mem bus =>
      obtain ⟨dev, steps', tm', hcalled', haccept⟩ := hledger.requested entered
      obtain ⟨rfl, hrequest⟩ := hledger.once _ _ _ _ _ hcalled hcalled'
      cases hrequest
      obtain ⟨hcap, hsteps, -⟩ := acceptBatch_ok haccept
      cases hcap
      cases hsteps
      exact ⟨st, mem, bus, ok, sent, rfl⟩

theorem mem_transfersOf_wire (hwire : onBus d.trace = wire.map Passage.transfer) {x : Transfer} :
    x ∈ transfersOf call d.trace ↔ (∃ p ∈ wire, p.transfer = x) ∧ x.call = call := by
  rw [mem_transfersOf, ← mem_onBus, hwire, List.mem_map]

/-- Of a call that succeeded, a passage in the direction of a step is the one of this step. -/
theorem passage_of_step (hledger : Ledger d)
    (hwire : onBus d.trace = wire.map Passage.transfer) (hmakes : ∀ p ∈ wire, Makes d.trace p)
    (hcalled : .called call me (.transact (some cap) (some steps) tm) ∈ d.trace)
    (hsensor : .transact (some cap) (some steps) tm ∈ sensorRequests)
    (htransfers : transfersOf call d.trace = Batch.wire ⟨call, cap, steps⟩ me steps)
    (hst : st ∈ steps) (hbus : st.kind ≠ I2cDelay) {p : Passage} (hp : p ∈ wire)
    (hcall : p.transfer.call = call) (hdirection : p.transfer.direction = st.direction) :
    ∃ sent, p = ⟨Batch.transferOf ⟨call, cap, steps⟩ me st true, carried st sent⟩ := by
  subst hcall
  obtain ⟨st', hst', hbus', ok, sent, hmade⟩ := (hmakes p hp).of_called hledger hcalled
  have hsame : st' = st := by
    refine (busStep_of_mem hsensor hst' hbus').same (busStep_of_mem hsensor hst hbus) ?_
    rw [← hdirection, hmade]
    rfl
  have hmem : p.transfer ∈ transfersOf p.transfer.call d.trace :=
    (mem_transfersOf_wire hwire).mpr ⟨⟨p, hp, rfl⟩, rfl⟩
  rw [htransfers] at hmem
  obtain ⟨st₂, -, hst₂⟩ := List.mem_map.mp hmem
  have hok : ok = true := by
    have hok := congrArg Transfer.ok hst₂
    rw [hmade] at hok
    exact hok.symm
  subst hsame hok
  exact ⟨sent, hmade⟩

/-- The bytes of a call that succeeded. -/
theorem delivered (hd : Steps (Driver.step msToTicks) OfSensors .boot d)
    (hwire : onBus d.trace = wire.map Passage.transfer) (hmakes : ∀ p ∈ wire, Makes d.trace p)
    {request : Request} (hcalled : .called call me request ∈ d.trace) {u : ThreadId}
    (hreturned : .returned call u (.ok ()) ∈ d.trace) :
    Delivered wire me request ⟨call, .ok (), bufferOf call wire⟩ := by
  rintro cap steps tm rfl st hst hbus
  have hledger := Ledger.reachable hd.reachable
  obtain ⟨⟨call, cap', steps'⟩, rfl, -, hcalled', hserved⟩ :=
    served_of_returned sensorCaps_fit (soundly_of_ofSensors hd) hreturned
  obtain ⟨rfl, hrequest⟩ := hledger.once _ _ _ _ _ hcalled hcalled'
  obtain ⟨rfl, rfl, rfl⟩ : cap' = cap ∧ steps' = steps ∧ Timeout.unlimited = tm := by
    simpa [eq_comm] using hrequest
  have htransfers : transfersOf call d.trace = Batch.wire ⟨call, cap', steps'⟩ me steps' := by
    generalize transfersOf call d.trace = l at hserved
    cases hserved
    rfl
  have hpassage := fun p ↦ passage_of_step (p := p) hledger hwire hmakes hcalled
    (called_ofSensors hd _ _ _ hcalled) htransfers hst hbus
  have hmem : Batch.transferOf ⟨call, cap', steps'⟩ me st true ∈ transfersOf call d.trace := by
    rw [htransfers, Batch.wire, busSteps]
    exact List.mem_map_of_mem (by simp [hst, hbus])
  obtain ⟨⟨p, hp, hptransfer⟩, -⟩ := (mem_transfersOf_wire hwire).mp hmem
  have hpcall : p.transfer.call = call := by rw [hptransfer]; rfl
  have hpdirection : p.transfer.direction = st.direction := by rw [hptransfer]; rfl
  cases hdirection : st.direction with
  | write =>
      obtain ⟨sent, rfl⟩ := hpassage p hp hpcall hpdirection
      rwa [carried_write hdirection _ sent]
  | read =>
      have hread : p ∈ wire.filter fun p ↦ p.transfer.call == call &&
          p.transfer.direction == .read := by
        simp [hp, hpcall, hpdirection, hdirection]
      obtain ⟨q, hlast⟩ := Option.isSome_iff_exists.mp
        (List.getLast?_isSome.mpr (List.ne_nil_of_mem hread))
      have hq := List.mem_of_getLast? hlast
      simp only [List.mem_filter, Bool.and_eq_true, beq_iff_eq] at hq
      obtain ⟨hqwire, hqcall, hqdirection⟩ := hq
      obtain ⟨sent, rfl⟩ := hpassage q hqwire hqcall (hqdirection.trans hdirection.symm)
      rw [carried_bufferOf hdirection hlast rfl]
      exact hqwire

end Delivery

end PlantNode.Sensors
