import PlantNode.Driver.Ledger

/-!
# A thread that runs alone

When no other thread acts and the clock stands still, a thread that holds an
unexpired reservation gets through its batch: whatever step the loop reaches is
put on the bus.
-/

namespace PlantNode.Driver

open Foundation

/-- The table gives the address to thread `me`, and not only until now. -/
structure Holding (s : State) (me : ThreadId) (address : UInt8) : Prop where
  unique : UniqueActive s.reservations
  held : ∃ h, holder address s.reservations = some h ∧ h.owner = me ∧ s.clock < h.deadlineTick

section Solo

variable (msToTicks : ℕ → ℕ) {s : State} {me : ThreadId} {b : Batch} {lease : Bool}
  {st : I2CStep} {rest : List I2CStep}

theorem Holding.expired {address : UInt8} (h : Holding s me address) :
    ∃ e, holder address (expireLocked s.clock s.reservations).1 = some e ∧ e.owner = me ∧
      s.clock < e.deadlineTick := by
  obtain ⟨e, he, howner, hlive⟩ := h.held
  refine ⟨e, ?_, howner, hlive⟩
  rw [holder_expire h.unique, he]
  simp [hlive]

theorem Holding.of_eq {t : State} {address : UInt8} (h : Holding s me address)
    (hres : t.reservations = s.reservations) (hclock : t.clock = s.clock) :
    Holding t me address where
  unique := hres ▸ h.unique
  held := by
    rw [hres, hclock]
    exact h.held

theorem Holding.of_expired {t : State} {address : UInt8} (h : Holding s me address)
    (hres : t.reservations = (expireLocked s.clock s.reservations).1)
    (hclock : t.clock = s.clock) : Holding t me address where
  unique := hres ▸ h.unique.expire s.clock
  held := by
    rw [hres, hclock]
    exact h.expired

theorem I2CStep.buffer_of_good (h : st.malformed = false) : st.buffer.isNone = false := by
  simp only [malformed, Bool.or_eq_false_iff] at h
  exact h.1

/-- The check before a transfer finds the reservation to be the thread's own. -/
theorem Holding.verify_step (h : Holding s me b.cap.address)
    (hpc : s.threads me = .running b lease (st :: rest)) (hbus : st.kind ≠ I2cDelay)
    (hbuf : st.buffer.isNone = false) :
    ∃ t, Reachable (step msToTicks) s t ∧ t.trace = s.trace ∧
      t.threads me = .transferring b lease st rest ∧ Holding t me b.cap.address := by
  obtain ⟨e, he, howner, -⟩ := h.expired
  have hours : (stillOursLocked me b.cap.address s.clock s.reservations).1 = true :=
    stillOursLocked_iff.mpr ⟨e, he, howner⟩
  refine ⟨(s.commit (expireLocked s.clock s.reservations).1
    (expireLocked s.clock s.reservations).2).setPc me (.transferring b lease st rest),
    .next (.run me true) .init trivial ?_, rfl, by simp, h.of_expired rfl rfl⟩
  simp only [step, runThread, hpc, loopStep, if_neg hbus, hbuf, Bool.false_eq_true, ↓reduceIte]
  exact congrArg some (if_pos hours)

theorem Holding.transfer_step (h : Holding s me b.cap.address)
    (hpc : s.threads me = .running b lease (st :: rest)) (hbus : st.kind ≠ I2cDelay)
    (hgood : st.malformed = false) :
    ∃ t, Reachable (step msToTicks) s t ∧
      t.trace = s.trace ++ [.transfer (b.transferOf me st true)] ∧
      t.threads me = .running b lease rest ∧ Holding t me b.cap.address := by
  obtain ⟨m, hreach, hmtrace, hmpc, hm⟩ :=
    h.verify_step msToTicks hpc hbus (I2CStep.buffer_of_good hgood)
  refine ⟨(({ m with sInitialized := true }.emit (.transfer (b.transferOf me st true))).setPc me
      (.running b lease rest)), .next (.run me true) hreach trivial ?_, ?_, by simp,
      hm.of_eq rfl rfl⟩
  · simp [step, runThread, hmpc, transferStep, doTransfer, hgood]
  · simp [hmtrace]

theorem Holding.delay_step (h : Holding s me b.cap.address)
    (hpc : s.threads me = .running b lease (st :: rest)) (hdelay : st.kind = I2cDelay) :
    ∃ t, Reachable (step msToTicks) s t ∧ t.trace = s.trace ∧
      t.threads me = .running b lease rest ∧ Holding t me b.cap.address := by
  refine ⟨s.setPc me (.running b lease rest), .next (.run me true) .init trivial ?_, rfl, ?_,
    h.of_eq rfl rfl⟩
  · simp [step, runThread, hpc, loopStep, hdelay]
  · simp

/-- The loop gets past well-formed steps, and puts them on the bus. -/
theorem Holding.passes (pre : List I2CStep) (h : Holding s me b.cap.address)
    (hpc : s.threads me = .running b lease (pre ++ rest)) (hpassed : Passed pre) :
    ∃ t, Reachable (step msToTicks) s t ∧ t.trace = s.trace ++ (b.wire me pre).map .transfer ∧
      t.threads me = .running b lease rest ∧ Holding t me b.cap.address := by
  induction pre generalizing s with
  | nil => exact ⟨s, .init, by simp [Batch.wire, busSteps], hpc, h⟩
  | cons p pre ih =>
      have hpassed' : Passed pre := fun y hy ↦ hpassed y (List.mem_cons_of_mem _ hy)
      obtain ⟨m, hreach, htrace, hmpc, hm⟩ : ∃ m, Reachable (step msToTicks) s m ∧
          m.trace = s.trace ++ (b.wire me [p]).map .transfer ∧
          m.threads me = .running b lease (pre ++ rest) ∧ Holding m me b.cap.address := by
        by_cases hdelay : p.kind = I2cDelay
        · obtain ⟨m, hreach, htrace, hmpc, hm⟩ := h.delay_step msToTicks hpc hdelay
          exact ⟨m, hreach, by simp [htrace, Batch.wire, busSteps, hdelay], hmpc, hm⟩
        · have hp := (hpassed p List.mem_cons_self).resolve_left hdelay
          obtain ⟨m, hreach, htrace, hmpc, hm⟩ := h.transfer_step msToTicks hpc hdelay hp
          exact ⟨m, hreach, by simp [htrace, Batch.wire, busSteps, hdelay], hmpc, hm⟩
      obtain ⟨t, hreach', htrace', htpc, ht⟩ := ih hm hmpc hpassed'
      refine ⟨t, hreach.trans hreach', ?_, htpc, ht⟩
      have hwire : b.wire me (p :: pre) = b.wire me [p] ++ b.wire me pre := by
        rw [Batch.wire, Batch.wire, Batch.wire, ← List.map_append, busSteps, busSteps, busSteps,
          ← List.filter_append, List.singleton_append]
      rw [htrace', htrace, hwire, List.map_append, List.append_assoc]

theorem Holding.issues (pre : List I2CStep) (h : Holding s me b.cap.address)
    (hpc : s.threads me = .running b lease (pre ++ st :: rest)) (hpassed : Passed pre)
    (hbus : st.kind ≠ I2cDelay) (hgood : st.malformed = false) :
    ∃ t, Reachable (step msToTicks) s t ∧ s.trace ⊆ t.trace ∧
      .transfer (b.transferOf me st true) ∈ t.trace := by
  obtain ⟨m, hreach, htrace, hmpc, hm⟩ := h.passes msToTicks pre hpc hpassed
  obtain ⟨t, hreach', htrace', -, -⟩ := hm.transfer_step msToTicks hmpc hbus hgood
  refine ⟨t, hreach.trans hreach', ?_, by simp [htrace']⟩
  rw [htrace', htrace, List.append_assoc]
  exact List.subset_append_left _ _

theorem finish_step {ret : Ret} (hpc : s.threads me = .finishing b lease ret) :
    ∃ t, step msToTicks s (.run me true) = some t ∧
      t.trace = s.trace ++ [.returned b.call me ret] := by
  refine ⟨finishStep s me b lease ret, ?_, ?_⟩
  · simp [step, runThread, hpc]
  · cases lease <;> simp [finishStep, State.finish]

/-- A malformed step ends the batch, after the transfers of the steps before it. -/
theorem Holding.rejects (pre : List I2CStep) (h : Holding s me b.cap.address)
    (hpc : s.threads me = .running b lease (pre ++ st :: rest)) (hpassed : Passed pre)
    (hbus : st.kind ≠ I2cDelay) (hbad : st.malformed = true) :
    ∃ t, Reachable (step msToTicks) s t ∧
      t.trace = s.trace ++ (b.wire me pre).map .transfer ++
        [.returned b.call me (.error .EINVAL)] := by
  obtain ⟨m, hreach, htrace, hmpc, hm⟩ := h.passes msToTicks pre hpc hpassed
  obtain ⟨n, hreach', htrace', hnpc⟩ : ∃ n, Reachable (step msToTicks) m n ∧
      n.trace = m.trace ∧ n.threads me = .finishing b lease (.error .EINVAL) := by
    cases hbuf : st.buffer.isNone with
    | true =>
        refine ⟨m.setPc me (.finishing b lease (.error .EINVAL)),
          .next (.run me true) .init trivial ?_, rfl, by simp⟩
        simp [step, runThread, hmpc, loopStep, hbus, hbuf]
    | false =>
        obtain ⟨n, hreach', htrace', hnpc, -⟩ := hm.verify_step msToTicks hmpc hbus hbuf
        refine ⟨n.setPc me (.finishing b lease (.error .EINVAL)),
          .next (.run me true) hreach' trivial ?_, htrace', by simp⟩
        simp [step, runThread, hnpc, transferStep, doTransfer, hbad]
  obtain ⟨t, hstep, htrace''⟩ := finish_step msToTicks hnpc
  exact ⟨t, .next _ (hreach.trans hreach') trivial hstep, by rw [htrace'', htrace', htrace]⟩

/-- Nobody holds the address now, and a slot is free. -/
structure Vacant (s : State) (address : UInt8) : Prop where
  unheld : holder address (expireLocked s.clock s.reservations).1 = none
  free : ∃ i, ((expireLocked s.clock s.reservations).1.sReservations i).active = false

theorem claim_step {c : Claim} {t : Timeout} (hpc : s.threads me = .reserving c t)
    (hu : UniqueActive s.reservations) (hvacant : Vacant s c.cap.address) :
    ∃ m i, step msToTicks s (.run me true) = some (State.granted m me c) ∧
      m.trace = s.trace ++
        [.claimed c i (claimEntry msToTicks me c.cap.address c.holdMs c.isLease s.clock) s.clock] ∧
      m.clock = s.clock ∧ m.calls = s.calls ∧ UniqueActive m.reservations ∧
      holder c.cap.address m.reservations =
        some (claimEntry msToTicks me c.cap.address c.holdMs c.isLease s.clock) := by
  obtain ⟨o, r', heq, hspec⟩ := reserveLocked_spec msToTicks me c.cap.address c.holdMs c.isLease
    s.clock s.reservations
  have hstep : step msToTicks s (.run me true) = some (reserveStep msToTicks s me c t) := by
    simp [step, runThread, hpc]
  have hsame : (claimEntry msToTicks me c.cap.address c.holdMs c.isLease s.clock).address =
    c.cap.address := rfl
  rw [hstep]
  simp only [reserveStep, heq]
  cases hspec with
  | claimed i vacant free =>
      refine ⟨_, i, rfl, rfl, rfl, rfl, (hu.expire _).claim vacant, ?_⟩
      exact (holder_claim (hu.expire _) vacant free rfl).trans (if_pos rfl)
  | full vacant crowded =>
      obtain ⟨i, hi⟩ := hvacant.free
      rw [crowded i] at hi
      cases hi
  | reentrant h held ours =>
      rw [hsame, hvacant.unheld] at held
      cases held
  | held h held theirs =>
      rw [hsame, hvacant.unheld] at held
      cases held

theorem vacant_of_boot (hres : s.reservations = .boot) (address : UInt8) : Vacant s address where
  unheld := by
    rw [hres, holder_expire uniqueActive_boot]
    simp
  free := by
    refine ⟨⟨0, by decide⟩, ?_⟩
    rw [hres, expireLocked_slot]
    simp [Reservations.boot, stale]

theorem lease_granted (s : State) (me : ThreadId) (c : Claim) (t : Timeout)
    (hlease : c.steps = none) (hpc : s.threads me = .reserving c t) (hres : s.reservations = .boot)
    (hlive : s.clock < (s.clock + msToTicks c.holdMs) % 2 ^ 64) :
    ∃ m, Reachable (step msToTicks) s m ∧ s.trace ⊆ m.trace ∧ m.threads me = .idle ∧
      m.calls = s.calls ∧ Holding m me c.cap.address := by
  obtain ⟨m, i, hstep, htrace, hclock, hcalls, hu, hheld⟩ := claim_step msToTicks hpc
    (hres ▸ uniqueActive_boot) (vacant_of_boot hres c.cap.address)
  refine ⟨m.granted me c, .next (.run me true) .init trivial hstep, ?_⟩
  simp only [State.granted, hlease, State.finish]
  refine ⟨by simp [htrace], by simp, hcalls, hu, ?_⟩
  exact ⟨_, hheld, rfl, by simpa [hclock, claimEntry] using hlive⟩

/-- The start of an accepted batch. -/
theorem batch_called (hidle : s.threads me = .idle) {cap : I2CDeviceCap} {steps : List I2CStep}
    (tm : Timeout) (haccept : acceptBatch (some cap) (some steps) = .ok (cap, steps)) :
    step msToTicks s (.call me (.transact (some cap) (some steps) tm)) =
      some ((s.opened me (.transact (some cap) (some steps) tm)).setPc me
        (.reserving ⟨s.calls, cap, cap.maxBatchMs.toNat, some steps⟩ tm)) := by
  simp [step, hidle, startCall, Request.start, haccept]

/-- The holder of an address re-enters its reservation with a batch. -/
theorem Holding.reenters (h : Holding s me b.cap.address) (hidle : s.threads me = .idle)
    (hcall : b.call = s.calls) (t : Timeout)
    (haccept : acceptBatch (some b.cap) (some b.steps) = .ok (b.cap, b.steps)) :
    ∃ m lease, Reachable (step msToTicks) s m ∧
      .called b.call me (.transact (some b.cap) (some b.steps) t) ∈ m.trace ∧
      m.threads me = .running b lease b.steps ∧ Holding m me b.cap.address := by
  obtain ⟨call, cap, steps⟩ := b
  dsimp only at h hcall haccept ⊢
  subst hcall
  obtain ⟨e, he, howner, -⟩ := h.expired
  let c : Claim := ⟨s.calls, cap, cap.maxBatchMs.toNat, some steps⟩
  let s₁ := (s.opened me (.transact (some cap) (some steps) t)).setPc me (.reserving c t)
  have h₁ : step msToTicks s (.call me (.transact (some cap) (some steps) t)) = some s₁ :=
    batch_called msToTicks hidle t haccept
  obtain ⟨o, r', heq, hspec⟩ := reserveLocked_spec msToTicks me cap.address cap.maxBatchMs.toNat
    false s.clock s.reservations
  obtain ⟨rfl, rfl⟩ : o = .reentrant ∧ r' = (expireLocked s.clock s.reservations).1 := by
    have hsame : (claimEntry msToTicks me cap.address cap.maxBatchMs.toNat false s.clock).address =
      cap.address := rfl
    cases hspec with
    | claimed i vacant free => simp [holder, hsame ▸ vacant] at he
    | full vacant crowded => simp [holder, hsame ▸ vacant] at he
    | reentrant => exact ⟨rfl, rfl⟩
    | held h held theirs =>
        rw [hsame, he] at held
        cases held
        exact (theirs howner).elim
  let s₂ := (s₁.commit (expireLocked s.clock s.reservations).1
    (expireLocked s.clock s.reservations).2).granted me c
  have h₂ : step msToTicks s₁ (.run me true) = some s₂ := by
    have heq' : reserveLocked msToTicks me c.cap.address c.holdMs c.isLease s₁.clock
        s₁.reservations = (.reentrant, (expireLocked s.clock s.reservations).1,
          (expireLocked s.clock s.reservations).2) := heq
    have hpc : s₁.threads me = .reserving c t := by simp [s₁]
    simp [step, runThread, hpc, reserveStep, heq', s₂]
  let b : Batch := ⟨s.calls, cap, steps⟩
  let lease := weHoldLeaseLocked cap.address s₂.reservations
  have hpc₂ : s₂.threads me = .reserved b := by simp [s₂, State.granted, c, b]
  have h₃ : step msToTicks s₂ (.run me true) = some (s₂.setPc me (.running b lease steps)) := by
    simp [step, runThread, hpc₂, b, lease]
  refine ⟨s₂.setPc me (.running b lease steps), lease,
    .next _ (.next _ (.next _ .init trivial h₁) trivial h₂) trivial h₃, ?_, by simp [b],
    h.of_expired rfl rfl⟩
  simp [s₂, State.granted, c, s₁, State.opened]

/-- Thread 0 takes a lease of the address and starts the batch. -/
theorem exists_batch {ms : ℕ} (hms : 0 < ms ∧ ms < 2 ^ 32) (hlive : 0 < msToTicks ms % 2 ^ 64)
    {cap : I2CDeviceCap} {steps : List I2CStep}
    (haccept : acceptBatch (some cap) (some steps) = .ok (cap, steps)) :
    ∃ s b lease, Reachable (step msToTicks) .boot s ∧ b.cap = cap ∧ b.steps = steps ∧
      .called b.call 0 (.transact (some cap) (some steps) .unlimited) ∈ s.trace ∧
      s.threads 0 = .running b lease b.steps ∧ Holding s 0 b.cap.address := by
  let owner : I2CDeviceCap := ⟨cap.address, 0, I2C_MAY_LEASE, 0, 0, .ofNat ms⟩
  have hmsNat : (UInt32.ofNat ms).toNat = ms := UInt32.toNat_ofNat_of_lt' hms.2
  have hholdMs : UInt32.ofNat ms ≠ 0 := by
    intro hzero
    rw [hzero] at hmsNat
    simp at hmsNat
    omega
  let c : Claim := ⟨0, owner, ms, none⟩
  let s₁ := (State.boot.opened 0 (.leaseAcquire (some owner) 0 .unlimited)).setPc 0
    (.reserving c .unlimited)
  have h₁ : step msToTicks .boot (.call 0 (.leaseAcquire (some owner) 0 .unlimited)) =
      some s₁ := by
    have haccept : acceptLease (some owner) 0 = .ok (owner, UInt32.ofNat ms) := by
      simp [acceptLease, leaseHoldMs, authorize, owner, I2C_MAY_LEASE, hholdMs]
    simp [step, State.boot, startCall, Request.start, haccept, hmsNat, s₁, c]
  obtain ⟨s₂, hreach₂, -, hidle₂, hcalls₂, hhold₂⟩ := lease_granted msToTicks s₁ 0 c .unlimited
    rfl (by simp [s₁]) rfl (by simpa [s₁, State.opened, State.boot, c] using hlive)
  let b : Batch := ⟨s₂.calls, cap, steps⟩
  obtain ⟨s₃, lease, hreach₃, hcalled, hpc₃, hhold₃⟩ :=
    Holding.reenters msToTicks (b := b) hhold₂ hidle₂ rfl .unlimited haccept
  exact ⟨s₃, b, lease, ((Steps.next _ .init trivial h₁).trans hreach₂).trans hreach₃, rfl, rfl,
    hcalled, hpc₃, hhold₃⟩

end Solo

end PlantNode.Driver
