import PlantNode.Foundation.Mask
import PlantNode.Driver.Origins
import PlantNode.Driver.SoloRun

/-!
# Capability confinement

The permission union and the length check know the kinds `I2cWrite` and
`I2cRead`; the loop executes every kind but `I2cDelay`, and executes the unknown
ones as reads.  So a batch is confined to its capability unless the loop can
reach a step of unknown kind that the capability would not allow as a read.
-/

namespace PlantNode.Driver

open Foundation

/-- What the capability allows on the bus. -/
def Confined (cap : I2CDeviceCap) (x : Transfer) : Prop :=
  x.address = cap.address ∧
    (x.direction = .read → cap.opsMask &&& I2C_OP_READ ≠ 0) ∧
      (x.direction = .write → cap.opsMask &&& I2C_OP_WRITE ≠ 0) ∧
        x.len ≤ cap.maxTransferLen

def I2CStep.unknown (st : I2CStep) : Prop :=
  st.kind ≠ I2cWrite ∧ st.kind ≠ I2cRead ∧ st.kind ≠ I2cDelay

/-- The batch is rejected before it reserves the device, or every well-formed
step of unknown kind that follows only delays and well-formed steps would be
allowed as a read. -/
def UnknownKindsAllowed (cap : I2CDeviceCap) (steps : List I2CStep) : Prop :=
  acceptBatch (some cap) (some steps) = .ok (cap, steps) →
    ∀ pre st post, steps = pre ++ st :: post → Passed pre → st.unknown →
      st.malformed = false →
        cap.opsMask &&& I2C_OP_READ ≠ 0 ∧ st.len ≤ cap.maxTransferLen

/-! ## What an accepted batch may contain -/

theorem authorize_ok {dev : I2CDevice} {ops : UInt8} {cap : I2CDeviceCap}
    (h : authorize dev ops = .ok cap) : dev = some cap ∧ cap.opsMask &&& ops = ops := by
  cases dev with
  | none => simp [authorize] at h
  | some cap' =>
      simp only [authorize] at h
      split at h
      · cases h
      · rename_i hmask
        cases h
        exact ⟨rfl, not_not.mp hmask⟩

theorem acceptBatch_ok {dev : I2CDevice} {steps : Option (List I2CStep)} {cap : I2CDeviceCap}
    {l : List I2CStep} (h : acceptBatch dev steps = .ok (cap, l)) :
    dev = some cap ∧ steps = some l ∧ cap.opsMask &&& needOps l = needOps l ∧
      lengthsOk cap l = true ∧ cap.maxBatchMs ≠ 0 := by
  unfold acceptBatch at h
  split at h
  · cases h
  · cases h
  · split at h
    · cases h
    · rename_i hauth
      obtain ⟨rfl, hmask⟩ := authorize_ok hauth
      split at h
      · cases h
      · rename_i hlen
        split at h
        · cases h
        · cases h
          exact ⟨rfl, rfl, hmask, by simpa using hlen, ‹_›⟩

theorem opsMask_of_mem {mask : UInt8} {steps : List I2CStep} {st : I2CStep}
    (h : mask &&& needOps steps = needOps steps) (hst : st ∈ steps) :
    (st.kind = I2cWrite → mask &&& I2C_OP_WRITE = I2C_OP_WRITE) ∧
      (st.kind = I2cRead → mask &&& I2C_OP_READ = I2C_OP_READ) := by
  induction steps with
  | nil => cases hst
  | cons s rest ih =>
      simp only [needOps] at h
      have hne : I2cWrite ≠ I2cRead := by decide
      rcases List.mem_cons.mp hst with rfl | hst
      · constructor
        · intro hkind
          rw [if_pos hkind, UInt8.and_or_eq_iff] at h
          exact h.1
        · intro hkind
          rw [if_neg (by rw [hkind]; exact hne.symm), if_pos hkind,
            UInt8.and_or_eq_iff] at h
          exact h.1
      · refine ih ?_ hst
        split at h
        · exact ((UInt8.and_or_eq_iff _ _ _).mp h).2
        · split at h
          · exact ((UInt8.and_or_eq_iff _ _ _).mp h).2
          · exact h

theorem len_of_mem {cap : I2CDeviceCap} {steps : List I2CStep} {st : I2CStep}
    (h : lengthsOk cap steps = true) (hst : st ∈ steps)
    (hkind : st.kind = I2cWrite ∨ st.kind = I2cRead) : st.len ≤ cap.maxTransferLen := by
  have hcheck := List.all_eq_true.mp h st hst
  rcases hkind with hkind | hkind <;> simpa [hkind] using hcheck

/-! ## The batch of an accepted call -/

/-- The call that entered a batch asked for it. -/
theorem Ledger.requested {s : State} (h : Ledger s) {me : ThreadId} {b : Batch}
    (hentered : .entered me b ∈ s.trace) :
    ∃ dev steps t, .called b.call me (.transact dev steps t) ∈ s.trace ∧
      acceptBatch dev steps = .ok (b.cap, b.steps) := by
  obtain ⟨⟨⟨call, cap, holdMs, csteps⟩, ⟨request, t, hcalled, hstart⟩, hc⟩, -⟩ :=
    h.entered _ _ hentered
  obtain ⟨l, hl, rfl⟩ := Option.map_eq_some_iff.mp hc
  cases Request.starts hstart with
  | transact dev steps t cap l' haccept =>
      cases hl
      exact ⟨dev, steps, t, hcalled, haccept⟩
  | leaseAcquire => cases hl

theorem Ledger.issuedBy {s : State} (h : Ledger s) {x : Transfer} (hx : .transfer x ∈ s.trace) :
    ∃ b dev steps t, .called x.call x.thread (.transact dev steps t) ∈ s.trace ∧
      acceptBatch dev steps = .ok (b.cap, b.steps) ∧ Issues x.thread b x := by
  obtain ⟨b, hentered, hcall, hissues⟩ := h.issues hx
  obtain ⟨dev, steps, t, hcalled, haccept⟩ := h.requested hentered
  exact ⟨b, dev, steps, t, hcall ▸ hcalled, haccept, hissues⟩

theorem Issues.confined {me : ThreadId} {b : Batch} {x : Transfer} (h : Issues me b x)
    (haccept : acceptBatch (some b.cap) (some b.steps) = .ok (b.cap, b.steps))
    (hallowed : UnknownKindsAllowed b.cap b.steps) : Confined b.cap x := by
  obtain ⟨pre, st, post, ok, hsplit, hpassed, hbus, hgood, rfl⟩ := h
  obtain ⟨-, -, hmask, hlen, -⟩ := acceptBatch_ok haccept
  have hst : st ∈ b.steps := by simp [hsplit]
  have hw : (2 : UInt8) ≠ 0 := by decide
  have hr : (1 : UInt8) ≠ 0 := by decide
  by_cases hwrite : st.kind = I2cWrite
  · have hmem := (opsMask_of_mem hmask hst).1 hwrite
    have hdir : (b.transferOf me st ok).direction = .write := if_pos hwrite
    refine ⟨rfl, fun hd ↦ ?_, fun _ ↦ by rw [hmem]; exact hw, len_of_mem hlen hst (.inl hwrite)⟩
    simp [hdir] at hd
  have hdir : (b.transferOf me st ok).direction = .read := if_neg hwrite
  by_cases hread : st.kind = I2cRead
  · have hmem := (opsMask_of_mem hmask hst).2 hread
    refine ⟨rfl, fun _ ↦ by rw [hmem]; exact hr, fun hd ↦ ?_, len_of_mem hlen hst (.inr hread)⟩
    simp [hdir] at hd
  · obtain ⟨hmem, hle⟩ :=
      hallowed haccept pre st post hsplit hpassed ⟨hwrite, hread, hbus⟩ hgood
    refine ⟨rfl, fun _ ↦ hmem, fun hd ↦ ?_, hle⟩
    simp [hdir] at hd

/-! ## Runs -/

/-- When the condition fails, a thread that holds a lease can run the batch up to
the step that escapes. -/
theorem exists_escape (msToTicks : ℕ → ℕ) {ms : ℕ} (hms : 0 < ms ∧ ms < 2 ^ 32)
    (hlive : 0 < msToTicks ms % 2 ^ 64) {cap : I2CDeviceCap} {steps : List I2CStep}
    (h : ¬UnknownKindsAllowed cap steps) :
    ∃ s, Reachable (step msToTicks) .boot s ∧ ∃ x t,
      .called x.call x.thread (.transact (some cap) (some steps) t) ∈ s.trace ∧
        .transfer x ∈ s.trace ∧ ¬Confined cap x := by
  simp only [UnknownKindsAllowed, not_forall] at h
  obtain ⟨haccept, pre, st, post, hsplit, hpassed, ⟨hwrite, hread, hbus⟩, hgood, hescape⟩ := h
  obtain ⟨s, b, lease, hreach, rfl, rfl, hcalled, hpc, hhold⟩ :=
    exists_batch msToTicks hms hlive haccept
  rw [hsplit] at hpc
  obtain ⟨t, hreach', hsub, htransfer⟩ := hhold.issues msToTicks pre hpc hpassed hbus hgood
  refine ⟨t, hreach.trans hreach', b.transferOf 0 st true, .unlimited, hsub hcalled, htransfer, ?_⟩
  rintro ⟨-, hr, -, hle⟩
  exact hescape ⟨hr (if_neg hwrite), hle⟩

/-- `i2c_transact` is confined to the capability in the sealed handle, in every
run and whatever the other threads do, exactly for the batches whose unknown
kinds are allowed. -/
theorem transact_confined_iff (msToTicks : ℕ → ℕ)
    (hticks : ∃ ms, (0 < ms ∧ ms < 2 ^ 32) ∧ 0 < msToTicks ms % 2 ^ 64)
    (cap : I2CDeviceCap) (steps : List I2CStep) :
    (∀ s, Reachable (step msToTicks) .boot s → ∀ x t,
      .called x.call x.thread (.transact (some cap) (some steps) t) ∈ s.trace →
        .transfer x ∈ s.trace → Confined cap x) ↔
      UnknownKindsAllowed cap steps := by
  constructor
  · intro hconfined
    by_contra hnot
    obtain ⟨ms, hms, hlive⟩ := hticks
    obtain ⟨s, hs, x, t, hcalled, htransfer, hescape⟩ :=
      exists_escape msToTicks hms hlive hnot
    exact hescape (hconfined s hs x t hcalled htransfer)
  · intro hallowed s hs x t hcalled htransfer
    have hledger := Ledger.reachable hs
    obtain ⟨b, dev, steps', t', hcalled', haccept, hissues⟩ := hledger.issuedBy htransfer
    obtain ⟨-, hsame⟩ := hledger.once _ _ _ _ _ hcalled hcalled'
    cases hsame
    obtain ⟨hcap, hsteps, -⟩ := acceptBatch_ok haccept
    cases hcap
    cases hsteps
    exact hissues.confined haccept hallowed

/-- The AHT20 batch: trigger, wait 85 ms, read. -/
theorem transact_confined_measurement : (∃ ms, (0 < ms ∧ ms < 2 ^ 32) ∧ 0 < ms / 10 % 2 ^ 64) ∧
    ∀ s, Reachable (step (· / 10)) .boot s → ∀ x t,
      .called x.call x.thread (.transact (some ⟨0x38, 3, 0, 8, 150, 0⟩)
        (some [⟨0, 3, 0, some 1⟩, ⟨2, 0, 85, none⟩, ⟨1, 6, 0, some 2⟩]) t) ∈ s.trace →
        .transfer x ∈ s.trace → Confined ⟨0x38, 3, 0, 8, 150, 0⟩ x := by
  have hticks : ∃ ms, (0 < ms ∧ ms < 2 ^ 32) ∧ 0 < ms / 10 % 2 ^ 64 := ⟨10, by decide, by decide⟩
  refine ⟨hticks, (transact_confined_iff (· / 10) hticks _ _).mpr ?_⟩
  intro _ pre st post hsplit _ hunknown _
  have hst : st ∈ pre ++ st :: post := by simp
  rw [← hsplit] at hst
  obtain ⟨hwrite, hread, hdelay⟩ := hunknown
  simp only [List.mem_cons, List.not_mem_nil, or_false] at hst
  rcases hst with rfl | rfl | rfl
  · exact (hwrite rfl).elim
  · exact (hdelay rfl).elim
  · exact (hread rfl).elim

/-- A write-only capability of at most 8 bytes, and one step of kind 3 with a
buffer of 64 bytes: the driver reads 64 bytes from the device. -/
theorem transact_escapes_unknown_kind :
    ¬∀ (cap : I2CDeviceCap) (steps : List I2CStep) (s : State),
      Reachable (step (· / 10)) .boot s → ∀ x t,
        .called x.call x.thread (.transact (some cap) (some steps) t) ∈ s.trace →
          .transfer x ∈ s.trace → Confined cap x := by
  intro hall
  let cap : I2CDeviceCap := ⟨0x38, I2C_OP_WRITE, 0, 8, 150, 0⟩
  let steps : List I2CStep := [⟨3, 64, 0, some 1⟩]
  have hrun : (exec (step (· / 10)) (fun _ _ ↦ true) .boot
      [.call 0 (.transact (some cap) (some steps) .unlimited), .run 0 true, .run 0 true,
        .run 0 true, .run 0 true]).map State.trace =
      some [.called 0 0 (.transact (some cap) (some steps) .unlimited),
        .claimed ⟨0, cap, 150, some steps⟩ ⟨0, by decide⟩ ⟨true, 0x38, 0, 15, false⟩ 0,
        .entered 0 ⟨0, cap, steps⟩,
        .transfer ⟨0, 0, 0x38, .read, 64, true⟩] := by
    decide
  obtain ⟨s, hexec, htrace⟩ := Option.map_eq_some_iff.mp hrun
  have hconfined := hall cap steps s (exec_steps hexec).reachable
    ⟨0, 0, 0x38, .read, 64, true⟩ .unlimited (by simp [htrace]) (by simp [htrace])
  exact absurd hconfined.2.2.2 (by decide)

end PlantNode.Driver
