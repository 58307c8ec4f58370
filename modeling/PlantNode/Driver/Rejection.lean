import PlantNode.Driver.Confinement

/-!
# Rejected batches

A batch is validated before it reserves the device, but for the buffer and the length of
a step, which the loop looks at when it comes to the step.  So a malformed step behind a
well-formed one is found after transfers.
-/

namespace PlantNode.Driver

open Foundation

/-- The batch is rejected before it reserves the device, or its first malformed step, if
only delays and well-formed steps precede it, follows no transfer. -/
def RejectedFirst (dev : I2CDevice) (steps : Option (List I2CStep)) : Prop :=
  ∀ cap l, acceptBatch dev steps = .ok (cap, l) → ∀ pre st post, l = pre ++ st :: post →
    Passed pre → st.kind ≠ I2cDelay → st.malformed = true → busSteps pre = []

/-- In a run, every call with these arguments that was rejected has issued no transfer. -/
def RejectedUntouched (dev : I2CDevice) (steps : Option (List I2CStep)) (s : State) : Prop :=
  ∀ id me t ret, .called id me (.transact dev steps t) ∈ s.trace →
    .returned id me ret ∈ s.trace → ret = .error .EPERM ∨ ret = .error .EINVAL →
      transfersOf id s.trace = []

variable {msToTicks : ℕ → ℕ} {dev : I2CDevice} {steps : Option (List I2CStep)} {s : State}

theorem Outcome.rejected {me : ThreadId} {b : Batch} {ret : Ret} {l : List Transfer}
    (h : Outcome me b ret l) (hret : ret = .error .EPERM ∨ ret = .error .EINVAL)
    (hfirst : ∀ pre st post, b.steps = pre ++ st :: post → Passed pre → st.kind ≠ I2cDelay →
      st.malformed = true → busSteps pre = []) : l = [] := by
  rcases hret with rfl | rfl
  · cases h
  · cases h with
    | invalid pre st post split passed bus bad =>
        rw [Batch.wire, hfirst pre st post split passed bus bad, List.map_nil]

theorem Ledger.rejectedUntouched (h : Ledger s) (hfirst : RejectedFirst dev steps) :
    RejectedUntouched dev steps s := by
  intro id me t ret hcalled hreturned hret
  refine List.eq_nil_iff_forall_not_mem.mpr fun x hx ↦ ?_
  obtain ⟨htransfer, hcall⟩ := mem_transfersOf.mp hx
  obtain ⟨b, hentered, hb⟩ := h.issued x htransfer
  subst hcall
  obtain ⟨dev', steps', t', hcalled', haccept⟩ := h.requested hentered
  rw [hb] at hcalled'
  obtain ⟨-, hsame⟩ := h.once _ _ _ _ _ hcalled hcalled'
  cases hsame
  rw [← hb] at hreturned hx
  have houtcome := h.outcome_of_returned hentered hreturned
  rw [houtcome.rejected hret (hfirst _ _ haccept)] at hx
  cases hx

/-- Otherwise a thread that holds the device runs the batch up to the malformed step. -/
theorem exists_touched (msToTicks : ℕ → ℕ) {ms : ℕ} (hms : 0 < ms ∧ ms < 2 ^ 32)
    (hlive : 0 < msToTicks ms % 2 ^ 64) (h : ¬RejectedFirst dev steps) :
    ∃ s, Reachable (step msToTicks) .boot s ∧ ¬RejectedUntouched dev steps s := by
  simp only [RejectedFirst, not_forall] at h
  obtain ⟨cap, l, haccept, pre, st, post, hsplit, hpassed, hbus, hbad, htouched⟩ := h
  obtain ⟨rfl, rfl, -⟩ := acceptBatch_ok haccept
  obtain ⟨s, b, lease, hreach, rfl, rfl, hcalled, hpc, hhold⟩ :=
    exists_batch msToTicks hms hlive haccept
  rw [hsplit] at hpc
  obtain ⟨t, hreach', htrace⟩ := hhold.rejects msToTicks pre hpc hpassed hbus hbad
  refine ⟨t, hreach.trans hreach', fun huntouched ↦ ?_⟩
  have hempty := huntouched b.call 0 .unlimited (.error .EINVAL)
    (by rw [htrace, List.append_assoc]; exact List.mem_append_left _ hcalled) (by simp [htrace])
    (.inr rfl)
  obtain ⟨st', hst'⟩ := List.exists_mem_of_ne_nil _ htouched
  have hmem : b.transferOf 0 st' true ∈ transfersOf b.call t.trace := by
    refine mem_transfersOf.mpr ⟨?_, rfl⟩
    have hwire : b.transferOf 0 st' true ∈ b.wire 0 pre := List.mem_map.mpr ⟨st', hst', rfl⟩
    simp [htrace, hwire]
  rw [hempty] at hmem
  cases hmem

/-- A rejected batch has touched nothing, in every run and whatever the other threads do,
exactly for the batches whose malformed step follows no transfer. -/
theorem rejected_untouched_iff (msToTicks : ℕ → ℕ)
    (hticks : ∃ ms, (0 < ms ∧ ms < 2 ^ 32) ∧ 0 < msToTicks ms % 2 ^ 64)
    (dev : I2CDevice) (steps : Option (List I2CStep)) :
    (∀ s, Reachable (step msToTicks) .boot s → RejectedUntouched dev steps s) ↔
      RejectedFirst dev steps := by
  constructor
  · intro hall
    by_contra hnot
    obtain ⟨ms, hms, hlive⟩ := hticks
    obtain ⟨s, hs, htouched⟩ := exists_touched msToTicks hms hlive hnot
    exact htouched (hall s hs)
  · exact fun hfirst s hs ↦ (Ledger.reachable hs).rejectedUntouched hfirst

/-- A read without a buffer after a delay. -/
theorem rejected_untouched_single : (∃ ms, (0 < ms ∧ ms < 2 ^ 32) ∧ 0 < ms / 10 % 2 ^ 64) ∧
    ∀ s, Reachable (step (· / 10)) .boot s → RejectedUntouched (some ⟨0x38, 3, 0, 8, 150, 0⟩)
      (some [⟨2, 0, 85, none⟩, ⟨1, 6, 0, none⟩]) s := by
  have hticks : ∃ ms, (0 < ms ∧ ms < 2 ^ 32) ∧ 0 < ms / 10 % 2 ^ 64 := ⟨10, by decide, by decide⟩
  refine ⟨hticks, (rejected_untouched_iff (· / 10) hticks _ _).mpr ?_⟩
  intro cap l haccept pre st post hsplit hpassed hbus hbad
  obtain ⟨-, hl, -⟩ := acceptBatch_ok haccept
  cases hl
  rcases pre with _ | ⟨p, _ | ⟨q, pre⟩⟩
  · rfl
  · cases hsplit
    rfl
  · simp at hsplit

/-- A write, and then a read without a buffer: the write is on the bus when the batch is
rejected. -/
theorem rejected_after_write :
    ¬∀ dev steps s, Reachable (step (· / 10)) .boot s → RejectedUntouched dev steps s := by
  intro hall
  let dev : I2CDevice := some ⟨0x38, 3, 0, 8, 150, 0⟩
  let steps : Option (List I2CStep) := some [⟨0, 3, 0, some 1⟩, ⟨1, 6, 0, none⟩]
  have hrun : (exec (step (· / 10)) (fun _ _ ↦ true) .boot
      [.call 0 (.transact dev steps .unlimited), .run 0 true, .run 0 true, .run 0 true,
        .run 0 true, .run 0 true, .run 0 true]).map State.trace =
      some [.called 0 0 (.transact dev steps .unlimited),
        .claimed ⟨0, ⟨0x38, 3, 0, 8, 150, 0⟩, 150, steps⟩ ⟨0, by decide⟩
          ⟨true, 0x38, 0, 15, false⟩ 0,
        .entered 0 ⟨0, ⟨0x38, 3, 0, 8, 150, 0⟩, [⟨0, 3, 0, some 1⟩, ⟨1, 6, 0, none⟩]⟩,
        .transfer ⟨0, 0, 0x38, .write, 3, true⟩, .returned 0 0 (.error .EINVAL)] := by
    decide
  obtain ⟨s, hexec, htrace⟩ := Option.map_eq_some_iff.mp hrun
  have huntouched := hall dev steps s (exec_steps hexec).reachable 0 0 .unlimited (.error .EINVAL)
    (by simp [htrace]) (by simp [htrace]) (.inr rfl)
  rw [htrace] at huntouched
  revert huntouched
  decide

end PlantNode.Driver
