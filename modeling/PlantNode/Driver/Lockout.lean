import PlantNode.Driver.Confinement
import PlantNode.Driver.TableSteps

/-!
# Bounded lockout

The entry in an active slot is the one its latest claim wrote, so a deadline is
fixed when it is claimed.  It stays within the ceiling of the capability except
for a lease whose `maxLeaseMs` is 0: the clamp of `i2c_lease_acquire` skips a
ceiling of 0, and the final zero check then sees the requested duration.
-/

namespace PlantNode.Driver

open Foundation

section Lockout

variable {msToTicks : ℕ → ℕ} {s t : State} {a : Action}

/-- A leasable capability without a ceiling is not asked for any ticks. -/
def Request.WithinCeiling (msToTicks : ℕ → ℕ) : Request → Prop
  | .leaseAcquire (some cap) durationMs _ =>
      cap.flags &&& I2C_MAY_LEASE ≠ 0 → cap.maxLeaseMs = 0 →
        msToTicks durationMs.toNat ≤ msToTicks 0
  | _ => True

instance (msToTicks : ℕ → ℕ) : DecidablePred (Request.WithinCeiling msToTicks)
  | .leaseAcquire (some _) _ _ => inferInstanceAs (Decidable (_ → _ → _))
  | .leaseAcquire none _ _ => .isTrue trivial
  | .transact .. => .isTrue trivial
  | .leaseRelease _ => .isTrue trivial

def WithinCeiling (msToTicks : ℕ → ℕ) (_ : State) : Action → Prop
  | .call _ request => request.WithinCeiling msToTicks
  | _ => True

instance (msToTicks : ℕ → ℕ) (s : State) : DecidablePred (WithinCeiling msToTicks s)
  | .call _ request => inferInstanceAs (Decidable (request.WithinCeiling msToTicks))
  | .tick => .isTrue trivial
  | .run .. => .isTrue trivial

theorem leaseHoldMs_le (cap : I2CDeviceCap) (durationMs : UInt32) :
    leaseHoldMs cap durationMs ≤ cap.maxLeaseMs ∨
      cap.maxLeaseMs = 0 ∧ leaseHoldMs cap durationMs = durationMs := by
  unfold leaseHoldMs
  by_cases hclamp : cap.maxLeaseMs ≠ 0 ∧ cap.maxLeaseMs < durationMs
  · simp [hclamp]
  by_cases hzero : durationMs = 0
  · simp [hzero]
  by_cases hceiling : cap.maxLeaseMs = 0
  · simp [hceiling, hzero]
  · simp only [if_neg hclamp, if_neg hzero]
    exact .inl (UInt32.not_lt.mp fun hlt ↦ hclamp ⟨hceiling, hlt⟩)

theorem acceptLease_ok {dev : I2CDevice} {durationMs holdMs : UInt32} {cap : I2CDeviceCap}
    (h : acceptLease dev durationMs = .ok (cap, holdMs)) :
    dev = some cap ∧ cap.flags &&& I2C_MAY_LEASE ≠ 0 ∧ holdMs = leaseHoldMs cap durationMs := by
  unfold acceptLease at h
  split at h
  · cases h
  rename_i hauth
  obtain ⟨rfl, -⟩ := authorize_ok hauth
  split at h
  · cases h
  rename_i hflag
  split at h
  · cases h
  cases h
  exact ⟨rfl, hflag, rfl⟩

theorem Request.limit_of_start {id : ℕ} {request : Request} {c : Claim} {tm : Timeout}
    (hmono : Monotone msToTicks) (h : request.start id = .ok (.reserving c tm))
    (hceiling : request.WithinCeiling msToTicks) :
    msToTicks c.holdMs ≤ msToTicks c.limitMs := by
  cases Request.starts h with
  | transact => exact le_rfl
  | leaseAcquire dev durationMs t cap holdMs haccept =>
      obtain ⟨rfl, hflag, rfl⟩ := acceptLease_ok haccept
      rcases leaseHoldMs_le cap durationMs with hle | ⟨hzero, heq⟩
      · exact hmono (UInt32.le_iff_toNat_le.mp hle)
      · simpa [Claim.limitMs, Claim.isLease, hzero, heq] using hceiling hflag hzero

/-- The entry of every active slot is the one its latest claim wrote, by the
thread whose call it was, with a deadline within the ceiling of that claim. -/
def BoundedLockout (msToTicks : ℕ → ℕ) (s : State) : Prop :=
  ∀ i, (s.reservations.sReservations i).active = true →
    ∃ q, lastClaim (fun q ↦ q.slot == i) s.trace = some q ∧
      q.entry = s.reservations.sReservations i ∧
      Opens s.trace q.entry.owner q.claim ∧ q.entry.address = q.claim.cap.address ∧
        q.entry.deadlineTick ≤ q.tick + msToTicks q.claim.limitMs

theorem called_within (h : Steps (step msToTicks) (WithinCeiling msToTicks) .boot s) :
    ∀ id me request, .called id me request ∈ s.trace → request.WithinCeiling msToTicks := by
  refine h.invariant (I := fun s ↦ ∀ id me request, .called id me request ∈ s.trace →
    request.WithinCeiling msToTicks) ?_ ?_
  · simp [State.boot]
  · intro s a t ih hguard hstep id me request hmem
    cases step_trans msToTicks hstep with
    | tick fits => exact ih _ _ _ hmem
    | rejected me' request' e at_ refused =>
        simp only [State.finish, State.opened, State.setPc_trace, State.emit_trace,
          List.append_assoc, List.mem_append, List.mem_cons, List.not_mem_nil, or_false,
          Event.called.injEq, reduceCtorEq] at hmem
        rcases hmem with hmem | ⟨-, -, rfl⟩
        · exact ih _ _ _ hmem
        · exact hguard
    | started me' request' pc at_ accepted =>
        simp only [State.opened, State.setPc_trace, State.emit_trace, List.mem_append,
          List.mem_cons, List.not_mem_nil, or_false, Event.called.injEq] at hmem
        rcases hmem with hmem | ⟨-, -, rfl⟩
        · exact ih _ _ _ hmem
        · exact hguard
    | moved me' ok at_ move => exact ih _ _ _ hmem
    | claimed me' ok c tm i at_ vacant free =>
        apply ih id me request
        unfold State.granted at hmem
        split at hmem <;> simpa [State.finish] using hmem
    | reentered me' ok c tm e at_ found ours =>
        apply ih id me request
        unfold State.granted at hmem
        split at hmem <;> simpa [State.finish] using hmem
    | transferred me' ok b lease st rest at_ good =>
        exact ih id me request (by simpa using hmem)
    | returned me' ok at_ done =>
        exact ih id me request (by simpa [State.finish] using hmem)

theorem BoundedLockout.step (h : BoundedLockout msToTicks s) (hledger : Ledger s)
    (hlimits : ∀ me c tm, s.threads me = .reserving c tm →
      msToTicks c.holdMs ≤ msToTicks c.limitMs)
    (ht : Trans msToTicks s a t) : BoundedLockout msToTicks t := by
  intro i hi
  have hgrow := ht.trace_prefix
  rcases ht.claims with ⟨hclaims, hshrinks⟩ | ⟨me, ok, c, tm, j, -, hpc, -, hfree, hslots, hclaims⟩
  · have hkept := hshrinks i hi
    obtain ⟨q, hq, hentry, hopens, haddress, hdeadline⟩ := h i (hkept ▸ hi)
    refine ⟨q, ?_, hentry.trans hkept.symm, hopens.of_prefix hgrow, haddress, hdeadline⟩
    rwa [lastClaim, hclaims]
  · rw [lastClaim_append _ hclaims]
    by_cases hij : i = j
    · subst hij
      have hopens := (hledger.claims me c (by simp [hpc, Pc.claim?])).1
      refine ⟨s.claimRecord msToTicks me c i, if_pos (beq_self_eq_true _), ?_,
        hopens.of_prefix hgrow, rfl, ?_⟩
      · rw [hslots, Function.update_self]
      · calc (s.clock + msToTicks c.holdMs) % 2 ^ 64
            ≤ s.clock + msToTicks c.holdMs := Nat.mod_le _ _
          _ ≤ s.clock + msToTicks c.limitMs := Nat.add_le_add_left (hlimits me c tm hpc) _
    · rw [hslots, Function.update_of_ne hij] at hi ⊢
      obtain ⟨hkept, hactive, -⟩ := expireLocked_active hi
      obtain ⟨q, hq, hentry, hopens, haddress, hdeadline⟩ := h i hactive
      refine ⟨q, ?_, hentry.trans hkept.symm, hopens.of_prefix hgrow, haddress, hdeadline⟩
      exact (if_neg fun hslot ↦ hij (beq_iff_eq.mp hslot).symm).trans hq

/-- A slot that is active before and after a step keeps its entry, unless the
entry had expired and the step is a fresh claim of the slot. -/
theorem Trans.deadline_fixed (ht : Trans msToTicks s a t) (i : Slot)
    (hi : (s.reservations.sReservations i).active = true)
    (hi' : (t.reservations.sReservations i).active = true) :
    t.reservations.sReservations i = s.reservations.sReservations i ∨
      (s.reservations.sReservations i).deadlineTick ≤ s.clock ∧
        ∃ q, claimsOf t.trace = claimsOf s.trace ++ [q] ∧ q.slot = i := by
  rcases ht.claims with ⟨-, hshrinks⟩ | ⟨me, ok, c, tm, j, -, -, -, hfree, hslots, hclaims⟩
  · exact .inl (hshrinks i hi')
  · by_cases hij : i = j
    · subst hij
      refine .inr ⟨?_, _, hclaims, rfl⟩
      by_contra hlive
      rw [expireLocked_fresh (Nat.lt_of_not_le hlive), hi] at hfree
      cases hfree
    · rw [hslots, Function.update_of_ne hij] at hi' ⊢
      exact .inl (expireLocked_active hi').1

/-- In a run whose leases stay within their ceiling each active reservation has the deadline
that its claim gave it, at most the ceiling past the tick of that claim. -/
theorem boundedLockout (hmono : Monotone msToTicks)
    (h : Steps (step msToTicks) (WithinCeiling msToTicks) .boot s) :
    BoundedLockout msToTicks s := by
  refine h.invariant_over (K := fun s ↦ Ledger s ∧ ∀ id me request,
    .called id me request ∈ s.trace → request.WithinCeiling msToTicks)
    (fun s hs ↦ ⟨Ledger.reachable hs.reachable, called_within hs⟩) ?_ ?_
  · intro i hi
    simp [State.boot, Reservations.boot] at hi
  · rintro s a t ⟨hledger, hcalls⟩ ih - hstep
    refine ih.step hledger (fun me c tm hpc ↦ ?_) (step_trans msToTicks hstep)
    obtain ⟨⟨request, tm', hcalled, hstart⟩, -⟩ := hledger.claims me c (by simp [hpc, Pc.claim?])
    exact Request.limit_of_start hmono hstart (hcalls _ _ _ hcalled)

/-- In every run whose leases stay within their ceiling, each active reservation has the
deadline its claim gave it, at most the ceiling past the tick of that claim; and in every run,
no step moves the deadline of a reservation that stays active. -/
theorem lockout_bounded (hmono : Monotone msToTicks) :
    (∀ s, Steps (step msToTicks) (WithinCeiling msToTicks) .boot s →
      BoundedLockout msToTicks s) ∧
    ∀ s, Reachable (step msToTicks) .boot s →
      ∀ a t, step msToTicks s a = some t → ∀ i,
        (s.reservations.sReservations i).active = true →
        (t.reservations.sReservations i).active = true →
        t.reservations.sReservations i = s.reservations.sReservations i ∨
          (s.reservations.sReservations i).deadlineTick ≤ s.clock ∧
            ∃ q, claimsOf t.trace = claimsOf s.trace ++ [q] ∧ q.slot = i :=
  ⟨fun _ h ↦ boundedLockout hmono h,
    fun _ _ _ _ hstep ↦ (step_trans msToTicks hstep).deadline_fixed⟩

end Lockout

/-- The soil sensor's lease of at most 5 s, asked for 60 s. -/
theorem lockout_bounded_lease : ∃ s, BoundedLockout (· / 10) s ∧
    s.reservations.sReservations ⟨0, by decide⟩ = ⟨true, 0x36, 1, 500, true⟩ := by
  have hrun : (exec (step (· / 10)) (fun s a ↦ decide (WithinCeiling (· / 10) s a)) .boot
      [.call 1 (.leaseAcquire (some ⟨0x36, 3, 1, 8, 150, 5000⟩) 60000 .unlimited),
        .run 1 true]).map (fun s ↦ s.reservations.sReservations ⟨0, by decide⟩) =
      some ⟨true, 0x36, 1, 500, true⟩ := by
    decide
  obtain ⟨s, hexec, hslot⟩ := Option.map_eq_some_iff.mp hrun
  have hsteps := (exec_steps hexec).mono fun s a hguard ↦ of_decide_eq_true hguard
  exact ⟨s, (lockout_bounded fun _ _ h ↦ Nat.div_le_div_right h).1 s hsteps, hslot⟩

/-- A leasable capability whose `maxLeaseMs` is 0, asked for 1000 ms: the lease is
granted for all of them. -/
theorem lockout_unbounded_without_ceiling :
    ¬∀ msToTicks : ℕ → ℕ, Monotone msToTicks → ∀ s, Reachable (step msToTicks) .boot s →
      BoundedLockout msToTicks s := by
  intro hall
  let cap : I2CDeviceCap := ⟨0x36, 3, I2C_MAY_LEASE, 8, 150, 0⟩
  have hrun : (exec (step (· / 10)) (fun _ _ ↦ true) .boot
      [.call 1 (.leaseAcquire (some cap) 1000 .unlimited), .run 1 true]).map
        (fun s ↦ (s.reservations.sReservations ⟨0, by decide⟩,
          lastClaim (fun q ↦ q.slot == ⟨0, by decide⟩) s.trace)) =
      some (⟨true, 0x36, 1, 100, true⟩,
        some ⟨⟨0, cap, 1000, none⟩, ⟨0, by decide⟩, ⟨true, 0x36, 1, 100, true⟩, 0⟩) := by
    decide
  obtain ⟨s, hexec, hs⟩ := Option.map_eq_some_iff.mp hrun
  obtain ⟨hslot, hlast⟩ := Prod.ext_iff.mp hs
  dsimp only at hslot hlast
  obtain ⟨q, hq, -, -, -, hdeadline⟩ :=
    hall (· / 10) (fun _ _ h ↦ Nat.div_le_div_right h) s (exec_steps hexec).reachable
      ⟨0, by decide⟩ (by rw [hslot])
  cases hlast.symm.trans hq
  exact absurd hdeadline (by decide)

end PlantNode.Driver
