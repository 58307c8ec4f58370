import PlantNode.Driver.Calls

/-!
# Sleepers

Expiry is lazy: a reservation goes when some thread enters a section that calls
`expire_locked`, and only then are its waiters woken.  A waiter that nobody wakes
sleeps until its own timeout, so the deadline of the reservation it saw bounds
its sleep exactly when the timeout does.
-/

namespace PlantNode.Driver

open Foundation

/-- A sleep begun at tick `since` with timeout `t` ends by itself no later than
`seen` expires.  The clock cannot pass a deadline on its last tick. -/
def EndsByDeadline (since : ℕ) (t : Timeout) (seen : Reservation) : Prop :=
  t.elapsed since (seen.deadlineTick + 1) = true ∨ 2 ^ 64 ≤ seen.deadlineTick + 1

/-- The step begins no sleep that the waiter's timeout lets outlast the
reservation it saw. -/
def WakesInTime (s : State) : Action → Prop
  | .run me _ => ∀ c t gen seen, s.threads me = .waiting c t gen seen →
      s.reservations.sReservationGen = gen → t ≠ .ticks 0 → EndsByDeadline s.clock t seen
  | _ => True

/-- No thread is asleep past the deadline of the reservation it saw. -/
def NoneOversleeps (s : State) : Prop :=
  ∀ u c t since seen, s.threads u = .asleep c t since seen → s.clock ≤ seen.deadlineTick

theorem Timeout.elapsed_mono {t : Timeout} {since now now' : ℕ} (h : t.elapsed since now = true)
    (hle : now ≤ now') : t.elapsed since now' = true := by
  cases t with
  | ticks n =>
      simp only [elapsed, decide_eq_true_eq] at h ⊢
      exact h.trans hle
  | unlimited => cases h

theorem Timeout.not_elapsed_self {t : Timeout} (h : t ≠ .ticks 0) (now : ℕ) :
    t.elapsed now now = false := by
  cases t with
  | ticks n =>
      have hn : n ≠ 0 := by
        rintro rfl
        exact h rfl
      simp only [elapsed, decide_eq_false_iff_not, Nat.not_le]
      omega
  | unlimited => rfl

section Sleepers

variable {msToTicks : ℕ → ℕ} {s t : State} {a : Action} {u : ThreadId} {c : Claim}
  {tm : Timeout} {since : ℕ} {seen : Reservation}

theorem Pc.Drifts.asleep {pc pc' : Pc} (h : pc.Drifts pc') (hpc : pc' = .asleep c tm since seen) :
    pc = .asleep c tm since seen := by
  cases h with
  | stay => exact hpc
  | woken => cases hpc
  | timedOut => cases hpc

/-- A thread that sleeps after a step slept before it, or it has just gone to
sleep: its snapshot of the generation was current and its timeout not used up. -/
theorem Trans.asleep_from (h : Trans msToTicks s a t)
    (hpc : t.threads u = .asleep c tm since seen) :
    s.threads u = .asleep c tm since seen ∨
      ∃ ok gen, a = .run u ok ∧ s.threads u = .waiting c tm gen seen ∧
        s.reservations.sReservationGen = gen ∧ tm ≠ .ticks 0 ∧ since = s.clock ∧
          t.clock = s.clock := by
  rcases h.drift_or_move hpc (by rintro ⟨⟩) with hdrift | ⟨ok, r, woke, ha, move, -, hclock⟩
  · exact .inl (hdrift.asleep rfl)
  · generalize s.threads u = pc at move
    cases move with
    | slept c tm gen seen same block =>
        exact .inr ⟨ok, gen, ha, rfl, same, block, rfl, hclock⟩

theorem Trans.clock (h : Trans msToTicks s a t) :
    t.clock = s.clock ∨ a = .tick ∧ t.clock = s.clock + 1 ∧ t.clock < 2 ^ 64 ∧
      ∀ u, t.threads u = (s.threads u).onTick t.clock := by
  have hgranted : ∀ (m : State) me c, (m.granted me c).clock = m.clock := by
    intro m me c
    unfold State.granted
    cases c.steps <;> rfl
  cases h with
  | tick fits => exact .inr ⟨rfl, rfl, fits, fun _ ↦ rfl⟩
  | claimed me ok c tm i at_ vacant free => exact .inl (hgranted _ me c)
  | reentered me ok c tm h at_ found ours => exact .inl (hgranted _ me c)
  | _ => exact .inl rfl

theorem Pc.onTick_asleep {pc : Pc} {now : ℕ} (h : pc.onTick now = .asleep c tm since seen) :
    tm.elapsed since now = false := by
  cases pc with
  | asleep c' t' since' seen' =>
      simp only [onTick] at h
      split at h
      · cases h
      · rename_i hover
        cases h
        simpa using hover
  | _ => cases h

/-- The clock fits its 64 bits, and every sleeper's timeout is still running and
ends by the deadline. -/
structure Sleeping (s : State) : Prop where
  fits : s.clock < 2 ^ 64
  running : ∀ u c tm since seen, s.threads u = .asleep c tm since seen →
    tm.elapsed since s.clock = false
  ends : ∀ u c tm since seen, s.threads u = .asleep c tm since seen →
    EndsByDeadline since tm seen

theorem Sleeping.boot : Sleeping .boot where
  fits := by simp [State.boot]
  running := by simp [State.boot]
  ends := by simp [State.boot]

theorem Sleeping.step (h : Sleeping s) (hguard : WakesInTime s a) (ht : Trans msToTicks s a t) :
    Sleeping t where
  fits := by
    rcases ht.clock with hclock | ⟨-, -, hclock, -⟩
    · exact hclock ▸ h.fits
    · exact hclock
  running := by
    intro u c tm since seen hpc
    rcases ht.asleep_from hpc with hbefore | ⟨ok, gen, -, -, -, htm, rfl, hclock⟩
    · rcases ht.clock with hclock | ⟨-, -, -, hticked⟩
      · exact hclock ▸ h.running u c tm since seen hbefore
      · exact Pc.onTick_asleep ((hticked u).symm.trans hpc)
    · exact hclock ▸ Timeout.not_elapsed_self htm _
  ends := by
    intro u c tm since seen hpc
    rcases ht.asleep_from hpc with hbefore | ⟨ok, gen, rfl, hwait, hgen, htm, rfl, -⟩
    · exact h.ends u c tm since seen hbefore
    · exact hguard c tm gen seen hwait hgen htm

theorem EndsByDeadline.le {now : ℕ} (h : EndsByDeadline since tm seen)
    (hrunning : tm.elapsed since now = false) (hnow : now < 2 ^ 64) : now ≤ seen.deadlineTick := by
  rcases h with h | h
  · by_contra hlate
    rw [Timeout.elapsed_mono h (Nat.lt_of_not_le hlate)] at hrunning
    cases hrunning
  · omega

theorem sleeps_on (msToTicks : ℕ → ℕ) (hpc : s.threads u = .asleep c tm since seen) (k : ℕ)
    (hfits : s.clock + k < 2 ^ 64) (hrunning : tm.elapsed since (s.clock + k) = false) :
    ∃ m, Reachable (step msToTicks) s m ∧ m.clock = s.clock + k ∧
      m.threads u = .asleep c tm since seen := by
  induction k with
  | zero => exact ⟨s, .init, rfl, hpc⟩
  | succ k ih =>
      have hearlier : tm.elapsed since (s.clock + k) = false := by
        by_contra hover
        rw [Bool.not_eq_false] at hover
        rw [Timeout.elapsed_mono hover (Nat.add_le_add_left (Nat.le_succ k) _)] at hrunning
        cases hrunning
      obtain ⟨m, hreach, hclock, hm⟩ := ih (Nat.lt_of_succ_lt hfits) hearlier
      have hnext : m.clock + 1 = s.clock + (k + 1) := by rw [hclock]; rfl
      refine ⟨{ m with
          clock := m.clock + 1
          threads := fun u ↦ (m.threads u).onTick (m.clock + 1) },
        hreach.next .tick trivial ?_, hnext, ?_⟩
      · simp only [step]
        exact if_pos (hnext ▸ hfits)
      · simp [hm, Pc.onTick, hnext, hrunning]

theorem noneOversleeps (h : Steps (step msToTicks) WakesInTime .boot s) : NoneOversleeps s := by
  have hsleeping : Sleeping s := h.invariant .boot fun _ _ _ ih hguard hstep ↦
    ih.step hguard (step_trans msToTicks hstep)
  intro u c tm since seen hpc
  exact (hsleeping.ends u c tm since seen hpc).le (hsleeping.running u c tm since seen hpc)
    hsleeping.fits

/-- In every run whose sleeps end by the deadline of the reservation that was
seen, no thread is asleep past it.  Conversely, in any run, a sleep that its own
timeout lets outlast that deadline does outlast it when nobody else acts. -/
theorem none_oversleeps (msToTicks : ℕ → ℕ) :
    (∀ s, Steps (step msToTicks) WakesInTime .boot s → NoneOversleeps s) ∧
      ∀ s, Reachable (step msToTicks) .boot s → ∀ a t, step msToTicks s a = some t →
        ¬WakesInTime s a → ∃ m, Reachable (step msToTicks) t m ∧ ¬NoneOversleeps m := by
  refine ⟨fun s ↦ noneOversleeps, fun s hs a t hstep hlate ↦ ?_⟩
  cases a with
  | tick => exact (hlate trivial).elim
  | call me request => exact (hlate trivial).elim
  | run me ok =>
      simp only [WakesInTime, EndsByDeadline, not_forall, not_or, Bool.not_eq_true,
        Nat.not_le] at hlate
      obtain ⟨c, tm, gen, seen, hpc, hgen, htm, hrunning, hfits⟩ := hlate
      have ht : t = s.setPc me (.asleep c tm s.clock seen) := by
        simp only [step, runThread, hpc, waitStep] at hstep
        simpa [hgen, htm] using hstep.symm
      have htpc : t.threads me = .asleep c tm s.clock seen := by simp [ht]
      have htclock : t.clock = s.clock := by rw [ht]; rfl
      by_cases hpast : seen.deadlineTick < s.clock
      · refine ⟨t, .init, fun hall ↦ ?_⟩
        have := hall me c tm s.clock seen htpc
        omega
      · have hk : t.clock + (seen.deadlineTick + 1 - s.clock) = seen.deadlineTick + 1 := by omega
        obtain ⟨m, hreach, hclock, hm⟩ := sleeps_on msToTicks htpc
          (seen.deadlineTick + 1 - s.clock) (by rwa [hk]) (by rwa [hk])
        refine ⟨m, hreach, fun hall ↦ ?_⟩
        have := hall me c tm s.clock seen hm
        omega

end Sleepers

/-- A test that implies the guard: no wait ends after the reservation seen. -/
def timely (s : State) : Action → Bool
  | .run me _ =>
      match s.threads me with
      | .waiting _ t _ seen => t.elapsed s.clock (seen.deadlineTick + 1)
      | _ => true
  | _ => true

theorem wakesInTime_of_timely {s : State} {a : Action} (h : timely s a = true) :
    WakesInTime s a := by
  cases a with
  | run me ok =>
      intro c t gen seen hpc _ _
      left
      simpa [timely, hpc] using h
  | tick => trivial
  | call me request => trivial

/-- Thread 1 holds the device until tick 5; thread 2 waits for at most 4 ticks
and is still asleep at tick 3. -/
theorem none_oversleeps_short_timeout : ∃ s : State, NoneOversleeps s ∧ s.clock = 3 ∧
    ∃ c, s.threads 2 = .asleep c (.ticks 4) 0 ⟨true, 0x36, 1, 5, true⟩ := by
  let cap : I2CDeviceCap := ⟨0x36, 3, I2C_MAY_LEASE, 8, 150, 50⟩
  have hrun : (exec (step (· / 10)) timely .boot
      [.call 1 (.leaseAcquire (some cap) 0 .unlimited), .run 1 true,
        .call 2 (.leaseAcquire (some cap) 0 (.ticks 4)), .run 2 true, .run 2 true,
        .tick, .tick, .tick]).map (fun s ↦ (s.clock, s.threads 2)) =
      some (3, .asleep ⟨1, cap, 50, none⟩ (.ticks 4) 0 ⟨true, 0x36, 1, 5, true⟩) := by
    decide
  obtain ⟨s, hexec, hs⟩ := Option.map_eq_some_iff.mp hrun
  obtain ⟨hclock, hpc⟩ := Prod.ext_iff.mp hs
  have hsteps := (exec_steps hexec).mono fun s a h ↦ wakesInTime_of_timely h
  exact ⟨s, (none_oversleeps (· / 10)).1 s hsteps, hclock, _, hpc⟩

/-- Thread 1 leases the device until tick 5 and makes no further call; thread 2
waits for it without a limit and is asleep at tick 6. -/
theorem oversleeps_unlimited :
    ¬∀ (msToTicks : ℕ → ℕ) (s : State), Reachable (step msToTicks) .boot s →
      NoneOversleeps s := by
  intro hall
  let cap : I2CDeviceCap := ⟨0x36, 3, I2C_MAY_LEASE, 8, 150, 50⟩
  have hrun : (exec (step (· / 10)) (fun _ _ ↦ true) .boot
      [.call 1 (.leaseAcquire (some cap) 0 .unlimited), .run 1 true,
        .call 2 (.leaseAcquire (some cap) 0 .unlimited), .run 2 true, .run 2 true,
        .tick, .tick, .tick, .tick, .tick, .tick]).map (fun s ↦ (s.clock, s.threads 2)) =
      some (6, .asleep ⟨1, cap, 50, none⟩ .unlimited 0 ⟨true, 0x36, 1, 5, true⟩) := by
    decide
  obtain ⟨s, hexec, hs⟩ := Option.map_eq_some_iff.mp hrun
  obtain ⟨hclock, hpc⟩ := Prod.ext_iff.mp hs
  have hle := hall (· / 10) s (exec_steps hexec).reachable 2 _ _ _ _ hpc
  rw [show s.clock = 6 from hclock] at hle
  exact absurd hle (by decide)

end PlantNode.Driver
