import PlantNode.Driver.Ownership

/-!
# The return to the caller

The machine of the driver ends a call with its last section.  The thread is then still
inside `reserve_device`, `release_device` or the function that called them, without the
lock, and until it is back in its caller the clock goes on and other threads enter the
driver.  Here the return is a step of its own.
-/

namespace PlantNode.Driver

open Foundation

section Results

variable {msToTicks : ℕ → ℕ} {s t : State} {a : Action} {me u : ThreadId} {id : ℕ} {ret : Ret}

theorem State.granted_returned {c : Claim} (hne : u ≠ me)
    (h : .returned id u ret ∈ (s.granted me c).trace) : .returned id u ret ∈ s.trace := by
  unfold State.granted at h
  split at h
  · exact mem_of_mem_snoc h (by simp [hne])
  · exact mem_of_mem_snoc h (by simp)

/-- A result is fixed by a step of its own thread. -/
theorem Trans.returned_by (h : Trans msToTicks s a t) (hactor : a.actor? ≠ some me)
    (hret : .returned id me ret ∈ t.trace) : .returned id me ret ∈ s.trace := by
  have hne : ∀ {u}, a.actor? = some u → me ≠ u := by
    rintro u hu rfl
    exact hactor hu
  cases h with
  | tick fits => exact hret
  | rejected u request err at_ refused =>
      exact mem_of_mem_snoc (mem_of_mem_snoc hret (by simp [hne rfl])) (by simp)
  | started u request pc at_ accepted => exact mem_of_mem_snoc hret (by simp)
  | moved u ok at_ move => exact hret
  | claimed u ok c tm i at_ vacant free =>
      exact mem_of_mem_snoc (State.granted_returned (hne rfl) hret) (by simp)
  | reentered u ok c tm h at_ found ours =>
      exact State.granted_returned (s := s.commit _ _) (hne rfl) hret
  | transferred u ok b lease st rest at_ good => exact mem_of_mem_snoc hret (by simp)
  | returned u ok at_ done => exact mem_of_mem_snoc hret (by simp [hne rfl])

end Results

namespace Callers

/-- The driver, and the threads whose call is over but for its return. -/
structure State where
  driver : Driver.State
  leaving : ThreadId → Bool

def State.boot : State :=
  ⟨.boot, fun _ ↦ false⟩

inductive Action where
  | driver (a : Driver.Action)
  | ret (me : ThreadId)
  deriving DecidableEq, Repr

/-- The thread is inside a call. -/
def State.Busy (s : State) (me : ThreadId) : Prop :=
  s.driver.threads me ≠ .idle ∨ s.leaving me = true

instance (s : State) (me : ThreadId) : Decidable (s.Busy me) :=
  inferInstanceAs (Decidable (_ ∨ _))

/-- A thread leaves its call when the driver is done with it. -/
def State.after (s : State) (a : Driver.Action) (d : Driver.State) : State :=
  ⟨d, fun u ↦ s.leaving u || (decide (a.actor? = some u) && decide (d.threads u = .idle))⟩

def State.back (s : State) (me : ThreadId) : State :=
  { s with leaving := Function.update s.leaving me false }

section Machine

variable (msToTicks : ℕ → ℕ)

/-- One step: of the driver, by a thread that is not on its way out, or a return. -/
def step (s : State) : Action → Option State
  | .driver a =>
      if a.actor?.any s.leaving then none else (Driver.step msToTicks s.driver a).map (s.after a)
  | .ret me => if s.leaving me then some (s.back me) else none

/-- Thread `me` calls the driver in the state `s` and is back in its caller with the result
`ret` in the state `t`. -/
def Returns (s : State) (me : ThreadId) (request : Request) (ret : Ret) (t : State) : Prop :=
  ∃ s₁ m, step msToTicks s (.driver (.call me request)) = some s₁ ∧
    Steps (step msToTicks) (fun s _ ↦ s.Busy me) s₁ m ∧
    step msToTicks m (.ret me) = some t ∧ .returned s.driver.calls me ret ∈ t.driver.trace

end Machine

section Callers

variable {msToTicks : ℕ → ℕ} {s t : State} {a : Action} {me : ThreadId} {request : Request}
  {ret : Ret}

/-- What one step can do. -/
theorem step_cases (h : step msToTicks s a = some t) :
    (∃ b d, a = .driver b ∧ (∀ u, b.actor? = some u → s.leaving u = false) ∧
      Driver.step msToTicks s.driver b = some d ∧ t = s.after b d) ∨
    ∃ me, a = .ret me ∧ s.leaving me = true ∧ t = s.back me := by
  cases a with
  | driver b =>
      simp only [step] at h
      split at h
      · cases h
      · rename_i hstays
        obtain ⟨d, hd, rfl⟩ := Option.map_eq_some_iff.mp h
        refine .inl ⟨b, d, rfl, fun u hu ↦ ?_, hd, rfl⟩
        rwa [hu, Option.any_some, Bool.not_eq_true] at hstays
  | ret me =>
      simp only [step] at h
      split at h
      · cases h
        exact .inr ⟨me, rfl, ‹_›, rfl⟩
      · cases h

/-- Every run is a run of the driver. -/
theorem reachable_driver (h : Reachable (step msToTicks) .boot s) :
    Reachable (Driver.step msToTicks) .boot s.driver := by
  refine h.refine_stutter State.driver fun s a t _ hstep ↦ ?_
  rcases step_cases hstep with ⟨b, d, -, -, hd, rfl⟩ | ⟨me, -, -, rfl⟩
  · exact .inr ⟨b, trivial, hd⟩
  · exact .inl rfl

/-- Every run of the driver is one of these runs, with every return taken at once. -/
theorem driver_reachable {d : Driver.State} (h : Reachable (Driver.step msToTicks) .boot d) :
    Reachable (step msToTicks) .boot ⟨d, fun _ ↦ false⟩ := by
  induction h with
  | init => exact .init
  | @next s d a prior _ hstep ih =>
      have hmove : step msToTicks ⟨s, fun _ ↦ false⟩ (.driver a) =
          some (State.after ⟨s, fun _ ↦ false⟩ a d) := by
        cases hactor : a.actor? <;> simp [step, hactor, hstep]
      have hdone := ih.next _ trivial hmove
      by_cases hleaves : ∃ me, a.actor? = some me ∧ d.threads me = .idle
      · obtain ⟨me, hme, hidle⟩ := hleaves
        have hback : (State.after ⟨s, fun _ ↦ false⟩ a d).back me = ⟨d, fun _ ↦ false⟩ := by
          simp only [State.back, State.after, State.mk.injEq, true_and]
          funext u
          by_cases hu : u = me
          · rw [hu, Function.update_self]
          · simp [Function.update_of_ne hu, hme, Ne.symm hu]
        refine hdone.next (.ret me) trivial ?_
        rw [← hback]
        simp [step, State.after, hme, hidle]
      · have hsame : State.after ⟨s, fun _ ↦ false⟩ a d = ⟨d, fun _ ↦ false⟩ := by
          simp only [State.after, State.mk.injEq, true_and]
          funext u
          simpa using fun hme hidle ↦ hleaves ⟨u, hme, hidle⟩
        rwa [hsame] at hdone

/-! ## From the last section to the return -/

/-- The driver is done with thread `me`, in the state `d`, and other threads have gone on. -/
structure Done (msToTicks : ℕ → ℕ) (me : ThreadId) (d d' : Driver.State) : Prop where
  idle : d.threads me = .idle
  others : Steps (Driver.step msToTicks) (fun _ a ↦ a.actor? ≠ some me) d d'

theorem Done.returned {d d' : Driver.State} {id : ℕ} (h : Done msToTicks me d d')
    (hret : .returned id me ret ∈ d'.trace) : .returned id me ret ∈ d.trace := by
  have hback : .returned id me ret ∈ d'.trace → .returned id me ret ∈ d.trace :=
    h.others.invariant (I := fun m ↦ .returned id me ret ∈ m.trace → .returned id me ret ∈ d.trace)
      (fun hret ↦ hret) fun m a m' ih hother hstep hret ↦
        ih ((step_trans msToTicks hstep).returned_by hother hret)
  exact hback hret

theorem Done.idle_after {d d' : Driver.State} (h : Done msToTicks me d d') :
    d'.threads me = .idle := by
  refine h.others.invariant (I := fun m ↦ m.threads me = .idle) h.idle ?_
  intro m a m' hidle hother hstep
  exact ((step_trans msToTicks hstep).drifts hother).idle hidle

theorem Done.clock_le {d d' : Driver.State} (h : Done msToTicks me d d') : d.clock ≤ d'.clock :=
  h.others.invariant (I := fun m ↦ d.clock ≤ m.clock) le_rfl fun _ _ _ hle _ hstep ↦
    hle.trans (step_trans msToTicks hstep).clock_le

/-- A call in progress: in the driver, or done and on its way back. -/
def Within (msToTicks : ℕ → ℕ) (s : Driver.State) (me : ThreadId) (request : Request)
    (m : State) : Prop :=
  (m.leaving me = false → InCall msToTicks s me request m.driver) ∧
    (m.leaving me = true → ∃ d, InCall msToTicks s me request d ∧ Done msToTicks me d m.driver)

theorem Within.of_inCall {s d : Driver.State} {m : State} {b : Driver.Action}
    (h : InCall msToTicks s me request d) (hb : b.actor? = some me) (hm : m.leaving me = false) :
    Within msToTicks s me request (m.after b d) := by
  refine ⟨fun _ ↦ h, fun hleaving ↦ ⟨d, h, ?_, .init⟩⟩
  simpa [State.after, hm, hb] using hleaving

theorem Within.step {s : Driver.State} {m m' : State} (h : Within msToTicks s me request m)
    (hbusy : m.Busy me) (hstep : step msToTicks m a = some m') (hbusy' : m'.Busy me) :
    Within msToTicks s me request m' := by
  rcases step_cases hstep with ⟨b, d, -, hstays, hd, rfl⟩ | ⟨u, -, hleaving, rfl⟩
  · by_cases hb : b.actor? = some me
    · have hin := hstays me hb
      have hpc : m.driver.threads me ≠ .idle := hbusy.resolve_right (by simp [hin])
      exact .of_inCall ((h.1 hin).next hpc hd) hb hin
    · have hsame : (m.after b d).leaving me = m.leaving me := by simp [State.after, hb]
      refine ⟨fun hin ↦ ?_, fun hleaving ↦ ?_⟩
      · rw [hsame] at hin
        exact (h.1 hin).next (hbusy.resolve_right (by simp [hin])) hd
      · rw [hsame] at hleaving
        obtain ⟨d₀, hcall, hdone⟩ := h.2 hleaving
        exact ⟨d₀, hcall, hdone.idle, hdone.others.next b hb hd⟩
  · by_cases hu : u = me
    · subst hu
      obtain ⟨d₀, -, hdone⟩ := h.2 hleaving
      rcases hbusy' with hpc | hback
      · exact absurd hdone.idle_after hpc
      · simp [State.back] at hback
    · have hsame : (m.back u).leaving me = m.leaving me := Function.update_of_ne (Ne.symm hu) _ _
      rw [Within, hsame]
      exact h

/-- A call that returns was done in some state of the driver, and after that its thread did
nothing. -/
theorem Returns.done (h : Returns msToTicks s me request ret t) :
    ∃ d, InCall msToTicks s.driver me request d ∧ Done msToTicks me d t.driver ∧
      .returned s.driver.calls me ret ∈ d.trace := by
  obtain ⟨s₁, m, hcall, hsteps, hback, hret⟩ := h
  have hwithin : m.Busy me → Within msToTicks s.driver me request m := by
    refine hsteps.invariant (I := fun m ↦ m.Busy me → Within msToTicks s.driver me request m)
      (fun _ ↦ ?_) fun m a m' ih hbusy hstep hbusy' ↦ (ih hbusy).step hbusy hstep hbusy'
    rcases step_cases hcall with ⟨b, d, ⟨⟩, hstays, hd, rfl⟩ | ⟨u, ⟨⟩, -⟩
    exact .of_inCall ⟨d, hd, .init⟩ rfl (hstays me rfl)
  rcases step_cases hback with ⟨b, d, ⟨⟩, -⟩ | ⟨u, ⟨⟩, hleaving, rfl⟩
  obtain ⟨d, hin, hdone⟩ := (hwithin (.inr hleaving)).2 hleaving
  exact ⟨d, hin, hdone, hdone.returned hret⟩

/-! ## What a call leaves to its caller -/

/-- What a call that thread `me` makes in the state `s` leaves in the table when it is back
in its caller. -/
structure LeavesOwnership (msToTicks : ℕ → ℕ) (s : State) (me : ThreadId) : Prop where
  /-- After `i2c_transact` the thread owns no reservation but leases. -/
  batches : ∀ dev steps tm ret t, Returns msToTicks s me (.transact dev steps tm) ret t →
    ∀ e, t.driver.reservations.Has e → e.owner = me → e.isLease = true
  /-- A lease from before the call is there at its return, unless its deadline has come. -/
  leases : ∀ dev steps tm ret t, Returns msToTicks s me (.transact dev steps tm) ret t →
    ∀ e, s.driver.reservations.Has e → e.owner = me → e.isLease = true →
      t.driver.clock < e.deadlineTick → t.driver.reservations.Has e
  /-- `i2c_lease_acquire` returns 0 only after its last section has left a lease in the table,
  and the lease is there at the return, unless its deadline has come. -/
  acquired : ∀ dev durationMs tm t,
    Returns msToTicks s me (.leaseAcquire dev durationMs tm) (.ok ()) t →
      ∃ d cap e, InCall msToTicks s.driver me (.leaseAcquire dev durationMs tm) d ∧
        Done msToTicks me d t.driver ∧ dev = some cap ∧
        Granted msToTicks me cap durationMs d e ∧
        (t.driver.clock < e.deadlineTick → t.driver.reservations.Has e)

/-- In every run, whatever the other threads and the clock do. -/
theorem calls_leave_ownership (hs : Reachable (step msToTicks) .boot s) (me : ThreadId) :
    LeavesOwnership msToTicks s me where
  batches dev steps tm ret t h e he hme := by
    obtain ⟨d, hin, hdone, -⟩ := h.done
    have hd := hin.reachable (reachable_driver hs)
    by_contra hbatch
    have hpc := batchesOwned (hd.trans hdone.others.reachable) e he (Bool.eq_false_iff.mpr hbatch)
    rw [hme, hdone.idle_after] at hpc
    cases hpc
  leases dev steps tm ret t h e he hme hlease hlive := by
    obtain ⟨d, hin, hdone, -⟩ := h.done
    have hd := hin.reachable (reachable_driver hs)
    have hkept := lease_kept (reachable_driver hs) hin he hme hlease
      (hdone.clock_le.trans_lt hlive)
    subst hme
    exact reservation_stays hd hkept hdone.others hlive
  acquired dev durationMs tm t h := by
    obtain ⟨d, hin, hdone, hret⟩ := h.done
    have hd := hin.reachable (reachable_driver hs)
    obtain ⟨cap, e, hdev, hgranted⟩ := lease_acquired (reachable_driver hs) hin hret
    refine ⟨d, cap, e, hin, hdone, hdev, hgranted, fun hlive ↦ ?_⟩
    obtain ⟨hhas, -, rfl, -, -⟩ := hgranted
    exact reservation_stays hd hhas hdone.others hlive

end Callers

/-- The soil sensor's thread, back from `i2c_lease_acquire`. -/
theorem calls_leave_ownership_lease : ∃ s : State,
    s.driver.reservations.Has ⟨true, 0x36, 1, 500, true⟩ ∧ LeavesOwnership (· / 10) s 1 := by
  have hrun : (exec (step (· / 10)) (fun _ _ ↦ true) .boot
      [.driver (.call 1 (.leaseAcquire (some ⟨0x36, 3, 1, 8, 150, 5000⟩) 60000 .unlimited)),
        .driver (.run 1 true), .ret 1]).map
        (fun s ↦ s.driver.reservations.sReservations ⟨0, by decide⟩) =
      some ⟨true, 0x36, 1, 500, true⟩ := by
    decide
  obtain ⟨s, hexec, hslot⟩ := Option.map_eq_some_iff.mp hrun
  exact ⟨s, ⟨rfl, _, hslot⟩, calls_leave_ownership (exec_steps hexec).reachable 1⟩

/-- The lease of one tick that the soil sensor's thread asks for. -/
def oneTick : Request :=
  .leaseAcquire (some ⟨0x36, 3, 1, 8, 150, 5000⟩) 10 .unlimited

/-- The tick passes and another thread claims the address before `i2c_lease_acquire` is back
with 0. -/
theorem lease_expires_before_return : ∃ t : State,
    Returns (· / 10) .boot 1 oneTick (.ok ()) t ∧
    ¬∃ e, t.driver.reservations.Has e ∧ e.address = 0x36 ∧ e.owner = 1 ∧ e.isLease = true := by
  have hrun : (exec (step (· / 10)) (fun s _ ↦ decide (s.Busy 1))
      (State.after .boot (.call 1 oneTick) (startCall .boot 1 oneTick))
      [.driver (.run 1 true), .driver .tick,
        .driver (.call 2 (.transact (some ⟨0x36, 3, 1, 8, 150, 5000⟩)
          (some [⟨0, 2, 0, some 64⟩]) .unlimited)),
        .driver (.run 2 true)]).any (fun m ↦ m.leaving 1 &&
          (m.driver.trace.contains (.returned 0 1 (.ok ())) &&
            decide (∀ i, (m.driver.reservations.sReservations i).active = true →
              (m.driver.reservations.sReservations i).owner ≠ 1))) = true := by
    decide
  obtain ⟨m, hexec, hm⟩ := (Option.any_eq_true _ _).mp hrun
  simp only [Bool.and_eq_true, List.contains_iff_mem, decide_eq_true_eq] at hm
  obtain ⟨hleaving, hreturned, hnone⟩ := hm
  refine ⟨m.back 1, ⟨_, m, rfl, ?_, if_pos hleaving, hreturned⟩, ?_⟩
  · exact (exec_steps hexec).mono fun s _ h ↦ of_decide_eq_true h
  · rintro ⟨e, ⟨hactive, i, rfl⟩, -, howner, -⟩
    exact hnone i hactive howner

end Callers

end PlantNode.Driver
