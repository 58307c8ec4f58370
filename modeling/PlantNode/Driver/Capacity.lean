import PlantNode.Driver.Ownership

/-!
# Room in the table

An address has one active entry at most, so the table has room for every address that a
capability names, as long as they are no more than its slots.
-/

namespace PlantNode.Driver

open Foundation

/-- The handle a request is made with. -/
def Request.dev : Request → I2CDevice
  | .transact dev _ _ => dev
  | .leaseAcquire dev _ _ => dev
  | .leaseRelease dev => dev

/-- The sealed capabilities are `caps`: a call is made with one of them, or with a handle
that does not unseal. -/
def Sealed (caps : Set I2CDeviceCap) (_ : State) : Action → Prop
  | .call _ request => ∀ cap, request.dev = some cap → cap ∈ caps
  | _ => True

/-- The addresses in use are those of sealed capabilities. -/
structure Addressed (caps : Set I2CDeviceCap) (s : State) : Prop where
  entries : ∀ e, s.reservations.Has e → e.address ∈ I2CDeviceCap.address '' caps
  claims : ∀ u c, (s.threads u).claim? = some c → c.cap ∈ caps

section Capacity

variable {msToTicks : ℕ → ℕ} {s t : State} {a : Action} {u : ThreadId} {c : Claim}
  {caps : Set I2CDeviceCap} {addresses : Set UInt8} {r : Reservations}

theorem Request.start_cap {id : ℕ} {request : Request} {pc : Pc}
    (h : request.start id = .ok pc) (hc : pc.claim? = some c) : request.dev = some c.cap := by
  cases Request.starts h with
  | transact dev steps t cap l haccept =>
      cases hc
      exact (acceptBatch_ok haccept).1
  | leaseAcquire dev durationMs t cap holdMs haccept =>
      cases hc
      exact (acceptLease_ok haccept).1
  | leaseRelease => cases hc

theorem State.granted_claim? (s : State) (me : ThreadId) (c : Claim) :
    ((s.granted me c).threads me).claim? = none := by
  unfold State.granted
  cases c.steps <;> simp [State.finish, Pc.claim?]

/-- A claim that a thread is making was made before the step, or a call starts it. -/
theorem Trans.claim_from (h : Trans msToTicks s a t) (hc : (t.threads u).claim? = some c) :
    (s.threads u).claim? = some c ∨
      ∃ request pc, a = .call u request ∧ request.start s.calls = .ok pc ∧
        pc.claim? = some c := by
  by_cases hactor : a.actor? = some u
  swap
  · exact .inl ((h.drifts hactor).claim? ▸ hc)
  cases h with
  | tick fits => cases hactor
  | rejected me request e at_ refused =>
      cases hactor
      simp [State.finish, Pc.claim?] at hc
  | started me request pc at_ accepted =>
      cases hactor
      rw [State.setPc_threads, Function.update_self] at hc
      exact .inr ⟨request, pc, rfl, accepted, hc⟩
  | moved me ok at_ move =>
      cases hactor
      rw [State.setPc_threads, Function.update_self, move.claim?] at hc
      exact .inl (at_ ▸ hc)
  | claimed me ok c' tm i at_ vacant free =>
      cases hactor
      rw [State.granted_claim?] at hc
      cases hc
  | reentered me ok c' tm e at_ found ours =>
      cases hactor
      rw [State.granted_claim?] at hc
      cases hc
  | transferred me ok b lease st rest at_ good =>
      cases hactor
      cases ok <;> simp [Pc.claim?] at hc
  | returned me ok at_ done =>
      cases hactor
      simp [State.finish, Pc.claim?] at hc

theorem exists_slot (hu : UniqueActive r) (hentries : ∀ e, r.Has e → e.address ∈ addresses)
    (hcard : addresses.encard ≤ MaxReservations) {address : UInt8} (haddress : address ∈ addresses)
    {now : ℕ} (hvacant : findLocked address (expireLocked now r).1 = none) :
    ∃ i, ((expireLocked now r).1.sReservations i).active = false := by
  have hactive : ∀ e, (expireLocked now r).1.Has e → e.address ∈ addresses := fun e he ↦
    hentries e (he.of_shrinks (expireLocked_shrinks now r))
  exact exists_vacant hcard (fun i hi ↦ hactive _ ⟨hi, i, rfl⟩) (hu.expire now) haddress
    (findLocked_none hvacant)

theorem Addressed.boot : Addressed caps .boot where
  entries := by
    rintro e ⟨hactive, i, rfl⟩
    cases hactive
  claims u c hc := by cases hc

theorem Addressed.trans (h : Addressed caps s) (hsealed : Sealed caps s a)
    (ht : Trans msToTicks s a t) : Addressed caps t where
  entries := by
    rintro e ⟨hactive, i, rfl⟩
    rcases ht.claims with ⟨-, hshrinks⟩ | ⟨me, ok, c, tm, j, -, hpc, -, -, hslots, -⟩
    · exact h.entries _ ⟨hactive, i, (hshrinks i hactive).symm⟩
    · rw [hslots] at hactive ⊢
      by_cases hij : i = j
      · subst hij
        rw [Function.update_self]
        exact ⟨c.cap, h.claims me c (by rw [hpc]; rfl), rfl⟩
      · rw [Function.update_of_ne hij] at hactive ⊢
        have hhas : (expireLocked s.clock s.reservations).1.Has _ := ⟨hactive, i, rfl⟩
        exact h.entries _ (hhas.of_shrinks (expireLocked_shrinks _ _))
  claims u c hc := by
    rcases ht.claim_from hc with hold | ⟨request, pc, rfl, hstart, hpc⟩
    · exact h.claims u c hold
    · exact hsealed c.cap (Request.start_cap hstart hpc)

theorem addressed (h : Steps (step msToTicks) (Sealed caps) .boot s) : Addressed caps s :=
  h.invariant (I := Addressed caps) .boot fun _ _ _ hs hsealed hstep ↦
    hs.trans hsealed (step_trans msToTicks hstep)

theorem Addressed.not_full (h : Addressed caps s)
    (haddresses : (I2CDeviceCap.address '' caps).encard ≤ MaxReservations)
    (hs : Reachable (step msToTicks) .boot s) {tm : Timeout} (hpc : s.threads u = .reserving c tm)
    (hvacant : findLocked c.cap.address (expireLocked s.clock s.reservations).1 = none)
    (hcrowded : ∀ i, ((expireLocked s.clock s.reservations).1.sReservations i).active = true) :
    False := by
  have hcap : c.cap ∈ caps := h.claims u c (by rw [hpc]; rfl)
  obtain ⟨i, hi⟩ := exists_slot (reachable_unique hs) h.entries haddresses ⟨c.cap, hcap, rfl⟩
    hvacant
  rw [hcrowded i] at hi
  cases hi

/-! ## No call is turned away -/

theorem authorize_error {dev : I2CDevice} {ops : UInt8} {e : Errno}
    (h : authorize dev ops = .error e) : e = .EPERM := by
  unfold authorize at h
  split at h
  · cases h
    rfl
  · split at h <;> cases h
    rfl

theorem acceptBatch_error {dev : I2CDevice} {steps : Option (List I2CStep)} {e : Errno}
    (h : acceptBatch dev steps = .error e) : e = .EPERM ∨ e = .EINVAL := by
  unfold acceptBatch at h
  split at h
  · exact .inr (Except.error.inj h).symm
  · exact .inr (Except.error.inj h).symm
  · split at h
    · rename_i hauth
      exact .inl (Except.error.inj h ▸ authorize_error hauth)
    · split at h
      · exact .inr (Except.error.inj h).symm
      · split at h
        · exact .inr (Except.error.inj h).symm
        · cases h

theorem acceptLease_error {dev : I2CDevice} {durationMs : UInt32} {e : Errno}
    (h : acceptLease dev durationMs = .error e) : e = .EPERM ∨ e = .EINVAL := by
  unfold acceptLease at h
  split at h
  · rename_i hauth
    exact .inl (Except.error.inj h ▸ authorize_error hauth)
  · split at h
    · exact .inl (Except.error.inj h).symm
    · split at h
      · exact .inr (Except.error.inj h).symm
      · cases h

/-- What a call returns that is rejected before it shares anything. -/
theorem Request.start_error {id : ℕ} {request : Request} {e : Errno}
    (h : request.start id = .error e) : e = .EPERM ∨ e = .EINVAL := by
  cases request with
  | transact dev steps t =>
      simp only [start] at h
      split at h
      · rename_i haccept
        exact Except.error.inj h ▸ acceptBatch_error haccept
      · cases h
  | leaseAcquire dev durationMs t =>
      simp only [start] at h
      split at h
      · rename_i haccept
        exact Except.error.inj h ▸ acceptLease_error haccept
      · cases h
  | leaseRelease dev =>
      simp only [start] at h
      split at h
      · rename_i hauth
        exact .inl (Except.error.inj h ▸ authorize_error hauth)
      · cases h

/-- A call returns `-EBUSY` from `reserve_device` alone, when the table is full. -/
theorem Return.full_of_busy {pc : Pc} {call : ℕ} {ret : Ret} {woke : Bool} {me : ThreadId}
    (h : Return s me pc call ret r woke) (hl : Ledger s) (at_ : s.threads me = pc)
    (hbusy : ret = .error .EBUSY) :
    ∃ c tm, s.threads me = .reserving c tm ∧
      findLocked c.cap.address (expireLocked s.clock s.reservations).1 = none ∧
      ∀ i, ((expireLocked s.clock s.reservations).1.sReservations i).active = true := by
  cases hb : pc.batch? with
  | some b =>
      have hprogress := (hl.batches me b (at_ ▸ hb)).2
      have houtcome := h.outcome hb (at_ ▸ hprogress)
      rw [hbusy] at houtcome
      cases houtcome
  | none =>
      cases h with
      | full c tm vacant crowded => exact ⟨c, tm, at_, Option.map_eq_none_iff.mp vacant, crowded⟩
      | timedOut => cases hbusy
      | keptLease => cases hb
      | released => cases hb
      | leaseReleased => cases hbusy

theorem Trans.busy_from (h : Trans msToTicks s a t) (hl : Ledger s) {id : ℕ} {u : ThreadId}
    (hbusy : .returned id u (.error .EBUSY) ∈ t.trace) :
    .returned id u (.error .EBUSY) ∈ s.trace ∨
      ∃ me c tm, s.threads me = .reserving c tm ∧
        findLocked c.cap.address (expireLocked s.clock s.reservations).1 = none ∧
        ∀ i, ((expireLocked s.clock s.reservations).1.sReservations i).active = true := by
  cases h with
  | tick fits => exact .inl hbusy
  | rejected me request e at_ refused =>
      left
      have hother : e ≠ .EBUSY := by
        rcases Request.start_error refused with rfl | rfl <;> decide
      exact mem_of_mem_snoc (mem_of_mem_snoc hbusy (by simp [hother.symm])) (by simp)
  | started me request pc at_ accepted => exact .inl (mem_of_mem_snoc hbusy (by simp))
  | moved me ok at_ move => exact .inl hbusy
  | claimed me ok c tm i at_ vacant free =>
      exact .inl (mem_of_mem_snoc (State.mem_of_granted (by simp) hbusy) (by simp))
  | reentered me ok c tm e at_ found ours =>
      exact .inl (State.mem_of_granted (s := s.commit _ _) (by simp) hbusy)
  | transferred me ok b lease st rest at_ good => exact .inl (mem_of_mem_snoc hbusy (by simp))
  | returned me ok at_ done =>
      rcases List.mem_append.mp hbusy with hold | hnew
      · exact .inl hold
      · right
        have hret := (Event.returned.inj (List.mem_singleton.mp hnew)).2.2
        exact ⟨me, done.full_of_busy hl at_ hret.symm⟩

/-- However many threads there are and whatever they do, `reserve_device` finds a slot at
every pass, and no call returns `-EBUSY`. -/
theorem table_never_full (haddresses : (I2CDeviceCap.address '' caps).encard ≤ MaxReservations)
    (h : Steps (step msToTicks) (Sealed caps) .boot s) :
    (∀ me c tm, s.threads me = .reserving c tm →
      (reserveLocked msToTicks me c.cap.address c.holdMs c.isLease s.clock s.reservations).1 ≠
        .full) ∧
    ∀ id me, .returned id me (.error .EBUSY) ∉ s.trace := by
  constructor
  · intro me c tm hpc hfull
    obtain ⟨o, r', heq, hspec⟩ := reserveLocked_spec msToTicks me c.cap.address c.holdMs c.isLease
      s.clock s.reservations
    rw [heq] at hfull
    cases hfull
    cases hspec with
    | full vacant crowded => exact (addressed h).not_full haddresses h.reachable hpc vacant crowded
  · refine (h.invariant_over (K := fun s ↦ Steps (step msToTicks) (Sealed caps) .boot s)
      (I := fun s ↦ ∀ id me, .returned id me (.error .EBUSY) ∉ s.trace) (fun _ hs ↦ hs) ?_ ?_)
    · simp [State.boot]
    · intro s a t hs hnone _ hstep id me hbusy
      rcases (step_trans msToTicks hstep).busy_from (Ledger.reachable hs.reachable) hbusy with
        hold | ⟨me, c, tm, hpc, hvacant, hcrowded⟩
      · exact hnone id me hold
      · exact (addressed hs).not_full haddresses hs.reachable hpc hvacant hcrowded

end Capacity

/-- The temperature and the soil sensor, while one is read and the other is called. -/
theorem table_never_full_sensors : ∃ s : State,
    (∃ c tm, s.threads 1 = .reserving c tm) ∧ s.reservations.Has ⟨true, 0x38, 0, 15, false⟩ ∧
      ∀ id me, .returned id me (.error .EBUSY) ∉ s.trace := by
  let temperature : I2CDeviceCap := ⟨0x38, 3, 0, 8, 150, 0⟩
  let soil : I2CDeviceCap := ⟨0x36, 3, 1, 8, 150, 5000⟩
  let caps : Set I2CDeviceCap := {temperature, soil}
  have haddresses : (I2CDeviceCap.address '' caps).encard ≤ MaxReservations := by
    rw [Set.image_pair]
    apply (Set.encard_insert_le _ _).trans
    rw [Set.encard_singleton]
    decide
  let acts : List Action :=
    [.call 0 (.transact (some temperature) (some [⟨0, 3, 0, some 1⟩]) .unlimited), .run 0 true,
      .call 1 (.leaseAcquire (some soil) 1000 .unlimited)]
  have hrun : (exec (step (· / 10)) (fun _ a ↦ decide (a ∈ acts)) .boot acts).map
      (fun s ↦ (s.threads 1, s.reservations.sReservations ⟨0, by decide⟩)) =
      some (.reserving ⟨1, soil, 1000, none⟩ .unlimited, ⟨true, 0x38, 0, 15, false⟩) := by
    decide
  obtain ⟨s, hexec, hstate⟩ := Option.map_eq_some_iff.mp hrun
  obtain ⟨hpc, hslot⟩ := Prod.ext_iff.mp hstate
  have hsealed : Steps (step (· / 10)) (Sealed caps) .boot s := by
    refine (exec_steps hexec).mono fun u a ha ↦ ?_
    simp only [acts, decide_eq_true_eq, List.mem_cons, List.not_mem_nil, or_false] at ha
    rcases ha with rfl | rfl | rfl
    · rintro cap ⟨⟩
      exact .inl rfl
    · trivial
    · rintro cap ⟨⟩
      exact .inr rfl
  exact ⟨s, ⟨_, _, hpc⟩, ⟨rfl, _, hslot⟩, (table_never_full haddresses hsealed).2⟩

end PlantNode.Driver
