import PlantNode.Driver.Lockout
import PlantNode.Driver.Serial
import PlantNode.Driver.Sleepers

/-!
# Who owns what after a call

`i2c_transact` releases its reservation or keeps the lease of its caller by a flag
that it reads in a section of its own.  Whatever happens in between, a thread whose call has
its result owns no reservation but leases, and no call of the thread ends a lease early.
-/

namespace PlantNode.Driver

open Foundation

/-- An active entry of the table. -/
def Reservations.Has (r : Reservations) (e : Reservation) : Prop :=
  e.active = true ∧ ∃ i, r.sReservations i = e

/-- The address on which a thread may own a reservation that is no lease. -/
def Pc.batchAt : Pc → Option UInt8
  | .reserved b => some b.cap.address
  | .running b false _ => some b.cap.address
  | .transferring b false _ _ => some b.cap.address
  | .finishing b false _ => some b.cap.address
  | _ => none

/-- A thread that goes on from here does not release the address. -/
def Pc.Spares (address : UInt8) : Pc → Prop
  | .running b lease _ => b.cap.address = address → lease = true
  | .transferring b lease _ _ => b.cap.address = address → lease = true
  | .finishing b lease _ => b.cap.address = address → lease = true
  | .releasing _ _ => False
  | _ => True

/-- Every reservation that is no lease belongs to a batch in progress on its address,
which is going to release it. -/
def BatchesOwned (s : State) : Prop :=
  ∀ e, s.reservations.Has e → e.isLease = false → (s.threads e.owner).batchAt = some e.address

section Ownership

variable {msToTicks : ℕ → ℕ} {s t : State} {a : Action} {me : ThreadId} {e : Reservation}
  {r : Reservations} {address : UInt8} {pc pc' : Pc} {woke : Bool}

theorem Reservations.has_iff (hu : UniqueActive r) :
    r.Has e ↔ holder e.address r = some e := by
  rw [holder_eq_some hu, Reservations.Has]
  constructor
  · rintro ⟨hactive, i, hi⟩
    exact ⟨i, hi, hactive, rfl⟩
  · rintro ⟨i, hi, hactive, -⟩
    exact ⟨hactive, i, hi⟩

theorem Reservations.Has.of_holder (h : holder address r = some e) :
    r.Has e ∧ e.address = address := by
  obtain ⟨i, hi, rfl⟩ := Option.map_eq_some_iff.mp h
  obtain ⟨hactive, haddress⟩ := findLocked_some hi
  exact ⟨⟨hactive, i, rfl⟩, haddress⟩

theorem Pc.Drifts.batchAt (h : pc.Drifts pc') : pc'.batchAt = pc.batchAt := by
  cases h <;> rfl

theorem Pc.Drifts.idle (h : pc.Drifts pc') (hpc : pc = .idle) : pc' = .idle := by
  subst hpc
  cases h
  rfl

theorem Pc.Drifts.spares (h : pc.Drifts pc') (hpc : pc.Spares address) : pc'.Spares address := by
  cases h with
  | stay => exact hpc
  | woken => trivial
  | timedOut => trivial

/-- A batch in progress stays one, but for a batch that finds a lease on its address. -/
theorem Move.batchAt (h : Move s me pc pc' r woke) (hpc : pc.batchAt = some address) :
    pc'.batchAt = some address ∨ weHoldLeaseLocked address s.reservations = true := by
  cases h with
  | leaseRead b =>
      cases hpc
      cases hlease : weHoldLeaseLocked b.cap.address s.reservations with
      | true => exact .inr rfl
      | false => exact .inl rfl
  | done b lease => cases lease <;> exact .inl hpc
  | delayed b lease => cases lease <;> exact .inl hpc
  | nullBuffer b lease => cases lease <;> exact .inl hpc
  | verified b lease => cases lease <;> exact .inl hpc
  | lost b lease => cases lease <;> exact .inl hpc
  | malformed b lease => cases lease <;> exact .inl hpc
  | _ => cases hpc

theorem Move.spares (h : Move s me pc pc' r woke) (hpc : pc.Spares address)
    (hlease : weHoldLeaseLocked address s.reservations = true) : pc'.Spares address := by
  cases h with
  | leaseRead b =>
      rintro rfl
      exact hlease
  | done => exact hpc
  | delayed => exact hpc
  | nullBuffer => exact hpc
  | verified => exact hpc
  | lost => exact hpc
  | malformed => exact hpc
  | _ => trivial

theorem Reservations.Has.of_shrinks {r' : Reservations} (he : r'.Has e) (h : Shrinks r r') :
    r.Has e := by
  obtain ⟨hactive, i, rfl⟩ := he
  exact ⟨hactive, i, (h i hactive).symm⟩

/-- An entry after a step was there before it, or the step claimed it. -/
theorem Trans.has_from (h : Trans msToTicks s a t) (he : t.reservations.Has e) :
    s.reservations.Has e ∨ ∃ me c m, t = State.granted m me c ∧
      e = claimEntry msToTicks me c.cap.address c.holdMs c.isLease s.clock := by
  cases h with
  | tick fits => exact .inl he
  | rejected me request err at_ refused => exact .inl he
  | started me request pc at_ accepted => exact .inl he
  | moved me ok at_ move => exact .inl (he.of_shrinks move.shrinks)
  | claimed me ok c tm i at_ vacant free =>
      rw [State.granted_reservations] at he
      obtain ⟨hactive, j, rfl⟩ := he
      by_cases hji : j = i
      · subst hji
        exact .inr ⟨me, c, _, rfl, Function.update_self _ _ _⟩
      · left
        simp only [State.emit_reservations, State.commit_reservations,
          Function.update_of_ne hji] at hactive ⊢
        exact Reservations.Has.of_shrinks ⟨hactive, j, rfl⟩ (expireLocked_shrinks _ _)
  | reentered me ok c tm h at_ found ours =>
      rw [State.granted_reservations] at he
      exact .inl (he.of_shrinks (expireLocked_shrinks _ _))
  | transferred me ok b lease st rest at_ good => exact .inl he
  | returned me ok at_ done => exact .inl (he.of_shrinks done.shrinks)

theorem State.granted_batchAt (s : State) (me : ThreadId) {c : Claim} (h : c.isLease = false) :
    ((s.granted me c).threads me).batchAt = some c.cap.address := by
  unfold State.granted
  cases hsteps : c.steps with
  | none => simp [Claim.isLease, hsteps] at h
  | some steps => simp [Pc.batchAt]

/-- The batch of a thread that acts goes on, or its reservation is gone. -/
theorem Trans.batchAt (h : Trans msToTicks s a t) (hu : UniqueActive s.reservations)
    (hactor : a.actor? = some e.owner) (he : s.reservations.Has e) (hbatch : e.isLease = false)
    (hpc : (s.threads e.owner).batchAt = some e.address) :
    (t.threads e.owner).batchAt = some e.address ∨ ¬t.reservations.Has e := by
  have hheld := (Reservations.has_iff hu).mp he
  cases h with
  | tick fits => cases hactor
  | rejected me request err at_ refused =>
      cases hactor
      rw [at_] at hpc
      cases hpc
  | started me request pc at_ accepted =>
      cases hactor
      rw [at_] at hpc
      cases hpc
  | moved me ok at_ move =>
      cases hactor
      rw [at_] at hpc
      left
      rw [State.setPc_threads, Function.update_self]
      refine (move.batchAt hpc).resolve_right fun hlease ↦ ?_
      rw [weHoldLeaseLocked, hheld, Option.any_some, hbatch] at hlease
      cases hlease
  | claimed me ok c tm i at_ vacant free =>
      cases hactor
      rw [at_] at hpc
      cases hpc
  | reentered me ok c tm h at_ found ours =>
      cases hactor
      rw [at_] at hpc
      cases hpc
  | transferred me ok b lease st rest at_ good =>
      cases hactor
      rw [at_] at hpc
      left
      rw [State.setPc_threads, Function.update_self]
      cases lease <;> cases ok <;> exact hpc
  | returned me ok at_ done =>
      cases hactor
      rw [at_] at hpc
      cases done with
      | full => cases hpc
      | timedOut => cases hpc
      | keptLease => cases hpc
      | released b result =>
          right
          intro hkept
          have hkept := (Reservations.has_iff (hu.release _ _)).mp hkept
          rw [holder_release hu, hheld, Option.some.inj hpc] at hkept
          simp at hkept
      | leaseReleased => cases hpc

theorem BatchesOwned.boot : BatchesOwned .boot := by
  rintro e ⟨hactive, i, rfl⟩
  cases hactive

theorem BatchesOwned.step (h : BatchesOwned s) (hu : UniqueActive s.reservations)
    (ht : Trans msToTicks s a t) : BatchesOwned t := by
  intro e he hbatch
  rcases ht.has_from he with hold | ⟨me, c, m, rfl, rfl⟩
  · have hpc := h e hold hbatch
    by_cases hactor : a.actor? = some e.owner
    · exact (ht.batchAt hu hactor hold hbatch hpc).resolve_right (not_not.mpr he)
    · exact (ht.drifts hactor).batchAt.trans hpc
  · exact State.granted_batchAt m me hbatch

theorem batchesOwned (h : Reachable (step msToTicks) .boot s) : BatchesOwned s :=
  h.invariant_over (K := fun s ↦ UniqueActive s.reservations) (fun _ hs ↦ reachable_unique hs)
    BatchesOwned.boot fun _ _ _ hu hs _ hstep ↦ hs.step hu (step_trans msToTicks hstep)

/-! ## Leases across a call -/

/-- Between the call of a thread and its return; `s` is the state before the call. -/
def InCall (msToTicks : ℕ → ℕ) (s : State) (me : ThreadId) (request : Request) (t : State) :
    Prop :=
  ∃ s₁, step msToTicks s (.call me request) = some s₁ ∧
    Steps (step msToTicks) (fun s _ ↦ s.threads me ≠ .idle) s₁ t

theorem InCall.reachable {request : Request} (h : InCall msToTicks s me request t)
    (hs : Reachable (step msToTicks) .boot s) : Reachable (step msToTicks) .boot t := by
  obtain ⟨s₁, hcall, hsteps⟩ := h
  exact (Steps.next _ hs trivial hcall).trans hsteps.reachable

theorem InCall.next {request : Request} {m : State} (h : InCall msToTicks s me request m)
    (hbusy : m.threads me ≠ .idle) (hstep : step msToTicks m a = some t) :
    InCall msToTicks s me request t := by
  obtain ⟨s₁, hcall, hsteps⟩ := h
  exact ⟨s₁, hcall, hsteps.next a hbusy hstep⟩

theorem Trans.clock_le (h : Trans msToTicks s a t) : s.clock ≤ t.clock := by
  rcases h.clock with heq | ⟨-, heq, -⟩
  · exact heq.ge
  · rw [heq]
    exact Nat.le_succ _

/-- The lease is in the table, and its owner is not going to release it. -/
def Spared (e : Reservation) (s : State) : Prop :=
  s.reservations.Has e ∧ (s.threads e.owner).Spares e.address

theorem State.granted_spares (s : State) (me : ThreadId) (c : Claim) :
    ((s.granted me c).threads me).Spares address := by
  unfold State.granted
  cases c.steps with
  | none => simp [State.finish, Pc.Spares]
  | some steps => simp [Pc.Spares]

/-- Inside a call, a thread that spares a leased address goes on to spare it. -/
theorem Trans.spares (h : Trans msToTicks s a t) (hbusy : s.threads me ≠ .idle)
    (hlease : weHoldLeaseLocked address s.reservations = true)
    (hspares : (s.threads me).Spares address) : (t.threads me).Spares address := by
  by_cases hactor : a.actor? = some me
  swap
  · exact (h.drifts hactor).spares hspares
  cases h with
  | tick fits => cases hactor
  | rejected me request err at_ refused =>
      cases hactor
      exact absurd at_ hbusy
  | started me request pc at_ accepted =>
      cases hactor
      exact absurd at_ hbusy
  | moved me ok at_ move =>
      cases hactor
      rw [at_] at hspares
      rw [State.setPc_threads, Function.update_self]
      exact move.spares hspares hlease
  | claimed me ok c tm i at_ vacant free =>
      cases hactor
      exact State.granted_spares _ _ c
  | reentered me ok c tm h at_ found ours =>
      cases hactor
      exact State.granted_spares _ _ c
  | transferred me ok b lease st rest at_ good =>
      cases hactor
      rw [at_] at hspares
      rw [State.setPc_threads, Function.update_self]
      cases ok <;> exact hspares
  | returned me ok at_ done =>
      cases hactor
      simp [State.finish, Pc.Spares]

/-- A thread that spares an address returns without releasing it. -/
theorem Return.spares {call : ℕ} {ret : Ret} (h : Return s me pc call ret r woke)
    (hu : UniqueActive s.reservations) (hspares : pc.Spares address)
    (hheld : holder address s.reservations = some e) (hlive : s.clock < e.deadlineTick) :
    holder address r = some e := by
  cases h with
  | full => exact holder_expire_fresh hu hheld hlive
  | timedOut => exact hheld
  | keptLease => exact hheld
  | released b result =>
      have hne : address ≠ b.cap.address := fun hsame ↦ absurd (hspares hsame.symm) (by simp)
      rw [holder_release hu, hheld]
      simp [hne]
  | leaseReleased => exact hspares.elim

/-- A step inside the call of its owner keeps a lease that has not expired. -/
theorem Spared.step (h : Spared e s) (hu : UniqueActive s.reservations) (hlease : e.isLease = true)
    (hlive : s.clock < e.deadlineTick) (hbusy : s.threads e.owner ≠ .idle)
    (ht : Trans msToTicks s a t) (hut : UniqueActive t.reservations) : Spared e t := by
  obtain ⟨he, hspares⟩ := h
  have hheld := (Reservations.has_iff hu).mp he
  have hflag : weHoldLeaseLocked e.address s.reservations = true := by
    rw [weHoldLeaseLocked, hheld]
    exact hlease
  refine ⟨(Reservations.has_iff hut).mpr ?_, ht.spares hbusy hflag hspares⟩
  rcases ht.holder_kept_or_returned hu hheld hlive with
    hkept | ⟨ok, pc, call, ret, r, woke, -, hpc, done, rfl⟩
  · exact hkept
  · exact done.spares hu (hpc ▸ hspares) hheld hlive

/-- Throughout a batch of its owner a lease stays until its deadline. -/
theorem lease_kept (hs : Reachable (step msToTicks) .boot s) {dev : I2CDevice}
    {steps : Option (List I2CStep)} {tm : Timeout}
    (h : InCall msToTicks s me (.transact dev steps tm) t) (he : s.reservations.Has e)
    (hme : e.owner = me) (hlease : e.isLease = true) (hlive : t.clock < e.deadlineTick) :
    t.reservations.Has e := by
  subst hme
  obtain ⟨s₁, hcall, hsteps⟩ := h
  have hs₁ := Steps.next _ hs trivial hcall
  have hstart : Spared e s₁ := by
    cases step_trans msToTicks hcall with
    | rejected me request err at_ refused => exact ⟨he, by simp [State.finish, Pc.Spares]⟩
    | started me request pc at_ accepted =>
        cases Request.starts accepted with
        | transact => exact ⟨he, by simp [Pc.Spares]⟩
  have hspared : t.clock < e.deadlineTick → Spared e t := by
    refine hsteps.invariant_over (K := Reachable (step msToTicks) .boot)
      (I := fun m ↦ m.clock < e.deadlineTick → Spared e m)
      (fun m hm ↦ hs₁.trans hm.reachable) (fun _ ↦ hstart) ?_
    intro m a m' hm ih hbusy hstep hlive'
    have htrans := step_trans msToTicks hstep
    have hlive := htrans.clock_le.trans_lt hlive'
    exact (ih hlive).step (reachable_unique hm) hlease hlive hbusy htrans
      (reachable_unique (hm.next a trivial hstep))
  exact (hspared hlive).1

/-! ## What `i2c_lease_acquire` leaves -/

/-- A lease of thread `me` in the table, as a call has just left it there: with the deadline
that the call gave it, or with one that is still to come. -/
structure Granted (msToTicks : ℕ → ℕ) (me : ThreadId) (cap : I2CDeviceCap) (durationMs : UInt32)
    (s : State) (e : Reservation) : Prop where
  has : s.reservations.Has e
  address : e.address = cap.address
  owner : e.owner = me
  isLease : e.isLease = true
  deadline : s.clock < e.deadlineTick ∨
    e.deadlineTick = (s.clock + msToTicks (leaseHoldMs cap durationMs).toNat) % 2 ^ 64

/-- The call of a lease is in progress, or it has its result and 0 means a lease. -/
def Acquiring (msToTicks : ℕ → ℕ) (id : ℕ) (me : ThreadId) (dev : I2CDevice) (durationMs : UInt32)
    (s : State) : Prop :=
  (∃ c, (s.threads me).claim? = some c ∧ c.call = id ∧ dev = some c.cap ∧ c.isLease = true ∧
      c.holdMs = (leaseHoldMs c.cap durationMs).toNat) ∨
    (s.threads me = .idle ∧ (.returned id me (.ok ()) ∈ s.trace →
      ∃ cap e, dev = some cap ∧ Granted msToTicks me cap durationMs s e))

theorem Acquiring.step {id : ℕ} {dev : I2CDevice} {durationMs : UInt32}
    (h : Acquiring msToTicks id me dev durationMs s) (hledger : Ledger s) (howned : BatchesOwned s)
    (hbusy : s.threads me ≠ .idle) (ht : Trans msToTicks s a t) :
    Acquiring msToTicks id me dev durationMs t := by
  obtain ⟨c, hclaim, hcall, hdev, hlease, hhold⟩ := h.resolve_right fun h ↦ hbusy h.1
  subst hcall hdev
  have hopen : ∀ u ret, .returned c.call u ret ∉ s.trace :=
    (hledger.current me _ (Pc.call?_of_claim hclaim)).2
  by_cases hactor : a.actor? = some me
  swap
  · exact .inl ⟨c, (ht.drifts hactor).claim?.trans hclaim, rfl, rfl, hlease, hhold⟩
  have hsteps : c.steps = none := Option.isNone_iff_eq_none.mp hlease
  cases ht with
  | tick fits => cases hactor
  | rejected me request err at_ refused =>
      cases hactor
      exact absurd at_ hbusy
  | started me request pc at_ accepted =>
      cases hactor
      exact absurd at_ hbusy
  | moved me ok at_ move =>
      cases hactor
      left
      refine ⟨c, ?_, rfl, rfl, hlease, hhold⟩
      rw [State.setPc_threads, Function.update_self, move.claim?, ← at_, hclaim]
  | claimed me ok c' tm i at_ vacant free =>
      cases hactor
      rw [at_] at hclaim
      cases hclaim
      right
      simp only [State.granted, hsteps]
      refine ⟨by simp [State.finish], fun _ ↦ ⟨c.cap, _, rfl, ⟨rfl, i, Function.update_self _ _ _⟩,
        rfl, rfl, hlease, .inr ?_⟩⟩
      rw [← hhold]
      rfl
  | reentered me ok c' tm h at_ found ours =>
      cases hactor
      rw [at_] at hclaim
      cases hclaim
      obtain ⟨hhas, haddress⟩ := Reservations.Has.of_holder found
      have hold := hhas.of_shrinks (expireLocked_shrinks _ _)
      right
      simp only [State.granted, hsteps]
      refine ⟨by simp [State.finish], fun _ ↦ ⟨c.cap, h, rfl, hhas, haddress, ours, ?_, .inl ?_⟩⟩
      · by_contra hbatch
        have hpc := howned h hold (Bool.eq_false_iff.mpr hbatch)
        rw [ours, at_] at hpc
        cases hpc
      · obtain ⟨hactive, i, rfl⟩ := hhas
        have hfresh := (expireLocked_active hactive).2.2
        rwa [(expireLocked_active hactive).1]
  | transferred me ok b lease st rest at_ good =>
      cases hactor
      rw [at_] at hclaim
      cases hclaim
  | returned me ok at_ done =>
      cases hactor
      rw [at_] at hclaim
      refine .inr ⟨by simp [State.finish], fun hmem ↦ absurd (mem_of_mem_snoc hmem ?_) (hopen me _)⟩
      cases done with
      | full => simp
      | timedOut => simp
      | keptLease => cases hclaim
      | released => cases hclaim
      | leaseReleased => cases hclaim

theorem acquiring_of_call {dev : I2CDevice} {durationMs : UInt32} {tm : Timeout}
    (hledger : Ledger s) (hcall : step msToTicks s (.call me (.leaseAcquire dev durationMs tm)) =
      some t) : Acquiring msToTicks s.calls me dev durationMs t := by
  cases step_trans msToTicks hcall with
  | rejected me request err at_ refused =>
      refine .inr ⟨by simp [State.finish], fun hmem ↦ ?_⟩
      have hmem : .returned s.calls me (.ok ()) ∈ s.trace :=
        mem_of_mem_snoc (mem_of_mem_snoc hmem (by simp)) (by simp)
      exact absurd (hledger.numbered _ hmem _ rfl) (Nat.lt_irrefl _)
  | started me request pc at_ accepted =>
      cases Request.starts accepted with
      | leaseAcquire dev durationMs tm cap holdMs haccept =>
          obtain ⟨rfl, -, rfl⟩ := acceptLease_ok haccept
          exact .inl ⟨_, by rw [State.setPc_threads, Function.update_self]; rfl, rfl, rfl, rfl, rfl⟩

/-- A lease that was granted is in the table when the call has its result. -/
theorem lease_acquired (hs : Reachable (step msToTicks) .boot s) {dev : I2CDevice}
    {durationMs : UInt32} {tm : Timeout}
    (h : InCall msToTicks s me (.leaseAcquire dev durationMs tm) t)
    (hreturned : .returned s.calls me (.ok ()) ∈ t.trace) :
    ∃ cap e, dev = some cap ∧ Granted msToTicks me cap durationMs t e := by
  have ht := h.reachable hs
  obtain ⟨s₁, hcall, hsteps⟩ := h
  have hs₁ := Steps.next _ hs trivial hcall
  have hacquiring : Acquiring msToTicks s.calls me dev durationMs t := by
    refine hsteps.invariant_over (K := Reachable (step msToTicks) .boot)
      (I := Acquiring msToTicks s.calls me dev durationMs) (fun m hm ↦ hs₁.trans hm.reachable)
      (acquiring_of_call (Ledger.reachable hs) hcall) ?_
    intro m a m' hm ih hbusy hstep
    exact ih.step (Ledger.reachable hm) (batchesOwned hm) hbusy (step_trans msToTicks hstep)
  rcases hacquiring with ⟨c, hclaim, hid, -, -⟩ | ⟨-, hlease⟩
  · have hcurrent := (Ledger.reachable ht).current me _ (Pc.call?_of_claim hclaim)
    exact absurd (hid ▸ hreturned) (hcurrent.2 me _)
  · exact hlease hreturned

/-- A reservation stays until its deadline while its owner does nothing. -/
theorem reservation_stays (hs : Reachable (step msToTicks) .boot s) (he : s.reservations.Has e)
    (h : Steps (step msToTicks) (fun _ a ↦ a.actor? ≠ some e.owner) s t)
    (hlive : t.clock < e.deadlineTick) : t.reservations.Has e := by
  have hstays : t.clock < e.deadlineTick → t.reservations.Has e := by
    refine h.invariant_over (K := Reachable (step msToTicks) .boot)
      (I := fun m ↦ m.clock < e.deadlineTick → m.reservations.Has e)
      (fun m hm ↦ hs.trans hm.reachable) (fun _ ↦ he) ?_
    intro m a m' hm ih hother hstep hlive'
    have htrans := step_trans msToTicks hstep
    have hlive := htrans.clock_le.trans_lt hlive'
    have hheld := (Reservations.has_iff (reachable_unique hm)).mp (ih hlive)
    rcases htrans.holder_kept_or_returned (reachable_unique hm) hheld hlive with
      hkept | ⟨ok, pc, call, ret, r, woke, rfl, -⟩
    · exact (Reservations.has_iff (reachable_unique (hm.next a trivial hstep))).mpr hkept
    · exact absurd rfl hother
  exact hstays hlive

end Ownership

end PlantNode.Driver
