import PlantNode.Driver.Sleepers
import PlantNode.Driver.TableSteps

/-!
# No lost wakeup

The snapshot of `sReservationGen` is taken under the lock and the sleep begins
outside it, so deactivations can fall in the gap.  Every deactivation bumps the
generation and wakes every sleeper.  A thread that goes to sleep has therefore
seen no bump since its snapshot, unless there were so many that the word came
round.
-/

namespace PlantNode.Driver

open Foundation

/-! ## A section bumps the generation exactly if it wakes -/

/-- A section either leaves the table alone, or it bumps the generation and wakes
every sleeper. -/
def QuietOrBumps (r r' : Reservations) (woke : Bool) : Prop :=
  (woke = false ∧ r' = r) ∨ (woke = true ∧ r'.sReservationGen = r.sReservationGen + 1)

theorem expireLocked_bumps (now : ℕ) (r : Reservations) :
    QuietOrBumps r (expireLocked now r).1 (expireLocked now r).2 := by
  cases hchanged : firstSlot fun i ↦ stale now (r.sReservations i) with
  | none =>
      have hfresh : ∀ i, stale now (r.sReservations i) = false := firstSlot_eq_none.mp hchanged
      refine .inl ⟨by simp only [expireLocked, hchanged, Option.isSome_none], ?_⟩
      unfold expireLocked
      rw [hchanged]
      simp only [hfresh, Option.isSome_none, Bool.false_eq_true, if_false]
  | some i => exact .inr ⟨by simp [expireLocked, hchanged], by simp [expireLocked, hchanged]⟩

theorem releaseLocked_bumps (me : ThreadId) (address : UInt8) (r : Reservations) :
    QuietOrBumps r (releaseLocked me address r).1 (releaseLocked me address r).2 := by
  rcases releaseLocked_spec me address r with ⟨i, -, -, heq⟩ | ⟨-, heq⟩
  · exact .inr ⟨by rw [heq], by rw [heq]⟩
  · exact .inl ⟨by rw [heq], by rw [heq]⟩

theorem QuietOrBumps.refl (r : Reservations) : QuietOrBumps r r false :=
  .inl ⟨rfl, rfl⟩

section Wakeups

variable {msToTicks : ℕ → ℕ} {s t : State} {a : Action} {u : ThreadId} {c : Claim}
  {tm : Timeout} {since : ℕ} {gen : UInt32} {seen : Reservation}

theorem Move.bumps {me : ThreadId} {pc pc' : Pc} {r : Reservations} {woke : Bool}
    (h : Move s me pc pc' r woke) : QuietOrBumps s.reservations r woke := by
  cases h with
  | held => exact expireLocked_bumps _ _
  | verified => exact expireLocked_bumps _ _
  | lost => exact expireLocked_bumps _ _
  | _ => exact .refl _

theorem Move.awake {me : ThreadId} {pc pc' : Pc} {r : Reservations} (h : Move s me pc pc' r true) :
    ∀ c tm since seen, pc' ≠ .asleep c tm since seen := by
  generalize hwoke : true = woke at h
  cases h <;> simp at hwoke ⊢

theorem Return.bumps {me : ThreadId} {pc : Pc} {call : ℕ} {ret : Ret} {r : Reservations}
    {woke : Bool} (h : Return s me pc call ret r woke) :
    QuietOrBumps s.reservations r woke := by
  cases h with
  | full => exact expireLocked_bumps _ _
  | timedOut => exact .refl _
  | keptLease => exact .refl _
  | released b result => exact releaseLocked_bumps _ _ _
  | leaseReleased call address => exact releaseLocked_bumps _ _ _

/-- The number of claims of slot `i`.  The reservation in the slot is the one that
the last of them made. -/
def claimsOn (i : Slot) (trace : List Event) : ℕ :=
  (claimsOf trace).countP fun q ↦ q.slot == i

/-- Between the two states every active slot keeps its reservation. -/
def Keeps (s t : State) : Prop :=
  ∀ i, (s.reservations.sReservations i).active = true →
    t.reservations.sReservations i = s.reservations.sReservations i ∧
      claimsOn i t.trace = claimsOn i s.trace

def NobodyAsleep (s : State) : Prop :=
  ∀ u c tm since seen, s.threads u ≠ .asleep c tm since seen

theorem State.commit_wakes (s : State) (r : Reservations) : NobodyAsleep (s.commit r true) := by
  intro u c tm since seen hpc
  have hpc : (s.threads u).onWake s.clock = .asleep c tm since seen := hpc
  cases hu : s.threads u <;> simp [hu, Pc.onWake] at hpc

theorem NobodyAsleep.setPc (h : NobodyAsleep s) {me : ThreadId} {pc : Pc}
    (hpc : ∀ c tm since seen, pc ≠ .asleep c tm since seen) : NobodyAsleep (s.setPc me pc) := by
  intro u c tm since seen hu
  rw [State.setPc_threads] at hu
  by_cases hum : u = me
  · subst hum
    rw [Function.update_self] at hu
    exact hpc _ _ _ _ hu
  · rw [Function.update_of_ne hum] at hu
    exact h u c tm since seen hu

theorem NobodyAsleep.emit (h : NobodyAsleep s) (e : Event) : NobodyAsleep (s.emit e) := h

theorem NobodyAsleep.granted (h : NobodyAsleep s) (me : ThreadId) (c : Claim) :
    NobodyAsleep (s.granted me c) := by
  unfold State.granted
  cases c.steps with
  | none => exact (h.emit _).setPc (by simp)
  | some steps => exact (h.emit _).setPc (by simp)

/-- A step that bumps the generation leaves nobody asleep; any other keeps every
active reservation. -/
theorem Trans.quiet_or_wakes (h : Trans msToTicks s a t) :
    (t.reservations.sReservationGen = s.reservations.sReservationGen ∧ Keeps s t) ∨
      (t.reservations.sReservationGen = s.reservations.sReservationGen + 1 ∧ NobodyAsleep t) := by
  have hsame : ∀ {m : State}, m.reservations = s.reservations →
      claimsOf m.trace = claimsOf s.trace → Keeps s m := by
    intro m hr hclaims i _
    rw [hr, claimsOn, hclaims]
    exact ⟨rfl, rfl⟩
  cases h with
  | tick fits => exact .inl ⟨rfl, hsame rfl rfl⟩
  | rejected me request e at_ refused =>
      refine .inl ⟨rfl, hsame rfl ?_⟩
      simp [State.finish, State.opened, claimsOf, Event.claim?]
  | started me request pc at_ accepted =>
      refine .inl ⟨rfl, hsame rfl ?_⟩
      simp [State.opened, claimsOf, Event.claim?]
  | moved me ok at_ move =>
      rcases move.bumps with ⟨rfl, rfl⟩ | ⟨rfl, hgen⟩
      · exact .inl ⟨rfl, hsame rfl rfl⟩
      · exact .inr ⟨hgen, (s.commit_wakes _).setPc move.awake⟩
  | claimed me ok c tm i at_ vacant free =>
      rcases expireLocked_bumps s.clock s.reservations with ⟨-, hr⟩ | ⟨hwoke, hgen⟩
      · rw [hr] at free
        refine .inl ⟨by simp [State.granted_reservations, hr], fun j hj ↦ ?_⟩
        have hji : j ≠ i := by
          rintro rfl
          rw [free] at hj
          cases hj
        rw [State.granted_reservations, claimsOn, claimsOf_granted]
        refine ⟨by simp [hr, Function.update_of_ne hji], ?_⟩
        simp [claimsOn, claimsOf, Event.claim?, List.countP_append, hji.symm]
      · refine .inr ⟨by rw [State.granted_reservations]; exact hgen, ?_⟩
        rw [hwoke]
        exact ((s.commit_wakes _).emit _).granted me c
  | reentered me ok c tm e at_ found ours =>
      rcases expireLocked_bumps s.clock s.reservations with ⟨-, hr⟩ | ⟨hwoke, hgen⟩
      · refine .inl ⟨by simp [State.granted_reservations, hr], hsame ?_ ?_⟩
        · rw [State.granted_reservations]
          exact hr
        · exact claimsOf_granted _ _ _
      · refine .inr ⟨by rw [State.granted_reservations]; exact hgen, ?_⟩
        rw [hwoke]
        exact (s.commit_wakes _).granted me c
  | transferred me ok b lease st rest at_ good =>
      refine .inl ⟨rfl, hsame rfl ?_⟩
      simp [claimsOf, Event.claim?]
  | returned me ok at_ done =>
      have htrace : ∀ m : State, ∀ call ret, m.trace = s.trace →
          claimsOf (m.finish me call ret).trace = claimsOf s.trace := by
        intro m call ret hm
        simp [State.finish, claimsOf, Event.claim?, hm]
      rcases done.bumps with ⟨rfl, rfl⟩ | ⟨rfl, hgen⟩
      · exact .inl ⟨rfl, hsame rfl (htrace _ _ _ rfl)⟩
      · exact .inr ⟨hgen, ((s.commit_wakes _).emit _).setPc (by simp)⟩

theorem Pc.Drifts.waiting {pc pc' : Pc} (h : pc.Drifts pc')
    (hpc : pc' = .waiting c tm gen seen) : pc = .waiting c tm gen seen := by
  cases h with
  | stay => exact hpc
  | woken => cases hpc
  | timedOut => cases hpc

/-- A thread that waits after a step waited before it, or it has just dropped the
lock with a snapshot of the generation. -/
theorem Trans.waiting_from (h : Trans msToTicks s a t)
    (hpc : t.threads u = .waiting c tm gen seen) :
    s.threads u = .waiting c tm gen seen ∨
      ∃ ok, a = .run u ok ∧ s.threads u = .reserving c tm ∧
        t.reservations.sReservationGen = gen ∧ holder c.cap.address t.reservations = some seen ∧
          seen.owner ≠ u := by
  rcases h.drift_or_move hpc (by rintro ⟨⟩) with hdrift | ⟨ok, r, woke, ha, move, hr, -⟩
  · exact .inl (hdrift.waiting rfl)
  · generalize s.threads u = pc at move
    cases move with
    | held c tm seen found theirs => exact .inr ⟨ok, ha, rfl, by rw [hr], hr ▸ found, theirs⟩

end Wakeups

/-! ## The machine with its observations -/

/-- A reservation that a thread saw in another thread's hands: the one that claim
number `claim` of `slot` made.  `bumps` counts the bumps of the generation before
the snapshot. -/
structure Watch where
  slot : Slot
  claim : ℕ
  bumps : ℕ
  deriving DecidableEq, Repr

/-- The reservation is still active. -/
def Watch.Lasts (o : Watch) (s : State) : Prop :=
  (s.reservations.sReservations o.slot).active = true ∧ claimsOn o.slot s.trace = o.claim

/-- The machine with what each thread saw last.  No step of the machine reads
`bumps` or `watch`. -/
structure Watched where
  state : State
  bumps : ℕ
  watch : ThreadId → Option Watch

def Watched.boot : Watched := ⟨.boot, 0, fun _ ↦ none⟩

/-- What thread `me` saw if it has just dropped the lock to wait. -/
def observation (s : State) (me : ThreadId) (bumps : ℕ) : Option Watch :=
  match s.threads me with
  | .waiting c _ _ _ =>
      (findLocked c.cap.address s.reservations).map fun i ↦ ⟨i, claimsOn i s.trace, bumps⟩
  | _ => none

section Watched

variable (msToTicks : ℕ → ℕ)

/-- One step of the machine; a pass of `reserve_device` observes anew. -/
def watchedStep (w : Watched) (a : Action) : Option Watched :=
  (step msToTicks w.state a).map fun t ↦
    let bumps :=
      if t.reservations.sReservationGen = w.state.reservations.sReservationGen then w.bumps
      else w.bumps + 1
    { state := t
      bumps := bumps
      watch := match a with
        | .run me _ =>
            match w.state.threads me with
            | .reserving .. => Function.update w.watch me (observation t me bumps)
            | _ => w.watch
        | _ => w.watch }

/-- A thread that waits has seen fewer than `2 ^ 32` bumps since its snapshot. -/
def WaitsSoon (w : Watched) : Action → Prop
  | .run me _ => ∀ c t gen seen o, w.state.threads me = .waiting c t gen seen →
      w.watch me = some o → w.bumps < o.bumps + 2 ^ 32
  | _ => True

variable {msToTicks} {w w' : Watched} {a : Action} {u : ThreadId} {c : Claim} {tm : Timeout}
  {since : ℕ} {gen : UInt32} {seen : Reservation} {o : Watch}

theorem watchedStep_state (h : watchedStep msToTicks w a = some w') :
    step msToTicks w.state a = some w'.state := by
  obtain ⟨t, ht, rfl⟩ := Option.map_eq_some_iff.mp h
  exact ht

/-- Every run of the machine is the run of a watched one. -/
theorem watched_of_reachable {s : State} (h : Reachable (step msToTicks) .boot s) :
    ∃ w, Reachable (watchedStep msToTicks) .boot w ∧ w.state = s := by
  induction h with
  | init => exact ⟨.boot, .init, rfl⟩
  | @next s t a prior guard move ih =>
      obtain ⟨w, hw, rfl⟩ := ih
      have hstep : ∃ w', watchedStep msToTicks w a = some w' ∧ w'.state = t := by
        rw [watchedStep, move]
        exact ⟨_, rfl, rfl⟩
      obtain ⟨w', hw', rfl⟩ := hstep
      exact ⟨w', hw.next a trivial hw', rfl⟩

/-- What thread `u` saw: the entry `seen` of another thread for the address of its
claim, which lasts if the generation was not bumped since. -/
structure Saw (w : Watched) (u : ThreadId) (c : Claim) (seen : Reservation) (o : Watch) :
    Prop where
  watch : w.watch u = some o
  bumps : o.bumps ≤ w.bumps
  address : seen.address = c.cap.address
  theirs : seen.owner ≠ u
  lasts : o.bumps = w.bumps →
    o.Lasts w.state ∧ w.state.reservations.sReservations o.slot = seen

/-- The generation is the number of bumps in 32 bits.  A waiting thread's snapshot
is that of its observation, and nothing was bumped since a sleeper's. -/
structure Alert (w : Watched) : Prop where
  generation : w.state.reservations.sReservationGen = UInt32.ofNat w.bumps
  waiting : ∀ u c tm gen seen, w.state.threads u = .waiting c tm gen seen →
    ∃ o, Saw w u c seen o ∧ gen = UInt32.ofNat o.bumps
  asleep : ∀ u c tm since seen, w.state.threads u = .asleep c tm since seen →
    ∃ o, Saw w u c seen o ∧ o.bumps = w.bumps

theorem Alert.boot : Alert .boot where
  generation := rfl
  waiting := by simp [Watched.boot, State.boot]
  asleep := by simp [Watched.boot, State.boot]

theorem bump_ne (g : UInt32) : g + 1 ≠ g := by
  intro h
  have hnat := congrArg UInt32.toNat h
  rw [UInt32.toNat_add] at hnat
  have hlt := g.toNat_lt
  simp only [UInt32.toNat_one] at hnat
  omega

/-- The count of bumps follows the generation, and a step without a bump keeps
every reservation that somebody saw. -/
theorem watchedStep_bumps (h : watchedStep msToTicks w a = some w') :
    (w'.bumps = w.bumps ∧ Keeps w.state w'.state ∧
        w'.state.reservations.sReservationGen = w.state.reservations.sReservationGen) ∨
      (w'.bumps = w.bumps + 1 ∧ NobodyAsleep w'.state ∧
        w'.state.reservations.sReservationGen = w.state.reservations.sReservationGen + 1) := by
  have htrans := (step_trans msToTicks (watchedStep_state h)).quiet_or_wakes
  obtain ⟨t, ht, rfl⟩ := Option.map_eq_some_iff.mp h
  rcases htrans with ⟨hgen, hkeeps⟩ | ⟨hgen, hawake⟩
  · exact .inl ⟨if_pos hgen, hkeeps, hgen⟩
  · refine .inr ⟨if_neg ?_, hawake, hgen⟩
    rw [hgen]
    exact bump_ne _

theorem watchedStep_watch (h : watchedStep msToTicks w a = some w')
    (hu : ∀ ok, a = .run u ok → ∀ c tm, w.state.threads u ≠ .reserving c tm) :
    w'.watch u = w.watch u := by
  obtain ⟨t, ht, rfl⟩ := Option.map_eq_some_iff.mp h
  cases a with
  | tick => rfl
  | call me request => rfl
  | run me ok =>
      by_cases hum : u = me
      · subst hum
        cases hpc : w.state.threads u with
        | reserving c tm => exact (hu ok rfl c tm hpc).elim
        | _ => simp only [hpc]
      · cases hpc : w.state.threads me with
        | reserving c tm =>
            simp only [hpc]
            exact Function.update_of_ne hum _ _
        | _ => simp only [hpc]

theorem Saw.step (hsaw : Saw w u c seen o) (h : watchedStep msToTicks w a = some w')
    (hwatch : w'.watch u = w.watch u) : Saw w' u c seen o where
  watch := hwatch.trans hsaw.watch
  bumps := by
    rcases watchedStep_bumps h with ⟨hbumps, -⟩ | ⟨hbumps, -⟩
    · exact hbumps ▸ hsaw.bumps
    · exact hbumps ▸ hsaw.bumps.trans (Nat.le_succ _)
  address := hsaw.address
  theirs := hsaw.theirs
  lasts := by
    intro hsame
    rcases watchedStep_bumps h with ⟨hbumps, hkeeps, -⟩ | ⟨hbumps, -, -⟩
    · obtain ⟨⟨hactive, hclaim⟩, hseen⟩ := hsaw.lasts (hsame.trans hbumps)
      obtain ⟨hslot, hclaims⟩ := hkeeps o.slot hactive
      refine ⟨⟨?_, hclaims.trans hclaim⟩, hslot.trans hseen⟩
      rw [hslot]
      exact hactive
    · have := hsaw.bumps
      omega

/-- The snapshot step itself. -/
theorem saw_observed (h : watchedStep msToTicks w a = some w') {ok : Bool} (ha : a = .run u ok)
    (hbefore : w.state.threads u = .reserving c tm)
    (hpc : w'.state.threads u = .waiting c tm gen seen)
    (hholder : holder c.cap.address w'.state.reservations = some seen) (htheirs : seen.owner ≠ u) :
    ∃ o, Saw w' u c seen o ∧ o.bumps = w'.bumps := by
  obtain ⟨i, hi, hseen⟩ := Option.map_eq_some_iff.mp hholder
  obtain ⟨hactive, haddress⟩ := findLocked_some hi
  refine ⟨⟨i, claimsOn i w'.state.trace, w'.bumps⟩, ⟨?_, le_rfl, hseen ▸ haddress, htheirs,
    fun _ ↦ ⟨⟨hactive, rfl⟩, hseen⟩⟩, rfl⟩
  obtain ⟨t, ht, rfl⟩ := Option.map_eq_some_iff.mp h
  subst ha
  simp only [hbefore, Function.update_self, observation]
  have hpc : t.threads u = .waiting c tm gen seen := hpc
  have hi : findLocked c.cap.address t.reservations = some i := hi
  rw [hpc]
  simp only [hi, Option.map_some]

theorem Alert.generation_step (h : Alert w) (hstep : watchedStep msToTicks w a = some w') :
    w'.state.reservations.sReservationGen = UInt32.ofNat w'.bumps := by
  rcases watchedStep_bumps hstep with ⟨hbumps, -, hgen⟩ | ⟨hbumps, -, hgen⟩
  · rw [hgen, hbumps, h.generation]
  · rw [hgen, hbumps, h.generation, UInt32.ofNat_add]
    rfl

theorem Alert.step (h : Alert w) (hguard : WaitsSoon w a)
    (hstep : watchedStep msToTicks w a = some w') : Alert w' where
  generation := h.generation_step hstep
  waiting := by
    intro u c tm gen seen hpc
    have htrans := step_trans msToTicks (watchedStep_state hstep)
    rcases htrans.waiting_from hpc with hbefore | ⟨ok, ha, hbefore, hgen, hholder, htheirs⟩
    · obtain ⟨o, hsaw, hgen⟩ := h.waiting u c tm gen seen hbefore
      refine ⟨o, hsaw.step hstep (watchedStep_watch hstep ?_), hgen⟩
      intro ok ha c' tm'
      rw [hbefore]
      exact Pc.noConfusion
    · obtain ⟨o, hsaw, hbumps⟩ := saw_observed hstep ha hbefore hpc hholder htheirs
      exact ⟨o, hsaw, by rw [← hgen, hbumps, h.generation_step hstep]⟩
  asleep := by
    intro u c tm since seen hpc
    have htrans := step_trans msToTicks (watchedStep_state hstep)
    rcases watchedStep_bumps hstep with ⟨hb, -, -⟩ | ⟨-, hawake, -⟩
    swap
    · exact (hawake u c tm since seen hpc).elim
    have hwatch : (∃ c tm gen seen, w.state.threads u = .waiting c tm gen seen) ∨
        (∃ c tm since seen, w.state.threads u = .asleep c tm since seen) →
          w'.watch u = w.watch u := by
      intro hpc
      refine watchedStep_watch hstep fun ok ha c' tm' hreserving ↦ ?_
      rcases hpc with ⟨c, tm, gen, seen, hpc⟩ | ⟨c, tm, since, seen, hpc⟩
      · rw [hreserving] at hpc
        cases hpc
      · rw [hreserving] at hpc
        cases hpc
    rcases htrans.asleep_from hpc with hbefore | ⟨ok, gen, ha, hbefore, hgen, -, -, -⟩
    · obtain ⟨o, hsaw, hbumps⟩ := h.asleep u c tm since seen hbefore
      exact ⟨o, hsaw.step hstep (hwatch (.inr ⟨c, tm, since, seen, hbefore⟩)), hbumps.trans hb.symm⟩
    · obtain ⟨o, hsaw, hsnapshot⟩ := h.waiting u c tm gen seen hbefore
      refine ⟨o, hsaw.step hstep (hwatch (.inl ⟨c, tm, gen, seen, hbefore⟩)), ?_⟩
      -- equal generations fewer than 2 ^ 32 bumps apart are the same count
      subst ha
      have hsoon := hguard c tm gen seen o hbefore hsaw.watch
      have hle := hsaw.bumps
      have hmod := congrArg UInt32.toNat (h.generation.symm.trans (hgen.trans hsnapshot))
      simp only [UInt32.toNat_ofNat'] at hmod
      omega

/-- In every run in which a thread waits within `2 ^ 32` bumps of its snapshot, a
sleeper's reservation is the one it saw in another thread's hands, still active. -/
theorem no_lost_wakeup (msToTicks : ℕ → ℕ) {w : Watched}
    (h : Steps (watchedStep msToTicks) WaitsSoon .boot w) {u : ThreadId} {c : Claim}
    {tm : Timeout} {since : ℕ} {seen : Reservation}
    (hpc : w.state.threads u = .asleep c tm since seen) :
    ∃ o, w.watch u = some o ∧ o.Lasts w.state ∧
      w.state.reservations.sReservations o.slot = seen ∧ seen.address = c.cap.address ∧
        seen.owner ≠ u := by
  have halert : Alert w := h.invariant .boot fun _ _ _ ih hguard hstep ↦ ih.step hguard hstep
  obtain ⟨o, hsaw, hbumps⟩ := halert.asleep u c tm since seen hpc
  obtain ⟨hlasts, hslot⟩ := hsaw.lasts hbumps
  exact ⟨o, hsaw.watch, hlasts, hslot, hsaw.address, hsaw.theirs⟩

end Watched

/-- The guard of the run below, as a test. -/
def soon (w : Watched) : Action → Bool
  | .run me _ =>
      match w.watch me with
      | some o => decide (w.bumps < o.bumps + 2 ^ 32)
      | none => true
  | _ => true

theorem waitsSoon_of_soon {w : Watched} {a : Action} (h : soon w a = true) : WaitsSoon w a := by
  cases a with
  | run me ok =>
      intro c t gen seen o _ ho
      simpa [soon, ho] using h
  | tick => trivial
  | call me request => trivial

/-- Thread 3 releases another device between the snapshot of thread 2 and its
wait: thread 2 does not sleep on the old snapshot, but on the one it takes next. -/
theorem no_lost_wakeup_raced : ∃ w : Watched,
    Steps (watchedStep (· / 10)) WaitsSoon .boot w ∧
      ∃ o, w.watch 2 = some o ∧ o.bumps = 1 ∧ o.Lasts w.state := by
  let cap : I2CDeviceCap := ⟨0x36, 3, I2C_MAY_LEASE, 8, 150, 50⟩
  let other : I2CDeviceCap := ⟨0x38, 3, I2C_MAY_LEASE, 8, 150, 50⟩
  have hrun : (exec (watchedStep (· / 10)) soon .boot
      [.call 1 (.leaseAcquire (some cap) 0 .unlimited), .run 1 true,
        .call 2 (.leaseAcquire (some cap) 0 .unlimited), .run 2 true,
        .call 3 (.leaseAcquire (some other) 0 .unlimited), .run 3 true,
        .call 3 (.leaseRelease (some other)), .run 3 true,
        .run 2 true, .run 2 true, .run 2 true]).map (fun w ↦
        (w.state.threads 2, (w.watch 2).map Watch.bumps)) =
      some (.asleep ⟨1, cap, 50, none⟩ .unlimited 0 ⟨true, 0x36, 1, 5, true⟩, some 1) := by
    decide
  obtain ⟨w, hexec, hw⟩ := Option.map_eq_some_iff.mp hrun
  obtain ⟨hpc, hbumps⟩ := Prod.ext_iff.mp hw
  have hsteps := (exec_steps hexec).mono fun w a h ↦ waitsSoon_of_soon h
  obtain ⟨o, ho, hlasts, -⟩ := no_lost_wakeup (· / 10) hsteps hpc
  exact ⟨w, hsteps, o, ho, Option.some.inj (by simpa [ho] using hbumps), hlasts⟩

end PlantNode.Driver
