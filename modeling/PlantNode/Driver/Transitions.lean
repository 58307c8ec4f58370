import PlantNode.Driver.Exclusion
import PlantNode.Driver.Machine

/-!
# What one step of the machine can do

`Trans` lists the kinds of step with everything that guards and follows from
them: the steps that leave an event, the returns, and the silent moves of one
thread.  Every invariant of the driver is a case analysis over it.
-/

namespace PlantNode.Driver

open Foundation

section State

variable (s : State) (me : ThreadId) (pc : Pc) (e : Event) (r : Reservations) (woke : Bool)

@[simp] theorem State.setPc_threads :
    (s.setPc me pc).threads = Function.update s.threads me pc := rfl
@[simp] theorem State.setPc_trace : (s.setPc me pc).trace = s.trace := rfl
@[simp] theorem State.setPc_clock : (s.setPc me pc).clock = s.clock := rfl
@[simp] theorem State.setPc_calls : (s.setPc me pc).calls = s.calls := rfl
@[simp] theorem State.setPc_reservations : (s.setPc me pc).reservations = s.reservations := rfl

@[simp] theorem State.emit_threads : (s.emit e).threads = s.threads := rfl
@[simp] theorem State.emit_trace : (s.emit e).trace = s.trace ++ [e] := rfl
@[simp] theorem State.emit_clock : (s.emit e).clock = s.clock := rfl
@[simp] theorem State.emit_calls : (s.emit e).calls = s.calls := rfl
@[simp] theorem State.emit_reservations : (s.emit e).reservations = s.reservations := rfl

@[simp] theorem State.commit_trace : (s.commit r woke).trace = s.trace := rfl
@[simp] theorem State.commit_clock : (s.commit r woke).clock = s.clock := rfl
@[simp] theorem State.commit_calls : (s.commit r woke).calls = s.calls := rfl
@[simp] theorem State.commit_reservations : (s.commit r woke).reservations = r := rfl

@[simp] theorem State.commit_self : s.commit s.reservations false = s := rfl

variable {me pc}

/-- What `f` reads of any thread stays, if it stays for the thread that moves. -/
theorem State.read_setPc {β : Type} (f : Pc → β) (hf : f pc = f (s.threads me)) (u : ThreadId) :
    f ((s.setPc me pc).threads u) = f (s.threads u) := by
  rw [State.setPc_threads]
  by_cases hum : u = me
  · subst hum
    rw [Function.update_self, hf]
  · rw [Function.update_of_ne hum]

end State

section Transitions

variable (msToTicks : ℕ → ℕ)

/-- The silent steps of thread `me`: its program point before and after, and the
table with the wake-up flag its section leaves. -/
inductive Move (s : State) (me : ThreadId) : Pc → Pc → Reservations → Bool → Prop where
  | held (c : Claim) (t : Timeout) (seen : Reservation)
      (found : holder c.cap.address (expireLocked s.clock s.reservations).1 = some seen)
      (theirs : seen.owner ≠ me) :
      Move s me (.reserving c t)
        (.waiting c t (expireLocked s.clock s.reservations).1.sReservationGen seen)
        (expireLocked s.clock s.reservations).1 (expireLocked s.clock s.reservations).2
  | raced (c : Claim) (t : Timeout) (gen : UInt32) (seen : Reservation)
      (bumped : s.reservations.sReservationGen ≠ gen) :
      Move s me (.waiting c t gen seen) (.reserving c t) s.reservations false
  | refused (c : Claim) (gen : UInt32) (seen : Reservation) :
      Move s me (.waiting c (.ticks 0) gen seen) (.timedOut c) s.reservations false
  | slept (c : Claim) (t : Timeout) (gen : UInt32) (seen : Reservation)
      (same : s.reservations.sReservationGen = gen) (block : t ≠ .ticks 0) :
      Move s me (.waiting c t gen seen) (.asleep c t s.clock seen) s.reservations false
  | leaseRead (b : Batch) :
      Move s me (.reserved b)
        (.running b (weHoldLeaseLocked b.cap.address s.reservations) b.steps)
        s.reservations false
  | done (b : Batch) (lease : Bool) :
      Move s me (.running b lease []) (.finishing b lease (.ok ())) s.reservations false
  | delayed (b : Batch) (lease : Bool) (st : I2CStep) (rest : List I2CStep)
      (delay : st.kind = I2cDelay) :
      Move s me (.running b lease (st :: rest)) (.running b lease rest) s.reservations false
  | nullBuffer (b : Batch) (lease : Bool) (st : I2CStep) (rest : List I2CStep)
      (bus : st.kind ≠ I2cDelay) (null : st.buffer = none) :
      Move s me (.running b lease (st :: rest)) (.finishing b lease (.error .EINVAL))
        s.reservations false
  | verified (b : Batch) (lease : Bool) (st : I2CStep) (rest : List I2CStep) (h : Reservation)
      (bus : st.kind ≠ I2cDelay) (nonnull : st.buffer ≠ none)
      (found : holder b.cap.address (expireLocked s.clock s.reservations).1 = some h)
      (ours : h.owner = me) :
      Move s me (.running b lease (st :: rest)) (.transferring b lease st rest)
        (expireLocked s.clock s.reservations).1 (expireLocked s.clock s.reservations).2
  | lost (b : Batch) (lease : Bool) (st : I2CStep) (rest : List I2CStep)
      (bus : st.kind ≠ I2cDelay) (nonnull : st.buffer ≠ none)
      (gone : ∀ h, holder b.cap.address (expireLocked s.clock s.reservations).1 = some h →
        h.owner ≠ me) :
      Move s me (.running b lease (st :: rest)) (.finishing b lease (.error .ETIMEDOUT))
        (expireLocked s.clock s.reservations).1 (expireLocked s.clock s.reservations).2
  | malformed (b : Batch) (lease : Bool) (st : I2CStep) (rest : List I2CStep)
      (bad : st.malformed = true) :
      Move s me (.transferring b lease st rest) (.finishing b lease (.error .EINVAL))
        s.reservations false

/-- The steps with which a call returns to thread `me`. -/
inductive Return (s : State) (me : ThreadId) : Pc → ℕ → Ret → Reservations → Bool → Prop where
  | full (c : Claim) (t : Timeout)
      (vacant : holder c.cap.address (expireLocked s.clock s.reservations).1 = none)
      (crowded : ∀ i, ((expireLocked s.clock s.reservations).1.sReservations i).active = true) :
      Return s me (.reserving c t) c.call (.error .EBUSY)
        (expireLocked s.clock s.reservations).1 (expireLocked s.clock s.reservations).2
  | timedOut (c : Claim) :
      Return s me (.timedOut c) c.call (.error .ETIMEDOUT) s.reservations false
  | keptLease (b : Batch) (result : Ret) :
      Return s me (.finishing b true result) b.call result s.reservations false
  | released (b : Batch) (result : Ret) :
      Return s me (.finishing b false result) b.call result
        (releaseLocked me b.cap.address s.reservations).1
        (releaseLocked me b.cap.address s.reservations).2
  | leaseReleased (call : ℕ) (address : UInt8) :
      Return s me (.releasing call address) call (.ok ())
        (releaseLocked me address s.reservations).1 (releaseLocked me address s.reservations).2

inductive Trans (s : State) : Action → State → Prop where
  | tick (fits : s.clock + 1 < 2 ^ 64) :
      Trans s .tick { s with
        clock := s.clock + 1
        threads := fun u ↦ (s.threads u).onTick (s.clock + 1) }
  | rejected (me : ThreadId) (request : Request) (e : Errno) (at_ : s.threads me = .idle)
      (refused : request.start s.calls = .error e) :
      Trans s (.call me request) ((s.opened me request).finish me s.calls (.error e))
  | started (me : ThreadId) (request : Request) (pc : Pc) (at_ : s.threads me = .idle)
      (accepted : request.start s.calls = .ok pc) :
      Trans s (.call me request) ((s.opened me request).setPc me pc)
  | moved (me : ThreadId) (ok : Bool) {pc pc' : Pc} {r : Reservations} {woke : Bool}
      (at_ : s.threads me = pc) (move : Move s me pc pc' r woke) :
      Trans s (.run me ok) ((s.commit r woke).setPc me pc')
  | claimed (me : ThreadId) (ok : Bool) (c : Claim) (t : Timeout) (i : Slot)
      (at_ : s.threads me = .reserving c t)
      (vacant : findLocked c.cap.address (expireLocked s.clock s.reservations).1 = none)
      (free : ((expireLocked s.clock s.reservations).1.sReservations i).active = false) :
      Trans s (.run me ok)
        (((s.commit
          { (expireLocked s.clock s.reservations).1 with
            sReservations := Function.update
              (expireLocked s.clock s.reservations).1.sReservations i
              (claimEntry msToTicks me c.cap.address c.holdMs c.isLease s.clock) }
          (expireLocked s.clock s.reservations).2).emit
          (.claimed c i (claimEntry msToTicks me c.cap.address c.holdMs c.isLease s.clock)
            s.clock)).granted me c)
  | reentered (me : ThreadId) (ok : Bool) (c : Claim) (t : Timeout) (h : Reservation)
      (at_ : s.threads me = .reserving c t)
      (found : holder c.cap.address (expireLocked s.clock s.reservations).1 = some h)
      (ours : h.owner = me) :
      Trans s (.run me ok)
        ((s.commit (expireLocked s.clock s.reservations).1
          (expireLocked s.clock s.reservations).2).granted me c)
  | transferred (me : ThreadId) (ok : Bool) (b : Batch) (lease : Bool) (st : I2CStep)
      (rest : List I2CStep) (at_ : s.threads me = .transferring b lease st rest)
      (good : st.malformed = false) :
      Trans s (.run me ok)
        (({ s with sInitialized := true }.emit (.transfer (b.transferOf me st ok))).setPc me
          (if ok then .running b lease rest else .finishing b lease (.error .EIo)))
  | returned (me : ThreadId) (ok : Bool) {pc : Pc} {call : ℕ} {ret : Ret} {r : Reservations}
      {woke : Bool} (at_ : s.threads me = pc) (done : Return s me pc call ret r woke) :
      Trans s (.run me ok) ((s.commit r woke).finish me call ret)

theorem reserveStep_trans {s : State} {me : ThreadId} {c : Claim} {t : Timeout} (ok : Bool)
    (at_ : s.threads me = .reserving c t) :
    Trans msToTicks s (.run me ok) (reserveStep msToTicks s me c t) := by
  obtain ⟨o, r', heq, hspec⟩ := reserveLocked_spec msToTicks me c.cap.address c.holdMs c.isLease
    s.clock s.reservations
  simp only [reserveStep, heq]
  cases hspec with
  | claimed i vacant free => exact .claimed me ok c t i at_ vacant free
  | full vacant crowded =>
      refine .returned me ok at_ (.full c t ?_ crowded)
      exact Option.map_eq_none_iff.mpr vacant
  | reentrant h held ours => exact .reentered me ok c t h at_ held ours
  | held h held theirs => exact .moved me ok at_ (.held c t h held theirs)

theorem waitStep_move (s : State) (me : ThreadId) (c : Claim) (t : Timeout) (gen : UInt32)
    (seen : Reservation) : ∃ pc', waitStep s me c t gen seen = s.setPc me pc' ∧
      Move s me (.waiting c t gen seen) pc' s.reservations false := by
  unfold waitStep
  by_cases hgen : s.reservations.sReservationGen = gen
  · by_cases ht : t = .ticks 0
    · subst ht
      exact ⟨_, by simp [hgen], .refused c gen seen⟩
    · exact ⟨_, by simp [hgen, ht], .slept c t gen seen hgen ht⟩
  · exact ⟨_, by simp [hgen], .raced c t gen seen hgen⟩

theorem loopStep_move (s : State) (me : ThreadId) (b : Batch) (lease : Bool)
    (rest : List I2CStep) : ∃ pc' r woke,
      loopStep s me b lease rest = (s.commit r woke).setPc me pc' ∧
      Move s me (.running b lease rest) pc' r woke := by
  cases rest with
  | nil => exact ⟨_, _, _, rfl, .done b lease⟩
  | cons st rest =>
      simp only [loopStep]
      by_cases hdelay : st.kind = I2cDelay
      · exact ⟨_, s.reservations, false, by simp [hdelay], .delayed b lease st rest hdelay⟩
      rw [if_neg hdelay]
      cases hbuf : st.buffer with
      | none =>
          exact ⟨_, s.reservations, false, by simp, .nullBuffer b lease st rest hdelay hbuf⟩
      | some p =>
          have hnonnull : st.buffer ≠ none := by simp [hbuf]
          simp only [Option.isNone_some, Bool.false_eq_true, ↓reduceIte]
          by_cases hours : (stillOursLocked me b.cap.address s.clock s.reservations).1 = true
          · obtain ⟨h, hh, howner⟩ := stillOursLocked_iff.mp hours
            exact ⟨_, _, _, if_pos hours, .verified b lease st rest h hdelay hnonnull hh howner⟩
          · refine ⟨_, _, _, if_neg hours, .lost b lease st rest hdelay hnonnull ?_⟩
            exact fun h hh howner ↦ hours (stillOursLocked_iff.mpr ⟨h, hh, howner⟩)

theorem transferStep_trans {s : State} {me : ThreadId} {b : Batch} {lease : Bool} {st : I2CStep}
    {rest : List I2CStep} (ok : Bool) (at_ : s.threads me = .transferring b lease st rest) :
    Trans msToTicks s (.run me ok) (transferStep s me b lease st rest ok) := by
  cases hbad : st.malformed with
  | true =>
      simp only [transferStep, doTransfer, hbad, ↓reduceIte]
      exact .moved me ok at_ (.malformed b lease st rest hbad)
  | false =>
      have h : Trans msToTicks s (.run me ok) _ := .transferred me ok b lease st rest at_ hbad
      cases ok <;> simpa [transferStep, doTransfer, hbad] using h

/-- Every step of the machine is one of the listed kinds. -/
theorem step_trans {s t : State} {a : Action} (h : step msToTicks s a = some t) :
    Trans msToTicks s a t := by
  cases a with
  | tick =>
      simp only [step] at h
      split at h
      · cases h
        exact .tick ‹_›
      · cases h
  | call me request =>
      simp only [step] at h
      split at h
      · rename_i hidle
        cases h
        unfold startCall
        cases hstart : request.start s.calls with
        | error e => exact .rejected me request e hidle hstart
        | ok pc => exact .started me request pc hidle hstart
      · cases h
  | run me ok =>
      simp only [step, runThread] at h
      cases hpc : s.threads me with
      | idle => simp [hpc] at h
      | asleep c t since seen => simp [hpc] at h
      | reserving c t =>
          simp only [hpc, Option.some.injEq] at h
          exact h ▸ reserveStep_trans msToTicks ok hpc
      | waiting c t gen seen =>
          simp only [hpc, Option.some.injEq] at h
          obtain ⟨pc', heq, hmove⟩ := waitStep_move s me c t gen seen
          rw [← h, heq]
          exact .moved me ok hpc hmove
      | timedOut c =>
          simp only [hpc, Option.some.injEq] at h
          exact h ▸ .returned me ok hpc (.timedOut c)
      | reserved b =>
          simp only [hpc, Option.some.injEq] at h
          exact h ▸ .moved me ok hpc (.leaseRead b)
      | running b lease rest =>
          simp only [hpc, Option.some.injEq] at h
          obtain ⟨pc', r, woke, heq, hmove⟩ := loopStep_move s me b lease rest
          rw [← h, heq]
          exact .moved me ok hpc hmove
      | transferring b lease st rest =>
          simp only [hpc, Option.some.injEq] at h
          exact h ▸ transferStep_trans msToTicks ok hpc
      | finishing b lease result =>
          simp only [hpc, Option.some.injEq] at h
          cases lease with
          | true => exact h ▸ .returned me ok hpc (.keptLease b result)
          | false => exact h ▸ .returned me ok hpc (.released b result)
      | releasing call address =>
          simp only [hpc, Option.some.injEq] at h
          exact h ▸ .returned me ok hpc (.leaseReleased call address)

/-! ## The trace only grows -/

theorem State.granted_prefix (s : State) (me : ThreadId) (c : Claim) :
    s.trace <+: (s.granted me c).trace := by
  unfold State.granted
  cases c.steps with
  | none => exact List.prefix_append _ _
  | some steps => exact List.prefix_append _ _

theorem State.mem_of_granted {s : State} {me : ThreadId} {c : Claim} {id : ℕ} {u : ThreadId}
    {ret : Ret} (hret : ret ≠ .ok ()) (h : .returned id u ret ∈ (s.granted me c).trace) :
    .returned id u ret ∈ s.trace := by
  unfold State.granted at h
  split at h
  · exact mem_of_mem_snoc h (by simp [hret])
  · exact mem_of_mem_snoc h (by simp)

theorem Trans.trace_prefix {s t : State} {a : Action} (h : Trans msToTicks s a t) :
    s.trace <+: t.trace := by
  cases h with
  | tick fits => exact List.prefix_rfl
  | rejected me request e at_ refused =>
      exact (List.prefix_append _ _).trans (List.prefix_append _ _)
  | started me request pc at_ accepted => exact List.prefix_append _ _
  | moved me ok at_ move => exact List.prefix_rfl
  | claimed me ok c t i at_ vacant free =>
      exact (List.prefix_append s.trace _).trans
        (State.granted_prefix (State.emit (State.commit s _ _) _) me c)
  | reentered me ok c t h at_ found ours => exact State.granted_prefix (State.commit s _ _) me c
  | transferred me ok b lease st rest at_ good => exact List.prefix_append _ _
  | returned me ok at_ done => exact List.prefix_append _ _

end Transitions

end PlantNode.Driver
