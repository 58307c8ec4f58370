import PlantNode.Driver.Capacity

/-!
# A driver for one device

What the driver is for, seen from one device: a lock with a deadline, the batches that run
under it, and leases.  There is no table to search or to fill, no generation and no futex: a
call that finds the device with another thread is blocked, and a blocked call tries again or
gives up.
-/

namespace PlantNode.Driver

open Foundation

/-- Where a thread is with its call of the device. -/
inductive Phase where
  | outside
  | acquiring (c : Claim)
  | blocked (c : Claim)
  | entered (b : Batch)
  | running (b : Batch) (weHoldLease : Bool) (rest : List I2CStep)
  | transferring (b : Batch) (weHoldLease : Bool) (s : I2CStep) (rest : List I2CStep)
  | finishing (b : Batch) (weHoldLease : Bool) (result : Ret)
  | releasing (call : ℕ)
  deriving DecidableEq, Repr

def Phase.again : Phase → Phase
  | .blocked c => .acquiring c
  | phase => phase

structure Device where
  clock : ℕ
  held : Option Reservation
  threads : ThreadId → Phase
  log : List Event

namespace Device

def boot : Device := ⟨0, none, fun _ ↦ .outside, []⟩

/-- The one slot there is. -/
def slot : Slot := ⟨0, by decide⟩

def setPhase (d : Device) (me : ThreadId) (phase : Phase) : Device :=
  { d with threads := Function.update d.threads me phase }

@[simp] theorem setPhase_threads (d : Device) (me : ThreadId) (phase : Phase) :
    (d.setPhase me phase).threads = Function.update d.threads me phase := rfl

def emit (d : Device) (e : Event) : Device :=
  { d with log := d.log ++ [e] }

def finish (d : Device) (me : ThreadId) (call : ℕ) (ret : Ret) : Device :=
  (d.emit (.returned call me ret)).setPhase me .outside

def granted (d : Device) (me : ThreadId) (c : Claim) : Device :=
  match c.steps with
  | none => d.finish me c.call (.ok ())
  | some steps =>
      (d.emit (.entered me ⟨c.call, c.cap, steps⟩)).setPhase me (.entered ⟨c.call, c.cap, steps⟩)

/-- Who has the device: a reservation lasts until its deadline. -/
def live (d : Device) : Option Reservation :=
  d.held.filter fun h ↦ decide (d.clock < h.deadlineTick)

def drop (d : Device) (me : ThreadId) : Device :=
  { d with held := d.held.filter fun h ↦ decide (h.owner ≠ me) }

/-- The end of a reservation is noticed at any time after its deadline. -/
inductive Action where
  | tick
  | expire
  | wake (woken : ThreadId → Bool)
  | call (me : ThreadId) (id : ℕ) (request : Request)
  | run (me : ThreadId) (ok : Bool)

end Device

/-- The phase that a program point of the driver stands for. -/
def Pc.phase : Pc → Phase
  | .idle => .outside
  | .reserving c _ => .acquiring c
  | .waiting c _ _ _ => .blocked c
  | .asleep c _ _ _ => .blocked c
  | .timedOut c => .blocked c
  | .reserved b => .entered b
  | .running b weHoldLease rest => .running b weHoldLease rest
  | .transferring b weHoldLease s rest => .transferring b weHoldLease s rest
  | .finishing b weHoldLease result => .finishing b weHoldLease result
  | .releasing call _ => .releasing call

def Request.address? (request : Request) : Option UInt8 :=
  request.dev.map I2CDeviceCap.address

namespace Device

section Machine

variable (msToTicks : ℕ → ℕ)

def startCall (d : Device) (me : ThreadId) (id : ℕ) (request : Request) : Device :=
  match request.start id with
  | .error e => (d.emit (.called id me request)).finish me id (.error e)
  | .ok pc => (d.emit (.called id me request)).setPhase me pc.phase

def acquire (d : Device) (me : ThreadId) (c : Claim) : Device :=
  match d.live with
  | none =>
      let entry := claimEntry msToTicks me c.cap.address c.holdMs c.isLease d.clock
      ({ d with held := some entry }.emit (.claimed c slot entry d.clock)).granted me c
  | some h => if h.owner = me then d.granted me c else d.setPhase me (.blocked c)

def loop (d : Device) (me : ThreadId) (b : Batch) (weHoldLease : Bool)
    (rest : List I2CStep) : Device :=
  match rest with
  | [] => d.setPhase me (.finishing b weHoldLease (.ok ()))
  | step :: rest =>
      if step.kind = I2cDelay then d.setPhase me (.running b weHoldLease rest)
      else if step.buffer.isNone then
        d.setPhase me (.finishing b weHoldLease (.error .EINVAL))
      else if d.live.any fun h ↦ h.owner == me then
        d.setPhase me (.transferring b weHoldLease step rest)
      else d.setPhase me (.finishing b weHoldLease (.error .ETIMEDOUT))

def transfer (d : Device) (me : ThreadId) (b : Batch) (weHoldLease : Bool) (step : I2CStep)
    (rest : List I2CStep) (ok : Bool) : Device :=
  match doTransfer b me step ok with
  | (none, ret) => d.setPhase me (.finishing b weHoldLease ret)
  | (some x, .ok _) => (d.emit (.transfer x)).setPhase me (.running b weHoldLease rest)
  | (some x, .error e) =>
      (d.emit (.transfer x)).setPhase me (.finishing b weHoldLease (.error e))

def run (d : Device) (me : ThreadId) (ok : Bool) : Phase → Option Device
  | .outside => none
  | .acquiring c => some (d.acquire msToTicks me c)
  | .blocked c => some (d.finish me c.call (.error .ETIMEDOUT))
  | .entered b => some (d.setPhase me (.running b (d.held.any fun h ↦ h.isLease) b.steps))
  | .running b weHoldLease rest => some (d.loop me b weHoldLease rest)
  | .transferring b weHoldLease step rest => some (d.transfer me b weHoldLease step rest ok)
  | .finishing b weHoldLease result =>
      some ((if weHoldLease then d else d.drop me).finish me b.call result)
  | .releasing call => some ((d.drop me).finish me call (.ok ()))

/-- One atomic step of the driver for the device at `address`. -/
def step (address : UInt8) (d : Device) : Action → Option Device
  | .tick => if d.clock + 1 < 2 ^ 64 then some { d with clock := d.clock + 1 } else none
  | .expire => some { d with held := d.live }
  | .wake woken => some { d with
      threads := fun u ↦ if woken u then (d.threads u).again else d.threads u }
  | .call me id request =>
      if d.threads me = .outside ∧ request.address? = some address ∧
          ∀ e ∈ d.log, e.call? ≠ some id then
        some (d.startCall me id request)
      else none
  | .run me ok => d.run msToTicks me ok (d.threads me)

end Machine

/-! ## Who keeps a call waiting -/

/-- The reservation of the device is one that a thread made of it, and what blocks a call is
one that another thread made. -/
structure Accounted (d : Device) : Prop where
  held : ∀ h, d.held = some h → ∃ c tick, .claimed c slot h tick ∈ d.log
  blocked : ∀ u c, d.threads u = .blocked c →
    ∃ c' h tick, .claimed c' slot h tick ∈ d.log ∧ h.owner ≠ u

namespace Accounted

variable {msToTicks : ℕ → ℕ} {address : UInt8} {d d' : Device} {me u : ThreadId} {c : Claim}
  {phase : Phase}

theorem boot : Accounted .boot where
  held h hheld := by cases hheld
  blocked u c hphase := by cases hphase

/-- The log may grow, the reservation may end, and no thread becomes blocked. -/
theorem mono (h : Accounted d) (hlog : d.log ⊆ d'.log)
    (hheld : ∀ e, d'.held = some e → d.held = some e)
    (hphase : ∀ u c, d'.threads u = .blocked c → d.threads u = .blocked c) : Accounted d' where
  held e he := by
    obtain ⟨c, tick, hmem⟩ := h.held e (hheld e he)
    exact ⟨c, tick, hlog hmem⟩
  blocked u c hc := by
    obtain ⟨c', e, tick, hmem, howner⟩ := h.blocked u c (hphase u c hc)
    exact ⟨c', e, tick, hlog hmem, howner⟩

theorem setPhase (h : Accounted d) (hphase : ∀ c, phase ≠ .blocked c) :
    Accounted (d.setPhase me phase) := by
  refine h.mono (List.Subset.refl _) (fun _ he ↦ he) fun u c hc ↦ ?_
  by_cases hum : u = me
  · subst hum
    rw [setPhase_threads, Function.update_self] at hc
    exact (hphase c hc).elim
  · rwa [setPhase_threads, Function.update_of_ne hum] at hc

theorem emit (h : Accounted d) (e : Event) : Accounted (d.emit e) :=
  h.mono (List.subset_append_left _ _) (fun _ he ↦ he) fun _ _ hc ↦ hc

theorem finish (h : Accounted d) (call : ℕ) (ret : Ret) : Accounted (d.finish me call ret) :=
  (h.emit _).setPhase (by simp)

theorem granted (h : Accounted d) (c : Claim) : Accounted (d.granted me c) := by
  unfold Device.granted
  cases c.steps with
  | none => exact h.finish _ _
  | some steps => exact (h.emit _).setPhase (by simp)

theorem filter (h : Accounted d) (p : Reservation → Bool) :
    Accounted { d with held := d.held.filter p } :=
  h.mono (List.Subset.refl _) (fun _ he ↦ (Option.filter_eq_some_iff.mp he).1) fun _ _ hc ↦ hc

theorem startCall (h : Accounted d) (id : ℕ) (request : Request) :
    Accounted (d.startCall me id request) := by
  unfold Device.startCall
  cases hstart : request.start id with
  | error e => exact (h.emit _).finish _ _
  | ok pc =>
      refine (h.emit _).setPhase fun c ↦ ?_
      rcases Request.start_ok hstart with ⟨c', t, rfl, -⟩ | ⟨a, rfl⟩
      · exact Phase.noConfusion
      · exact Phase.noConfusion

/-- Where a thread finds the device with another one, that one has claimed it. -/
theorem acquire (h : Accounted d) (c : Claim) : Accounted (d.acquire msToTicks me c) := by
  unfold Device.acquire
  cases hlive : d.live with
  | none =>
      apply granted
      refine ⟨fun e he ↦ ?_, fun u c' hc ↦ ?_⟩
      · cases he
        exact ⟨c, _, List.mem_append_right _ (List.mem_singleton_self _)⟩
      · obtain ⟨c'', e, tick, hmem, howner⟩ := h.blocked u c' hc
        exact ⟨c'', e, tick, List.mem_append_left _ hmem, howner⟩
  | some e =>
      simp only
      split
      · exact h.granted c
      · rename_i htheirs
        obtain ⟨c', tick, hmem⟩ := h.held e (Option.filter_eq_some_iff.mp hlive).1
        refine ⟨h.held, fun u c'' hc ↦ ?_⟩
        by_cases hum : u = me
        · exact ⟨c', e, tick, hmem, hum ▸ htheirs⟩
        · rw [setPhase_threads, Function.update_of_ne hum] at hc
          exact h.blocked u c'' hc

theorem loop (h : Accounted d) (b : Batch) (lease : Bool) (rest : List I2CStep) :
    Accounted (d.loop me b lease rest) := by
  unfold Device.loop
  cases rest with
  | nil => exact h.setPhase (by simp)
  | cons st rest =>
      simp only
      split_ifs
      all_goals exact h.setPhase (by simp)

theorem transfer (h : Accounted d) (b : Batch) (lease : Bool) (st : I2CStep)
    (rest : List I2CStep) (ok : Bool) : Accounted (d.transfer me b lease st rest ok) := by
  unfold Device.transfer
  split
  · exact h.setPhase (by simp)
  · exact (h.emit _).setPhase (by simp)
  · exact (h.emit _).setPhase (by simp)

theorem run (h : Accounted d) {ok : Bool} (hrun : d.run msToTicks me ok phase = some d') :
    Accounted d' := by
  cases phase with
  | outside => cases hrun
  | acquiring c =>
      cases hrun
      exact h.acquire c
  | blocked c =>
      cases hrun
      exact h.finish _ _
  | entered b =>
      cases hrun
      exact h.setPhase (by simp)
  | running b lease rest =>
      cases hrun
      exact h.loop b lease rest
  | transferring b lease st rest =>
      cases hrun
      exact h.transfer b lease st rest ok
  | finishing b lease result =>
      cases hrun
      cases lease with
      | true => exact h.finish _ _
      | false => exact (h.filter _).finish _ _
  | releasing call =>
      cases hrun
      exact (h.filter _).finish _ _

theorem step {a : Device.Action} (h : Accounted d)
    (hstep : Device.step msToTicks address d a = some d') : Accounted d' := by
  cases a with
  | tick =>
      simp only [Device.step, Option.ite_none_right_eq_some, Option.some.injEq] at hstep
      obtain ⟨-, rfl⟩ := hstep
      exact h.mono (List.Subset.refl _) (fun _ he ↦ he) fun _ _ hc ↦ hc
  | expire =>
      cases hstep
      exact h.filter _
  | wake woken =>
      cases hstep
      refine h.mono (List.Subset.refl _) (fun _ he ↦ he) fun u c hc ↦ ?_
      simp only at hc
      split at hc
      · cases hphase : d.threads u with
        | blocked c' => simp [hphase, Phase.again] at hc
        | _ => simp [hphase, Phase.again] at hc
      · exact hc
  | call me id request =>
      simp only [Device.step, Option.ite_none_right_eq_some, Option.some.injEq] at hstep
      obtain ⟨-, rfl⟩ := hstep
      exact h.startCall id request
  | run me ok => exact h.run hstep

theorem reachable (h : Reachable (Device.step msToTicks address) .boot d) : Accounted d :=
  h.invariant (I := Accounted) boot fun _ _ _ hd _ hstep ↦ hd.step hstep

end Accounted

end Device

end PlantNode.Driver
