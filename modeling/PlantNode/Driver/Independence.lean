import PlantNode.Driver.Device

/-!
# The devices do not see each other

Seen from one device, a run of the driver is a run of the driver that has this device only:
the other devices show in nothing but the moments at which a reservation is noticed to be over
and a blocked call tries again.
-/

namespace PlantNode.Driver

open Foundation

/-! ## The projection -/

def Pc.address? : Pc → Option UInt8
  | .releasing _ address => some address
  | pc => (pc.claim?.map (·.cap.address)).or (pc.batch?.map (·.cap.address))

def Pc.phaseOn (address : UInt8) (pc : Pc) : Phase :=
  if pc.address? = some address then pc.phase else .outside

/-- The number of the call that an event belongs to. -/
def Event.number : Event → ℕ
  | .called call _ _ => call
  | .claimed c _ _ _ => c.call
  | .entered _ b => b.call
  | .transfer x => x.call
  | .returned call _ _ => call

def Event.opens? (address : UInt8) : Event → Option ℕ
  | .called call _ request => if request.address? = some address then some call else none
  | _ => none

/-- The calls that were made for the device at `address`. -/
def callsOn (address : UInt8) (trace : List Event) : List ℕ :=
  trace.filterMap (Event.opens? address)

/-- With a single device there is a single slot. -/
def Event.alone : Event → Event
  | .claimed c _ entry tick => .claimed c Device.slot entry tick
  | e => e

def logOn (address : UInt8) (trace : List Event) : List Event :=
  (trace.filter fun e ↦ decide (e.number ∈ callsOn address trace)).map Event.alone

def State.device (s : State) (address : UInt8) : Device where
  clock := s.clock
  held := holder address s.reservations
  threads u := (s.threads u).phaseOn address
  log := logOn address s.trace

variable {msToTicks : ℕ → ℕ} {s t : State} {a : Action} {me u : ThreadId} {pc pc' : Pc}
  {r : Reservations} {woke : Bool} {address : UInt8} {id : ℕ} {e : Event} {trace : List Event}

theorem mem_callsOn : id ∈ callsOn address trace ↔
    ∃ me request, .called id me request ∈ trace ∧ request.address? = some address := by
  simp only [callsOn, List.mem_filterMap]
  constructor
  · rintro ⟨e, he, hopens⟩
    cases e with
    | called call me request =>
        simp only [Event.opens?, Option.ite_none_right_eq_some, Option.some.injEq] at hopens
        obtain ⟨haddress, rfl⟩ := hopens
        exact ⟨me, request, he, haddress⟩
    | _ => cases hopens
  · rintro ⟨me, request, he, haddress⟩
    exact ⟨_, he, by simp [Event.opens?, haddress]⟩

theorem callsOn_snoc (he : e.opens? address = none) :
    callsOn address (trace ++ [e]) = callsOn address trace := by
  simp [callsOn, he]

theorem logOn_snoc (he : e.opens? address = none) (hon : e.number ∈ callsOn address trace) :
    logOn address (trace ++ [e]) = logOn address trace ++ [e.alone] := by
  simp [logOn, callsOn_snoc he, hon]

theorem logOn_snoc_off (he : e.opens? address = none) (hoff : e.number ∉ callsOn address trace) :
    logOn address (trace ++ [e]) = logOn address trace := by
  simp [logOn, callsOn_snoc he, hoff]

/-- A new call has a new number, so that no older event becomes one of the device. -/
theorem logOn_called {request : Request} (hnew : ∀ e ∈ trace, e.number ≠ id)
    (haddress : request.address? = some address) :
    logOn address (trace ++ [.called id me request]) =
      logOn address trace ++ [.called id me request] := by
  have hcalls : callsOn address (trace ++ [.called id me request]) =
      callsOn address trace ++ [id] := by
    simp [callsOn, Event.opens?, haddress]
  have hold : ∀ e ∈ trace, (e.number ∈ callsOn address trace ++ [id] ↔
      e.number ∈ callsOn address trace) := by
    intro e he
    simp [hnew e he]
  simp only [logOn, hcalls, List.filter_append, List.map_append]
  congr 2
  · refine List.filter_congr fun e he ↦ ?_
    simp [hold e he]
  · simp [Event.number, Event.alone]

/-! ## Where the calls belong -/

theorem Pc.Drifts.address? (h : pc.Drifts pc') : pc'.address? = pc.address? := by
  cases h <;> rfl

theorem Move.address? (h : Move s me pc pc' r woke) : pc'.address? = pc.address? := by
  cases h <;> rfl

theorem Request.Starts.address? {request : Request} (h : request.Starts id pc) :
    pc.address? = request.address? := by
  cases h with
  | transact dev steps t cap l accepted =>
      simp [Request.address?, Request.dev, (acceptBatch_ok accepted).1, Pc.address?, Pc.claim?]
  | leaseAcquire dev durationMs t cap holdMs accepted =>
      simp [Request.address?, Request.dev, (acceptLease_ok accepted).1, Pc.address?, Pc.claim?]
  | leaseRelease dev cap accepted =>
      simp [Request.address?, Request.dev, (authorize_ok accepted).1, Pc.address?]

theorem Request.Starts.call? {request : Request} (h : request.Starts id pc) :
    pc.call? = some id := by
  cases h <;> rfl

/-- What `granted` adds to the trace belongs to the call that made the claim. -/
theorem State.granted_snoc (s : State) (me : ThreadId) (c : Claim) :
    ∃ e, (s.granted me c).trace = s.trace ++ [e] ∧ e.number = c.call ∧
      (s.granted me c).calls = s.calls := by
  unfold State.granted
  cases c.steps with
  | none => exact ⟨_, rfl, rfl, rfl⟩
  | some steps => exact ⟨_, rfl, rfl, rfl⟩

theorem State.granted_place {c : Claim} (hcall : ((s.granted me c).threads me).call? = some id) :
    id = c.call ∧ ((s.granted me c).threads me).address? = some c.cap.address := by
  unfold State.granted at hcall ⊢
  cases hsteps : c.steps with
  | none => simp [hsteps, State.finish, Pc.call?, Pc.claim?, Pc.batch?] at hcall
  | some steps =>
      simp only [hsteps, State.setPc_threads, Function.update_self, Pc.call?, Pc.claim?,
        Pc.batch?, Option.map_none, Option.none_or, Option.map_some, Option.some.injEq] at hcall
      exact ⟨hcall.symm, by simp [Pc.address?, Pc.claim?, Pc.batch?]⟩

/-- A thread in a call was in it before the step, for the same device, or has just made it. -/
theorem Trans.place_from (h : Trans msToTicks s a t) (hcall : (t.threads u).call? = some id) :
    ((s.threads u).call? = some id ∧ (t.threads u).address? = (s.threads u).address?) ∨
      ∃ request, a = .call u request ∧ id = s.calls ∧
        (t.threads u).address? = request.address? := by
  by_cases hactor : a.actor? = some u
  swap
  · have hdrifts := h.drifts hactor
    exact .inl ⟨hdrifts.call? ▸ hcall, hdrifts.address?⟩
  cases h with
  | tick fits => cases hactor
  | rejected me request e at_ refused =>
      cases hactor
      simp [State.finish, Pc.call?, Pc.claim?, Pc.batch?] at hcall
  | started me request pc at_ accepted =>
      cases hactor
      rw [State.setPc_threads, Function.update_self] at hcall ⊢
      have hstarts := Request.starts accepted
      rw [hstarts.call?, Option.some.injEq] at hcall
      exact .inr ⟨request, rfl, hcall.symm, hstarts.address?⟩
  | moved me ok at_ move =>
      cases hactor
      rw [State.setPc_threads, Function.update_self] at hcall ⊢
      rw [at_]
      exact .inl ⟨move.call? ▸ hcall, move.address?⟩
  | claimed me ok c tm i at_ vacant free =>
      cases hactor
      obtain ⟨rfl, haddress⟩ := State.granted_place hcall
      exact .inl ⟨by rw [at_]; rfl, by rw [haddress, at_]; rfl⟩
  | reentered me ok c tm e at_ found ours =>
      cases hactor
      obtain ⟨rfl, haddress⟩ := State.granted_place hcall
      exact .inl ⟨by rw [at_]; rfl, by rw [haddress, at_]; rfl⟩
  | transferred me ok b lease st rest at_ good =>
      cases hactor
      rw [State.setPc_threads, Function.update_self] at hcall ⊢
      rw [at_]
      left
      cases ok with
      | true => exact ⟨hcall, rfl⟩
      | false => exact ⟨hcall, rfl⟩
  | returned me ok at_ done =>
      cases hactor
      simp [State.finish, Pc.call?, Pc.claim?, Pc.batch?] at hcall

theorem Trans.called_of_call {request : Request} (h : Trans msToTicks s (.call u request) t) :
    .called s.calls u request ∈ t.trace := by
  cases h with
  | rejected e at_ refused =>
      exact List.mem_append_left _ (List.mem_append_right _ (List.mem_singleton_self _))
  | started pc at_ accepted => exact List.mem_append_right _ (List.mem_singleton_self _)

/-- Every event belongs to a call that was made, and a thread is in a call of the device that
it asked for. -/
structure Placed (s : State) : Prop where
  numbered : ∀ e ∈ s.trace, e.number < s.calls
  called : ∀ u id, (s.threads u).call? = some id →
    ∃ request, .called id u request ∈ s.trace ∧ request.address? = (s.threads u).address?

namespace Placed

theorem boot : Placed .boot where
  numbered := by simp [State.boot]
  called u id hcall := by simp [State.boot, Pc.call?, Pc.claim?, Pc.batch?] at hcall

theorem lt (h : Placed s) (hcall : (s.threads u).call? = some id) : id < s.calls := by
  obtain ⟨request, hcalled, -⟩ := h.called u id hcall
  exact h.numbered _ hcalled

/-- The events of a step belong to the call that the step is part of. -/
theorem numbered_trans (h : Placed s) (ht : Trans msToTicks s a t) :
    ∀ e ∈ t.trace, e.number < t.calls := by
  have hsnoc : ∀ {l : List Event} {e : Event} {n : ℕ}, (∀ e ∈ l, e.number < n) →
      e.number < n → ∀ e' ∈ l ++ [e], e'.number < n := by
    intro l e n hl he e' he'
    rcases List.mem_append.mp he' with hold | hnew
    · exact hl e' hold
    · exact List.mem_singleton.mp hnew ▸ he
  have hnext : ∀ e ∈ s.trace, e.number < s.calls + 1 := fun e he ↦
    Nat.lt_succ_of_lt (h.numbered e he)
  cases ht with
  | tick fits => exact h.numbered
  | rejected me request e at_ refused =>
      exact hsnoc (hsnoc hnext (Nat.lt_succ_self _)) (Nat.lt_succ_self _)
  | started me request pc at_ accepted => exact hsnoc hnext (Nat.lt_succ_self _)
  | moved me ok at_ move => exact h.numbered
  | claimed me ok c tm i at_ vacant free =>
      have hlt : c.call < s.calls := h.lt (u := me) (by rw [at_]; rfl)
      obtain ⟨e, htrace, he, hcalls⟩ :=
        State.granted_snoc (State.emit (State.commit s _ _) _) me c
      rw [htrace, hcalls]
      exact hsnoc (hsnoc h.numbered hlt) (he ▸ hlt)
  | reentered me ok c tm e at_ found ours =>
      have hlt : c.call < s.calls := h.lt (u := me) (by rw [at_]; rfl)
      obtain ⟨e, htrace, he, hcalls⟩ := State.granted_snoc (State.commit s _ _) me c
      rw [htrace, hcalls]
      exact hsnoc h.numbered (he ▸ hlt)
  | transferred me ok b lease st rest at_ good =>
      have hlt : b.call < s.calls := h.lt (u := me) (by rw [at_]; rfl)
      exact hsnoc h.numbered hlt
  | returned me ok at_ done =>
      have hlt := h.lt (u := me) (at_ ▸ done.call?)
      exact hsnoc h.numbered hlt

theorem trans (h : Placed s) (ht : Trans msToTicks s a t) : Placed t where
  numbered := h.numbered_trans ht
  called u id hcall := by
    rcases ht.place_from hcall with ⟨hbefore, haddress⟩ | ⟨request, rfl, rfl, haddress⟩
    · obtain ⟨request, hcalled, hrequest⟩ := h.called u id hbefore
      exact ⟨request, ht.trace_prefix.subset hcalled, hrequest.trans haddress.symm⟩
    · exact ⟨request, ht.called_of_call, haddress.symm⟩

theorem reachable (h : Reachable (step msToTicks) .boot s) : Placed s :=
  h.invariant (I := Placed) boot fun _ _ _ hs _ hstep ↦ hs.trans (step_trans msToTicks hstep)

end Placed

theorem Placed.mem_callsOn (h : Placed s) (hl : Ledger s) (address : UInt8) (me : ThreadId)
    (id : ℕ) (hcall : (s.threads me).call? = some id) :
    id ∈ callsOn address s.trace ↔ (s.threads me).address? = some address := by
  obtain ⟨request, hcalled, hrequest⟩ := h.called me id hcall
  rw [Driver.mem_callsOn, ← hrequest]
  constructor
  · rintro ⟨u, request', hcalled', haddress⟩
    rwa [(hl.once id me u request request' hcalled hcalled').2]
  · exact fun haddress ↦ ⟨me, request, hcalled, haddress⟩

/-! ## The primitive steps, seen from the device -/

def Pc.sleeps : Pc → Bool
  | .asleep .. => true
  | _ => false

theorem Pc.phaseOn_on (hon : pc.address? = some address) : pc.phaseOn address = pc.phase :=
  if_pos hon

theorem Pc.phaseOn_off (hoff : pc.address? ≠ some address) : pc.phaseOn address = .outside :=
  if_neg hoff

/-- A call whose time runs out stays blocked. -/
theorem Pc.phaseOn_onTick (now : ℕ) : (pc.onTick now).phaseOn address = pc.phaseOn address := by
  have hphase : (pc.onTick now).phase = pc.phase := by
    cases pc with
    | asleep c t since seen =>
        simp only [Pc.onTick]
        split <;> rfl
    | _ => rfl
  rw [phaseOn, phaseOn, (pc.onTick_drifts now).address?, hphase]

theorem Pc.phaseOn_onWake (now : ℕ) : (pc.onWake now).phaseOn address =
    if pc.sleeps then (pc.phaseOn address).again else pc.phaseOn address := by
  have hdrifts := pc.onWake_drifts now
  cases pc with
  | asleep c t since seen =>
      rw [phaseOn, phaseOn, hdrifts.address?]
      by_cases hon : (Pc.asleep c t since seen).address? = some address
      · simp only [sleeps, hon, if_true]
        rfl
      · simp only [sleeps, hon, if_true, if_false]
        rfl
  | _ => rfl

theorem State.device_setPc : (s.setPc me pc).device address =
    (s.device address).setPhase me (pc.phaseOn address) := by
  have hthreads : (fun u ↦ ((s.setPc me pc).threads u).phaseOn address) =
      Function.update (fun u ↦ (s.threads u).phaseOn address) me (pc.phaseOn address) :=
    Function.comp_update (Pc.phaseOn address) s.threads me pc
  simp only [State.device, Device.setPhase, hthreads]
  rfl

theorem State.device_emit (he : e.opens? address = none)
    (hon : e.number ∈ callsOn address s.trace) :
    (s.emit e).device address = (s.device address).emit e.alone := by
  simp only [State.device, Device.emit, State.emit_trace, logOn_snoc he hon]
  rfl

theorem State.device_emit_off (he : e.opens? address = none)
    (hoff : e.number ∉ callsOn address s.trace) :
    (s.emit e).device address = s.device address := by
  simp only [State.device, State.emit_trace, logOn_snoc_off he hoff]
  rfl

theorem Device.setPhase_self {d : Device} {phase : Phase} (h : d.threads me = phase) :
    d.setPhase me phase = d := by
  rw [Device.setPhase, ← h, Function.update_eq_self]

theorem State.device_finish {ret : Ret} (hon : id ∈ callsOn address s.trace) :
    (s.finish me id ret).device address = (s.device address).finish me id ret := by
  rw [State.finish, State.device_setPc, State.device_emit rfl hon]
  rfl

theorem State.device_finish_off {ret : Ret} (hoff : id ∉ callsOn address s.trace)
    (hout : (s.device address).threads me = .outside) :
    (s.finish me id ret).device address = s.device address := by
  rw [State.finish, State.device_setPc, State.device_emit_off rfl hoff]
  exact Device.setPhase_self hout

theorem State.device_granted {c : Claim} (hon : c.call ∈ callsOn address s.trace)
    (haddress : c.cap.address = address) :
    (s.granted me c).device address = (s.device address).granted me c := by
  unfold State.granted Device.granted
  cases c.steps with
  | none => exact State.device_finish hon
  | some steps =>
      simp only
      rw [State.device_setPc, State.device_emit rfl hon, Pc.phaseOn_on]
      · rfl
      · rw [← haddress]
        rfl

theorem State.device_granted_off {c : Claim} (hoff : c.call ∉ callsOn address s.trace)
    (haddress : c.cap.address ≠ address) (hout : (s.device address).threads me = .outside) :
    (s.granted me c).device address = s.device address := by
  unfold State.granted
  cases c.steps with
  | none => exact State.device_finish_off hoff hout
  | some steps =>
      simp only
      rw [State.device_setPc, State.device_emit_off rfl hoff, Pc.phaseOn_off]
      · exact Device.setPhase_self hout
      · exact fun h ↦ haddress (Option.some.inj h)

/-! ## Paths of the device -/

theorem Device.leads {d d' : Device} (a : Device.Action)
    (h : Device.step msToTicks address d a = some d') :
    Reachable (Device.step msToTicks address) d d' :=
  .next a .init trivial h

/-- The step of one thread at a known phase. -/
theorem Device.run_path {d d' : Device} {phase : Phase} (ok : Bool)
    (hphase : d.threads me = phase) (hrun : d.run msToTicks me ok phase = some d') :
    Reachable (Device.step msToTicks address) d d' :=
  Device.leads (.run me ok) (by rw [← hrun, ← hphase]; rfl)

theorem State.commit_phaseOn (u : ThreadId) : ((s.commit r woke).threads u).phaseOn address =
    if woke && (s.threads u).sleeps then ((s.device address).threads u).again
    else (s.device address).threads u := by
  cases woke with
  | false => rfl
  | true =>
      rw [Bool.true_and]
      exact Pc.phaseOn_onWake s.clock

/-- A section that leaves the reservation of the device alone can wake its callers. -/
theorem wake_path (hsame : holder address r = holder address s.reservations) :
    Reachable (Device.step msToTicks address) (s.device address)
      ((s.commit r woke).device address) := by
  refine Device.leads (.wake fun u ↦ woke && (s.threads u).sleeps) ?_
  simp only [Device.step, Option.some.injEq]
  simp only [State.device, State.commit_phaseOn, State.commit_reservations, hsame]
  rfl

/-- A section that begins with `expire_locked` ends the reservation if it is over. -/
theorem expire_path (woke : Bool) (hu : UniqueActive s.reservations) :
    Reachable (Device.step msToTicks address) (s.device address)
      ((s.commit (expireLocked s.clock s.reservations).1 woke).device address) := by
  have hexpire : Reachable (Device.step msToTicks address) (s.device address)
      ({ s with reservations := (expireLocked s.clock s.reservations).1 }.device address) := by
    refine Device.leads .expire ?_
    simp only [Device.step, State.device, Device.live, holder_expire hu]
    rfl
  exact hexpire.trans (wake_path rfl)

theorem State.live_expired (hu : UniqueActive s.reservations) :
    ((s.commit (expireLocked s.clock s.reservations).1 woke).device address).live =
      holder address (expireLocked s.clock s.reservations).1 := by
  rw [holder_expire hu]
  simp only [Device.live, State.device, State.commit_reservations, State.commit_clock,
    holder_expire hu, Option.filter_filter, Bool.and_self]

/-! ## Every step is one of the device, or of another -/

theorem Move.awake_before (h : Move s me pc pc' r woke) : pc.sleeps = false := by
  cases h <;> rfl

theorem Pc.onWake_awake (hawake : pc.sleeps = false) (now : ℕ) : pc.onWake now = pc := by
  cases pc with
  | asleep c t since seen => cases hawake
  | _ => rfl

theorem State.commit_awake (at_ : s.threads me = pc) (hawake : pc.sleeps = false) :
    (s.commit r woke).threads me = pc := by
  subst at_
  cases woke with
  | false => rfl
  | true => exact Pc.onWake_awake hawake s.clock

theorem State.commit_phase (r : Reservations) (woke : Bool) (at_ : s.threads me = pc)
    (hawake : pc.sleeps = false) (hon : pc.address? = some address) :
    ((s.commit r woke).device address).threads me = pc.phase := by
  rw [← Pc.phaseOn_on hon]
  exact congrArg (Pc.phaseOn address) (State.commit_awake at_ hawake)

theorem State.commit_outside (at_ : s.threads me = pc) (hoff : pc.address? ≠ some address) :
    ((s.commit r woke).device address).threads me = .outside := by
  refine Pc.phaseOn_off ?_
  rw [(s.commit_drifts r woke me).address?, at_]
  exact hoff

/-- The section of a silent move, before the thread itself moves on. -/
theorem Move.section_path (h : Move s me pc pc' r woke) (hu : UniqueActive s.reservations) :
    Reachable (Device.step msToTicks address) (s.device address)
      ((s.commit r woke).device address) := by
  cases h with
  | held c t seen found theirs => exact expire_path _ hu
  | verified b lease st rest h bus nonnull found ours => exact expire_path _ hu
  | lost b lease st rest bus nonnull gone => exact expire_path _ hu
  | _ => exact wake_path rfl

theorem Move.path_off (h : Move s me pc pc' r woke) (hu : UniqueActive s.reservations)
    (at_ : s.threads me = pc) (hoff : pc.address? ≠ some address) :
    Reachable (Device.step msToTicks address) (s.device address)
      (((s.commit r woke).setPc me pc').device address) := by
  rw [State.device_setPc, Pc.phaseOn_off (h.address?.symm ▸ hoff),
    Device.setPhase_self (State.commit_outside at_ hoff)]
  exact h.section_path hu

theorem Move.path_on (h : Move s me pc pc' r woke) (hu : UniqueActive s.reservations)
    (at_ : s.threads me = pc) (hon : pc.address? = some address) :
    Reachable (Device.step msToTicks address) (s.device address)
      (((s.commit r woke).setPc me pc').device address) := by
  refine (h.section_path hu).trans ?_
  have hphase := State.commit_phase r woke at_ h.awake_before hon
  rw [State.device_setPc, Pc.phaseOn_on (h.address?.trans hon)]
  cases h with
  | held c t seen found theirs =>
      obtain rfl := Option.some.inj hon
      refine Device.run_path true hphase ?_
      simp [Device.run, Pc.phase, Device.acquire, State.live_expired hu, found, theirs]
  | raced c t gen seen bumped =>
      refine Device.leads (.wake fun u ↦ u = me) ?_
      simp only [Device.step, Device.setPhase, Option.some.injEq, decide_eq_true_eq]
      congr 1
      funext u
      by_cases hum : u = me
      · rw [hum, if_pos rfl, hphase, Function.update_self]
        rfl
      · rw [if_neg hum, Function.update_of_ne hum]
  | refused c gen seen =>
      exact (Device.setPhase_self hphase).symm ▸ .init
  | slept c t gen seen same block =>
      exact (Device.setPhase_self hphase).symm ▸ .init
  | leaseRead b =>
      obtain rfl := Option.some.inj hon
      exact Device.run_path true hphase rfl
  | done b lease => exact Device.run_path true hphase rfl
  | delayed b lease st rest delay =>
      refine Device.run_path true hphase ?_
      simp [Device.run, Pc.phase, Device.loop, delay]
  | nullBuffer b lease st rest bus null =>
      refine Device.run_path true hphase ?_
      simp [Device.run, Pc.phase, Device.loop, bus, null]
  | verified b lease st rest h bus nonnull found ours =>
      obtain rfl := Option.some.inj hon
      refine Device.run_path true hphase ?_
      simp [Device.run, Pc.phase, Device.loop, bus, nonnull, State.live_expired hu, found, ours]
  | lost b lease st rest bus nonnull gone =>
      obtain rfl := Option.some.inj hon
      have hgone : ((holder b.cap.address (expireLocked s.clock s.reservations).1).any
          fun h ↦ h.owner == me) = false := by
        rw [Option.any_eq_false]
        simpa using gone
      refine Device.run_path true hphase ?_
      simp [Device.run, Pc.phase, Device.loop, bus, nonnull, State.live_expired hu, hgone]
  | malformed b lease st rest bad =>
      refine Device.run_path true hphase ?_
      simp [Device.run, Pc.phase, Device.transfer, doTransfer, bad]

theorem Return.awake_before {ret : Ret} (h : Return s me pc id ret r woke) :
    pc.sleeps = false := by
  cases h <;> rfl

theorem State.release_drop (hu : UniqueActive s.reservations) :
    (s.commit (releaseLocked me address s.reservations).1 woke).device address =
      ((s.commit s.reservations woke).device address).drop me := by
  have hheld : holder address (releaseLocked me address s.reservations).1 =
      (holder address s.reservations).filter fun h ↦ decide (h.owner ≠ me) := by
    rw [holder_release hu]
    congr 1
    funext h
    simp
  simp only [State.device, Device.drop, State.commit_reservations, hheld]
  rfl

/-- The table has a slot for every thread that finds its device free. -/
def Roomy (s : State) : Prop :=
  ∀ me c tm, s.threads me = .reserving c tm →
    findLocked c.cap.address (expireLocked s.clock s.reservations).1 = none →
      ¬∀ i, ((expireLocked s.clock s.reservations).1.sReservations i).active = true

theorem Return.path_on {ret : Ret} (h : Return s me pc id ret r woke)
    (hu : UniqueActive s.reservations) (at_ : s.threads me = pc) (hon : pc.address? = some address)
    (hid : id ∈ callsOn address s.trace) (hroom : Roomy s) :
    Reachable (Device.step msToTicks address) (s.device address)
      (((s.commit r woke).finish me id ret).device address) := by
  have hphase : ∀ r, ((s.commit r woke).device address).threads me = pc.phase := fun r ↦
    State.commit_phase _ _ at_ h.awake_before hon
  rw [State.device_finish (s := s.commit r woke) hid]
  cases h with
  | full c tm vacant crowded =>
      exact (hroom me c tm at_ (Option.map_eq_none_iff.mp vacant) crowded).elim
  | timedOut c => exact (wake_path rfl).trans (Device.run_path true (hphase _) rfl)
  | keptLease b result => exact (wake_path rfl).trans (Device.run_path true (hphase _) rfl)
  | released b result =>
      obtain rfl := Option.some.inj hon
      rw [State.release_drop hu]
      exact (wake_path rfl).trans (Device.run_path true (hphase s.reservations) rfl)
  | leaseReleased call a =>
      obtain rfl := Option.some.inj hon
      rw [State.release_drop hu]
      exact (wake_path rfl).trans (Device.run_path true (hphase s.reservations) rfl)

theorem holder_release_off {other : UInt8} (hu : UniqueActive r) (hne : other ≠ address) :
    holder address (releaseLocked me other r).1 = holder address r := by
  rw [holder_release hu]
  cases holder address r with
  | none => rfl
  | some h => simp [hne.symm]

theorem Return.path_off {ret : Ret} (h : Return s me pc id ret r woke)
    (hu : UniqueActive s.reservations) (at_ : s.threads me = pc) (hoff : pc.address? ≠ some address)
    (hid : id ∉ callsOn address s.trace) (hroom : Roomy s) :
    Reachable (Device.step msToTicks address) (s.device address)
      (((s.commit r woke).finish me id ret).device address) := by
  rw [State.device_finish_off (s := s.commit r woke) hid (State.commit_outside at_ hoff)]
  cases h with
  | full c tm vacant crowded =>
      exact (hroom me c tm at_ (Option.map_eq_none_iff.mp vacant) crowded).elim
  | timedOut c => exact wake_path rfl
  | keptLease b result => exact wake_path rfl
  | released b result =>
      exact wake_path (holder_release_off hu fun h ↦ hoff (congrArg some h))
  | leaseReleased call a =>
      exact wake_path (holder_release_off hu fun h ↦ hoff (congrArg some h))

section Grants

variable {c : Claim} {tm : Timeout} {i : Slot}

/-- The state after the section that makes a fresh claim, in the slot `i`. -/
def State.claimedAt (msToTicks : ℕ → ℕ) (s : State) (me : ThreadId) (c : Claim) (i : Slot)
    (woke : Bool) : State :=
  let entry := claimEntry msToTicks me c.cap.address c.holdMs c.isLease s.clock
  let r := (expireLocked s.clock s.reservations).1
  (s.commit { r with sReservations := Function.update r.sReservations i entry } woke).emit
    (.claimed c i entry s.clock)

theorem State.claimedAt_callsOn : callsOn address (s.claimedAt msToTicks me c i woke).trace =
    callsOn address s.trace :=
  callsOn_snoc rfl

theorem holder_claimedAt (msToTicks : ℕ → ℕ) (me : ThreadId) (woke : Bool) (address : UInt8)
    (hu : UniqueActive s.reservations)
    (vacant : findLocked c.cap.address (expireLocked s.clock s.reservations).1 = none)
    (free : ((expireLocked s.clock s.reservations).1.sReservations i).active = false) :
    holder address (s.claimedAt msToTicks me c i woke).reservations =
      if address = c.cap.address then
        some (claimEntry msToTicks me c.cap.address c.holdMs c.isLease s.clock)
      else holder address (expireLocked s.clock s.reservations).1 :=
  holder_claim (hu.expire s.clock) vacant free rfl

theorem State.device_claimedAt (hu : UniqueActive s.reservations)
    (vacant : findLocked c.cap.address (expireLocked s.clock s.reservations).1 = none)
    (free : ((expireLocked s.clock s.reservations).1.sReservations i).active = false)
    (hid : c.call ∈ callsOn c.cap.address s.trace) :
    (s.claimedAt msToTicks me c i woke).device c.cap.address =
      let entry := claimEntry msToTicks me c.cap.address c.holdMs c.isLease s.clock
      { (s.commit (expireLocked s.clock s.reservations).1 woke).device c.cap.address with
        held := some entry }.emit (.claimed c Device.slot entry s.clock) := by
  have hholder := holder_claimedAt msToTicks me woke c.cap.address hu vacant free
  rw [if_pos rfl] at hholder
  unfold State.claimedAt at hholder ⊢
  rw [State.device_emit]
  · simp only [State.device, ← hholder]
    rfl
  · rfl
  · exact hid

theorem claim_path_on (hu : UniqueActive s.reservations) (at_ : s.threads me = .reserving c tm)
    (vacant : findLocked c.cap.address (expireLocked s.clock s.reservations).1 = none)
    (free : ((expireLocked s.clock s.reservations).1.sReservations i).active = false)
    (hid : c.call ∈ callsOn c.cap.address s.trace) :
    Reachable (Device.step msToTicks c.cap.address) (s.device c.cap.address)
      (((s.claimedAt msToTicks me c i woke).granted me c).device c.cap.address) := by
  have hlive : ((s.commit (expireLocked s.clock s.reservations).1 woke).device
      c.cap.address).live = none := by
    rw [State.live_expired hu, holder, vacant]
    rfl
  have hcalls : c.call ∈ callsOn c.cap.address (s.claimedAt msToTicks me c i woke).trace := by
    rwa [State.claimedAt_callsOn]
  refine (expire_path woke hu).trans
    (Device.run_path true (State.commit_phase _ _ at_ rfl rfl) ?_)
  rw [State.device_granted hcalls rfl, State.device_claimedAt hu vacant free hid]
  simp only [Device.run, Pc.phase, Device.acquire, hlive]
  rfl

theorem claim_path_off (hu : UniqueActive s.reservations) (at_ : s.threads me = .reserving c tm)
    (vacant : findLocked c.cap.address (expireLocked s.clock s.reservations).1 = none)
    (free : ((expireLocked s.clock s.reservations).1.sReservations i).active = false)
    (hoff : c.cap.address ≠ address) (hid : c.call ∉ callsOn address s.trace) :
    Reachable (Device.step msToTicks address) (s.device address)
      (((s.claimedAt msToTicks me c i woke).granted me c).device address) := by
  have hout : ((s.claimedAt msToTicks me c i woke).device address).threads me = .outside := by
    unfold State.claimedAt
    simp only [State.device, State.emit_threads]
    exact State.commit_outside at_ fun h ↦ hoff (Option.some.inj h)
  have hholder := holder_claimedAt msToTicks me woke address hu vacant free
  rw [if_neg hoff.symm] at hholder
  have hsame : (s.claimedAt msToTicks me c i woke).device address =
      (s.commit (expireLocked s.clock s.reservations).1 woke).device address := by
    unfold State.claimedAt at hholder ⊢
    rw [State.emit_reservations] at hholder
    rw [State.device_emit_off]
    · simp only [State.device, hholder]
      rfl
    · rfl
    · exact hid
  have hcalls : c.call ∉ callsOn address (s.claimedAt msToTicks me c i woke).trace := by
    rwa [State.claimedAt_callsOn]
  rw [State.device_granted_off hcalls hoff hout, hsame]
  exact expire_path woke hu

theorem reenter_path {e : Reservation} (hu : UniqueActive s.reservations) (hp : Placed s)
    (hl : Ledger s) (at_ : s.threads me = .reserving c tm)
    (found : holder c.cap.address (expireLocked s.clock s.reservations).1 = some e)
    (ours : e.owner = me) :
    Reachable (Device.step msToTicks address) (s.device address)
      (((s.commit (expireLocked s.clock s.reservations).1 woke).granted me c).device address) := by
  have hcalls := hp.mem_callsOn hl address me c.call (by rw [at_]; rfl)
  rw [at_] at hcalls
  refine (expire_path woke hu).trans ?_
  by_cases hon : c.cap.address = address
  · subst hon
    refine Device.run_path true (State.commit_phase _ _ at_ rfl rfl) ?_
    rw [State.device_granted (s := s.commit _ _) (hcalls.mpr rfl) rfl]
    simp only [Device.run, Pc.phase, Device.acquire, State.live_expired hu, found, ours, if_true]
  · have hoff : (Pc.reserving c tm).address? ≠ some address := fun h ↦ hon (Option.some.inj h)
    rw [State.device_granted_off (s := s.commit _ _) (fun h ↦ hoff (hcalls.mp h)) hon
      (State.commit_outside at_ hoff)]
    exact .init

end Grants

theorem tick_path (fits : s.clock + 1 < 2 ^ 64) :
    Reachable (Device.step msToTicks address) (s.device address)
      ({ s with
        clock := s.clock + 1
        threads := fun u ↦ (s.threads u).onTick (s.clock + 1) }.device address) := by
  refine Device.leads .tick ((if_pos fits).trans ?_)
  simp only [State.device, Pc.phaseOn_onTick]

theorem transfer_path {ok lease : Bool} {b : Batch} {st : I2CStep} {rest : List I2CStep}
    (hp : Placed s) (hl : Ledger s) (at_ : s.threads me = .transferring b lease st rest)
    (good : st.malformed = false) :
    Reachable (Device.step msToTicks address) (s.device address)
      ((({ s with sInitialized := true }.emit (.transfer (b.transferOf me st ok))).setPc me
        (if ok then .running b lease rest else .finishing b lease (.error .EIo))).device
          address) := by
  have hcalls := hp.mem_callsOn hl address me b.call (by rw [at_]; rfl)
  rw [at_] at hcalls
  have hplace : (if ok then Pc.running b lease rest
      else .finishing b lease (.error .EIo)).address? = some b.cap.address := by
    cases ok <;> rfl
  rw [State.device_setPc]
  by_cases hon : b.cap.address = address
  · subst hon
    have hphase : (s.device b.cap.address).threads me = .transferring b lease st rest := by
      simp only [State.device, at_]
      exact Pc.phaseOn_on rfl
    refine Device.run_path ok hphase ?_
    rw [Pc.phaseOn_on hplace, State.device_emit rfl (hcalls.mpr rfl)]
    cases ok with
    | true =>
        simp only [Device.run, Device.transfer, doTransfer, good]
        rfl
    | false =>
        simp only [Device.run, Device.transfer, doTransfer, good]
        rfl
  · have hoff : (Pc.transferring b lease st rest).address? ≠ some address := fun h ↦
      hon (Option.some.inj h)
    rw [Pc.phaseOn_off (hplace ▸ hoff), State.device_emit_off rfl fun h ↦ hoff (hcalls.mp h)]
    rw [Device.setPhase_self]
    · exact .init
    · simp only [State.device, at_]
      exact Pc.phaseOn_off hoff

section Calls

variable {request : Request}

theorem opens?_off (haddress : request.address? ≠ some address) :
    (Event.called id me request).opens? address = none :=
  if_neg haddress

theorem Placed.calls_unused (hp : Placed s) : s.calls ∉ callsOn address s.trace := by
  rw [Driver.mem_callsOn]
  rintro ⟨me, request, hcalled, -⟩
  exact (hp.numbered _ hcalled).ne rfl

theorem State.device_opened (hp : Placed s) (haddress : request.address? = some address) :
    (s.opened me request).device address =
      (s.device address).emit (.called s.calls me request) := by
  have hnew : ∀ e ∈ s.trace, e.number ≠ s.calls := fun e he ↦ (hp.numbered e he).ne
  simp only [State.device, Device.emit, State.opened, State.emit_trace,
    logOn_called hnew haddress]
  rfl

theorem State.device_opened_off (hp : Placed s) (haddress : request.address? ≠ some address) :
    (s.opened me request).device address = s.device address :=
  State.device_emit_off (s := { s with calls := s.calls + 1 }) (opens?_off haddress)
    hp.calls_unused

/-- A call for the device is opened under a number that no event of the device has. -/
theorem call_step (hp : Placed s) (at_ : s.threads me = .idle)
    (haddress : request.address? = some address) :
    Device.step msToTicks address (s.device address) (.call me s.calls request) =
      some ((s.device address).startCall me s.calls request) := by
  refine if_pos ⟨?_, haddress, fun e he hcall ↦ ?_⟩
  · simp only [State.device, at_]
    exact Pc.phaseOn_off (by simp [Pc.address?, Pc.claim?, Pc.batch?])
  · obtain ⟨e', hmem, rfl⟩ := List.mem_map.mp he
    have hlt := hp.numbered e' (List.mem_filter.mp hmem).1
    have hnumber : e'.number = s.calls := by
      cases e' with
      | claimed => cases hcall
      | _ => exact Option.some.inj hcall
    exact hlt.ne hnumber

theorem reject_path {err : Errno} (hp : Placed s) (at_ : s.threads me = .idle)
    (refused : request.start s.calls = .error err) :
    Reachable (Device.step msToTicks address) (s.device address)
      (((s.opened me request).finish me s.calls (.error err)).device address) := by
  by_cases haddress : request.address? = some address
  · refine Device.leads _ ((call_step hp at_ haddress).trans ?_)
    rw [State.device_finish, State.device_opened hp haddress]
    · simp only [Device.startCall, refused]
    · exact Driver.mem_callsOn.mpr
        ⟨me, request, List.mem_append_right _ (List.mem_singleton_self _), haddress⟩
  · rw [State.device_finish_off, State.device_opened_off hp haddress]
    · exact .init
    · rw [State.opened, State.emit_trace, callsOn_snoc (opens?_off haddress)]
      exact hp.calls_unused
    · rw [State.device_opened_off hp haddress]
      simp only [State.device, at_]
      exact Pc.phaseOn_off (by simp [Pc.address?, Pc.claim?, Pc.batch?])

theorem start_path (hp : Placed s) (at_ : s.threads me = .idle)
    (accepted : request.start s.calls = .ok pc) :
    Reachable (Device.step msToTicks address) (s.device address)
      (((s.opened me request).setPc me pc).device address) := by
  have hplace := (Request.starts accepted).address?
  rw [State.device_setPc]
  by_cases haddress : request.address? = some address
  · refine Device.leads _ ((call_step hp at_ haddress).trans ?_)
    rw [State.device_opened hp haddress, Pc.phaseOn_on (hplace.trans haddress)]
    simp only [Device.startCall, accepted]
  · rw [State.device_opened_off hp haddress, Pc.phaseOn_off (hplace ▸ haddress),
      Device.setPhase_self]
    · exact .init
    · simp only [State.device, at_]
      exact Pc.phaseOn_off (by simp [Pc.address?, Pc.claim?, Pc.batch?])

end Calls

/-! ## Runs -/

/-- What a step does to one device is a path of that device. -/
theorem Trans.path (h : Trans msToTicks s a t) (hu : UniqueActive s.reservations) (hp : Placed s)
    (hl : Ledger s) (hroom : Roomy s) :
    Reachable (Device.step msToTicks address) (s.device address) (t.device address) := by
  cases h with
  | tick fits => exact tick_path fits
  | rejected me request e at_ refused => exact reject_path hp at_ refused
  | started me request pc at_ accepted => exact start_path hp at_ accepted
  | @moved me ok pc pc' r woke at_ move =>
      by_cases hon : pc.address? = some address
      · exact move.path_on hu at_ hon
      · exact move.path_off hu at_ hon
  | claimed me ok c tm i at_ vacant free =>
      have hcalls := hp.mem_callsOn hl address me c.call (by rw [at_]; rfl)
      rw [at_] at hcalls
      by_cases hon : c.cap.address = address
      · subst hon
        exact claim_path_on hu at_ vacant free (hcalls.mpr rfl)
      · exact claim_path_off hu at_ vacant free hon fun h ↦ hon (Option.some.inj (hcalls.mp h))
  | reentered me ok c tm e at_ found ours => exact reenter_path hu hp hl at_ found ours
  | transferred me ok b lease st rest at_ good => exact transfer_path hp hl at_ good
  | @returned me ok pc call ret r woke at_ done =>
      have hcalls := hp.mem_callsOn hl address me _ (at_ ▸ done.call?)
      rw [at_] at hcalls
      by_cases hon : pc.address? = some address
      · exact done.path_on hu at_ hon (hcalls.mpr hon) hroom
      · exact done.path_off hu at_ hon (fun h ↦ hon (hcalls.mp h)) hroom

variable {caps : Set I2CDeviceCap}

theorem device_boot (address : UInt8) : State.boot.device address = .boot := by
  simp only [State.device, State.boot, holder_boot]
  rfl

theorem device_path (haddresses : (I2CDeviceCap.address '' caps).encard ≤ MaxReservations)
    (h : Steps (step msToTicks) (Sealed caps) .boot s) (address : UInt8) :
    Reachable (Device.step msToTicks address) .boot (s.device address) := by
  rw [← device_boot address]
  refine h.simulate (fun s ↦ s.device address) ?_
  intro s a t hs hstep
  have hroom : Roomy s := fun me c tm hpc hvacant hcrowded ↦
    (addressed hs).not_full haddresses hs.reachable hpc hvacant hcrowded
  exact (step_trans msToTicks hstep).path (reachable_unique hs.reachable)
    (Placed.reachable hs.reachable) (Ledger.reachable hs.reachable) hroom

/-- Each device on its own, and who can keep a call for a device waiting: a call waits, or gives up
its wait, only where another thread has claimed the same device. -/
structure Independent (msToTicks : ℕ → ℕ) (s : State) : Prop where
  alone : ∀ address, Reachable (Device.step msToTicks address) .boot (s.device address)
  contended : ∀ u c, (s.threads u).phase = .blocked c → ∃ c' i e tick,
    .claimed c' i e tick ∈ s.trace ∧ c'.call ∈ callsOn c.cap.address s.trace ∧ e.owner ≠ u

theorem Pc.address_of_blocked {c : Claim} (h : pc.phase = .blocked c) :
    pc.address? = some c.cap.address := by
  cases pc with
  | waiting => cases h; rfl
  | asleep => cases h; rfl
  | timedOut => cases h; rfl
  | _ => cases h

theorem devices_independent (haddresses : (I2CDeviceCap.address '' caps).encard ≤ MaxReservations)
    (h : Steps (step msToTicks) (Sealed caps) .boot s) : Independent msToTicks s where
  alone := device_path haddresses h
  contended u c hphase := by
    have haccounted := Device.Accounted.reachable (device_path haddresses h c.cap.address)
    have hblocked : (s.device c.cap.address).threads u = .blocked c := by
      rw [← hphase]
      exact Pc.phaseOn_on (Pc.address_of_blocked hphase)
    obtain ⟨c', e, tick, hlog, howner⟩ := haccounted.blocked u c hblocked
    obtain ⟨event, hmem, halone⟩ := List.mem_map.mp hlog
    obtain ⟨htrace, hcalls⟩ := List.mem_filter.mp hmem
    cases event with
    | claimed c'' i e' tick' =>
        cases halone
        exact ⟨c', i, e, tick, htrace, of_decide_eq_true hcalls, howner⟩
    | _ => cases halone

/-- Two readers of one sensor, while the other sensor is leased. -/
theorem devices_independent_waiting : ∃ s : State,
    (∃ c tm gen seen, s.threads 2 = .waiting c tm gen seen ∧ c.cap.address = 0x38) ∧
      (s.device 0x36).held = some ⟨true, 0x36, 1, 500, true⟩ ∧ Independent (· / 10) s := by
  let temperature : I2CDeviceCap := ⟨0x38, 3, 0, 8, 150, 0⟩
  let soil : I2CDeviceCap := ⟨0x36, 3, 1, 8, 150, 5000⟩
  let caps : Set I2CDeviceCap := {temperature, soil}
  have haddresses : (I2CDeviceCap.address '' caps).encard ≤ MaxReservations := by
    rw [Set.image_pair]
    apply (Set.encard_insert_le _ _).trans
    rw [Set.encard_singleton]
    decide
  let acts : List Action :=
    [.call 0 (.transact (some temperature) (some [⟨0, 3, 0, some 1⟩]) .unlimited), .run 0 true,
      .call 1 (.leaseAcquire (some soil) 5000 .unlimited), .run 1 true,
      .call 2 (.transact (some temperature) (some [⟨1, 6, 0, some 2⟩]) .unlimited), .run 2 true]
  have hrun : (exec (step (· / 10)) (fun _ a ↦ decide (a ∈ acts)) .boot acts).map
      (fun s ↦ (s.threads 2, holder 0x36 s.reservations)) =
      some (.waiting ⟨2, temperature, 150, some [⟨1, 6, 0, some 2⟩]⟩ .unlimited 0
        ⟨true, 0x38, 0, 15, false⟩, some ⟨true, 0x36, 1, 500, true⟩) := by
    decide
  obtain ⟨s, hexec, hstate⟩ := Option.map_eq_some_iff.mp hrun
  obtain ⟨hpc, hheld⟩ := Prod.ext_iff.mp hstate
  have hsealed : Steps (step (· / 10)) (Sealed caps) .boot s := by
    refine (exec_steps hexec).mono fun u a ha ↦ ?_
    simp only [acts, decide_eq_true_eq, List.mem_cons, List.not_mem_nil, or_false] at ha
    rcases ha with rfl | rfl | rfl | rfl | rfl | rfl
    · rintro cap ⟨⟩
      exact .inl rfl
    · trivial
    · rintro cap ⟨⟩
      exact .inr rfl
    · trivial
    · rintro cap ⟨⟩
      exact .inl rfl
    · trivial
  exact ⟨s, ⟨_, _, _, _, hpc, rfl⟩, hheld, devices_independent haddresses hsealed⟩

end PlantNode.Driver
