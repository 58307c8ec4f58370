import PlantNode.Driver.Transitions

/-!
# The ledger of calls

Each call of a run has a number.  The ledger ties what the threads are doing to
what the trace says about their calls: who opened a call and with which
request, which transfers it has issued so far, and how it returned.  It holds
in every reachable state, whatever happens to the reservations.
-/

namespace PlantNode.Driver

open Foundation

/-! ## Program points of a call -/

def Pc.claim? : Pc → Option Claim
  | .reserving c _ => some c
  | .waiting c _ _ _ => some c
  | .asleep c _ _ _ => some c
  | .timedOut c => some c
  | _ => none

def Pc.batch? : Pc → Option Batch
  | .reserved b => some b
  | .running b _ _ => some b
  | .transferring b _ _ _ => some b
  | .finishing b _ _ => some b
  | _ => none

def Pc.call? : Pc → Option ℕ
  | .releasing call _ => some call
  | pc => (pc.claim?.map Claim.call).or (pc.batch?.map Batch.call)

/-- What becomes of the program point of a thread that does not act itself. -/
inductive Pc.Drifts : Pc → Pc → Prop where
  | stay (pc : Pc) : Drifts pc pc
  | woken (c : Claim) (t t' : Timeout) (since : ℕ) (seen : Reservation) :
      Drifts (.asleep c t since seen) (.reserving c t')
  | timedOut (c : Claim) (t : Timeout) (since : ℕ) (seen : Reservation) :
      Drifts (.asleep c t since seen) (.timedOut c)

theorem Pc.onWake_drifts (now : ℕ) (pc : Pc) : pc.Drifts (pc.onWake now) := by
  cases pc <;> first | exact .stay _ | exact .woken ..

theorem Pc.onTick_drifts (now : ℕ) (pc : Pc) : pc.Drifts (pc.onTick now) := by
  cases pc with
  | asleep c t since seen =>
      simp only [onTick]
      split
      · exact .timedOut ..
      · exact .stay _
  | _ => exact .stay _

theorem State.commit_drifts (s : State) (r : Reservations) (woke : Bool) (u : ThreadId) :
    (s.threads u).Drifts ((s.commit r woke).threads u) := by
  cases woke with
  | false => exact .stay _
  | true => exact Pc.onWake_drifts _ _

namespace Pc.Drifts

variable {pc pc' : Pc}

theorem claim? (h : pc.Drifts pc') : pc'.claim? = pc.claim? := by
  cases h <;> rfl

theorem batch? (h : pc.Drifts pc') : pc'.batch? = pc.batch? := by
  cases h <;> rfl

theorem call? (h : pc.Drifts pc') : pc'.call? = pc.call? := by
  cases h <;> rfl

theorem eq_of_batch {b : Batch} (h : pc.Drifts pc') (hb : pc.batch? = some b) : pc' = pc := by
  cases h with
  | stay => rfl
  | woken => simp [Pc.batch?] at hb
  | timedOut => simp [Pc.batch?] at hb

end Pc.Drifts

theorem Pc.call?_of_claim {pc : Pc} {c : Claim} (h : pc.claim? = some c) :
    pc.call? = some c.call := by
  cases pc <;> simp_all [claim?, call?]

theorem Pc.call?_of_batch {pc : Pc} {b : Batch} (h : pc.batch? = some b) :
    pc.call? = some b.call := by
  cases pc <;> simp_all [batch?, claim?, call?]

/-! ## What the trace says about a call -/

def Event.call? : Event → Option ℕ
  | .called call _ _ => some call
  | .claimed .. => none
  | .entered _ b => some b.call
  | .transfer x => some x.call
  | .returned call _ _ => some call

def Event.transfer? : Event → Option Transfer
  | .transfer x => some x
  | _ => none

def onBus (trace : List Event) : List Transfer :=
  trace.filterMap Event.transfer?

def Event.entered? : Event → Option (ThreadId × Batch)
  | .entered me b => some (me, b)
  | _ => none

/-- The calls that got the device, in the order in which they did. -/
def entriesOf (trace : List Event) : List (ThreadId × Batch) :=
  trace.filterMap Event.entered?

def transfersOf (call : ℕ) (trace : List Event) : List Transfer :=
  (onBus trace).filter fun x ↦ x.call == call

theorem mem_onBus {x : Transfer} {trace : List Event} :
    x ∈ onBus trace ↔ .transfer x ∈ trace := by
  simp only [onBus, List.mem_filterMap]
  constructor
  · rintro ⟨e, he, hx⟩
    cases e <;> simp_all [Event.transfer?]
  · exact fun hx ↦ ⟨_, hx, rfl⟩

theorem transfersOf_silent {call : ℕ} {e : Event} (h : e.transfer? = none) (xs : List Event) :
    transfersOf call (xs ++ [e]) = transfersOf call xs := by
  simp [transfersOf, onBus, h]

theorem transfersOf_other {call : ℕ} {x : Transfer} (h : x.call ≠ call) (xs : List Event) :
    transfersOf call (xs ++ [.transfer x]) = transfersOf call xs := by
  simp [transfersOf, onBus, Event.transfer?, h]

theorem transfersOf_self {x : Transfer} (xs : List Event) :
    transfersOf x.call (xs ++ [.transfer x]) = transfersOf x.call xs ++ [x] := by
  simp [transfersOf, onBus, Event.transfer?]

theorem mem_transfersOf {call : ℕ} {x : Transfer} {trace : List Event} :
    x ∈ transfersOf call trace ↔ .transfer x ∈ trace ∧ x.call = call := by
  rw [transfersOf, List.mem_filter, mem_onBus, beq_iff_eq]

/-- Thread `me` opened the call that makes the claim `c`. -/
def Opens (trace : List Event) (me : ThreadId) (c : Claim) : Prop :=
  ∃ request t, .called c.call me request ∈ trace ∧ request.start c.call = .ok (.reserving c t)

/-- How a call starts that is not rejected. -/
inductive Request.Starts (id : ℕ) : Request → Pc → Prop where
  | transact (dev : I2CDevice) (steps : Option (List I2CStep)) (t : Timeout) (cap : I2CDeviceCap)
      (l : List I2CStep) (accepted : acceptBatch dev steps = .ok (cap, l)) :
      Starts id (.transact dev steps t)
        (.reserving ⟨id, cap, cap.maxBatchMs.toNat, some l⟩ t)
  | leaseAcquire (dev : I2CDevice) (durationMs : UInt32) (t : Timeout) (cap : I2CDeviceCap)
      (holdMs : UInt32) (accepted : acceptLease dev durationMs = .ok (cap, holdMs)) :
      Starts id (.leaseAcquire dev durationMs t) (.reserving ⟨id, cap, holdMs.toNat, none⟩ t)
  | leaseRelease (dev : I2CDevice) (cap : I2CDeviceCap) (accepted : authorize dev 0 = .ok cap) :
      Starts id (.leaseRelease dev) (.releasing id cap.address)

theorem Request.starts {id : ℕ} {request : Request} {pc : Pc} (h : request.start id = .ok pc) :
    request.Starts id pc := by
  cases request with
  | transact dev steps t =>
      simp only [start] at h
      split at h
      · cases h
      · rename_i cap l haccept
        cases h
        exact .transact dev steps t cap l haccept
  | leaseAcquire dev durationMs t =>
      simp only [start] at h
      split at h
      · cases h
      · rename_i cap holdMs haccept
        cases h
        exact .leaseAcquire dev durationMs t cap holdMs haccept
  | leaseRelease dev =>
      simp only [start] at h
      split at h
      · cases h
      · rename_i cap haccept
        cases h
        exact .leaseRelease dev cap haccept

/-- A call that is accepted starts inside `reserve_device` or before
`release_device`, under its own number. -/
theorem Request.start_ok {id : ℕ} {request : Request} {pc : Pc}
    (h : request.start id = .ok pc) :
    (∃ c t, pc = .reserving c t ∧ c.call = id) ∨ ∃ address, pc = .releasing id address := by
  cases Request.starts h with
  | transact => exact .inl ⟨_, _, rfl, rfl⟩
  | leaseAcquire => exact .inl ⟨_, _, rfl, rfl⟩
  | leaseRelease => exact .inr ⟨_, rfl⟩

def Claim.batch? (c : Claim) : Option Batch :=
  c.steps.map fun steps ↦ ⟨c.call, c.cap, steps⟩

/-! ## Progress of a batch -/

/-- Steps that the loop gets past when the bus answers. -/
def Passed (steps : List I2CStep) : Prop :=
  ∀ st ∈ steps, st.kind = I2cDelay ∨ st.malformed = false

def busSteps (steps : List I2CStep) : List I2CStep :=
  steps.filter fun st ↦ !(st.kind == I2cDelay)

def Batch.wire (b : Batch) (me : ThreadId) (steps : List I2CStep) : List Transfer :=
  (busSteps steps).map fun st ↦ b.transferOf me st true

/-- How a batch ends: its result and all it put on the bus. -/
inductive Outcome (me : ThreadId) (b : Batch) : Ret → List Transfer → Prop where
  | complete (passed : Passed b.steps) : Outcome me b (.ok ()) (b.wire me b.steps)
  | invalid (pre : List I2CStep) (st : I2CStep) (post : List I2CStep)
      (split : b.steps = pre ++ st :: post) (passed : Passed pre) (bus : st.kind ≠ I2cDelay)
      (bad : st.malformed = true) : Outcome me b (.error .EINVAL) (b.wire me pre)
  | failed (pre : List I2CStep) (st : I2CStep) (post : List I2CStep)
      (split : b.steps = pre ++ st :: post) (passed : Passed pre) (bus : st.kind ≠ I2cDelay)
      (good : st.malformed = false) :
      Outcome me b (.error .EIo) (b.wire me pre ++ [b.transferOf me st false])
  | lost (pre : List I2CStep) (st : I2CStep) (post : List I2CStep)
      (split : b.steps = pre ++ st :: post) (passed : Passed pre) (bus : st.kind ≠ I2cDelay) :
      Outcome me b (.error .ETIMEDOUT) (b.wire me pre)

/-- How far a batch has got, from the program point of its thread. -/
def Progress (me : ThreadId) (l : List Transfer) : Pc → Prop
  | .reserved _ => l = []
  | .running b _ rest => ∃ pre, b.steps = pre ++ rest ∧ Passed pre ∧ l = b.wire me pre
  | .transferring b _ st rest =>
      ∃ pre, b.steps = pre ++ st :: rest ∧ Passed pre ∧ st.kind ≠ I2cDelay ∧ l = b.wire me pre
  | .finishing b _ result => Outcome me b result l
  | _ => True

theorem Passed.snoc {pre : List I2CStep} {st : I2CStep} (h : Passed pre)
    (hst : st.kind = I2cDelay ∨ st.malformed = false) : Passed (pre ++ [st]) := by
  intro x hx
  rcases List.mem_append.mp hx with hx | hx
  · exact h x hx
  · rw [List.mem_singleton.mp hx]
    exact hst

theorem Batch.wire_delay (b : Batch) (me : ThreadId) (pre : List I2CStep) {st : I2CStep}
    (h : st.kind = I2cDelay) : b.wire me (pre ++ [st]) = b.wire me pre := by
  simp [wire, busSteps, h]

theorem Batch.wire_bus (b : Batch) (me : ThreadId) (pre : List I2CStep) {st : I2CStep}
    (h : st.kind ≠ I2cDelay) :
    b.wire me (pre ++ [st]) = b.wire me pre ++ [b.transferOf me st true] := by
  simp [wire, busSteps, h]

theorem Move.progress {s : State} {me : ThreadId} {pc pc' : Pc} {r : Reservations}
    {woke : Bool} {b : Batch} {l : List Transfer} (h : Move s me pc pc' r woke)
    (hb : pc.batch? = some b) (hp : Progress me l pc) : Progress me l pc' := by
  cases h with
  | held => trivial
  | raced => trivial
  | refused => trivial
  | slept => trivial
  | leaseRead b => exact ⟨[], rfl, by simp [Passed], hp⟩
  | done b lease =>
      obtain ⟨pre, hsplit, hpassed, rfl⟩ := hp
      rw [List.append_nil] at hsplit
      exact hsplit ▸ .complete (hsplit ▸ hpassed)
  | delayed b lease st rest delay =>
      obtain ⟨pre, hsplit, hpassed, rfl⟩ := hp
      exact ⟨pre ++ [st], by simpa using hsplit, hpassed.snoc (.inl delay),
        (b.wire_delay me pre delay).symm⟩
  | nullBuffer b lease st rest bus null =>
      obtain ⟨pre, hsplit, hpassed, rfl⟩ := hp
      exact .invalid pre st rest hsplit hpassed bus (by simp [I2CStep.malformed, null])
  | verified b lease st rest h bus nonnull found ours =>
      obtain ⟨pre, hsplit, hpassed, rfl⟩ := hp
      exact ⟨pre, hsplit, hpassed, bus, rfl⟩
  | lost b lease st rest bus nonnull gone =>
      obtain ⟨pre, hsplit, hpassed, rfl⟩ := hp
      exact .lost pre st rest hsplit hpassed bus
  | malformed b lease st rest bad =>
      obtain ⟨pre, hsplit, hpassed, bus, rfl⟩ := hp
      exact .invalid pre st rest hsplit hpassed bus bad

theorem Move.batch? {s : State} {me : ThreadId} {pc pc' : Pc} {r : Reservations}
    {woke : Bool} (h : Move s me pc pc' r woke) : pc'.batch? = pc.batch? := by
  cases h <;> rfl

theorem Move.claim? {s : State} {me : ThreadId} {pc pc' : Pc} {r : Reservations}
    {woke : Bool} (h : Move s me pc pc' r woke) : pc'.claim? = pc.claim? := by
  cases h <;> rfl

theorem Move.call? {s : State} {me : ThreadId} {pc pc' : Pc} {r : Reservations}
    {woke : Bool} (h : Move s me pc pc' r woke) : pc'.call? = pc.call? := by
  cases h <;> rfl

theorem Return.call? {s : State} {me : ThreadId} {pc : Pc} {call : ℕ} {ret : Ret}
    {r : Reservations} {woke : Bool} (h : Return s me pc call ret r woke) :
    pc.call? = some call := by
  cases h <;> rfl

theorem Return.outcome {s : State} {me : ThreadId} {pc : Pc} {call : ℕ} {ret : Ret}
    {r : Reservations} {woke : Bool} {b : Batch} {l : List Transfer}
    (h : Return s me pc call ret r woke) (hb : pc.batch? = some b) (hp : Progress me l pc) :
    Outcome me b ret l := by
  cases h with
  | full => simp [Pc.batch?] at hb
  | timedOut => simp [Pc.batch?] at hb
  | keptLease b result =>
      cases hb
      exact hp
  | released b result =>
      cases hb
      exact hp
  | leaseReleased => simp [Pc.batch?] at hb

/-! ## Program points across a step -/

section Steps

variable {msToTicks : ℕ → ℕ} {s t : State} {a : Action} {me u : ThreadId} {b : Batch} {c : Claim}

theorem State.granted_threads_ne (s : State) (c : Claim) (hu : u ≠ me) :
    (s.granted me c).threads u = s.threads u := by
  unfold State.granted
  cases c.steps with
  | none => exact Function.update_of_ne hu _ _
  | some steps => exact Function.update_of_ne hu _ _

theorem State.granted_batch? (s : State) (me : ThreadId) (c : Claim) :
    ((s.granted me c).threads me).batch? = c.batch? := by
  unfold State.granted Claim.batch?
  cases c.steps with
  | none => simp [State.finish, Pc.batch?]
  | some steps => simp [Pc.batch?]

theorem Claim.call_of_batch? (h : c.batch? = some b) : b.call = c.call := by
  obtain ⟨steps, -, rfl⟩ := Option.map_eq_some_iff.mp h
  rfl

def Action.actor? : Action → Option ThreadId
  | .tick => none
  | .call me _ => some me
  | .run me _ => some me

theorem Trans.drifts (h : Trans msToTicks s a t) (hu : a.actor? ≠ some u) :
    (s.threads u).Drifts (t.threads u) := by
  have hne : ∀ {me}, a.actor? = some me → u ≠ me := by
    rintro me hme rfl
    exact hu hme
  cases h with
  | tick fits => exact Pc.onTick_drifts _ _
  | rejected me request e at_ refused =>
      rw [State.finish, State.setPc_threads, Function.update_of_ne (hne rfl)]
      exact .stay _
  | started me request pc at_ accepted =>
      rw [State.setPc_threads, Function.update_of_ne (hne rfl)]
      exact .stay _
  | moved me ok at_ move =>
      rw [State.setPc_threads, Function.update_of_ne (hne rfl)]
      exact s.commit_drifts _ _ u
  | claimed me ok c tm i at_ vacant free =>
      rw [State.granted_threads_ne _ c (hne rfl), State.emit_threads]
      exact s.commit_drifts _ _ u
  | reentered me ok c tm h at_ found ours =>
      rw [State.granted_threads_ne _ c (hne rfl)]
      exact s.commit_drifts _ _ u
  | transferred me ok b lease st rest at_ good =>
      rw [State.setPc_threads, Function.update_of_ne (hne rfl)]
      exact .stay _
  | returned me ok at_ done =>
      rw [State.finish, State.setPc_threads, Function.update_of_ne (hne rfl), State.emit_threads]
      exact s.commit_drifts _ _ u

/-- The program points that a thread gets to otherwise than by a silent move. -/
inductive Pc.Entry : Pc → Prop where
  | idle : Entry .idle
  | reserving (c : Claim) (tm : Timeout) : Entry (.reserving c tm)
  | releasing (id : ℕ) (address : UInt8) : Entry (.releasing id address)
  | reserved (b : Batch) : Entry (.reserved b)
  | running (b : Batch) (lease : Bool) (rest : List I2CStep) : Entry (.running b lease rest)
  | failed (b : Batch) (lease : Bool) : Entry (.finishing b lease (.error .EIo))

theorem State.granted_entry (s : State) (me : ThreadId) (c : Claim) :
    ((s.granted me c).threads me).Entry := by
  unfold State.granted
  cases c.steps with
  | none =>
      rw [State.finish, State.setPc_threads, Function.update_self]
      exact .idle
  | some steps =>
      rw [State.setPc_threads, Function.update_self]
      exact .reserved _

/-- The thread that makes a step is at an entry after it, or it has made a silent move. -/
theorem Trans.entry_or_move (h : Trans msToTicks s a t) (hu : a.actor? = some u) :
    (t.threads u).Entry ∨ ∃ ok r woke, a = .run u ok ∧
      Move s u (s.threads u) (t.threads u) r woke ∧ t.reservations = r ∧ t.clock = s.clock := by
  cases h with
  | tick fits => cases hu
  | rejected me request e at_ refused =>
      cases hu
      rw [State.finish, State.setPc_threads, Function.update_self]
      exact .inl .idle
  | started me request pc at_ accepted =>
      cases hu
      rw [State.setPc_threads, Function.update_self]
      rcases Request.start_ok accepted with ⟨c, tm, rfl, -⟩ | ⟨address, rfl⟩
      · exact .inl (.reserving c tm)
      · exact .inl (.releasing _ _)
  | moved me ok at_ move =>
      cases hu
      right
      rw [State.setPc_threads, Function.update_self, at_]
      exact ⟨ok, _, _, rfl, move, rfl, rfl⟩
  | claimed me ok c tm i at_ vacant free =>
      cases hu
      exact .inl (State.granted_entry _ _ c)
  | reentered me ok c tm h at_ found ours =>
      cases hu
      exact .inl (State.granted_entry _ _ c)
  | transferred me ok b lease st rest at_ good =>
      cases hu
      rw [State.setPc_threads, Function.update_self]
      cases ok with
      | true => exact .inl (.running b lease rest)
      | false => exact .inl (.failed b lease)
  | returned me ok at_ done =>
      cases hu
      rw [State.finish, State.setPc_threads, Function.update_self]
      exact .inl .idle

/-- A thread that is not at an entry after a step was left there, or has moved there. -/
theorem Trans.drift_or_move {pc : Pc} (h : Trans msToTicks s a t) (hpc : t.threads u = pc)
    (hinside : ¬pc.Entry) : (s.threads u).Drifts pc ∨ ∃ ok r woke, a = .run u ok ∧
      Move s u (s.threads u) pc r woke ∧ t.reservations = r ∧ t.clock = s.clock := by
  subst hpc
  by_cases hu : a.actor? = some u
  · exact .inr ((h.entry_or_move hu).resolve_left hinside)
  · exact .inl (h.drifts hu)

theorem onBus_granted (s : State) (me : ThreadId) (c : Claim) :
    onBus (s.granted me c).trace = onBus s.trace := by
  unfold State.granted
  cases c.steps <;> simp [State.finish, onBus, Event.transfer?]

theorem State.entriesOf_granted (s : State) (me : ThreadId) (c : Claim) :
    entriesOf (s.granted me c).trace =
      entriesOf s.trace ++ (c.batch?.map fun b ↦ (me, b)).toList := by
  unfold State.granted Claim.batch?
  cases c.steps <;> simp [State.finish, entriesOf, Event.entered?]

/-- No batch is entered between `s` and `t`. -/
def NoEntry (s t : State) : Prop :=
  entriesOf t.trace = entriesOf s.trace ∧
    ∀ u b, (t.threads u).batch? = some b → (s.threads u).batch? = some b

/-- The action `a` ends the claim of one thread and enters its batch. -/
def EntersBatch (s : State) (a : Action) (t : State) : Prop :=
  ∃ me ok c tm b, a = .run me ok ∧ s.threads me = .reserving c tm ∧ c.batch? = some b ∧
    entriesOf t.trace = entriesOf s.trace ++ [(me, b)] ∧ onBus t.trace = onBus s.trace ∧
      (t.threads me).batch? = some b ∧
        ∀ u ≠ me, ∀ b', (t.threads u).batch? = some b' → (s.threads u).batch? = some b'

theorem Trans.batch?_of_ne (h : Trans msToTicks s a t) (hu : a.actor? ≠ some u)
    (hb : (t.threads u).batch? = some b) : (s.threads u).batch? = some b :=
  (h.drifts hu).batch?.symm.trans hb

theorem Trans.noEntry (h : Trans msToTicks s a t) (me : ThreadId) (hactor : a.actor? = some me)
    (hentries : entriesOf t.trace = entriesOf s.trace)
    (hme : ∀ b, (t.threads me).batch? = some b → (s.threads me).batch? = some b) :
    NoEntry s t := by
  refine ⟨hentries, fun u b hb ↦ ?_⟩
  by_cases hu : u = me
  · exact hu ▸ hme b (hu ▸ hb)
  · exact h.batch?_of_ne (fun hsame ↦ hu (Option.some.inj (hsame.symm.trans hactor))) hb

/-- A claim that is granted enters the batch of the claim, if it has one. -/
theorem Trans.entries_granted {m : State} {ok : Bool} {tm : Timeout}
    (h : Trans msToTicks s (.run me ok) (m.granted me c)) (hpc : s.threads me = .reserving c tm)
    (hentries : entriesOf m.trace = entriesOf s.trace) (hbus : onBus m.trace = onBus s.trace) :
    NoEntry s (m.granted me c) ∨ EntersBatch s (.run me ok) (m.granted me c) := by
  have hgranted : entriesOf (m.granted me c).trace =
      entriesOf s.trace ++ (c.batch?.map fun b ↦ (me, b)).toList := by
    rw [m.entriesOf_granted, hentries]
  have hme := m.granted_batch? me c
  cases hcb : c.batch? with
  | none =>
      rw [hcb] at hgranted hme
      refine .inl (h.noEntry me rfl (hgranted.trans (List.append_nil _)) fun b hb ↦ ?_)
      rw [hme] at hb
      cases hb
  | some b =>
      rw [hcb] at hgranted hme
      refine .inr ⟨me, ok, c, tm, b, rfl, hpc, hcb, hgranted, ?_, hme, fun u hu b' hb' ↦ ?_⟩
      · rw [onBus_granted, hbus]
      · exact h.batch?_of_ne (fun hsame ↦ hu (Option.some.inj hsame).symm) hb'

theorem Trans.entries (h : Trans msToTicks s a t) : NoEntry s t ∨ EntersBatch s a t := by
  cases id h with
  | tick fits => exact .inl ⟨rfl, fun u b ↦ h.batch?_of_ne (by simp [Action.actor?])⟩
  | rejected me request e at_ refused =>
      refine .inl (h.noEntry me rfl ?_ fun b hb ↦ ?_)
      · simp [State.finish, State.opened, entriesOf, Event.entered?]
      · simp [State.finish, Pc.batch?] at hb
  | started me request pc at_ accepted =>
      refine .inl (h.noEntry me rfl ?_ fun b hb ↦ ?_)
      · simp [State.opened, entriesOf, Event.entered?]
      rw [State.setPc_threads, Function.update_self] at hb
      rcases Request.start_ok accepted with ⟨c, tm, rfl, -⟩ | ⟨address, rfl⟩
      · cases hb
      · cases hb
  | moved me ok at_ move =>
      refine .inl (h.noEntry me rfl rfl fun b hb ↦ ?_)
      rw [State.setPc_threads, Function.update_self, move.batch?] at hb
      exact at_ ▸ hb
  | claimed me ok c tm i at_ vacant free =>
      apply h.entries_granted at_
      · simp [entriesOf, Event.entered?]
      · simp [onBus, Event.transfer?]
  | reentered me ok c tm e at_ found ours => exact h.entries_granted at_ rfl rfl
  | transferred me ok b' lease st rest at_ good =>
      refine .inl (h.noEntry me rfl ?_ fun b hb ↦ ?_)
      · simp [entriesOf, Event.entered?]
      rw [State.setPc_threads, Function.update_self] at hb
      rw [at_]
      cases ok with
      | true => exact hb
      | false => exact hb
  | returned me ok at_ done =>
      refine .inl (h.noEntry me rfl ?_ fun b hb ↦ ?_)
      · simp [State.finish, entriesOf, Event.entered?]
      · simp [State.finish, Pc.batch?] at hb

/-- A batch that a thread is in was there before the step, or the thread was
making the claim of its call. -/
theorem Trans.batch_from (h : Trans msToTicks s a t) (hb : (t.threads u).batch? = some b) :
    (s.threads u).batch? = some b ∨
      ∃ c, (s.threads u).claim? = some c ∧ c.batch? = some b := by
  rcases h.entries with ⟨-, hall⟩ | ⟨me, ok, c, tm, b', -, hpc, hcb, -, -, hme, hothers⟩
  · exact .inl (hall u b hb)
  · by_cases hu : u = me
    · subst hu
      rw [hme] at hb
      exact .inr ⟨c, by rw [hpc]; rfl, hb ▸ hcb⟩
    · exact .inl (hothers u hu b hb)

/-- A step between the check and the transfer was there before, or it is the
check that has just found the reservation to be the thread's own. -/
theorem Trans.transferring_from {lease : Bool} {st : I2CStep} {rest : List I2CStep}
    (h : Trans msToTicks s a t) (hpc : t.threads u = .transferring b lease st rest) :
    s.threads u = .transferring b lease st rest ∨
      ∃ e, holder b.cap.address t.reservations = some e ∧ e.owner = u := by
  rcases h.drift_or_move hpc (by rintro ⟨⟩) with hdrift | ⟨ok, r, woke, -, move, hr, -⟩
  · exact .inl (hdrift.eq_of_batch (hdrift.batch?.symm.trans rfl)).symm
  · generalize s.threads u = pc at move
    cases move with
    | verified b lease st rest e bus nonnull found ours => exact .inr ⟨e, hr ▸ found, ours⟩

theorem Trans.bus (h : Trans msToTicks s a t) :
    onBus t.trace = onBus s.trace ∨
      ∃ me ok b lease st rest, a = .run me ok ∧ s.threads me = .transferring b lease st rest ∧
        st.malformed = false ∧ t.trace = s.trace ++ [.transfer (b.transferOf me st ok)] := by
  cases h with
  | tick fits => exact .inl rfl
  | rejected me request e at_ refused =>
      exact .inl (by simp [State.finish, State.opened, onBus, Event.transfer?])
  | started me request pc at_ accepted =>
      exact .inl (by simp [State.opened, onBus, Event.transfer?])
  | moved me ok at_ move => exact .inl rfl
  | claimed me ok c tm i at_ vacant free =>
      refine .inl ((onBus_granted _ me c).trans ?_)
      simp [onBus, Event.transfer?]
  | reentered me ok c tm h at_ found ours => exact .inl (onBus_granted _ me c)
  | transferred me ok b lease st rest at_ good =>
      exact .inr ⟨me, ok, b, lease, st, rest, rfl, at_, good, rfl⟩
  | returned me ok at_ done => exact .inl (by simp [State.finish, onBus, Event.transfer?])

end Steps

end PlantNode.Driver
