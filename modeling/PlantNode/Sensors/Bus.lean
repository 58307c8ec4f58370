import PlantNode.Sensors.Wire

/-!
# What the sensors get from the bus

In every run of the sensor compartments on the driver, whatever the bus answers and however
the threads interleave: the driver turns no sensor away, each device is sent only what it
understands, and what a reading says is what its own measurement delivered.
-/

namespace PlantNode.Sensors

open Driver Foundation

/-! ## What the devices see -/

/-- The bytes that the device of an address understands or sends. -/
inductive Understood : UInt8 → Direction → List UInt8 → Prop where
  | touch : Understood 0x36 .write touchCommand
  | touched (high low : UInt8) : Understood 0x36 .read [high, low]
  | status (status : UInt8) : Understood 0x38 .read [status]
  | init : Understood 0x38 .write KCmdInit
  | trigger : Understood 0x38 .write KCmdTrigger
  | measured (bytes : Vector UInt8 6) : Understood 0x38 .read bytes.toList

/-- A status was read with the calibration bit set, or the initialisation was written. -/
def Initialised (wire : List Passage) : Prop :=
  ∃ p ∈ wire, p.transfer.ok = true ∧ p.transfer.address = 0x38 ∧
    ((p.transfer.direction = .read ∧
        ∃ status, p.bytes = [status] ∧ status &&& KStatusCalibrated ≠ 0) ∨
      (p.transfer.direction = .write ∧ p.bytes = KCmdInit))

/-- The passage writes the command that starts a measurement. -/
def Passage.Triggers (p : Passage) : Prop :=
  p.transfer.direction = .write ∧ p.bytes = KCmdTrigger

theorem Initialised.mono {wire wire' : List Passage} (h : Initialised wire)
    (hpre : wire <+: wire') : Initialised wire' := by
  obtain ⟨p, hp, hrest⟩ := h
  exact ⟨p, hpre.subset hp, hrest⟩

/-- The bytes of a read step are as many as it asks for. -/
theorem carried_six (sent : ℕ → UInt8) :
    carried ⟨I2cRead, 6, 0, some bufAt⟩ sent = (Vector.ofFn fun i : Fin 6 ↦ sent i).toList :=
  rfl

theorem BusStep.understood {request : Request} {address : UInt8} {st : I2CStep}
    (h : BusStep request address st) (sent : ℕ → UInt8) :
    Understood address st.direction (carried st sent) := by
  cases h with
  | status => exact .status (sent 0)
  | init => exact .init
  | trigger => exact .trigger
  | measured => exact .measured (Vector.ofFn fun i ↦ sent i)
  | touch => exact .touch
  | touched => exact .touched (sent 0) (sent 1)

/-- Only a measurement has the step that triggers one. -/
theorem BusStep.of_trigger {request : Request} {address : UInt8} {st : I2CStep}
    (h : BusStep request address st) {sent : ℕ → UInt8} (hdirection : st.direction = .write)
    (hbytes : carried st sent = KCmdTrigger) : request = measurement := by
  cases h with
  | trigger => rfl
  | measured => rfl
  | init => exact absurd (show KCmdInit = KCmdTrigger from hbytes) (by decide)
  | touch => exact absurd (show touchCommand = KCmdTrigger from hbytes) (by decide)
  | status => exact absurd hdirection (by decide)
  | touched => exact absurd hdirection (by decide)

section Passages

variable {msToTicks : ℕ → ℕ} {d : Driver.State} {p : Passage}

/-- A passage is a step of a batch that its thread asked for. -/
theorem Makes.busStep (h : Makes d.trace p)
    (hd : Steps (Driver.step msToTicks) OfSensors .boot d) :
    ∃ request st sent, .called p.transfer.call p.transfer.thread request ∈ d.trace ∧
      BusStep request p.transfer.address st ∧ p.transfer.direction = st.direction ∧
      p.bytes = carried st sent := by
  cases h with
  | intro me b st ok sent entered mem bus =>
      obtain ⟨dev, steps, tm, hcalled, haccept⟩ :=
        (Ledger.reachable hd.reachable).requested entered
      obtain ⟨rfl, rfl, -⟩ := acceptBatch_ok haccept
      have hsensor := called_ofSensors hd _ _ _ hcalled
      exact ⟨_, st, sent, hcalled, busStep_of_mem hsensor mem bus, rfl, rfl⟩

end Passages

/-! ## The log -/

def turnsOf (me : ThreadId) (log : List (ThreadId × Turn Op.Ans)) : List (Turn Op.Ans) :=
  (log.filter fun e ↦ e.1 = me).map Prod.snd

theorem mem_turnsOf {me : ThreadId} {log : List (ThreadId × Turn Op.Ans)} {turn : Turn Op.Ans} :
    turn ∈ turnsOf me log ↔ (me, turn) ∈ log := by
  simp [turnsOf]

/-- Some thread has checked the calibration. -/
def Calibrated (log : List (ThreadId × Turn Op.Ans)) : Prop := ∃ u, Checked (turnsOf u log)

theorem Calibrated.append {log : List (ThreadId × Turn Op.Ans)} (h : Calibrated log)
    (more : List (ThreadId × Turn Op.Ans)) : Calibrated (log ++ more) := by
  obtain ⟨u, hchecked⟩ := h
  refine ⟨u, hchecked.mono fun turn hturn ↦ ?_⟩
  exact mem_turnsOf.mpr (List.mem_append_left _ (mem_turnsOf.mp hturn))

/-- What holds of an entry of the log, from the entries before it. -/
inductive Logged (trace : List Event) (wire : List Passage)
    (pre : List (ThreadId × Turn Op.Ans)) : ThreadId × Turn Op.Ans → Prop where
  | transact (me : ThreadId) (request : Request) (answer : Answer)
      (called : .called answer.call me request ∈ trace)
      (returned : ∃ u, .returned answer.call u answer.ret ∈ trace)
      (delivered : answer.ret = .ok () → Delivered wire me request answer) :
      Logged trace wire pre (me, ⟨.transact request, answer⟩)
  | wait (me : ThreadId) (ms : ℕ) : Logged trace wire pre (me, ⟨.wait ms, ()⟩)
  | getInitialized (me : ThreadId) (latch : Bool) (calibrated : latch = true → Calibrated pre) :
      Logged trace wire pre (me, ⟨.getInitialized, latch⟩)
  | setInitialized (me : ThreadId) (calibrated : Calibrated pre) :
      Logged trace wire pre (me, ⟨.setInitialized, ()⟩)

theorem Logged.mono {trace trace' : List Event} {wire wire' : List Passage}
    {pre : List (ThreadId × Turn Op.Ans)} {e : ThreadId × Turn Op.Ans}
    (h : Logged trace wire pre e) (htrace : trace <+: trace') (hwire : wire <+: wire') :
    Logged trace' wire' pre e := by
  cases h with
  | transact me request answer called returned delivered =>
      obtain ⟨u, hreturned⟩ := returned
      exact .transact me request answer (htrace.subset called) ⟨u, htrace.subset hreturned⟩
        fun hok ↦ (delivered hok).mono hwire
  | wait me ms => exact .wait me ms
  | getInitialized me latch calibrated => exact .getInitialized me latch calibrated
  | setInitialized me calibrated => exact .setInitialized me calibrated

/-- Of every call in the conversation that succeeded the bytes are on the wire. -/
def OnWire (wire : List Passage) (me : ThreadId) (talk : List (Turn Op.Ans)) : Prop :=
  ∀ request (answer : Answer), ⟨.transact request, answer⟩ ∈ talk → answer.ret = .ok () →
    Delivered wire me request answer

theorem onWire_of_log {trace : List Event} {wire : List Passage} {me : ThreadId}
    {log : List (ThreadId × Turn Op.Ans)} {talk : List (Turn Op.Ans)}
    (hlog : EachAfter (Logged trace wire) log) (htalk : ∀ turn ∈ talk, (me, turn) ∈ log) :
    OnWire wire me talk := by
  intro request answer hmem hok
  obtain ⟨pre, -, hlogged⟩ := hlog.of_mem (htalk _ hmem)
  cases hlogged with
  | transact me request answer called returned delivered => exact delivered hok

/-- The check of the calibration is on the wire. -/
theorem Calibrated.initialised {trace : List Event} {wire : List Passage}
    {log : List (ThreadId × Turn Op.Ans)} (h : Calibrated log)
    (hlog : EachAfter (Logged trace wire) log) : Initialised wire := by
  obtain ⟨u, hchecked⟩ := h
  have hwire : OnWire wire u (turnsOf u log) :=
    onWire_of_log hlog fun turn hturn ↦ mem_turnsOf.mp hturn
  obtain ⟨status, hstatus, hret, hbit | ⟨init, hinit, hok⟩⟩ := hchecked
  · have hmem := hwire _ status hstatus hret tempI2cCap _ _ rfl
      ⟨I2cRead, 1, 0, some statusAt⟩ List.mem_cons_self (by decide)
    exact ⟨_, hmem, rfl, rfl, .inl ⟨rfl, status.buffer 0, rfl, hbit⟩⟩
  · have hmem := hwire _ init hinit hok tempI2cCap _ _ rfl
      ⟨I2cWrite, 3, 0, some initAt⟩ List.mem_cons_self (by decide)
    exact ⟨_, hmem, rfl, rfl, .inr ⟨rfl, rfl⟩⟩

@[simp] theorem State.setTask_self (s : State) (me : ThreadId) (task? : Option Task) :
    (s.setTask me task?).tasks me = task? :=
  Function.update_self ..

theorem State.setTask_ne (s : State) {me u : ThreadId} (h : u ≠ me) (task? : Option Task) :
    (s.setTask me task?).tasks u = s.tasks u :=
  Function.update_of_ne h ..

/-! ## The invariant -/

/-- What holds of a task in the state `s`. -/
structure Task.Kept (s : State) (me : ThreadId) (task : Task) : Prop where
  contract : task.rest.Spec Allowed Answered task.entry.Ends task.talk
  logged : ∀ turn ∈ task.talk, (me, turn) ∈ s.log
  calling : ∀ call, task.activity = .calling call → ∀ request next,
    task.rest = .op (.transact request) next → .called call me request ∈ s.driver.trace

structure Kept (msToTicks : ℕ → ℕ) (s : State) : Prop where
  driver : Steps (Driver.step msToTicks) OfSensors .boot s.driver
  wire : onBus s.driver.trace = s.wire.map Passage.transfer
  makes : ∀ p ∈ s.wire, Makes s.driver.trace p
  measuring : ∀ id me, .called id me measurement ∈ s.driver.trace → Initialised s.wire
  triggers : EachAfter (fun pre p ↦ p.Triggers → Initialised pre) s.wire
  tasks : ∀ me task, s.tasks me = some task → task.Kept s me
  log : EachAfter (Logged s.driver.trace s.wire) s.log
  latch : s.sInitialized = true → Calibrated s.log
  finished : ∀ f ∈ s.finished, f.entry.Ends f.talk f.result ∧
    ∀ turn ∈ f.talk, (f.thread, turn) ∈ s.log

variable {msToTicks : ℕ → ℕ} {s t : State} {me : ThreadId} {task : Task} {turn : Turn Op.Ans}

theorem Task.Kept.mono (h : task.Kept s me) (hlog : s.log <+: t.log)
    (htrace : s.driver.trace <+: t.driver.trace) : task.Kept t me where
  contract := h.contract
  logged turn hturn := hlog.subset (h.logged turn hturn)
  calling call hcall request next hrest := htrace.subset (h.calling call hcall request next hrest)

theorem Task.Kept.calibrated (h : task.Kept s me)
    (hs : EachAfter (Logged s.driver.trace s.wire) s.log) (hcleared : Cleared task.talk) :
    Calibrated s.log := by
  rcases hcleared with hget | hchecked
  · obtain ⟨pre, ⟨more, hmore⟩, hlogged⟩ := hs.of_mem (h.logged _ hget)
    cases hlogged with
    | getInitialized me latch calibrated => exact hmore ▸ (calibrated rfl).append more
  · exact ⟨me, hchecked.mono fun turn hturn ↦ mem_turnsOf.mpr (h.logged turn hturn)⟩

/-- The passage of a step of the driver comes after an initialisation, if it triggers. -/
theorem Kept.initialised (h : Kept msToTicks s) {p : Passage} (hp : Makes s.driver.trace p)
    (htriggers : p.Triggers) : Initialised s.wire := by
  obtain ⟨request, st, sent, hcalled, hstep, hdirection, hbytes⟩ := hp.busStep h.driver
  obtain rfl := hstep.of_trigger (hdirection ▸ htriggers.1) (hbytes ▸ htriggers.2)
  exact h.measuring _ _ hcalled

/-- A step of the driver. -/
theorem Kept.drive (h : Kept msToTicks s) {a : Driver.Action} {sent : ℕ → UInt8}
    (hsensor : OfSensors s.driver a)
    (hmeasure : ∀ me, a = .call me measurement → Initialised s.wire)
    (hstep : drive msToTicks s a sent = some t) : Kept msToTicks t := by
  obtain ⟨driver, hdriver, rfl⟩ := Option.map_eq_some_iff.mp hstep
  have ht := step_trans msToTicks hdriver
  have htrace := ht.trace_prefix
  have hwire : s.wire <+: s.wire ++ (passage? s.driver a sent).toList := List.prefix_append _ _
  have hmakes : ∀ p, passage? s.driver a sent = some p → Makes s.driver.trace p :=
    fun p hp ↦ makes_passage? (Ledger.reachable h.driver.reachable) hp
  refine ⟨.next a h.driver hsensor hdriver, ?_, ?_, ?_, ?_,
    fun me task htask ↦ (h.tasks me task htask).mono List.prefix_rfl htrace,
    fun pre e post hsplit ↦ (h.log pre e post hsplit).mono htrace hwire, h.latch, h.finished⟩
  · rw [onBus_step hdriver sent, h.wire, List.map_append, Option.toList_map]
  · intro p hp
    rcases List.mem_append.mp hp with hold | hnew
    · exact (h.makes p hold).mono htrace
    · exact (hmakes p (Option.mem_toList.mp hnew)).mono htrace
  · intro id me hcalled
    refine Initialised.mono ?_ hwire
    rcases ht.called_from hcalled with hold | ⟨-, hcall⟩
    · exact h.measuring id me hold
    · exact hmeasure me hcall
  · cases hp : passage? s.driver a sent with
    | none => simpa using h.triggers
    | some p => exact eachAfter_snoc.mpr ⟨h.triggers, fun hp' ↦ h.initialised (hmakes p hp) hp'⟩

/-- Another state of one task. -/
theorem Kept.setTask (h : Kept msToTicks s) {task? : Option Task}
    (htask : ∀ task, task? = some task → task.Kept s me) : Kept msToTicks (s.setTask me task?) where
  driver := h.driver
  wire := h.wire
  makes := h.makes
  measuring := h.measuring
  triggers := h.triggers
  tasks u task hu := by
    by_cases hme : u = me
    · subst hme
      rw [State.setTask_self] at hu
      exact (htask task hu).mono List.prefix_rfl List.prefix_rfl
    · rw [State.setTask_ne s hme] at hu
      exact (h.tasks u task hu).mono List.prefix_rfl List.prefix_rfl
  log := h.log
  latch := h.latch
  finished := h.finished

/-- An answer, after which the program goes on with `rest`. -/
theorem Kept.answer (h : Kept msToTicks s) (htask : s.tasks me = some task)
    (hlogged : Logged s.driver.trace s.wire s.log (me, turn)) {rest : Code (Except Errno Reading)}
    (hrest : rest.Spec Allowed Answered task.entry.Ends (task.talk ++ [turn])) :
    Kept msToTicks (s.answer me task turn rest) where
  driver := h.driver
  wire := h.wire
  makes := h.makes
  measuring := h.measuring
  triggers := h.triggers
  tasks u task' hu := by
    have hgrow : s.log <+: s.log ++ [(me, turn)] := List.prefix_append _ _
    by_cases hme : u = me
    · subst hme
      cases (State.setTask_self s u _).symm.trans hu
      refine ⟨hrest, fun turn' hturn ↦ ?_, by simp⟩
      rcases List.mem_append.mp hturn with hold | hnew
      · exact hgrow.subset ((h.tasks u task htask).logged turn' hold)
      · cases List.mem_singleton.mp hnew
        exact List.mem_append_right _ List.mem_cons_self
    · exact (h.tasks u task' ((State.setTask_ne s hme _).symm.trans hu)).mono hgrow List.prefix_rfl
  log := eachAfter_snoc.mpr ⟨h.log, hlogged⟩
  latch hlatch := (h.latch hlatch).append _
  finished f hf := ⟨(h.finished f hf).1,
    fun turn' hturn ↦ List.mem_append_left _ ((h.finished f hf).2 turn' hturn)⟩

theorem Kept.finish (h : Kept msToTicks s) (htask : s.tasks me = some task)
    {result : Except Errno Reading} (hrest : task.rest = .pure result) :
    Kept msToTicks (s.finish me task result) where
  driver := h.driver
  wire := h.wire
  makes := h.makes
  measuring := h.measuring
  triggers := h.triggers
  tasks u task' hu := by
    by_cases hme : u = me
    · subst hme
      cases (State.setTask_self s u none).symm.trans hu
    · exact (h.tasks u task' ((State.setTask_ne s hme none).symm.trans hu)).mono List.prefix_rfl
        List.prefix_rfl
  log := h.log
  latch := h.latch
  finished f hf := by
    rcases List.mem_append.mp hf with hold | hnew
    · exact h.finished f hold
    · cases List.mem_singleton.mp hnew
      have hkept := h.tasks me task htask
      have hends := hkept.contract
      rw [hrest] at hends
      exact ⟨hends, hkept.logged⟩

theorem returnOf_some {call : ℕ} {trace : List Event} {ret : Ret}
    (h : returnOf call trace = some ret) : ∃ u, .returned call u ret ∈ trace := by
  obtain ⟨e, hmem, he⟩ := List.exists_of_findSome?_eq_some h
  cases e with
  | returned id u ret' =>
      simp only [Option.ite_none_right_eq_some, Option.some.injEq] at he
      obtain ⟨rfl, rfl⟩ := he
      exact ⟨u, hmem⟩
  | _ => cases he

theorem called_mem {driver driver' : Driver.State} {request : Request}
    (h : Driver.step msToTicks driver (.call me request) = some driver') :
    .called driver.calls me request ∈ driver'.trace := by
  cases step_trans msToTicks h with
  | rejected me request e at_ refused =>
      exact List.mem_append_left _ (List.mem_append_right _ List.mem_cons_self)
  | started me request pc at_ accepted => exact List.mem_append_right _ List.mem_cons_self

theorem Kept.act (h : Kept msToTicks s) (htask : s.tasks me = some task)
    (hstep : act msToTicks s me task = some t) : Kept msToTicks t := by
  have hkept := h.tasks me task htask
  have hcontract := hkept.contract
  cases hrest : task.rest with
  | pure result =>
      simp only [Sensors.act, hrest, Option.some.injEq] at hstep
      exact hstep ▸ h.finish htask hrest
  | op o next =>
      rw [hrest] at hcontract
      obtain ⟨hallowed, hnext⟩ := hcontract
      cases o with
      | transact request =>
          obtain ⟨hrequest, hcleared⟩ := hallowed
          cases hactivity : task.activity with
          | ready =>
              simp only [Sensors.act, hrest, hactivity, Option.map_eq_some_iff] at hstep
              obtain ⟨m, hdrive, rfl⟩ := hstep
              have hm : Kept msToTicks m := by
                refine h.drive (a := .call me request) hrequest ?_ hdrive
                rintro me ⟨⟩
                exact (hkept.calibrated h.log (hcleared rfl)).initialised h.log
              obtain ⟨driver, hdriver, rfl⟩ := Option.map_eq_some_iff.mp hdrive
              refine hm.setTask ?_
              rintro task' ⟨⟩
              refine ⟨⟨⟨hrequest, hcleared⟩, hnext⟩, hkept.logged, ?_⟩
              rintro call ⟨⟩ request' next' ⟨⟩
              exact called_mem hdriver
          | calling call =>
              simp only [Sensors.act, hrest, hactivity, Option.map_eq_some_iff] at hstep
              obtain ⟨ret, hret, rfl⟩ := hstep
              obtain ⟨u, hreturned⟩ := returnOf_some hret
              have hcalled := hkept.calling call hactivity request next hrest
              refine h.answer htask (.transact me request _ hcalled ⟨u, hreturned⟩ ?_) (hnext _ ?_)
              · rintro rfl
                exact delivered h.driver h.wire h.makes hcalled hreturned
              · exact answered_of_returned h.driver hreturned
          | sleeping deadline => simp [Sensors.act, hrest, hactivity] at hstep
      | wait ms =>
          cases hactivity : task.activity with
          | ready =>
              simp only [Sensors.act, hrest, hactivity, Option.some.injEq] at hstep
              subst hstep
              refine h.setTask ?_
              rintro task' ⟨⟩
              exact ⟨⟨hallowed, hnext⟩, hkept.logged, by simp⟩
          | calling call => simp [Sensors.act, hrest, hactivity] at hstep
          | sleeping deadline =>
              simp only [Sensors.act, hrest, hactivity, Option.ite_none_right_eq_some,
                Option.some.injEq] at hstep
              exact hstep.2 ▸ h.answer htask (.wait me ms) (hnext () trivial)
      | getInitialized =>
          simp only [Sensors.act, hrest, Option.some.injEq] at hstep
          exact hstep ▸ h.answer htask (.getInitialized me _ h.latch) (hnext _ trivial)
      | setInitialized =>
          simp only [Sensors.act, hrest, Option.some.injEq] at hstep
          have hcalibrated := hkept.calibrated h.log (.inr hallowed)
          have hset : Kept msToTicks { s with sInitialized := true } :=
            ⟨h.driver, h.wire, h.makes, h.measuring, h.triggers,
              fun u task' hu ↦ (h.tasks u task' hu).mono List.prefix_rfl List.prefix_rfl, h.log,
              fun _ ↦ hcalibrated, h.finished⟩
          exact hstep ▸ hset.answer htask (.setInitialized me hcalibrated) (hnext () trivial)

theorem kept (h : Reachable (step msToTicks) .boot s) : Kept msToTicks s := by
  refine h.invariant (I := Kept msToTicks) ⟨.init, rfl, by simp [State.boot],
    by simp [State.boot, Driver.State.boot], .nil, by simp [State.boot], .nil,
    by simp [State.boot], by simp [State.boot]⟩ ?_
  intro s a t hs _ hstep
  cases a with
  | tick => exact hs.drive (a := .tick) trivial (by simp) hstep
  | enter me entry =>
      simp only [step, Option.ite_none_right_eq_some, Option.some.injEq] at hstep
      obtain ⟨-, rfl⟩ := hstep
      refine hs.setTask ?_
      rintro task ⟨⟩
      exact ⟨entry.spec_code, by simp, by simp⟩
  | act me =>
      obtain ⟨task, htask, hact⟩ := Option.bind_eq_some_iff.mp hstep
      exact hs.act htask hact
  | run me ok sent => exact hs.drive (a := .run me ok) trivial (by simp) hstep

/-! ## What the sensors get -/

/-- What an entry point hands out is in the bytes of the passage. -/
def Entry.Reads : Entry → Passage → Reading → Prop
  | .both c h, p, reading => ∃ buf : Vector UInt8 6, p.transfer.address = 0x38 ∧
      p.bytes = buf.toList ∧ buf[0] &&& KStatusBusy = 0 ∧
      reading = .both (Aht20.parseMeasurement buf c h).1 (Aht20.parseMeasurement buf c h).2
  | .celsius c, p, reading => ∃ buf : Vector UInt8 6, p.transfer.address = 0x38 ∧
      p.bytes = buf.toList ∧ buf[0] &&& KStatusBusy = 0 ∧
      reading = .both (Aht20.parseMeasurement buf c false).1 (Aht20.parseMeasurement buf c false).2
  | .raw _, p, reading => ∃ high low raw, p.transfer.address = 0x36 ∧ p.bytes = [high, low] ∧
      raw.toNat = high.toNat * 2 ^ 8 + low.toNat ∧ reading = .raw raw
  | .percent _, p, reading => ∃ high low raw percent, p.transfer.address = 0x36 ∧
      p.bytes = [high, low] ∧ raw.toNat = high.toNat * 2 ^ 8 + low.toNat ∧
      IsPercent raw percent ∧ reading = .percent percent

/-- The passage is a read of a call in the conversation that succeeded. -/
structure Passage.ReadIn (p : Passage) (me : ThreadId) (talk : List (Turn Op.Ans)) : Prop where
  thread : p.transfer.thread = me
  direction : p.transfer.direction = .read
  ok : p.transfer.ok = true
  call : ∃ request, ∃ answer : Answer, ⟨.transact request, answer⟩ ∈ talk ∧
    answer.call = p.transfer.call

structure Sensed (s : State) : Prop where
  /-- No call of the driver is refused, for the table is never full. -/
  returned : ∀ call u ret, .returned call u ret ∈ s.driver.trace →
    ret = .ok () ∨ ret = .error .EIo ∨ ret = .error .ETIMEDOUT
  /-- The wire has the transfers of the driver, in their order. -/
  wire : onBus s.driver.trace = s.wire.map Passage.transfer
  traffic : ∀ p ∈ s.wire, Understood p.transfer.address p.transfer.direction p.bytes
  /-- What a program was answered tells exactly what its call did on the bus, and if the call
  succeeded, all its bytes are there: those it wrote, and those in the buffer of the answer. -/
  answered : ∀ me request answer, (me, ⟨.transact request, answer⟩) ∈ s.log → ∃ b : Batch,
    b.call = answer.call ∧ request = .transact (some b.cap) (some b.steps) .unlimited ∧
      Served me b answer.ret (transfersOf answer.call s.driver.trace) ∧
      (answer.ret = .ok () → ∀ st ∈ b.steps, st.kind ≠ I2cDelay →
        ⟨b.transferOf me st true, carried st answer.buffer⟩ ∈ s.wire)
  calibrated : EachAfter (fun pre p ↦ p.Triggers → Initialised pre) s.wire
  ends : ∀ f ∈ s.finished, f.entry.Ends f.talk f.result ∧
    ∀ turn ∈ f.talk, (f.thread, turn) ∈ s.log
  /-- A value handed out is that of the bytes which this very call read. -/
  values : ∀ f ∈ s.finished, ∀ reading, f.result = .ok reading →
    ∃ p ∈ s.wire, p.ReadIn f.thread f.talk ∧ f.entry.Reads p reading

/-- A measurement that succeeded read its six bytes. -/
theorem Measured.passage {c h : Bool} {talk : List (Turn Op.Ans)}
    {out : Option Int16 × Option UInt16} (hm : Measured c h talk (.ok out))
    {wire : List Passage} {me : ThreadId} (hwire : OnWire wire me talk) :
    ∃ p ∈ wire, p.ReadIn me talk ∧ ∃ buf : Vector UInt8 6, p.transfer.address = 0x38 ∧
      p.bytes = buf.toList ∧ buf[0] &&& KStatusBusy = 0 ∧
      out = Aht20.parseMeasurement buf c h := by
  cases hm with
  | read l answer cleared hok bit =>
      have hmem : ⟨.transact measurement, answer⟩ ∈ l ++ [⟨.transact measurement, answer⟩] :=
        List.mem_append_right _ List.mem_cons_self
      have hp := hwire _ answer hmem hok tempI2cCap _ _ rfl ⟨I2cRead, 6, 0, some bufAt⟩
        (by simp) (by decide)
      exact ⟨_, hp, ⟨rfl, rfl, rfl, measurement, answer, hmem, rfl⟩,
        Vector.ofFn fun i ↦ answer.buffer i, rfl, carried_six _, bit, rfl⟩

/-- A reading of the soil sensor that succeeded read its two bytes. -/
theorem Touched.passage {rawOut : Bool} {talk : List (Turn Op.Ans)} {raw : UInt16}
    (ht : Touched rawOut talk (.ok raw)) {wire : List Passage} {me : ThreadId}
    (hwire : OnWire wire me talk) :
    ∃ p ∈ wire, p.ReadIn me talk ∧ ∃ high low, p.transfer.address = 0x36 ∧
      p.bytes = [high, low] ∧ raw.toNat = high.toNat * 2 ^ 8 + low.toNat := by
  cases ht with
  | read answer raw hok value =>
      have hmem : ⟨.transact touchRead, answer⟩ ∈ [(⟨.transact touchRead, answer⟩ : Turn Op.Ans)] :=
        List.mem_cons_self
      have hp := hwire _ answer hmem hok moistureI2cCap _ _ rfl ⟨I2cRead, 2, 0, some bufAt⟩
        (by simp) (by decide)
      exact ⟨_, hp, ⟨rfl, rfl, rfl, touchRead, answer, hmem, rfl⟩, answer.buffer 0,
        answer.buffer 1, rfl, rfl, value⟩

/-- The value of every entry point is in what it read. -/
theorem Entry.Ends.passage {entry : Entry} {talk : List (Turn Op.Ans)} {reading : Reading}
    (h : entry.Ends talk (.ok reading)) {wire : List Passage} {me : ThreadId}
    (hwire : OnWire wire me talk) :
    ∃ p ∈ wire, p.ReadIn me talk ∧ entry.Reads p reading := by
  cases entry with
  | both c h' =>
      obtain ⟨e | out, hm, hresult⟩ := h
      · cases hresult
      · cases hresult
        obtain ⟨p, hp, hread, buf, haddress, hbytes, hbusy, rfl⟩ := hm.passage hwire
        exact ⟨p, hp, hread, buf, haddress, hbytes, hbusy, rfl⟩
  | celsius c =>
      obtain ⟨e | out, hm, hresult⟩ := h
      · cases hresult
      · cases hresult
        obtain ⟨p, hp, hread, buf, haddress, hbytes, hbusy, rfl⟩ := hm.passage hwire
        exact ⟨p, hp, hread, buf, haddress, hbytes, hbusy, rfl⟩
  | raw out =>
      obtain ⟨e | raw, ht, hresult⟩ := h
      · cases hresult
      · cases hresult
        obtain ⟨p, hp, hread, high, low, haddress, hbytes, hvalue⟩ := ht.passage hwire
        exact ⟨p, hp, hread, high, low, raw, haddress, hbytes, hvalue, rfl⟩
  | percent out =>
      obtain ⟨r, ht, ⟨e, -, hresult⟩ | ⟨raw, percent, rfl, hpercent, hresult⟩⟩ := h
      · cases hresult
      · cases hresult
        obtain ⟨p, hp, hread, high, low, haddress, hbytes, hvalue⟩ := ht.passage hwire
        exact ⟨p, hp, hread, high, low, raw, percent, haddress, hbytes, hvalue, hpercent, rfl⟩

theorem sensors_sound (msToTicks : ℕ → ℕ) {s : State}
    (h : Reachable (step msToTicks) .boot s) : Sensed s := by
  have hkept := kept h
  have hdriver := soundly_of_ofSensors hkept.driver
  have hledger := Ledger.reachable hdriver.reachable
  refine ⟨fun call u ret hreturned ↦ answered_of_returned hkept.driver hreturned, hkept.wire, ?_,
    ?_, hkept.triggers, hkept.finished, ?_⟩
  · intro p hp
    obtain ⟨request, st, sent, -, hstep, hdirection, hbytes⟩ := (hkept.makes p hp).busStep
      hkept.driver
    rw [hdirection, hbytes]
    exact hstep.understood sent
  · intro me request answer hmem
    obtain ⟨pre, -, hlogged⟩ := hkept.log.of_mem hmem
    cases hlogged with
    | transact me request answer called returned delivered =>
        obtain ⟨u, hreturned⟩ := returned
        obtain ⟨b, hcall, -, hcalled, hserved⟩ :=
          served_of_returned sensorCaps_fit hdriver hreturned
        obtain ⟨rfl, rfl⟩ := hledger.once _ _ _ _ _ called hcalled
        refine ⟨b, hcall, rfl, hserved, fun hok st hst hbus ↦ ?_⟩
        have hpassage := delivered hok b.cap b.steps .unlimited rfl st hst hbus
        rwa [← hcall] at hpassage
  · intro f hf reading hresult
    obtain ⟨hends, htalk⟩ := hkept.finished f hf
    rw [hresult] at hends
    exact hends.passage (onWire_of_log hkept.log htalk)

/-- A first measurement, through the check of the calibration. -/
theorem sensors_sound_first : ∃ s : State,
    s.finished.map Finished.result = [.ok (.both (some 250) none)] ∧ s.sInitialized = true ∧
      s.wire.map Passage.bytes = [[0x18], [0xAC, 0x33, 0x00], [0, 0, 0, 6, 0, 0]] ∧ Sensed s := by
  let runs (n : ℕ) (sent : ℕ → UInt8) : List Action := List.replicate n (.run 0 true sent)
  let status (i : ℕ) : UInt8 := if i = 0 then 0x18 else 0
  let bytes (i : ℕ) : UInt8 := if i = 3 then 6 else 0
  have hrun : (exec (step (· / 10)) (fun _ _ ↦ true) .boot
      ([.enter 0 (.both true false), .act 0, .act 0] ++ runs 6 status ++ [.act 0, .act 0, .act 0] ++
        runs 9 bytes ++ [.act 0, .act 0])).map
      (fun s ↦ (s.finished.map Finished.result, s.sInitialized, s.wire.map Passage.bytes)) =
      some ([.ok (.both (some 250) none)], true,
        [[0x18], [0xAC, 0x33, 0x00], [0, 0, 0, 6, 0, 0]]) := by
    decide +kernel
  obtain ⟨s, hexec, hs⟩ := Option.map_eq_some_iff.mp hrun
  obtain ⟨hfinished, hrest⟩ := Prod.ext_iff.mp hs
  obtain ⟨hlatch, hwire⟩ := Prod.ext_iff.mp hrest
  exact ⟨s, hfinished, hlatch, hwire, sensors_sound _ (exec_steps hexec).reachable⟩

end PlantNode.Sensors
