import PlantNode.Irrigation.Loop
import Mathlib.Tactic.Ring

/-!
# The watering pulse in time

`irrigation_loop` with every call of `policy_evaluate` a step of its own, the statics of
the pump driver, and the clock in ticks.  A sleep and a wait last at least the ticks they
are given.  The pump is paced whatever the other threads do, and `Irrigation.step`, in
which `policy_evaluate` is one step, has the same behaviours.
-/

namespace PlantNode.Irrigation.Pulse

open Foundation

/-- `sPumpState`, and the pin of the LED that stands in for the relay. -/
structure PumpDriver where
  sPumpState : Bool
  led : Bool
  deriving DecidableEq, Repr

def PumpDriver.boot : PumpDriver := ⟨false, false⟩

/-- `pump_on`; there is no relay yet, and the caller does not look at the result. -/
def pumpOn (_ : PumpDriver) : Ret × PumpDriver :=
  (.error .ENOSYS, { sPumpState := true, led := true })

def pumpOff (_ : PumpDriver) : Ret × PumpDriver :=
  (.error .ENOSYS, { sPumpState := false, led := false })

/-- Where the thread is: in `thread_sleep` until the tick `wake`, in the loop, or in
`policy_evaluate`, where the display shows the activation, `thread_millisecond_wait` runs until
the tick `wake`, that wait is over, and the pump is off again. -/
inductive Pc where
  | sleeping (wake : ℕ)
  | head
  | sensed (moistureRaw : UInt16)
  | timed (moistureRaw : UInt16) (tv : Option ℤ)
  | announced (tv : Option ℤ)
  | pulsing (tv : Option ℤ) (wake : ℕ)
  | waited (tv : Option ℤ)
  | stopped (tv : Option ℤ)
  | evaluated (outcome : PolicyOutcome) (tv : Option ℤ)
  deriving DecidableEq, Repr

/-- `switches` holds the ticks at which the pump was turned on and off; it and `recorded`
and `pump` are records that no step reads. -/
structure State where
  clock : ℕ
  policy : Policy.State
  sLastWatering : ℕ
  driver : PumpDriver
  pc : Pc
  recorded : List (Option ℤ)
  pump : List PumpCall
  switches : List (ℕ × Bool)
  deriving DecidableEq, Repr

/-- A tick, the end of the sleep, the next step of the loop or of `policy_evaluate`, and the calls
of other threads; `pump_get_state` only reads. -/
inductive Action where
  | tick
  | wake
  | sense (reading : Except Errno UInt16)
  | clock (tv : Option ℤ)
  | evaluate
  | record
  | update (packet : Option (List UInt8))
  | get
  | pumpState
  deriving Repr

section Machine

variable (msToTicks : ℕ → ℕ)

/-- The loop is entered after a first sleep. -/
def State.boot : State where
  clock := 0
  policy := .boot
  sLastWatering := 0
  driver := .boot
  pc := .sleeping (msToTicks 6000)
  recorded := []
  pump := []
  switches := []

/-- `thread_sleep` at the end of the loop body. -/
def sleep (s : State) : State := { s with pc := .sleeping (s.clock + msToTicks 6000) }

def evaluateStep (s : State) : Option State :=
  match s.pc with
  | .timed moistureRaw tv =>
      if moistureRaw.toNat < s.policy.sMoistureLow then
        some { s with pc := .announced tv, pump := s.pump ++ [.display true] }
      else some { s with pc := .evaluated .NoAction tv }
  | .announced tv => some { s with
      driver := (pumpOn s.driver).2
      pc := .pulsing tv (s.clock + msToTicks 2500)
      pump := s.pump ++ [.on]
      switches := s.switches ++ [(s.clock, true)] }
  | .pulsing tv wake =>
      if wake ≤ s.clock then some { s with pc := .waited tv, pump := s.pump ++ [.wait 2500] }
      else none
  | .waited tv => some { s with
      driver := (pumpOff s.driver).2
      pc := .stopped tv
      pump := s.pump ++ [.off]
      switches := s.switches ++ [(s.clock, false)] }
  | .stopped tv => some { s with
      pc := .evaluated .PumpActivation tv, pump := s.pump ++ [.display false] }
  | _ => none

def step (s : State) : Action → Option State
  | .tick => some { s with clock := s.clock + 1 }
  | .wake =>
      match s.pc with
      | .sleeping wake => if wake ≤ s.clock then some { s with pc := .head } else none
      | _ => none
  | .sense reading =>
      match s.pc, reading with
      | .head, .error _ => some (sleep msToTicks s)
      | .head, .ok moistureRaw => some { s with pc := .sensed moistureRaw }
      | _, _ => none
  | .clock tv =>
      match s.pc with
      | .sensed moistureRaw => some { s with pc := .timed moistureRaw tv }
      | _ => none
  | .evaluate => evaluateStep msToTicks s
  | .record =>
      match s.pc with
      | .evaluated .PumpActivation tv => some (sleep msToTicks { s with
          sLastWatering := timestampOf tv, recorded := s.recorded ++ [tv] })
      | .evaluated .NoAction _ => some (sleep msToTicks s)
      | _ => none
  | .update packet => some { s with policy := (Policy.policyUpdateThreshold s.policy packet).2 }
  | .get => some s
  | .pumpState => some s

end Machine

variable {msToTicks : ℕ → ℕ} {s t : State} {a : Action}

/-! ## The pace of the pump -/

def Pc.isOn : Pc → Bool
  | .pulsing .. => true
  | .waited .. => true
  | _ => false

/-- The ticks from one switch of the pump to the next. -/
def gap (msToTicks : ℕ → ℕ) (on : Bool) : ℕ := if on then msToTicks 2500 else msToTicks 6000

/-- The tick before which the pump is not switched again. -/
def due (msToTicks : ℕ → ℕ) (clock : ℕ) : Pc → ℕ
  | .sleeping wake => wake
  | .pulsing _ wake => wake
  | .stopped _ => clock + msToTicks 6000
  | .evaluated .. => clock + msToTicks 6000
  | _ => clock

/-- A step keeps the pump as it is and what is due, or switches it when it is due. -/
inductive Moves (msToTicks : ℕ → ℕ) (s t : State) : Prop
  | quiet (clock : s.clock ≤ t.clock) (isOn : t.pc.isOn = s.pc.isOn)
      (later : due msToTicks s.clock s.pc ≤ due msToTicks t.clock t.pc)
      (driver : t.driver = s.driver) (switches : t.switches = s.switches)
  | switched (on : Bool) (clock : t.clock = s.clock) (before : s.pc.isOn = !on)
      (isOn : t.pc.isOn = on)
      (now : due msToTicks s.clock s.pc = s.clock)
      (next : due msToTicks t.clock t.pc = s.clock + gap msToTicks on)
      (driver : t.driver = ⟨on, on⟩) (switches : t.switches = s.switches ++ [(s.clock, on)])

theorem moves_evaluate (h : evaluateStep msToTicks s = some t) : Moves msToTicks s t := by
  unfold evaluateStep at h
  split at h
  · rename_i moistureRaw tv hpc
    split at h <;> cases h
    · exact .quiet le_rfl (by rw [hpc]; rfl) (by rw [hpc]; exact le_rfl) rfl rfl
    · exact .quiet le_rfl (by rw [hpc]; rfl) (by rw [hpc]; exact Nat.le_add_right _ _) rfl rfl
  · rename_i tv hpc
    cases h
    exact .switched true rfl (by rw [hpc]; rfl) rfl (by rw [hpc]; rfl) rfl rfl rfl
  · rename_i tv wake hpc
    split at h <;> cases h
    rename_i hwake
    exact .quiet le_rfl (by rw [hpc]; rfl) (by rw [hpc]; exact hwake) rfl rfl
  · rename_i tv hpc
    cases h
    exact .switched false rfl (by rw [hpc]; rfl) rfl (by rw [hpc]; rfl) rfl rfl rfl
  · rename_i tv hpc
    cases h
    exact .quiet le_rfl (by rw [hpc]; rfl) (by rw [hpc]; exact le_rfl) rfl rfl
  · cases h

theorem due_mono (pc : Pc) (clock : ℕ) :
    due msToTicks clock pc ≤ due msToTicks (clock + 1) pc := by
  cases pc <;> simp only [due] <;> omega

theorem step_moves (h : step msToTicks s a = some t) : Moves msToTicks s t := by
  cases a with
  | tick =>
      cases h
      exact .quiet (Nat.le_succ _) rfl (due_mono s.pc s.clock) rfl rfl
  | wake =>
      simp only [step] at h
      split at h
      · rename_i wake hpc
        split at h <;> cases h
        rename_i hwake
        exact .quiet le_rfl (by rw [hpc]; rfl) (by rw [hpc]; exact hwake) rfl rfl
      · cases h
  | sense reading =>
      simp only [step] at h
      split at h <;> cases h
      · rename_i hpc
        exact .quiet le_rfl (by rw [hpc]; rfl) (by rw [hpc]; exact Nat.le_add_right _ _) rfl rfl
      · rename_i hpc
        exact .quiet le_rfl (by rw [hpc]; rfl) (by rw [hpc]; exact le_rfl) rfl rfl
  | clock tv =>
      simp only [step] at h
      split at h <;> cases h
      rename_i hpc
      exact .quiet le_rfl (by rw [hpc]; rfl) (by rw [hpc]; exact le_rfl) rfl rfl
  | evaluate => exact moves_evaluate h
  | record =>
      simp only [step] at h
      split at h <;> cases h
      · rename_i hpc
        exact .quiet le_rfl (by rw [hpc]; rfl) (by rw [hpc]; exact le_rfl) rfl rfl
      · rename_i hpc
        exact .quiet le_rfl (by rw [hpc]; rfl) (by rw [hpc]; exact le_rfl) rfl rfl
  | update packet =>
      cases h
      exact .quiet le_rfl rfl le_rfl rfl rfl
  | get =>
      cases h
      exact .quiet le_rfl rfl le_rfl rfl rfl
  | pumpState =>
      cases h
      exact .quiet le_rfl rfl le_rfl rfl rfl

/-- A switch follows the one before it, which was the other way, after the ticks of the
pulse or of the pause; the first one turns the pump on, after a pause. -/
def Spaced (msToTicks : ℕ → ℕ) (past : List (ℕ × Bool)) (e : ℕ × Bool) : Prop :=
  match past.getLast? with
  | none => e.2 = true ∧ gap msToTicks false ≤ e.1
  | some last => e.2 = !last.2 ∧ last.1 + gap msToTicks last.2 ≤ e.1

/-- The driver and the LED agree with the place of the thread, and the next switch will be
on time. -/
structure Paced (msToTicks : ℕ → ℕ) (s : State) : Prop where
  driver : s.driver = ⟨s.pc.isOn, s.pc.isOn⟩
  last : (s.switches.getLast?.map Prod.snd).getD false = s.pc.isOn
  past : ∀ e ∈ s.switches, e.1 ≤ s.clock
  next : ∀ now, due msToTicks s.clock s.pc ≤ now →
    Spaced msToTicks s.switches (now, !s.pc.isOn)
  spaced : EachAfter (Spaced msToTicks) s.switches

theorem paced_boot : Paced msToTicks (.boot msToTicks) where
  driver := rfl
  last := rfl
  past := by simp [State.boot]
  next now hnow := ⟨rfl, hnow⟩
  spaced := EachAfter.nil

theorem Paced.step (hp : Paced msToTicks s) (h : step msToTicks s a = some t) :
    Paced msToTicks t := by
  cases step_moves h with
  | quiet clock isOn later driver switches =>
      refine ⟨?_, ?_, ?_, ?_, ?_⟩
      · rw [driver, isOn]
        exact hp.driver
      · rw [switches, isOn]
        exact hp.last
      · rw [switches]
        exact fun e he ↦ (hp.past e he).trans clock
      · rw [switches, isOn]
        exact fun now hnow ↦ hp.next now (later.trans hnow)
      · rw [switches]
        exact hp.spaced
  | switched on clock before isOn now next driver switches =>
      have hspaced := hp.next s.clock now.le
      rw [before, Bool.not_not] at hspaced
      refine ⟨?_, ?_, ?_, ?_, ?_⟩
      · rw [driver, isOn]
      · rw [switches, List.getLast?_concat, isOn]
        rfl
      · rw [switches, clock]
        refine List.forall_mem_append.mpr ⟨hp.past, List.forall_mem_singleton.mpr le_rfl⟩
      · rw [switches, isOn, next]
        intro now hnow
        simp only [Spaced, List.getLast?_concat]
        exact ⟨trivial, hnow⟩
      · rw [switches, eachAfter_snoc]
        exact ⟨hp.spaced, hspaced⟩

theorem paced (h : Reachable (step msToTicks) (.boot msToTicks) s) : Paced msToTicks s :=
  h.invariant paced_boot fun _ _ _ hp _ hstep ↦ hp.step hstep

/-- The ticks that the switches took at least: a pause before each time the pump was turned
on, a pulse before each time it was turned off. -/
def taken (msToTicks : ℕ → ℕ) (switches : List (ℕ × Bool)) : ℕ :=
  (switches.map fun e ↦ gap msToTicks !e.2).sum

theorem taken_le {switches : List (ℕ × Bool)} (h : EachAfter (Spaced msToTicks) switches) :
    ∀ last ∈ switches.getLast?, taken msToTicks switches ≤ last.1 := by
  induction switches using List.reverseRecOn with
  | nil => simp
  | append_singleton past e ih =>
      obtain ⟨hpast, hspaced⟩ := eachAfter_snoc.mp h
      have htaken : taken msToTicks (past ++ [e]) = taken msToTicks past + gap msToTicks !e.2 := by
        simp [taken]
      simp only [List.getLast?_concat, Option.mem_def, Option.some.injEq, forall_eq', htaken]
      rw [Spaced] at hspaced
      cases hlast : past.getLast? with
      | none =>
          have hnil : past = [] := List.getLast?_eq_none_iff.mp hlast
          simp only [hlast] at hspaced
          rw [hspaced.1, hnil]
          simpa [taken] using hspaced.2
      | some last =>
          have hle := ih hpast last hlast
          simp only [hlast] at hspaced
          rw [hspaced.1, Bool.not_not]
          omega

/-- The number of pulses that were started. -/
def started (switches : List (ℕ × Bool)) : ℕ := (switches.filter Prod.snd).length

theorem taken_of_off {switches : List (ℕ × Bool)} (h : EachAfter (Spaced msToTicks) switches) :
    taken msToTicks switches + (if (switches.getLast?.map Prod.snd).getD false then
      msToTicks 2500 else 0) = started switches * (msToTicks 6000 + msToTicks 2500) := by
  induction switches using List.reverseRecOn with
  | nil => simp [taken, started]
  | append_singleton past e ih =>
      obtain ⟨hpast, hspaced⟩ := eachAfter_snoc.mp h
      have ih := ih hpast
      have htaken : taken msToTicks (past ++ [e]) = taken msToTicks past + gap msToTicks !e.2 := by
        simp [taken]
      have hstarted : started (past ++ [e]) = started past + if e.2 then 1 else 0 := by
        cases he : e.2 <;> simp [started, he]
      have hother : (past.getLast?.map Prod.snd).getD false = !e.2 := by
        rw [Spaced] at hspaced
        cases hlast : past.getLast? with
        | none =>
            simp only [hlast] at hspaced
            simp [hspaced.1]
        | some last =>
            simp only [hlast] at hspaced
            simp [hspaced.1]
      rw [hother] at ih
      rw [htaken, hstarted, List.getLast?_concat]
      cases he : e.2 with
      | true =>
          simp only [he, Bool.not_true, Bool.false_eq_true, if_false, Nat.add_zero] at ih
          simp only [Bool.not_true, Option.map_some, Option.getD_some, he, gap, if_true,
            Bool.false_eq_true, if_false, ih]
          ring
      | false =>
          simp only [he, Bool.not_false, if_true] at ih
          simp only [Bool.not_false, Option.map_some, Option.getD_some, he, gap, if_true,
            Bool.false_eq_true, if_false, Nat.add_zero, ih]

/-- The pump is on exactly during the pulses, a pulse and a pause last as long as they
should, and so the number of pulses is bounded by the time that has passed. -/
structure Limited (msToTicks : ℕ → ℕ) (s : State) : Prop where
  driver : s.driver.led = s.driver.sPumpState ∧
    s.driver.sPumpState = (s.switches.getLast?.map Prod.snd).getD false
  idle : s.driver.led = true ↔ ∃ tv, s.pc = .waited tv ∨ ∃ wake, s.pc = .pulsing tv wake
  spaced : EachAfter (Spaced msToTicks) s.switches
  bound : started s.switches * (msToTicks 6000 + msToTicks 2500) ≤ s.clock + msToTicks 2500

/-- In every run, whatever the sensor reads and the other threads do. -/
theorem pump_limited (msToTicks : ℕ → ℕ) {s : State}
    (h : Reachable (step msToTicks) (.boot msToTicks) s) : Limited msToTicks s := by
  have hp := paced h
  refine ⟨?_, ?_, hp.spaced, ?_⟩
  · rw [hp.driver, hp.last]
    exact ⟨rfl, rfl⟩
  · rw [hp.driver]
    constructor
    · intro hon
      have hon : s.pc.isOn = true := hon
      cases hpc : s.pc with
      | pulsing tv wake => exact ⟨tv, .inr ⟨wake, rfl⟩⟩
      | waited tv => exact ⟨tv, .inl rfl⟩
      | _ => simp [hpc, Pc.isOn] at hon
    · rintro ⟨tv, hpc | ⟨wake, hpc⟩⟩ <;> rw [hpc] <;> rfl
  · have htaken : taken msToTicks s.switches ≤ s.clock := by
      cases hlast : s.switches.getLast? with
      | none =>
          rw [List.getLast?_eq_none_iff.mp hlast]
          exact Nat.zero_le _
      | some last =>
          exact (taken_le hp.spaced last hlast).trans (hp.past last (List.mem_of_getLast? hlast))
    have heq := taken_of_off hp.spaced
    split at heq <;> omega

/-! ## One step for `policy_evaluate` -/

/-- The place of the thread where `policy_evaluate` is one step: it is over as soon as the
reading was found too low. -/
def Pc.coarse : Pc → Irrigation.Pc
  | .sleeping _ => .head
  | .head => .head
  | .sensed moistureRaw => .sensed moistureRaw
  | .timed moistureRaw tv => .timed moistureRaw tv
  | .announced tv => .evaluated .PumpActivation tv
  | .pulsing tv _ => .evaluated .PumpActivation tv
  | .waited tv => .evaluated .PumpActivation tv
  | .stopped tv => .evaluated .PumpActivation tv
  | .evaluated outcome tv => .evaluated outcome tv

/-- The calls of a pulse that are still to come. -/
def Pc.rest : Pc → List PumpCall
  | .announced _ => [.on, .wait 2500, .off, .display false]
  | .pulsing .. => [.wait 2500, .off, .display false]
  | .waited _ => [.off, .display false]
  | .stopped _ => [.display false]
  | _ => []

def State.coarse (s : State) : Irrigation.State where
  policy := s.policy
  sLastWatering := s.sLastWatering
  pc := s.pc.coarse
  recorded := s.recorded
  pump := s.pump ++ s.pc.rest

theorem coarse_evaluate (h : evaluateStep msToTicks s = some t) :
    t.coarse = s.coarse ∨ Irrigation.step s.coarse .evaluate = some t.coarse := by
  unfold evaluateStep at h
  split at h
  · rename_i moistureRaw tv hpc
    right
    split at h <;> cases h
    · rename_i hdry
      simp [State.coarse, hpc, Pc.coarse, Pc.rest, Irrigation.step, policyEvaluate, hdry]
    · rename_i hwet
      simp [State.coarse, hpc, Pc.coarse, Pc.rest, Irrigation.step, policyEvaluate, hwet]
  · rename_i tv hpc
    cases h
    exact .inl (by simp [State.coarse, hpc, Pc.coarse, Pc.rest])
  · rename_i tv wake hpc
    split at h <;> cases h
    exact .inl (by simp [State.coarse, hpc, Pc.coarse, Pc.rest])
  · rename_i tv hpc
    cases h
    exact .inl (by simp [State.coarse, hpc, Pc.coarse, Pc.rest])
  · rename_i tv hpc
    cases h
    exact .inl (by simp [State.coarse, hpc, Pc.coarse, Pc.rest])
  · cases h

/-- A step is one of the coarse machine, or nothing to it: the threshold is read once, before
the pulse. -/
theorem step_coarse (h : step msToTicks s a = some t) :
    t.coarse = s.coarse ∨ ∃ b, True ∧ Irrigation.step s.coarse b = some t.coarse := by
  cases a with
  | tick =>
      cases h
      exact .inl rfl
  | wake =>
      simp only [step] at h
      split at h
      · rename_i wake hpc
        split at h <;> cases h
        exact .inl (by simp [State.coarse, hpc, Pc.coarse, Pc.rest])
      · cases h
  | sense reading =>
      simp only [step] at h
      split at h <;> cases h
      · rename_i hpc
        exact .inl (by simp [State.coarse, sleep, hpc, Pc.coarse, Pc.rest])
      · rename_i moistureRaw hpc
        refine .inr ⟨.sense (.ok moistureRaw), trivial, ?_⟩
        simp [State.coarse, hpc, Pc.coarse, Pc.rest, Irrigation.step]
  | clock tv =>
      simp only [step] at h
      split at h <;> cases h
      rename_i hpc
      refine .inr ⟨.clock tv, trivial, ?_⟩
      simp [State.coarse, hpc, Pc.coarse, Pc.rest, Irrigation.step]
  | evaluate =>
      rcases coarse_evaluate h with hsame | hstep
      · exact .inl hsame
      · exact .inr ⟨.evaluate, trivial, hstep⟩
  | record =>
      simp only [step] at h
      split at h <;> cases h
      · rename_i tv hpc
        refine .inr ⟨.record, trivial, ?_⟩
        simp [State.coarse, sleep, hpc, Pc.coarse, Pc.rest, Irrigation.step]
      · rename_i tv hpc
        refine .inr ⟨.record, trivial, ?_⟩
        simp [State.coarse, sleep, hpc, Pc.coarse, Pc.rest, Irrigation.step]
  | update packet =>
      cases h
      exact .inr ⟨.update packet, trivial, rfl⟩
  | get =>
      cases h
      exact .inl rfl
  | pumpState =>
      cases h
      exact .inl rfl

/-- Whatever happens between the steps of `policy_evaluate`, a run is one in which it is a
single step: the same mailbox, the same activations, and the same calls of the pump once the
pulse is over. -/
theorem evaluate_atomic (msToTicks : ℕ → ℕ) {s : State}
    (h : Reachable (step msToTicks) (.boot msToTicks) s) :
    Reachable Irrigation.step .boot s.coarse :=
  h.refine_stutter State.coarse fun _ _ _ _ hstep ↦ step_coarse hstep

/-- Two pulses with ticks of one second; a command comes during the first one. -/
theorem pump_limited_twice :
    ∃ s, s.switches = [(6, true), (8, false), (14, true)] ∧ Limited (· / 1000) s := by
  let ticks (n : ℕ) : List Action := List.replicate n .tick
  let pulse : List Action := [.wake, .sense (.ok 250), .clock none, .evaluate, .evaluate]
  have hrun : (exec (step (· / 1000)) (fun _ _ ↦ true) (.boot (· / 1000))
      (ticks 6 ++ pulse ++ [.update none] ++ ticks 2 ++
        [.evaluate, .evaluate, .evaluate, .record] ++ ticks 6 ++ pulse)).map State.switches =
      some [(6, true), (8, false), (14, true)] := by
    decide +kernel
  obtain ⟨s, hexec, hs⟩ := Option.map_eq_some_iff.mp hrun
  exact ⟨s, hs, pump_limited _ (exec_steps hexec).reachable⟩

theorem evaluate_atomic_pulsing :
    ∃ s, s.pc = .pulsing none 8 ∧ Reachable Irrigation.step .boot (State.coarse s) := by
  let ticks (n : ℕ) : List Action := List.replicate n .tick
  have hrun : (exec (step (· / 1000)) (fun _ _ ↦ true) (.boot (· / 1000))
      (ticks 6 ++ [.wake, .sense (.ok 250), .clock none, .evaluate, .evaluate])).map State.pc =
      some (.pulsing none 8) := by
    decide +kernel
  obtain ⟨s, hexec, hs⟩ := Option.map_eq_some_iff.mp hrun
  exact ⟨s, hs, evaluate_atomic _ (exec_steps hexec).reachable⟩

end PlantNode.Irrigation.Pulse
