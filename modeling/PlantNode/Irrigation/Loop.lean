import PlantNode.Foundation.Run
import PlantNode.Policy.Update

/-!
# The irrigation loop and its mailbox

`policy_evaluate`, the loop that calls it, and the mailbox with the time of the last
watering.  The loop is one thread; threshold updates and reads of the mailbox by other
threads happen between any two of its steps.  A failed `gettimeofday` gives the
timestamp 0, which is also what the mailbox holds before the first watering.
-/

namespace PlantNode.Irrigation

open Foundation

inductive PolicyOutcome where
  | NoAction
  | PumpActivation
  deriving DecidableEq, Repr

/-- What `policy_evaluate` calls in the display and the pump driver. -/
inductive PumpCall where
  | display (activating : Bool)
  | on
  | wait (ms : ℕ)
  | off
  deriving DecidableEq, Repr

/-- `policy_evaluate`; the timestamp is not consulted. -/
def policyEvaluate (policy : Policy.State) (moistureRaw : UInt16) (_timestamp : ℕ) :
    PolicyOutcome × List PumpCall :=
  if moistureRaw.toNat < policy.sMoistureLow then
    (.PumpActivation, [.display true, .on, .wait 2500, .off, .display false])
  else (.NoAction, [])

/-- Where `irrigation_loop` is: at its head, or after it has read the sensor, asked for the time
or called `policy_evaluate`; `tv` is what `gettimeofday` gave, `none` when it failed. -/
inductive Pc where
  | head
  | sensed (moistureRaw : UInt16)
  | timed (moistureRaw : UInt16) (tv : Option ℤ)
  | evaluated (outcome : PolicyOutcome) (tv : Option ℤ)
  deriving DecidableEq, Repr

/-- `recorded` is what `gettimeofday` gave for each activation that was recorded, and
`pump` the calls of the pump driver; no step reads them. -/
structure State where
  policy : Policy.State
  sLastWatering : ℕ
  pc : Pc
  recorded : List (Option ℤ)
  pump : List PumpCall
  deriving DecidableEq, Repr

def State.boot : State where
  policy := .boot
  sLastWatering := 0
  pc := .head
  recorded := []
  pump := []

/-- `timestamp` in the loop. -/
def timestampOf : Option ℤ → ℕ
  | some tvSec => (tvSec % 2 ^ 32).toNat
  | none => 0

/-- The next step of the loop, with what it reads, or `policy_update_threshold` or
`irrigation_get_last_watering` called by another thread. -/
inductive Action where
  | sense (reading : Except Errno UInt16)
  | clock (tv : Option ℤ)
  | evaluate
  | record
  | update (packet : Option (List UInt8))
  | get
  deriving Repr

/-- `irrigation_get_last_watering`; `out` says that the pointer is not null. -/
def irrigationGetLastWatering (s : State) (out : Bool) : Except Errno ℕ :=
  if !out then .error .EINVAL else .ok s.sLastWatering

def step (s : State) : Action → Option State
  | .sense reading =>
      match s.pc, reading with
      | .head, .error _ => some s
      | .head, .ok moistureRaw => some { s with pc := .sensed moistureRaw }
      | _, _ => none
  | .clock tv =>
      match s.pc with
      | .sensed moistureRaw => some { s with pc := .timed moistureRaw tv }
      | _ => none
  | .evaluate =>
      match s.pc with
      | .timed moistureRaw tv =>
          let r := policyEvaluate s.policy moistureRaw (timestampOf tv)
          some { s with pc := .evaluated r.1 tv, pump := s.pump ++ r.2 }
      | _ => none
  | .record =>
      match s.pc with
      | .evaluated .PumpActivation tv => some { s with
          sLastWatering := timestampOf tv, pc := .head, recorded := s.recorded ++ [tv] }
      | .evaluated .NoAction _ => some { s with pc := .head }
      | _ => none
  | .update packet => some { s with policy := (Policy.policyUpdateThreshold s.policy packet).2 }
  | .get => some s

/-- The mailbox reads 0 before the first recorded activation, and after it the time of
the last one. -/
structure Means (s : State) : Prop where
  never : irrigationGetLastWatering s true = .ok 0 ↔ s.recorded = []
  last : ∀ tv ∈ s.recorded.getLast?, ∃ t, tv = some t ∧
    ∃ v : ℕ, irrigationGetLastWatering s true = .ok v ∧ (v : ℤ) = t

/-- The clock answered with a time of 32 bits that is not 0. -/
def Known (tv : Option ℤ) : Prop :=
  ∃ t, tv = some t ∧ 0 < t ∧ t < 2 ^ 32

variable {s t : State} {a : Action} {tv : Option ℤ}

/-! ## One step -/

/-- A step records one activation, or leaves the mailbox and the record alone. -/
theorem step_cases (h : step s a = some t) :
    (t.sLastWatering = s.sLastWatering ∧ t.recorded = s.recorded) ∨
      ∃ tv, s.pc = .evaluated .PumpActivation tv ∧ t.sLastWatering = timestampOf tv ∧
        t.recorded = s.recorded ++ [tv] := by
  cases a with
  | sense reading =>
      simp only [step] at h
      split at h
      · cases h
        exact .inl ⟨rfl, rfl⟩
      · cases h
        exact .inl ⟨rfl, rfl⟩
      · cases h
  | clock tv =>
      simp only [step] at h
      split at h
      · cases h
        exact .inl ⟨rfl, rfl⟩
      · cases h
  | evaluate =>
      simp only [step] at h
      split at h
      · cases h
        exact .inl ⟨rfl, rfl⟩
      · cases h
  | record =>
      simp only [step] at h
      split at h
      · rename_i tv hpc
        cases h
        exact .inr ⟨tv, hpc, rfl, rfl⟩
      · cases h
        exact .inl ⟨rfl, rfl⟩
      · cases h
  | update packet =>
      cases h
      exact .inl ⟨rfl, rfl⟩
  | get =>
      cases h
      exact .inl ⟨rfl, rfl⟩

/-- What the mailbox holds in every state. -/
def Holds (s : State) : Prop :=
  s.sLastWatering = (s.recorded.getLast?.map timestampOf).getD 0

theorem Holds.step (hs : Holds s) (h : step s a = some t) : Holds t := by
  rcases step_cases h with ⟨hvalue, hrecorded⟩ | ⟨tv, -, hvalue, hrecorded⟩
  · rw [Holds, hvalue, hrecorded]
    exact hs
  · rw [Holds, hvalue, hrecorded, List.getLast?_concat]
    rfl

theorem known_iff :
    Known tv ↔ ∃ t, tv = some t ∧ (timestampOf tv : ℤ) = t ∧ timestampOf tv ≠ 0 := by
  constructor
  · rintro ⟨t, rfl, hpos, hlt⟩
    have hmod : t % 2 ^ 32 = t := Int.emod_eq_of_lt hpos.le hlt
    refine ⟨t, rfl, ?_, ?_⟩
    · rw [timestampOf, hmod, Int.toNat_of_nonneg hpos.le]
    · rw [timestampOf, hmod]
      omega
  · rintro ⟨t, rfl, heq, hne⟩
    refine ⟨t, rfl, by omega, ?_⟩
    have hlt : t % 2 ^ 32 < 2 ^ 32 := Int.emod_lt_of_pos t (by norm_num)
    rw [timestampOf] at heq
    omega

/-- The mailbox is read as it is meant exactly if the clock was known at the last
recorded activation. -/
theorem Holds.means_iff (h : Holds s) : Means s ↔ ∀ tv ∈ s.recorded.getLast?, Known tv := by
  have hget : irrigationGetLastWatering s true = .ok s.sLastWatering := rfl
  cases hlast : s.recorded.getLast? with
  | none =>
      have hnil : s.recorded = [] := List.getLast?_eq_none_iff.mp hlast
      rw [Holds, hlast] at h
      refine ⟨fun _ tv htv ↦ absurd htv (by simp), fun _ ↦ ⟨?_, ?_⟩⟩
      · simp [hget, h, hnil]
      · simp [hlast]
  | some tv =>
      have hne : s.recorded ≠ [] := by
        intro hnil
        simp [hnil] at hlast
      have hvalue : s.sLastWatering = timestampOf tv := by
        rw [Holds, hlast] at h
        exact h
      simp only [Option.mem_def, Option.some.injEq, forall_eq', known_iff]
      constructor
      · rintro ⟨hnever, hmeans⟩
        obtain ⟨t, rfl, v, hv, hvt⟩ := hmeans tv hlast
        rw [hget, hvalue] at hv
        cases hv
        refine ⟨t, rfl, hvt, fun hzero ↦ hne (hnever.mp ?_)⟩
        rw [hget, hvalue, hzero]
      · rintro ⟨t, rfl, hvt, hzero⟩
        refine ⟨?_, ?_⟩
        · rw [hget, hvalue, Except.ok.injEq]
          exact ⟨fun h ↦ absurd h hzero, fun h ↦ absurd h hne⟩
        · rintro _ hmem
          cases hlast.symm.trans hmem
          exact ⟨t, rfl, _, by rw [hget, hvalue], hvt⟩

/-! ## Runs -/

/-- A run of `irrigation_loop` and the other threads. -/
def run (acts : List Action) : Option State := exec step (fun _ _ ↦ true) .boot acts

theorem run_append {acts acts' : List Action} (h : run acts = some s) :
    run (acts ++ acts') = exec step (fun _ _ ↦ true) s acts' := by
  have h : exec step (fun _ _ ↦ true) .boot acts = some s := h
  rw [run, exec_append, h, Option.bind_some]

theorem run_snoc {acts : List Action} (h : run (acts ++ [a]) = some t) :
    ∃ s, run acts = some s ∧ step s a = some t := by
  rw [run, exec_append] at h
  obtain ⟨s, hs, hlast⟩ := Option.bind_eq_some_iff.mp h
  refine ⟨s, hs, ?_⟩
  simpa [exec] using hlast

theorem holds_run {acts : List Action} (h : run acts = some s) : Holds s := by
  have hboot : Holds .boot := rfl
  exact (exec_steps h).invariant hboot fun _ _ _ hs _ hstep ↦ hs.step hstep

/-- Each activation was the last one recorded in some state of the run. -/
theorem was_last {acts : List Action} (h : run acts = some s) (htv : tv ∈ s.recorded) :
    ∃ past t, past <+: acts ∧ run past = some t ∧ t.recorded.getLast? = some tv := by
  induction acts using List.reverseRecOn generalizing s with
  | nil =>
      cases h
      cases htv
  | append_singleton acts a ih =>
      obtain ⟨m, hm, hstep⟩ := run_snoc h
      have hold : tv ∈ m.recorded →
          ∃ past t, past <+: acts ++ [a] ∧ run past = some t ∧ t.recorded.getLast? = some tv := by
        intro hmem
        obtain ⟨past, t, hpast, ht, hlast⟩ := ih hm hmem
        exact ⟨past, t, hpast.trans (List.prefix_append _ _), ht, hlast⟩
      rcases step_cases hstep with ⟨-, hrecorded⟩ | ⟨tv', -, -, hrecorded⟩
      · exact hold (hrecorded ▸ htv)
      · rw [hrecorded] at htv
        rcases List.mem_append.mp htv with hmem | hmem
        · exact hold hmem
        · rw [List.mem_singleton.mp hmem]
          refine ⟨acts ++ [a], s, List.prefix_rfl, h, ?_⟩
          rw [hrecorded, List.getLast?_concat]

theorem recorded_mono {past acts : List Action} (hpast : past <+: acts) (ht : run past = some t)
    (hs : run acts = some s) : t.recorded <+: s.recorded := by
  obtain ⟨rest, rfl⟩ := hpast
  rw [run_append ht] at hs
  refine (exec_steps hs).invariant (I := fun s ↦ t.recorded <+: s.recorded) List.prefix_rfl ?_
  intro s a u hprefix _ hstep
  rcases step_cases hstep with ⟨-, hrecorded⟩ | ⟨tv, -, -, hrecorded⟩
  · rwa [hrecorded]
  · rw [hrecorded]
    exact hprefix.trans (List.prefix_append _ _)

/-- In all states of a run the mailbox is read as it is meant exactly if the clock was
known at every activation that the run recorded. -/
theorem watering_mailbox {acts : List Action} (h : run acts = some s) :
    (∀ past t, past <+: acts → run past = some t → Means t) ↔ ∀ tv ∈ s.recorded, Known tv := by
  constructor
  · intro hmeans tv htv
    obtain ⟨past, t, hpast, ht, hlast⟩ := was_last h htv
    exact (holds_run ht).means_iff.mp (hmeans past t hpast ht) tv hlast
  · intro hknown past t hpast ht
    refine (holds_run ht).means_iff.mpr fun tv htv ↦ hknown tv ?_
    exact (recorded_mono hpast ht h).subset (List.mem_of_getLast? htv)

/-- One dry reading at second 1700000000, with a threshold update and a read in between. -/
theorem watering_mailbox_activation :
    (run [.get, .sense (.ok 250), .clock (some 1700000000), .update none, .evaluate, .record,
      .get]).isSome = true ∧
    ∀ past t, past <+: [.get, .sense (.ok 250), .clock (some 1700000000), .update none,
      .evaluate, .record, .get] → run past = some t → Means t := by
  have hrun : run [.get, .sense (.ok 250), .clock (some 1700000000), .update none, .evaluate,
      .record, .get] = some ⟨.boot, 1700000000, .head, [some 1700000000],
        [.display true, .on, .wait 2500, .off, .display false]⟩ := by
    decide
  refine ⟨by rw [hrun]; rfl, (watering_mailbox hrun).mpr fun tv htv ↦ ?_⟩
  exact ⟨1700000000, List.mem_singleton.mp htv, by norm_num, by norm_num⟩

/-- A watering while the clock is not set: the mailbox still reads 0, never watered. -/
theorem watering_lost_without_clock :
    ¬∀ acts s, run acts = some s → Means s := by
  intro hall
  have hrun : run [.sense (.ok 250), .clock none, .evaluate, .record] =
      some ⟨.boot, 0, .head, [none],
        [.display true, .on, .wait 2500, .off, .display false]⟩ := by
    decide
  have hnil := (hall _ _ hrun).never.mp rfl
  cases hnil

end PlantNode.Irrigation
