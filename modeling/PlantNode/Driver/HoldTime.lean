import PlantNode.Driver.Confinement
import PlantNode.Driver.Sleepers
import PlantNode.Driver.TableSteps

/-!
# Hold times and ticks

A hold time is checked in milliseconds and kept in ticks.  One that is shorter than a
tick gives a reservation that has expired when it is made, and a batch that rests on it
is aborted before its first transfer.
-/

namespace PlantNode.Driver

open Foundation

/-- A tick lasts `tickMs` milliseconds. -/
def MS_TO_TICKS (tickMs ms : ℕ) : ℕ := ms / tickMs

/-- The hold time is at least one tick, and its end is before the end of the tick
counter. -/
def Lasts (tickMs holdMs now : ℕ) : Prop :=
  tickMs ≤ holdMs ∧ now + holdMs / tickMs < 2 ^ 64

instance (tickMs holdMs now : ℕ) : Decidable (Lasts tickMs holdMs now) :=
  inferInstanceAs (Decidable (_ ∧ _))

section HoldTime

variable {msToTicks : ℕ → ℕ} {tickMs holdMs now : ℕ} {s t : State} {me : ThreadId} {b : Batch}

theorem deadline_gt_iff (htick : 1 ≤ tickMs) (hhold : holdMs < 2 ^ 64) (hnow : now < 2 ^ 64) :
    now < (now + MS_TO_TICKS tickMs holdMs) % 2 ^ 64 ↔ Lasts tickMs holdMs now := by
  have hpos : 0 < holdMs / tickMs ↔ tickMs ≤ holdMs := Nat.div_pos_iff.trans (by omega)
  have hticks : holdMs / tickMs < 2 ^ 64 := (Nat.div_le_self _ _).trans_lt hhold
  rw [Lasts, ← hpos, MS_TO_TICKS]
  generalize holdMs / tickMs = ticks at hticks ⊢
  omega

theorem Request.holdMs_lt {id : ℕ} {request : Request} {c : Claim} {tm : Timeout}
    (h : request.start id = .ok (.reserving c tm)) : c.holdMs < 2 ^ 32 := by
  cases Request.starts h with
  | transact dev steps t cap l haccept => exact cap.maxBatchMs.toNat_lt.trans (by decide)
  | leaseAcquire dev durationMs t cap holdMs haccept => exact holdMs.toNat_lt

/-- The deadline of a fresh claim. -/
theorem claimed_deadline (htick : 1 ≤ tickMs) {id : ℕ} {request : Request} {c : Claim}
    {tm : Timeout} (hstart : request.start id = .ok (.reserving c tm)) (hnow : now < 2 ^ 64)
    {r r' : Reservations} {slot : Slot} {entry : Reservation} {woke : Bool}
    (h : reserveLocked (MS_TO_TICKS tickMs) me c.cap.address c.holdMs c.isLease now r =
      (.claimed slot entry, r', woke)) :
    now < entry.deadlineTick ↔ Lasts tickMs c.holdMs now := by
  obtain ⟨o, r'', heq, hspec⟩ := reserveLocked_spec (MS_TO_TICKS tickMs) me c.cap.address
    c.holdMs c.isLease now r
  rw [heq] at h
  cases h
  cases hspec
  exact deadline_gt_iff htick ((Request.holdMs_lt hstart).trans (by decide)) hnow

theorem clock_lt (h : Reachable (step msToTicks) .boot s) : s.clock < 2 ^ 64 := by
  refine h.invariant (I := fun s ↦ s.clock < 2 ^ 64) (by simp [State.boot]) ?_
  intro s a t hs _ hstep
  rcases (step_trans msToTicks hstep).clock with heq | ⟨-, -, hlt, -⟩
  · rwa [heq]
  · exact hlt

/-! ## A batch that nothing disturbs -/

/-- From the call of a thread on, only this thread acts, and its transfers succeed. -/
def Alone (msToTicks : ℕ → ℕ) (s : State) (me : ThreadId) (request : Request) (t : State) :
    Prop :=
  ∃ s₁, step msToTicks s (.call me request) = some s₁ ∧
    Steps (step msToTicks) (fun _ a ↦ a = .run me true) s₁ t

def WellFormed (steps : List I2CStep) : Prop :=
  ∀ st ∈ steps, st.kind ≠ I2cDelay ∧ st.malformed = false

instance (steps : List I2CStep) : Decidable (WellFormed steps) :=
  List.decidableBAll _ steps

/-- The claim finds the reservation to be the thread's own, or makes one that lasts. -/
def Grants (msToTicks : ℕ → ℕ) (s : State) (me : ThreadId) (c : Claim) : Prop :=
  Holding s me c.cap.address ∨
    (UniqueActive s.reservations ∧ Vacant s c.cap.address ∧
      s.clock < (s.clock + msToTicks c.holdMs) % 2 ^ 64)

/-- Where a thread that runs a well-formed batch by itself is. -/
def OnCourse (msToTicks : ℕ → ℕ) (s : State) (me : ThreadId) : Pc → Prop
  | .reserving c _ => ∃ steps, c.steps = some steps ∧ WellFormed steps ∧ Grants msToTicks s me c
  | .reserved b => Holding s me b.cap.address ∧ WellFormed b.steps
  | .running b _ rest => Holding s me b.cap.address ∧ WellFormed rest
  | .transferring b _ st rest =>
      Holding s me b.cap.address ∧ st.malformed = false ∧ WellFormed rest
  | .finishing _ _ ret => ret ≠ .error .ETIMEDOUT
  | .idle => True
  | _ => False

theorem Grants.ours_of_found {c : Claim} {e : Reservation} (h : Grants msToTicks s me c)
    (found : holder c.cap.address (expireLocked s.clock s.reservations).1 = some e) :
    e.owner = me := by
  rcases h with hhold | ⟨-, hvacant, -⟩
  · obtain ⟨e', he', howner, -⟩ := hhold.expired
    rw [found] at he'
    exact Option.some.inj he' ▸ howner
  · rw [hvacant.unheld] at found
    cases found

theorem Move.onCourse {pc pc' : Pc} {r : Reservations} {woke : Bool}
    (h : Move s me pc pc' r woke) (hpc : OnCourse msToTicks s me pc) :
    OnCourse msToTicks ((s.commit r woke).setPc me pc') me pc' := by
  cases h with
  | held c tm seen found theirs =>
      obtain ⟨steps, -, -, hgrants⟩ := hpc
      exact absurd (hgrants.ours_of_found found) theirs
  | raced => exact hpc.elim
  | refused => exact hpc.elim
  | slept => exact hpc.elim
  | leaseRead b => exact ⟨hpc.1.of_eq rfl rfl, hpc.2⟩
  | done => simp [OnCourse]
  | delayed b lease st rest delay => exact absurd delay (hpc.2 st List.mem_cons_self).1
  | nullBuffer b lease st rest bus null =>
      have hgood := (hpc.2 st List.mem_cons_self).2
      simp [I2CStep.malformed, null] at hgood
  | verified b lease st rest e bus nonnull found ours =>
      obtain ⟨hhold, hgood⟩ := hpc
      exact ⟨hhold.of_expired rfl rfl, (hgood st List.mem_cons_self).2,
        fun y hy ↦ hgood y (List.mem_cons_of_mem _ hy)⟩
  | lost b lease st rest bus nonnull gone =>
      obtain ⟨e, he, howner, -⟩ := hpc.1.expired
      exact absurd howner (gone e he)
  | malformed b lease st rest bad =>
      have hgood := hpc.2.1
      rw [bad] at hgood
      cases hgood

theorem Return.onCourse {pc : Pc} {call : ℕ} {ret : Ret} {r : Reservations} {woke : Bool}
    (h : Return s me pc call ret r woke) (hpc : OnCourse msToTicks s me pc) :
    ret ≠ .error .ETIMEDOUT := by
  cases h with
  | full => simp
  | timedOut => exact hpc.elim
  | keptLease => exact hpc
  | released => exact hpc
  | leaseReleased => exact hpc.elim

theorem OnCourse.granted {c : Claim} {steps : List I2CStep} (hsteps : c.steps = some steps)
    (hgood : WellFormed steps) (h : Holding s me c.cap.address) :
    OnCourse msToTicks (s.granted me c) me ((s.granted me c).threads me) := by
  simp only [State.granted, hsteps, State.setPc_threads, Function.update_self]
  exact ⟨h.of_eq rfl rfl, hgood⟩

/-- A step of the thread keeps it on course, and does not abort it. -/
theorem onCourse_step (hpc : OnCourse msToTicks s me (s.threads me))
    (hstep : step msToTicks s (.run me true) = some t) :
    OnCourse msToTicks t me (t.threads me) ∧
      ∀ id, .returned id me (.error .ETIMEDOUT) ∈ t.trace →
        .returned id me (.error .ETIMEDOUT) ∈ s.trace := by
  cases step_trans _ hstep with
  | moved me ok at_ move =>
      rw [at_] at hpc
      refine ⟨?_, fun id h ↦ h⟩
      have hcourse := move.onCourse hpc
      rwa [State.setPc_threads, Function.update_self]
  | claimed me ok c tm i at_ vacant free =>
      rw [at_] at hpc
      obtain ⟨steps, hsteps, hgood, hgrants⟩ := hpc
      rcases hgrants with hhold | ⟨hu, hvacant, hlive⟩
      · obtain ⟨e, he, -⟩ := hhold.expired
        simp [holder, vacant] at he
      · have hheld := (holder_claim (a := c.cap.address)
          (e := claimEntry msToTicks me c.cap.address c.holdMs c.isLease s.clock)
          (hu.expire s.clock) vacant free rfl).trans (if_pos rfl)
        refine ⟨.granted hsteps hgood ⟨(hu.expire _).claim vacant, _, hheld, rfl, hlive⟩, ?_⟩
        exact fun id h ↦ mem_of_mem_snoc (State.mem_of_granted (by simp) h) (by simp)
  | reentered me ok c tm e at_ found ours =>
      rw [at_] at hpc
      obtain ⟨steps, hsteps, hgood, hgrants⟩ := hpc
      rcases hgrants with hhold | ⟨-, hvacant, -⟩
      · exact ⟨.granted hsteps hgood (hhold.of_expired rfl rfl),
          fun id h ↦ State.mem_of_granted (s := s.commit _ _) (by simp) h⟩
      · rw [hvacant.unheld] at found
        cases found
  | transferred me ok b lease st rest at_ good =>
      rw [at_] at hpc
      obtain ⟨hhold, -, hgood⟩ := hpc
      refine ⟨?_, fun id h ↦ mem_of_mem_snoc h (by simp)⟩
      rw [State.setPc_threads, Function.update_self]
      exact ⟨hhold.of_eq rfl rfl, hgood⟩
  | returned me ok at_ done =>
      rw [at_] at hpc
      refine ⟨by simp [State.finish, OnCourse], fun id h ↦ mem_of_mem_snoc h ?_⟩
      have hret := done.onCourse hpc
      simpa using fun _ ↦ hret.symm

/-- A batch that nothing disturbs is not aborted, if its reservation lasts. -/
theorem Alone.not_aborted {cap : I2CDeviceCap} {steps : List I2CStep} {tm : Timeout}
    (hreach : Reachable (step msToTicks) .boot s) (hidle : s.threads me = .idle)
    (haccept : acceptBatch (some cap) (some steps) = .ok (cap, steps))
    (hgood : WellFormed steps)
    (hgrants : Grants msToTicks s me ⟨s.calls, cap, cap.maxBatchMs.toNat, some steps⟩)
    (h : Alone msToTicks s me (.transact (some cap) (some steps) tm) t) :
    .returned s.calls me (.error .ETIMEDOUT) ∉ t.trace := by
  obtain ⟨s₁, hcall, hsteps⟩ := h
  rw [batch_called msToTicks hidle tm haccept] at hcall
  cases hcall
  have hnew : .returned s.calls me (.error .ETIMEDOUT) ∉ s.trace := fun hmem ↦
    absurd ((Ledger.reachable hreach).numbered _ hmem _ rfl) (lt_irrefl _)
  refine (hsteps.invariant (I := fun t ↦ OnCourse msToTicks t me (t.threads me) ∧
    .returned s.calls me (.error .ETIMEDOUT) ∉ t.trace) ⟨?_, ?_⟩ ?_).2
  · rw [State.setPc_threads, Function.update_self]
    refine ⟨steps, rfl, hgood, ?_⟩
    rcases hgrants with hhold | ⟨hu, hvacant, hlive⟩
    · exact .inl (hhold.of_eq rfl rfl)
    · exact .inr ⟨hu, ⟨hvacant.unheld, hvacant.free⟩, hlive⟩
  · exact fun hmem ↦ hnew (mem_of_mem_snoc hmem (by simp))
  · rintro u a v ⟨hpc, hclean⟩ rfl hstep
    obtain ⟨hpc', hback⟩ := onCourse_step hpc hstep
    exact ⟨hpc', fun hmem ↦ hclean (hback _ hmem)⟩

/-- The check before a transfer finds no reservation. -/
theorem lost_step (msToTicks : ℕ → ℕ) {lease : Bool} {st : I2CStep} {rest : List I2CStep}
    (hpc : s.threads me = .running b lease (st :: rest))
    (hgood : st.kind ≠ I2cDelay ∧ st.malformed = false)
    (hgone : holder b.cap.address (expireLocked s.clock s.reservations).1 = none) :
    ∃ t, step msToTicks s (.run me true) = some t ∧
      t.threads me = .finishing b lease (.error .ETIMEDOUT) := by
  have hbuf := I2CStep.buffer_of_good hgood.2
  have htheirs : ¬(stillOursLocked me b.cap.address s.clock s.reservations).1 = true := by
    rw [stillOursLocked_iff, hgone]
    simp
  refine ⟨(s.commit (expireLocked s.clock s.reservations).1
    (expireLocked s.clock s.reservations).2).setPc me (.finishing b lease (.error .ETIMEDOUT)),
    ?_, by simp⟩
  simp only [step, runThread, hpc, loopStep, if_neg hgood.1, hbuf, Bool.false_eq_true, ↓reduceIte]
  exact congrArg some (if_neg htheirs)

/-- A batch whose reservation has expired when it is made is aborted. -/
theorem exists_aborted (msToTicks : ℕ → ℕ) {cap : I2CDeviceCap} {steps : List I2CStep}
    (tm : Timeout) (hidle : s.threads me = .idle) (hu : UniqueActive s.reservations)
    (haccept : acceptBatch (some cap) (some steps) = .ok (cap, steps))
    (hgood : WellFormed steps) (hvacant : Vacant s cap.address)
    (hdead : (s.clock + msToTicks cap.maxBatchMs.toNat) % 2 ^ 64 ≤ s.clock) :
    ∃ t, Alone msToTicks s me (.transact (some cap) (some steps) tm) t ∧
      .returned s.calls me (.error .ETIMEDOUT) ∈ t.trace := by
  obtain ⟨st, rest, rfl⟩ : ∃ st rest, steps = st :: rest := by
    cases steps with
    | nil => cases haccept
    | cons st rest => exact ⟨st, rest, rfl⟩
  let b : Batch := ⟨s.calls, cap, st :: rest⟩
  let c : Claim := ⟨s.calls, cap, cap.maxBatchMs.toNat, some (st :: rest)⟩
  let s₁ := (s.opened me (.transact (some cap) (some (st :: rest)) tm)).setPc me (.reserving c tm)
  have hpc₁ : s₁.threads me = .reserving c tm := by simp [s₁]
  obtain ⟨m, i, hclaim, -, hclock, -, hmu, hheld⟩ := claim_step msToTicks hpc₁ hu
    ⟨hvacant.unheld, hvacant.free⟩
  let s₂ := m.granted me c
  have hpc₂ : s₂.threads me = .reserved b := by simp [s₂, State.granted, c, b]
  let lease := weHoldLeaseLocked cap.address s₂.reservations
  let s₃ := s₂.setPc me (.running b lease (st :: rest))
  have hread : step msToTicks s₂ (.run me true) = some s₃ := by
    simp [step, runThread, hpc₂, s₃, lease, b]
  -- the entry is stale when the loop looks at it
  have hgone : holder cap.address (expireLocked s₃.clock s₃.reservations).1 = none := by
    have hheld₃ : holder cap.address s₃.reservations =
      some (claimEntry msToTicks me cap.address cap.maxBatchMs.toNat false s.clock) := hheld
    have hclock₃ : s₃.clock = s.clock := hclock
    rw [holder_expire (show UniqueActive s₃.reservations from hmu), hheld₃, hclock₃]
    simpa [claimEntry] using hdead
  have hpc₃ : s₃.threads me = .running b lease (st :: rest) := by simp [s₃]
  obtain ⟨s₄, hlost, hpc₄⟩ := lost_step msToTicks hpc₃ (hgood st List.mem_cons_self) hgone
  obtain ⟨t, hfinish, htrace⟩ := finish_step msToTicks hpc₄
  refine ⟨t, ⟨s₁, batch_called msToTicks hidle tm haccept, ?_⟩, by simp [htrace, b]⟩
  exact .next _ (.next _ (.next _ (.next _ .init rfl hclaim) rfl hread) rfl hlost) rfl hfinish

/-- Whatever is claimed, for however long the code accepts and whenever, the claim outlasts
its tick exactly when its hold time lasts; then, and only then, a well-formed batch that
claims its device is not aborted while nothing else happens.  A batch within a reservation
that the thread already has never is. -/
theorem claim_lasts_iff (htick : 1 ≤ tickMs) :
    (∀ id request c tm, Request.start id request = .ok (.reserving c tm) →
      ∀ me now r slot entry r' woke, now < 2 ^ 64 →
        reserveLocked (MS_TO_TICKS tickMs) me c.cap.address c.holdMs c.isLease now r =
          (.claimed slot entry, r', woke) →
        (now < entry.deadlineTick ↔ Lasts tickMs c.holdMs now)) ∧
    ∀ s, Reachable (step (MS_TO_TICKS tickMs)) .boot s → ∀ me cap steps tm,
      s.threads me = .idle → acceptBatch (some cap) (some steps) = .ok (cap, steps) →
      WellFormed steps →
        (Vacant s cap.address →
          ((∀ t, Alone (MS_TO_TICKS tickMs) s me (.transact (some cap) (some steps) tm) t →
            .returned s.calls me (.error .ETIMEDOUT) ∉ t.trace) ↔
              Lasts tickMs cap.maxBatchMs.toNat s.clock)) ∧
        (Holding s me cap.address →
          ∀ t, Alone (MS_TO_TICKS tickMs) s me (.transact (some cap) (some steps) tm) t →
            .returned s.calls me (.error .ETIMEDOUT) ∉ t.trace) := by
  refine ⟨fun id request c tm hstart me now r slot entry r' woke hnow h ↦
    claimed_deadline htick hstart hnow h, ?_⟩
  intro s hs me cap steps tm hidle haccept hgood
  refine ⟨fun hvacant ↦ ?_, fun hhold t ↦
    Alone.not_aborted hs hidle haccept hgood (.inl hhold)⟩
  have hu := reachable_unique hs
  have hlive : s.clock < (s.clock + MS_TO_TICKS tickMs cap.maxBatchMs.toNat) % 2 ^ 64 ↔
      Lasts tickMs cap.maxBatchMs.toNat s.clock :=
    deadline_gt_iff htick (cap.maxBatchMs.toNat_lt.trans (by decide)) (clock_lt hs)
  rw [← hlive]
  constructor
  · intro hnever
    by_contra hdead
    obtain ⟨t, halone, haborted⟩ :=
      exists_aborted _ tm hidle hu haccept hgood hvacant (not_lt.mp hdead)
    exact hnever t halone haborted
  · exact fun hlive t ↦ Alone.not_aborted hs hidle haccept hgood (.inr ⟨hu, hvacant, hlive⟩)

/-- With ticks of 10 ms, a hold of 150 ms lasts. -/
theorem claim_lasts_plantnode : 1 ≤ 10 ∧ ∀ t,
    Alone (MS_TO_TICKS 10) .boot 0
      (.transact (some ⟨0x38, 3, 0, 8, 150, 0⟩) (some [⟨0, 3, 0, some 1⟩]) .unlimited) t →
      .returned 0 0 (.error .ETIMEDOUT) ∉ t.trace := by
  refine ⟨by decide, ?_⟩
  have hbatch := (claim_lasts_iff (by decide : 1 ≤ 10)).2 .boot .init 0
    ⟨0x38, 3, 0, 8, 150, 0⟩ [⟨0, 3, 0, some 1⟩] .unlimited rfl rfl (by decide)
  exact (hbatch.1 (vacant_of_boot rfl _)).mpr (by decide)

/-- A hold of 5 ms is no tick of 10 ms: the batch is aborted by its own deadline. -/
theorem aborted_within_tick :
    ¬∀ cap steps, acceptBatch (some cap) (some steps) = .ok (cap, steps) → WellFormed steps →
      ∀ tm t, Alone (MS_TO_TICKS 10) .boot 0 (.transact (some cap) (some steps) tm) t →
        .returned 0 0 (.error .ETIMEDOUT) ∉ t.trace := by
  intro hall
  let cap : I2CDeviceCap := ⟨0x38, 3, 0, 8, 5, 0⟩
  let steps : List I2CStep := [⟨0, 3, 0, some 1⟩]
  have hidle : State.boot.threads 0 = .idle := rfl
  have haccept : acceptBatch (some cap) (some steps) = .ok (cap, steps) := by decide
  have hgood : WellFormed steps := by decide
  obtain ⟨t, halone, haborted⟩ := exists_aborted (MS_TO_TICKS 10) .unlimited hidle
    uniqueActive_boot haccept hgood (vacant_of_boot rfl _) (by decide)
  exact hall cap steps haccept hgood .unlimited t halone haborted

end HoldTime

end PlantNode.Driver
