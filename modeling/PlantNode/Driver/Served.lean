import PlantNode.Driver.Capacity

/-!
# Calls that are always served

Callers that make well-formed batches under their own capability and wait as long as it
takes: the driver turns none of them away, and what a call returns tells exactly what it
did on the bus.
-/

namespace PlantNode.Driver

open Foundation

/-- A well-formed batch under one of the capabilities, with an unlimited timeout. -/
def Request.Sound (caps : Set I2CDeviceCap) (request : Request) : Prop :=
  ∃ cap steps, request = .transact (some cap) (some steps) .unlimited ∧ cap ∈ caps ∧
    acceptBatch (some cap) (some steps) = .ok (cap, steps) ∧ Passed steps

def Soundly (caps : Set I2CDeviceCap) (_ : State) : Action → Prop
  | .call _ request => request.Sound caps
  | _ => True

/-- In a batch, or waiting for one without a timeout. -/
def Pc.Patient : Pc → Prop
  | .reserving c t => t = .unlimited ∧ c.isLease = false
  | .waiting c t _ _ => t = .unlimited ∧ c.isLease = false
  | .asleep c t _ _ => t = .unlimited ∧ c.isLease = false
  | .timedOut _ => False
  | .releasing .. => False
  | _ => True

variable {msToTicks : ℕ → ℕ} {s t : State} {a : Action} {me u : ThreadId} {pc pc' : Pc}
  {r : Reservations} {woke : Bool} {caps : Set I2CDeviceCap}

/-! ## Patience -/

theorem Pc.Patient.onWake (h : pc.Patient) (now : ℕ) : (pc.onWake now).Patient := by
  cases pc with
  | asleep c t since seen =>
      obtain ⟨rfl, hlease⟩ := h
      exact ⟨rfl, hlease⟩
  | _ => exact h

theorem Pc.Patient.onTick (h : pc.Patient) (now : ℕ) : (pc.onTick now).Patient := by
  cases pc with
  | asleep c t since seen =>
      obtain ⟨rfl, hlease⟩ := h
      exact ⟨rfl, hlease⟩
  | _ => exact h

theorem Pc.Patient.commit (h : (s.threads u).Patient) (r : Reservations) (woke : Bool) :
    ((s.commit r woke).threads u).Patient := by
  cases woke with
  | false => exact h
  | true => exact h.onWake s.clock

theorem Move.patient (h : Move s me pc pc' r woke) (hpc : pc.Patient) : pc'.Patient := by
  cases h with
  | held c t seen found theirs => exact hpc
  | raced c t gen seen bumped => exact hpc
  | refused c gen seen => cases hpc.1
  | slept c t gen seen same block => exact hpc
  | _ => trivial

/-- What holds of one thread after its own step and stays in the steps of the others holds
of all. -/
theorem patient_update {threads : ThreadId → Pc} (h : ∀ u, (threads u).Patient)
    (hpc : pc.Patient) : ∀ u, (Function.update threads me pc u).Patient := by
  intro u
  by_cases hu : u = me
  · subst hu
    rwa [Function.update_self]
  · rw [Function.update_of_ne hu]
    exact h u

theorem patient_granted (h : ∀ u, (s.threads u).Patient) (c : Claim) :
    ∀ u, ((s.granted me c).threads u).Patient := by
  unfold State.granted
  cases c.steps with
  | none => exact patient_update h trivial
  | some steps => exact patient_update h trivial

theorem Trans.patient (h : Trans msToTicks s a t) (hwell : Soundly caps s a)
    (hs : ∀ u, (s.threads u).Patient) : ∀ u, (t.threads u).Patient := by
  cases h with
  | tick fits => exact fun u ↦ (hs u).onTick _
  | rejected me request e at_ refused => exact patient_update hs trivial
  | started me request pc at_ accepted =>
      refine patient_update hs ?_
      obtain ⟨cap, steps, rfl, -, haccept, -⟩ := hwell
      simp only [Request.start, haccept] at accepted
      cases accepted
      exact ⟨rfl, rfl⟩
  | moved me ok at_ move =>
      exact patient_update (fun u ↦ (hs u).commit _ _) (move.patient (at_ ▸ hs me))
  | claimed me ok c tm i at_ vacant free =>
      apply patient_granted
      intro u
      rw [State.emit_threads]
      exact (hs u).commit _ _
  | reentered me ok c tm e at_ found ours => exact patient_granted (fun u ↦ (hs u).commit _ _) c
  | transferred me ok b lease st rest at_ good =>
      refine patient_update hs ?_
      cases ok <;> trivial
  | returned me ok at_ done =>
      refine patient_update (fun u ↦ ?_) trivial
      rw [State.emit_threads]
      exact (hs u).commit _ _

theorem all_patient (h : Steps (step msToTicks) (Soundly caps) .boot s) :
    ∀ u, (s.threads u).Patient :=
  h.invariant (I := fun s ↦ ∀ u, (s.threads u).Patient) (fun _ ↦ trivial)
    fun _ _ _ hs hwell hstep ↦ (step_trans msToTicks hstep).patient hwell hs

/-! ## Returns -/

theorem Request.Sound.start {request : Request} (h : request.Sound caps) (id : ℕ) :
    ∃ pc, request.start id = .ok pc := by
  obtain ⟨cap, steps, rfl, -, haccept, -⟩ := h
  exact ⟨_, by simp only [Request.start, haccept]; rfl⟩

theorem sealed_of_sound (h : Soundly caps s a) : Sealed caps s a := by
  cases a with
  | call me request =>
      obtain ⟨cap, steps, rfl, hcap, -⟩ := h
      rintro cap' ⟨⟩
      exact hcap
  | _ => trivial

theorem State.called_of_granted {s : State} {c : Claim} {id : ℕ} {request : Request}
    (h : .called id u request ∈ (s.granted me c).trace) : .called id u request ∈ s.trace := by
  unfold State.granted at h
  split at h
  · exact mem_of_mem_snoc h (by simp)
  · exact mem_of_mem_snoc h (by simp)

theorem Trans.called_from (h : Trans msToTicks s a t) {id : ℕ} {u : ThreadId}
    {request : Request} (hcalled : .called id u request ∈ t.trace) :
    .called id u request ∈ s.trace ∨ id = s.calls ∧ a = .call u request := by
  cases h with
  | tick fits => exact .inl hcalled
  | rejected me request' e at_ refused =>
      rcases List.mem_append.mp (mem_of_mem_snoc hcalled (by simp)) with hold | hnew
      · exact .inl hold
      · cases List.mem_singleton.mp hnew
        exact .inr ⟨rfl, rfl⟩
  | started me request' pc at_ accepted =>
      rcases List.mem_append.mp hcalled with hold | hnew
      · exact .inl hold
      · cases List.mem_singleton.mp hnew
        exact .inr ⟨rfl, rfl⟩
  | moved me ok at_ move => exact .inl hcalled
  | claimed me ok c tm i at_ vacant free =>
      exact .inl (mem_of_mem_snoc (State.called_of_granted hcalled) (by simp))
  | reentered me ok c tm e at_ found ours =>
      exact .inl (State.called_of_granted (s := s.commit _ _) hcalled)
  | transferred me ok b lease st rest at_ good => exact .inl (mem_of_mem_snoc hcalled (by simp))
  | returned me ok at_ done => exact .inl (mem_of_mem_snoc hcalled (by simp))

/-- The calls of a run are those it is guarded for. -/
theorem called_sound (h : Steps (step msToTicks) (Soundly caps) .boot s) :
    ∀ id me request, .called id me request ∈ s.trace → request.Sound caps := by
  refine h.invariant (I := fun s ↦ ∀ id me request, .called id me request ∈ s.trace →
    request.Sound caps) (by simp [State.boot]) ?_
  intro s a t hs hwell hstep id me request hcalled
  rcases (step_trans msToTicks hstep).called_from hcalled with hold | ⟨-, rfl⟩
  · exact hs id me request hold
  · exact hwell

/-- Every call that returned had entered its batch. -/
def ReturnsEntered (s : State) : Prop :=
  ∀ id me ret, .returned id me ret ∈ s.trace → ∃ b, .entered me b ∈ s.trace ∧ b.call = id

theorem ReturnsEntered.append (h : ReturnsEntered s) {new : List Event}
    (htrace : t.trace = s.trace ++ new) (hnew : ∀ id me ret, .returned id me ret ∉ new) :
    ReturnsEntered t := by
  intro id me ret hreturned
  rw [htrace] at hreturned ⊢
  rcases List.mem_append.mp hreturned with hold | hmem
  · obtain ⟨b, hentered, hcall⟩ := h id me ret hold
    exact ⟨b, List.mem_append_left _ hentered, hcall⟩
  · exact (hnew id me ret hmem).elim

theorem trace_granted (s : State) (me : ThreadId) {c : Claim} (hlease : c.isLease = false) :
    ∃ b, (s.granted me c).trace = s.trace ++ [.entered me b] := by
  unfold State.granted
  cases hsteps : c.steps with
  | none => simp [Claim.isLease, hsteps] at hlease
  | some steps => exact ⟨_, rfl⟩

theorem Trans.returnsEntered (h : Trans msToTicks s a t) (hwell : Soundly caps s a)
    (haddresses : (I2CDeviceCap.address '' caps).encard ≤ MaxReservations)
    (hs : Steps (step msToTicks) (Soundly caps) .boot s) (hr : ReturnsEntered s) :
    ReturnsEntered t := by
  have hpatient := all_patient hs
  have hledger := Ledger.reachable hs.reachable
  have hlease : ∀ {me c tm}, s.threads me = .reserving c tm → c.isLease = false := by
    intro me c tm hpc
    have hme := hpatient me
    rw [hpc] at hme
    exact hme.2
  cases h with
  | tick fits => exact hr
  | rejected me request e at_ refused =>
      obtain ⟨pc, hpc⟩ := Request.Sound.start hwell s.calls
      cases hpc.symm.trans refused
  | started me request pc at_ accepted => exact hr.append rfl (by simp)
  | moved me ok at_ move => exact hr
  | claimed me ok c tm i at_ vacant free =>
      obtain ⟨b, htrace⟩ := trace_granted ((s.commit _ _).emit _) me (hlease at_)
      rw [State.emit_trace, State.commit_trace, List.append_assoc] at htrace
      exact hr.append htrace (by simp)
  | reentered me ok c tm e at_ found ours =>
      obtain ⟨b, htrace⟩ := trace_granted (s.commit _ _) me (hlease at_)
      exact hr.append htrace (by simp)
  | transferred me ok b lease st rest at_ good => exact hr.append rfl (by simp)
  | returned me ok at_ done =>
      have hentered : ∀ b, (s.threads me).batch? = some b → .entered me b ∈ s.trace :=
        fun b hb ↦ (hledger.batches me b hb).1
      rename_i call ret r woke
      have hnew : ∃ b, .entered me b ∈ s.trace ∧ b.call = call := by
        cases done with
        | full c tm vacant crowded =>
            have haddressed := addressed (hs.mono fun _ _ ↦ sealed_of_sound)
            exact (haddressed.not_full haddresses hs.reachable at_
              (Option.map_eq_none_iff.mp vacant) crowded).elim
        | timedOut c =>
            have hme := hpatient me
            rw [at_] at hme
            exact hme.elim
        | keptLease b result => exact ⟨b, hentered b (by rw [at_]; rfl), rfl⟩
        | released b result => exact ⟨b, hentered b (by rw [at_]; rfl), rfl⟩
        | leaseReleased call address =>
            have hme := hpatient me
            rw [at_] at hme
            exact hme.elim
      intro id me' ret hreturned
      rcases List.mem_append.mp hreturned with hold | hlast
      · obtain ⟨b, hmem, hcall⟩ := hr id me' ret hold
        exact ⟨b, List.mem_append_left _ hmem, hcall⟩
      · obtain ⟨b, hmem, hcall⟩ := hnew
        cases List.mem_singleton.mp hlast
        exact ⟨b, List.mem_append_left _ hmem, hcall⟩

theorem returnsEntered (haddresses : (I2CDeviceCap.address '' caps).encard ≤ MaxReservations)
    (h : Steps (step msToTicks) (Soundly caps) .boot s) : ReturnsEntered s := by
  have hboot : ReturnsEntered .boot := by simp [ReturnsEntered, State.boot]
  exact h.invariant_over (K := fun s ↦ Steps (step msToTicks) (Soundly caps) .boot s)
    (fun _ hs ↦ hs) hboot fun _ _ _ hs hr hwell hstep ↦
      (step_trans msToTicks hstep).returnsEntered hwell haddresses hs hr

/-- How a well-formed batch can end: every transfer was made, one failed, or the reservation
ran out before one. -/
inductive Served (me : ThreadId) (b : Batch) : Ret → List Transfer → Prop where
  | complete : Served me b (.ok ()) (b.wire me b.steps)
  | failed (pre : List I2CStep) (st : I2CStep) (post : List I2CStep)
      (split : b.steps = pre ++ st :: post) (bus : st.kind ≠ I2cDelay) :
      Served me b (.error .EIo) (b.wire me pre ++ [b.transferOf me st false])
  | lost (pre : List I2CStep) (st : I2CStep) (post : List I2CStep)
      (split : b.steps = pre ++ st :: post) (bus : st.kind ≠ I2cDelay) :
      Served me b (.error .ETIMEDOUT) (b.wire me pre)

theorem Outcome.served {b : Batch} {ret : Ret} {l : List Transfer} (h : Outcome me b ret l)
    (hpassed : Passed b.steps) : Served me b ret l := by
  cases h with
  | complete passed => exact .complete
  | invalid pre st post split passed bus bad =>
      have hst : st ∈ b.steps := by simp [split]
      rcases hpassed st hst with hdelay | hgood
      · exact (bus hdelay).elim
      · cases bad.symm.trans hgood
  | failed pre st post split passed bus good => exact .failed pre st post split bus
  | lost pre st post split passed bus => exact .lost pre st post split bus

/-- What a call that returned did, from its arguments. -/
theorem served_of_returned
    (haddresses : (I2CDeviceCap.address '' caps).encard ≤ MaxReservations)
    (h : Steps (step msToTicks) (Soundly caps) .boot s) {id : ℕ} {me : ThreadId} {ret : Ret}
    (hreturned : .returned id me ret ∈ s.trace) : ∃ b, b.call = id ∧ b.cap ∈ caps ∧
      .called id me (.transact (some b.cap) (some b.steps) .unlimited) ∈ s.trace ∧
        Served me b ret (transfersOf id s.trace) := by
  have hledger := Ledger.reachable h.reachable
  obtain ⟨b, hentered, rfl⟩ := returnsEntered haddresses h id me ret hreturned
  obtain ⟨dev, steps, tm, hcalled, haccept⟩ := hledger.requested hentered
  have hwell : ∀ id me request, .called id me request ∈ s.trace → request.Sound caps :=
    called_sound h
  obtain ⟨cap', steps', hrequest, hcap, haccept', hpassed⟩ := hwell _ _ _ hcalled
  cases hrequest
  cases haccept.symm.trans haccept'
  exact ⟨b, rfl, hcap, hcalled, (hledger.outcome_of_returned hentered hreturned).served hpassed⟩

end PlantNode.Driver
