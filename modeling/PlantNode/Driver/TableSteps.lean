import PlantNode.Driver.Ledger

/-!
# The reservation table along a run

The table of the machine moves by critical sections only, so what holds of
every run of sections holds here.  A step either leaves each active slot as it
is or deactivates it, or it is a fresh claim and leaves a `claimed` event.
-/

namespace PlantNode.Driver

open Foundation

section TableSteps

variable {msToTicks : ℕ → ℕ} {s t : State} {a : Action}

/-! ## Refinement -/

theorem State.granted_reservations (s : State) (me : ThreadId) (c : Claim) :
    (s.granted me c).reservations = s.reservations := by
  unfold State.granted
  cases c.steps <;> rfl

theorem reserveStep_reservations (msToTicks : ℕ → ℕ) (s : State) (me : ThreadId) (c : Claim)
    (tm : Timeout) : (reserveStep msToTicks s me c tm).reservations =
      (reserveLocked msToTicks me c.cap.address c.holdMs c.isLease s.clock
        s.reservations).2.1 := by
  obtain ⟨o, r', heq, -⟩ := reserveLocked_spec msToTicks me c.cap.address c.holdMs c.isLease
    s.clock s.reservations
  simp only [reserveStep, heq]
  cases o with
  | claimed slot entry => rw [State.granted_reservations]; rfl
  | full => rfl
  | reentrant => rw [State.granted_reservations]; rfl
  | held gen seen => rfl

theorem Move.section {me : ThreadId} {pc pc' : Pc} {r : Reservations} {woke : Bool}
    (msToTicks : ℕ → ℕ) (h : Move s me pc pc' r woke) :
    r = s.reservations ∨ ∃ c : Section, c.apply msToTicks s.reservations = r := by
  cases h with
  | held => exact .inr ⟨.stillOurs me 0 s.clock, rfl⟩
  | verified => exact .inr ⟨.stillOurs me 0 s.clock, rfl⟩
  | lost => exact .inr ⟨.stillOurs me 0 s.clock, rfl⟩
  | _ => exact .inl rfl

theorem Return.section {me : ThreadId} {pc : Pc} {call : ℕ} {ret : Ret} {r : Reservations}
    {woke : Bool} (msToTicks : ℕ → ℕ) (h : Return s me pc call ret r woke) :
    r = s.reservations ∨ ∃ c : Section, c.apply msToTicks s.reservations = r := by
  cases h with
  | full => exact .inr ⟨.stillOurs me 0 s.clock, rfl⟩
  | timedOut => exact .inl rfl
  | keptLease => exact .inl rfl
  | released b result => exact .inr ⟨.release me b.cap.address, rfl⟩
  | leaseReleased call address => exact .inr ⟨.release me address, rfl⟩

/-- A step of the machine is at most one critical section of the table. -/
theorem step_section (h : step msToTicks s a = some t) :
    Reachable (sectionStep msToTicks) s.reservations t.reservations := by
  have hpath : (t.reservations = s.reservations ∨
      ∃ c : Section, c.apply msToTicks s.reservations = t.reservations) →
      Reachable (sectionStep msToTicks) s.reservations t.reservations := by
    rintro (heq | ⟨c, hc⟩)
    · rw [heq]
      exact .init
    · exact .next c .init trivial (congrArg some hc)
  apply hpath
  cases step_trans msToTicks h with
  | tick fits => exact .inl rfl
  | rejected me request e at_ refused => exact .inl rfl
  | started me request pc at_ accepted => exact .inl rfl
  | moved me ok at_ move => exact move.section msToTicks
  | claimed me ok c tm i at_ vacant free =>
      have hstep : step msToTicks s (.run me ok) = some (reserveStep msToTicks s me c tm) := by
        simp [step, runThread, at_]
      have hsame := Option.some.inj (hstep.symm.trans h)
      refine .inr ⟨.reserve me c.cap.address c.holdMs c.isLease s.clock, ?_⟩
      rw [← hsame, reserveStep_reservations]
      rfl
  | reentered me ok c tm e at_ found ours =>
      rw [State.granted_reservations]
      exact .inr ⟨.stillOurs me 0 s.clock, rfl⟩
  | transferred me ok b lease st rest at_ good => exact .inl rfl
  | returned me ok at_ done => exact done.section msToTicks

/-- The machine refines the runs of critical sections. -/
theorem reachable_sections (h : Reachable (step msToTicks) .boot s) :
    Reachable (sectionStep msToTicks) .boot s.reservations :=
  h.simulate State.reservations fun _ _ _ _ hstep ↦ step_section hstep

theorem reachable_unique (h : Reachable (step msToTicks) .boot s) :
    UniqueActive s.reservations :=
  sectionStep_unique (reachable_sections h)

/-! ## Claims -/

def Shrinks (r r' : Reservations) : Prop :=
  ∀ i, (r'.sReservations i).active = true → r'.sReservations i = r.sReservations i

theorem expireLocked_shrinks (now : ℕ) (r : Reservations) : Shrinks r (expireLocked now r).1 :=
  fun _ hi ↦ (expireLocked_active hi).1

theorem releaseLocked_shrinks (me : ThreadId) (address : UInt8) (r : Reservations) :
    Shrinks r (releaseLocked me address r).1 := by
  intro j hj
  rcases releaseLocked_spec me address r with ⟨i, -, -, heq⟩ | ⟨-, heq⟩
  · rw [heq] at hj ⊢
    by_cases hji : j = i
    · subst hji
      simp at hj
    · exact Function.update_of_ne hji _ _
  · rw [heq]

theorem Move.shrinks {me : ThreadId} {pc pc' : Pc} {r : Reservations} {woke : Bool}
    (h : Move s me pc pc' r woke) : Shrinks s.reservations r := by
  cases h with
  | held => exact expireLocked_shrinks _ _
  | verified => exact expireLocked_shrinks _ _
  | lost => exact expireLocked_shrinks _ _
  | _ => exact fun _ _ ↦ rfl

theorem Return.shrinks {me : ThreadId} {pc : Pc} {call : ℕ} {ret : Ret} {r : Reservations}
    {woke : Bool} (h : Return s me pc call ret r woke) : Shrinks s.reservations r := by
  cases h with
  | full => exact expireLocked_shrinks _ _
  | timedOut => exact fun _ _ ↦ rfl
  | keptLease => exact fun _ _ ↦ rfl
  | released b result => exact releaseLocked_shrinks _ _ _
  | leaseReleased call address => exact releaseLocked_shrinks _ _ _

structure ClaimRecord where
  claim : Claim
  slot : Slot
  entry : Reservation
  tick : ℕ
  deriving DecidableEq, Repr

def Event.claim? : Event → Option ClaimRecord
  | .claimed c slot entry tick => some ⟨c, slot, entry, tick⟩
  | _ => none

def claimsOf (trace : List Event) : List ClaimRecord :=
  trace.filterMap Event.claim?

@[simp] theorem claimsOf_append (xs ys : List Event) :
    claimsOf (xs ++ ys) = claimsOf xs ++ claimsOf ys :=
  List.filterMap_append

def lastClaim (p : ClaimRecord → Bool) (trace : List Event) : Option ClaimRecord :=
  ((claimsOf trace).filter p).getLast?

theorem lastClaim_append (p : ClaimRecord → Bool) {l l' : List Event} {q : ClaimRecord}
    (h : claimsOf l' = claimsOf l ++ [q]) :
    lastClaim p l' = if p q then some q else lastClaim p l := by
  unfold lastClaim
  rw [h, List.filter_append]
  cases hp : p q <;> simp [hp]

theorem claimsOf_granted (s : State) (me : ThreadId) (c : Claim) :
    claimsOf (s.granted me c).trace = claimsOf s.trace := by
  unfold State.granted
  cases c.steps <;> simp [State.finish, claimsOf, Event.claim?]

def State.claimRecord (msToTicks : ℕ → ℕ) (s : State) (me : ThreadId) (c : Claim) (i : Slot) :
    ClaimRecord :=
  ⟨c, i, claimEntry msToTicks me c.cap.address c.holdMs c.isLease s.clock, s.clock⟩

/-- A step that is not a fresh claim records none and writes no slot; a fresh
claim writes one slot that `expire_locked` left free. -/
theorem Trans.claims (h : Trans msToTicks s a t) :
    (claimsOf t.trace = claimsOf s.trace ∧ Shrinks s.reservations t.reservations) ∨
    ∃ me ok c tm i, a = .run me ok ∧ s.threads me = .reserving c tm ∧
      findLocked c.cap.address (expireLocked s.clock s.reservations).1 = none ∧
      ((expireLocked s.clock s.reservations).1.sReservations i).active = false ∧
      t.reservations.sReservations =
        Function.update (expireLocked s.clock s.reservations).1.sReservations i
          (s.claimRecord msToTicks me c i).entry ∧
      claimsOf t.trace = claimsOf s.trace ++ [s.claimRecord msToTicks me c i] := by
  cases h with
  | tick fits => exact .inl ⟨rfl, fun _ _ ↦ rfl⟩
  | rejected me request e at_ refused =>
      refine .inl ⟨?_, fun _ _ ↦ rfl⟩
      simp [State.finish, State.opened, claimsOf, Event.claim?]
  | started me request pc at_ accepted =>
      refine .inl ⟨?_, fun _ _ ↦ rfl⟩
      simp [State.opened, claimsOf, Event.claim?]
  | moved me ok at_ move => exact .inl ⟨rfl, move.shrinks⟩
  | claimed me ok c tm i at_ vacant free =>
      refine .inr ⟨me, ok, c, tm, i, rfl, at_, vacant, free, ?_, ?_⟩
      · rw [State.granted_reservations]
        rfl
      · rw [claimsOf_granted]
        simp [claimsOf, Event.claim?, State.claimRecord]
  | reentered me ok c tm e at_ found ours =>
      refine .inl ⟨claimsOf_granted _ _ _, ?_⟩
      rw [State.granted_reservations]
      exact expireLocked_shrinks _ _
  | transferred me ok b lease st rest at_ good =>
      refine .inl ⟨?_, fun _ _ ↦ rfl⟩
      simp [claimsOf, Event.claim?]
  | returned me ok at_ done =>
      refine .inl ⟨?_, done.shrinks⟩
      simp [State.finish, claimsOf, Event.claim?]

/-! ## Who claimed an address last -/

def claimant (address : UInt8) (trace : List Event) : Option ThreadId :=
  (lastClaim (fun q ↦ q.entry.address == address) trace).map fun q ↦ q.entry.owner

theorem claimant_congr {l l' : List Event} (h : claimsOf l' = claimsOf l) (address : UInt8) :
    claimant address l' = claimant address l := by
  simp only [claimant, lastClaim, h]

theorem claimant_append {l l' : List Event} {me : ThreadId} {c : Claim} {i : Slot}
    (h : claimsOf l' = claimsOf l ++ [s.claimRecord msToTicks me c i]) (address : UInt8) :
    claimant address l' = if c.cap.address = address then some me else claimant address l := by
  have hentry : (s.claimRecord msToTicks me c i).entry.address = c.cap.address := rfl
  rw [claimant, lastClaim_append _ h, hentry]
  by_cases haddress : c.cap.address = address
  · rw [if_pos haddress, if_pos (beq_iff_eq.mpr haddress)]
    rfl
  · rw [if_neg haddress, if_neg fun hsame ↦ haddress (beq_iff_eq.mp hsame)]
    rfl

/-- A step leaves the claimant of an address alone, or it is a fresh claim of the
address, which no one held. -/
theorem Trans.claimant (h : Trans msToTicks s a t) (address : UInt8) :
    claimant address t.trace = claimant address s.trace ∨
      ∃ me ok c tm, a = .run me ok ∧ s.threads me = .reserving c tm ∧
        c.cap.address = address ∧
          holder address (expireLocked s.clock s.reservations).1 = none ∧
            claimant address t.trace = some me := by
  rcases h.claims with ⟨hclaims, -⟩ | ⟨me, ok, c, tm, i, ha, hpc, hvacant, -, -, hclaims⟩
  · exact .inl (claimant_congr hclaims address)
  · rw [claimant_append hclaims]
    by_cases haddress : c.cap.address = address
    · refine .inr ⟨me, ok, c, tm, ha, hpc, haddress, ?_, if_pos haddress⟩
      exact haddress ▸ Option.map_eq_none_iff.mpr hvacant
    · exact .inl (if_neg haddress)

/-- A holder after a step was the holder before it, or it is the entry that a
fresh claim has just written. -/
theorem Trans.holder_from (h : Trans msToTicks s a t) (hu : UniqueActive s.reservations)
    {address : UInt8} {e : Reservation} (he : holder address t.reservations = some e) :
    (holder address s.reservations = some e ∧
        Driver.claimant address t.trace = Driver.claimant address s.trace) ∨
      Driver.claimant address t.trace = some e.owner := by
  obtain ⟨i, hi, rfl⟩ := Option.map_eq_some_iff.mp he
  obtain ⟨hactive, rfl⟩ := findLocked_some hi
  rcases h.claims with ⟨hclaims, hshrinks⟩ |
    ⟨me, ok, c, tm, j, -, -, hvacant, -, hslots, hclaims⟩
  · have hkept := hshrinks i hactive
    rw [hkept] at hactive ⊢
    exact .inl ⟨(holder_eq_some hu).mpr ⟨i, rfl, hactive, rfl⟩, claimant_congr hclaims _⟩
  · rw [claimant_append hclaims]
    rw [hslots] at hactive ⊢
    by_cases hij : i = j
    · subst hij
      right
      simp [State.claimRecord, claimEntry]
    · rw [Function.update_of_ne hij] at hactive ⊢
      have hother := findLocked_none hvacant i hactive
      obtain ⟨hkept, hactive', -⟩ := expireLocked_active hactive
      rw [hkept] at hother ⊢
      exact .inl ⟨(holder_eq_some hu).mpr ⟨i, rfl, hactive', rfl⟩, if_neg hother.symm⟩

theorem claimant_of_holder (h : Reachable (step msToTicks) .boot s) {address : UInt8}
    {e : Reservation} (he : holder address s.reservations = some e) :
    claimant address s.trace = some e.owner := by
  refine h.invariant_over (K := fun s ↦ UniqueActive s.reservations)
    (I := fun s ↦ ∀ address e, holder address s.reservations = some e →
      claimant address s.trace = some e.owner)
    (fun _ hs ↦ reachable_unique hs) ?_ ?_ address e he
  · intro address e he
    simp [State.boot] at he
  · intro s a t hu ih _ hstep address e he
    rcases (step_trans msToTicks hstep).holder_from hu he with ⟨hold, hsame⟩ | hnew
    · exact hsame.trans (ih address e hold)
    · exact hnew

end TableSteps

end PlantNode.Driver
