import PlantNode.Driver.Reservations

/-!
# Runs of critical sections

Any thread may enter any section, for any address and at any clock value.  A
section is split where `expire_locked` returns: up to there only stale entries
can go, and after it only the owner's own `release_device` removes one.
-/

namespace PlantNode.Driver

open Foundation

/-- A critical section of the table: who enters it, with which arguments, and
the tick it reads. -/
inductive Section where
  | reserve (me : ThreadId) (address : UInt8) (holdMs : ℕ) (isLease : Bool) (now : ℕ)
  | release (me : ThreadId) (address : UInt8)
  | stillOurs (me : ThreadId) (address : UInt8) (now : ℕ)
  deriving DecidableEq, Repr

namespace Section

def caller : Section → ThreadId
  | reserve me _ _ _ _ => me
  | release me _ => me
  | stillOurs me _ _ => me

def expiresAt : Section → Option ℕ
  | reserve _ _ _ _ now => some now
  | release _ _ => none
  | stillOurs _ _ now => some now

def expired (c : Section) (r : Reservations) : Reservations :=
  match c.expiresAt with
  | some now => (expireLocked now r).1
  | none => r

def apply (msToTicks : ℕ → ℕ) (r : Reservations) : Section → Reservations
  | reserve me address holdMs isLease now =>
      (reserveLocked msToTicks me address holdMs isLease now r).2.1
  | release me address => (releaseLocked me address r).1
  | stillOurs me address now => (stillOursLocked me address now r).2.1

/-- Up to the end of `expire_locked` an active slot is kept as it is or, if its
deadline has come, deactivated. -/
theorem expired_slot (c : Section) {r : Reservations} {i : Slot}
    (hi : (r.sReservations i).active = true) :
    (c.expired r).sReservations i = r.sReservations i ∨
      ((c.expired r).sReservations i).active = false ∧
        ∃ now, c.expiresAt = some now ∧ (r.sReservations i).deadlineTick ≤ now := by
  cases hc : c.expiresAt with
  | none => simp [expired, hc]
  | some now =>
      simp only [expired, hc, expireLocked_slot]
      by_cases hs : stale now (r.sReservations i) = true
      · refine .inr ⟨by simp [hs], now, rfl, ?_⟩
        simpa [stale, hi] using hs
      · exact .inl (by simp [hs])

/-- From there to the end of the section an active slot is kept as it is, unless
the section is a release by its owner. -/
theorem apply_slot (msToTicks : ℕ → ℕ) (c : Section) {r : Reservations} {i : Slot}
    (hi : ((c.expired r).sReservations i).active = true) :
    (c.apply msToTicks r).sReservations i = (c.expired r).sReservations i ∨
      ((c.apply msToTicks r).sReservations i).active = false ∧
        c = release (r.sReservations i).owner (r.sReservations i).address := by
  cases c with
  | reserve me address holdMs isLease now =>
      obtain ⟨o, r', heq, hspec⟩ :=
        reserveLocked_spec msToTicks me address holdMs isLease now r
      simp only [apply, heq]
      simp only [expired, expiresAt] at hi ⊢
      left
      cases hspec with
      | claimed j vacant free =>
          have hij : i ≠ j := by
            rintro rfl
            simp [free] at hi
          exact Function.update_of_ne hij _ _
      | full vacant crowded => rfl
      | reentrant h held ours => rfl
      | held h held theirs => rfl
  | release me address =>
      simp only [apply]
      simp only [expired, expiresAt] at hi ⊢
      rcases releaseLocked_spec me address r with ⟨j, hfind, howner, heq⟩ | ⟨-, heq⟩
      · rw [heq]
        by_cases hij : i = j
        · subst hij
          right
          simp [howner, (findLocked_some hfind).2]
        · exact .inl (Function.update_of_ne hij _ _)
      · rw [heq]
        exact .inl rfl
  | stillOurs me address now => exact .inl rfl

theorem apply_unique (msToTicks : ℕ → ℕ) (c : Section) {r : Reservations}
    (hu : UniqueActive r) : UniqueActive (c.apply msToTicks r) := by
  cases c with
  | reserve me address holdMs isLease now =>
      obtain ⟨o, r', heq, hspec⟩ :=
        reserveLocked_spec msToTicks me address holdMs isLease now r
      simp only [apply, heq]
      exact hspec.unique (hu.expire now)
  | release me address => exact hu.release me address
  | stillOurs me address now => exact hu.expire now

end Section

/-- Every section can be entered in every state. -/
def sectionStep (msToTicks : ℕ → ℕ) (r : Reservations) (c : Section) : Option Reservations :=
  some (c.apply msToTicks r)

theorem sectionStep_unique {msToTicks : ℕ → ℕ} {r : Reservations}
    (hr : Reachable (sectionStep msToTicks) .boot r) : UniqueActive r := by
  apply hr.invariant uniqueActive_boot
  intro r c t hu _ hstep
  cases hstep
  exact c.apply_unique msToTicks hu

/-- In every reachable table each address has at most one active slot, and
across any next section an active slot keeps all its fields unless
`expire_locked` ran at or past its deadline or its owner released its address;
in particular no other thread changes it before its deadline. -/
theorem reservation_exclusive (msToTicks : ℕ → ℕ) {r : Reservations}
    (hr : Reachable (sectionStep msToTicks) .boot r) :
    UniqueActive r ∧
    ∀ (c : Section) (i : Slot), (r.sReservations i).active = true →
      ((c.expired r).sReservations i = r.sReservations i ∨
        ((c.expired r).sReservations i).active = false ∧
          ∃ now, c.expiresAt = some now ∧ (r.sReservations i).deadlineTick ≤ now) ∧
      (((c.expired r).sReservations i).active = true →
        (c.apply msToTicks r).sReservations i = r.sReservations i ∨
          ((c.apply msToTicks r).sReservations i).active = false ∧
            c = .release (r.sReservations i).owner (r.sReservations i).address) ∧
      (c.caller ≠ (r.sReservations i).owner →
        (∀ now, c.expiresAt = some now → now < (r.sReservations i).deadlineTick) →
        (c.apply msToTicks r).sReservations i = r.sReservations i) := by
  refine ⟨sectionStep_unique hr, fun c i hi ↦ ?_⟩
  have hexpired := c.expired_slot hi
  have happly : ((c.expired r).sReservations i).active = true →
      (c.apply msToTicks r).sReservations i = r.sReservations i ∨
        ((c.apply msToTicks r).sReservations i).active = false ∧
          c = .release (r.sReservations i).owner (r.sReservations i).address := by
    intro hactive
    rcases hexpired with hsame | ⟨hgone, -⟩
    · rw [← hsame]
      rw [← hsame] at hi
      have := c.apply_slot msToTicks hi
      rwa [← hsame] at this
    · simp [hgone] at hactive
  refine ⟨hexpired, happly, fun hother hearly ↦ ?_⟩
  rcases hexpired with hsame | ⟨-, now, hnow, hlate⟩
  · rcases happly (by rw [hsame, hi]) with hkeep | ⟨-, rfl⟩
    · exact hkeep
    · exact (hother rfl).elim
  · exact (Nat.not_lt.mpr hlate (hearly now hnow)).elim

theorem reservation_exclusive_after_claim :
    UniqueActive ((Section.reserve 1 0x36 20 false 5).apply id .boot) :=
  (reservation_exclusive id (.next (.reserve 1 0x36 20 false 5) .init trivial rfl)).1

end PlantNode.Driver
