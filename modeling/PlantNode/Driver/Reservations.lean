import Mathlib.Logic.Function.Basic
import PlantNode.Foundation.Run
import PlantNode.Foundation.SlotScan
import PlantNode.Driver.Types

/-!
# The device reservation table

The critical sections under `sReservationLock`, as functions on the table and
its generation word.  A section also says whether it bumped `sReservationGen`
and woke the futex, which it always does together.  What the rest of the driver
sees of the table is `holder`: the entry `find_locked` points to.
-/

namespace PlantNode.Driver

open Foundation

structure Reservation where
  active : Bool
  address : UInt8
  owner : ThreadId
  deadlineTick : ℕ
  isLease : Bool
  deriving DecidableEq, Repr

def MaxReservations : ℕ := 4

abbrev Slot := Fin MaxReservations

structure Reservations where
  sReservations : Slot → Reservation
  sReservationGen : UInt32

def Reservations.boot : Reservations :=
  ⟨fun _ ↦ ⟨false, 0, 0, 0, false⟩, 0⟩

def stale (now : ℕ) (r : Reservation) : Bool :=
  r.active && decide (r.deadlineTick ≤ now)

def expireLocked (now : ℕ) (r : Reservations) : Reservations × Bool :=
  let changed := (firstSlot fun i ↦ stale now (r.sReservations i)).isSome
  ({ sReservations := fun i ↦
        if stale now (r.sReservations i) then { r.sReservations i with active := false }
        else r.sReservations i
     sReservationGen := if changed then r.sReservationGen + 1 else r.sReservationGen },
   changed)

def findLocked (address : UInt8) (r : Reservations) : Option Slot :=
  firstSlot fun i ↦ (r.sReservations i).active && (r.sReservations i).address == address

/-- How a pass of `reserve_device` ends.  Where the address is owned by someone else, it has the
snapshot of the generation and the entry that was seen. -/
inductive ReserveOutcome where
  | claimed (slot : Slot) (entry : Reservation)
  | full
  | reentrant
  | held (gen : UInt32) (seen : Reservation)
  deriving DecidableEq, Repr

section Sections

variable (msToTicks : ℕ → ℕ)

/-- The entry a fresh claim writes; the deadline is a 64-bit sum. -/
def claimEntry (me : ThreadId) (address : UInt8) (holdMs : ℕ) (isLease : Bool) (now : ℕ) :
    Reservation :=
  ⟨true, address, me, (now + msToTicks holdMs) % 2 ^ 64, isLease⟩

/-- `reserve_device`, from taking the lock to dropping it. -/
def reserveLocked (me : ThreadId) (address : UInt8) (holdMs : ℕ) (isLease : Bool) (now : ℕ)
    (r : Reservations) : ReserveOutcome × Reservations × Bool :=
  let (r, woke) := expireLocked now r
  match findLocked address r with
  | none =>
      match firstSlot fun i ↦ !(r.sReservations i).active with
      | some i =>
          let entry := claimEntry msToTicks me address holdMs isLease now
          (.claimed i entry,
            { r with sReservations := Function.update r.sReservations i entry }, woke)
      | none => (.full, r, woke)
  | some i =>
      if (r.sReservations i).owner = me then (.reentrant, r, woke)
      else (.held r.sReservationGen (r.sReservations i), r, woke)

end Sections

/-- `release_device`. -/
def releaseLocked (me : ThreadId) (address : UInt8) (r : Reservations) : Reservations × Bool :=
  match findLocked address r with
  | some i =>
      if (r.sReservations i).owner = me then
        (⟨Function.update r.sReservations i { r.sReservations i with active := false },
          r.sReservationGen + 1⟩, true)
      else (r, false)
  | none => (r, false)

def holder (address : UInt8) (r : Reservations) : Option Reservation :=
  (findLocked address r).map r.sReservations

/-- `i2c_transact`, the check before each transfer: is the reservation still ours? -/
def stillOursLocked (me : ThreadId) (address : UInt8) (now : ℕ) (r : Reservations) :
    Bool × Reservations × Bool :=
  let (r, woke) := expireLocked now r
  ((holder address r).any fun h ↦ h.owner == me, r, woke)

/-- `i2c_transact`, the read of `weHoldLease`. -/
def weHoldLeaseLocked (address : UInt8) (r : Reservations) : Bool :=
  (holder address r).any fun h ↦ h.isLease

/-! ## What each section does to a slot -/

theorem expireLocked_slot (now : ℕ) (r : Reservations) (i : Slot) :
    (expireLocked now r).1.sReservations i =
      if stale now (r.sReservations i) then { r.sReservations i with active := false }
      else r.sReservations i := rfl

theorem expireLocked_active {now : ℕ} {r : Reservations} {i : Slot}
    (h : ((expireLocked now r).1.sReservations i).active = true) :
    (expireLocked now r).1.sReservations i = r.sReservations i ∧
      (r.sReservations i).active = true ∧ now < (r.sReservations i).deadlineTick := by
  rw [expireLocked_slot] at h ⊢
  split at h
  · simp at h
  · rename_i hs
    rw [if_neg hs]
    refine ⟨rfl, h, ?_⟩
    simpa [stale, h] using hs

theorem expireLocked_fresh {now : ℕ} {r : Reservations} {i : Slot}
    (h : now < (r.sReservations i).deadlineTick) :
    (expireLocked now r).1.sReservations i = r.sReservations i := by
  rw [expireLocked_slot, if_neg]
  simp [stale, h]

def UniqueActive (r : Reservations) : Prop :=
  ∀ i j, (r.sReservations i).active = true → (r.sReservations j).active = true →
    (r.sReservations i).address = (r.sReservations j).address → i = j

theorem uniqueActive_boot : UniqueActive .boot := by
  intro i j hi
  simp [Reservations.boot] at hi

theorem UniqueActive.of_subset {r r' : Reservations} (h : UniqueActive r)
    (hsub : ∀ i, (r'.sReservations i).active = true → r'.sReservations i = r.sReservations i) :
    UniqueActive r' := by
  intro i j hi hj hij
  have hi' := hsub i hi
  have hj' := hsub j hj
  rw [hi'] at hi hij
  rw [hj'] at hj hij
  exact h i j hi hj hij

theorem UniqueActive.expire {r : Reservations} (h : UniqueActive r) (now : ℕ) :
    UniqueActive (expireLocked now r).1 :=
  h.of_subset fun _ hi ↦ (expireLocked_active hi).1

theorem findLocked_some {address : UInt8} {r : Reservations} {i : Slot}
    (h : findLocked address r = some i) :
    (r.sReservations i).active = true ∧ (r.sReservations i).address = address := by
  simpa using firstSlot_holds h

theorem findLocked_none {address : UInt8} {r : Reservations} (h : findLocked address r = none)
    (i : Slot) (hi : (r.sReservations i).active = true) :
    (r.sReservations i).address ≠ address := by
  have := firstSlot_eq_none.mp h i
  simpa [hi] using this

theorem findLocked_of_active {r : Reservations} (h : UniqueActive r) {i : Slot}
    (hi : (r.sReservations i).active = true) :
    findLocked (r.sReservations i).address r = some i := by
  apply firstSlot_of_unique (by simp [hi])
  intro j hj
  simp only [Bool.and_eq_true, beq_iff_eq] at hj
  exact h j i hj.1 hi hj.2

theorem UniqueActive.claim {r : Reservations} (h : UniqueActive r) {i : Slot} {e : Reservation}
    (hfind : findLocked e.address r = none) :
    UniqueActive { r with sReservations := Function.update r.sReservations i e } := by
  intro j k hj hk hjk
  by_cases hji : j = i <;> by_cases hki : k = i
  · rw [hji, hki]
  · subst hji
    simp only [Function.update_self, Function.update_of_ne hki] at hk hjk
    exact (findLocked_none hfind k hk hjk.symm).elim
  · subst hki
    simp only [Function.update_self, Function.update_of_ne hji] at hj hjk
    exact (findLocked_none hfind j hj hjk).elim
  · simp only [Function.update_of_ne hji, Function.update_of_ne hki] at hj hk hjk
    exact h j k hj hk hjk

/-- `release_device` deactivates the entry it finds when that entry is the
caller's, and otherwise leaves the table alone. -/
theorem releaseLocked_spec (me : ThreadId) (address : UInt8) (r : Reservations) :
    (∃ i, findLocked address r = some i ∧ (r.sReservations i).owner = me ∧
      releaseLocked me address r =
        (⟨Function.update r.sReservations i { r.sReservations i with active := false },
          r.sReservationGen + 1⟩, true)) ∨
    ((∀ i, findLocked address r = some i → (r.sReservations i).owner ≠ me) ∧
      releaseLocked me address r = (r, false)) := by
  cases hfind : findLocked address r with
  | none => exact .inr ⟨by simp, by simp [releaseLocked, hfind]⟩
  | some i =>
      by_cases howner : (r.sReservations i).owner = me
      · exact .inl ⟨i, rfl, howner, by simp [releaseLocked, hfind, howner]⟩
      · refine .inr ⟨?_, by simp [releaseLocked, hfind, howner]⟩
        rintro j hj
        cases hj
        exact howner

theorem UniqueActive.release {r : Reservations} (h : UniqueActive r) (me : ThreadId)
    (address : UInt8) : UniqueActive (releaseLocked me address r).1 := by
  rcases releaseLocked_spec me address r with ⟨i, -, -, heq⟩ | ⟨-, heq⟩
  · rw [heq]
    refine h.of_subset fun j hj ↦ ?_
    by_cases hji : j = i
    · subst hji
      simp at hj
    · exact Function.update_of_ne hji _ _
  · rwa [heq]

/-! ## The table as a map from addresses to holders -/

section Holder

variable {r : Reservations} {a address : UInt8} {h : Reservation}

theorem holder_eq_none : holder a r = none ↔
    ∀ i, (r.sReservations i).active = true → (r.sReservations i).address ≠ a := by
  rw [holder, Option.map_eq_none_iff]
  constructor
  · exact findLocked_none
  · intro hall
    refine firstSlot_eq_none.mpr fun i ↦ ?_
    cases hi : (r.sReservations i).active with
    | false => rfl
    | true => simpa using hall i hi

theorem holder_eq_some (hu : UniqueActive r) : holder a r = some h ↔
    ∃ i, r.sReservations i = h ∧ h.active = true ∧ h.address = a := by
  rw [holder, Option.map_eq_some_iff]
  constructor
  · rintro ⟨i, hi, rfl⟩
    exact ⟨i, rfl, findLocked_some hi⟩
  · rintro ⟨i, rfl, hactive, rfl⟩
    exact ⟨i, findLocked_of_active hu hactive, rfl⟩

@[simp] theorem holder_boot : holder a .boot = none :=
  holder_eq_none.mpr fun i hi ↦ by simp [Reservations.boot] at hi

/-- `expire_locked` drops exactly the holders whose deadline has come. -/
theorem holder_expire (hu : UniqueActive r) (now : ℕ) :
    holder a (expireLocked now r).1 =
      (holder a r).filter fun h ↦ decide (now < h.deadlineTick) := by
  ext h
  rw [holder_eq_some (hu.expire now), Option.filter_eq_some_iff, holder_eq_some hu]
  constructor
  · rintro ⟨i, rfl, hactive, haddress⟩
    obtain ⟨hslot, -, hfresh⟩ := expireLocked_active hactive
    rw [hslot] at hactive haddress ⊢
    exact ⟨⟨i, rfl, hactive, haddress⟩, by simpa using hfresh⟩
  · rintro ⟨⟨i, rfl, hactive, haddress⟩, hfresh⟩
    exact ⟨i, expireLocked_fresh (by simpa using hfresh), hactive, haddress⟩

/-- A claim written into a free slot becomes the holder of its address and moves
no other holder. -/
theorem holder_claim (hu : UniqueActive r) {i : Slot} {e : Reservation}
    (hfind : findLocked e.address r = none) (hfree : (r.sReservations i).active = false)
    (he : e.active = true) :
    holder a { r with sReservations := Function.update r.sReservations i e } =
      if a = e.address then some e else holder a r := by
  have hu' := hu.claim (i := i) hfind
  split
  · rename_i ha
    subst ha
    exact (holder_eq_some hu').mpr ⟨i, by simp, he, rfl⟩
  · rename_i ha
    ext h
    rw [holder_eq_some hu', holder_eq_some hu]
    constructor
    · rintro ⟨j, hj, hactive, haddress⟩
      by_cases hji : j = i
      · subst hji
        simp only [Function.update_self] at hj
        exact (ha (by rw [← haddress, hj])).elim
      · simp only [Function.update_of_ne hji] at hj
        exact ⟨j, hj, hactive, haddress⟩
    · rintro ⟨j, rfl, hactive, haddress⟩
      have hji : j ≠ i := by
        rintro rfl
        simp [hfree] at hactive
      exact ⟨j, by simp [Function.update_of_ne hji], hactive, haddress⟩

theorem holder_release (hu : UniqueActive r) (me : ThreadId) :
    holder a (releaseLocked me address r).1 =
      (holder a r).filter fun h ↦ !(decide (a = address) && decide (h.owner = me)) := by
  ext h
  rw [holder_eq_some (hu.release me address), Option.filter_eq_some_iff, holder_eq_some hu]
  rcases releaseLocked_spec me address r with ⟨i, hfind, howner, heq⟩ | ⟨hother, heq⟩
  · obtain ⟨hia, rfl⟩ := findLocked_some hfind
    rw [heq]
    constructor
    · rintro ⟨j, hj, hactive, haddress⟩
      have hji : j ≠ i := by
        rintro rfl
        rw [← hj] at hactive
        simp at hactive
      simp only [Function.update_of_ne hji] at hj
      subst hj haddress
      refine ⟨⟨j, rfl, hactive, rfl⟩, ?_⟩
      have hne : (r.sReservations j).address ≠ (r.sReservations i).address :=
        fun hsame ↦ hji (hu j i hactive hia hsame)
      simp [hne]
    · rintro ⟨⟨j, rfl, hactive, rfl⟩, hkeep⟩
      have hji : j ≠ i := by
        rintro rfl
        simp [howner] at hkeep
      exact ⟨j, Function.update_of_ne hji _ _, hactive, rfl⟩
  · rw [heq]
    refine ⟨?_, And.left⟩
    rintro ⟨i, rfl, hactive, rfl⟩
    refine ⟨⟨i, rfl, hactive, rfl⟩, ?_⟩
    by_cases hsame : (r.sReservations i).address = address
    · have hfind := findLocked_of_active hu hactive
      rw [hsame] at hfind
      simp [hother i hfind]
    · simp [hsame]

theorem stillOursLocked_iff {me : ThreadId} {now : ℕ} :
    (stillOursLocked me a now r).1 = true ↔
      ∃ h, holder a (expireLocked now r).1 = some h ∧ h.owner = me := by
  simp [stillOursLocked, Option.any_eq_true]

end Holder

/-! ## One pass through the locked part of `reserve_device` -/

/-- How `reserve_device` leaves a table `r` that `expire_locked` has just
cleaned: the four exits of the section, with what each found. -/
inductive ReserveSpec (me : ThreadId) (e : Reservation) (r : Reservations) :
    ReserveOutcome → Reservations → Prop where
  | claimed (i : Slot) (vacant : findLocked e.address r = none)
      (free : (r.sReservations i).active = false) :
      ReserveSpec me e r (.claimed i e)
        { r with sReservations := Function.update r.sReservations i e }
  | full (vacant : findLocked e.address r = none)
      (crowded : ∀ i, (r.sReservations i).active = true) : ReserveSpec me e r .full r
  | reentrant (h : Reservation) (held : holder e.address r = some h) (ours : h.owner = me) :
      ReserveSpec me e r .reentrant r
  | held (h : Reservation) (held : holder e.address r = some h) (theirs : h.owner ≠ me) :
      ReserveSpec me e r (.held r.sReservationGen h) r

theorem reserveLocked_spec (msToTicks : ℕ → ℕ) (me : ThreadId) (address : UInt8) (holdMs : ℕ)
    (isLease : Bool) (now : ℕ) (r : Reservations) :
    ∃ o r', reserveLocked msToTicks me address holdMs isLease now r =
        (o, r', (expireLocked now r).2) ∧
      ReserveSpec me (claimEntry msToTicks me address holdMs isLease now)
        (expireLocked now r).1 o r' := by
  unfold reserveLocked
  generalize expireLocked now r = q
  obtain ⟨r, woke⟩ := q
  cases hfind : findLocked address r with
  | none =>
      cases hfree : firstSlot fun i ↦ !(r.sReservations i).active with
      | none =>
          refine ⟨.full, r, by simp [hfind, hfree], .full hfind fun i ↦ ?_⟩
          simpa using firstSlot_eq_none.mp hfree i
      | some i =>
          have hi := firstSlot_holds hfree
          exact ⟨_, _, by simp [hfind, hfree], .claimed i hfind (by simpa using hi)⟩
  | some i =>
      have hheld : holder address r = some (r.sReservations i) := by simp [holder, hfind]
      by_cases howner : (r.sReservations i).owner = me
      · exact ⟨_, _, by simp [hfind, howner], .reentrant _ hheld howner⟩
      · exact ⟨_, _, by simp [hfind, howner], .held _ hheld howner⟩

theorem ReserveSpec.unique {me : ThreadId} {e : Reservation} {r r' : Reservations}
    {o : ReserveOutcome} (h : ReserveSpec me e r o r') (hu : UniqueActive r) :
    UniqueActive r' := by
  cases h with
  | claimed i vacant free => exact hu.claim vacant
  | full vacant crowded => exact hu
  | reentrant h held ours => exact hu
  | held h held theirs => exact hu

end PlantNode.Driver
