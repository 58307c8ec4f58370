import Mathlib.Data.List.FinRange
import Mathlib.Data.Set.Card
import Mathlib.Data.Set.Finite.Range

/-!
# First-match scans of a fixed-size table

A table of `n` slots is a function on `Fin n`.  `firstSlot p` is the slot a
scan from the left stops at.
-/

namespace Foundation

variable {n : ℕ} {p : Fin n → Bool} {i j : Fin n}

/-- The first slot that satisfies `p`. -/
def firstSlot (p : Fin n → Bool) : Option (Fin n) :=
  (List.finRange n).find? p

theorem firstSlot_eq_none : firstSlot p = none ↔ ∀ i, p i = false := by
  simp [firstSlot, List.find?_eq_none]

theorem firstSlot_holds (h : firstSlot p = some i) : p i = true :=
  List.find?_some h

theorem firstSlot_isSome (h : p i = true) : ∃ j, firstSlot p = some j := by
  cases hf : firstSlot p with
  | none =>
      have hfalse := firstSlot_eq_none.mp hf i
      simp [hfalse] at h
  | some j => exact ⟨j, rfl⟩

theorem firstSlot_of_unique (h : p i = true) (hunique : ∀ j, p j = true → j = i) :
    firstSlot p = some i := by
  obtain ⟨j, hj⟩ := firstSlot_isSome h
  rw [hj, hunique j (firstSlot_holds hj)]

/-- A table whose occupied slots have different keys has a vacant slot, if its keys come
from a set that is no larger than the table and one of them is missing. -/
theorem exists_vacant {κ : Type*} {A : Set κ} {k : κ} {key : Fin n → κ} (hcard : A.encard ≤ n)
    (hkey : ∀ i, p i = true → key i ∈ A)
    (hdiff : ∀ i j, p i = true → p j = true → key i = key j → i = j) (hk : k ∈ A)
    (hmissing : ∀ i, p i = true → key i ≠ k) : ∃ i, p i = false := by
  by_contra! hfull
  have hoccupied : ∀ i, p i = true := fun i ↦ Bool.eq_true_of_not_eq_false (hfull i)
  have hinj : Function.Injective key := fun i j h ↦ hdiff i j (hoccupied i) (hoccupied j) h
  have hrange : Set.range key ⊂ A := by
    refine ⟨Set.range_subset_iff.mpr fun i ↦ hkey i (hoccupied i), fun hsub ↦ ?_⟩
    obtain ⟨i, hi⟩ := hsub hk
    exact hmissing i (hoccupied i) hi
  have hslots : (n : ℕ∞) ≤ (Set.range key).encard := by
    simpa using hinj.encard_range
  exact absurd hcard (hslots.trans_lt ((Set.finite_range key).encard_lt_encard hrange)).not_ge

end Foundation
