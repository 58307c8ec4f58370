import Mathlib.Data.Nat.Basic

/-!
# Permission masks

A mask covers a set of bits when intersecting with it loses none of them.  A
mask covers a union exactly when it covers both parts.
-/

namespace Foundation

theorem BitVec.and_or_eq_iff {w : ℕ} (m a b : BitVec w) :
    m &&& (a ||| b) = a ||| b ↔ m &&& a = a ∧ m &&& b = b := by
  simp only [BitVec.eq_of_getElem_eq_iff, BitVec.getElem_and, BitVec.getElem_or,
    Bool.and_eq_right_iff_imp, Bool.or_eq_true]
  constructor
  · exact fun h ↦ ⟨fun i hi ha ↦ h i hi (.inl ha), fun i hi hb ↦ h i hi (.inr hb)⟩
  · rintro ⟨ha, hb⟩ i hi hab
    exact hab.elim (ha i hi) (hb i hi)

theorem UInt8.and_or_eq_iff (m a b : UInt8) :
    m &&& (a ||| b) = a ||| b ↔ m &&& a = a ∧ m &&& b = b := by
  simp only [← UInt8.toBitVec_inj, UInt8.toBitVec_and, UInt8.toBitVec_or]
  exact BitVec.and_or_eq_iff _ _ _

end Foundation
