import Mathlib.Tactic.Ring

/-!
# Little-endian integers

`toLE k n` and `ofLE` are the fixed-width encoding and its inverse.  The two
loops of C programs, one shifting bytes out of a word and one or-ing shifted
bytes into a word, compute them.
-/

namespace Foundation

def toLE : ℕ → ℕ → List UInt8
  | 0, _ => []
  | k + 1, n => UInt8.ofNat n :: toLE k (n / 256)

def ofLE : List UInt8 → ℕ
  | [] => 0
  | b :: bs => b.toNat + 256 * ofLE bs

/-- `for (i = 0; i < k; i++) out[i] = (uint8_t)(n >> (8 * i))`. -/
def shiftOut (k n : ℕ) : List UInt8 :=
  (List.range k).map fun i ↦ UInt8.ofNat (n >>> (8 * i))

/-- `for (; …; i++) m |= in[i] << (8 * i)`, from index `i` on. -/
def orBytes (m i : ℕ) : List UInt8 → ℕ
  | [] => m
  | b :: bs => orBytes (m ||| b.toNat <<< (8 * i)) (i + 1) bs

@[simp] theorem length_toLE (k n : ℕ) : (toLE k n).length = k := by
  induction k generalizing n with
  | zero => rfl
  | succ k ih => simp [toLE, ih]

theorem ofLE_toLE (k n : ℕ) : ofLE (toLE k n) = n % 256 ^ k := by
  induction k generalizing n with
  | zero => simp [toLE, ofLE, Nat.mod_one]
  | succ k ih =>
      rw [toLE, ofLE, ih, UInt8.toNat_ofNat', show 2 ^ 8 = 256 from rfl, Nat.pow_succ',
        Nat.mod_mul]

theorem toLE_ofLE (bs : List UInt8) : toLE bs.length (ofLE bs) = bs := by
  induction bs with
  | nil => rfl
  | cons b bs ih =>
      have hlt : b.toNat < 256 := b.toNat_lt
      have hhead : UInt8.ofNat (b.toNat + 256 * ofLE bs) = b := by
        apply UInt8.toNat.inj
        rw [UInt8.toNat_ofNat', Nat.add_mul_mod_self_left]
        exact Nat.mod_eq_of_lt hlt
      have htail : (b.toNat + 256 * ofLE bs) / 256 = ofLE bs := by
        omega
      rw [List.length_cons, ofLE, toLE, hhead, htail, ih]

theorem shiftOut_eq (k n : ℕ) : shiftOut k n = toLE k n := by
  induction k generalizing n with
  | zero => rfl
  | succ k ih =>
      rw [shiftOut, List.range_succ_eq_map, List.map_cons, List.map_map, toLE, ← ih, shiftOut]
      refine congrArg₂ _ (by simp) (List.map_congr_left fun i _ ↦ ?_)
      have hshift : n >>> (8 * (i + 1)) = (n / 256) >>> (8 * i) := by
        rw [Nat.mul_succ, Nat.add_comm, Nat.shiftRight_add, Nat.shiftRight_eq_div_pow n 8]
      exact congrArg UInt8.ofNat hshift

theorem orBytes_eq (bs : List UInt8) {m i : ℕ} (h : m < 256 ^ i) :
    orBytes m i bs = m + 256 ^ i * ofLE bs := by
  have hpow : ∀ i, 256 ^ i = 2 ^ (8 * i) := fun i ↦ by rw [Nat.pow_mul]
  induction bs generalizing m i with
  | nil => simp [orBytes, ofLE]
  | cons b bs ih =>
      have hor : m ||| b.toNat <<< (8 * i) = m + 256 ^ i * b.toNat := by
        rw [Nat.or_comm, ← Nat.shiftLeft_add_eq_or_of_lt (hpow i ▸ h), Nat.shiftLeft_eq, ← hpow]
        ring
      have hlt : m + 256 ^ i * b.toNat < 256 ^ (i + 1) := by
        have hb : b.toNat + 1 ≤ 256 := b.toNat_lt
        calc m + 256 ^ i * b.toNat < 256 ^ i + 256 ^ i * b.toNat := Nat.add_lt_add_right h _
          _ = 256 ^ i * (b.toNat + 1) := by ring
          _ ≤ 256 ^ i * 256 := Nat.mul_le_mul_left _ hb
          _ = 256 ^ (i + 1) := (Nat.pow_succ ..).symm
      rw [orBytes, hor, ih hlt, ofLE, Nat.pow_succ]
      ring

end Foundation
