import PlantNode.Basic
import Mathlib.Tactic.Ring

/-!
# The temperature and humidity sensor

`parse_measurement` on the six bytes of a measurement, with the machine integers of the
source.  No operation of it leaves its type, and its results are the exact values.
-/

namespace PlantNode.Sensors.Aht20

/-- Humidity: bits 39 to 20 of bytes 1 to 5. -/
def rawH (buf : Vector UInt8 6) : UInt32 :=
  buf[1].toUInt32 <<< 12 ||| buf[2].toUInt32 <<< 4 ||| (buf[3] >>> 4).toUInt32

/-- Temperature: bits 19 to 0 of bytes 1 to 5. -/
def rawT (buf : Vector UInt8 6) : UInt32 :=
  (buf[3] &&& 0x0F).toUInt32 <<< 16 ||| buf[4].toUInt32 <<< 8 ||| buf[5].toUInt32

/-- `(rawT * 2000 / 1048576) - 500` -/
def celsiusX10 (rawT : UInt32) : Int16 := (rawT.toInt32 * 2000 / 1048576 - 500).toInt16

/-- `rawH * 1000u / 1048576u` -/
def humidityRx10 (rawH : UInt32) : UInt16 := (rawH * 1000 / 1048576).toUInt16

/-- `parse_measurement`: what is stored through each pointer, if it is not null. -/
def parseMeasurement (buf : Vector UInt8 6) (celsiusX10Out humidityRx10Out : Bool) :
    Option Int16 × Option UInt16 :=
  (if celsiusX10Out then some (celsiusX10 (rawT buf)) else none,
    if humidityRx10Out then some (humidityRx10 (rawH buf)) else none)

variable (buf : Vector UInt8 6)

/-- Bytes 1 to 5 as one number of 40 bits, the first byte the highest. -/
def field : ℕ :=
  buf[1].toNat * 2 ^ 32 + buf[2].toNat * 2 ^ 24 + buf[3].toNat * 2 ^ 16 + buf[4].toNat * 2 ^ 8 +
    buf[5].toNat

/-- Every operation has the value it has on unbounded integers. -/
structure Exact : Prop where
  shiftHigh : (buf[1].toUInt32 <<< 12).toNat = buf[1].toNat * 2 ^ 12
  shiftMiddle : (buf[2].toUInt32 <<< 4).toNat = buf[2].toNat * 2 ^ 4
  shiftNibble : ((buf[3] &&& 0x0F).toUInt32 <<< 16).toNat = buf[3].toNat % 2 ^ 4 * 2 ^ 16
  shiftLow : (buf[4].toUInt32 <<< 8).toNat = buf[4].toNat * 2 ^ 8
  signed : (rawT buf).toInt32.toInt = (rawT buf).toNat
  product : ((rawT buf).toInt32 * 2000).toInt = (rawT buf).toNat * 2000
  quotient : ((rawT buf).toInt32 * 2000 / 1048576).toInt = ((rawT buf).toNat * 2000 / 2 ^ 20 : ℕ)
  difference : ((rawT buf).toInt32 * 2000 / 1048576 - 500).toInt =
    ((rawT buf).toNat * 2000 / 2 ^ 20 : ℕ) - 500
  narrowed : (celsiusX10 (rawT buf)).toInt = ((rawT buf).toNat * 2000 / 2 ^ 20 : ℕ) - 500
  productH : (rawH buf * 1000).toNat = (rawH buf).toNat * 1000
  quotientH : (rawH buf * 1000 / 1048576).toNat = (rawH buf).toNat * 1000 / 2 ^ 20
  narrowedH : (humidityRx10 (rawH buf)).toNat = (rawH buf).toNat * 1000 / 2 ^ 20

/-! ## The raw fields -/

/-- Disjoint bits are added. -/
theorem or_eq_add {a b k : ℕ} (ha : 2 ^ k ∣ a) (hb : b < 2 ^ k) : a ||| b = a + b := by
  obtain ⟨c, rfl⟩ := ha
  exact (Nat.two_pow_add_eq_or_of_lt hb c).symm

theorem toNat_shiftLeft_of_lt {a s : UInt32} {k : ℕ} (hs : s.toNat = k) (hk : k < 32)
    (hfits : a.toNat * 2 ^ k < 2 ^ 32) : (a <<< s).toNat = a.toNat * 2 ^ k := by
  rw [UInt32.toNat_shiftLeft, hs, Nat.mod_eq_of_lt hk, Nat.shiftLeft_eq, Nat.mod_eq_of_lt hfits]

/-- A byte shifted by up to 24 places stays in 32 bits. -/
theorem toNat_byte_shiftLeft (b : UInt8) {s : UInt32} {k : ℕ} (hs : s.toNat = k) (hk : k ≤ 24) :
    (b.toUInt32 <<< s).toNat = b.toNat * 2 ^ k := by
  have hfits : b.toUInt32.toNat * 2 ^ k < 2 ^ 32 :=
    calc b.toUInt32.toNat * 2 ^ k
      _ < 2 ^ 8 * 2 ^ k := Nat.mul_lt_mul_of_pos_right b.toNat_lt (Nat.two_pow_pos k)
      _ = 2 ^ (8 + k) := (pow_add 2 8 k).symm
      _ ≤ 2 ^ 32 := Nat.pow_le_pow_right (by norm_num) (by omega)
  exact toNat_shiftLeft_of_lt hs (by omega) hfits

theorem toNat_low_nibble (b : UInt8) : (b &&& 0x0F).toNat = b.toNat % 2 ^ 4 := by
  rw [UInt8.toNat_and, show (0x0F : UInt8).toNat = 2 ^ 4 - 1 by decide,
    Nat.and_two_pow_sub_one_eq_mod]

theorem toNat_high_nibble (b : UInt8) : (b >>> 4).toNat = b.toNat / 2 ^ 4 := by
  rw [UInt8.toNat_shiftRight, show (4 : UInt8).toNat % 8 = 4 by decide, Nat.shiftRight_eq_div_pow]

/-- Three disjoint pieces of a word, from the highest to the lowest. -/
theorem toNat_pieces {a b c : UInt32} {j k : ℕ} (ha : 2 ^ j ∣ a.toNat) (hb : b.toNat < 2 ^ j)
    (hab : 2 ^ k ∣ a.toNat + b.toNat) (hc : c.toNat < 2 ^ k) :
    (a ||| b ||| c).toNat = a.toNat + b.toNat + c.toNat := by
  rw [UInt32.toNat_or, UInt32.toNat_or, or_eq_add ha hb, or_eq_add hab hc]

theorem toNat_rawH :
    (rawH buf).toNat = buf[1].toNat * 2 ^ 12 + buf[2].toNat * 2 ^ 4 + buf[3].toNat / 2 ^ 4 := by
  have hbound₂ := buf[2].toNat_lt
  have hbound₃ := buf[3].toNat_lt
  have h₁ := toNat_byte_shiftLeft buf[1] (k := 12) (s := 12) rfl (by omega)
  have h₂ := toNat_byte_shiftLeft buf[2] (k := 4) (s := 4) rfl (by omega)
  have h₃ : (buf[3] >>> 4).toUInt32.toNat = buf[3].toNat / 2 ^ 4 := by
    rw [UInt8.toNat_toUInt32, toNat_high_nibble]
  rw [rawH, toNat_pieces (j := 12) (k := 4), h₁, h₂, h₃]
  · rw [h₁]
    exact Nat.dvd_mul_left _ _
  · rw [h₂]
    omega
  · rw [h₁, h₂]
    exact ⟨buf[1].toNat * 2 ^ 8 + buf[2].toNat, by omega⟩
  · rw [h₃]
    omega

theorem toNat_rawT :
    (rawT buf).toNat = buf[3].toNat % 2 ^ 4 * 2 ^ 16 + buf[4].toNat * 2 ^ 8 + buf[5].toNat := by
  have hbound₄ := buf[4].toNat_lt
  have hbound₅ := buf[5].toNat_lt
  have h₃ := toNat_byte_shiftLeft (buf[3] &&& 0x0F) (k := 16) (s := 16) rfl (by omega)
  have h₄ := toNat_byte_shiftLeft buf[4] (k := 8) (s := 8) rfl (by omega)
  rw [toNat_low_nibble] at h₃
  rw [rawT, toNat_pieces (j := 16) (k := 8), h₃, h₄, UInt8.toNat_toUInt32]
  · rw [h₃]
    exact Nat.dvd_mul_left _ _
  · rw [h₄]
    omega
  · rw [h₃, h₄]
    exact ⟨buf[3].toNat % 2 ^ 4 * 2 ^ 8 + buf[4].toNat, by omega⟩
  · rw [UInt8.toNat_toUInt32]
    exact hbound₅

/-- The raw values are the two halves of the field. -/
theorem field_eq :
    (rawH buf).toNat = field buf / 2 ^ 20 ∧ (rawT buf).toNat = field buf % 2 ^ 20 := by
  have h₁ := buf[1].toNat_lt
  have h₂ := buf[2].toNat_lt
  have h₃ := buf[3].toNat_lt
  have h₄ := buf[4].toNat_lt
  have h₅ := buf[5].toNat_lt
  rw [toNat_rawH, toNat_rawT, field]
  omega

theorem rawH_lt : (rawH buf).toNat < 2 ^ 20 := by
  have h₁ := buf[1].toNat_lt
  have h₂ := buf[2].toNat_lt
  have h₃ := buf[3].toNat_lt
  rw [toNat_rawH]
  omega

theorem rawT_lt : (rawT buf).toNat < 2 ^ 20 := by
  rw [(field_eq buf).2]
  exact Nat.mod_lt _ (by norm_num)

/-- The raw values determine the bytes. -/
theorem raw_eq_iff (buf' : Vector UInt8 6) : (rawH buf = rawH buf' ∧ rawT buf = rawT buf') ↔
    buf[1] = buf'[1] ∧ buf[2] = buf'[2] ∧ buf[3] = buf'[3] ∧ buf[4] = buf'[4] ∧
      buf[5] = buf'[5] := by
  have h₂ := buf[2].toNat_lt
  have h₃ := buf[3].toNat_lt
  have h₄ := buf[4].toNat_lt
  have h₅ := buf[5].toNat_lt
  have h₂' := buf'[2].toNat_lt
  have h₃' := buf'[3].toNat_lt
  have h₄' := buf'[4].toNat_lt
  have h₅' := buf'[5].toNat_lt
  simp only [← UInt32.toNat_inj, ← UInt8.toNat_inj, toNat_rawH, toNat_rawT]
  omega

/-! ## The conversions -/

variable {raw raw' : UInt32}

theorem bmod_eq_self {n : ℤ} {w : ℕ} (hlow : -2 ^ w ≤ n) (hhigh : n < 2 ^ w) :
    n.bmod (2 ^ (w + 1)) = n := by
  have hpow : ((2 ^ (w + 1) : ℕ) : ℤ) = 2 * 2 ^ w := by
    push_cast
    ring
  exact Int.bmod_eq_of_le (by omega) (by omega)

theorem toInt_toInt32 (h : raw.toNat < 2 ^ 20) : raw.toInt32.toInt = raw.toNat := by
  have hbits : raw.toInt32.toBitVec.toNat = raw.toNat := rfl
  exact BitVec.toInt_eq_toNat_of_lt (by rw [hbits]; omega)

theorem toInt_product (h : raw.toNat < 2 ^ 20) :
    (raw.toInt32 * 2000).toInt = raw.toNat * 2000 := by
  have hfactor : (2000 : Int32).toInt = 2000 := by decide
  rw [Int32.toInt_mul, toInt_toInt32 h, hfactor]
  exact bmod_eq_self (w := 31) (by omega) (by omega)

theorem toInt_quotient (h : raw.toNat < 2 ^ 20) :
    (raw.toInt32 * 2000 / 1048576).toInt = (raw.toNat * 2000 / 2 ^ 20 : ℕ) := by
  have hdivisor : (1048576 : Int32).toInt = 2 ^ 20 := by decide
  rw [Int32.toInt_div_of_ne_right _ _ (by decide), toInt_product h, hdivisor,
    Int.tdiv_eq_ediv_of_nonneg (by omega)]
  omega

theorem toInt_difference (h : raw.toNat < 2 ^ 20) :
    (raw.toInt32 * 2000 / 1048576 - 500).toInt = (raw.toNat * 2000 / 2 ^ 20 : ℕ) - 500 := by
  have hoffset : (500 : Int32).toInt = 500 := by decide
  rw [Int32.toInt_sub, toInt_quotient h, hoffset]
  exact bmod_eq_self (w := 31) (by omega) (by omega)

theorem toInt_celsiusX10 (h : raw.toNat < 2 ^ 20) :
    (celsiusX10 raw).toInt = (raw.toNat * 2000 / 2 ^ 20 : ℕ) - 500 := by
  rw [celsiusX10, Int32.toInt_toInt16, toInt_difference h]
  exact bmod_eq_self (w := 15) (by omega) (by omega)

theorem toNat_product (h : raw.toNat < 2 ^ 20) : (raw * 1000).toNat = raw.toNat * 1000 := by
  have hfactor : (1000 : UInt32).toNat = 1000 := by decide
  rw [UInt32.toNat_mul, hfactor]
  exact Nat.mod_eq_of_lt (by omega)

theorem toNat_quotient (h : raw.toNat < 2 ^ 20) :
    (raw * 1000 / 1048576).toNat = raw.toNat * 1000 / 2 ^ 20 := by
  rw [UInt32.toNat_div, toNat_product h]
  rfl

theorem toNat_humidityRx10 (h : raw.toNat < 2 ^ 20) :
    (humidityRx10 raw).toNat = raw.toNat * 1000 / 2 ^ 20 := by
  rw [humidityRx10, UInt32.toNat_toUInt16, toNat_quotient h]
  exact Nat.mod_eq_of_lt (by omega)

theorem exact (buf : Vector UInt8 6) : Exact buf where
  shiftHigh := toNat_byte_shiftLeft buf[1] (k := 12) rfl (by omega)
  shiftMiddle := toNat_byte_shiftLeft buf[2] (k := 4) rfl (by omega)
  shiftNibble := by
    rw [toNat_byte_shiftLeft (buf[3] &&& 0x0F) (k := 16) rfl (by omega), toNat_low_nibble]
  shiftLow := toNat_byte_shiftLeft buf[4] (k := 8) rfl (by omega)
  signed := toInt_toInt32 (rawT_lt buf)
  product := toInt_product (rawT_lt buf)
  quotient := toInt_quotient (rawT_lt buf)
  difference := toInt_difference (rawT_lt buf)
  narrowed := toInt_celsiusX10 (rawT_lt buf)
  productH := toNat_product (rawH_lt buf)
  quotientH := toNat_quotient (rawH_lt buf)
  narrowedH := toNat_humidityRx10 (rawH_lt buf)

/-! ## The measurement -/

/-- What a measurement gives for all pointers: the exact values of the raw fields, in
range and in their order. -/
theorem measurement_exact (buf : Vector UInt8 6) :
    Exact buf ∧
      ((rawH buf).toNat = field buf / 2 ^ 20 ∧ (rawT buf).toNat = field buf % 2 ^ 20) ∧
      (∀ buf', (rawH buf = rawH buf' ∧ rawT buf = rawT buf') ↔ buf[1] = buf'[1] ∧
        buf[2] = buf'[2] ∧ buf[3] = buf'[3] ∧ buf[4] = buf'[4] ∧ buf[5] = buf'[5]) ∧
      (∀ celsius humidity, ∃ t h, parseMeasurement buf celsius humidity =
          (if celsius then some t else none, if humidity then some h else none) ∧
        t.toInt = ((rawT buf).toNat * 2000 / 2 ^ 20 : ℕ) - 500 ∧
        -500 ≤ t.toInt ∧ t.toInt ≤ 1499 ∧
        h.toNat = (rawH buf).toNat * 1000 / 2 ^ 20 ∧ h.toNat ≤ 999) ∧
      ∀ buf', (rawT buf ≤ rawT buf' → celsiusX10 (rawT buf) ≤ celsiusX10 (rawT buf')) ∧
        (rawH buf ≤ rawH buf' → humidityRx10 (rawH buf) ≤ humidityRx10 (rawH buf')) := by
  have hT := rawT_lt buf
  have hH := rawH_lt buf
  refine ⟨exact buf, field_eq buf, raw_eq_iff buf, fun celsius humidity ↦ ?_, fun buf' ↦ ⟨?_, ?_⟩⟩
  · refine ⟨_, _, rfl, toInt_celsiusX10 hT, ?_, ?_, toNat_humidityRx10 hH, ?_⟩
    · rw [toInt_celsiusX10 hT]
      omega
    · rw [toInt_celsiusX10 hT]
      omega
    · rw [toNat_humidityRx10 hH]
      omega
  · intro hle
    rw [UInt32.le_iff_toNat_le] at hle
    rw [Int16.le_iff_toInt_le, toInt_celsiusX10 hT, toInt_celsiusX10 (rawT_lt buf')]
    omega
  · intro hle
    rw [UInt32.le_iff_toNat_le] at hle
    rw [UInt16.le_iff_toNat_le, toNat_humidityRx10 hH, toNat_humidityRx10 (rawH_lt buf')]
    omega

end PlantNode.Sensors.Aht20
