import PlantNode.Basic
import PlantNode.Foundation.Decimal

/-!
# The command parser

`parse_uint_field` and the checks of `policy_update_threshold` that can reject a
packet.  A position in the buffer is the list of the bytes from there on.
-/

namespace PlantNode.Policy

open Foundation

def UINT32_MAX : ℕ := 2 ^ 32 - 1
def UINT16_MAX : ℕ := 2 ^ 16 - 1

def TimestampKey : List UInt8 := ascii "\x7b\"timestamp\":"
def ThresholdKey : List UInt8 := ascii ",\"threshold\":"
def closeBrace : UInt8 := 0x7d

/-- The digit loop of `parse_uint_field`; `value` is a `uint32_t`. -/
def parseDigits (value : ℕ) : List UInt8 → Option (ℕ × List UInt8)
  | [] => some (value, [])
  | c :: rest =>
      if isDigit c then
        -- check for overflow before accumulation
        if (UINT32_MAX - digitOf c) / 10 < value then none
        else parseDigits ((value * 10 + digitOf c) % 2 ^ 32) rest
      else some (value, c :: rest)

/-- `parse_uint_field`: the value and the bytes after it. -/
def parseUintField (buf key : List UInt8) : Option (ℕ × List UInt8) :=
  if key.isPrefixOf buf then
    match buf.drop key.length with
    | [] => none
    | c :: rest => if isDigit c then parseDigits 0 (c :: rest) else none
  else none

def parseFields (packet : List UInt8) : Option (ℕ × ℕ × List UInt8) :=
  match parseUintField packet TimestampKey with
  | none => none
  | some (timestamp, rest) =>
      match parseUintField rest ThresholdKey with
      | none => none
      | some (threshold, rest) => some (timestamp, threshold, rest)

/-! ## What the parser accepts -/

variable {value v : ℕ} {buf key rest ds packet : List UInt8}

/-- The overflow guard rejects exactly the digit that would leave 32 bits. -/
theorem overflow_guard {d : ℕ} (hd : d < 10) :
    (UINT32_MAX - d) / 10 < value ↔ UINT32_MAX < value * 10 + d := by
  unfold UINT32_MAX
  omega

/-- The digit loop reads the longest run of digits, if its value fits. -/
theorem parseDigits_eq (hv : value ≤ UINT32_MAX) (hrest : NoDigit rest)
    (hds : ∀ c ∈ ds, isDigit c = true) :
    parseDigits value (ds ++ rest) =
      if decimalFrom value ds ≤ UINT32_MAX then some (decimalFrom value ds, rest) else none := by
  induction ds generalizing value with
  | nil =>
      rw [List.nil_append, decimalFrom_nil, if_pos hv]
      cases rest with
      | nil => rfl
      | cons c rest =>
          have hc := hrest c rfl
          rw [parseDigits, if_neg (by simp [hc])]
  | cons c ds ih =>
      have hc := hds c List.mem_cons_self
      rw [List.cons_append, parseDigits, if_pos hc, decimalFrom_cons]
      by_cases hover : UINT32_MAX < value * 10 + digitOf c
      · rw [if_pos ((overflow_guard (digitOf_lt hc)).mpr hover), if_neg]
        exact fun hle ↦ absurd ((le_decimalFrom _ ds).trans hle) (Nat.not_le.mpr hover)
      · have hfits : value * 10 + digitOf c ≤ UINT32_MAX := Nat.not_lt.mp hover
        rw [if_neg fun h ↦ hover ((overflow_guard (digitOf_lt hc)).mp h),
          Nat.mod_eq_of_lt (by unfold UINT32_MAX at hfits; omega)]
        exact ih hfits fun x hx ↦ hds x (List.mem_cons_of_mem _ hx)

theorem parseUintField_eq_some : parseUintField buf key = some (v, rest) ↔
    ∃ ds, DigitRun ds ∧ buf = key ++ ds ++ rest ∧ NoDigit rest ∧ v = decimalValue ds ∧
      v ≤ UINT32_MAX := by
  have hzero : 0 ≤ UINT32_MAX := Nat.zero_le _
  constructor
  · intro h
    unfold parseUintField at h
    split at h
    · rename_i hprefix
      obtain ⟨tail, rfl⟩ := List.isPrefixOf_iff_prefix.mp hprefix
      rw [List.drop_left] at h
      cases tail with
      | nil => cases h
      | cons c tail =>
          simp only at h
          split at h
          · rename_i hc
            have hsplit := List.takeWhile_append_dropWhile (p := isDigit) (l := c :: tail)
            rw [← hsplit, parseDigits_eq hzero (noDigit_dropWhile _) (digits_takeWhile _)] at h
            split at h
            · rename_i hfits
              cases h
              refine ⟨_, ⟨?_, digits_takeWhile _⟩, ?_, noDigit_dropWhile _, rfl, hfits⟩
              · simp [hc]
              · rw [List.append_assoc, hsplit]
            · cases h
          · cases h
    · cases h
  · rintro ⟨ds, hrun, rfl, hrest, rfl, hfits⟩
    unfold parseUintField
    rw [List.append_assoc, if_pos (List.isPrefixOf_iff_prefix.mpr (List.prefix_append _ _)),
      List.drop_left]
    obtain ⟨c, ds, rfl⟩ := List.exists_cons_of_ne_nil hrun.ne_nil
    have hc := hrun.digits c List.mem_cons_self
    have hloop := parseDigits_eq hzero hrest hrun.digits
    rw [← decimalValue, if_pos hfits] at hloop
    simp only [List.cons_append, if_pos hc]
    exact hloop

theorem parseFields_eq_some {t h : ℕ} : parseFields packet = some (t, h, rest) ↔
    ∃ d₁ d₂, DigitRun d₁ ∧ DigitRun d₂ ∧
      packet = TimestampKey ++ d₁ ++ (ThresholdKey ++ d₂ ++ rest) ∧ NoDigit rest ∧
        t = decimalValue d₁ ∧ t ≤ UINT32_MAX ∧ h = decimalValue d₂ ∧ h ≤ UINT32_MAX := by
  constructor
  · intro hparse
    unfold parseFields at hparse
    split at hparse
    · cases hparse
    · rename_i timestamp mid hfirst
      split at hparse
      · cases hparse
      · rename_i threshold tail hsecond
        cases hparse
        obtain ⟨d₁, hrun₁, rfl, -, ht, htfits⟩ := parseUintField_eq_some.mp hfirst
        obtain ⟨d₂, hrun₂, rfl, hrest, hh, hhfits⟩ := parseUintField_eq_some.mp hsecond
        exact ⟨d₁, d₂, hrun₁, hrun₂, rfl, hrest, ht, htfits, hh, hhfits⟩
  · rintro ⟨d₁, d₂, hrun₁, hrun₂, rfl, hrest, ht, htfits, hh, hhfits⟩
    have hcomma : NoDigit (ThresholdKey ++ d₂ ++ rest) := by
      rintro c hc
      rw [show ThresholdKey = 44 :: ThresholdKey.tail from by decide] at hc
      cases Option.mem_def.mp hc
      decide
    have hfirst : parseUintField (TimestampKey ++ d₁ ++ (ThresholdKey ++ d₂ ++ rest)) TimestampKey =
        some (t, ThresholdKey ++ d₂ ++ rest) :=
      parseUintField_eq_some.mpr ⟨d₁, hrun₁, rfl, hcomma, ht, htfits⟩
    have hsecond : parseUintField (ThresholdKey ++ d₂ ++ rest) ThresholdKey = some (h, rest) :=
      parseUintField_eq_some.mpr ⟨d₂, hrun₂, rfl, hrest, hh, hhfits⟩
    rw [parseFields, hfirst]
    simp only [hsecond]

end PlantNode.Policy
