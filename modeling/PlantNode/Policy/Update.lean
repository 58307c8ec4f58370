import PlantNode.Policy.Parser

/-!
# Threshold updates

The state of the policy compartment and `policy_update_threshold`.  A null packet
is `none`.
-/

namespace PlantNode.Policy

open Foundation

/-- The statics of `policy_engine.cc`. -/
structure State where
  sMoistureLow : ℕ
  sLastCommandTimestamp : ℕ
  deriving DecidableEq, Repr

def State.boot : State where
  sMoistureLow := 300
  sLastCommandTimestamp := 0

def policyUpdateThreshold (s : State) : Option (List UInt8) → Ret × State
  | none => (.error .EINVAL, s)
  | some packet =>
      match parseFields packet with
      | none => (.error .EINVAL, s)
      | some (timestamp, threshold, rest) =>
          if rest.head? ≠ some closeBrace then (.error .EINVAL, s)
          else if UINT16_MAX < threshold then (.error .EINVAL, s)
          else if timestamp ≤ s.sLastCommandTimestamp then (.error .EALREADY, s)
          else (.ok (), { sMoistureLow := threshold % 2 ^ 16, sLastCommandTimestamp := timestamp })

/-- The timestamp and the threshold of a packet that passes every check but the
staleness check. -/
def parseCommand (packet : List UInt8) : Option (ℕ × ℕ) :=
  match parseFields packet with
  | none => none
  | some (timestamp, threshold, rest) =>
      if rest.head? ≠ some closeBrace then none
      else if UINT16_MAX < threshold then none
      else some (timestamp, threshold)

variable {s : State} {packet : List UInt8} {t h : ℕ}

theorem policyUpdateThreshold_eq (s : State) (packet : List UInt8) :
    policyUpdateThreshold s (some packet) =
      match parseCommand packet with
      | none => (.error .EINVAL, s)
      | some (t, h) =>
          if t ≤ s.sLastCommandTimestamp then (.error .EALREADY, s) else (.ok (), ⟨h, t⟩) := by
  unfold policyUpdateThreshold parseCommand
  cases hfields : parseFields packet with
  | none => simp only [hfields]
  | some fields =>
      obtain ⟨timestamp, threshold, rest⟩ := fields
      simp only [hfields]
      by_cases hbrace : rest.head? = some closeBrace
      · by_cases hrange : UINT16_MAX < threshold
        · simp [hbrace, hrange]
        · have hmod : threshold % 2 ^ 16 = threshold := by
            apply Nat.mod_eq_of_lt
            unfold UINT16_MAX at hrange
            omega
          simp only [hbrace, ne_eq, not_true_eq_false, if_false, if_neg hrange, hmod]
      · simp [hbrace]

theorem policyUpdateThreshold_error {e : Errno} {s' : State}
    (hrun : policyUpdateThreshold s (some packet) = (.error e, s')) : s' = s := by
  rw [policyUpdateThreshold_eq] at hrun
  split at hrun
  · cases hrun
    rfl
  · split at hrun <;> cases hrun
    rfl

theorem policyUpdateThreshold_ok {s' : State}
    (hrun : policyUpdateThreshold s (some packet) = (.ok (), s')) :
    ∃ t h, parseCommand packet = some (t, h) ∧ s.sLastCommandTimestamp < t ∧ s' = ⟨h, t⟩ := by
  rw [policyUpdateThreshold_eq] at hrun
  split at hrun
  · cases hrun
  · rename_i t h hparse
    split at hrun
    · cases hrun
    · rename_i hnew
      cases hrun
      exact ⟨t, h, hparse, Nat.not_le.mp hnew, rfl⟩

/-! ## The documented format -/

/-- `packet` is `{"timestamp":<uint32>,"threshold":<uint16>}` followed by `rest`. -/
structure Formatted (packet : List UInt8) (t h : ℕ) (rest : List UInt8) : Prop where
  bytes : ∃ d₁ d₂, DigitRun d₁ ∧ DigitRun d₂ ∧ t = decimalValue d₁ ∧ h = decimalValue d₂ ∧
    packet = TimestampKey ++ d₁ ++ ThresholdKey ++ d₂ ++ [closeBrace] ++ rest
  timestamp : t ≤ UINT32_MAX
  threshold : h ≤ UINT16_MAX

/-- The one format the header documents. -/
abbrev Documented (packet : List UInt8) (t h : ℕ) : Prop := Formatted packet t h []

theorem noDigit_closeBrace (rest : List UInt8) : NoDigit (closeBrace :: rest) := by
  rintro c hc
  cases Option.mem_def.mp hc
  decide

theorem formatted_iff {rest : List UInt8} : Formatted packet t h rest ↔
    parseFields packet = some (t, h, closeBrace :: rest) ∧ h ≤ UINT16_MAX := by
  constructor
  · rintro ⟨⟨d₁, d₂, hrun₁, hrun₂, ht, hh, rfl⟩, htfits, hrange⟩
    have hwide : h ≤ UINT32_MAX := hrange.trans (by decide)
    refine ⟨parseFields_eq_some.mpr ⟨d₁, d₂, hrun₁, hrun₂, ?_, noDigit_closeBrace rest, ht,
      htfits, hh, hwide⟩, hrange⟩
    simp
  · rintro ⟨hfields, hrange⟩
    obtain ⟨d₁, d₂, hrun₁, hrun₂, rfl, -, ht, htfits, hh, -⟩ := parseFields_eq_some.mp hfields
    exact ⟨⟨d₁, d₂, hrun₁, hrun₂, ht, hh, by simp⟩, htfits, hrange⟩

/-- The parser accepts the documented format, whatever follows it. -/
theorem parseCommand_eq_some :
    parseCommand packet = some (t, h) ↔ ∃ rest, Formatted packet t h rest := by
  simp only [formatted_iff]
  constructor
  · intro hparse
    unfold parseCommand at hparse
    split at hparse
    · cases hparse
    rename_i timestamp threshold rest hfields
    split at hparse
    · cases hparse
    rename_i hbrace
    split at hparse
    · cases hparse
    rename_i hrange
    cases hparse
    obtain ⟨tail, rfl⟩ := List.head?_eq_some_iff.mp (not_not.mp hbrace)
    exact ⟨tail, hfields, Nat.not_lt.mp hrange⟩
  · rintro ⟨rest, hfields, hrange⟩
    rw [parseCommand, hfields]
    simp [Nat.not_lt.mpr hrange]

end PlantNode.Policy
