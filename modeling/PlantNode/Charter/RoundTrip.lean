import PlantNode.Charter.Commands
import PlantNode.Crypto.Session
import PlantNode.Policy.Update

/-!
# The command round trip

A command the charter builds and encrypts is decrypted by the device to the bytes
that were built, and the policy compartment reads both numbers back.
-/

namespace PlantNode.Charter

open Foundation Crypto Policy

variable {K : Type} {box : SecretBox K} {s : Session K} {key : K} {msgId seed : ℕ}
  {plain cipher raw : List UInt8}

theorem build_documented {t h : ℕ} (ht : t ≤ UINT32_MAX) (hh : h ≤ UINT16_MAX) :
    Documented (buildThresholdCommand t h) t h := by
  refine ⟨⟨decimal t, decimal h, decimal_run t, decimal_run h, (decimalValue_decimal t).symm,
    (decimalValue_decimal h).symm, ?_⟩, ht, hh⟩
  rw [buildThresholdCommand, decimalInt_natCast, decimalInt_natCast, List.append_nil]
  rfl

/-- Whatever numbers the charter builds from, a command that parses says them. -/
theorem parseCommand_build {now threshold : ℤ} {t h : ℕ}
    (hparse : parseCommand (buildThresholdCommand now threshold) = some (t, h)) :
    now = t ∧ threshold = h := by
  obtain ⟨rest, ⟨d₁, d₂, hrun₁, hrun₂, rfl, rfl, hbytes⟩, -, -⟩ := parseCommand_eq_some.mp hparse
  have hcomma : ∀ tail, NoDigit (ThresholdKey ++ tail) := by
    rintro tail c hc
    rw [show ThresholdKey = 44 :: ThresholdKey.tail from by decide] at hc
    cases Option.mem_def.mp hc
    decide
  have htimestamp : decimalInt now ++ (ThresholdKey ++ (decimalInt threshold ++ [closeBrace])) =
      d₁ ++ (ThresholdKey ++ (d₂ ++ closeBrace :: rest)) := by
    have hbuild : TimestampKey ++
        (decimalInt now ++ (ThresholdKey ++ (decimalInt threshold ++ [closeBrace]))) =
          buildThresholdCommand now threshold := by
      simp only [buildThresholdCommand, TimestampKey, ThresholdKey, List.append_assoc]
      rfl
    refine List.append_cancel_left (hbuild.trans ?_)
    rw [hbytes]
    simp
  obtain ⟨hnow, htail⟩ := decimalInt_append_inj hrun₁ (hcomma _) (hcomma _) htimestamp
  obtain ⟨hthreshold, -⟩ := decimalInt_append_inj hrun₂ (noDigit_closeBrace [])
    (noDigit_closeBrace rest) (List.append_cancel_left htail)
  exact ⟨hnow, hthreshold⟩

theorem encryptCommand_ok (h : encryptCommand box key msgId seed plain = .ok raw) :
    ∃ cipher, box.encrypt KBoxCtx key msgId seed plain = some cipher ∧ msgId < 2 ^ 64 ∧
      raw = toLE 8 msgId ++ cipher := by
  unfold encryptCommand at h
  split at h
  · cases h
  · rename_i cipher hcipher
    split at h
    · rename_i hid
      cases h
      exact ⟨cipher, hcipher, hid, rfl⟩
    · cases h

theorem cryptoDecrypt_eq (hready : s.sSessionReady = true)
    (hlen : hydroSecretboxHeaderBytes ≤ cipher.length) :
    cryptoDecrypt box s (some (toLE 8 msgId ++ cipher)) true =
      match box.decrypt KBoxCtx s.sSessionRxKey (msgId % 2 ^ 64) cipher with
      | none => .error .EBADMSG
      | some plain => .ok ⟨plain, cipher.length - hydroSecretboxHeaderBytes⟩ := by
  have hlong : ¬(toLE 8 msgId ++ cipher).length < 8 + hydroSecretboxHeaderBytes := by
    rw [List.length_append, length_toLE]
    omega
  have hcipherLen : (toLE 8 msgId ++ cipher).length - 8 = cipher.length := by
    rw [List.length_append, length_toLE, Nat.add_sub_cancel_left]
  simp only [cryptoDecrypt, hready, if_neg hlong, hcipherLen, List.take_left' (length_toLE 8 msgId),
    List.drop_left' (length_toLE 8 msgId), orBytes_take, ofLE_toLE]
  rfl

/-- The device reads every command the charter encrypts, and applies it if it is
new. -/
theorem command_round_trip (hbox : box.Lawful) (s : Session K) (hready : s.sSessionReady = true)
    (policy : Policy.State) {t h : ℕ} (ht : t < 2 ^ 32) (hh : h < 2 ^ 16) (hid : msgId < 2 ^ 64)
    (hcipher : box.encrypt defaultContext s.sSessionRxKey msgId seed (buildThresholdCommand t h) =
      some cipher) :
    let plain := buildThresholdCommand t h
    ∃ raw, encryptCommand box s.sSessionRxKey msgId seed plain = .ok raw ∧
      cryptoDecrypt box s (some raw) true = .ok ⟨plain, plain.length⟩ ∧
        policyUpdateThreshold policy (some plain) =
          if policy.sLastCommandTimestamp < t then
            (.ok (), { sMoistureLow := h, sLastCommandTimestamp := t })
          else (.error .EALREADY, policy) := by
  intro plain
  have hadds := hbox.adds hcipher
  have hundo : box.decrypt KBoxCtx s.sSessionRxKey msgId cipher = some plain :=
    hbox.undoes hcipher
  refine ⟨toLE 8 msgId ++ cipher, ?_, ?_, ?_⟩
  · simp only [plain, encryptCommand, hcipher, if_pos hid]
  · rw [cryptoDecrypt_eq hready (by omega), Nat.mod_eq_of_lt hid, hundo, hadds,
      Nat.add_sub_cancel]
  · have hparse : parseCommand plain = some (t, h) :=
      parseCommand_eq_some.mpr ⟨[], build_documented (by unfold UINT32_MAX; omega)
        (by unfold UINT16_MAX; omega)⟩
    rw [policyUpdateThreshold_eq, hparse]
    by_cases hnew : policy.sLastCommandTimestamp < t
    · simp only [if_pos hnew, if_neg (Nat.not_le.mpr hnew)]
    · simp only [if_neg hnew, if_pos (Nat.not_lt.mp hnew)]

/-- The last second of 32 bits and the greatest message id. -/
theorem command_round_trip_extreme :
    let plain := buildThresholdCommand (2 ^ 32 - 1 : ℕ) (65535 : ℕ)
    ∃ raw, encryptCommand .tagged 9 (2 ^ 64 - 1) 1 plain = .ok raw ∧
      cryptoDecrypt .tagged ⟨7, 9, true, 3⟩ (some raw) true = .ok ⟨plain, plain.length⟩ ∧
        policyUpdateThreshold ⟨300, 2 ^ 32 - 2⟩ (some plain) =
          (.ok (), ⟨65535, 2 ^ 32 - 1⟩) :=
  command_round_trip SecretBox.tagged_lawful ⟨7, 9, true, 3⟩ rfl ⟨300, 2 ^ 32 - 2⟩ (by norm_num)
    (by norm_num) (by norm_num) rfl

end PlantNode.Charter
