import PlantNode.Foundation.JsonObjects

/-!
# Reading back an object of integers

A numeral is read back as its integer, and so the compact text of an object whose
members are integers as that object.
-/

namespace Foundation.Json

def memberText (m : List UInt8 × ℤ) : List UInt8 :=
  quote :: m.1 ++ quote :: colon :: decimalInt m.2

/-- The members after the first, each after a comma, and the closing brace. -/
def membersText : List (List UInt8 × ℤ) → List UInt8
  | [] => [closeBrace]
  | m :: ms => comma :: memberText m ++ membersText ms

variable {rest : List UInt8} {fuel : ℕ}

theorem EndsNumber.noDigit (h : EndsNumber rest) : NoDigit rest := by
  intro c hc
  rcases h c hc with rfl | rfl <;> decide

theorem scanWhole_decimal (k : ℕ) (hrest : NoDigit rest) :
    scanWhole (decimal k ++ rest) = some (decimal k, rest) := by
  by_cases hk : k = 0
  · subst hk
    simp [scanWhole, decimal]
  · obtain ⟨d, ds, heq, hpos, hlt⟩ := decimal_eq_cons hk
    have hdigits := (decimal_run k).digits
    have htake := takeWhile_digits hdigits hrest
    have hdrop := dropWhile_digits hdigits hrest
    rw [heq] at htake hdrop ⊢
    have hne : digitByte d ≠ digitByte 0 := fun h ↦ by
      have := congrArg UInt8.toNat h
      rw [toNat_digitByte hlt, toNat_digitByte (by norm_num)] at this
      omega
    rw [List.cons_append] at htake hdrop ⊢
    rw [scanWhole, if_neg hne, if_pos (isDigit_digitByte hlt), htake, hdrop]

theorem scanFraction_none (h : EndsNumber rest) : scanFraction rest = ([], rest) := by
  unfold scanFraction
  split
  · rename_i c d rest
    have hc : c ≠ point := by
      rcases h c rfl with rfl | rfl <;> decide
    simp [hc]
  · rfl

theorem scanExponent_none (h : EndsNumber rest) : scanExponent rest = ([], rest) := by
  cases rest with
  | nil => rfl
  | cons c rest =>
      have hc : ¬(c = 0x65 ∨ c = 0x45) := by
        rcases h c rfl with rfl | rfl <;> decide
      simp only [scanExponent, hc, false_and, if_false]

theorem scanUnsigned_decimal (negative : Bool) (k : ℕ) (h : EndsNumber rest) :
    scanUnsigned negative (decimal k ++ rest) =
      some (.int (if negative then -(k : ℤ) else k), rest) := by
  simp [scanUnsigned, scanWhole_decimal k h.noDigit, scanFraction_none h, scanExponent_none h,
    decimalValue_decimal]

theorem head_decimal (k : ℕ) : ∃ c ds, decimal k = c :: ds ∧ isDigit c = true := by
  obtain ⟨c, ds, heq⟩ := List.exists_cons_of_ne_nil (decimal_run k).ne_nil
  exact ⟨c, ds, heq, (decimal_run k).digits c (by simp [heq])⟩

theorem scanNumber_decimalInt (n : ℤ) (h : EndsNumber rest) :
    scanNumber (decimalInt n ++ rest) = some (.int n, rest) := by
  unfold decimalInt scanNumber
  split
  · rw [List.cons_append, List.head?_cons, if_pos rfl, List.tail_cons, scanUnsigned_decimal _ _ h,
      if_pos rfl, show -(n.natAbs : ℤ) = n by omega]
  · have hminus : (decimal n.natAbs ++ rest).head? ≠ some minusSign := by
      obtain ⟨c, ds, heq, hc⟩ := head_decimal n.natAbs
      rw [heq]
      intro hhead
      rw [Option.some.inj hhead] at hc
      exact absurd hc (by decide)
    rw [if_neg hminus, scanUnsigned_decimal _ _ h, if_neg (by decide),
      show (n.natAbs : ℤ) = n by omega]

theorem head_decimalInt (n : ℤ) :
    ∃ c ds, decimalInt n = c :: ds ∧ (c = minusSign ∨ isDigit c = true) := by
  unfold decimalInt
  split
  · exact ⟨minusSign, _, rfl, .inl rfl⟩
  · obtain ⟨c, ds, heq, hc⟩ := head_decimal n.natAbs
    exact ⟨c, ds, heq, .inr hc⟩

/-- A sign or a digit starts nothing else. -/
theorem startsInt_ne {c d : UInt8} (hc : c = minusSign ∨ isDigit c = true)
    (hd : d ≠ minusSign ∧ isDigit d = false) : c ≠ d := by
  rintro rfl
  rcases hc with hc | hc
  · exact hd.1 hc
  · exact absurd (hd.2.symm.trans hc) (by decide)

theorem scanValue_decimalInt (n : ℤ) (h : EndsNumber rest) :
    scanValue (fuel + 1) (decimalInt n ++ rest) = some (.int n, rest) := by
  obtain ⟨c, ds, heq, hc⟩ := head_decimalInt n
  have hnumber := scanNumber_decimalInt n h
  rw [heq, List.cons_append] at hnumber ⊢
  have hnone : scanLiteral literals (c :: (ds ++ rest)) = none := by
    have hnull : ascii "null" = 0x6e :: ascii "ull" := by decide
    have htrue : ascii "true" = 0x74 :: ascii "rue" := by decide
    have hfalse : ascii "false" = 0x66 :: ascii "alse" := by decide
    simp [scanLiteral, literals, hnull, htrue, hfalse, List.isPrefixOf,
      (startsInt_ne hc (d := 0x6e) (by decide)).symm,
      (startsInt_ne hc (d := 0x74) (by decide)).symm,
      (startsInt_ne hc (d := 0x66) (by decide)).symm]
  rw [scanValue, if_neg (startsInt_ne hc (by decide)), if_neg (startsInt_ne hc (by decide)),
    if_neg (startsInt_ne hc (by decide)), hnone, hnumber]
  rfl

theorem skipSpace_decimalInt (n : ℤ) (rest : List UInt8) :
    skipSpace (decimalInt n ++ rest) = decimalInt n ++ rest := by
  obtain ⟨c, ds, heq, hc⟩ := head_decimalInt n
  have hspace : isSpace c = false := by
    simp only [isSpace, beq_eq_false_iff_ne.mpr (startsInt_ne hc (d := 0x20) (by decide)),
      beq_eq_false_iff_ne.mpr (startsInt_ne hc (d := 0x09) (by decide)),
      beq_eq_false_iff_ne.mpr (startsInt_ne hc (d := 0x0a) (by decide)),
      beq_eq_false_iff_ne.mpr (startsInt_ne hc (d := 0x0d) (by decide)), Bool.or_self]
  simp [heq, skipSpace, hspace]

theorem scans_decimalInt (n : ℤ) : Scans (decimalInt n) (.int n) where
  starts := skipSpace_decimalInt n
  scans _ _ := scanValue_decimalInt n

def intField (m : List UInt8 × ℤ) : Field := ⟨m.1, decimalInt m.2, .int m.2⟩

theorem membersText_eq (ms : List (List UInt8 × ℤ)) :
    membersText ms = fieldsText (ms.map intField) := by
  induction ms with
  | nil => rfl
  | cons m ms ih =>
      simp only [membersText, List.map_cons, fieldsText, ih, memberText, fieldText, intField]

/-- The compact text of an object of integers is read back as that object. -/
theorem loads_object (m : List UInt8 × ℤ) (ms : List (List UInt8 × ℤ))
    (hkeys : ∀ x ∈ m :: ms, PlainKey x.1) (hnodup : ((m :: ms).map Prod.fst).Nodup) :
    loads (openBrace :: (memberText m ++ membersText ms)) =
      some (.object ((m :: ms).map fun x ↦ (points x.1, .int x.2))) := by
  rw [membersText_eq]
  have hfields := loads_fields (intField m) (ms.map intField) ?_ ?_ ?_
  · rw [← List.map_cons, List.map_map] at hfields
    exact hfields
  · rw [← List.map_cons]
    exact List.forall_mem_map.mpr hkeys
  · rw [← List.map_cons]
    exact List.forall_mem_map.mpr fun x _ ↦ scans_decimalInt x.2
  · rw [← List.map_cons, List.map_map]
    exact hnodup

end Foundation.Json
