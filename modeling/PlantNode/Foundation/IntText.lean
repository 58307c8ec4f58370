import PlantNode.Foundation.Decimal
import Mathlib.Data.List.DropRight

/-!
# Integers as a user types them

`int(text.strip())` of Python.  A text is the list of its code points; which of them are
white space and which are decimal digits of some script is a parameter.  Digits may be
grouped by single underscores, a sign may stand before them, and a text with too many digits
is refused.
-/

namespace Foundation.IntText

def plus : ℕ := 43
def minus : ℕ := 45
def underscore : ℕ := 95

/-- What Python knows of characters, and the limit on the digits of a text, 0 for none. -/
structure Characters where
  space : ℕ → Bool
  decimal : ℕ → Option (Fin 10)
  maxDigits : ℕ
  plain : decimal plus = none ∧ decimal minus = none ∧ decimal underscore = none
  apart : ∀ {c d}, decimal c = some d → space c = false

/-- What is known of characters if only ASCII is. -/
def asciiCharacters : Characters where
  space c := decide (c = 32 ∨ (9 ≤ c ∧ c ≤ 13) ∨ (28 ≤ c ∧ c ≤ 31))
  decimal c := if 48 ≤ c ∧ c ≤ 57 then some (Fin.ofNat 10 (c - 48)) else none
  maxDigits := 4300
  plain := by decide
  apart {c d} h := by
    by_cases hdigit : 48 ≤ c ∧ c ≤ 57
    · simp
      omega
    · rw [if_neg hdigit] at h
      cases h

/-- `text.strip()` -/
def strip (space : ℕ → Bool) (text : List ℕ) : List ℕ := (text.dropWhile space).rdropWhile space

/-- The digits from here on; the flag says that the last character was one. -/
def scanDigits (decimal : ℕ → Option (Fin 10)) : Bool → List ℕ → Option (List (Fin 10))
  | afterDigit, [] => if afterDigit then some [] else none
  | afterDigit, c :: rest =>
      if c = underscore then if afterDigit then scanDigits decimal false rest else none
      else match decimal c with
        | none => none
        | some d => (scanDigits decimal true rest).map (d :: ·)

def value (digits : List (Fin 10)) : ℕ := Nat.ofDigits 10 (digits.map Fin.val).reverse

def magnitude (chars : Characters) (text : List ℕ) : Option ℕ :=
  (scanDigits chars.decimal false text).bind fun digits ↦
    if chars.maxDigits ≠ 0 ∧ chars.maxDigits < digits.length then none else some (value digits)

/-- `int(text)`, of a text without white space at its ends; `none` is a `ValueError`. -/
def parseInt (chars : Characters) : List ℕ → Option ℤ
  | [] => none
  | c :: rest =>
      if c = plus then (magnitude chars rest).map fun n : ℕ ↦ (n : ℤ)
      else if c = minus then (magnitude chars rest).map fun n : ℕ ↦ -(n : ℤ)
      else (magnitude chars (c :: rest)).map fun n : ℕ ↦ (n : ℤ)

/-! ## The grammar -/

/-- `digit (["_"] digit)*` -/
inductive Grouped (decimal : ℕ → Option (Fin 10)) : List ℕ → List (Fin 10) → Prop where
  | last {c : ℕ} {d : Fin 10} (digit : decimal c = some d) : Grouped decimal [c] [d]
  | next {c : ℕ} {d : Fin 10} {text : List ℕ} {digits : List (Fin 10)}
      (digit : decimal c = some d) (rest : Grouped decimal text digits) :
      Grouped decimal (c :: text) (d :: digits)
  | group {c : ℕ} {d : Fin 10} {text : List ℕ} {digits : List (Fin 10)}
      (digit : decimal c = some d) (rest : Grouped decimal text digits) :
      Grouped decimal (c :: underscore :: text) (d :: digits)

def Unsigned (chars : Characters) (text : List ℕ) (n : ℕ) : Prop :=
  ∃ digits, Grouped chars.decimal text digits ∧
    (chars.maxDigits = 0 ∨ digits.length ≤ chars.maxDigits) ∧ value digits = n

/-- The texts of a number. -/
inductive Literal (chars : Characters) : List ℕ → ℤ → Prop where
  | unsigned {text : List ℕ} {n : ℕ} (rest : Unsigned chars text n) : Literal chars text n
  | positive {text : List ℕ} {n : ℕ} (rest : Unsigned chars text n) :
      Literal chars (plus :: text) n
  | negative {text : List ℕ} {n : ℕ} (rest : Unsigned chars text n) :
      Literal chars (minus :: text) (-n)

variable {decimal : ℕ → Option (Fin 10)} {chars : Characters} {c n : ℕ} {text : List ℕ}
  {digits : List (Fin 10)} {z : ℤ}

/-- What can stand after a digit. -/
def AfterDigit (decimal : ℕ → Option (Fin 10)) (text : List ℕ) (digits : List (Fin 10)) : Prop :=
  (text = [] ∧ digits = []) ∨ Grouped decimal text digits ∨
    ∃ rest, text = underscore :: rest ∧ Grouped decimal rest digits

theorem not_grouped_nil : ¬Grouped decimal [] digits := by
  intro h
  cases h

theorem grouped_cons : Grouped decimal (c :: text) digits ↔
    ∃ d rest, decimal c = some d ∧ digits = d :: rest ∧ AfterDigit decimal text rest := by
  constructor
  · intro h
    cases h with
    | last digit => exact ⟨_, _, digit, rfl, .inl ⟨rfl, rfl⟩⟩
    | next digit rest => exact ⟨_, _, digit, rfl, .inr (.inl rest)⟩
    | group digit rest => exact ⟨_, _, digit, rfl, .inr (.inr ⟨_, rfl, rest⟩)⟩
  · rintro ⟨d, rest, digit, rfl, ⟨rfl, rfl⟩ | hnext | ⟨text', rfl, hgroup⟩⟩
    · exact .last digit
    · exact .next digit hnext
    · exact .group digit hgroup

theorem not_grouped_of_none (h : decimal c = none) : ¬Grouped decimal (c :: text) digits := by
  rintro hgrouped
  obtain ⟨d, rest, hdigit, -⟩ := grouped_cons.mp hgrouped
  cases h.symm.trans hdigit

theorem scanDigits_iff (hplain : decimal underscore = none) (text : List ℕ) :
    ∀ digits, (scanDigits decimal false text = some digits ↔ Grouped decimal text digits) ∧
      (scanDigits decimal true text = some digits ↔ AfterDigit decimal text digits) := by
  induction text with
  | nil =>
      intro digits
      constructor
      · simp [scanDigits, not_grouped_nil]
      · simp [scanDigits, AfterDigit, not_grouped_nil, eq_comm]
  | cons c text ih =>
      intro digits
      by_cases hc : c = underscore
      · subst hc
        have hnot := @not_grouped_of_none _ _ text digits hplain
        refine ⟨by simp [scanDigits, hnot], ?_⟩
        simp [scanDigits, AfterDigit, hnot, (ih digits).1]
      cases hdecimal : decimal c with
      | none =>
          have hnot := @not_grouped_of_none _ _ text digits hdecimal
          constructor
          · simp [scanDigits, hc, hdecimal, hnot]
          · simp [scanDigits, AfterDigit, hc, hdecimal, hnot]
      | some d =>
          have hscan : ∀ after, scanDigits decimal after (c :: text) = some digits ↔
              Grouped decimal (c :: text) digits := by
            intro after
            simp only [scanDigits, if_neg hc, hdecimal, Option.map_eq_some_iff]
            rw [grouped_cons]
            constructor
            · rintro ⟨rest, hrest, rfl⟩
              exact ⟨d, rest, hdecimal, rfl, (ih rest).2.mp hrest⟩
            · rintro ⟨d', rest, hdigit, rfl, hrest⟩
              cases hdecimal.symm.trans hdigit
              exact ⟨rest, (ih rest).2.mpr hrest, rfl⟩
          refine ⟨hscan false, (hscan true).trans ?_⟩
          simp [AfterDigit, hc]

theorem magnitude_iff : magnitude chars text = some n ↔ Unsigned chars text n := by
  have hscan := scanDigits_iff chars.plain.2.2 text
  have hlimit : ∀ k : ℕ, ¬(chars.maxDigits ≠ 0 ∧ chars.maxDigits < k) ↔
      (chars.maxDigits = 0 ∨ k ≤ chars.maxDigits) := by
    intro k
    omega
  rw [magnitude, Option.bind_eq_some_iff]
  constructor
  · rintro ⟨digits, hdigits, h⟩
    split at h
    · cases h
    · rename_i hshort
      exact ⟨digits, (hscan digits).1.mp hdigits, (hlimit _).mp hshort, Option.some.inj h⟩
  · rintro ⟨digits, hgrouped, hshort, hvalue⟩
    exact ⟨digits, (hscan digits).1.mpr hgrouped, by rw [if_neg ((hlimit _).mpr hshort), hvalue]⟩

theorem Unsigned.not_sign (h : Unsigned chars (c :: text) n) : c ≠ plus ∧ c ≠ minus := by
  obtain ⟨digits, hgrouped, -⟩ := h
  obtain ⟨d, rest, hdigit, -⟩ := grouped_cons.mp hgrouped
  constructor
  · rintro rfl
    cases chars.plain.1.symm.trans hdigit
  · rintro rfl
    cases chars.plain.2.1.symm.trans hdigit

/-- `int` reads exactly the texts of the grammar. -/
theorem parseInt_iff : parseInt chars text = some z ↔ Literal chars text z := by
  cases text with
  | nil =>
      constructor
      · intro h
        cases h
      · intro h
        cases h with
        | unsigned rest =>
            obtain ⟨digits, hgrouped, -⟩ := rest
            exact absurd hgrouped not_grouped_nil
  | cons c text =>
      rw [parseInt]
      constructor
      · intro h
        split at h
        · rename_i hplus
          obtain ⟨n, hn, rfl⟩ := Option.map_eq_some_iff.mp h
          exact hplus ▸ .positive (magnitude_iff.mp hn)
        split at h
        · rename_i hminus
          obtain ⟨n, hn, rfl⟩ := Option.map_eq_some_iff.mp h
          exact hminus ▸ .negative (magnitude_iff.mp hn)
        · obtain ⟨n, hn, rfl⟩ := Option.map_eq_some_iff.mp h
          exact .unsigned (magnitude_iff.mp hn)
      · intro h
        cases h with
        | unsigned rest =>
            rw [if_neg rest.not_sign.1, if_neg rest.not_sign.2, magnitude_iff.mpr rest]
            rfl
        | positive rest =>
            rw [if_pos rfl, magnitude_iff.mpr rest]
            rfl
        | negative rest =>
            rw [if_neg (by decide), if_pos rfl, magnitude_iff.mpr rest]
            rfl

/-! ## Plain numbers -/

def Ascii (chars : Characters) : Prop := ∀ d : Fin 10, chars.decimal (48 + d.val) = some d

theorem grouped_map (hascii : Ascii chars) (hne : digits ≠ []) :
    Grouped chars.decimal (digits.map fun d ↦ 48 + d.val) digits := by
  induction digits with
  | nil => exact absurd rfl hne
  | cons d digits ih =>
      cases digits with
      | nil => exact .last (hascii d)
      | cons d' digits => exact .next (hascii d) (ih (by simp))

/-- A run of digits is a text for its value, with or without leading zeros. -/
theorem unsigned_run (hascii : Ascii chars) {run : List UInt8} (hrun : DigitRun run)
    (hshort : chars.maxDigits = 0 ∨ run.length ≤ chars.maxDigits) :
    Unsigned chars (run.map UInt8.toNat) (decimalValue run) := by
  let digits : List (Fin 10) := run.map fun b ↦ Fin.ofNat 10 (digitOf b)
  have hval : ∀ b ∈ run, (Fin.ofNat 10 (digitOf b)).val = digitOf b := fun b hb ↦
    Nat.mod_eq_of_lt (digitOf_lt (hrun.digits b hb))
  have hcodes : digits.map (fun d ↦ 48 + d.val) = run.map UInt8.toNat := by
    rw [List.map_map]
    refine List.map_congr_left fun b hb ↦ ?_
    have hdigit := hrun.digits b hb
    simp only [isDigit, decide_eq_true_eq] at hdigit
    rw [Function.comp_apply, hval b hb, digitOf]
    omega
  have hvalue : value digits = decimalValue run := by
    have hbytes : (((digits.map Fin.val).reverse).map digitByte).reverse = run := by
      rw [← List.map_reverse, List.reverse_reverse, List.map_map, List.map_map]
      refine (List.map_congr_left fun b hb ↦ ?_).trans (List.map_id run)
      have hdigit := hrun.digits b hb
      simp only [isDigit, decide_eq_true_eq] at hdigit
      apply UInt8.toNat.inj
      rw [Function.comp_apply, Function.comp_apply, hval b hb,
        toNat_digitByte (digitOf_lt (hrun.digits b hb)), digitOf]
      simp only [id]
      omega
    rw [value, ← decimalValue_digits, hbytes]
    intro d hd
    obtain ⟨b, -, rfl⟩ := List.mem_map.mp (List.mem_reverse.mp hd)
    exact b.isLt
  refine ⟨digits, hcodes ▸ grouped_map hascii ?_, ?_, hvalue⟩
  · simpa [digits] using hrun.ne_nil
  · simpa [digits] using hshort

theorem strip_padded {space : ℕ → Bool} {before after : List ℕ}
    (hbefore : ∀ c ∈ before, space c = true) (hafter : ∀ c ∈ after, space c = true)
    (htext : ∀ c ∈ text, space c = false) : strip space (before ++ text ++ after) = text := by
  have hend : ∀ l : List ℕ, (l ++ after).rdropWhile space = l.rdropWhile space := by
    intro l
    rw [List.rdropWhile, List.reverse_append, List.dropWhile_append_of_pos, List.rdropWhile]
    exact fun c hc ↦ hafter c (List.mem_reverse.mp hc)
  rw [strip, List.append_assoc, List.dropWhile_append_of_pos hbefore]
  cases text with
  | nil => rw [List.nil_append, List.dropWhile_eq_nil_iff.mpr hafter, List.rdropWhile_nil]
  | cons c text =>
      have hc : ¬space c = true := Bool.eq_false_iff.mp (htext c List.mem_cons_self)
      rw [List.cons_append, List.dropWhile_cons_of_neg hc, ← List.cons_append, hend]
      refine List.rdropWhile_eq_self_iff.mpr fun hne ↦ ?_
      exact Bool.eq_false_iff.mp (htext _ (List.getLast_mem hne))

/-- A number is read back from its digits, with white space around them. -/
theorem parseInt_strip (hascii : Ascii chars) {run : List UInt8} (hrun : DigitRun run)
    (hshort : chars.maxDigits = 0 ∨ run.length ≤ chars.maxDigits) {before after : List ℕ}
    (hbefore : ∀ c ∈ before, chars.space c = true) (hafter : ∀ c ∈ after, chars.space c = true) :
    parseInt chars (strip chars.space (before ++ run.map UInt8.toNat ++ after)) =
      some (decimalValue run : ℤ) := by
  rw [strip_padded hbefore hafter]
  · exact parseInt_iff.mpr (.unsigned (unsigned_run hascii hrun hshort))
  · intro c hc
    obtain ⟨b, hb, rfl⟩ := List.mem_map.mp hc
    have hdigit := hrun.digits b hb
    simp only [isDigit, decide_eq_true_eq] at hdigit
    have hcode := hascii ⟨b.toNat - 48, by omega⟩
    rw [Nat.add_sub_cancel' hdigit.1] at hcode
    exact chars.apart hcode

end Foundation.IntText
