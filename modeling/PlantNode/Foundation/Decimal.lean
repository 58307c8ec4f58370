import Mathlib.Data.List.TakeWhile
import Mathlib.Data.Nat.Digits.Lemmas

/-!
# Decimal numerals as bytes

`decimal` prints a number without leading zeros; `decimalValue` reads any run of
digits.  A reader that takes the longest run of digits takes a numeral exactly
when no digit follows it.
-/

namespace Foundation

def ascii (s : String) : List UInt8 :=
  s.toList.map fun c ↦ UInt8.ofNat c.toNat

def isDigit (c : UInt8) : Bool :=
  decide (48 ≤ c.toNat ∧ c.toNat ≤ 57)

def digitOf (c : UInt8) : ℕ := c.toNat - 48

def digitByte (d : ℕ) : UInt8 := UInt8.ofNat (48 + d)

def decimalFrom (v : ℕ) (ds : List UInt8) : ℕ :=
  ds.foldl (fun v c ↦ v * 10 + digitOf c) v

def decimalValue (ds : List UInt8) : ℕ := decimalFrom 0 ds

def decimal (n : ℕ) : List UInt8 :=
  if n = 0 then [digitByte 0] else ((Nat.digits 10 n).map digitByte).reverse

def minusSign : UInt8 := 0x2d

def decimalInt (n : ℤ) : List UInt8 :=
  if n < 0 then minusSign :: decimal n.natAbs else decimal n.natAbs

structure DigitRun (ds : List UInt8) : Prop where
  ne_nil : ds ≠ []
  digits : ∀ c ∈ ds, isDigit c = true

def NoDigit (rest : List UInt8) : Prop :=
  ∀ c ∈ rest.head?, isDigit c = false

section Digits

variable {d v n k : ℕ} {c : UInt8} {ds rest : List UInt8}

theorem toNat_digitByte (h : d < 10) : (digitByte d).toNat = 48 + d := by
  apply UInt8.toNat_ofNat_of_lt'
  rw [show UInt8.size = 256 from rfl]
  omega

theorem isDigit_digitByte (h : d < 10) : isDigit (digitByte d) = true := by
  simp only [isDigit, toNat_digitByte h, decide_eq_true_eq]
  omega

theorem digitOf_digitByte (h : d < 10) : digitOf (digitByte d) = d := by
  rw [digitOf, toNat_digitByte h, Nat.add_sub_cancel_left]

theorem digitOf_lt (h : isDigit c = true) : digitOf c < 10 := by
  simp only [isDigit, decide_eq_true_eq] at h
  unfold digitOf
  omega

@[simp] theorem decimalFrom_nil (v : ℕ) : decimalFrom v [] = v := rfl

@[simp] theorem decimalFrom_cons (v : ℕ) (c : UInt8) (ds : List UInt8) :
    decimalFrom v (c :: ds) = decimalFrom (v * 10 + digitOf c) ds := by
  rw [decimalFrom, List.foldl_cons, decimalFrom]

theorem decimalFrom_append (v : ℕ) (xs ys : List UInt8) :
    decimalFrom v (xs ++ ys) = decimalFrom (decimalFrom v xs) ys :=
  List.foldl_append

theorem le_decimalFrom (v : ℕ) (ds : List UInt8) : v ≤ decimalFrom v ds := by
  induction ds generalizing v with
  | nil => exact le_rfl
  | cons c ds ih =>
      calc v ≤ v * 10 + digitOf c := by omega
        _ ≤ decimalFrom (v * 10 + digitOf c) ds := ih _

theorem decimalValue_digits (l : List ℕ) (h : ∀ d ∈ l, d < 10) :
    decimalValue (l.map digitByte).reverse = Nat.ofDigits 10 l := by
  induction l with
  | nil => rfl
  | cons d l ih =>
      have ih := ih fun x hx ↦ h x (List.mem_cons_of_mem _ hx)
      rw [List.map_cons, List.reverse_cons, decimalValue, decimalFrom_append]
      rw [show decimalFrom 0 (l.map digitByte).reverse = Nat.ofDigits 10 l from ih]
      simp only [decimalFrom_cons, decimalFrom_nil, digitOf_digitByte (h d List.mem_cons_self),
        Nat.ofDigits_cons]
      ring

theorem decimalValue_decimal (n : ℕ) : decimalValue (decimal n) = n := by
  unfold decimal
  split
  · subst n
    rfl
  · rw [decimalValue_digits _ fun d hd ↦ Nat.digits_lt_base (by norm_num) hd,
      Nat.ofDigits_digits]

theorem decimal_run (n : ℕ) : DigitRun (decimal n) := by
  unfold decimal
  split
  · exact ⟨by simp, by simp [isDigit_digitByte]⟩
  · refine ⟨by simpa [Nat.digits_eq_nil_iff_eq_zero], fun c hc ↦ ?_⟩
    obtain ⟨d, hd, rfl⟩ := List.mem_map.mp (List.mem_reverse.mp hc)
    exact isDigit_digitByte (Nat.digits_lt_base (by norm_num) hd)

theorem length_decimal_le (hk : 0 < k) (h : n < 10 ^ k) : (decimal n).length ≤ k := by
  unfold decimal
  split
  · exact hk
  · rw [List.length_reverse, List.length_map]
    exact (Nat.digits_length_le_iff (by norm_num) n).mpr h

@[simp] theorem decimalInt_natCast (n : ℕ) : decimalInt n = decimal n := by
  rw [decimalInt, if_neg (by omega), Int.natAbs_natCast]

/-- No leading zero. -/
theorem decimal_eq_cons (hn : n ≠ 0) : ∃ d ds, decimal n = digitByte d :: ds ∧ 0 < d ∧ d < 10 := by
  have hne : Nat.digits 10 n ≠ [] := Nat.digits_ne_nil_iff_ne_zero.mpr hn
  refine ⟨(Nat.digits 10 n).getLast hne, ((Nat.digits 10 n).dropLast.map digitByte).reverse, ?_,
    Nat.pos_of_ne_zero (Nat.getLast_digit_ne_zero 10 hn),
    Nat.digits_lt_base (by norm_num) (List.getLast_mem hne)⟩
  rw [decimal, if_neg hn]
  conv_lhs => rw [← List.dropLast_append_getLast hne]
  rw [List.map_append, List.reverse_append]
  rfl

theorem takeWhile_digits (hds : ∀ c ∈ ds, isDigit c = true) (hrest : NoDigit rest) :
    (ds ++ rest).takeWhile isDigit = ds := by
  rw [List.takeWhile_append_of_pos hds]
  cases rest with
  | nil => simp
  | cons c rest =>
      have hc := hrest c rfl
      simp [hc]

theorem dropWhile_digits (hds : ∀ c ∈ ds, isDigit c = true) (hrest : NoDigit rest) :
    (ds ++ rest).dropWhile isDigit = rest := by
  rw [List.dropWhile_append_of_pos hds]
  cases rest with
  | nil => simp
  | cons c rest =>
      have hc := hrest c rfl
      simp [hc]

theorem noDigit_dropWhile (l : List UInt8) : NoDigit (l.dropWhile isDigit) := by
  intro c hc
  have h := List.head?_dropWhile_not isDigit l
  rw [Option.mem_def.mp hc] at h
  simpa using h

theorem digits_takeWhile (l : List UInt8) : ∀ c ∈ l.takeWhile isDigit, isDigit c = true :=
  fun _ hc ↦ List.mem_takeWhile_imp hc

theorem takeWhile_append_inj {ds' rest' : List UInt8} (hds : ∀ c ∈ ds, isDigit c = true)
    (hds' : ∀ c ∈ ds', isDigit c = true) (hrest : NoDigit rest) (hrest' : NoDigit rest')
    (h : ds ++ rest = ds' ++ rest') : ds = ds' ∧ rest = rest' := by
  have htake := congrArg (List.takeWhile isDigit) h
  have hdrop := congrArg (List.dropWhile isDigit) h
  rw [takeWhile_digits hds hrest, takeWhile_digits hds' hrest'] at htake
  rw [dropWhile_digits hds hrest, dropWhile_digits hds' hrest'] at hdrop
  exact ⟨htake, hdrop⟩

/-- A run of digits where an integer was printed is that integer. -/
theorem decimalInt_append_inj {m : ℤ} {rest' : List UInt8} (hds : DigitRun ds)
    (hrest : NoDigit rest) (hrest' : NoDigit rest') (h : decimalInt m ++ rest = ds ++ rest') :
    m = decimalValue ds ∧ rest = rest' := by
  unfold decimalInt at h
  split at h
  · obtain ⟨c, ds, rfl⟩ := List.exists_cons_of_ne_nil hds.ne_nil
    have hc := hds.digits c List.mem_cons_self
    rw [← (List.cons.inj h).1] at hc
    exact absurd hc (by decide)
  · rename_i hm
    obtain ⟨rfl, htail⟩ := takeWhile_append_inj (decimal_run _).digits hds.digits hrest hrest' h
    exact ⟨by rw [decimalValue_decimal]; omega, htail⟩

end Digits

end Foundation
