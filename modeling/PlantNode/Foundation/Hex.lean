import Mathlib.Data.List.TakeDrop
import Mathlib.Tactic.NormNum

/-!
# Hexadecimal dumps

Two digits a byte, and a blank after every fourth byte that is not the last.
-/

namespace Foundation

/-- `substring(text, offset, length)` -/
def substring (text : List Char) (offset length : ℕ) : List Char :=
  (text.drop offset).take length

def lower (text : List Char) : List Char := text.map Char.toLower

theorem lower_substring (text : List Char) (offset length : ℕ) :
    lower (substring text offset length) = substring (lower text) offset length := by
  rw [substring, lower, List.map_take, List.map_drop]
  rfl

theorem substring_add (text : List Char) (offset m n : ℕ) :
    substring text offset (m + n) = substring text offset m ++ substring text (offset + m) n := by
  rw [substring, List.take_add, List.drop_drop]
  rfl

def hexDigit (d : ℕ) : Char := if d < 10 then Char.ofNat (48 + d) else Char.ofNat (87 + d)

def hexByte (b : UInt8) : List Char := [hexDigit (b.toNat / 16), hexDigit (b.toNat % 16)]

def hexDump : List UInt8 → List Char
  | a :: b :: c :: d :: e :: rest =>
      hexByte a ++ hexByte b ++ hexByte c ++ hexByte d ++ ' ' :: hexDump (e :: rest)
  | bs => bs.flatMap hexByte

theorem hexDigit_injective {d e : ℕ} (hd : d < 16) (he : e < 16) (h : hexDigit d = hexDigit e) :
    d = e := by
  have hall : ∀ d < 16, ∀ e < 16, hexDigit d = hexDigit e → d = e := by decide
  exact hall d hd e he h

theorem hexByte_injective : Function.Injective hexByte := by
  intro b c h
  simp only [hexByte, List.cons.injEq, and_true] at h
  obtain ⟨hhigh, hlow⟩ := h
  have hb := b.toNat_lt
  have hc := c.toNat_lt
  have hdiv := hexDigit_injective (by omega) (by omega) hhigh
  have hmod := hexDigit_injective (by omega) (by omega) hlow
  apply UInt8.toNat_inj.mp
  omega

theorem substring_flatMap_hexByte {bs : List UInt8} {i : ℕ} (hi : i < bs.length) :
    substring (bs.flatMap hexByte) (2 * i) 2 = hexByte bs[i] := by
  induction bs generalizing i with
  | nil => cases hi
  | cons b bs ih =>
      cases i with
      | zero => rfl
      | succ i => exact ih (Nat.lt_of_succ_lt_succ hi)

/-- Where a byte stands in the dump. -/
theorem substring_hexDump (bs : List UInt8) {i : ℕ} (hi : i < bs.length) :
    substring (hexDump bs) (2 * i + i / 4) 2 = hexByte bs[i] := by
  induction bs using hexDump.induct generalizing i with
  | case1 a b c d e rest ih =>
      match i, hi with
      | 0, _ => rfl
      | 1, _ => rfl
      | 2, _ => rfl
      | 3, _ => rfl
      | i + 4, hi =>
          have hoffset : 2 * (i + 4) + (i + 4) / 4 = 2 * i + i / 4 + 9 := by omega
          rw [hoffset]
          exact ih (by simpa using hi)
  | case2 bs hshort =>
      have hlen : bs.length ≤ 4 := by
        rcases bs with _ | ⟨a, _ | ⟨b, _ | ⟨c, _ | ⟨d, _ | ⟨e, rest⟩⟩⟩⟩⟩
        case cons.cons.cons.cons.cons => exact absurd rfl (hshort a b c d e rest)
        all_goals simp
      have hzero : i / 4 = 0 := Nat.div_eq_of_lt (by omega)
      have hdump : hexDump bs = bs.flatMap hexByte := by
        rw [hexDump]
        exact hshort
      rw [hzero, Nat.add_zero, hdump]
      exact substring_flatMap_hexByte hi

end Foundation
