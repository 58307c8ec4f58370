import PlantNode.Foundation.Decimal

/-!
# Printing a number in place

The usual loop that prints a number into an array: take digits off the low end
until none is left, then reverse them by swapping from both ends inwards.
-/

namespace Foundation

universe u

variable {α : Type u} {l : List α} {i j k : ℕ}

/-- `while (v) { tmp[len++] = '0' + v % 10; v /= 10; }` -/
def digitLoop (v : ℕ) : List UInt8 :=
  if v = 0 then [] else digitByte (v % 10) :: digitLoop (v / 10)
termination_by v

/-- `t = tmp[i]; tmp[i] = tmp[j]; tmp[j] = t;` -/
def swapAt (l : List α) (i j : ℕ) : List α :=
  match l[i]?, l[j]? with
  | some x, some y => (l.set i y).set j x
  | _, _ => l

/-- `for (; i < j; i++, j--)` swap. -/
def reverseLoop (l : List α) (i j : ℕ) : List α :=
  if i < j then reverseLoop (swapAt l i j) (i + 1) (j - 1) else l
termination_by j - i

def printLoop (v : ℕ) : List UInt8 :=
  let tmp := if v = 0 then [digitByte 0] else digitLoop v
  if v = 0 then tmp else reverseLoop tmp 0 (tmp.length - 1)

theorem digitLoop_eq (v : ℕ) : digitLoop v = (Nat.digits 10 v).map digitByte := by
  induction v using Nat.strongRecOn with
  | ind v ih =>
      rw [digitLoop]
      split
      · subst v
        rfl
      · rename_i hv
        have hpos := Nat.pos_of_ne_zero hv
        rw [ih _ (Nat.div_lt_self hpos (by norm_num)), Nat.digits_def' (by norm_num) hpos,
          List.map_cons]

@[simp] theorem length_swapAt (l : List α) (i j : ℕ) : (swapAt l i j).length = l.length := by
  unfold swapAt
  split <;> simp

theorem getElem?_swapAt (hi : i < l.length) (hj : j < l.length) :
    (swapAt l i j)[k]? = if k = j then l[i]? else if k = i then l[j]? else l[k]? := by
  rw [swapAt, List.getElem?_eq_getElem hi, List.getElem?_eq_getElem hj]
  dsimp only
  rw [List.getElem?_set, List.getElem?_set, List.length_set]
  by_cases hkj : j = k
  · simp [hkj ▸ hj, hkj]
  · by_cases hki : i = k
    · simp [hkj, hki ▸ hi, hki, Ne.symm hkj]
    · simp [hkj, hki, Ne.symm hkj, Ne.symm hki]

theorem getElem?_reverseLoop (hj : j < l.length) :
    (reverseLoop l i j)[k]? = if i ≤ k ∧ k ≤ j then l[i + j - k]? else l[k]? := by
  induction hgap : j - i using Nat.strongRecOn generalizing l i j with
  | ind gap ih =>
      rw [reverseLoop]
      split
      · rename_i hlt
        have hi : i < l.length := hlt.trans hj
        have hsum : i + 1 + (j - 1) = i + j := by omega
        rw [ih (j - 1 - (i + 1)) (by omega) (by simp; omega) rfl, hsum,
          getElem?_swapAt hi hj, getElem?_swapAt hi hj]
        by_cases hinside : i + 1 ≤ k ∧ k ≤ j - 1
        · rw [if_pos hinside, if_neg (by omega), if_neg (by omega), if_pos (by omega)]
        rw [if_neg hinside]
        by_cases hkj : k = j
        · rw [if_pos hkj, if_pos (by omega), show i + j - k = i by omega]
        by_cases hki : k = i
        · rw [if_neg hkj, if_pos hki, if_pos (by omega), show i + j - k = j by omega]
        · rw [if_neg hkj, if_neg hki, if_neg (by omega)]
      · rename_i hge
        split
        · rw [show i + j - k = k by omega]
        · rfl

theorem reverseLoop_eq (hl : l ≠ []) : reverseLoop l 0 (l.length - 1) = l.reverse := by
  have hpos := List.length_pos_of_ne_nil hl
  refine List.ext_getElem? fun k ↦ ?_
  rw [getElem?_reverseLoop (by omega)]
  by_cases hk : k < l.length
  · rw [if_pos (by omega), List.getElem?_reverse hk]
    congr 1
    omega
  · rw [if_neg (by omega), List.getElem?_eq_none (by omega),
      List.getElem?_eq_none (by simp; omega)]

/-- The loops print the decimal numeral. -/
theorem printLoop_eq (v : ℕ) : printLoop v = decimal v := by
  unfold printLoop decimal
  split
  · rfl
  · rename_i hv
    rw [digitLoop_eq, reverseLoop_eq]
    simpa [Nat.digits_eq_nil_iff_eq_zero] using hv

end Foundation
