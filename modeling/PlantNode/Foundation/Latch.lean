import Mathlib.Order.Lattice
import Mathlib.Data.List.Induction

/-!
# Latches

A latch keeps a key and a value and takes a new pair only when its key is
strictly greater.  It is fed items, some of which read as a pair.  After any list
of items it holds the greatest key read and the value that came with it first, so
neither order nor repetition matters when equal keys carry equal values.
-/

namespace Foundation

universe u v w

variable {α : Type w} {κ : Type u} {ν : Type v} [LinearOrder κ]

def latch (s x : κ × ν) : κ × ν := if s.1 < x.1 then x else s

def latchItem (read : α → Option (κ × ν)) (s : κ × ν) (a : α) : κ × ν :=
  match read a with
  | none => s
  | some x => latch s x

/-- `r` is the newest pair among `s` and what the items of `xs` read as, the first
one where several are newest. -/
structure Latched (reads : α → κ × ν → Prop) (s : κ × ν) (xs : List α) (r : κ × ν) : Prop where
  start : s.1 ≤ r.1
  upper : ∀ a ∈ xs, ∀ x, reads a x → x.1 ≤ r.1
  first : r = s ∨ ∃ pre a post, xs = pre ++ a :: post ∧ reads a r ∧ s.1 < r.1 ∧
    ∀ b ∈ pre, ∀ x, reads b x → x.1 < r.1

variable {reads reads' : α → κ × ν → Prop} {s x r r' : κ × ν} {xs ys : List α} {a : α}

theorem Latched.nil (s : κ × ν) : Latched reads s [] s :=
  ⟨le_rfl, by simp, .inl rfl⟩

theorem Latched.snoc_newer (h : Latched reads s xs r) (ha : reads a x)
    (hfun : ∀ y, reads a y → y = x) (hlt : r.1 < x.1) : Latched reads s (xs ++ [a]) x := by
  refine ⟨h.start.trans hlt.le, fun b hb y hy ↦ ?_,
    .inr ⟨xs, a, [], rfl, ha, h.start.trans_lt hlt, ?_⟩⟩
  · rcases List.mem_append.mp hb with hb | hb
    · exact (h.upper b hb y hy).trans hlt.le
    · rw [List.mem_singleton.mp hb] at hy
      rw [hfun y hy]
  · exact fun b hb y hy ↦ (h.upper b hb y hy).trans_lt hlt

theorem Latched.snoc_stale (h : Latched reads s xs r) (hle : ∀ y, reads a y → y.1 ≤ r.1) :
    Latched reads s (xs ++ [a]) r := by
  refine ⟨h.start, fun b hb y hy ↦ ?_, ?_⟩
  · rcases List.mem_append.mp hb with hb | hb
    · exact h.upper b hb y hy
    · rw [List.mem_singleton.mp hb] at hy
      exact hle y hy
  · rcases h.first with hs | ⟨pre, b, post, hsplit, hb, hlt, hpre⟩
    · exact .inl hs
    · exact .inr ⟨pre, b, post ++ [a], by simp [hsplit], hb, hlt, hpre⟩

theorem latched_foldl (read : α → Option (κ × ν)) (s : κ × ν) (xs : List α) :
    Latched (fun a x ↦ read a = some x) s xs (xs.foldl (latchItem read) s) := by
  induction xs using List.reverseRecOn with
  | nil => exact .nil s
  | append_singleton xs a ih =>
      rw [List.foldl_append, List.foldl_cons, List.foldl_nil]
      generalize xs.foldl (latchItem read) s = r at ih
      cases hread : read a with
      | none => simpa [latchItem, hread] using ih.snoc_stale (a := a) (by simp [hread])
      | some x =>
          rw [latchItem, hread]
          dsimp only
          by_cases hlt : r.1 < x.1
          · rw [show latch r x = x from if_pos hlt]
            exact ih.snoc_newer hread (fun y hy ↦ (Option.some.inj (hread.symm.trans hy)).symm) hlt
          · rw [show latch r x = r from if_neg hlt]
            refine ih.snoc_stale fun y hy ↦ ?_
            rw [← Option.some.inj (hread.symm.trans hy)]
            exact not_lt.mp hlt

theorem Latched.exists_item (h : Latched reads s xs r) :
    r = s ∨ ∃ a ∈ xs, reads a r ∧ s.1 < r.1 := by
  rcases h.first with hs | ⟨pre, a, post, rfl, ha, hlt, -⟩
  · exact .inl hs
  · exact .inr ⟨a, by simp, ha, hlt⟩

/-- Two lists of the same items latch the same, when equal new keys carry equal
values. -/
theorem Latched.eq_of_same_items (h : Latched reads s xs r) (h' : Latched reads s ys r')
    (hsame : ∀ a, a ∈ xs ↔ a ∈ ys)
    (hagree : ∀ a ∈ xs, ∀ b ∈ xs, ∀ x y, reads a x → reads b y → s.1 < x.1 → x.1 = y.1 →
      x.2 = y.2) : r = r' := by
  rcases h.exists_item with rfl | ⟨a, ha, hr, hlt⟩ <;>
    rcases h'.exists_item with rfl | ⟨b, hb, hr', hlt'⟩
  · rfl
  · exact absurd (h.upper b ((hsame b).mpr hb) r' hr') (not_le.mpr hlt')
  · exact absurd (h'.upper a ((hsame a).mp ha) r hr) (not_le.mpr hlt)
  · have hb' := (hsame b).mpr hb
    have hkey : r.1 = r'.1 :=
      le_antisymm (h'.upper a ((hsame a).mp ha) r hr) (h.upper b hb' r' hr')
    exact Prod.ext hkey (hagree a ha b hb' r r' hr hr' hlt hkey)

/-! ## Reading fewer items -/

/-- The reading `x` of an item between `pre` and `post` makes no difference in the
end to a latch that should have ignored the item: it is not new, it is not the
last one taken, or the next one that counts reads the same. -/
def Outdone (reads reads' : α → κ × ν → Prop) (s : κ × ν) (pre post : List α) (x : κ × ν) : Prop :=
  x.1 ≤ s.1 ∨ (∃ b ∈ pre, ∃ y, reads b y ∧ x.1 ≤ y.1) ∨ (∃ b ∈ post, ∃ y, reads b y ∧ x.1 < y.1) ∨
    ∃ mid b tail, post = mid ++ b :: tail ∧ reads' b x ∧ ∀ c ∈ mid, ∀ y, reads' c y → y.1 < x.1

theorem split_cases {p q p' q' : List α} {a b : α} (h : p ++ a :: q = p' ++ b :: q') :
    (∃ mid, p' = p ++ a :: mid ∧ q = mid ++ b :: q') ∨ (p = p' ∧ a = b ∧ q = q') ∨
      ∃ mid, p = p' ++ b :: mid ∧ q' = mid ++ a :: q := by
  rcases List.append_eq_append_iff.mp h with ⟨mid, rfl, htail⟩ | ⟨mid, rfl, htail⟩ <;>
    cases mid <;> simp_all

/-- A latch that reads too many items still ends where it should exactly if each
item read in excess is outdone. -/
theorem Latched.restrict_iff (h : Latched reads s xs r) (hsub : ∀ a x, reads' a x → reads a x)
    (hfun : ∀ a x y, reads a x → reads a y → x = y) :
    Latched reads' s xs r ↔ ∀ pre a post x, xs = pre ++ a :: post → reads a x → ¬reads' a x →
      Outdone reads reads' s pre post x := by
  constructor
  · rintro h' pre a post x rfl hx hx'
    rcases h.first with rfl | ⟨pre₁, c, post₁, hsplit, hc, hlt, hpre⟩
    · exact .inl (h.upper a (by simp) x hx)
    rcases split_cases hsplit with ⟨mid, rfl, rfl⟩ | ⟨rfl, rfl, rfl⟩ | ⟨mid, rfl, rfl⟩
    · exact .inr (.inr (.inl ⟨c, by simp, r, hc, hpre a (by simp) x hx⟩))
    · -- the latch took this very item
      cases hfun a x r hx hc
      rcases h'.first with rfl | ⟨pre₂, b, post₂, hsplit', hb, -, hpre'⟩
      · exact absurd hlt (lt_irrefl _)
      rcases split_cases hsplit' with ⟨mid, rfl, rfl⟩ | ⟨rfl, rfl, rfl⟩ | ⟨mid, rfl, rfl⟩
      · exact .inr (.inr (.inr ⟨mid, b, post₂, rfl, hb, fun d hd ↦ hpre' d (by simp [hd])⟩))
      · exact absurd hb hx'
      · exact absurd (hpre b (by simp) _ (hsub b _ hb)) (lt_irrefl _)
    · exact .inr (.inl ⟨c, by simp, r, hc, h.upper a (by simp) x hx⟩)
  · intro hexcess
    refine ⟨h.start, fun b hb y hy ↦ h.upper b hb y (hsub b y hy), ?_⟩
    rcases h.first with hs | ⟨pre, c, post, rfl, hc, hlt, hpre⟩
    · exact .inl hs
    right
    by_cases hc' : reads' c r
    · exact ⟨pre, c, post, rfl, hc', hlt, fun d hd y hy ↦ hpre d hd y (hsub d y hy)⟩
    rcases hexcess pre c post r rfl hc hc' with hle | ⟨b, hb, y, hy, hle⟩ | ⟨b, hb, y, hy, hlt'⟩ |
      ⟨mid, b, tail, rfl, hb, hmid⟩
    · exact absurd hlt (not_lt.mpr hle)
    · exact absurd (hpre b hb y hy) (not_lt.mpr hle)
    · exact absurd hlt' (not_lt.mpr (h.upper b (by simp [hb]) y hy))
    · refine ⟨pre ++ c :: mid, b, tail, by simp, hb, hlt, fun d hd y hy ↦ ?_⟩
      rcases List.mem_append.mp hd with hd | hd
      · exact hpre d hd y (hsub d y hy)
      rcases List.mem_cons.mp hd with rfl | hd
      · exact absurd (hfun d y r (hsub d y hy) hc ▸ hy) hc'
      · exact hmid d hd y hy

end Foundation
