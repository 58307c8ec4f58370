import Mathlib.Data.List.Basic
import Mathlib.Data.List.Infix

/-!
# Quoted words in a text

A text is cut at its quotes into segments.  A word without quotes occurs quoted exactly
where it is a whole segment between two quotes.
-/

namespace Foundation

universe u

variable {α : Type u} {q : α} {w s rest : List α}

def quoted (q : α) (w : List α) : List α := q :: (w ++ [q])

theorem quoted_prefix_iff (hw : q ∉ w) (hs : q ∉ s) : w ++ [q] <+: s ++ q :: rest ↔ w = s := by
  induction w generalizing s with
  | nil =>
      cases s with
      | nil => simp
      | cons c s =>
          have hc : q ≠ c := List.ne_of_not_mem_cons hs
          simp [hc]
  | cons a w ih =>
      cases s with
      | nil =>
          have ha : a ≠ q := (List.ne_of_not_mem_cons hw).symm
          simp [ha]
      | cons c s =>
          have ih := ih (List.not_mem_of_not_mem_cons hw) (List.not_mem_of_not_mem_cons hs)
          rw [List.cons_append, List.cons_append, List.cons_prefix_cons, ih, List.cons.injEq]

theorem not_quoted_infix (hs : q ∉ s) : ¬quoted q w <:+: s :=
  fun h ↦ hs (h.subset List.mem_cons_self)

theorem quoted_infix_append (hs : q ∉ s) :
    quoted q w <:+: s ++ q :: rest ↔ w ++ [q] <+: rest ∨ quoted q w <:+: rest := by
  induction s with
  | nil =>
      rw [List.nil_append, List.infix_cons_iff, quoted, List.cons_prefix_cons, eq_self, true_and]
  | cons c s ih =>
      have hc : q ≠ c := List.ne_of_not_mem_cons hs
      rw [List.cons_append, List.infix_cons_iff, ih (List.not_mem_of_not_mem_cons hs), quoted,
        List.cons_prefix_cons, or_iff_right fun h ↦ hc h.1]

/-- A word occurs quoted in a text exactly if it is one of the segments that have a quote
on both sides. -/
theorem quoted_infix_intercalate (hw : q ∉ w) {segments : List (List α)}
    (hsegments : ∀ s ∈ segments, q ∉ s) :
    quoted q w <:+: [q].intercalate segments ↔ w ∈ segments.tail.dropLast := by
  induction segments with
  | nil => simp [quoted]
  | cons s segments ih =>
      have hs := hsegments s List.mem_cons_self
      have ih := ih fun x hx ↦ hsegments x (List.mem_cons_of_mem _ hx)
      cases segments with
      | nil => simpa using not_quoted_infix hs
      | cons s' segments =>
          have hs' : q ∉ s' := hsegments s' (List.mem_cons_of_mem _ List.mem_cons_self)
          rw [List.intercalate_cons_cons, List.append_assoc, List.singleton_append,
            quoted_infix_append hs, ih]
          cases segments with
          | nil =>
              simp only [List.intercalate_singleton, List.tail_cons, List.dropLast_nil,
                List.not_mem_nil, or_false, List.dropLast_singleton, iff_false]
              exact fun h ↦ hs' (h.subset (by simp))
          | cons s'' segments =>
              rw [List.intercalate_cons_cons, List.append_assoc, List.singleton_append,
                quoted_prefix_iff hw hs', List.tail_cons, List.tail_cons, List.dropLast_cons_cons,
                List.mem_cons]

end Foundation
