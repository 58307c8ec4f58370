import Mathlib.Data.Finset.Dedup
import Mathlib.Data.Finset.Image

/-!
# Rules of a query language

A complete rule has one value.  Where its body binds none it is undefined, and where
it binds two the evaluation stops with a conflict; a condition holds of neither.
-/

namespace Foundation

universe u v

variable {κ : Type u} {α : Type u}

inductive Outcome (α : Type u) where
  | undefined
  | conflict
  | value (a : α)
  deriving DecidableEq

namespace Outcome

def map {β : Type v} (f : α → β) : Outcome α → Outcome β
  | undefined => undefined
  | conflict => conflict
  | value a => value (f a)

/-- A condition on the value of a rule. -/
def satisfies (o : Outcome α) (p : α → Bool) : Bool :=
  match o with
  | value a => p a
  | _ => false

theorem satisfies_iff {o : Outcome α} {p : α → Bool} :
    o.satisfies p = true ↔ ∃ a, o = value a ∧ p a = true := by
  cases o with
  | undefined => simp [satisfies]
  | conflict => simp [satisfies]
  | value a => simp [satisfies]

end Outcome

section Rules

variable [DecidableEq α] [DecidableEq κ]

/-- The complete rule whose body binds the values `as`, one after the other. -/
def completeRule : List α → Outcome α
  | [] => .undefined
  | a :: as => if ∀ b ∈ as, b = a then .value a else .conflict

theorem completeRule_eq_value {as : List α} {a : α} :
    completeRule as = .value a ↔ a ∈ as ∧ ∀ b ∈ as, b = a := by
  cases as with
  | nil => simp [completeRule]
  | cons first as =>
      simp only [completeRule]
      split
      · rename_i hall
        constructor
        · intro h
          cases h
          exact ⟨List.mem_cons_self, List.forall_mem_cons.mpr ⟨rfl, hall⟩⟩
        · rintro ⟨-, hequal⟩
          rw [hequal first List.mem_cons_self]
      · rename_i hall
        refine ⟨fun h ↦ (by cases h), fun ⟨_, hequal⟩ ↦ absurd (fun b hb ↦ ?_) hall⟩
        rw [hequal b (List.mem_cons_of_mem _ hb), hequal first List.mem_cons_self]

/-- The object comprehension with the given items: a key has one value. -/
def objectOf (items : List (κ × α)) : Outcome (Finset (κ × α)) :=
  if ∀ x ∈ items, ∀ y ∈ items, x.1 = y.1 → x.2 = y.2 then .value items.toFinset else .conflict

end Rules

end Foundation
