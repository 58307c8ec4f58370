import PlantNode.Foundation.Run

/-!
# Programs that talk to a service

A program performs operations and goes on with their answers.  `Spec` is a rely-guarantee
specification: what the program guarantees of an operation when it performs it, what it relies
on of an answer, and what holds of its result, each of the conversation so far.
-/

namespace Foundation

universe u v w

/-- A program with operations `o : Op`, answered by an `Ans o`, and a result in `α`. -/
inductive Prog (Op : Type u) (Ans : Op → Type v) (α : Type w) where
  | pure (a : α)
  | op (o : Op) (next : Ans o → Prog Op Ans α)

variable {Op : Type u} {Ans : Op → Type v} {α β : Type w}

namespace Prog

def bind (f : α → Prog Op Ans β) : Prog Op Ans α → Prog Op Ans β
  | .pure a => f a
  | .op o next => .op o fun ans ↦ (next ans).bind f

instance : Monad (Prog Op Ans) where
  pure := .pure
  bind p f := p.bind f

/-- The program of one operation. -/
def perform {Op : Type} {Ans : Op → Type} (o : Op) : Prog Op Ans (Ans o) :=
  .op o .pure

end Prog

/-- An operation and its answer. -/
abbrev Turn (Ans : Op → Type v) := (o : Op) × Ans o

namespace Prog

/-- After the conversation `l`, the program `p` performs only operations that meet `A`, as long
as their answers meet `R`, and its result meets `Q`. -/
def Spec (A : List (Turn Ans) → Op → Prop) (R : List (Turn Ans) → Turn Ans → Prop)
    (Q : List (Turn Ans) → α → Prop) (l : List (Turn Ans)) : Prog Op Ans α → Prop
  | .pure a => Q l a
  | .op o next => A l o ∧ ∀ ans, R l ⟨o, ans⟩ → (next ans).Spec A R Q (l ++ [⟨o, ans⟩])

variable {A : List (Turn Ans) → Op → Prop} {R : List (Turn Ans) → Turn Ans → Prop}
  {Q Q' : List (Turn Ans) → α → Prop} {Q₂ : List (Turn Ans) → β → Prop} {l : List (Turn Ans)}
  {p : Prog Op Ans α} {f : α → Prog Op Ans β}

/-- The rule of consequence. -/
theorem Spec.mono (h : p.Spec A R Q l) (hQ : ∀ l a, Q l a → Q' l a) : p.Spec A R Q' l := by
  induction p generalizing l with
  | pure a => exact hQ l a h
  | op o next ih => exact ⟨h.1, fun ans hans ↦ ih ans (h.2 ans hans)⟩

/-- The rule of composition: the first program ends where the second may start. -/
theorem spec_bind : (p >>= f).Spec A R Q₂ l ↔
    p.Spec A R (fun l a ↦ (f a).Spec A R Q₂ l) l := by
  induction p generalizing l with
  | pure a => exact Iff.rfl
  | op o next ih =>
      have hnext : ∀ ans, (next ans >>= f).Spec A R Q₂ (l ++ [⟨o, ans⟩]) ↔
          (next ans).Spec A R (fun l a ↦ (f a).Spec A R Q₂ l) (l ++ [⟨o, ans⟩]) :=
        fun ans ↦ ih ans
      exact and_congr_right fun _ ↦ forall_congr' fun ans ↦ imp_congr_right fun _ ↦ hnext ans

end Prog

end Foundation
