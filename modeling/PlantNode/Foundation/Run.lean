import Mathlib.Data.Nat.Basic
import Mathlib.Data.List.Induction

/-!
# Runs of deterministic labelled systems

A system is a partial step function `step : σ → α → Option σ`.  `Steps`
collects the states reached by runs whose every step meets a guard; an
invariant is proved once, from its initial case and one step.  Histories are
lists that grow at their right end, so the second half of this module is about
appending one entry.
-/

namespace Foundation

universe u v

variable {σ : Type u} {α : Type v}

/-- States reached from `init` by runs in which every step `(s, a)` meets the
guard `G s a`. -/
inductive Steps (step : σ → α → Option σ) (G : σ → α → Prop) (init : σ) : σ → Prop where
  | init : Steps step G init init
  | next {s t : σ} (a : α) (prior : Steps step G init s) (guard : G s a)
      (move : step s a = some t) : Steps step G init t

/-- States reached by arbitrary runs. -/
abbrev Reachable (step : σ → α → Option σ) (init : σ) : σ → Prop :=
  Steps step (fun _ _ ↦ True) init

namespace Steps

variable {step : σ → α → Option σ} {G G' : σ → α → Prop} {init s t : σ}

/-- The induction rule: an initial property kept by every guarded step holds of
every state reached. -/
theorem invariant {I : σ → Prop} (hinit : I init)
    (hstep : ∀ s a t, I s → G s a → step s a = some t → I t)
    (h : Steps step G init s) : I s := by
  induction h with
  | init => exact hinit
  | next a _ guard move ih => exact hstep _ a _ ih guard move

/-- An invariant proved on top of one that is already known. -/
theorem invariant_over {I K : σ → Prop} (hK : ∀ s, Steps step G init s → K s)
    (hinit : I init)
    (hstep : ∀ s a t, K s → I s → G s a → step s a = some t → I t)
    (h : Steps step G init s) : I s := by
  induction h with
  | init => exact hinit
  | next a prior guard move ih => exact hstep _ a _ (hK _ prior) ih guard move

theorem mono (hG : ∀ s a, G s a → G' s a) (h : Steps step G init s) :
    Steps step G' init s := by
  induction h with
  | init => exact .init
  | next a _ guard move ih => exact .next a ih (hG _ _ guard) move

theorem reachable (h : Steps step G init s) : Reachable step init s :=
  h.mono fun _ _ _ ↦ trivial

theorem trans (h₁ : Steps step G init s) (h₂ : Steps step G s t) :
    Steps step G init t := by
  induction h₂ with
  | init => exact h₁
  | next a _ guard move ih => exact .next a ih guard move

/-- Refinement with guards and stuttering: when every guarded step is a guarded step of the
abstract system or leaves the abstract state alone, every run is one of the abstract
system. -/
theorem refine_stutter {τ : Type*} {β : Type*} {astep : τ → β → Option τ} {AG : τ → β → Prop}
    (abs : σ → τ)
    (hstep : ∀ s a t, G s a → step s a = some t →
      abs t = abs s ∨ ∃ b, AG (abs s) b ∧ astep (abs s) b = some (abs t))
    (h : Steps step G init s) : Steps astep AG (abs init) (abs s) := by
  induction h with
  | init => exact .init
  | next a _ guard move ih =>
      rcases hstep _ a _ guard move with hsame | ⟨b, hguard, hmove⟩
      · rwa [hsame]
      · exact .next b ih hguard hmove

/-- Refinement along an abstraction function: when every step maps to a path of
the abstract system, every run does. -/
theorem simulate {τ : Type*} {β : Type*} {astep : τ → β → Option τ} (abs : σ → τ)
    (hstep : ∀ s a t, Steps step G init s → step s a = some t →
      Reachable astep (abs s) (abs t))
    (h : Steps step G init s) : Reachable astep (abs init) (abs s) := by
  induction h with
  | init => exact .init
  | next a prior _ move ih => exact ih.trans (hstep _ a _ prior move)

end Steps

/-- Execute a list of actions; the guard is tested before each of them. -/
def exec (step : σ → α → Option σ) (guard : σ → α → Bool) : σ → List α → Option σ
  | s, [] => some s
  | s, a :: rest =>
      if guard s a then (step s a).bind fun t ↦ exec step guard t rest else none

theorem exec_steps {step : σ → α → Option σ} {guard : σ → α → Bool} {s t : σ}
    {acts : List α} (h : exec step guard s acts = some t) :
    Steps step (fun s a ↦ guard s a = true) s t := by
  induction acts generalizing s with
  | nil =>
      cases h
      exact .init
  | cons a rest ih =>
      simp only [exec] at h
      split at h
      · rename_i hguard
        obtain ⟨m, hm, hrest⟩ := Option.bind_eq_some_iff.mp h
        exact Steps.trans (.next a .init hguard hm) (ih hrest)
      · cases h

theorem exec_append {step : σ → α → Option σ} {guard : σ → α → Bool} {s : σ}
    {acts acts' : List α} : exec step guard s (acts ++ acts') =
      (exec step guard s acts).bind fun t ↦ exec step guard t acts' := by
  induction acts generalizing s with
  | nil => rfl
  | cons a rest ih =>
      simp only [List.cons_append, exec]
      split
      · simp only [ih, Option.bind_assoc]
      · rfl

/-! ## Histories -/

section Histories

variable {l p : List α} {e x y z : α}

theorem mem_of_mem_snoc (hx : x ∈ l ++ [e]) (hne : x ≠ e) : x ∈ l :=
  (List.mem_append.mp hx).resolve_right fun hx ↦ hne (List.mem_singleton.mp hx)

/-- A scattered part of a list extended by one entry either misses the new entry
or ends with it. -/
theorem sublist_snoc : (p ++ [z]).Sublist (l ++ [e]) ↔
    (p ++ [z]).Sublist l ∨ (z = e ∧ p.Sublist l) := by
  rw [← List.reverse_sublist, List.reverse_append, List.reverse_append]
  simp only [List.reverse_singleton, List.singleton_append, List.sublist_cons_iff,
    List.cons.injEq]
  constructor
  · rintro (h | ⟨r, ⟨rfl, rfl⟩, h⟩)
    · exact .inl (List.reverse_sublist.mp (by simpa using h))
    · exact .inr ⟨rfl, List.reverse_sublist.mp h⟩
  · rintro (h | ⟨rfl, h⟩)
    · exact .inl (by simpa using List.reverse_sublist.mpr h)
    · exact .inr ⟨_, ⟨rfl, rfl⟩, List.reverse_sublist.mpr h⟩

theorem pair_sublist_snoc : [x, y].Sublist (l ++ [e]) ↔ [x, y].Sublist l ∨ (y = e ∧ x ∈ l) := by
  rw [← List.singleton_sublist]
  exact sublist_snoc (p := [x])

theorem triple_sublist_snoc : [x, y, z].Sublist (l ++ [e]) ↔
    [x, y, z].Sublist l ∨ (z = e ∧ [x, y].Sublist l) :=
  sublist_snoc (p := [x, y])

theorem pairwise_getElem? {R : α → α → Prop} (h : l.Pairwise R) {i j : ℕ} (hij : i < j)
    (hi : l[i]? = some x) (hj : l[j]? = some y) : R x y := by
  obtain ⟨hilt, rfl⟩ := List.getElem?_eq_some_iff.mp hi
  obtain ⟨hjlt, rfl⟩ := List.getElem?_eq_some_iff.mp hj
  exact List.pairwise_iff_getElem.mp h i j hilt hjlt hij

/-- Each entry is related by `P` to the entries before it. -/
def EachAfter (P : List α → α → Prop) (l : List α) : Prop :=
  ∀ pre e post, l = pre ++ e :: post → P pre e

variable {P : List α → α → Prop}

theorem EachAfter.nil : EachAfter P [] := by
  intro pre e post h
  simp at h

theorem eachAfter_snoc : EachAfter P (l ++ [e]) ↔ EachAfter P l ∧ P l e := by
  constructor
  · intro h
    refine ⟨fun pre x post hl ↦ ?_, h l e [] rfl⟩
    exact h pre x (post ++ [e]) (by rw [hl, List.append_assoc, List.cons_append])
  · rintro ⟨hl, he⟩ pre x post hsplit
    rcases List.eq_nil_or_concat post with rfl | ⟨post, y, rfl⟩
    · obtain ⟨rfl, hx⟩ := List.append_inj' hsplit rfl
      cases hx
      exact he
    · rw [List.concat_eq_append, ← List.cons_append, ← List.append_assoc] at hsplit
      obtain ⟨hpre, -⟩ := List.append_inj' hsplit rfl
      exact hl pre x post hpre

theorem EachAfter.of_append {new : List α} (h : EachAfter P (l ++ new)) : EachAfter P l :=
  fun pre e post hl ↦ h pre e (post ++ new) (by rw [hl, List.append_assoc, List.cons_append])

theorem EachAfter.of_mem (h : EachAfter P l) (hmem : e ∈ l) : ∃ pre, pre <+: l ∧ P pre e := by
  obtain ⟨pre, post, rfl⟩ := List.append_of_mem hmem
  exact ⟨pre, List.prefix_append _ _, h pre e post rfl⟩

theorem EachAfter.pairwise {R : α → α → Prop} (h : EachAfter P l)
    (hP : ∀ pre e post, l = pre ++ e :: post → P pre e → ∀ x ∈ pre, R x e) : l.Pairwise R := by
  induction l using List.reverseRecOn with
  | nil => exact List.Pairwise.nil
  | append_singleton l e ih =>
      obtain ⟨hl, he⟩ := eachAfter_snoc.mp h
      refine List.pairwise_append.mpr ⟨ih hl fun pre x post heq ↦ ?_, by simp, fun x hx y hy ↦ ?_⟩
      · exact hP pre x (post ++ [e]) (by rw [heq, List.append_assoc, List.cons_append])
      · rw [List.mem_singleton.mp hy]
        exact hP l e [] rfl he x hx

/-- Entries that `P` says nothing about can be appended freely. -/
theorem EachAfter.append (h : EachAfter P l) {new : List α} (hnew : ∀ x ∈ new, ∀ pre, P pre x) :
    EachAfter P (l ++ new) := by
  induction new generalizing l with
  | nil => rwa [List.append_nil]
  | cons x new ih =>
      have hx : EachAfter P (l ++ [x]) := eachAfter_snoc.mpr ⟨h, hnew x List.mem_cons_self l⟩
      have := ih hx fun y hy ↦ hnew y (List.mem_cons_of_mem _ hy)
      rwa [List.append_assoc, List.singleton_append] at this

end Histories

end Foundation
