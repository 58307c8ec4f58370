import Mathlib.Data.List.Induction

/-!
# One-place buffers

A buffer for one message.  A message is kept if it is admitted and the place is free,
and dropped otherwise; `skip` is an operation that does not reach the buffer.
-/

namespace Foundation.OnePlace

universe u

variable {α : Type u}

inductive Op (α : Type u) where
  | put (a : α)
  | take
  | skip

/-- The messages taken so far are ghost state. -/
structure Place (α : Type u) where
  held : Option α
  taken : List α

def empty : Place α := ⟨none, []⟩

def step (admits : α → Bool) (s : Place α) : Op α → Place α
  | .put a => if s.held.isNone && admits a then { s with held := some a } else s
  | .take => ⟨none, s.taken ++ s.held.toList⟩
  | .skip => s

def run (admits : α → Bool) (ops : List (Op α)) : Place α := ops.foldl (step admits) empty

/-- The messages that arrived, in their order. -/
def puts : List (Op α) → List α
  | [] => []
  | .put a :: ops => a :: puts ops
  | _ :: ops => puts ops

variable {admits : α → Bool} {ops later : List (Op α)} {op : Op α} {a b : α}

theorem run_snoc : run admits (ops ++ [op]) = step admits (run admits ops) op := by
  rw [run, List.foldl_append]
  rfl

theorem puts_append (ops ops' : List (Op α)) : puts (ops ++ ops') = puts ops ++ puts ops' := by
  induction ops with
  | nil => rfl
  | cons op ops ih =>
      cases op with
      | put a => exact congrArg (a :: ·) ih
      | take => exact ih
      | skip => exact ih

/-- What a step does to a full buffer. -/
theorem held_step_of_some {s : Place α} (h : s.held = some a) :
    (step admits s op).held = some a ∨ op = .take := by
  cases op with
  | put b => exact .inl (by rw [step, h, Option.isNone_some, Bool.false_and, if_neg (by decide), h])
  | take => exact .inr rfl
  | skip => exact .inl h

/-- A message that is held stays as it is until it is taken. -/
theorem held_append (h : (run admits ops).held = some a) (hlater : ∀ op ∈ later, op ≠ .take) :
    (run admits (ops ++ later)).held = some a := by
  induction later using List.reverseRecOn with
  | nil => rwa [List.append_nil]
  | append_singleton later op ih =>
      have ih := ih fun x hx ↦ hlater x (List.mem_append_left _ hx)
      rw [← List.append_assoc, run_snoc]
      exact (held_step_of_some ih).resolve_right (hlater op (by simp))

/-- The message held arrived after the last take, at a free buffer that admits it. -/
theorem held_eq_some (h : (run admits ops).held = some a) :
    ∃ past later, ops = past ++ .put a :: later ∧ (run admits past).held = none ∧
      admits a = true ∧ ∀ op ∈ later, op ≠ .take := by
  induction ops using List.reverseRecOn with
  | nil => cases h
  | append_singleton ops op ih =>
      rw [run_snoc] at h
      have hkept : (run admits ops).held = some a → op ≠ .take →
          ∃ past later, ops ++ [op] = past ++ .put a :: later ∧ (run admits past).held = none ∧
            admits a = true ∧ ∀ op ∈ later, op ≠ .take := by
        intro hheld hop
        obtain ⟨past, later, rfl, hfree, hadmits, hlater⟩ := ih hheld
        refine ⟨past, later ++ [op], by simp, hfree, hadmits, fun x hx ↦ ?_⟩
        rcases List.mem_append.mp hx with hx | hx
        · exact hlater x hx
        · rwa [List.mem_singleton.mp hx]
      cases op with
      | put b =>
          simp only [step] at h
          split at h
          · rename_i hkeeps
            obtain ⟨hfree, hadmits⟩ := Bool.and_eq_true_iff.mp hkeeps
            cases h
            exact ⟨ops, [], rfl, Option.isNone_iff_eq_none.mp hfree, hadmits, by simp⟩
          · exact hkept h (by simp)
      | take => cases h
      | skip => exact hkept h (by simp)

/-- What arrives is dropped, or kept for the next take. -/
theorem put_fate (admits : α → Bool) (past : List (Op α)) (a : α) :
    admits a = false ∨
      (∃ b before between, past = before ++ .put b :: between ∧ (run admits before).held = none ∧
        admits b = true ∧ ∀ op ∈ between, op ≠ .take) ∨
      ((run admits past).held = none ∧ admits a = true ∧
        ∀ later, (∀ op ∈ later, op ≠ .take) →
          (run admits (past ++ .put a :: later)).held = some a) := by
  cases hadmits : admits a with
  | false => exact .inl rfl
  | true =>
      right
      cases hheld : (run admits past).held with
      | some b =>
          obtain ⟨before, between, hpast, hfree, hb, hbetween⟩ := held_eq_some hheld
          exact .inl ⟨b, before, between, hpast, hfree, hb, hbetween⟩
      | none =>
          refine .inr ⟨rfl, rfl, fun later hlater ↦ ?_⟩
          rw [← List.singleton_append, ← List.append_assoc]
          refine held_append ?_ hlater
          rw [run_snoc, step, hheld, hadmits]
          rfl

/-- Every message is taken at most once, and in the order of arrival. -/
theorem taken_sublist (admits : α → Bool) (ops : List (Op α)) :
    ((run admits ops).taken ++ (run admits ops).held.toList).Sublist (puts ops) := by
  induction ops using List.reverseRecOn with
  | nil => exact List.Sublist.slnil
  | append_singleton ops op ih =>
      rw [run_snoc, puts_append]
      cases op with
      | put a =>
          simp only [step]
          split
          · rename_i hkeeps
            have hfree := Option.isNone_iff_eq_none.mp (Bool.and_eq_true_iff.mp hkeeps).1
            rw [hfree, Option.toList_none, List.append_nil] at ih
            exact ih.append (List.Sublist.refl [a])
          · exact ih.trans (List.sublist_append_left _ _)
      | take => simpa [step, puts] using ih
      | skip => simpa [step, puts] using ih

end Foundation.OnePlace
