import PlantNode.Driver.Calls

/-!
# One batch alone

The sequential meaning of `i2c_transact`: what a batch puts on the bus, and what
it returns, when it has the device to itself.  The bus answers its transfers by
a sequence of booleans.
-/

namespace PlantNode.Driver

/-- The step loop of a batch that keeps its reservation; `answer k` is the answer
of the bus to its `k`-th transfer. -/
def Batch.alone (b : Batch) (me : ThreadId) : List I2CStep → (ℕ → Bool) → List Transfer × Ret
  | [], _ => ([], .ok ())
  | st :: rest, answer =>
      if st.kind = I2cDelay then b.alone me rest answer
      else
        match doTransfer b me st (answer 0) with
        | (none, ret) => ([], ret)
        | (some x, .error e) => ([x], .error e)
        | (some x, .ok _) =>
            let (l, ret) := b.alone me rest fun k ↦ answer (k + 1)
            (x :: l, ret)

def answersOf (l : List Transfer) (k : ℕ) : Bool :=
  l[k]?.all Transfer.ok

/-- What a call that returned `ret` contributes to the bus: a prefix of its
non-delay steps, all of them exactly when it returns 0, and otherwise nothing
after its first failing step, whose error it returns. -/
structure Contributes (me : ThreadId) (b : Batch) (ret : Ret) (l : List Transfer) : Prop where
  sent : ∃ steps, steps <+: busSteps b.steps ∧ steps.length = l.length ∧
    l = List.zipWith (b.transferOf me) steps (l.map Transfer.ok)
  zero : ret = .ok () ↔ l.length = (busSteps b.steps).length ∧ ∀ x ∈ l, x.ok = true
  first : ret ≠ .ok () → ∃ pre st post ok, busSteps b.steps = pre ++ st :: post ∧
    l = pre.map (fun st ↦ b.transferOf me st true) ++ (doTransfer b me st ok).1.toList ∧
      ret = (doTransfer b me st ok).2

section Alone

variable {b : Batch} {me : ThreadId} {ret : Ret} {l : List Transfer}

theorem Batch.alone_delay {st : I2CStep} (h : st.kind = I2cDelay) (rest : List I2CStep)
    (answer : ℕ → Bool) : b.alone me (st :: rest) answer = b.alone me rest answer := by
  rw [alone, if_pos h]

theorem Batch.alone_sent {st : I2CStep} (hbus : st.kind ≠ I2cDelay) (hgood : st.malformed = false)
    (rest : List I2CStep) {answer : ℕ → Bool} (h : answer 0 = true) :
    b.alone me (st :: rest) answer =
      (b.transferOf me st true :: (b.alone me rest fun k ↦ answer (k + 1)).1,
        (b.alone me rest fun k ↦ answer (k + 1)).2) := by
  rw [alone, if_neg hbus]
  simp [doTransfer, hgood, h]

theorem Batch.alone_refused {st : I2CStep} (hbus : st.kind ≠ I2cDelay)
    (hgood : st.malformed = false) (rest : List I2CStep) {answer : ℕ → Bool}
    (h : answer 0 = false) :
    b.alone me (st :: rest) answer = ([b.transferOf me st false], .error .EIo) := by
  rw [alone, if_neg hbus]
  simp [doTransfer, hgood, h]

theorem Batch.alone_malformed {st : I2CStep} (hbus : st.kind ≠ I2cDelay)
    (hbad : st.malformed = true) (rest : List I2CStep) (answer : ℕ → Bool) :
    b.alone me (st :: rest) answer = ([], .error .EINVAL) := by
  rw [alone, if_neg hbus]
  simp [doTransfer, hbad]

theorem answersOf_succ (x : Transfer) (l : List Transfer) :
    (fun k ↦ answersOf (x :: l) (k + 1)) = answersOf l := by
  funext k
  simp [answersOf]

theorem Batch.alone_passed (b : Batch) (me : ThreadId) {pre : List I2CStep}
    (hpassed : Passed pre) (rest : List I2CStep) (l : List Transfer) :
    b.alone me (pre ++ rest) (answersOf (b.wire me pre ++ l)) =
      (b.wire me pre ++ (b.alone me rest (answersOf l)).1,
        (b.alone me rest (answersOf l)).2) := by
  induction pre with
  | nil => rfl
  | cons st pre ih =>
      have ih := ih fun y hy ↦ hpassed y (List.mem_cons_of_mem _ hy)
      rw [List.cons_append]
      by_cases hdelay : st.kind = I2cDelay
      · have hwire : b.wire me (st :: pre) = b.wire me pre := by simp [wire, busSteps, hdelay]
        rw [alone_delay hdelay, hwire, ih]
      · have hgood := (hpassed st List.mem_cons_self).resolve_left hdelay
        have hwire : b.wire me (st :: pre) = b.transferOf me st true :: b.wire me pre := by
          simp [wire, busSteps, hdelay]
        rw [hwire, List.cons_append, alone_sent hdelay hgood _ rfl, answersOf_succ, ih]
        rfl

theorem Batch.wire_prefix_alone (b : Batch) (me : ThreadId) {pre rest : List I2CStep}
    (hsplit : b.steps = pre ++ rest) (hpassed : Passed pre) :
    b.wire me pre <+: (b.alone me b.steps (answersOf (b.wire me pre))).1 := by
  have h := b.alone_passed me hpassed rest []
  rw [List.append_nil] at h
  rw [hsplit, h]
  exact List.prefix_append _ _

theorem Outcome.alone (h : Outcome me b ret l) (hkept : ret ≠ .error .ETIMEDOUT) :
    b.alone me b.steps (answersOf l) = (l, ret) := by
  cases h with
  | complete passed =>
      have h := b.alone_passed me passed [] []
      simpa [Batch.alone] using h
  | invalid pre st post split passed bus bad =>
      have h := b.alone_passed me passed (st :: post) []
      rw [Batch.alone_malformed bus bad, List.append_nil] at h
      rwa [split]
  | failed pre st post split passed bus good =>
      have h := b.alone_passed me passed (st :: post) [b.transferOf me st false]
      rw [Batch.alone_refused bus good post rfl] at h
      rwa [split]
  | lost => exact (hkept rfl).elim

theorem Batch.wire_length (pre : List I2CStep) :
    (b.wire me pre).length = (busSteps pre).length := by
  simp [wire]

theorem Batch.wire_ok {pre : List I2CStep} {x : Transfer} (hx : x ∈ b.wire me pre) :
    x.ok = true := by
  obtain ⟨st, -, rfl⟩ := List.mem_map.mp hx
  rfl

theorem busSteps_append (xs ys : List I2CStep) :
    busSteps (xs ++ ys) = busSteps xs ++ busSteps ys := by
  simp [busSteps]

theorem busSteps_split {pre post : List I2CStep} {st : I2CStep}
    (hsplit : b.steps = pre ++ st :: post) (hbus : st.kind ≠ I2cDelay) :
    busSteps b.steps = busSteps pre ++ st :: busSteps post := by
  rw [hsplit, busSteps_append]
  simp [busSteps, hbus]

theorem Batch.wire_zipWith (pre : List I2CStep) :
    b.wire me pre = List.zipWith (b.transferOf me) (busSteps pre)
      ((b.wire me pre).map Transfer.ok) := by
  have hok : (b.wire me pre).map Transfer.ok = List.replicate (busSteps pre).length true := by
    rw [List.eq_replicate_iff]
    refine ⟨by simp [wire_length], fun ok hok ↦ ?_⟩
    obtain ⟨x, hx, rfl⟩ := List.mem_map.mp hok
    exact wire_ok hx
  rw [hok]
  unfold wire
  induction busSteps pre with
  | nil => rfl
  | cons st steps ih => simpa [List.replicate_succ] using ih

theorem Outcome.contributes (h : Outcome me b ret l) (hkept : ret ≠ .error .ETIMEDOUT) :
    Contributes me b ret l := by
  cases h with
  | complete passed =>
      refine ⟨⟨_, List.prefix_rfl, (Batch.wire_length _).symm, Batch.wire_zipWith _⟩, ?_, ?_⟩
      · simp only [Batch.wire_length, true_and, true_iff]
        exact fun x hx ↦ Batch.wire_ok hx
      · exact fun hne ↦ (hne rfl).elim
  | invalid pre st post split passed bus bad =>
      have hsteps := busSteps_split split bus
      refine ⟨⟨busSteps pre, ?_, (Batch.wire_length _).symm, Batch.wire_zipWith _⟩, ?_, ?_⟩
      · exact hsteps ▸ List.prefix_append _ _
      · simp [Batch.wire_length, hsteps]
      · exact fun _ ↦ ⟨busSteps pre, st, busSteps post, true, hsteps,
          by simp [doTransfer, bad, Batch.wire], by simp [doTransfer, bad]⟩
  | failed pre st post split passed bus good =>
      have hsteps := busSteps_split split bus
      refine ⟨⟨busSteps pre ++ [st], ?_, by simp [Batch.wire_length], ?_⟩, ?_, ?_⟩
      · rw [hsteps]
        exact ⟨busSteps post, by simp⟩
      · rw [List.map_append, List.zipWith_append (by simp [Batch.wire_length]),
          ← Batch.wire_zipWith]
        rfl
      · simp [Batch.transferOf]
      · exact fun _ ↦ ⟨busSteps pre, st, busSteps post, false, hsteps,
          by simp [doTransfer, good, Batch.wire], by simp [doTransfer, good]⟩
  | lost => exact (hkept rfl).elim

end Alone

end PlantNode.Driver
