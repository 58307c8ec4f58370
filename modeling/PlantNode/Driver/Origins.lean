import PlantNode.Driver.Ledger

/-!
# Where a transfer comes from

Every transfer on the bus stands for one step of one batch, and the loop had
got past the steps before it.
-/

namespace PlantNode.Driver

open Foundation

/-- A transfer that a batch issues stands for one of its steps, which the loop
reached over steps it got past. -/
def Issues (me : ThreadId) (b : Batch) (x : Transfer) : Prop :=
  ∃ pre st post ok, b.steps = pre ++ st :: post ∧ Passed pre ∧ st.kind ≠ I2cDelay ∧
    st.malformed = false ∧ x = b.transferOf me st ok

theorem issues_of_wire {me : ThreadId} {b : Batch} {pre post : List I2CStep} {x : Transfer}
    (hsplit : b.steps = pre ++ post) (hpassed : Passed pre) (hx : x ∈ b.wire me pre) :
    Issues me b x := by
  obtain ⟨st, hst, rfl⟩ := List.mem_map.mp hx
  simp only [busSteps, List.mem_filter, Bool.not_eq_eq_eq_not, Bool.not_true,
    beq_eq_false_iff_ne, ne_eq] at hst
  obtain ⟨l, r, rfl⟩ := List.append_of_mem hst.1
  refine ⟨l, st, r ++ post, true, by simpa using hsplit, ?_, hst.2, ?_, rfl⟩
  · exact fun y hy ↦ hpassed y (List.mem_append_left _ hy)
  · exact (hpassed st hst.1).resolve_left hst.2

theorem Outcome.issues {me : ThreadId} {b : Batch} {ret : Ret} {l : List Transfer}
    {x : Transfer} (h : Outcome me b ret l) (hx : x ∈ l) : Issues me b x := by
  cases h with
  | complete passed => exact issues_of_wire (List.append_nil _).symm passed hx
  | invalid pre st post split passed bus bad => exact issues_of_wire split passed hx
  | failed pre st post split passed bus good =>
      rcases List.mem_append.mp hx with hx | hx
      · exact issues_of_wire split passed hx
      · exact ⟨pre, st, post, false, split, passed, bus, good, List.mem_singleton.mp hx⟩
  | lost pre st post split passed bus => exact issues_of_wire split passed hx

theorem Progress.issues {me : ThreadId} {b : Batch} {l : List Transfer} {pc : Pc}
    {x : Transfer} (h : Progress me l pc) (hb : pc.batch? = some b) (hx : x ∈ l) :
    Issues me b x := by
  cases pc with
  | reserved b' =>
      rw [show l = [] from h] at hx
      cases hx
  | running b' lease rest =>
      cases hb
      obtain ⟨pre, hsplit, hpassed, rfl⟩ := h
      exact issues_of_wire hsplit hpassed hx
  | transferring b' lease st rest =>
      cases hb
      obtain ⟨pre, hsplit, hpassed, -, rfl⟩ := h
      exact issues_of_wire hsplit hpassed hx
  | finishing b' lease result =>
      cases hb
      exact Outcome.issues h hx
  | _ => simp [Pc.batch?] at hb

section Origins

variable {s : State} (h : Ledger s) {x : Transfer}

include h

/-- A transfer on the bus was issued by a batch that its thread had entered. -/
theorem Ledger.issues (hx : .transfer x ∈ s.trace) :
    ∃ b, .entered x.thread b ∈ s.trace ∧ b.call = x.call ∧ Issues x.thread b x := by
  obtain ⟨b, hentered, hcall⟩ := h.issued x hx
  have hmem : x ∈ transfersOf b.call s.trace := mem_transfersOf.mpr ⟨hx, hcall.symm⟩
  refine ⟨b, hentered, hcall, ?_⟩
  rcases (h.entered _ _ hentered).2 with hcurrent | ⟨ret, -, houtcome⟩
  · exact (h.batches _ _ hcurrent).2.issues hcurrent hmem
  · exact houtcome.issues hmem

theorem Ledger.own_transfer {u : ThreadId} {b : Batch} (hx : .transfer x ∈ s.trace)
    (hb : (s.threads u).batch? = some b) (hcall : x.call = b.call) :
    x.thread = u ∧ x.address = b.cap.address := by
  obtain ⟨b', hentered, hcall', pre, st, post, ok, -, -, -, -, hx'⟩ := h.issues hx
  obtain ⟨hthread, rfl⟩ := h.entered_same hentered (h.batches u b hb).1 (hcall'.trans hcall)
  exact ⟨hthread, by rw [hx']; rfl⟩

end Origins

end PlantNode.Driver
