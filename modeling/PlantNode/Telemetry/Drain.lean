import PlantNode.Comms.Completion
import PlantNode.Telemetry.Steps

/-!
# The thread always comes to its mailbox

From every state the thread can come to `drain_ra_messages` with the mailbox as it is.
-/

namespace PlantNode.Telemetry

open Foundation Crypto Comms

variable {K : Type} {box : SecretBox K} {s t : State K} {a : Action K}

/-- A step in which nothing is delivered and no query is built. -/
def Action.Quiet : Action K → Prop
  | .comms b => b.Silent
  | .ask (some _) => False
  | _ => True

abbrev Quietly (box : SecretBox K) : State K → State K → Prop :=
  Steps (step box) fun _ a ↦ a.Quiet

/-- There is a way to the drain loop on which the mailbox stays as it is. -/
def Drains (box : SecretBox K) (s : State K) : Prop :=
  ∃ t i, Quietly box s t ∧ t.pc = .polling i ∧ (∃ last, t.comms.pc = .idle last) ∧
    t.comms.mailbox = s.comms.mailbox

theorem drains_of_path (hpath : Quietly box s t)
    (hmailbox : t.comms.mailbox = s.comms.mailbox) (h : Drains box t) : Drains box s := by
  obtain ⟨u, i, hu, hpc, hidle, hsame⟩ := h
  exact ⟨u, i, hpath.trans hu, hpc, hidle, hsame.trans hmailbox⟩

theorem drains_of_step (hstep : step box s a = some t) (ha : a.Quiet)
    (hmailbox : t.comms.mailbox = s.comms.mailbox) (h : Drains box t) : Drains box s :=
  drains_of_path (.next a .init ha hstep) hmailbox h

theorem step_comms {b : Comms.Action} {c : Comms.State K} (hcall : ∀ request, b ≠ .call request)
    (h : Comms.step box s.comms b = some c) :
    step box s (.comms b) = some { s with comms := c } := by
  unfold step
  split
  · rename_i last hidle
    exact absurd hidle (not_idle_of_step hcall h)
  · simp only [h, Option.map_some]

theorem quietly_comms {c : Comms.State K} (h : Silently box s.comms c) :
    Quietly box s { s with comms := c } := by
  induction h with
  | init => exact .init
  | next b prior hb move ih => exact .next (.comms b) ih hb (step_comms hb.not_call move)

/-- The call in progress returns first. -/
theorem drains_of_returned (h : ∀ c last, c.pc = .idle last → c.mailbox = s.comms.mailbox →
    Drains box { s with comms := c }) : Drains box s := by
  obtain ⟨c, last, hc, hidle⟩ := returns box s.comms
  exact drains_of_path (quietly_comms hc) hc.mailbox (h c last hidle hc.mailbox)

theorem drains_polling {i : ℕ} (hpc : s.pc = .polling i) : Drains box s :=
  drains_of_returned fun c last hidle _ ↦
    ⟨{ s with comms := c }, i, .init, hpc, ⟨last, hidle⟩, rfl⟩

section Idle

variable {last : Result} (hidle : s.comms.pc = .idle last)

include hidle

theorem drains_short {i : ℕ} (hpc : s.pc = .waiting i) (hi : i < PollsPerCycle) :
    Drains box s := by
  have hstep : step box s .poll = some (call box s .poll (.polling i)) := by
    simp only [step, hidle, ownStep, hpc, if_pos hi]
  exact drains_of_step hstep trivial (call_mailbox box s .poll _) (drains_polling rfl)

theorem drains_asked (hpc : s.pc = .asked) : Drains box s := by
  have hstep : step box s (.sample ⟨0, 0, 0, 0, 0, false⟩ false false 0) =
      some { s with pc := .waiting 0 } := by
    simp [step, hidle, ownStep, hpc, sampleStep]
  exact drains_of_step hstep trivial rfl
    (drains_short (s := { s with pc := .waiting 0 }) hidle rfl (by decide))

theorem drains_head (hpc : s.pc = .head) : Drains box s := by
  have hstep : step box s (.ask none) = some { s with pc := .asked } := by
    simp [step, hidle, ownStep, hpc, askStep]
  exact drains_of_step hstep trivial rfl (drains_asked (s := { s with pc := .asked }) hidle rfl)

theorem drains_waiting {i : ℕ} (hpc : s.pc = .waiting i) : Drains box s := by
  rcases lt_or_ge i PollsPerCycle with hi | hi
  · exact drains_short hidle hpc hi
  · have hstep : step box s .poll = some { s with pc := .head } := by
      simp only [step, hidle, ownStep, hpc, if_neg (not_lt.mpr hi)]
    exact drains_of_step hstep trivial rfl (drains_head (s := { s with pc := .head }) hidle rfl)

end Idle

theorem drains_connected (hidle : s.comms.pc = .idle (.ok ())) (hpc : s.pc = .connecting) :
    Drains box s := by
  have hstep : step box s (.keyExchange none) = some { s with pc := .head } := by
    simp only [step, hidle, ownStep, hpc]
    rfl
  exact drains_of_step hstep trivial rfl (drains_head (s := { s with pc := .head }) hidle rfl)

theorem drains_connect (hstep : step box s .connect = some (call box s .connect .connecting)) :
    Drains box s := by
  obtain ⟨c, hc, hcpc⟩ := connects box (s := (call box s .connect .connecting).comms) rfl
  refine drains_of_step hstep trivial (call_mailbox box s .connect _) ?_
  exact drains_of_path (quietly_comms hc) hc.mailbox (drains_connected hcpc rfl)

theorem drains_idle {last : Result} (hidle : s.comms.pc = .idle last) : Drains box s := by
  cases hpc : s.pc with
  | boot => exact drains_connect (by simp only [step, hidle, ownStep, hpc])
  | connecting =>
      cases last with
      | ok _ => exact drains_connected hidle hpc
      | error f => exact drains_connect (by simp only [step, hidle, ownStep, hpc])
  | sendingKey =>
      have hstep : step box s .resume = some { s with pc := .head } := by
        simp only [step, hidle, ownStep, hpc]
      exact drains_of_step hstep trivial rfl (drains_head (s := { s with pc := .head }) hidle rfl)
  | head => exact drains_head hidle hpc
  | asking =>
      have hstep : step box s .resume = some { s with pc := .asked } := by
        simp only [step, hidle, ownStep, hpc]
      exact drains_of_step hstep trivial rfl (drains_asked (s := { s with pc := .asked }) hidle rfl)
  | asked => exact drains_asked hidle hpc
  | reporting =>
      have hstep : step box s .resume = some { s with pc := .waiting 0 } := by
        simp only [step, hidle, ownStep, hpc]
      exact drains_of_step hstep trivial rfl
        (drains_waiting (s := { s with pc := .waiting 0 }) hidle rfl)
  | waiting i => exact drains_waiting hidle hpc
  | polling i => exact drains_polling hpc

/-- From every state the thread can come to the drain loop. -/
theorem drains (box : SecretBox K) (s : State K) : Drains box s :=
  drains_of_returned fun _ _ hidle _ ↦ drains_idle hidle

/-- A message that confirms attestation and is in the slot can come to be read. -/
theorem attested_of_slot (box : SecretBox K) (hpending : s.comms.mailbox.sRaPending = true)
    (hyes : responseIsAttested (s.comms.mailbox.sRaBuf.take s.comms.mailbox.sRaLen) = true) :
    ∃ t, Quietly box s t ∧ t.sAttested = true := by
  obtain ⟨u, i, hu, hpc, ⟨last, hidle⟩, hmailbox⟩ := drains box s
  have hstep : step box u .resume =
      some { drainRaMessages u with pc := .waiting (i + 1) } := by
    simp only [step, hidle, ownStep, hpc]
  refine ⟨_, .next .resume hu trivial hstep, ?_⟩
  rw [← hmailbox] at hpending hyes
  show (drainRaMessages u).sAttested = true
  rw [drainRaMessages, drainLoop_pending _ hpending, hyes]
  exact Bool.or_true _

end PlantNode.Telemetry
