import PlantNode.Comms.Steps

/-!
# The attestation mailbox

A message stays in the slot from the callback that put it there until it is taken.
-/

namespace PlantNode.Comms

open Foundation Crypto

variable {K : Type} {box : SecretBox K} {c d : State K}

/-- A message in the slot was delivered on the attestation topic and is not an echo. -/
def Buffered (c : State K) : Prop :=
  c.mailbox.sRaPending = true → c.mailbox.sRaLen = c.mailbox.sRaBuf.length ∧
    contains c.mailbox.sRaBuf (ascii "\"query\"") = false ∧
      .delivered true TopicAttestation c.mailbox.sRaBuf ∈ c.trace

/-- Either the slot is as before, or the message that was delivered is in it. -/
theorem publishCallback_mailbox (box : SecretBox K) (session : Session K) (mailbox : Mailbox)
    (policy : Policy.State) (valid : Bool) (topic payload : List UInt8) :
    (publishCallback box session mailbox policy valid topic payload).mailbox = mailbox ∨
      valid = true ∧ topic = TopicAttestation ∧ mailbox.sRaPending = false ∧
        contains payload (ascii "\"query\"") = false ∧ payload.length ≤ raBufSize ∧
          (publishCallback box session mailbox policy valid topic payload).mailbox =
            ⟨payload, payload.length, true⟩ := by
  unfold publishCallback
  split
  · exact .inl rfl
  rename_i hvalid
  split
  · split
    · exact .inl rfl
    split
    · exact .inl rfl
    · exact .inl rfl
  split
  · rename_i htopic
    split
    · exact .inl rfl
    rename_i hquery
    split
    · exact .inl rfl
    rename_i hpending
    split
    · exact .inl rfl
    rename_i hlen
    exact .inr ⟨by simpa using hvalid, htopic, by simpa using hpending, by simpa using hquery,
      not_lt.mp hlen, rfl⟩
  · exact .inl rfl

theorem buffered_frame (hframe : Frame c d) (hc : Buffered c) : Buffered d := by
  intro hpending
  rw [hframe.mailbox] at hpending ⊢
  rw [hframe.trace]
  exact hc hpending

theorem buffered_emit (e : Event K) (hc : Buffered c) : Buffered (c.emit e) := by
  intro hpending
  obtain ⟨hlen, hquery, hmem⟩ := hc hpending
  exact ⟨hlen, hquery, List.mem_append_left _ hmem⟩

theorem buffered_receive {cb : Callback} (hc : Buffered c) (h : receive box c cb = some d) :
    Buffered d := by
  cases cb with
  | ack packet isReject =>
      simp only [receive] at h
      split at h
      · cases h
        exact buffered_emit _ hc
      · cases h
  | publish valid topic payload =>
      cases h
      intro hpending
      rcases publishCallback_mailbox box c.session c.mailbox c.policy valid topic payload with
        hsame | ⟨rfl, rfl, -, hquery, -, hnew⟩
      · replace hpending : (publishCallback box c.session c.mailbox c.policy valid topic
          payload).mailbox.sRaPending = true := hpending
        rw [hsame] at hpending
        obtain ⟨hlen, hquery, hmem⟩ := hc hpending
        show _ ∧ _ ∧ _
        simp only [State.emit, hsame]
        exact ⟨hlen, hquery, List.mem_append_left _ hmem⟩
      · simp only [State.emit, hnew]
        exact ⟨trivial, hquery, List.mem_append_right _ (List.mem_singleton.mpr rfl)⟩

theorem buffered_step {a : Action} (hcall : ∀ request, a ≠ .call request)
    (h : step box c a = some d) (hc : Buffered c) : Buffered d :=
  step_induction hcall (fun _ _ hframe hu ↦ buffered_frame hframe hu)
    (fun _ e _ hu ↦ buffered_emit e hu) (fun _ _ _ _ hu hv ↦ buffered_receive hu hv) h hc

/-- The messages that callbacks offer to an empty slot. -/
def Offers (callbacks : List Callback) (payload : List UInt8) : Prop :=
  .publish true TopicAttestation payload ∈ callbacks ∧
    contains payload (ascii "\"query\"") = false ∧ payload.length ≤ raBufSize

/-- What is in the slot after a step was there before, or came with the step into an
empty slot. -/
theorem slot_step {a : Action} (hcall : ∀ request, a ≠ .call request)
    (h : step box c a = some d) : d.mailbox = c.mailbox ∨ (c.mailbox.sRaPending = false ∧
      ∃ payload, Offers a.callbacks payload ∧ d.mailbox = ⟨payload, payload.length, true⟩) := by
  refine step_induction (I := fun u ↦ u.mailbox = c.mailbox ∨ (c.mailbox.sRaPending = false ∧
    ∃ payload, Offers a.callbacks payload ∧ u.mailbox = ⟨payload, payload.length, true⟩))
    hcall ?_ ?_ ?_ h (.inl rfl)
  · intro u v hframe hu
    rwa [hframe.mailbox]
  · exact fun u e _ hu ↦ hu
  · intro u v cb hcb hu hv
    cases cb with
    | ack packet isReject =>
        simp only [receive] at hv
        split at hv
        · cases hv
          exact hu
        · cases hv
    | publish valid topic payload =>
        cases hv
        rcases publishCallback_mailbox box u.session u.mailbox u.policy valid topic payload with
          hsame | ⟨rfl, rfl, hempty, hquery, hlen, hnew⟩
        · simp only [State.emit, hsame]
          exact hu
        · simp only [State.emit, hnew]
          rcases hu with hu | ⟨-, old, -, hold⟩
          · exact .inr ⟨hu ▸ hempty, payload, ⟨hcb, hquery, hlen⟩, rfl⟩
          · rw [hold] at hempty
            cases hempty

/-- A step runs its callbacks on the mailbox as it found it, and then leaves it. -/
theorem step_receives {a : Action} (hcall : ∀ request, a ≠ .call request)
    (h : step box c a = some d) : ∃ u m, receiveAll box u a.callbacks = some m ∧
      u.mailbox = c.mailbox ∧ d.mailbox = m.mailbox := by
  have hfinish : ∀ (m : State K) p packets ret,
      (finishPublish m p packets ret).mailbox = m.mailbox := by
    intro m p packets ret
    unfold finishPublish
    split
    · rfl
    · rfl
  have hawait : ∀ (m : State K) p packets packet expected,
      (awaitPublish m p packets packet expected).mailbox = m.mailbox := by
    intro m p packets packet expected
    unfold awaitPublish
    split
    · rfl
    · exact hfinish _ _ _ _
  have hsubacks : ∀ (m : State K) packets, (awaitSubacks m packets).mailbox = m.mailbox := by
    intro m packets
    unfold awaitSubacks
    split
    · rfl
    · rfl
  have hoffer : ∀ p o, (offer c p o).mailbox = c.mailbox := by
    intro p o
    unfold offer
    split
    · rfl
    · rfl
  cases progress_of_step hcall h with
  | notSynced hpc => exact ⟨c, c, rfl, rfl, rfl⟩
  | synced hpc => exact ⟨c, c, rfl, rfl, rfl⟩
  | linked hpc => exact ⟨c, c, rfl, rfl, rfl⟩
  | notLinked hpc => exact ⟨c, c, rfl, rfl, rfl⟩
  | notSubscribed hpc ho hret =>
      refine ⟨c, c, by rw [Action.callbacks, ho]; rfl, rfl, ?_⟩
      split
      · rfl
      · rfl
  | subscribed hpc ho => exact ⟨c, c, by rw [Action.callbacks, ho]; rfl, rfl, rfl⟩
  | subscribedBoth hpc ho hne =>
      exact ⟨c, c, by rw [Action.callbacks, ho]; rfl, rfl, hsubacks c.send _⟩
  | subackFailed hpc hm hret => exact ⟨c, _, hm, rfl, rfl⟩
  | suback hpc hm hret => exact ⟨c, _, hm, rfl, hsubacks _ _⟩
  | abandoned hpc ho => exact ⟨c, c, by rw [Action.callbacks, ho]; rfl, rfl, rfl⟩
  | publishFailed hpc hm hret => exact ⟨_, _, hm, hoffer _ _, hfinish _ _ _ _⟩
  | publish hpc hm hret => exact ⟨_, _, hm, hoffer _ _, hawait _ _ _ _ _⟩
  | pubackFailed hpc hm hret => exact ⟨c, _, hm, rfl, hfinish _ _ _ _⟩
  | puback hpc hm hret => exact ⟨c, _, hm, rfl, hawait _ _ _ _ _⟩
  | polled hpc hm => exact ⟨c, _, hm, rfl, rfl⟩
  | disconnected hpc ho => exact ⟨c, c, by rw [Action.callbacks, ho]; rfl, rfl, rfl⟩

theorem receive_keeps {cb : Callback} (h : receive box c cb = some d)
    (hc : c.mailbox.sRaPending = true) : d.mailbox.sRaPending = true := by
  cases cb with
  | ack packet isReject =>
      simp only [receive] at h
      split at h
      · cases h
        exact hc
      · cases h
  | publish valid topic payload =>
      cases h
      rcases publishCallback_mailbox box c.session c.mailbox c.policy valid topic payload with
        hsame | ⟨-, -, -, -, -, hnew⟩
      · simp only [State.emit, hsame]
        exact hc
      · simp only [State.emit, hnew]

/-- A message that is offered fills the slot, itself or by one before it. -/
theorem receiveAll_fills {callbacks : List Callback} {payload : List UInt8}
    (h : receiveAll box c callbacks = some d) (hoffers : Offers callbacks payload) :
    d.mailbox.sRaPending = true := by
  obtain ⟨hmem, hquery, hlen⟩ := hoffers
  induction callbacks generalizing c with
  | nil => cases hmem
  | cons cb rest ih =>
      obtain ⟨m, hm, hrest⟩ := receiveAll_cons h
      rcases List.mem_cons.mp hmem with rfl | hmem
      · have hpending : m.mailbox.sRaPending = true := by
          cases hc : c.mailbox.sRaPending with
          | true => exact receive_keeps hm hc
          | false =>
              cases hm
              have hne : TopicAttestation ≠ TopicCommands := by decide
              simp [publishCallback, hne, hquery, hc, not_lt.mpr hlen, State.emit]
        exact receiveAll_invariant (I := fun u ↦ u.mailbox.sRaPending = true)
          (fun _ _ _ _ hu hv ↦ receive_keeps hv hu) hrest hpending
      · exact ih hrest hmem

/-- A message offered to an empty slot leaves one of those offered in it. -/
theorem slot_filled {a : Action} (hcall : ∀ request, a ≠ .call request)
    (h : step box c a = some d) (hempty : c.mailbox.sRaPending = false) {payload : List UInt8}
    (hoffers : Offers a.callbacks payload) :
    ∃ payload, Offers a.callbacks payload ∧ d.mailbox = ⟨payload, payload.length, true⟩ := by
  obtain ⟨u, m, hm, -, hd⟩ := step_receives hcall h
  have hpending := receiveAll_fills hm hoffers
  rcases slot_step hcall h with hsame | ⟨-, kept, hkept, hslot⟩
  · rw [← hd, hsame, hempty] at hpending
    cases hpending
  · exact ⟨kept, hkept, hslot⟩

theorem trace_prefix {a : Action} (hcall : ∀ request, a ≠ .call request)
    (h : step box c a = some d) : c.trace <+: d.trace := by
  refine step_induction (I := fun u ↦ c.trace <+: u.trace) hcall ?_ ?_ ?_ h (List.prefix_refl _)
  · intro u v huv hu
    rw [huv.trace]
    exact hu
  · exact fun u e _ hu ↦ hu.trans (List.prefix_append _ _)
  · intro u v cb _ hu hv
    rw [(receive_sameCall hv).2]
    exact hu.trans (List.prefix_append _ _)

end PlantNode.Comms
