import PlantNode.Comms.Slot

/-!
# Every call can return

From every point of a call there are answers of the network that make it return, and
a connection can succeed, without a delivery on the way.
-/

namespace PlantNode.Comms

open Foundation Crypto

variable {K : Type} {box : SecretBox K} {s t : State K}

def Callback.isAck : Callback → Bool
  | .ack _ _ => true
  | .publish _ _ _ => false

/-- A step of a call in progress in which nothing is delivered. -/
def Action.Silent : Action → Prop
  | .call _ => False
  | a => ∀ cb ∈ a.callbacks, cb.isAck = true

theorem Action.Silent.not_call {a : Action} (h : a.Silent) (request : Request) :
    a ≠ .call request := by
  rintro rfl
  exact h

theorem Action.Silent.acks {a : Action} (h : a.Silent) : ∀ cb ∈ a.callbacks, cb.isAck = true := by
  cases a with
  | call request => exact h.elim
  | _ => exact h

theorem Action.Silent.not_offers {a : Action} (h : a.Silent) (payload : List UInt8) :
    ¬ Offers a.callbacks payload := by
  rintro ⟨hmem, -⟩
  exact nomatch h.acks _ hmem

theorem silent_mailbox {a : Action} (ha : a.Silent) (h : step box s a = some t) :
    t.mailbox = s.mailbox := by
  rcases slot_step ha.not_call h with hsame | ⟨-, payload, hoffers, -⟩
  · exact hsame
  · exact absurd hoffers (ha.not_offers payload)

abbrev Silently (box : SecretBox K) : State K → State K → Prop :=
  Steps (step box) fun _ a ↦ a.Silent

theorem Silently.mailbox (h : Silently box s t) : t.mailbox = s.mailbox :=
  h.invariant (I := fun u ↦ u.mailbox = s.mailbox) rfl
    fun _ _ _ hu ha hstep ↦ (silent_mailbox ha hstep).trans hu

/-- An MQTT call that fails, and sends nothing. -/
def failing : MqttOutcome := ⟨[], -1, false⟩

theorem silent_failing : (Action.mqtt failing).Silent := fun _ hmem ↦ nomatch hmem

theorem silent_sntp (ok : Bool) : (Action.sntp ok).Silent := fun _ hmem ↦ nomatch hmem

theorem silent_handle (valid : Bool) : (Action.handle valid).Silent := fun _ hmem ↦ nomatch hmem

theorem silent_sent : (Action.mqtt ⟨[], 0, true⟩).Silent := fun _ hmem ↦ nomatch hmem

variable (box) in
theorem abandoning_returns {failure : Failure} (h : s.pc = .abandoning failure) :
    ∃ t last, Silently box s t ∧ t.pc = .idle last := by
  have hstep : step box s (.mqtt failing) =
      some ({ s with sHandle := false }.setPc (.idle (.error failure))) := by
    simp [step, h, disconnectStep, failing]
  exact ⟨_, _, .next _ .init silent_failing hstep, rfl⟩

/-- Every call can return. -/
theorem returns (box : SecretBox K) (s : State K) :
    ∃ t last, Silently box s t ∧ t.pc = .idle last := by
  cases h : s.pc with
  | idle last => exact ⟨s, last, .init, h⟩
  | syncing =>
      have hsync : step box s (.sntp true) = some (s.setPc .connecting) := by simp [step, h]
      have hhandle : step box (s.setPc .connecting) (.handle false) =
          some ({ s with sHandle := false }.setPc (.idle (.error (.errno .ENOTCONN)))) := by
        simp [step, State.setPc]
      exact ⟨_, _, .next _ (.next _ .init (silent_sntp _) hsync) (silent_handle _) hhandle, rfl⟩
  | connecting =>
      have hhandle : step box s (.handle false) =
          some ({ s with sHandle := false }.setPc (.idle (.error (.errno .ENOTCONN)))) := by
        simp [step, h]
      exact ⟨_, _, .next _ .init (silent_handle _) hhandle, rfl⟩
  | subscribing packets =>
      have hstep : step box s (.mqtt failing) = some (s.setPc (.abandoning (.mqtt (-1)))) := by
        simp [step, h, subscribeStep, failing]
      obtain ⟨t, last, hreach, ht⟩ := abandoning_returns box
        (s := s.setPc (.abandoning (.mqtt (-1)))) rfl
      exact ⟨t, last, .trans (.next _ .init silent_failing hstep) hreach, ht⟩
  | awaitingSubacks packets =>
      have hstep : step box s (.mqtt failing) = some (s.setPc (.abandoning (.mqtt (-1)))) := by
        simp [step, h, subackStep, failing, receiveAll]
      obtain ⟨t, last, hreach, ht⟩ := abandoning_returns box
        (s := s.setPc (.abandoning (.mqtt (-1)))) rfl
      exact ⟨t, last, .trans (.next _ .init silent_failing hstep) hreach, ht⟩
  | abandoning failure => exact abandoning_returns box h
  | publishing p packets =>
      have hstep : step box s (.mqtt failing) =
          some (finishPublish (offer s p failing) p packets (.error (.mqtt (-1)))) := by
        simp [step, h, publishStep, failing, receiveAll, offer]
      obtain ⟨last, hlast⟩ :=
        finishPublish_idle (offer s p failing) p packets (.error (.mqtt (-1)))
      exact ⟨_, last, .next _ .init silent_failing hstep, hlast⟩
  | awaiting p packets packet expected =>
      have hstep : step box s (.mqtt failing) =
          some (finishPublish s p packets (.error (.mqtt (-1)))) := by
        simp [step, h, pubackStep, failing, receiveAll]
      obtain ⟨last, hlast⟩ := finishPublish_idle s p packets (.error (.mqtt (-1)))
      exact ⟨_, last, .next _ .init silent_failing hstep, hlast⟩
  | polling =>
      have hstep : step box s (.mqtt failing) =
          some (s.setPc (.idle (.error (.mqtt (-1))))) := by
        simp [step, h, pollStep, failing, receiveAll]
      exact ⟨_, _, .next _ .init silent_failing hstep, rfl⟩
  | disconnecting =>
      have hstep : step box s (.mqtt failing) =
          some ({ s with sHandle := false }.setPc (.idle (.error (.mqtt (-1))))) := by
        simp [step, h, disconnectStep, failing]
      exact ⟨_, _, .next _ .init silent_failing hstep, rfl⟩

variable (box) in
/-- `comms_connect` can return 0: both subscriptions are answered, and the ping fails. -/
theorem connects (h : s.pc = .syncing) : ∃ t, Silently box s t ∧ t.pc = .idle (.ok ()) := by
  have hsync : step box s (.sntp true) = some (s.setPc .connecting) := by simp [step, h]
  let linked : State K :=
    { s with sHandle := true, sAckReceived := 0 }.setPc (.subscribing [])
  have hhandle : step box (s.setPc .connecting) (.handle true) = some linked := by
    simp [step, State.setPc, linked]
  have hfirst : step box linked (.mqtt ⟨[], 0, true⟩) =
      some (linked.send.setPc (.subscribing [s.packets])) := by
    simp [step, linked, State.setPc, State.send, subscribeStep]
  let both : State K := linked.send.send.setPc (.awaitingSubacks [s.packets, s.packets + 1])
  have hsecond : step box (linked.send.setPc (.subscribing [s.packets]))
      (.mqtt ⟨[], 0, true⟩) = some both := by
    simp [step, linked, both, State.setPc, State.send, subscribeStep, awaitSubacks]
  let o : MqttOutcome := ⟨[.ack s.packets false, .ack (s.packets + 1) false], 0, false⟩
  have ho : (Action.mqtt o).Silent := by simp [Action.Silent, Action.callbacks, o, Callback.isAck]
  have hmem : s.packets + 1 ∈ (s.unanswered ++ [s.packets, s.packets + 1]).erase s.packets := by
    rw [List.mem_erase_of_ne (Nat.succ_ne_self _)]
    simp
  obtain ⟨t, hanswered, ht⟩ : ∃ t, step box both (.mqtt o) = some t ∧
      t.pc = .publishing pingPublication [s.packets, s.packets + 1] := by
    simp [step, both, linked, o, State.setPc, State.send, subackStep, receiveAll, receive,
      State.emit, awaitSubacks, pingPublication, hmem]
  have hping : step box t (.mqtt failing) = some (finishPublish (offer t pingPublication failing)
      pingPublication [s.packets, s.packets + 1] (.error (.mqtt (-1)))) := by
    simp [step, ht, publishStep, failing, receiveAll, offer]
  have hconnected : Silently box s both :=
    .next _ (.next _ (.next _ (.next _ .init (silent_sntp _) hsync) (silent_handle _) hhandle)
      silent_sent hfirst) silent_sent hsecond
  exact ⟨_, .next _ (.next _ hconnected ho hanswered) silent_failing hping, rfl⟩

end PlantNode.Comms
