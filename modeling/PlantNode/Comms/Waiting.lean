import PlantNode.Comms.Steps

/-!
# Waiting for an acknowledgement

`wait_for_ack` over any sequence of outcomes of `mqtt_run`.  The loop gives every call
a timeout of its own and never looks at the one it was called with, so it goes on for
as long as the broker is silent.
-/

namespace PlantNode.Comms

open Foundation Crypto

/-- What a call of `mqtt_run` does for the loop: the answers it delivers, what it
returns, and the milliseconds it leaves in the timeout it was given. -/
structure MqttRun where
  acks : ℕ
  ret : ℤ
  left : ℕ
  deriving DecidableEq, Repr

/-- The loop of `wait_for_ack` after `call` calls, with `t` milliseconds left; the number
of all calls is returned with the result.  The fuel bounds the calls. -/
def waitLoop (run : ℕ → ℕ → MqttRun) (expectedAcks : Int32) :
    (fuel call t : ℕ) → Int32 → Option (Except ℤ Unit × ℕ)
  | 0, call, _, acked => if acked < expectedAcks then none else some (.ok (), call)
  | fuel + 1, call, _, acked =>
      if acked < expectedAcks then
        -- `t = Timeout{MS_TO_TICKS(100)}`
        let o := run call 100
        if o.ret < 0 then some (.error o.ret, call + 1)
        else waitLoop run expectedAcks fuel (call + 1) o.left (acked + Int32.ofNat o.acks)
      else some (.ok (), call)

/-- The default of `timeoutMs`, with which all calls wait. -/
def WaitTimeoutMs : ℕ := 5000

/-- `wait_for_ack(expectedAcks, timeoutMs)` -/
def waitForAck (run : ℕ → ℕ → MqttRun) (fuel : ℕ) (expectedAcks : Int32) (timeoutMs : ℕ)
    (sAckReceived : Int32) : Option (Except ℤ Unit × ℕ) :=
  waitLoop run expectedAcks fuel 0 timeoutMs sAckReceived

/-- A call that delivers no answer uses up its timeout and does not fail. -/
def Patient (run : ℕ → ℕ → MqttRun) : Prop :=
  ∀ n t, (run n t).acks = 0 → (run n t).left = 0 ∧ 0 ≤ (run n t).ret

/-- The calls without an answer among the first `n`. -/
def silentCalls (run : ℕ → ℕ → MqttRun) (n : ℕ) : ℕ :=
  (List.range n).countP fun i ↦ (run i 100).acks = 0

/-- `sAckReceived` after `n` calls. -/
def ackedAfter (run : ℕ → ℕ → MqttRun) (acked : Int32) : ℕ → Int32
  | 0 => acked
  | n + 1 => ackedAfter run acked n + Int32.ofNat (run n 100).acks

/-- After `n` calls the answers suffice, or the last of them failed. -/
def Answered (run : ℕ → ℕ → MqttRun) (expected acked : Int32) (n : ℕ) : Prop :=
  ¬ackedAfter run acked n < expected ∨ ∃ i, n = i + 1 ∧ (run i 100).ret < 0

/-- `wait_for_ack` returns, and about `timeoutMs / 100` calls brought no answer at most. -/
def Bounded (run : ℕ → ℕ → MqttRun) (expected : Int32) (timeoutMs : ℕ) (acked : Int32) : Prop :=
  ∃ fuel ret n, waitForAck run fuel expected timeoutMs acked = some (ret, n) ∧
    silentCalls run n ≤ timeoutMs / 100 + 1

/-- The broker answers, or a call fails, before that many calls brought no answer. -/
def AnsweredInTime (run : ℕ → ℕ → MqttRun) (expected : Int32) (timeoutMs : ℕ) (acked : Int32) :
    Prop :=
  ∃ n, Answered run expected acked n ∧ silentCalls run n ≤ timeoutMs / 100 + 1

variable {run : ℕ → ℕ → MqttRun} {expected acked : Int32} {fuel call t timeoutMs m n : ℕ}
  {ret : Except ℤ Unit}

/-! ## The loop -/

theorem silentCalls_mono (h : m ≤ n) : silentCalls run m ≤ silentCalls run n :=
  (List.range_sublist.mpr h).countP_le

theorem waitLoop_eq_some
    (h : waitLoop run expected fuel call t (ackedAfter run acked call) = some (ret, n)) :
    n ≤ call + fuel ∧ Answered run expected acked n := by
  induction fuel generalizing call t with
  | zero =>
      rw [waitLoop] at h
      split at h
      · cases h
      · rename_i hdone
        cases h
        exact ⟨le_rfl, .inl hdone⟩
  | succ fuel ih =>
      rw [waitLoop] at h
      split at h
      · dsimp only at h
        split at h
        · rename_i hfailed
          cases h
          exact ⟨by omega, .inr ⟨call, rfl, hfailed⟩⟩
        · obtain ⟨hle, hanswered⟩ := ih h
          exact ⟨by omega, hanswered⟩
      · rename_i hdone
        cases h
        exact ⟨by omega, .inl hdone⟩

theorem waitLoop_eq_none
    (h : waitLoop run expected fuel call t (ackedAfter run acked call) = none) :
    ackedAfter run acked call < expected ∧
      ∀ n, call < n → n ≤ call + fuel → ¬Answered run expected acked n := by
  induction fuel generalizing call t with
  | zero =>
      rw [waitLoop] at h
      split at h
      · rename_i hwaits
        exact ⟨hwaits, fun n hlt hle ↦ by omega⟩
      · cases h
  | succ fuel ih =>
      rw [waitLoop] at h
      split at h
      · rename_i hwaits
        dsimp only at h
        split at h
        · cases h
        · rename_i hret
          obtain ⟨hnext, hlater⟩ := ih h
          refine ⟨hwaits, fun n hlt hle hanswered ↦ ?_⟩
          rcases Nat.eq_or_lt_of_le hlt with rfl | hlt
          · rcases hanswered with hdone | ⟨i, heq, hfailed⟩
            · exact hdone hnext
            · rw [← Nat.succ.inj heq] at hfailed
              exact hret hfailed
          · exact hlater n hlt (by omega) hanswered
      · cases h

theorem waitForAck_eq_some (h : waitForAck run fuel expected timeoutMs acked = some (ret, n)) :
    n ≤ fuel ∧ Answered run expected acked n := by
  have hloop : waitLoop run expected fuel 0 timeoutMs (ackedAfter run acked 0) = some (ret, n) := h
  have hspec := waitLoop_eq_some hloop
  rwa [Nat.zero_add] at hspec

theorem waitForAck_eq_none (h : waitForAck run fuel expected timeoutMs acked = none)
    (hle : n ≤ fuel) : ¬Answered run expected acked n := by
  have hloop : waitLoop run expected fuel 0 timeoutMs (ackedAfter run acked 0) = none := h
  obtain ⟨hwaits, hlater⟩ := waitLoop_eq_none hloop
  cases n with
  | zero =>
      rintro (hdone | ⟨i, heq, -⟩)
      · exact hdone hwaits
      · cases heq
  | succ n => exact hlater (n + 1) n.succ_pos (by omega)

/-- The timeout of the whole wait is overwritten before it is used. -/
theorem waitForAck_timeout (run : ℕ → ℕ → MqttRun) (fuel : ℕ) (expected : Int32)
    (timeoutMs timeoutMs' : ℕ) (acked : Int32) :
    waitForAck run fuel expected timeoutMs acked =
      waitForAck run fuel expected timeoutMs' acked := by
  cases fuel <;> rfl

theorem bounded_iff : Bounded run expected timeoutMs acked ↔
    AnsweredInTime run expected timeoutMs acked := by
  constructor
  · rintro ⟨fuel, ret, n, hrun, hsilent⟩
    exact ⟨n, (waitForAck_eq_some hrun).2, hsilent⟩
  · rintro ⟨n, hanswered, hsilent⟩
    cases hrun : waitForAck run n expected timeoutMs acked with
    | none => exact absurd hanswered (waitForAck_eq_none hrun le_rfl)
    | some r =>
        have hle := (waitForAck_eq_some hrun).1
        exact ⟨n, r.1, r.2, hrun, (silentCalls_mono hle).trans hsilent⟩

/-! ## The calls that wait -/

variable {K : Type} {box : SecretBox K} {s u : State K} {o : MqttOutcome}

/-- A call is in the loop of `wait_for_ack(expected)`. -/
structure Waiting (s : State K) (expected : Int32) : Prop where
  pc : (∃ packets, s.pc = .awaitingSubacks packets ∧ expected = 2) ∨
    ∃ p packets packet, s.pc = .awaiting p packets packet expected
  missing : s.sAckReceived < expected

/-- What the loop sees of the outcomes of `mqtt_run`. -/
def runOf (outcomes : ℕ → MqttOutcome) (n _t : ℕ) : MqttRun where
  acks := answers (outcomes n).callbacks
  ret := (outcomes n).ret
  left := 0

theorem not_waiting_idle {last : Result} (h : s.pc = .idle last) : ¬Waiting s expected := by
  rintro ⟨⟨packets, hpc, -⟩ | ⟨p, packets, packet, hpc⟩, -⟩ <;> rw [h] at hpc <;> cases hpc

theorem waiting_awaitPublish (s : State K) (p : Publication K) (packets : List ℕ) (packet : ℕ)
    (expected : Int32) :
    (awaitPublish s p packets packet expected).sAckReceived = s.sAckReceived ∧
      (Waiting (awaitPublish s p packets packet expected) expected ↔
        s.sAckReceived < expected) := by
  unfold awaitPublish
  split
  · rename_i hlt
    exact ⟨rfl, fun _ ↦ hlt, fun _ ↦ ⟨.inr ⟨p, packets, packet, rfl⟩, hlt⟩⟩
  · rename_i hdone
    obtain ⟨last, hlast⟩ := finishPublish_idle (s.emit (.published p packet)) p packets (.ok ())
    refine ⟨?_, fun h ↦ absurd h (not_waiting_idle hlast), fun h ↦ absurd h hdone⟩
    unfold finishPublish finishConnect
    split <;> rfl

theorem waiting_awaitSubacks (s : State K) (packets : List ℕ) :
    (awaitSubacks s packets).sAckReceived = s.sAckReceived ∧
      (Waiting (awaitSubacks s packets) 2 ↔ s.sAckReceived < 2) := by
  unfold awaitSubacks
  split
  · rename_i hlt
    exact ⟨rfl, fun _ ↦ hlt, fun _ ↦ ⟨.inl ⟨packets, rfl, rfl⟩, hlt⟩⟩
  · rename_i hdone
    refine ⟨rfl, fun h ↦ absurd h.missing hdone, fun h ↦ absurd h hdone⟩

/-- One `mqtt_run` of a waiting call: the call goes on waiting exactly if it did not fail
and answers are still missing. -/
theorem Waiting.step (hs : Waiting s expected) (h : step box s (.mqtt o) = some u) :
    (Waiting u expected ↔
        0 ≤ o.ret ∧ s.sAckReceived + Int32.ofNat (answers o.callbacks) < expected) ∧
      (Waiting u expected →
        u.sAckReceived = s.sAckReceived + Int32.ofNat (answers o.callbacks)) := by
  obtain ⟨⟨packets, hpc, rfl⟩ | ⟨p, packets, packet, hpc⟩, hmissing⟩ := hs
  · simp only [Comms.step, hpc, subackStep, Option.map_eq_some_iff] at h
    obtain ⟨m, hm, rfl⟩ := h
    rw [← receiveAll_count hm]
    split
    · rename_i hfailed
      have hleft : ¬Waiting (m.setPc (.abandoning (.mqtt o.ret))) 2 := by
        rintro ⟨⟨packets, hpc, -⟩ | ⟨p, packets, packet, hpc⟩, -⟩ <;> cases hpc
      exact ⟨⟨fun h ↦ absurd h hleft, fun h ↦ absurd hfailed (not_lt.mpr h.1)⟩,
        fun h ↦ absurd h hleft⟩
    · rename_i hret
      obtain ⟨hcount, hiff⟩ := waiting_awaitSubacks m packets
      rw [hiff, hcount]
      exact ⟨⟨fun h ↦ ⟨not_lt.mp hret, h⟩, And.right⟩, fun _ ↦ rfl⟩
  · simp only [Comms.step, hpc, pubackStep, Option.map_eq_some_iff] at h
    obtain ⟨m, hm, rfl⟩ := h
    rw [← receiveAll_count hm]
    split
    · rename_i hfailed
      obtain ⟨last, hlast⟩ := finishPublish_idle m p packets (.error (.mqtt o.ret))
      have hleft : ¬Waiting _ expected := not_waiting_idle hlast
      exact ⟨⟨fun h ↦ absurd h hleft, fun h ↦ absurd hfailed (not_lt.mpr h.1)⟩,
        fun h ↦ absurd h hleft⟩
    · rename_i hret
      obtain ⟨hcount, hiff⟩ := waiting_awaitPublish m p packets packet expected
      rw [hiff, hcount]
      exact ⟨⟨fun h ↦ ⟨not_lt.mp hret, h⟩, And.right⟩, fun _ ↦ rfl⟩

/-! ## Runs -/

/-- The states of a call that waits, while it waits. -/
def WaitRun (box : SecretBox K) (states : ℕ → State K) (outcomes : ℕ → MqttOutcome)
    (expected : Int32) : Prop :=
  Waiting (states 0) expected ∧ ∀ n, Waiting (states n) expected →
    step box (states n) (.mqtt (outcomes n)) = some (states (n + 1))

/-- The call leaves the loop after `n` calls of `mqtt_run`. -/
def LeavesLoop (states : ℕ → State K) (expected : Int32) (n : ℕ) : Prop :=
  ¬Waiting (states n) expected ∧ ∀ m < n, Waiting (states m) expected

/-- The call leaves the loop, and about `WaitTimeoutMs / 100` calls brought no answer at
most. -/
def CallBounded (states : ℕ → State K) (outcomes : ℕ → MqttOutcome) (expected : Int32) : Prop :=
  ∃ n, LeavesLoop states expected n ∧ silentCalls (runOf outcomes) n ≤ WaitTimeoutMs / 100 + 1

variable {states : ℕ → State K} {outcomes : ℕ → MqttOutcome}

theorem WaitRun.count (hrun : WaitRun box states outcomes expected)
    (hwaits : ∀ m ≤ n, Waiting (states m) expected) : (states n).sAckReceived =
      ackedAfter (runOf outcomes) (states 0).sAckReceived n := by
  induction n with
  | zero => rfl
  | succ n ih =>
      have hstep := hrun.2 n (hwaits n n.le_succ)
      rw [((hwaits n n.le_succ).step hstep).2 (hwaits (n + 1) le_rfl),
        ih fun m hm ↦ hwaits m (Nat.le_succ_of_le hm), ackedAfter]
      rfl

/-- The machine leaves the loop when the loop ends. -/
theorem WaitRun.waiting_iff (hrun : WaitRun box states outcomes expected)
    (hwaits : ∀ m < n, Waiting (states m) expected) : Waiting (states n) expected ↔
      ¬Answered (runOf outcomes) expected (states 0).sAckReceived n := by
  cases n with
  | zero =>
      refine ⟨fun hzero ↦ ?_, fun _ ↦ hrun.1⟩
      rintro (hdone | ⟨i, heq, -⟩)
      · exact hdone hzero.missing
      · cases heq
  | succ n =>
      have hn : Waiting (states n) expected := hwaits n n.lt_succ_self
      have hcount := hrun.count fun m hm ↦ hwaits m (Nat.lt_succ_of_le hm)
      rw [(hn.step (hrun.2 n hn)).1, hcount, Answered, not_or, not_not]
      constructor
      · rintro ⟨hret, hmissing⟩
        refine ⟨hmissing, ?_⟩
        rintro ⟨i, heq, hfailed⟩
        cases heq
        exact absurd hret (not_le.mpr hfailed)
      · rintro ⟨hmissing, hfine⟩
        exact ⟨not_lt.mp fun hfailed ↦ hfine ⟨n, rfl, hfailed⟩, hmissing⟩

theorem WaitRun.bounded_iff (hrun : WaitRun box states outcomes expected) :
    CallBounded states outcomes expected ↔
      AnsweredInTime (runOf outcomes) expected WaitTimeoutMs (states 0).sAckReceived := by
  constructor
  · rintro ⟨n, ⟨hleft, hwaits⟩, hsilent⟩
    exact ⟨n, not_not.mp fun h ↦ hleft ((hrun.waiting_iff hwaits).mpr h), hsilent⟩
  · rintro ⟨n, hanswered, hsilent⟩
    have hleaves : ∃ m, m ≤ n ∧ ¬Waiting (states m) expected := by
      by_contra hnone
      have hall : ∀ m ≤ n, Waiting (states m) expected :=
        fun m hm ↦ not_not.mp fun h ↦ hnone ⟨m, hm, h⟩
      exact (hrun.waiting_iff fun m hm ↦ hall m hm.le).mp (hall n le_rfl) hanswered
    classical
    obtain ⟨hle, hleft⟩ := Nat.find_spec hleaves
    refine ⟨Nat.find hleaves, ⟨hleft, fun m hm ↦ ?_⟩, (silentCalls_mono hle).trans hsilent⟩
    exact not_not.mp fun h ↦ Nat.find_min hleaves hm ⟨hm.le.trans hle, h⟩

/-- `wait_for_ack` is bounded, and with it a publish or a connection that waits, exactly
if the broker answers in time. -/
theorem waiting_bounded_iff (box : SecretBox K) (run : ℕ → ℕ → MqttRun) (expected : Int32)
    (timeoutMs : ℕ) (acked : Int32) :
    (Bounded run expected timeoutMs acked ↔ AnsweredInTime run expected timeoutMs acked) ∧
      ∀ states outcomes, WaitRun box states outcomes expected →
        (CallBounded states outcomes expected ↔
          AnsweredInTime (runOf outcomes) expected WaitTimeoutMs (states 0).sAckReceived) :=
  ⟨bounded_iff, fun _ _ hrun ↦ hrun.bounded_iff⟩

/-! ## A silent broker -/

def silentRun (_n _t : ℕ) : MqttRun := ⟨0, 0, 0⟩

theorem ackedAfter_silentRun (acked : Int32) (n : ℕ) : ackedAfter silentRun acked n = acked := by
  induction n with
  | zero => rfl
  | succ n ih =>
      rw [ackedAfter, ih]
      exact Int32.add_zero acked

theorem not_answered_silentRun (h : acked < expected) (n : ℕ) :
    ¬Answered silentRun expected acked n := by
  rintro (hdone | ⟨i, -, hfailed⟩)
  · exact hdone (by rwa [ackedAfter_silentRun])
  · exact lt_irrefl (0 : ℤ) hfailed

/-- A publish that waits for the answer to its packet. -/
def waitingPublish : State ℕ :=
  { State.boot 0 with
    sHandle := true
    packets := 1
    unanswered := [0]
    pc := .awaiting ⟨TopicPing, DebugMsg, false, .request⟩ [] 0 1 }

/-- It waits for as long as the broker is silent. -/
theorem waiting_bounded_waitingPublish :
    ¬CallBounded (fun _ ↦ waitingPublish) (fun _ ↦ ⟨[], 0, true⟩) 1 ∧
      ¬Bounded silentRun 1 WaitTimeoutMs 0 := by
  have hrun : WaitRun SecretBox.tagged (fun _ ↦ waitingPublish) (fun _ ↦ ⟨[], 0, true⟩) 1 :=
    ⟨⟨.inr ⟨_, _, _, rfl⟩, by decide⟩, fun _ _ ↦ rfl⟩
  constructor
  · rw [(waiting_bounded_iff SecretBox.tagged silentRun 1 0 0).2 _ _ hrun]
    rintro ⟨n, hanswered, -⟩
    exact not_answered_silentRun (by decide) n hanswered
  · rw [(waiting_bounded_iff SecretBox.tagged silentRun 1 WaitTimeoutMs 0).1]
    rintro ⟨n, hanswered, -⟩
    exact not_answered_silentRun (by decide) n hanswered

/-- Every call of `mqtt_run` uses up its slice and returns 0, and `wait_for_ack(1)` does
not return. -/
theorem silent_broker_hangs : Patient silentRun ∧
    (∀ fuel, waitForAck silentRun fuel 1 WaitTimeoutMs 0 = none) ∧
      ¬Bounded silentRun 1 WaitTimeoutMs 0 := by
  have hforever : ∀ fuel, waitForAck silentRun fuel 1 WaitTimeoutMs 0 = none := by
    intro fuel
    cases hrun : waitForAck silentRun fuel 1 WaitTimeoutMs 0 with
    | none => rfl
    | some r =>
        exact absurd (waitForAck_eq_some hrun).2 (not_answered_silentRun (by decide) r.2)
  refine ⟨fun _ _ _ ↦ ⟨rfl, le_rfl⟩, hforever, ?_⟩
  rintro ⟨fuel, ret, n, hrun, -⟩
  rw [hforever fuel] at hrun
  cases hrun

end PlantNode.Comms
