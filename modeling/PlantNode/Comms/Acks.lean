import PlantNode.Comms.Steps

/-!
# What success of a publish means

`wait_for_ack` counts acknowledgements against a number computed before the packet
was sent, so the loop ends with the first answers that come in.  They are about the
packet of the call only if its own acceptance is among them.
-/

namespace PlantNode.Comms

open Foundation Crypto

variable {K : Type} {box : SecretBox K} {s t : State K}

/-- A success was preceded by the accepting answer to each packet it is about;
`comms_connect` has two of them. -/
def Acknowledged (pre : List (Event K)) : Event K → Prop
  | .published _ packet => .acked packet false ∈ pre
  | .connected packets => packets.length = 2 ∧ ∀ packet ∈ packets, .acked packet false ∈ pre
  | _ => True

/-- The first answers that reach a publish, in an MQTT call that does not fail, have
the acceptance of its own packet among them, and those that bring `comms_connect` to
two have both of its acceptances.  A publish does not begin with `sAckReceived` at
its greatest value. -/
def AnsweredInTurn (s : State K) : Action → Prop
  | .mqtt o => 0 ≤ o.ret →
      match s.pc with
      | .awaitingSubacks packets => s.sAckReceived.toInt + answers o.callbacks < 2 ∨
          ∀ packet ∈ packets, .acked packet false ∈ s.trace ∨ .ack packet false ∈ o.callbacks
      | .publishing _ _ => (answers o.callbacks = 0 ∧ s.sAckReceived ≠ Int32.maxValue) ∨
          .ack s.packets false ∈ o.callbacks
      | .awaiting _ _ packet _ => answers o.callbacks = 0 ∨ .ack packet false ∈ o.callbacks
      | _ => True
  | _ => True

/-- The step does not take `sAckReceived` past its greatest value. -/
def CountFits (s : State K) : Action → Prop
  | .mqtt o => s.sAckReceived.toInt + answers o.callbacks < 2 ^ 31
  | _ => True

/-! ## Numbers of answers -/

theorem lt_succ_of_ne_maxValue {n : Int32} (h : n ≠ Int32.maxValue) :
    n + Int32.ofNat 0 < n + 1 := by
  have hlt := n.toInt_lt
  have hle := n.le_toInt
  have hne : n.toInt ≠ 2 ^ 31 - 1 := fun heq ↦ h (Int32.toInt.inj heq)
  rw [Int32.lt_iff_toInt_lt, Int32.toInt_add, Int32.toInt_add]
  show (n.toInt + 0).bmod (2 ^ 32) < (n.toInt + 1).bmod (2 ^ 32)
  rw [Int.bmod_eq_of_le (by omega) (by omega), Int.bmod_eq_of_le (by omega) (by omega)]
  omega

/-- An answer too many ends the wait, and so does a number that has wrapped around. -/
theorem not_lt_expected {n : Int32} {k : ℕ} (hfits : n.toInt + k < 2 ^ 31)
    (hk : k ≠ 0 ∨ n = Int32.maxValue) : ¬ n + Int32.ofNat k < n + 1 := by
  rcases eq_or_ne k 0 with rfl | hk0
  · rw [hk.resolve_left fun h ↦ h rfl]
    decide
  · have hle := n.le_toInt
    rw [Int32.lt_iff_toInt_lt, Int32.toInt_add, Int32.toInt_ofNat', Int.add_bmod_bmod,
      Int32.toInt_add, Int32.toInt_one]
    simp only [Int32.size]
    rw [Int.bmod_eq_of_le (by omega) (by omega), Int.bmod_eq_of_le (by omega) (by omega)]
    omega

/-! ## Guarded runs -/

/-- What success of the call in progress rests on. -/
def Pc.Honest (s : State K) : Pc K → Prop
  | .subscribing packets => s.sAckReceived = 0 ∧ packets.length < 2
  | .awaitingSubacks packets => packets.length = 2
  | .publishing p packets => (p.source = .ping → packets.length = 2) ∧
      ∀ packet ∈ packets, .acked packet false ∈ s.trace
  | .awaiting p packets _ expected => (p.source = .ping → packets.length = 2) ∧
      (∀ packet ∈ packets, .acked packet false ∈ s.trace) ∧ s.sAckReceived < expected
  | _ => True

structure Honest (s : State K) : Prop where
  acknowledged : EachAfter Acknowledged s.trace
  pc : s.pc.Honest s

theorem honest_boot (zero : K) : Honest (.boot zero) :=
  ⟨EachAfter.nil, trivial⟩

theorem acknowledged_receiveAll {callbacks : List Callback}
    (h : receiveAll box s callbacks = some t) (hs : EachAfter Acknowledged s.trace) :
    EachAfter Acknowledged t.trace := by
  rw [(receiveAll_sameCall h).2]
  refine hs.append fun e he pre ↦ ?_
  obtain ⟨cb, -, rfl⟩ := List.mem_map.mp he
  cases cb with
  | ack packet isReject => trivial
  | publish valid topic payload => trivial

section Publish

variable {p : Publication K} {packets : List ℕ} {packet : ℕ} {expected : Int32}
  (hs : EachAfter Acknowledged s.trace) (hlength : p.source = .ping → packets.length = 2)
  (hpackets : ∀ packet ∈ packets, .acked packet false ∈ s.trace)

include hs hlength hpackets

theorem honest_finishPublish {ret : Result} : Honest (finishPublish s p packets ret) := by
  unfold finishPublish
  split
  · rename_i hping
    exact ⟨eachAfter_snoc.mpr ⟨hs, hlength hping, hpackets⟩, trivial⟩
  · exact ⟨hs, trivial⟩

theorem honest_awaitPublish (hown : s.sAckReceived < expected ∨ .acked packet false ∈ s.trace) :
    Honest (awaitPublish s p packets packet expected) := by
  unfold awaitPublish
  split
  · rename_i hlt
    exact ⟨hs, hlength, hpackets, hlt⟩
  · rename_i hnlt
    have hpublished : EachAfter Acknowledged (s.emit (.published p packet)).trace :=
      eachAfter_snoc.mpr ⟨hs, hown.resolve_left hnlt⟩
    refine honest_finishPublish hpublished hlength fun packet' hmem ↦ ?_
    exact List.mem_append_left _ (hpackets packet' hmem)

end Publish

theorem honest_awaitSubacks {packets : List ℕ} (hs : EachAfter Acknowledged s.trace)
    (hlength : packets.length = 2)
    (hown : s.sAckReceived < 2 ∨ ∀ packet ∈ packets, .acked packet false ∈ s.trace) :
    Honest (awaitSubacks s packets) := by
  unfold awaitSubacks
  split
  · exact ⟨hs, hlength⟩
  · rename_i hnlt
    exact ⟨hs, fun _ ↦ hlength, hown.resolve_left hnlt⟩

theorem Honest.startCall (hs : Honest s) (request : Request) :
    Honest (startCall box s request) := by
  obtain ⟨session, pc, heq, -, hopens⟩ := startCall_spec box s request
  have hpc := hopens.opening
  rw [heq]
  refine ⟨eachAfter_snoc.mpr ⟨hs.acknowledged, trivial⟩, ?_⟩
  cases pc with
  | publishing p packets =>
      cases packets with
      | nil => exact ⟨fun hping ↦ (hpc hping).elim, fun packet hmem ↦ nomatch hmem⟩
      | cons packet rest => exact hpc.elim
  | subscribing packets => exact hpc.elim
  | awaitingSubacks packets => exact hpc.elim
  | awaiting p packets packet expected => exact hpc.elim
  | _ => trivial

theorem Honest.at_pc {pc : Pc K} (hs : Honest s) (hpc : s.pc = pc) : pc.Honest s :=
  hpc ▸ hs.pc

theorem acknowledged_offer {p : Publication K} (o : MqttOutcome)
    (hs : EachAfter Acknowledged s.trace) : EachAfter Acknowledged (offer s p o).trace := by
  rw [offer_trace]
  exact eachAfter_snoc.mpr ⟨hs, trivial⟩

/-- What was accepted before a publish was accepted before its callbacks. -/
theorem accepted_publish {p : Publication K} {o : MqttOutcome} {packets : List ℕ}
    (hm : receiveAll box (offer s p o) o.callbacks = some t)
    (hs : ∀ packet ∈ packets, .acked packet false ∈ s.trace) :
    ∀ packet ∈ packets, .acked packet false ∈ t.trace := by
  intro packet hmem
  rw [mem_receiveAll hm, offer_trace]
  exact .inl (List.mem_append_left _ (hs packet hmem))

theorem Honest.progress {a : Action} (hs : Honest s) (hguard : AnsweredInTurn s a)
    (h : Progress box s a t) : Honest t := by
  cases h with
  | notSynced hpc => exact hs
  | synced hpc => exact ⟨hs.acknowledged, trivial⟩
  | linked hpc => exact ⟨hs.acknowledged, rfl, Nat.two_pos⟩
  | notLinked hpc => exact ⟨hs.acknowledged, trivial⟩
  | notSubscribed hpc ho hret =>
      refine ⟨?_, trivial⟩
      split
      · exact hs.acknowledged
      · exact hs.acknowledged
  | subscribed hpc ho => exact ⟨hs.acknowledged, (hs.at_pc hpc).1, Nat.one_lt_two⟩
  | subscribedBoth hpc ho hne =>
      obtain ⟨hcount, hlength⟩ := hs.at_pc hpc
      refine honest_awaitSubacks (s := s.send) hs.acknowledged ?_ (.inl ?_)
      · have := List.length_pos_iff.mpr hne
        rw [List.length_append, List.length_singleton]
        omega
      · show s.sAckReceived < 2
        rw [hcount]
        decide
  | subackFailed hpc hm hret =>
      have hack := acknowledged_receiveAll hm hs.acknowledged
      exact ⟨hack, trivial⟩
  | suback hpc hm hret =>
      simp only [AnsweredInTurn, hpc] at hguard
      apply honest_awaitSubacks (acknowledged_receiveAll hm hs.acknowledged) (hs.at_pc hpc)
      rcases hguard hret with hfew | hall
      · left
        rw [Int32.lt_iff_toInt_lt, receiveAll_toInt hm (hfew.trans (by norm_num))]
        exact hfew
      · right
        exact fun packet hmem ↦ (mem_receiveAll hm).mpr (hall packet hmem)
  | abandoned hpc ho => exact ⟨hs.acknowledged, trivial⟩
  | publishFailed hpc hm hret =>
      obtain ⟨hlength, hpackets⟩ := hs.at_pc hpc
      have hack := acknowledged_receiveAll hm (acknowledged_offer _ hs.acknowledged)
      exact honest_finishPublish hack hlength (accepted_publish hm hpackets)
  | publish hpc hm hret =>
      obtain ⟨hlength, hpackets⟩ := hs.at_pc hpc
      have hack := acknowledged_receiveAll hm (acknowledged_offer _ hs.acknowledged)
      simp only [AnsweredInTurn, hpc] at hguard
      apply honest_awaitPublish hack hlength (accepted_publish hm hpackets)
      rcases hguard hret with ⟨hnone, hmax⟩ | hown
      · left
        rw [receiveAll_count hm, hnone, offer_sAckReceived]
        exact lt_succ_of_ne_maxValue hmax
      · right
        exact (mem_receiveAll hm).mpr (.inr hown)
  | pubackFailed hpc hm hret =>
      obtain ⟨hlength, hpackets, -⟩ := hs.at_pc hpc
      apply honest_finishPublish (acknowledged_receiveAll hm hs.acknowledged) hlength
      exact fun packet hmem ↦ (mem_receiveAll hm).mpr (.inl (hpackets packet hmem))
  | puback hpc hm hret =>
      obtain ⟨hlength, hpackets, hwait⟩ := hs.at_pc hpc
      simp only [AnsweredInTurn, hpc] at hguard
      refine honest_awaitPublish (acknowledged_receiveAll hm hs.acknowledged) hlength
        (fun packet hmem ↦ (mem_receiveAll hm).mpr (.inl (hpackets packet hmem))) ?_
      rcases hguard hret with hnone | hown
      · left
        rw [receiveAll_count hm, hnone]
        exact lt_of_eq_of_lt (Int32.add_zero _) hwait
      · right
        exact (mem_receiveAll hm).mpr (.inr hown)
  | polled hpc hm =>
      have hack := acknowledged_receiveAll hm hs.acknowledged
      exact ⟨hack, trivial⟩
  | disconnected hpc ho => exact ⟨hs.acknowledged, trivial⟩

theorem Honest.step {a : Action} (hs : Honest s) (hguard : AnsweredInTurn s a)
    (h : step box s a = some t) : Honest t := by
  cases a with
  | call request =>
      simp only [Comms.step] at h
      split at h
      · cases h
        exact hs.startCall request
      · cases h
  | _ => exact hs.progress hguard (progress_of_step (by simp) h)

end PlantNode.Comms
