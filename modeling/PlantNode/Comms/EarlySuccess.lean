import PlantNode.Comms.Acks

/-!
# Success without the answer

A step outside `AnsweredInTurn` leads to a success that the broker did not give: no
packet is answered under a number that was not sent, and a call that waits has not
had its own answer.
-/

namespace PlantNode.Comms

open Foundation Crypto

variable {K : Type} {box : SecretBox K} {s t : State K}

/-! ## Packet numbers -/

/-- Every packet that the state speaks of was sent. -/
structure Numbered (s : State K) : Prop where
  acked : ∀ packet isReject, .acked packet isReject ∈ s.trace → packet < s.packets
  unanswered : ∀ packet ∈ s.unanswered, packet < s.packets

/-- A publish that waits is one answer short, and has not had its own. -/
def Pc.Tracked (s : State K) : Pc K → Prop
  | .subscribing packets => ∀ packet ∈ packets, packet < s.packets
  | .awaitingSubacks packets => ∀ packet ∈ packets, packet < s.packets
  | .awaiting _ _ packet expected =>
      expected = s.sAckReceived + 1 ∧ .acked packet false ∉ s.trace
  | _ => True

structure Tracked (s : State K) : Prop extends Numbered s where
  pc : s.pc.Tracked s

theorem Numbered.emit (hs : Numbered s) {e : Event K}
    (he : ∀ packet isReject, e ≠ .acked packet isReject) : Numbered (s.emit e) where
  acked packet isReject hmem :=
    hs.acked packet isReject (mem_of_mem_snoc hmem (he packet isReject).symm)
  unanswered := hs.unanswered

theorem Numbered.send (hs : Numbered s) : Numbered s.send where
  acked packet isReject hmem := (hs.acked packet isReject hmem).trans (Nat.lt_succ_self _)
  unanswered packet hmem := by
    rcases List.mem_append.mp hmem with hmem | hmem
    · exact (hs.unanswered packet hmem).trans (Nat.lt_succ_self _)
    · rw [List.mem_singleton.mp hmem]
      exact Nat.lt_succ_self _

theorem Numbered.receiveAll {callbacks : List Callback} (hs : Numbered s)
    (h : receiveAll box s callbacks = some t) : Numbered t := by
  refine receiveAll_invariant (fun s t cb _ hs hcb ↦ ?_) h hs
  cases cb with
  | ack packet isReject =>
      simp only [receive] at hcb
      split at hcb
      · rename_i hmem
        cases hcb
        refine ⟨fun packet' isReject' hacked ↦ ?_, fun packet' hmem' ↦ ?_⟩
        · rcases List.mem_append.mp hacked with hacked | hacked
          · exact hs.acked packet' isReject' hacked
          · cases List.mem_singleton.mp hacked
            exact hs.unanswered packet hmem
        · exact hs.unanswered packet' (List.mem_of_mem_erase hmem')
      · cases hcb
  | publish valid topic payload =>
      cases hcb
      refine ⟨fun packet isReject hmem ↦ ?_, hs.unanswered⟩
      exact hs.acked packet isReject (mem_of_mem_snoc hmem (by simp))

theorem tracked_boot (zero : K) : Tracked (.boot zero) where
  acked _ _ hmem := nomatch hmem
  unanswered _ hmem := nomatch hmem
  pc := trivial

theorem numbered_offer (hs : Numbered s) (p : Publication K) (o : MqttOutcome) :
    Numbered (offer s p o) := by
  have hemit : Numbered (s.emit (.offered p)) := hs.emit (by simp)
  unfold offer
  split
  · exact hemit.send
  · exact hemit

theorem tracked_finishPublish (hs : Numbered s) (p : Publication K) (packets : List ℕ)
    (ret : Result) : Tracked (finishPublish s p packets ret) := by
  unfold finishPublish
  split
  · have hemit : Numbered (s.emit (.connected packets)) := hs.emit (by simp)
    exact ⟨⟨hemit.acked, hemit.unanswered⟩, trivial⟩
  · exact ⟨⟨hs.acked, hs.unanswered⟩, trivial⟩

theorem tracked_awaitPublish {p : Publication K} {packets : List ℕ} {packet : ℕ}
    {expected : Int32} (hs : Numbered s)
    (hwait : s.sAckReceived < expected →
      expected = s.sAckReceived + 1 ∧ .acked packet false ∉ s.trace) :
    Tracked (awaitPublish s p packets packet expected) := by
  unfold awaitPublish
  split
  · rename_i hlt
    exact ⟨⟨hs.acked, hs.unanswered⟩, hwait hlt⟩
  · exact tracked_finishPublish (hs.emit (by simp)) p packets _

theorem tracked_awaitSubacks {packets : List ℕ} (hs : Numbered s)
    (hpackets : ∀ packet ∈ packets, packet < s.packets) : Tracked (awaitSubacks s packets) := by
  unfold awaitSubacks
  split
  · exact ⟨⟨hs.acked, hs.unanswered⟩, hpackets⟩
  · exact ⟨⟨hs.acked, hs.unanswered⟩, trivial⟩

theorem Tracked.startCall (hs : Tracked s) (request : Request) :
    Tracked (startCall box s request) := by
  obtain ⟨session, pc, heq, -, hopens⟩ := startCall_spec box s request
  have hpc := hopens.opening
  rw [heq]
  refine ⟨⟨(hs.emit (by simp)).acked, hs.unanswered⟩, ?_⟩
  cases pc with
  | subscribing packets => exact hpc.elim
  | awaitingSubacks packets => exact hpc.elim
  | awaiting p packets packet expected => exact hpc.elim
  | _ => trivial

theorem Tracked.at_pc {pc : Pc K} (hs : Tracked s) (hpc : s.pc = pc) : pc.Tracked s :=
  hpc ▸ hs.pc

/-- A wait that goes on has had no answer. -/
theorem tracked_wait {packet : ℕ} {expected : Int32} {callbacks : List Callback}
    (hm : receiveAll box s callbacks = some t) (hexpected : expected = s.sAckReceived + 1)
    (hfresh : .acked packet false ∉ s.trace)
    (hnone : answers callbacks = 0) :
    expected = t.sAckReceived + 1 ∧ .acked packet false ∉ t.trace := by
  refine ⟨?_, fun hacked ↦ ?_⟩
  · rw [receiveAll_count hm, hnone, hexpected]
    exact congrArg (· + 1) (Int32.add_zero _).symm
  · rcases (mem_receiveAll hm).mp hacked with hacked | hacked
    · exact hfresh hacked
    · exact answers_ne_zero hacked hnone

theorem Tracked.progress {a : Action} (hs : Tracked s) (hguard : AnsweredInTurn s a)
    (hfits : CountFits s a) (h : Progress box s a t) : Tracked t := by
  have hsend := hs.toNumbered.send
  cases h with
  | notSynced hpc => exact hs
  | synced hpc => exact ⟨⟨hs.acked, hs.unanswered⟩, trivial⟩
  | linked hpc => exact ⟨⟨hs.acked, hs.unanswered⟩, fun packet hmem ↦ absurd hmem List.not_mem_nil⟩
  | notLinked hpc => exact ⟨⟨hs.acked, hs.unanswered⟩, trivial⟩
  | notSubscribed hpc ho hret =>
      split
      · exact ⟨⟨hsend.acked, hsend.unanswered⟩, trivial⟩
      · exact ⟨⟨hs.acked, hs.unanswered⟩, trivial⟩
  | subscribed hpc ho =>
      refine ⟨⟨hsend.acked, hsend.unanswered⟩, fun packet hmem ↦ ?_⟩
      rw [List.mem_singleton.mp hmem]
      exact Nat.lt_succ_self _
  | subscribedBoth hpc ho hne =>
      refine tracked_awaitSubacks hsend fun packet hmem ↦ ?_
      rcases List.mem_append.mp hmem with hmem | hmem
      · exact (hs.at_pc hpc packet hmem).trans (Nat.lt_succ_self _)
      · rw [List.mem_singleton.mp hmem]
        exact Nat.lt_succ_self _
  | subackFailed hpc hm hret =>
      have hnum := hs.toNumbered.receiveAll hm
      exact ⟨⟨hnum.acked, hnum.unanswered⟩, trivial⟩
  | suback hpc hm hret =>
      refine tracked_awaitSubacks (hs.toNumbered.receiveAll hm) fun packet hmem ↦ ?_
      rw [(receiveAll_sameCall hm).1.packets]
      exact hs.at_pc hpc packet hmem
  | abandoned hpc ho => exact ⟨⟨hs.acked, hs.unanswered⟩, trivial⟩
  | publishFailed hpc hm hret =>
      exact tracked_finishPublish ((numbered_offer hs.toNumbered _ _).receiveAll hm) _ _ _
  | publish hpc hm hret =>
      simp only [AnsweredInTurn, hpc] at hguard
      refine tracked_awaitPublish ((numbered_offer hs.toNumbered _ _).receiveAll hm) fun hlt ↦ ?_
      rcases hguard hret with ⟨hnone, -⟩ | hown
      · refine tracked_wait hm (by rw [offer_sAckReceived]) (fun hacked ↦ ?_) hnone
        rw [offer_trace] at hacked
        exact lt_irrefl _ (hs.acked s.packets false (mem_of_mem_snoc hacked (by simp)))
      · rw [receiveAll_count hm, offer_sAckReceived] at hlt
        exact absurd hlt (not_lt_expected hfits (.inl (answers_ne_zero hown)))
  | pubackFailed hpc hm hret => exact tracked_finishPublish (hs.toNumbered.receiveAll hm) _ _ _
  | puback hpc hm hret =>
      simp only [AnsweredInTurn, hpc] at hguard
      obtain ⟨rfl, hfresh⟩ := hs.at_pc hpc
      refine tracked_awaitPublish (hs.toNumbered.receiveAll hm) fun hlt ↦ ?_
      rcases hguard hret with hnone | hown
      · exact tracked_wait hm rfl hfresh hnone
      · rw [receiveAll_count hm] at hlt
        exact absurd hlt (not_lt_expected hfits (.inl (answers_ne_zero hown)))
  | polled hpc hm =>
      have hnum := hs.toNumbered.receiveAll hm
      exact ⟨⟨hnum.acked, hnum.unanswered⟩, trivial⟩
  | disconnected hpc ho => exact ⟨⟨hs.acked, hs.unanswered⟩, trivial⟩

theorem Tracked.step {a : Action} (hs : Tracked s) (hguard : AnsweredInTurn s a)
    (hfits : CountFits s a) (h : step box s a = some t) : Tracked t := by
  cases a with
  | call request =>
      simp only [Comms.step] at h
      split at h
      · cases h
        exact hs.startCall request
      · cases h
  | _ => exact hs.progress hguard hfits (progress_of_step (by simp) h)

/-! ## Success without the answer -/

theorem awaitPublish_unacknowledged {p : Publication K} {packets : List ℕ} {packet : ℕ}
    {expected : Int32} (hnlt : ¬ s.sAckReceived < expected)
    (hown : .acked packet false ∉ s.trace) :
    ¬ EachAfter Acknowledged (awaitPublish s p packets packet expected).trace := by
  intro hall
  rw [awaitPublish, if_neg hnlt] at hall
  obtain ⟨later, hlater⟩ := finishPublish_trace (s.emit (.published p packet)) p packets (.ok ())
  rw [← hlater] at hall
  exact hown (eachAfter_snoc.mp hall.of_append).2

theorem publishStep_unacknowledged {p : Publication K} {packets : List ℕ} {o : MqttOutcome}
    (hs : Tracked s) (hret : 0 ≤ o.ret)
    (hfits : s.sAckReceived.toInt + answers o.callbacks < 2 ^ 31)
    (hearly : answers o.callbacks ≠ 0 ∨ s.sAckReceived = Int32.maxValue)
    (hown : .ack s.packets false ∉ o.callbacks)
    (h : publishStep box s p packets o = some t) : ¬ EachAfter Acknowledged t.trace := by
  obtain ⟨m, hm, rfl⟩ := Option.map_eq_some_iff.mp h
  replace hm : receiveAll box (offer s p o) o.callbacks = some m := hm
  rw [if_neg (not_lt.mpr hret)]
  apply awaitPublish_unacknowledged
  · rw [receiveAll_count hm, offer_sAckReceived]
    exact not_lt_expected hfits hearly
  · rw [mem_receiveAll hm, offer_trace, not_or]
    refine ⟨fun hacked ↦ ?_, hown⟩
    exact lt_irrefl _ (hs.acked s.packets false (mem_of_mem_snoc hacked (by simp)))

theorem pubackStep_unacknowledged {p : Publication K} {packets : List ℕ} {packet : ℕ}
    {expected : Int32} {o : MqttOutcome} (hs : Tracked s)
    (hpc : s.pc = .awaiting p packets packet expected) (hret : 0 ≤ o.ret)
    (hfits : s.sAckReceived.toInt + answers o.callbacks < 2 ^ 31)
    (hearly : answers o.callbacks ≠ 0) (hown : .ack packet false ∉ o.callbacks)
    (h : pubackStep box s p packets packet expected o = some t) :
    ¬ EachAfter Acknowledged t.trace := by
  obtain ⟨m, hm, rfl⟩ := Option.map_eq_some_iff.mp h
  obtain ⟨rfl, hfresh⟩ : expected = s.sAckReceived + 1 ∧ .acked packet false ∉ s.trace := by
    have := hs.pc
    rwa [hpc] at this
  rw [if_neg (not_lt.mpr hret)]
  apply awaitPublish_unacknowledged
  · rw [receiveAll_count hm]
    exact not_lt_expected hfits (.inl hearly)
  · rw [mem_receiveAll hm, not_or]
    exact ⟨hfresh, hown⟩

variable (box) in
/-- The ping of `comms_connect`, answered at once. -/
theorem ping_connected {packets : List ℕ}
    (hpc : s.pc = .publishing ⟨TopicPing, DebugMsg, false, .ping⟩ packets) :
    ∃ u, step box s (.mqtt ⟨[.ack s.packets false], 0, true⟩) = some u ∧
      u.trace = s.trace ++ [.offered ⟨TopicPing, DebugMsg, false, .ping⟩,
        .acked s.packets false, .published ⟨TopicPing, DebugMsg, false, .ping⟩ s.packets,
        .connected packets] := by
  have hsent : s.packets ∈ (s.unanswered ++ [s.packets]) :=
    List.mem_append_right _ (List.mem_singleton.mpr rfl)
  simp only [step, hpc, publishStep, receiveAll, receive, State.send, State.emit, hsent,
    true_or, le_refl, if_true, Option.bind_some, Option.map_some, lt_irrefl, if_false]
  refine ⟨_, rfl, ?_⟩
  simp only [awaitPublish, Int32.lt_irrefl, if_false, finishPublish, finishConnect, State.emit,
    State.setPc, List.append_assoc, List.cons_append, List.nil_append]

theorem subackStep_unacknowledged {packets : List ℕ} {o : MqttOutcome} (hs : Tracked s)
    (hpc : s.pc = .awaitingSubacks packets) (hret : 0 ≤ o.ret)
    (hfits : s.sAckReceived.toInt + answers o.callbacks < 2 ^ 31)
    (hearly : 2 ≤ s.sAckReceived.toInt + answers o.callbacks)
    {packet : ℕ} (hmem : packet ∈ packets) (hown : .acked packet false ∉ s.trace)
    (hown' : .ack packet false ∉ o.callbacks)
    (h : subackStep box s packets o = some t) :
    ∃ u, Reachable (step box) t u ∧ ¬ EachAfter Acknowledged u.trace := by
  obtain ⟨m, hm, rfl⟩ := Option.map_eq_some_iff.mp h
  have hsent : packet < m.packets := by
    have := hs.pc
    rw [hpc] at this
    rw [(receiveAll_sameCall hm).1.packets]
    exact this packet hmem
  have hnlt : ¬ m.sAckReceived < 2 := by
    rw [Int32.lt_iff_toInt_lt, receiveAll_toInt hm hfits]
    exact not_lt.mpr hearly
  rw [if_neg (not_lt.mpr hret), awaitSubacks, if_neg hnlt]
  obtain ⟨u, hu, htrace⟩ := ping_connected box
    (s := m.setPc (.publishing ⟨TopicPing, DebugMsg, false, .ping⟩ packets)) rfl
  refine ⟨u, .next _ .init trivial hu, fun hall ↦ ?_⟩
  rw [htrace, List.append_cons, List.append_cons, List.append_cons] at hall
  have hacked := (eachAfter_snoc.mp hall).2.2 packet hmem
  simp only [List.mem_append, List.mem_singleton, reduceCtorEq, or_false, Event.acked.injEq,
    and_true] at hacked
  rcases hacked with hacked | hacked
  · rcases (mem_receiveAll hm).mp hacked with hacked | hacked
    · exact hown hacked
    · exact hown' hacked
  · exact hsent.ne hacked

/-- `wait_for_ack` waits for answers, not for the answer.  A run in which every step
meets `AnsweredInTurn` reports no success without the answers that it is about, and
the first step that does not meet it leads to one that does. -/
theorem success_acknowledged (box : SecretBox K) (zero : K) :
    (∀ s, Steps (step box) AnsweredInTurn (.boot zero) s → EachAfter Acknowledged s.trace) ∧
    ∀ s a t, Steps (step box) (fun s a ↦ AnsweredInTurn s a ∧ CountFits s a) (.boot zero) s →
      CountFits s a → ¬ AnsweredInTurn s a → step box s a = some t →
      ∃ u, Reachable (step box) t u ∧ ¬ EachAfter Acknowledged u.trace := by
  constructor
  · intro s hs
    have honest : Honest s := hs.invariant (honest_boot zero)
      fun _ _ _ hs hguard hstep ↦ hs.step hguard hstep
    exact honest.acknowledged
  · intro s a t hs hfits hguard hstep
    have htracked : Tracked s := hs.invariant (tracked_boot zero)
      fun _ _ _ hs hguard hstep ↦ hs.step hguard.1 hguard.2 hstep
    cases a with
    | mqtt o =>
        cases hpc : s.pc with
        | awaitingSubacks packets =>
            simp only [AnsweredInTurn, hpc] at hguard
            simp only [step, hpc] at hstep
            push Not at hguard
            obtain ⟨hret, hearly, packet, hmem, hown, hown'⟩ := hguard
            exact subackStep_unacknowledged htracked hpc hret hfits hearly hmem hown hown' hstep
        | publishing p packets =>
            simp only [AnsweredInTurn, hpc] at hguard
            simp only [step, hpc] at hstep
            push Not at hguard
            obtain ⟨hret, hearly, hown⟩ := hguard
            refine ⟨t, .init, publishStep_unacknowledged htracked hret hfits ?_ hown hstep⟩
            exact (em (answers o.callbacks = 0)).symm.imp id hearly
        | awaiting p packets packet expected =>
            simp only [AnsweredInTurn, hpc] at hguard
            simp only [step, hpc] at hstep
            push Not at hguard
            obtain ⟨hret, hearly, hown⟩ := hguard
            exact ⟨t, .init,
              pubackStep_unacknowledged htracked hpc hret hfits hearly hown hstep⟩
        | _ => simp [AnsweredInTurn, hpc] at hguard
    | _ => exact absurd trivial hguard

/-- `comms_connect`, whose ping is sent but not answered before `mqtt_run` fails, then
a publish of an empty key packet. -/
def connectThenPublish : List Action :=
  [.call .connect, .sntp true, .handle true, .mqtt ⟨[], 0, true⟩, .mqtt ⟨[], 0, true⟩,
    .mqtt ⟨[.ack 1 false, .ack 0 false], 0, false⟩, .mqtt ⟨[], 0, true⟩, .mqtt ⟨[], -1, false⟩,
    .call (.publishKeyPacket (some [])), .mqtt ⟨[], 0, true⟩]

/-- The guard of the runs below, as a test. -/
def answersInTurn (s : State ℕ) : Action → Bool
  | .mqtt o => decide (s.sAckReceived.toInt + answers o.callbacks < 2 ^ 31) &&
      match s.pc with
      | .awaitingSubacks packets => packets.all fun packet ↦
          decide (.ack packet false ∈ o.callbacks)
      | .publishing _ _ => decide (answers o.callbacks = 0 ∧ s.sAckReceived ≠ Int32.maxValue)
      | .awaiting _ _ packet _ => decide (o.ret < 0 ∨ .ack packet false ∈ o.callbacks)
      | _ => true
  | _ => true

theorem answersInTurn_spec {s : State ℕ} {a : Action} (h : answersInTurn s a = true) :
    AnsweredInTurn s a ∧ CountFits s a := by
  cases a with
  | mqtt o =>
      simp only [answersInTurn, Bool.and_eq_true, decide_eq_true_eq] at h
      refine ⟨fun hret ↦ ?_, h.1⟩
      cases hpc : s.pc with
      | awaitingSubacks packets =>
          simp only [hpc, List.all_eq_true, decide_eq_true_eq] at h
          exact .inr fun packet hmem ↦ .inr (h.2 packet hmem)
      | publishing p packets =>
          simp only [hpc, decide_eq_true_eq] at h
          exact .inl h.2
      | awaiting p packets packet expected =>
          simp only [hpc, decide_eq_true_eq] at h
          exact .inr (h.2.resolve_left (not_lt.mpr hret))
      | _ => trivial
  | _ => exact ⟨trivial, trivial⟩

/-- The key packet is published when its own answer comes first, and need not be when
that of the ping does. -/
theorem success_acknowledged_key_packet :
    (∃ s, Steps (step SecretBox.tagged) AnsweredInTurn (.boot 0) s ∧
      .published ⟨TopicKey, [], true, .keyPacket⟩ 3 ∈ s.trace ∧
      EachAfter Acknowledged s.trace) ∧
    ∃ s t u, Steps (step SecretBox.tagged) AnsweredInTurn (.boot 0) s ∧
      step SecretBox.tagged s (.mqtt ⟨[.ack 2 false], 0, false⟩) = some t ∧
      Reachable (step SecretBox.tagged) t u ∧ ¬ EachAfter Acknowledged u.trace := by
  constructor
  · have hrun : (exec (step SecretBox.tagged) answersInTurn (.boot 0)
        (connectThenPublish ++ [.mqtt ⟨[.ack 3 false, .ack 2 false], 0, false⟩])).map
          (fun s ↦ decide (.published ⟨TopicKey, [], true, .keyPacket⟩ 3 ∈ s.trace)) =
        some true := by
      decide
    obtain ⟨s, hexec, hs⟩ := Option.map_eq_some_iff.mp hrun
    have hsteps := (exec_steps hexec).mono fun s a h ↦ (answersInTurn_spec h).1
    exact ⟨s, hsteps, of_decide_eq_true hs,
      (success_acknowledged SecretBox.tagged 0).1 s hsteps⟩
  · have hrun : (exec (step SecretBox.tagged) answersInTurn (.boot 0) connectThenPublish).map
        (fun s ↦ (s.pc, s.sAckReceived, s.unanswered)) =
        some (.awaiting ⟨TopicKey, [], true, .keyPacket⟩ [] 3 3, 2, [2, 3]) := by
      decide
    obtain ⟨s, hexec, hs⟩ := Option.map_eq_some_iff.mp hrun
    obtain ⟨hpc, hs⟩ := Prod.ext_iff.mp hs
    obtain ⟨hcount, hunanswered⟩ := Prod.ext_iff.mp hs
    replace hpc : s.pc = .awaiting ⟨TopicKey, [], true, .keyPacket⟩ [] 3 3 := hpc
    replace hcount : s.sAckReceived = 2 := hcount
    replace hunanswered : s.unanswered = [2, 3] := hunanswered
    have hsteps := (exec_steps hexec).mono fun s a h ↦ answersInTurn_spec h
    obtain ⟨t, ht⟩ : ∃ t, step SecretBox.tagged s (.mqtt ⟨[.ack 2 false], 0, false⟩) = some t := by
      simp [step, hpc, pubackStep, receiveAll, receive, hunanswered]
    obtain ⟨u, hu, hbad⟩ := (success_acknowledged SecretBox.tagged 0).2 s _ t hsteps
      (by simp [CountFits, hcount, answers]) (by simp [AnsweredInTurn, hpc, answers]) ht
    exact ⟨s, t, u, hsteps.mono fun _ _ h ↦ h.1, ht, hu, hbad⟩

/-- The late answer to the ping is taken for the one to the key packet. -/
theorem published_on_late_ack : ¬ ∀ s, Reachable (step SecretBox.tagged) (.boot 0) s →
    EachAfter Acknowledged s.trace := by
  intro hall
  have hrun : (exec (step SecretBox.tagged) (fun _ _ ↦ true) (.boot 0)
      (connectThenPublish ++ [.mqtt ⟨[.ack 2 false], 0, false⟩])).map
        (fun s ↦ (decide (.published ⟨TopicKey, [], true, .keyPacket⟩ 3 ∈ s.trace),
          decide (.acked 3 false ∈ s.trace))) =
      some (true, false) := by
    decide
  obtain ⟨s, hexec, hs⟩ := Option.map_eq_some_iff.mp hrun
  obtain ⟨hpublished, hacked⟩ := Prod.ext_iff.mp hs
  obtain ⟨pre, hpre, hbefore⟩ :=
    (hall s (exec_steps hexec).reachable).of_mem (of_decide_eq_true hpublished)
  exact of_decide_eq_false hacked (hpre.subset hbefore)

end PlantNode.Comms
