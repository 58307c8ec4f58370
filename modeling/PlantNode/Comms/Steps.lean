import PlantNode.Comms.Calls

/-!
# Steps of a call in progress

`Progress` lists what a step can do, guards included.  Whatever it does, it does by
callbacks, by events about its own publication, and by changes that nobody outside
the compartment sees.
-/

namespace PlantNode.Comms

open Foundation Crypto

variable {K : Type} {box : SecretBox K} {s t : State K} {a : Action}

/-- A step of a call in progress. -/
inductive Progress (box : SecretBox K) (s : State K) : Action → State K → Prop
  | notSynced (hpc : s.pc = .syncing) : Progress box s (.sntp false) s
  | synced (hpc : s.pc = .syncing) : Progress box s (.sntp true) (s.setPc .connecting)
  | linked (hpc : s.pc = .connecting) :
      Progress box s (.handle true)
        ({ s with sHandle := true, sAckReceived := 0 }.setPc (.subscribing []))
  | notLinked (hpc : s.pc = .connecting) :
      Progress box s (.handle false)
        ({ s with sHandle := false }.setPc (.idle (.error (.errno .ENOTCONN))))
  | notSubscribed {packets : List ℕ} {o : MqttOutcome} (hpc : s.pc = .subscribing packets)
      (ho : o.callbacks = []) (hret : o.ret < 0) :
      Progress box s (.mqtt o)
        ((if o.sent then s.send else s).setPc (.abandoning (.mqtt o.ret)))
  | subscribed {o : MqttOutcome} (hpc : s.pc = .subscribing []) (ho : o.callbacks = []) :
      Progress box s (.mqtt o) (s.send.setPc (.subscribing [s.packets]))
  | subscribedBoth {packets : List ℕ} {o : MqttOutcome} (hpc : s.pc = .subscribing packets)
      (ho : o.callbacks = []) (hne : packets ≠ []) :
      Progress box s (.mqtt o) (awaitSubacks s.send (packets ++ [s.packets]))
  | subackFailed {packets : List ℕ} {o : MqttOutcome} {m : State K}
      (hpc : s.pc = .awaitingSubacks packets) (hm : receiveAll box s o.callbacks = some m)
      (hret : o.ret < 0) :
      Progress box s (.mqtt o) (m.setPc (.abandoning (.mqtt o.ret)))
  | suback {packets : List ℕ} {o : MqttOutcome} {m : State K}
      (hpc : s.pc = .awaitingSubacks packets) (hm : receiveAll box s o.callbacks = some m)
      (hret : 0 ≤ o.ret) : Progress box s (.mqtt o) (awaitSubacks m packets)
  | abandoned {failure : Failure} {o : MqttOutcome} (hpc : s.pc = .abandoning failure)
      (ho : o.callbacks = []) :
      Progress box s (.mqtt o) ({ s with sHandle := false }.setPc (.idle (.error failure)))
  | publishFailed {p : Publication K} {packets : List ℕ} {o : MqttOutcome} {m : State K}
      (hpc : s.pc = .publishing p packets)
      (hm : receiveAll box (offer s p o) o.callbacks = some m) (hret : o.ret < 0) :
      Progress box s (.mqtt o) (finishPublish m p packets (.error (.mqtt o.ret)))
  | publish {p : Publication K} {packets : List ℕ} {o : MqttOutcome} {m : State K}
      (hpc : s.pc = .publishing p packets)
      (hm : receiveAll box (offer s p o) o.callbacks = some m) (hret : 0 ≤ o.ret) :
      Progress box s (.mqtt o) (awaitPublish m p packets s.packets (s.sAckReceived + 1))
  | pubackFailed {p : Publication K} {packets : List ℕ} {packet : ℕ} {expected : Int32}
      {o : MqttOutcome} {m : State K} (hpc : s.pc = .awaiting p packets packet expected)
      (hm : receiveAll box s o.callbacks = some m) (hret : o.ret < 0) :
      Progress box s (.mqtt o) (finishPublish m p packets (.error (.mqtt o.ret)))
  | puback {p : Publication K} {packets : List ℕ} {packet : ℕ} {expected : Int32}
      {o : MqttOutcome} {m : State K} (hpc : s.pc = .awaiting p packets packet expected)
      (hm : receiveAll box s o.callbacks = some m) (hret : 0 ≤ o.ret) :
      Progress box s (.mqtt o) (awaitPublish m p packets packet expected)
  | polled {o : MqttOutcome} {m : State K} (hpc : s.pc = .polling)
      (hm : receiveAll box s o.callbacks = some m) :
      Progress box s (.mqtt o)
        (m.setPc (.idle (if o.ret < 0 then .error (.mqtt o.ret) else .ok ())))
  | disconnected {o : MqttOutcome} (hpc : s.pc = .disconnecting) (ho : o.callbacks = []) :
      Progress box s (.mqtt o) ({ s with sHandle := false }.setPc
        (.idle (if o.ret < 0 then .error (.mqtt o.ret) else .ok ())))

theorem progress_mqtt {o : MqttOutcome} (h : step box s (.mqtt o) = some t) :
    Progress box s (.mqtt o) t := by
  cases hpc : s.pc with
  | subscribing packets =>
      simp only [step, hpc, subscribeStep] at h
      split at h
      · cases h
      rename_i ho
      replace ho := not_not.mp ho
      split at h
      · rename_i hret
        cases h
        exact .notSubscribed hpc ho hret
      split at h
      · rename_i hfirst
        cases h
        rw [List.length_eq_zero_iff.mp hfirst] at hpc
        exact .subscribed hpc ho
      · rename_i hfirst
        cases h
        exact .subscribedBoth hpc ho fun hnil ↦ hfirst (by rw [hnil]; rfl)
  | awaitingSubacks packets =>
      simp only [step, hpc] at h
      obtain ⟨m, hm, rfl⟩ := Option.map_eq_some_iff.mp h
      split
      · rename_i hret
        exact .subackFailed hpc hm hret
      · rename_i hret
        exact .suback hpc hm (not_lt.mp hret)
  | abandoning failure =>
      simp only [step, hpc, disconnectStep] at h
      split at h
      · cases h
      · rename_i ho
        cases h
        exact .abandoned hpc (not_not.mp ho)
  | publishing p packets =>
      simp only [step, hpc] at h
      obtain ⟨m, hm, rfl⟩ := Option.map_eq_some_iff.mp h
      split
      · rename_i hret
        exact .publishFailed hpc hm hret
      · rename_i hret
        exact .publish hpc hm (not_lt.mp hret)
  | awaiting p packets packet expected =>
      simp only [step, hpc] at h
      obtain ⟨m, hm, rfl⟩ := Option.map_eq_some_iff.mp h
      split
      · rename_i hret
        exact .pubackFailed hpc hm hret
      · rename_i hret
        exact .puback hpc hm (not_lt.mp hret)
  | polling =>
      simp only [step, hpc] at h
      obtain ⟨m, hm, rfl⟩ := Option.map_eq_some_iff.mp h
      exact .polled hpc hm
  | disconnecting =>
      simp only [step, hpc, disconnectStep] at h
      split at h
      · cases h
      · rename_i ho
        cases h
        exact .disconnected hpc (not_not.mp ho)
  | idle last => simp [step, hpc] at h
  | syncing => simp [step, hpc] at h
  | connecting => simp [step, hpc] at h

theorem progress_of_step (hcall : ∀ request, a ≠ .call request) (h : step box s a = some t) :
    Progress box s a t := by
  cases a with
  | call request => exact absurd rfl (hcall request)
  | sntp ok =>
      simp only [step] at h
      split at h
      · rename_i hpc
        cases h
        cases ok with
        | true => exact .synced hpc
        | false => exact .notSynced hpc
      · cases h
  | handle valid =>
      simp only [step] at h
      split at h
      · rename_i hpc
        cases h
        cases valid with
        | true => exact .linked hpc
        | false => exact .notLinked hpc
      · cases h
  | mqtt o => exact progress_mqtt h

/-- The publication of the call in progress. -/
def Pc.publication : Pc K → Option (Publication K)
  | .publishing p _ => some p
  | .awaiting p _ _ _ => some p
  | _ => none

/-- The events that a step of a call at `pc` emits itself. -/
def Event.Of (pc : Pc K) : Event K → Prop
  | .offered p => pc.publication = some p
  | .published p _ => pc.publication = some p
  | .connected _ => True
  | _ => False

def Action.callbacks : Action → List Callback
  | .mqtt o => o.callbacks
  | _ => []

/-- Nothing changed that the rest of the system sees. -/
structure Frame (s t : State K) : Prop where
  session : t.session = s.session
  policy : t.policy = s.policy
  mailbox : t.mailbox = s.mailbox
  trace : t.trace = s.trace

theorem frame_setPc (s : State K) (pc : Pc K) : Frame s (s.setPc pc) :=
  ⟨rfl, rfl, rfl, rfl⟩

theorem frame_send (s : State K) : Frame s s.send :=
  ⟨rfl, rfl, rfl, rfl⟩

theorem finishPublish_induction {I : State K → Prop} {p : Publication K} {packets : List ℕ}
    {ret : Result} (hframe : ∀ u v, Frame u v → I u → I v)
    (hemit : I (s.emit (.connected packets))) (hs : I s) : I (finishPublish s p packets ret) := by
  unfold finishPublish
  split
  · exact hframe _ _ (frame_setPc _ _) hemit
  · exact hframe _ _ (frame_setPc _ _) hs

theorem awaitPublish_induction {I : State K → Prop} {p : Publication K} {packets : List ℕ}
    {packet : ℕ} {expected : Int32} {pc : Pc K} (hframe : ∀ u v, Frame u v → I u → I v)
    (hemit : ∀ u e, e.Of pc → I u → I (u.emit e)) (hp : pc.publication = some p) (hs : I s) :
    I (awaitPublish s p packets packet expected) := by
  unfold awaitPublish
  split
  · exact hframe _ _ (frame_setPc _ _) hs
  · have hpublished : I (s.emit (.published p packet)) := hemit _ _ hp hs
    exact finishPublish_induction hframe (hemit _ _ trivial hpublished) hpublished

theorem awaitSubacks_induction {I : State K → Prop} {packets : List ℕ}
    (hframe : ∀ u v, Frame u v → I u → I v) (hs : I s) : I (awaitSubacks s packets) := by
  unfold awaitSubacks
  split
  · exact hframe _ _ (frame_setPc _ _) hs
  · exact hframe _ _ (frame_setPc _ _) hs

/-- The induction rule for a step of a call in progress. -/
theorem step_induction {I : State K → Prop} (hcall : ∀ request, a ≠ .call request)
    (hframe : ∀ u v, Frame u v → I u → I v)
    (hemit : ∀ u e, e.Of s.pc → I u → I (u.emit e))
    (hreceive : ∀ u v cb, cb ∈ a.callbacks → I u → receive box u cb = some v → I v)
    (h : step box s a = some t) (hs : I s) : I t := by
  have hreceiveAll : ∀ {u v}, I u → receiveAll box u a.callbacks = some v → I v :=
    fun hu hv ↦ receiveAll_invariant hreceive hv hu
  have hpublication : ∀ {p}, s.pc.publication = some p → ∀ o, I (offer s p o) := by
    intro p hp o
    unfold offer
    split
    · exact hframe _ _ (frame_send _) (hemit _ _ hp hs)
    · exact hemit _ _ hp hs
  cases progress_of_step hcall h with
  | notSynced hpc => exact hs
  | synced hpc => exact hframe _ _ (frame_setPc _ _) hs
  | linked hpc => exact hframe s _ ⟨rfl, rfl, rfl, rfl⟩ hs
  | notLinked hpc => exact hframe s _ ⟨rfl, rfl, rfl, rfl⟩ hs
  | notSubscribed hpc ho hret =>
      apply hframe _ _ (frame_setPc _ _)
      split
      · exact hframe _ _ (frame_send _) hs
      · exact hs
  | subscribed hpc ho => exact hframe _ _ (frame_setPc _ _) (hframe _ _ (frame_send _) hs)
  | subscribedBoth hpc ho hne => exact awaitSubacks_induction hframe (hframe _ _ (frame_send _) hs)
  | subackFailed hpc hm hret => exact hframe _ _ (frame_setPc _ _) (hreceiveAll hs hm)
  | suback hpc hm hret => exact awaitSubacks_induction hframe (hreceiveAll hs hm)
  | abandoned hpc ho => exact hframe s _ ⟨rfl, rfl, rfl, rfl⟩ hs
  | publishFailed hpc hm hret =>
      have hrec := hreceiveAll (hpublication (congrArg Pc.publication hpc) _) hm
      exact finishPublish_induction hframe (hemit _ _ trivial hrec) hrec
  | publish hpc hm hret =>
      have hp := congrArg Pc.publication hpc
      exact awaitPublish_induction hframe hemit hp (hreceiveAll (hpublication hp _) hm)
  | pubackFailed hpc hm hret =>
      have hrec := hreceiveAll hs hm
      exact finishPublish_induction hframe (hemit _ _ trivial hrec) hrec
  | puback hpc hm hret =>
      have hp := congrArg Pc.publication hpc
      exact awaitPublish_induction hframe hemit hp (hreceiveAll hs hm)
  | polled hpc hm => exact hframe _ _ (frame_setPc _ _) (hreceiveAll hs hm)
  | disconnected hpc ho => exact hframe s _ ⟨rfl, rfl, rfl, rfl⟩ hs

/-! ## What a call publishes -/

def pingPublication : Publication K := ⟨TopicPing, DebugMsg, false, .ping⟩

/-- Every publication that is left of the call meets `P`. -/
def Pc.Publishes (P : Publication K → Prop) : Pc K → Prop
  | .syncing | .connecting | .subscribing _ | .awaitingSubacks _ => P pingPublication
  | .publishing p _ => P p
  | .awaiting p _ _ _ => P p
  | _ => True

section Publishes

variable {P : Publication K → Prop}

theorem Pc.Publishes.of_publication {pc : Pc K} {p : Publication K} (h : pc.Publishes P)
    (hp : pc.publication = some p) : P p := by
  cases pc with
  | publishing q packets =>
      cases hp
      exact h
  | awaiting q packets packet expected =>
      cases hp
      exact h
  | _ => cases hp

theorem Pc.Publishes.mono {Q : Publication K → Prop} {pc : Pc K} (h : pc.Publishes P)
    (hPQ : ∀ p, P p → Q p) : pc.Publishes Q := by
  cases pc with
  | syncing => exact hPQ _ h
  | connecting => exact hPQ _ h
  | subscribing packets => exact hPQ _ h
  | awaitingSubacks packets => exact hPQ _ h
  | publishing q packets => exact hPQ _ h
  | awaiting q packets packet expected => exact hPQ _ h
  | _ => trivial

theorem Request.Opens.publishes {session : Session K} {request : Request} {pc : Pc K}
    (h : request.Opens session pc) (hping : P pingPublication)
    (hP : ∀ p, request.Opens session (.publishing p []) → P p) : pc.Publishes P := by
  cases pc with
  | syncing => exact hping
  | connecting => exact hping
  | subscribing packets => exact hping
  | awaitingSubacks packets => exact hping
  | publishing p packets =>
      cases h.publication
      exact hP p h
  | awaiting p packets packet expected => exact h.opening.elim
  | _ => trivial

theorem finishPublish_idle (s : State K) (p : Publication K) (packets : List ℕ) (ret : Result) :
    ∃ last, (finishPublish s p packets ret).pc = .idle last := by
  unfold finishPublish
  split
  · exact ⟨_, rfl⟩
  · exact ⟨_, rfl⟩

theorem publishes_awaitPublish {p : Publication K} {packets : List ℕ} {packet : ℕ}
    {expected : Int32} (hp : P p) : (awaitPublish s p packets packet expected).pc.Publishes P := by
  unfold awaitPublish
  split
  · exact hp
  · obtain ⟨last, hlast⟩ := finishPublish_idle (s.emit (.published p packet)) p packets (.ok ())
    rw [hlast]
    trivial

theorem publishes_awaitSubacks {packets : List ℕ} (hping : P pingPublication) :
    (awaitSubacks s packets).pc.Publishes P := by
  unfold awaitSubacks
  split
  · exact hping
  · exact hping

theorem step_publishes (hcall : ∀ request, a ≠ .call request) (h : step box s a = some t)
    (hs : s.pc.Publishes P) : t.pc.Publishes P := by
  have hfinish : ∀ (m : State K) p packets ret, (finishPublish m p packets ret).pc.Publishes P := by
    intro m p packets ret
    obtain ⟨last, hlast⟩ := finishPublish_idle m p packets ret
    rw [hlast]
    trivial
  cases progress_of_step hcall h with
  | notSynced hpc => exact hs
  | synced hpc =>
      rw [hpc] at hs
      exact hs
  | linked hpc =>
      rw [hpc] at hs
      exact hs
  | subscribed hpc ho =>
      rw [hpc] at hs
      exact hs
  | subscribedBoth hpc ho hne =>
      rw [hpc] at hs
      exact publishes_awaitSubacks hs
  | suback hpc hm hret =>
      rw [hpc] at hs
      exact publishes_awaitSubacks hs
  | publishFailed hpc hm hret => exact hfinish _ _ _ _
  | publish hpc hm hret =>
      rw [hpc] at hs
      exact publishes_awaitPublish hs
  | pubackFailed hpc hm hret => exact hfinish _ _ _ _
  | puback hpc hm hret =>
      rw [hpc] at hs
      exact publishes_awaitPublish hs
  | _ => trivial

end Publishes

theorem not_idle_of_step {last : Result} (hcall : ∀ request, a ≠ .call request)
    (h : step box s a = some t) : s.pc ≠ .idle last := by
  intro hidle
  cases progress_of_step hcall h with
  | notSynced hpc => exact nomatch hidle.symm.trans hpc
  | _ hpc => exact nomatch hidle.symm.trans hpc

theorem step_session (hcall : ∀ request, a ≠ .call request) (h : step box s a = some t) :
    t.session = s.session := by
  refine step_induction (I := fun u ↦ u.session = s.session) hcall ?_ ?_ ?_ h rfl
  · exact fun _ _ hframe hu ↦ hframe.session.trans hu
  · exact fun _ _ _ hu ↦ hu
  · exact fun _ _ _ _ hu hv ↦ (receive_sameCall hv).1.session.trans hu

theorem finishPublish_eq {p : Publication K} (hping : p.source ≠ .ping) (packets : List ℕ)
    (ret : Result) : finishPublish s p packets ret = s.setPc (.idle ret) := by
  unfold finishPublish
  split
  · rename_i hsource
    exact absurd hsource hping
  · rfl

theorem published_receiveAll {callbacks : List Callback} {q : Publication K} {n : ℕ}
    (h : receiveAll box s callbacks = some t) :
    .published q n ∈ t.trace ↔ .published q n ∈ s.trace := by
  rw [(receiveAll_sameCall h).2, List.mem_append, or_iff_left]
  intro hmem
  obtain ⟨cb, -, hcb⟩ := List.mem_map.mp hmem
  cases cb with
  | ack packet isReject => cases hcb
  | publish valid topic payload => cases hcb

/-- A step of the call that publishes `p` leaves it going on or failed, with nothing
published, or ends it with `p` published. -/
theorem step_publication {p : Publication K} (hcall : ∀ request, a ≠ .call request)
    (h : step box s a = some t) (hp : s.pc.publication = some p) (hping : p.source ≠ .ping) :
    ((t.pc.publication = some p ∨ ∃ f, t.pc = .idle (.error f)) ∧
        ∀ q n, .published q n ∈ t.trace → .published q n ∈ s.trace) ∨
      (t.pc = .idle (.ok ()) ∧ ∃ n, .published p n ∈ t.trace) := by
  have hawait : ∀ (m : State K) packets packet expected,
      (∀ q n, .published q n ∈ m.trace → .published q n ∈ s.trace) →
      (((awaitPublish m p packets packet expected).pc.publication = some p ∨
          ∃ f, (awaitPublish m p packets packet expected).pc = .idle (.error f)) ∧
        ∀ q n, .published q n ∈ (awaitPublish m p packets packet expected).trace →
          .published q n ∈ s.trace) ∨
      ((awaitPublish m p packets packet expected).pc = .idle (.ok ()) ∧
        ∃ n, .published p n ∈ (awaitPublish m p packets packet expected).trace) := by
    intro m packets packet expected hm
    unfold awaitPublish
    split
    · exact .inl ⟨.inl rfl, hm⟩
    · rw [finishPublish_eq hping]
      exact .inr ⟨rfl, packet, List.mem_append_right _ (List.mem_singleton.mpr rfl)⟩
  have hoffer : ∀ (o : MqttOutcome) q n,
      .published q n ∈ (offer s p o).trace → .published q n ∈ s.trace := by
    intro o q n hmem
    rw [offer_trace] at hmem
    exact mem_of_mem_snoc hmem nofun
  cases progress_of_step hcall h with
  | publishFailed hpc hm hret =>
      rw [hpc] at hp
      cases hp
      rw [finishPublish_eq hping]
      exact .inl ⟨.inr ⟨_, rfl⟩, fun q n hmem ↦ hoffer _ q n ((published_receiveAll hm).mp hmem)⟩
  | publish hpc hm hret =>
      rw [hpc] at hp
      cases hp
      exact hawait _ _ _ _ fun q n hmem ↦ hoffer _ q n ((published_receiveAll hm).mp hmem)
  | pubackFailed hpc hm hret =>
      rw [hpc] at hp
      cases hp
      rw [finishPublish_eq hping]
      exact .inl ⟨.inr ⟨_, rfl⟩, fun q n hmem ↦ (published_receiveAll hm).mp hmem⟩
  | puback hpc hm hret =>
      rw [hpc] at hp
      cases hp
      exact hawait _ _ _ _ fun q n hmem ↦ (published_receiveAll hm).mp hmem
  | _ hpc =>
      rw [hpc] at hp
      cases hp

/-- Only its own publication is published by a call. -/
theorem step_published {q : Publication K} {n : ℕ} (hcall : ∀ request, a ≠ .call request)
    (h : step box s a = some t) (hmem : .published q n ∈ t.trace) :
    .published q n ∈ s.trace ∨ s.pc.publication = some q := by
  refine step_induction (I := fun u ↦ .published q n ∈ u.trace → .published q n ∈ s.trace ∨
    s.pc.publication = some q) hcall ?_ ?_ ?_ h .inl hmem
  · intro u v hframe hu hv
    rw [hframe.trace] at hv
    exact hu hv
  · intro u e he hu hv
    rcases List.mem_append.mp hv with hv | hv
    · exact hu hv
    · cases List.mem_singleton.mp hv
      exact .inr he
  · intro u v cb _ hu hcb hv
    rw [(receive_sameCall hcb).2] at hv
    refine hu (mem_of_mem_snoc hv ?_)
    cases cb with
    | ack packet isReject => nofun
    | publish valid topic payload => nofun

/-! ## The connection -/

/-- `comms_connect` at this point holds a handle if there can be one. -/
def Pc.Linked (sHandle : Bool) : Pc K → Prop
  | .polling | .disconnecting => False
  | .syncing | .connecting | .abandoning _ | .idle (.error _) => True
  | _ => sHandle = true

/-- `comms_connect` is in progress, or has returned. -/
def Linking (s : State K) : Prop := s.pc.Linked s.sHandle

/-- Where a call that needs the connection can be. -/
def Pc.Served : Pc K → Prop
  | .publishing _ _ | .awaiting _ _ _ _ | .polling | .idle _ => True
  | _ => False

/-- There is a connection, and no call that changes it is in progress. -/
structure Serving (s : State K) : Prop where
  sHandle : s.sHandle = true
  pc : s.pc.Served

theorem Linking.at_pc {pc : Pc K} (hs : Linking s) (hpc : s.pc = pc) : pc.Linked s.sHandle :=
  hpc ▸ hs

theorem linking_awaitSubacks {packets : List ℕ} (h : s.sHandle = true) :
    Linking (awaitSubacks s packets) := by
  unfold awaitSubacks
  split
  · exact h
  · exact h

theorem linking_finishPublish {p : Publication K} {packets : List ℕ} {ret : Result}
    (h : s.sHandle = true) : Linking (finishPublish s p packets ret) := by
  unfold finishPublish
  split
  · exact h
  · cases ret with
    | ok _ => exact h
    | error f => trivial

theorem linking_awaitPublish {p : Publication K} {packets : List ℕ} {packet : ℕ}
    {expected : Int32} (h : s.sHandle = true) :
    Linking (awaitPublish s p packets packet expected) := by
  unfold awaitPublish
  split
  · exact h
  · exact linking_finishPublish h

theorem sHandle_offer (s : State K) (p : Publication K) (o : MqttOutcome) :
    (offer s p o).sHandle = s.sHandle := by
  unfold offer
  split
  · rfl
  · rfl

theorem step_linking (hcall : ∀ request, a ≠ .call request) (h : step box s a = some t)
    (hs : Linking s) : Linking t := by
  cases progress_of_step hcall h with
  | notSynced hpc => exact hs
  | synced hpc => trivial
  | linked hpc => exact rfl
  | notLinked hpc => trivial
  | notSubscribed hpc ho hret => trivial
  | subscribed hpc ho =>
      have hlinked := hs.at_pc hpc
      exact hlinked
  | subscribedBoth hpc ho hne => exact linking_awaitSubacks (s := s.send) (hs.at_pc hpc)
  | subackFailed hpc hm hret => trivial
  | suback hpc hm hret =>
      exact linking_awaitSubacks ((receiveAll_sameCall hm).1.sHandle.trans (hs.at_pc hpc))
  | abandoned hpc ho => trivial
  | publishFailed hpc hm hret =>
      have hlinked := (receiveAll_sameCall hm).1.sHandle.trans (sHandle_offer _ _ _)
      exact linking_finishPublish (hlinked.trans (hs.at_pc hpc))
  | publish hpc hm hret =>
      have hlinked := (receiveAll_sameCall hm).1.sHandle.trans (sHandle_offer _ _ _)
      exact linking_awaitPublish (hlinked.trans (hs.at_pc hpc))
  | pubackFailed hpc hm hret =>
      exact linking_finishPublish ((receiveAll_sameCall hm).1.sHandle.trans (hs.at_pc hpc))
  | puback hpc hm hret =>
      exact linking_awaitPublish ((receiveAll_sameCall hm).1.sHandle.trans (hs.at_pc hpc))
  | polled hpc hm => exact (hs.at_pc hpc).elim
  | disconnected hpc ho => exact (hs.at_pc hpc).elim

theorem Serving.at_pc {pc : Pc K} (hs : Serving s) (hpc : s.pc = pc) : pc.Served :=
  hpc ▸ hs.pc

theorem serving_finishPublish {p : Publication K} {packets : List ℕ} {ret : Result}
    (h : s.sHandle = true) : Serving (finishPublish s p packets ret) := by
  unfold finishPublish
  split
  · exact ⟨h, trivial⟩
  · exact ⟨h, trivial⟩

theorem serving_awaitPublish {p : Publication K} {packets : List ℕ} {packet : ℕ}
    {expected : Int32} (h : s.sHandle = true) :
    Serving (awaitPublish s p packets packet expected) := by
  unfold awaitPublish
  split
  · exact ⟨h, trivial⟩
  · exact serving_finishPublish h

theorem step_serving (hcall : ∀ request, a ≠ .call request) (h : step box s a = some t)
    (hs : Serving s) : Serving t := by
  cases progress_of_step hcall h with
  | publishFailed hpc hm hret =>
      have hlinked := (receiveAll_sameCall hm).1.sHandle.trans (sHandle_offer _ _ _)
      exact serving_finishPublish (hlinked.trans hs.sHandle)
  | publish hpc hm hret =>
      have hlinked := (receiveAll_sameCall hm).1.sHandle.trans (sHandle_offer _ _ _)
      exact serving_awaitPublish (hlinked.trans hs.sHandle)
  | pubackFailed hpc hm hret =>
      exact serving_finishPublish ((receiveAll_sameCall hm).1.sHandle.trans hs.sHandle)
  | puback hpc hm hret =>
      exact serving_awaitPublish ((receiveAll_sameCall hm).1.sHandle.trans hs.sHandle)
  | polled hpc hm => exact ⟨(receiveAll_sameCall hm).1.sHandle.trans hs.sHandle, trivial⟩
  | notSynced hpc => exact hs
  | _ hpc => exact (hs.at_pc hpc).elim

end PlantNode.Comms
