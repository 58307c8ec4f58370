import PlantNode.Telemetry.DeadEnds

/-!
# A connection that can be lost

`telemetry_loop` calls `comms_connect` until it returns 0, and never again.  Here the
connection to the broker can be lost at any time; from then on an MQTT call may return
anything, but nothing comes in until `mqtt_connect` has opened another one.
-/

namespace PlantNode.Telemetry.Connection

open Foundation Crypto Comms

/-- The thread, and whether its last connection is alive. -/
structure State (K : Type) where
  thread : Telemetry.State K
  alive : Bool

inductive Action (K : Type) where
  | thread (a : Telemetry.Action K)
  | lose

variable {K : Type}

def State.boot (zero : K) : State K := ⟨.boot zero, false⟩

/-- Nothing comes in over a connection that is lost. -/
def possible (alive : Bool) : Telemetry.Action K → Bool
  | .comms b => alive || b.callbacks.isEmpty
  | _ => true

/-- `mqtt_connect` returns a valid handle. -/
def opens : Telemetry.Action K → Bool
  | .comms (.handle valid) => valid
  | _ => false

def step (box : SecretBox K) (s : State K) : Action K → Option (State K)
  | .thread a =>
      if possible s.alive a then
        (Telemetry.step box s.thread a).map fun t ↦ ⟨t, s.alive || opens a⟩
      else none
  | .lose => some { s with alive := false }

variable {box : SecretBox K} {s t : State K} {a : Action K}

/-- What one step can do. -/
theorem step_cases (h : step box s a = some t) :
    (∃ b, possible s.alive b = true ∧ Telemetry.step box s.thread b = some t.thread ∧
      t.alive = (s.alive || opens b)) ∨ t = { s with alive := false } := by
  cases a with
  | thread b =>
      simp only [step, Option.ite_none_right_eq_some, Option.map_eq_some_iff] at h
      obtain ⟨hpossible, u, hu, rfl⟩ := h
      exact .inl ⟨b, hpossible, hu, rfl⟩
  | lose =>
      cases h
      exact .inr rfl

theorem reachable_thread (h : Reachable (step box) s t) :
    Reachable (Telemetry.step box) s.thread t.thread := by
  refine h.refine_stutter State.thread fun s a t _ hstep ↦ ?_
  rcases step_cases hstep with ⟨b, -, hb, -⟩ | rfl
  · exact .inr ⟨b, trivial, hb⟩
  · exact .inl rfl

/-- Over a connection that is alive everything can happen. -/
theorem reachable_alive {u v : Telemetry.State K} (h : Reachable (Telemetry.step box) u v) :
    Reachable (step box) ⟨u, true⟩ ⟨v, true⟩ := by
  induction h with
  | init => exact .init
  | next a _ _ hstep ih =>
      refine .next (.thread a) ih trivial ?_
      have hpossible : possible true a = true := by cases a <;> rfl
      simp [step, hpossible, hstep]

/-! ## Where a new connection is still opened -/

/-- `comms_connect` has not opened its connection yet, or returns an error. -/
def Reopens : Comms.Pc K → Prop
  | .idle (.error _) | .syncing | .connecting | .subscribing _ | .awaitingSubacks _
  | .abandoning _ => True
  | _ => False

/-- Another connection can still be opened. -/
def Reconnects (s : Telemetry.State K) : Prop :=
  s.pc = .boot ∨ s.pc = .connecting ∧ Reopens s.comms.pc

/-- The thread comes to a connection that is alive, in `comms_connect`. -/
def Connects (box : SecretBox K) (s : State K) : Prop :=
  ∃ t, Reachable (step box) s t ∧ t.alive = true ∧ t.thread.pc = .connecting

theorem Connects.of_step (h : Connects box t) (hstep : step box s a = some t) :
    Connects box s := by
  obtain ⟨u, hu, halive⟩ := h
  exact ⟨u, .trans (.next a .init trivial hstep) hu, halive⟩

/-- A step of `comms_connect` without a callback. -/
theorem connects_of_comms {b : Comms.Action} {c : Comms.State K}
    (hstep : Comms.step box s.thread.comms b = some c) (hcall : ∀ request, b ≠ .call request)
    (hnone : b.callbacks = [])
    (h : Connects box ⟨{ s.thread with comms := c }, s.alive || opens (K := K) (.comms b)⟩) :
    Connects box s := by
  refine h.of_step (a := .thread (.comms b)) ?_
  simp [step, possible, hnone, step_comms hcall hstep]

section Connecting

variable (hpc : s.thread.pc = .connecting)

include hpc

theorem connects_connecting (h : s.thread.comms.pc = .connecting) : Connects box s := by
  have hstep : Comms.step box s.thread.comms (.handle true) = some
      ({ s.thread.comms with sHandle := true, sAckReceived := 0 }.setPc (.subscribing [])) := by
    simp [Comms.step, h]
  refine connects_of_comms hstep (by simp) rfl ?_
  exact ⟨_, .init, Bool.or_true _, hpc⟩

theorem connects_syncing (h : s.thread.comms.pc = .syncing) : Connects box s := by
  have hstep : Comms.step box s.thread.comms (.sntp true) =
      some (s.thread.comms.setPc .connecting) := by
    simp [Comms.step, h]
  refine connects_of_comms hstep (by simp) rfl ?_
  exact connects_connecting hpc rfl

end Connecting

/-- `telemetry_loop` calls `comms_connect`. -/
theorem connects_called (hstep : Telemetry.step box s.thread .connect =
      some (call box s.thread .connect .connecting)) : Connects box s := by
  have hcalled : Connects box ⟨call box s.thread .connect .connecting, s.alive⟩ :=
    connects_syncing rfl rfl
  refine hcalled.of_step (a := .thread .connect) ?_
  simp [step, possible, opens, hstep]

section Failing

variable (hpc : s.thread.pc = .connecting)

include hpc

theorem connects_failed {f : Failure} (h : s.thread.comms.pc = .idle (.error f)) :
    Connects box s :=
  connects_called (by simp only [Telemetry.step, h, ownStep, hpc])

theorem connects_abandoning {f : Failure} (h : s.thread.comms.pc = .abandoning f) :
    Connects box s := by
  have hstep : Comms.step box s.thread.comms (.mqtt failing) =
      some ({ s.thread.comms with sHandle := false }.setPc (.idle (.error f))) := by
    simp [Comms.step, h, disconnectStep, failing]
  refine connects_of_comms hstep (by simp) rfl ?_
  exact connects_failed hpc rfl

/-- A subscription fails over a connection that is lost. -/
theorem connects_refused
    (hstep : Comms.step box s.thread.comms (.mqtt failing) =
      some (s.thread.comms.setPc (.abandoning (.mqtt (-1))))) : Connects box s := by
  refine connects_of_comms hstep (by simp) rfl ?_
  exact connects_abandoning hpc rfl

end Failing

/-- The thread opens another connection if it is not past the point. -/
theorem Reconnects.connects (h : Reconnects s.thread) (hkeyed : Keyed s.thread) :
    Connects box s := by
  rcases h with hboot | ⟨hpc, hreopens⟩
  · rcases hkeyed.link with ⟨-, last, hidle⟩ | ⟨hconnecting, -⟩ | ⟨hstarted, -⟩
    · exact connects_called (by simp only [Telemetry.step, hidle, ownStep, hboot])
    · cases hboot.symm.trans hconnecting
    · rw [hboot] at hstarted
      exact hstarted.elim
  · cases hcomms : s.thread.comms.pc with
    | idle last =>
        rw [hcomms] at hreopens
        cases last with
        | ok _ => exact hreopens.elim
        | error f => exact connects_failed hpc hcomms
    | syncing => exact connects_syncing hpc hcomms
    | connecting => exact connects_connecting hpc hcomms
    | subscribing packets =>
        exact connects_refused hpc (by simp [Comms.step, hcomms, subscribeStep, failing])
    | awaitingSubacks packets =>
        exact connects_refused hpc (by simp [Comms.step, hcomms, subackStep, receiveAll, failing])
    | abandoning f => exact connects_abandoning hpc hcomms
    | _ =>
        rw [hcomms] at hreopens
        exact hreopens.elim

/-! ## Where no connection is opened any more -/

/-- In `comms_connect` only the ping is published. -/
def Pings (s : Telemetry.State K) : Prop :=
  s.pc = .connecting → s.comms.pc.Publishes fun p ↦ p.source = .ping

theorem pings_step {u v : Telemetry.State K} {b : Telemetry.Action K}
    (h : Telemetry.step box u b = some v) (hu : Pings u) : Pings v := by
  rcases Telemetry.step_cases h with ⟨b, c, rfl, hb, hstep, rfl⟩ | ⟨last, -, hown⟩
  · exact fun hpc ↦ step_publishes hb hstep (hu hpc)
  · cases hown with
    | first hpc => exact fun _ ↦ rfl
    | retry hpc hlast => exact fun _ ↦ rfl
    | _ => exact fun hpc ↦ by cases hpc

theorem finishPublish_ping {c : Comms.State K} {p : Publication K} {packets : List ℕ} {ret : Result}
    (hp : p.source = .ping) : (finishPublish c p packets ret).pc = .idle (.ok ()) := by
  simp only [finishPublish, hp]
  rfl

/-- The connection is lost, and the thread does not open another one. -/
structure Cut (s : State K) : Prop where
  alive : s.alive = false
  past : ¬Reconnects s.thread

/-- After its subscriptions `comms_connect` returns 0, whatever becomes of the ping. -/
theorem not_reopens {c d : Comms.State K} {b : Comms.Action} (hcall : ∀ request, b ≠ .call request)
    (hstep : Comms.step box c b = some d) (hlinking : Linking c) (hc : ¬Reopens c.pc)
    (hping : c.pc.Publishes fun p ↦ p.source = .ping) : ¬Reopens d.pc := by
  have hawait : ∀ (m : Comms.State K) p packets packet expected, p.source = .ping →
      ¬Reopens (awaitPublish m p packets packet expected).pc := by
    intro m p packets packet expected hp
    unfold awaitPublish
    split
    · exact id
    · rw [finishPublish_ping hp]
      exact id
  cases progress_of_step hcall hstep with
  | publishFailed hpc hm hret =>
      rw [hpc] at hping
      rw [finishPublish_ping hping]
      exact id
  | publish hpc hm hret =>
      rw [hpc] at hping
      exact hawait _ _ _ _ _ hping
  | pubackFailed hpc hm hret =>
      rw [hpc] at hping
      rw [finishPublish_ping hping]
      exact id
  | puback hpc hm hret =>
      rw [hpc] at hping
      exact hawait _ _ _ _ _ hping
  | polled hpc hm => exact (hlinking.at_pc hpc).elim
  | disconnected hpc ho => exact (hlinking.at_pc hpc).elim
  | _ hpc =>
      rw [hpc] at hc
      exact absurd trivial hc

theorem not_reconnects_of_started {u : Telemetry.State K} (h : u.pc.Started) : ¬Reconnects u := by
  rintro (hpc | ⟨hpc, -⟩)
  · rw [hpc] at h
    exact h
  · rw [hpc] at h
    exact h

theorem opens_own {u v : Telemetry.State K} {b : Telemetry.Action K} {last : Result}
    (h : Own box u last b v) : opens b = false := by
  cases h <;> rfl

/-- After `comms_connect` the thread calls it again, or enters its loop. -/
theorem own_connecting {u v : Telemetry.State K} {b : Telemetry.Action K} {last : Result}
    (h : Own box u last b v) (hpc : u.pc = .connecting) :
    (∃ f, last = .error f) ∨ v.pc.Started := by
  cases h with
  | first hboot => cases hpc.symm.trans hboot
  | retry hretry hlast => exact .inl ⟨_, hlast⟩
  | _ => exact .inr trivial

/-- What the thread does with a connection that is cut leaves it so. -/
theorem not_reconnects_step {u v : Telemetry.State K} {b : Telemetry.Action K}
    (h : Telemetry.step box u b = some v) (hkeyed : Keyed u) (hpings : Pings u)
    (hu : ¬Reconnects u) : ¬Reconnects v ∧ opens b = false := by
  rcases hkeyed.link with ⟨hpc, -⟩ | ⟨hpc, hlinking⟩ | ⟨hstarted, hserving⟩
  · exact absurd (.inl hpc) hu
  · have hpast : ¬Reopens u.comms.pc := fun hreopens ↦ hu (.inr ⟨hpc, hreopens⟩)
    rcases Telemetry.step_cases h with ⟨b, c, rfl, hb, hstep, rfl⟩ | ⟨last, hidle, hown⟩
    · have hpast' := not_reopens hb hstep hlinking hpast (hpings hpc)
      refine ⟨?_, ?_⟩
      · rintro (hboot | ⟨-, hreopens⟩)
        · cases hpc.symm.trans hboot
        · exact hpast' hreopens
      · cases progress_of_step hb hstep with
        | linked hconnecting =>
            rw [hconnecting] at hpast
            exact absurd trivial hpast
        | _ => rfl
    · refine ⟨?_, opens_own hown⟩
      rcases own_connecting hown hpc with ⟨f, rfl⟩ | hstarted
      · rw [hidle] at hpast
        exact absurd trivial hpast
      · exact not_reconnects_of_started hstarted
  · refine ⟨not_reconnects_of_started (started_step h hstarted).1, ?_⟩
    rcases Telemetry.step_cases h with ⟨b, c, rfl, hb, hstep, rfl⟩ | ⟨last, hidle, hown⟩
    · cases progress_of_step hb hstep with
      | linked hconnecting => exact (hserving.at_pc hconnecting).elim
      | _ => rfl
    · exact opens_own hown

theorem cut_step (hs : Cut s) (hkeyed : Keyed s.thread) (hpings : Pings s.thread)
    (h : step box s a = some t) : Cut t := by
  rcases step_cases h with ⟨b, -, hb, halive⟩ | rfl
  · obtain ⟨hpast, hopens⟩ := not_reconnects_step hb hkeyed hpings hs.past
    exact ⟨by rw [halive, hs.alive, hopens]; rfl, hpast⟩
  · exact ⟨rfl, hs.past⟩

/-- A packet is acknowledged. -/
def IsAck (e : Event K) : Prop := ∃ n, e = .acked n false

/-- Over a lost connection nothing is acknowledged. -/
theorem cut_silent {trace : List (Event K)} (hs : Cut s) (h : step box s a = some t)
    (hlacks : Lacks IsAck trace s.thread.comms.trace) :
    Lacks IsAck trace t.thread.comms.trace := by
  rcases step_cases h with ⟨b, hpossible, hb, -⟩ | rfl
  · rcases Telemetry.step_cases hb with ⟨b, c, rfl, hcall, hstep, ht⟩ | ⟨last, -, hown⟩
    · rw [hs.alive, possible, Bool.false_or, List.isEmpty_iff] at hpossible
      rw [ht]
      refine lacks_comms hcall hstep ?_ (by simp [hpossible]) hlacks
      rintro e he ⟨n, rfl⟩
      exact he
    · refine lacks_own hown ?_ ?_ hlacks
      · rintro request ⟨n, he⟩
        cases he
      · rintro message ⟨n, he⟩
        cases he
  · exact hlacks

/-! ## Which it is -/

theorem pings_reachable {zero : K} {u : Telemetry.State K}
    (h : Reachable (Telemetry.step box) (.boot zero) u) : Pings u :=
  h.invariant (I := Pings) (fun hpc ↦ by cases hpc) fun _ _ _ hu _ hstep ↦ pings_step hstep hu

theorem not_reports_of_cut {zero : K} (hs : Reachable (step box) (.boot zero) s) (hcut : Cut s)
    (ht : Reachable (step box) s t) :
    ¬Reports s.thread.comms.trace t.thread.comms.trace := by
  have hlacks : Cut t ∧ Lacks IsAck s.thread.comms.trace t.thread.comms.trace := by
    refine ht.invariant_over (K := fun u ↦ Reachable (step box) (.boot zero) u)
      (I := fun u ↦ Cut u ∧ Lacks IsAck s.thread.comms.trace u.thread.comms.trace)
      (fun u hu ↦ hs.trans hu) ⟨hcut, .refl _⟩ ?_
    rintro u a v hu ⟨hcut, hlacks⟩ - hstep
    have hthread := reachable_thread hu
    exact ⟨cut_step hcut (keyed_of_reachable hthread) (pings_reachable hthread) hstep,
      cut_silent hcut hstep hlacks⟩
  obtain ⟨later, hlater, hnone⟩ := hlacks.2
  rintro ⟨later', heq, p, key, n, -, hacked, -⟩
  cases List.append_cancel_left (hlater.symm.trans heq)
  exact hnone _ hacked ⟨n, rfl⟩

/-- At every point of every run, the next reading can be published and acknowledged exactly if
there is a session, or the loop is not entered yet, and the connection is alive, or
`comms_connect` is still going to open one. -/
theorem reports_iff_connected {zero : K} (hbox : ∀ key msgId plain, ∃ seed cipher,
      box.encrypt KBoxCtx key msgId seed plain = some cipher)
    (hs : Reachable (step box) (.boot zero) s) :
    (∃ t, Reachable (step box) s t ∧ Reports s.thread.comms.trace t.thread.comms.trace) ↔
      (s.thread.pc.Started → s.thread.comms.session.sSessionReady = true) ∧
        (s.alive = true ∨ Reconnects s.thread) := by
  have hthread := reachable_thread hs
  have halive : ∀ u, Reachable (Telemetry.step box) (.boot zero) u →
      (u.pc.Started → u.comms.session.sSessionReady = true) →
        ∃ t, Reachable (step box) ⟨u, true⟩ t ∧ Reports u.comms.trace t.thread.comms.trace := by
    intro u hu hready
    obtain ⟨v, hv, hreports⟩ := (reports_iff_ready hbox hu).mpr hready
    exact ⟨⟨v, true⟩, reachable_alive hv, hreports⟩
  constructor
  · rintro ⟨t, ht, hreports⟩
    refine ⟨(reports_iff_ready hbox hthread).mp ⟨_, reachable_thread ht, hreports⟩, ?_⟩
    by_contra hcut
    obtain ⟨hlost, hpast⟩ := not_or.mp hcut
    exact not_reports_of_cut hs ⟨Bool.eq_false_iff.mpr hlost, hpast⟩ ht hreports
  · rintro ⟨hready, hlive | hreconnects⟩
    · obtain ⟨thread, alive⟩ := s
      cases hlive
      exact halive thread hthread hready
    · obtain ⟨⟨u, alive⟩, hu, rfl, hpc⟩ := hreconnects.connects (keyed_of_reachable hthread)
      have hnot : u.pc.Started → u.comms.session.sSessionReady = true := by
        intro hstarted
        rw [hpc] at hstarted
        exact hstarted.elim
      obtain ⟨t, ht, hreports⟩ := halive u (reachable_thread (hs.trans hu)) hnot
      exact ⟨t, hu.trans ht, hreports.weaken (trace_reachable (reachable_thread hu))⟩

/-- After a key exchange that failed, and after a connection that was lost, there is no way to a
reading; from the boot there is. -/
theorem reports_iff_connected_lost :
    (∃ s, Reachable (step SecretBox.tagged) (.boot 0) s ∧ s.alive = true ∧
      ¬∃ t, Reachable (step SecretBox.tagged) s t ∧
        Reports s.thread.comms.trace t.thread.comms.trace) ∧
    (∃ s, Reachable (step SecretBox.tagged) (.boot 0) s ∧
      s.thread.comms.session.sSessionReady = true ∧
      ¬∃ t, Reachable (step SecretBox.tagged) s t ∧
        Reports s.thread.comms.trace t.thread.comms.trace) ∧
    ∃ t, Reachable (step SecretBox.tagged) (.boot 0) t ∧ Reports [] t.thread.comms.trace := by
  have hencrypts : ∀ key msgId plain, ∃ seed cipher,
      SecretBox.tagged.encrypt KBoxCtx key msgId seed plain = some cipher :=
    fun _ _ _ ↦ ⟨1, _, rfl⟩
  let connected : List (Action ℕ) := [.thread .connect, .thread (.comms (.sntp true)),
    .thread (.comms (.handle true)), .thread (.comms (.mqtt ⟨[], 0, true⟩)),
    .thread (.comms (.mqtt ⟨[], 0, true⟩)),
    .thread (.comms (.mqtt ⟨[.ack 0 false, .ack 1 false], 0, false⟩)),
    .thread (.comms (.mqtt ⟨[.ack 2 false], 0, true⟩))]
  have hfailed : (exec (step SecretBox.tagged) (fun _ _ ↦ true) (.boot 0)
      (connected ++ [.thread (.keyExchange none)])).map
      (fun s ↦ (s.thread.pc, s.alive, s.thread.comms.session.sSessionReady)) =
      some (.head, true, false) := by
    decide +kernel
  have hlost : (exec (step SecretBox.tagged) (fun _ _ ↦ true) (.boot 0)
      (connected ++ [.thread (.keyExchange (some ⟨7, 9, []⟩)), .lose])).map
      (fun s ↦ (s.thread.pc, s.alive, s.thread.comms.session.sSessionReady)) =
      some (.sendingKey, false, true) := by
    decide +kernel
  refine ⟨?_, ?_, ?_⟩
  · obtain ⟨s, hexec, hs⟩ := Option.map_eq_some_iff.mp hfailed
    obtain ⟨hpc, hrest⟩ := Prod.mk.inj hs
    obtain ⟨halive, hnone⟩ := Prod.mk.inj hrest
    have hreach := (exec_steps hexec).reachable
    refine ⟨s, hreach, halive, fun hreports ↦ ?_⟩
    have hready := ((reports_iff_connected hencrypts hreach).mp hreports).1 (by rw [hpc]; trivial)
    exact Bool.false_ne_true (hnone.symm.trans hready)
  · obtain ⟨s, hexec, hs⟩ := Option.map_eq_some_iff.mp hlost
    obtain ⟨hpc, hrest⟩ := Prod.mk.inj hs
    obtain ⟨hdead, hready⟩ := Prod.mk.inj hrest
    have hreach := (exec_steps hexec).reachable
    refine ⟨s, hreach, hready, fun hreports ↦ ?_⟩
    rcases ((reports_iff_connected hencrypts hreach).mp hreports).2 with halive | hreconnects
    · exact Bool.false_ne_true (hdead.symm.trans halive)
    · exact not_reconnects_of_started (by rw [hpc]; trivial) hreconnects
  · exact (reports_iff_connected (s := .boot 0) hencrypts .init).mpr
      ⟨fun hstarted ↦ hstarted.elim, .inr (.inl rfl)⟩

end PlantNode.Telemetry.Connection
