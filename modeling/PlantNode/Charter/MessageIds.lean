import PlantNode.Charter.Messages

/-!
# Message ids of commands

A session counts from zero, so the ids under one key stay apart as long as one session
object does the counting.  A key packet builds a new one, also for keys that are in
use: whether an id repeats is decided when a session encrypts its first command.
-/

namespace PlantNode.Charter

open Foundation Crypto

variable {K : Type} {config : Config K} {s t : Process K} {event : Event}

/-- A session that encrypts its first command does so under an unused key. -/
def FirstUnused (config : Config K) (s : Process K) (event : Event) : Prop :=
  ∀ session, Encrypts config s.state session event → session.txMsgId = 0 →
    ∀ i, (session.txKey, i) ∉ s.commands

/-- In every run the ids below a counter are spent, and no key is used without its
id zero. -/
structure Spent (s : Process K) : Prop where
  below : ∀ item ∈ s.state.sessions, ∀ i < item.2.txMsgId, (item.2.txKey, i) ∈ s.commands
  first : ∀ key i, (key, i) ∈ s.commands → (key, 0) ∈ s.commands

/-- No id has been spent twice, a session that has encrypted is ahead of the ids of its
key, and no other session has encrypted under that key. -/
structure Ahead (s : Process K) : Prop where
  nodup : s.commands.Nodup
  ahead : ∀ item ∈ s.state.sessions, 0 < item.2.txMsgId →
    ∀ i, (item.2.txKey, i) ∈ s.commands → i < item.2.txMsgId
  alone : s.state.sessions.Pairwise fun x y ↦
    x.2.txKey = y.2.txKey → x.2.txMsgId = 0 ∨ y.2.txMsgId = 0

theorem Spent.moves (h : Spent s) (hmoves : Moves config s t event) : Spent t := by
  cases hmoves with
  | quiet _ sessions commands =>
      refine ⟨?_, ?_⟩
      · rw [sessions, commands]
        exact h.below
      · rw [commands]
        exact h.first
  | keys _ zero sessions commands =>
      refine ⟨fun item hitem i hi ↦ ?_, ?_⟩
      · rw [sessions] at hitem
        rw [commands]
        rcases mem_dictSet hitem with rfl | hitem
        · rw [zero] at hi
          exact absurd hi (Nat.not_lt_zero i)
        · exact h.below item hitem i hi
      · rw [commands]
        exact h.first
  | @encrypts deviceId session others _ before sessions commands =>
      have hfirst : ∀ i < session.txMsgId, (session.txKey, i) ∈ s.commands :=
        h.below (deviceId, session) (by rw [before]; exact List.mem_cons_self)
      refine ⟨fun item hitem i hi ↦ ?_, fun key i hi ↦ ?_⟩
      · rw [sessions] at hitem
        rw [commands]
        rcases List.mem_cons.mp hitem with rfl | hitem
        · rcases Nat.lt_succ_iff_lt_or_eq.mp hi with hi | rfl
          · exact List.mem_append_left _ (hfirst i hi)
          · exact List.mem_append_right _ (List.mem_singleton_self _)
        · refine List.mem_append_left _ (h.below item ?_ i hi)
          rw [before]
          exact List.mem_cons_of_mem _ hitem
      · rw [commands] at hi ⊢
        rcases List.mem_append.mp hi with hi | hi
        · exact List.mem_append_left _ (h.first key i hi)
        · cases List.mem_singleton.mp hi
          rcases Nat.eq_zero_or_pos session.txMsgId with hzero | hpos
          · rw [hzero]
            exact List.mem_append_right _ (List.mem_singleton_self _)
          · exact List.mem_append_left _ (hfirst 0 hpos)

/-- An id is not repeated exactly if the event meets the condition. -/
theorem nodup_moves (hspent : Spent s) (h : Ahead s) (hmoves : Moves config s t event) :
    t.commands.Nodup ↔ FirstUnused config s event := by
  cases hmoves with
  | quiet idle _ commands =>
      rw [commands]
      exact ⟨fun _ session hsession ↦ absurd hsession (idle session), fun _ ↦ h.nodup⟩
  | keys idle _ _ commands =>
      rw [commands]
      exact ⟨fun _ session hsession ↦ absurd hsession (idle session), fun _ ↦ h.nodup⟩
  | @encrypts deviceId session others encrypts before _ commands =>
      have hmem : (deviceId, session) ∈ s.state.sessions := by
        rw [before]
        exact List.mem_cons_self
      rw [commands, List.nodup_append_comm, List.singleton_append, List.nodup_cons]
      constructor
      · rintro ⟨hnew, -⟩ session' hsession' hzero i hi
        cases encrypts.unique hsession'
        rw [hzero] at hnew
        exact hnew (hspent.first _ i hi)
      · intro hunused
        refine ⟨fun hold ↦ ?_, h.nodup⟩
        rcases Nat.eq_zero_or_pos session.txMsgId with hzero | hpos
        · exact hunused session encrypts hzero _ hold
        · exact absurd (h.ahead _ hmem hpos _ hold) (Nat.lt_irrefl _)

section Encrypts

variable {deviceId : List UInt8} {session : SensorSession K}
  {others : List (List UInt8 × SensorSession K)}

/-- Before a command nobody else counts under its key: either this session has, or the
key is unused. -/
theorem Ahead.others_zero (hspent : Spent s) (h : Ahead s)
    (before : s.state.sessions = (deviceId, session) :: others)
    (hunused : session.txMsgId = 0 → ∀ i, (session.txKey, i) ∉ s.commands) :
    ∀ item ∈ others, item.2.txKey = session.txKey → item.2.txMsgId = 0 := by
  intro item hitem hkey
  have hmem : item ∈ s.state.sessions := by
    rw [before]
    exact List.mem_cons_of_mem _ hitem
  have halone := h.alone
  rw [before, List.pairwise_cons] at halone
  rcases halone.1 item hitem hkey.symm with hzero | hzero
  · by_contra hne
    apply hunused hzero 0
    rw [← hkey]
    exact hspent.below item hmem 0 (Nat.pos_of_ne_zero hne)
  · exact hzero

theorem Ahead.encrypts (hspent : Spent s) (h : Ahead s)
    (before : s.state.sessions = (deviceId, session) :: others)
    (hunused : session.txMsgId = 0 → ∀ i, (session.txKey, i) ∉ s.commands)
    (sessions : t.state.sessions =
      (deviceId, { session with txMsgId := session.txMsgId + 1 }) :: others)
    (commands : t.commands = s.commands ++ [(session.txKey, session.txMsgId)])
    (hnodup : t.commands.Nodup) : Ahead t := by
  have hmem : ∀ item ∈ (deviceId, session) :: others, item ∈ s.state.sessions := by
    rw [before]
    exact fun item hitem ↦ hitem
  have hothers := h.others_zero hspent before hunused
  have halone := h.alone
  rw [before, List.pairwise_cons] at halone
  refine ⟨hnodup, fun item hitem hpos i hi ↦ ?_, ?_⟩
  · rw [sessions] at hitem
    rw [commands] at hi
    rcases List.mem_cons.mp hitem with rfl | hitem
    · rcases List.mem_append.mp hi with hi | hi
      · rcases Nat.eq_zero_or_pos session.txMsgId with hzero | hcounted
        · exact absurd hi (hunused hzero i)
        · apply Nat.lt_succ_of_lt
          exact h.ahead (deviceId, session) (hmem _ List.mem_cons_self) hcounted i hi
      · cases List.mem_singleton.mp hi
        exact Nat.lt_succ_self _
    · rcases List.mem_append.mp hi with hi | hi
      · exact h.ahead item (hmem _ (List.mem_cons_of_mem _ hitem)) hpos i hi
      · have hkey := congrArg Prod.fst (List.mem_singleton.mp hi)
        exact absurd (hothers item hitem hkey) hpos.ne'
  · rw [sessions]
    apply List.pairwise_cons.mpr
    exact ⟨fun item hitem hkey ↦ .inr (hothers item hitem hkey.symm), halone.2⟩

end Encrypts

theorem Ahead.moves (hspent : Spent s) (h : Ahead s) (hmoves : Moves config s t event)
    (hnodup : t.commands.Nodup) : Ahead t := by
  have hunused := (nodup_moves hspent h hmoves).mp hnodup
  cases hmoves with
  | quiet _ sessions commands =>
      refine ⟨hnodup, ?_, ?_⟩
      · rw [sessions, commands]
        exact h.ahead
      · rw [sessions]
        exact h.alone
  | keys _ zero sessions commands =>
      refine ⟨hnodup, fun item hitem hpos i hi ↦ ?_, ?_⟩
      · rw [sessions] at hitem
        rw [commands] at hi
        rcases mem_dictSet hitem with rfl | hitem
        · exact absurd zero hpos.ne'
        · exact h.ahead item hitem hpos i hi
      · rw [sessions]
        exact pairwise_dictSet h.alone (fun _ _ ↦ .inr zero) (fun _ _ ↦ .inl zero)
  | encrypts encrypts before sessions commands =>
      exact h.encrypts hspent before (hunused _ encrypts) sessions commands hnodup

theorem spent_handled (events : List Event) : Spent (handled config events) := by
  induction events using List.reverseRecOn with
  | nil => exact ⟨fun _ h ↦ absurd h List.not_mem_nil, fun _ _ h ↦ absurd h List.not_mem_nil⟩
  | append_singleton events event ih =>
      rw [handled_snoc]
      exact ih.moves handle_moves

theorem nodup_of_snoc {events : List Event}
    (h : (handled config (events ++ [event])).commands.Nodup) :
    (handled config events).commands.Nodup := by
  rw [handled_snoc] at h
  have hmoves : Moves config (handled config events) _ event := handle_moves
  cases hmoves with
  | quiet _ _ commands => rwa [commands] at h
  | keys _ _ _ commands => rwa [commands] at h
  | encrypts _ _ _ commands =>
      rw [commands] at h
      exact h.of_append_left

theorem ahead_handled {events : List Event} (h : (handled config events).commands.Nodup) :
    Ahead (handled config events) := by
  induction events using List.reverseRecOn with
  | nil => exact ⟨List.nodup_nil, fun _ h ↦ absurd h List.not_mem_nil, List.Pairwise.nil⟩
  | append_singleton events event ih =>
      have hahead := ih (nodup_of_snoc h)
      rw [handled_snoc] at h ⊢
      exact hahead.moves (spent_handled events) handle_moves h

/-- No two commands are encrypted under one key and message id exactly if every session
that encrypts a command for the first time does so under an unused key. -/
theorem message_ids_unique (config : Config K) (events : List Event) :
    (handled config events).commands.Nodup ↔
      EachAfter (fun past event ↦ FirstUnused config (handled config past) event) events := by
  induction events using List.reverseRecOn with
  | nil => exact ⟨fun _ ↦ EachAfter.nil, fun _ ↦ List.nodup_nil⟩
  | append_singleton events event ih =>
      rw [eachAfter_snoc, ← ih]
      constructor
      · intro h
        have hprior := nodup_of_snoc h
        rw [handled_snoc] at h
        exact ⟨hprior, (nodup_moves (spent_handled events) (ahead_handled hprior)
          handle_moves).mp h⟩
      · rintro ⟨hprior, hunused⟩
        rw [handled_snoc]
        exact (nodup_moves (spent_handled events) (ahead_handled hprior) handle_moves).mpr hunused

/-- A key packet that the broker repeats between two commands. -/
theorem message_id_repeated :
    let config : Config ℕ := ⟨SecretBox.tagged, fun _ ↦ some (1, 2), id, ascii "plantnode"⟩
    let packet := Event.message (ascii "plantnode/keys/plantnode-001") (List.replicate 48 7) true
    ¬(handled config
      [.client, packet, .send 600 100 1, packet, .send 700 200 1]).commands.Nodup := by
  decide +kernel

end PlantNode.Charter
