import PlantNode.Protocol.Authenticity

/-!
# Message ids under the keys of the device

The readings under a sending key of the device are numbered from zero without a gap, over all
boots and exchanges, and no command is encrypted under such a key.  Of two messages with one key
and one message id neither is a reading.
-/

namespace PlantNode.Protocol

open Foundation Crypto Charter Comms

variable {K : Type} [DecidableEq K] {box : SecretBox K} {known : K → Prop} {s t : System K}
  {a : Action K} {e : Entry K} {key : K} {log : List (Entry K)}
  {exchanges exchanges' : List (KeyExchange K)}

/-- The message ids of the readings under `key`, in the order of their encryption. -/
def readingIds (key : K) (log : List (Entry K)) : List ℕ :=
  (log.filter fun e ↦ decide (e.key = key ∧ e.origin = .reading)).map Entry.msgId

/-- Beside ideal primitives: who makes a key packet of its own knows the keys that come of
it, and no session encrypts so often that its message id comes round. -/
structure Careful (box : SecretBox K) (known : K → Prop) (s : System K) (a : Action K) : Prop where
  ideal : Ideal box known s a
  foreign : ∀ deviceId payload rxKey txKey,
    a = .keyPacket deviceId payload (some (rxKey, txKey)) → known txKey
  counts : ∀ reading seed, a = .encryptReading reading seed → s.session.sMsgId + 1 < 2 ^ 64

/-- A key that the charter may send under. -/
def Sending (known : K → Prop) (exchanges : List (KeyExchange K)) (key : K) : Prop :=
  known key ∨ ∃ kx ∈ exchanges, key = kx.rx

omit [DecidableEq K] in
theorem Sending.mono (h : Sending known exchanges key)
    (hsub : ∀ kx ∈ exchanges, kx ∈ exchanges') : Sending known exchanges' key :=
  h.imp_right fun ⟨kx, hkx, hkey⟩ ↦ ⟨kx, hsub kx hkx, hkey⟩

/-! ## What each step encrypts -/

theorem readingIds_snoc (hreading : e.origin = .reading) :
    readingIds key (log ++ [e]) =
      readingIds key log ++ if e.key = key then [e.msgId] else [] := by
  by_cases hkey : e.key = key <;> simp [readingIds, hreading, hkey]

theorem readingIds_append {new : List (Entry K)} (hnew : ∀ e ∈ new, e.origin ≠ .reading) :
    readingIds key (log ++ new) = readingIds key log := by
  have hnone : (new.filter fun e ↦ decide (e.key = key ∧ e.origin = .reading)) = [] := by
    refine List.filter_eq_nil_iff.mpr fun e he hboth ↦ ?_
    exact hnew e he (of_decide_eq_true hboth).2
  rw [readingIds, List.filter_append, hnone, List.append_nil, readingIds]

omit [DecidableEq K] in
theorem encryptReading_cases {reading : SensorReading} {seed : ℕ}
    (h : step box s (.encryptReading reading seed) = some t) :
    t = s ∨ s.session.sSessionReady = true ∧ ∃ cipher, t = { s with
      session := { s.session with sMsgId := (s.session.sMsgId + 1) % 2 ^ 64 }
      log := s.log ++ [⟨s.session.sSessionTxKey, s.session.sMsgId, cipher, .reading⟩] } := by
  cases Option.some.inj h
  rcases hr : cryptoEncrypt box s.session (some reading) true seed with ⟨result, session⟩
  by_cases hready : s.session.sSessionReady = true
  · rw [cryptoEncrypt_eq hready] at hr
    cases result with
    | error e =>
        obtain ⟨-, rfl⟩ := encryptPlain_error hready hr
        exact .inl (by simp [readingEntry])
    | ok out =>
        obtain ⟨cipher, -, -, rfl⟩ := encryptPlain_ok hr
        exact .inr ⟨hready, _, rfl⟩
  · have hnone : cryptoEncrypt box s.session (some reading) true seed =
        (.error .ENOSYS, s.session) := by
      simp [cryptoEncrypt, hready]
    cases hr.symm.trans hnone
    exact .inl (by simp [readingEntry])

omit [DecidableEq K] in
theorem mem_sentEntry {sessions : List (List UInt8 × SensorSession K)} {sent : Sent}
    {threshold now : ℤ} (he : e ∈ sentEntry sessions sent threshold now) :
    e.origin ≠ .reading ∧ ∃ item ∈ sessions, e.key = item.2.txKey := by
  unfold sentEntry at he
  split at he
  · rw [List.mem_singleton.mp he]
    exact ⟨Origin.noConfusion, _, List.mem_cons_self, rfl⟩
  · cases he

omit [DecidableEq K] in
/-- Sending a command leaves the keys of the sessions as they are. -/
theorem mem_sessions_send {state : AppState K} {threshold now : ℤ} {seed : ℕ}
    {item : List UInt8 × SensorSession K}
    (hitem : item ∈ (sendThresholdUpdate box state threshold now seed).2.sessions) :
    ∃ old ∈ state.sessions, item.2.txKey = old.2.txKey := by
  have hsame : ∀ item ∈ state.sessions, ∃ old ∈ state.sessions,
      item.2.txKey = old.2.txKey := fun item h ↦ ⟨item, h, rfl⟩
  unfold sendThresholdUpdate at hitem
  cases hsessions : state.sessions with
  | nil => simp [hsessions] at hitem
  | cons first others =>
      obtain ⟨deviceId, session⟩ := first
      rw [hsessions] at hsame
      simp only [hsessions] at hitem
      split at hitem
      · exact hsame item (hsessions ▸ hitem)
      split at hitem
      · exact hsame item hitem
      · rcases List.mem_cons.mp hitem with rfl | hmem
        · exact ⟨_, List.mem_cons_self, rfl⟩
        · exact hsame item (List.mem_cons_of_mem _ hmem)

/-! ## The count of each key -/

structure Counted (known : K → Prop) (s : System K) : Prop where
  current : s.session.sSessionReady = true →
    readingIds s.session.sSessionTxKey s.log = List.range s.session.sMsgId
  each : ∀ key, ∃ n, readingIds key s.log = List.range n
  unknown : ∀ kx ∈ s.exchanges, ¬known kx.tx
  sessions : ∀ item ∈ s.charter.sessions, Sending known s.exchanges item.2.txKey
  commands : ∀ e ∈ s.log, e.origin ≠ .reading → Sending known s.exchanges e.key

namespace Counted

theorem start (zero : K) : Counted known (.start zero) := by
  refine ⟨fun hready ↦ absurd hready (by simp [System.start, Session.boot]),
    fun key ↦ ⟨0, rfl⟩, ?_, ?_, ?_⟩
  all_goals simp [System.start, AppState.start]

/-- A step of the charter encrypts no reading. -/
theorem of_charter (h : Counted known s) {charter : AppState K} {new : List (Entry K)}
    (hsessions : ∀ item ∈ charter.sessions, Sending known s.exchanges item.2.txKey)
    (hnew : ∀ e ∈ new, e.origin ≠ .reading ∧ Sending known s.exchanges e.key) :
    Counted known { s with charter := charter, log := s.log ++ new } := by
  have hids : ∀ key, readingIds key (s.log ++ new) = readingIds key s.log := fun key ↦
    readingIds_append fun e he ↦ (hnew e he).1
  refine ⟨fun hready ↦ ?_, fun key ↦ ?_, h.unknown, hsessions, fun e he horigin ↦ ?_⟩
  · simp only [hids]
    exact h.current hready
  · simp only [hids]
    exact h.each key
  · rcases List.mem_append.mp he with hold | hadded
    · exact h.commands e hold horigin
    · exact (hnew e hadded).2

/-- A fresh key has encrypted nothing, and its count starts from zero. -/
theorem initSession (h : Counted known s) (hs : Sound box known s) {kx : KeyExchange K}
    (hfresh : FreshKeys known s.exchanges kx) :
    Counted known { s with
      session := ⟨kx.tx, kx.rx, true, 0⟩, exchanges := s.exchanges ++ [kx] } := by
  have hmem : ∀ kx' ∈ s.exchanges, kx' ∈ s.exchanges ++ [kx] := fun _ hkx' ↦
    List.mem_append_left _ hkx'
  refine ⟨fun _ ↦ ?_, h.each, fun kx' hkx' ↦ ?_, fun item hitem ↦ (h.sessions item hitem).mono hmem,
    fun e he horigin ↦ (h.commands e he horigin).mono hmem⟩
  · refine List.map_eq_nil_iff.mpr (List.filter_eq_nil_iff.mpr fun e he hboth ↦ ?_)
    obtain ⟨hkey, horigin⟩ := of_decide_eq_true hboth
    have hrecorded := hs.log e he
    simp only [Recorded, horigin] at hrecorded
    obtain ⟨old, hold, htx⟩ := hrecorded
    exact (hfresh.unused old hold).1 (hkey.symm.trans htx)
  · rcases List.mem_append.mp hkx' with hold | hnew
    · exact h.unknown kx' hold
    · rw [List.mem_singleton.mp hnew]
      exact hfresh.secret.1

/-- A reading takes the next id of the current key. -/
theorem encryptReading (h : Counted known s) {cipher : List UInt8}
    (hready : s.session.sSessionReady = true) (hcounts : s.session.sMsgId + 1 < 2 ^ 64) :
    Counted known { s with
      session := { s.session with sMsgId := (s.session.sMsgId + 1) % 2 ^ 64 }
      log := s.log ++ [⟨s.session.sSessionTxKey, s.session.sMsgId, cipher, .reading⟩] } := by
  have hcurrent := h.current hready
  refine ⟨fun _ ↦ ?_, fun key ↦ ?_, h.unknown, h.sessions, fun e he horigin ↦ ?_⟩
  · simp only [Nat.mod_eq_of_lt hcounts]
    rw [readingIds_snoc rfl, if_pos rfl, hcurrent, List.range_succ]
  · rw [readingIds_snoc rfl]
    by_cases hkey : s.session.sSessionTxKey = key
    · subst hkey
      rw [if_pos rfl, hcurrent, ← List.range_succ]
      exact ⟨_, rfl⟩
    · rw [if_neg hkey, List.append_nil]
      exact h.each key
  · rcases List.mem_append.mp he with hold | hadded
    · exact h.commands e hold horigin
    · rw [List.mem_singleton.mp hadded] at horigin
      exact absurd rfl horigin

theorem step (h : Counted known s) (hs : Sound box known s) (hcareful : Careful box known s a)
    (hstep : step box s a = some t) : Counted known t := by
  cases a with
  | boot zero =>
      cases Option.some.inj hstep
      exact ⟨fun hready ↦ absurd hready (by simp [Session.boot]), h.each, h.unknown, h.sessions,
        h.commands⟩
  | initSession kx =>
      cases Option.some.inj hstep
      cases kx with
      | none => simpa [cryptoInitSession] using h
      | some kx => exact h.initSession hs hcareful.ideal
  | encryptReading reading seed =>
      rcases encryptReading_cases hstep with rfl | ⟨hready, cipher, rfl⟩
      · exact h
      · exact h.encryptReading hready (hcareful.counts reading seed rfl)
  | deliver valid topic payload =>
      cases Option.some.inj hstep
      exact ⟨h.current, h.each, h.unknown, h.sessions, h.commands⟩
  | charterStart =>
      cases Option.some.inj hstep
      exact ⟨h.current, h.each, h.unknown, by simp [AppState.start], h.commands⟩
  | charterConnect =>
      cases Option.some.inj hstep
      exact ⟨h.current, h.each, h.unknown, h.sessions, h.commands⟩
  | keyPacket deviceId payload forged =>
      cases Option.some.inj hstep
      refine ⟨h.current, h.each, h.unknown, fun item hitem ↦ ?_, h.commands⟩
      simp only [onKeyMessage] at hitem
      split at hitem
      · exact h.sessions item hitem
      split at hitem
      · exact h.sessions item hitem
      rename_i rxKey txKey hrecover
      rcases mem_dictSet hitem with rfl | hold
      · unfold recoverSessionKeys at hrecover
        split at hrecover
        · rename_i kx hfind
          cases hrecover
          exact .inr ⟨kx, List.mem_of_find?_eq_some hfind, rfl⟩
        · subst hrecover
          exact .inl (hcareful.foreign deviceId payload rxKey txKey rfl)
      · exact h.sessions item hold
  | send threshold now seed =>
      cases Option.some.inj hstep
      refine h.of_charter (fun item hitem ↦ ?_) fun e he ↦ ?_
      · obtain ⟨old, hold, hkey⟩ := mem_sessions_send hitem
        exact hkey ▸ h.sessions old hold
      · obtain ⟨horigin, item, hitem, hkey⟩ := mem_sentEntry he
        exact ⟨horigin, hkey ▸ h.sessions item hitem⟩

/-- Two readings under one key have different ids. -/
theorem id_ne (h : Counted known s) {e' : Entry K} (hsub : [e, e'].Sublist s.log)
    (hreading : e.origin = .reading) (hreading' : e'.origin = .reading) (hkey : e.key = e'.key) :
    e.msgId ≠ e'.msgId := by
  obtain ⟨n, hrange⟩ := h.each e'.key
  have hids : [e.msgId, e'.msgId].Sublist (readingIds e'.key s.log) := by
    have hmap := (hsub.filter fun e ↦ decide (e.key = e'.key ∧ e.origin = .reading)).map
      Entry.msgId
    simpa [readingIds, hreading, hreading', hkey] using hmap
  rw [hrange] at hids
  have hnodup := List.nodup_range.sublist hids
  simpa using hnodup

end Counted

/-! ## Runs -/

theorem counted {zero : K} (h : Steps (step box) (Careful box known) (.start zero) s) :
    Sound box known s ∧ Counted known s :=
  h.invariant (I := fun s ↦ Sound box known s ∧ Counted known s)
    ⟨sound_start zero, .start zero⟩ fun _ _ _ hs hcareful hstep ↦
      ⟨sound_step hs.1 hcareful.ideal hstep, hs.2.step hs.1 hcareful hstep⟩

/-- What the message ids are good for, as far as the device decides. -/
structure Unrepeated (s : System K) : Prop where
  counted : ∀ key, ∃ n, readingIds key s.log = List.range n
  apart : ∀ e ∈ s.log, ∀ e' ∈ s.log, e.origin = .reading → e'.origin ≠ .reading →
    e.key ≠ e'.key
  once : s.log.Pairwise fun e e' ↦ e.key = e'.key → e.msgId = e'.msgId →
    e.origin ≠ .reading ∧ e'.origin ≠ .reading

/-- In every run, over all boots, exchanges and starts of the charter. -/
theorem ids_unrepeated {zero : K}
    (h : Steps (step box) (Careful box known) (.start zero) s) : Unrepeated s := by
  obtain ⟨hs, hcounted⟩ := counted h
  have happart : ∀ e ∈ s.log, ∀ e' ∈ s.log, e.origin = .reading → e'.origin ≠ .reading →
      e.key ≠ e'.key := by
    intro e he e' he' hreading hcommand hkey
    have hrecorded := hs.log e he
    simp only [Recorded, hreading] at hrecorded
    obtain ⟨kx, hkx, htx⟩ := hrecorded
    rcases hcounted.commands e' he' hcommand with hknown | ⟨kx', hkx', hrx⟩
    · exact hcounted.unknown kx hkx (htx ▸ hkey.symm ▸ hknown)
    · exact hs.separate kx hkx kx' hkx' (htx.symm.trans (hkey.trans hrx))
  refine ⟨hcounted.each, happart, List.pairwise_iff_forall_sublist.mpr ?_⟩
  intro e e' hsub hkey hid
  have he : e ∈ s.log := hsub.subset List.mem_cons_self
  have he' : e' ∈ s.log := hsub.subset (List.mem_cons_of_mem _ List.mem_cons_self)
  by_cases hreading : e.origin = .reading
  · by_cases hreading' : e'.origin = .reading
    · exact absurd hid (hcounted.id_ne hsub hreading hreading' hkey)
    · exact absurd hkey (happart e he e' he' hreading hreading')
  · refine ⟨hreading, fun hreading' ↦ ?_⟩
    exact happart e' he' e he hreading' hreading hkey.symm

/-- A test that implies `Careful` where the network knows the keys below 10. -/
def carefulTest (s : System ℕ) (a : Action ℕ) : Bool :=
  idealTest s a && match a with
    | .keyPacket _ _ (some (_, txKey)) => decide (txKey < 10)
    | .encryptReading _ _ => decide (s.session.sMsgId + 1 < 2 ^ 64)
    | _ => true

theorem careful_of_test (s : System ℕ) (a : Action ℕ) (h : carefulTest s a = true) :
    Careful .tagged (· < 10) s a := by
  obtain ⟨hideal, htest⟩ := Bool.and_eq_true_iff.mp h
  refine ⟨ideal_of_test s a hideal, ?_, ?_⟩
  · rintro deviceId payload rxKey txKey rfl
    exact of_decide_eq_true htest
  · rintro reading seed rfl
    exact of_decide_eq_true htest

/-- Two readings, a command, a reboot with a new exchange, and a third reading. -/
theorem ids_unrepeated_rebooted :
    ∃ s : System ℕ, s.log.map (fun e ↦ (e.key, e.msgId)) =
        [(11, 0), (11, 1), (12, 0), (13, 0)] ∧ Unrepeated s := by
  let reading : SensorReading := ⟨310, 235, 455, 1700000000, 0, true⟩
  have hrun : (exec (step .tagged) carefulTest (.start 0)
      [.initSession (some ⟨11, 12, List.replicate 48 1⟩), .charterConnect,
        .keyPacket (ascii "plantnode-001") (List.replicate 48 1) none,
        .encryptReading reading 1, .encryptReading reading 2, .send 500 1700000000 3,
        .boot 0, .initSession (some ⟨13, 14, List.replicate 48 2⟩),
        .encryptReading reading 4]).map
      (fun s ↦ s.log.map fun e ↦ (e.key, e.msgId)) =
        some [(11, 0), (11, 1), (12, 0), (13, 0)] := by
    decide +kernel
  obtain ⟨s, hexec, hs⟩ := Option.map_eq_some_iff.mp hrun
  exact ⟨s, hs, ids_unrepeated ((exec_steps hexec).mono careful_of_test)⟩

end PlantNode.Protocol
