import PlantNode.Charter.RoundTrip
import PlantNode.Comms.Callback
import PlantNode.Foundation.Run

/-!
# Staleness as the charter and the device see it

An operator sends commands to one device within one boot and one run of the charter, and
every command is delivered in order.  The charter remembers the timestamp of the last
send, the device that of the last command it applied, 0 at first.  The two agree until the
clock of the charter goes back, and then the charter remembers less than the device; and the
charter does not warn of a first command in second 0.
-/

namespace PlantNode.Protocol.Staleness

open Foundation Crypto Charter Comms Policy

variable {K : Type}

/-- What the charter can put into a command. -/
structure Command where
  threshold : ℤ
  now : ℤ
  inRange : 0 ≤ threshold ∧ threshold ≤ 65535
  nonneg : 0 ≤ now
  fits : now < 2 ^ 32

/-- A press of the button: the threshold that its handler lets through, and the value
of `time.time()`. -/
structure Send where
  threshold : ℤ
  time : ℚ
  seed : ℕ
  inRange : 0 ≤ threshold ∧ threshold ≤ 65535
  positive : 0 < time
  fits : time < 2 ^ 32

/-- `int(time.time())` -/
def Send.now (x : Send) : ℤ := intPart x.time

/-- `asked` are the timestamps of all sends and `sent` those of the commands that were
published; no step reads them. -/
structure System (K : Type) where
  charter : AppState K
  device : Session K
  policy : Policy.State
  asked : List ℤ
  sent : List ℤ

def System.start (deviceId : List UInt8) (device : Session K) : System K where
  charter := {
    sessions := [(deviceId, ⟨device.sSessionTxKey, device.sSessionRxKey, 0⟩)]
    mqttClient := true
    lastSentTimestamp := [] }
  device := device
  policy := .boot
  asked := []
  sent := []

/-- What came of a send: whether the charter warned, whether it published a command, and
what `policy_update_threshold` returned for it. -/
structure Outcome where
  warned : Bool
  published : Bool
  result : Option Ret
  deriving DecidableEq

/-- One send, and the delivery of its command. -/
def send (box : SecretBox K) (s : System K) (x : Send) : Outcome × System K :=
  let r := sendThresholdUpdate box s.charter x.threshold x.now x.seed
  match r.1.published with
  | .ok (some raw) =>
      let d := publishCallback box s.device .boot s.policy true TopicCommands raw
      (⟨r.1.warned, true, d.result⟩, { s with
        charter := r.2
        policy := d.policy
        asked := s.asked ++ [x.now]
        sent := s.sent ++ [x.now] })
  | _ => (⟨r.1.warned, false, none⟩, { s with charter := r.2, asked := s.asked ++ [x.now] })

def sendAll (box : SecretBox K) (s : System K) (xs : List Send) : System K :=
  xs.foldl (fun s x ↦ (send box s x).2) s

def outcomes (box : SecretBox K) (s : System K) : List Send → List Outcome
  | [] => []
  | x :: xs => (send box s x).1 :: outcomes box (send box s x).2 xs

/-- A command that was sent without a warning was applied. -/
def Outcome.Agrees (o : Outcome) : Prop :=
  o.published = true → o.warned = false → o.result = some (.ok ())

/-- The command of this send can be encrypted. -/
def Encrypted (box : SecretBox K) (charter : AppState K) (x : Send) : Prop :=
  ∃ item raw, charter.sessions.head? = some item ∧
    encryptCommand box item.2.txKey item.2.txMsgId x.seed
      (buildThresholdCommand x.now x.threshold) = .ok raw

/-- A command that is later than the send before it is later than second 0 and than every
command. -/
def InOrder (box : SecretBox K) (s : System K) (x : Send) : Prop :=
  Encrypted box s.charter x → (∀ t ∈ s.asked.getLast?, t < x.now) →
    0 < x.now ∧ ∀ t ∈ s.sent, t < x.now

/-- The charter has a session under the device's key, and remembers the last send. -/
structure Remembers (charter : AppState K) (key : K) (asked : List ℤ) : Prop where
  client : charter.mqttClient = true
  session : ∃ deviceId session, charter.sessions = [(deviceId, session)] ∧
    session.txKey = key ∧
      dictGet deviceId (-1) charter.lastSentTimestamp = asked.getLast?.getD (-1)

/-- The device remembers the newest command. -/
structure Newest (policy : Policy.State) (sent : List ℤ) : Prop where
  upper : ∀ t ∈ sent, t ≤ policy.sLastCommandTimestamp
  reached : policy.sLastCommandTimestamp = 0 ∨ (policy.sLastCommandTimestamp : ℤ) ∈ sent

structure Tracks (s : System K) : Prop where
  ready : s.device.sSessionReady = true
  charter : Remembers s.charter s.device.sSessionRxKey s.asked
  device : Newest s.policy s.sent

/-! ## One command -/

theorem intPart_time {time : ℚ} (hpositive : 0 < time) (hfits : time < 2 ^ 32) :
    0 ≤ intPart time ∧ intPart time < 2 ^ 32 := by
  rw [intPart_of_nonneg hpositive.le]
  refine ⟨Int.floor_nonneg.mpr hpositive.le, Int.floor_lt.mpr ?_⟩
  exact_mod_cast hfits

/-- The command of a press. -/
def Send.command (x : Send) : Command :=
  ⟨x.threshold, x.now, x.inRange, (intPart_time x.positive x.fits).1,
    (intPart_time x.positive x.fits).2⟩

theorem Send.now_nonneg (x : Send) : 0 ≤ x.now := x.command.nonneg

variable {box : SecretBox K} {s : System K} {x : Send}

theorem Command.length_build (c : Command) :
    (buildThresholdCommand c.now c.threshold).length ≤ plainBufSize := by
  have hnow : (decimalInt c.now).length ≤ 11 :=
    length_decimalInt_le (by norm_num) (by have := c.nonneg; have := c.fits; omega)
  have hthreshold : (decimalInt c.threshold).length ≤ 6 :=
    length_decimalInt_le (k := 5) (by norm_num) (by have := c.inRange; omega)
  have h₁ : (ascii "\x7b\"timestamp\":").length = 13 := by decide
  have h₂ : (ascii ",\"threshold\":").length = 13 := by decide
  have h₃ : (ascii "\x7d").length = 1 := by decide
  simp only [buildThresholdCommand, List.length_append, h₁, h₂, h₃, plainBufSize]
  omega

/-- The device applies a command that is new to it, and drops any other as stale. -/
theorem policyUpdate_build (policy : Policy.State) (c : Command) :
    policyUpdateThreshold policy (some (buildThresholdCommand c.now c.threshold)) =
      if (policy.sLastCommandTimestamp : ℤ) < c.now then
        (.ok (), ⟨c.threshold.toNat, c.now.toNat⟩)
      else (.error .EALREADY, policy) := by
  have hnow : c.now = (c.now.toNat : ℤ) := (Int.toNat_of_nonneg c.nonneg).symm
  have hthreshold : c.threshold = (c.threshold.toNat : ℤ) :=
    (Int.toNat_of_nonneg c.inRange.1).symm
  have hdocumented : Documented (buildThresholdCommand c.now c.threshold) c.now.toNat
      c.threshold.toNat := by
    have hfits := c.fits
    have hrange := c.inRange.2
    rw [hnow, hthreshold]
    exact build_documented (by unfold UINT32_MAX; omega) (by unfold UINT16_MAX; omega)
  rw [policyUpdateThreshold_eq, parseCommand_eq_some.mpr ⟨[], hdocumented⟩]
  by_cases hnew : (policy.sLastCommandTimestamp : ℤ) < c.now
  · simp only [if_pos hnew, if_neg (show ¬c.now.toNat ≤ policy.sLastCommandTimestamp by omega)]
  · simp only [if_neg hnew, if_pos (show c.now.toNat ≤ policy.sLastCommandTimestamp by omega)]

/-- The device reads a command that the charter encrypted under its receiving key. -/
theorem publishCallback_command (hbox : box.Lawful) {device : Session K}
    (hready : device.sSessionReady = true) (c : Command) {msgId seed : ℕ} {raw : List UInt8}
    (h : encryptCommand box device.sSessionRxKey msgId seed
      (buildThresholdCommand c.now c.threshold) = .ok raw) (policy : Policy.State) :
    publishCallback box device .boot policy true TopicCommands raw =
      if (policy.sLastCommandTimestamp : ℤ) < c.now then
        ⟨.boot, ⟨c.threshold.toNat, c.now.toNat⟩, some (.ok ())⟩
      else ⟨.boot, policy, some (.error .EALREADY)⟩ := by
  obtain ⟨cipher, hcipher, hid, rfl⟩ := encryptCommand_ok h
  have hadds := hbox.adds hcipher
  have hdecrypt : cryptoDecrypt box device (some (toLE 8 msgId ++ cipher)) true =
      .ok ⟨buildThresholdCommand c.now c.threshold,
        (buildThresholdCommand c.now c.threshold).length⟩ := by
    rw [cryptoDecrypt_eq hready (by omega), Nat.mod_eq_of_lt hid, hbox.undoes hcipher, hadds,
      Nat.add_sub_cancel]
  have hdata : Output.data ⟨buildThresholdCommand c.now c.threshold,
      (buildThresholdCommand c.now c.threshold).length⟩ =
        buildThresholdCommand c.now c.threshold := List.take_length
  simp only [publishCallback, Bool.not_true, Bool.false_eq_true, if_false, if_true, hdecrypt,
    if_neg (not_lt.mpr c.length_build), hdata, policyUpdate_build]
  split <;> rfl

/-! ## One send -/

/-- The charter warns of a send that is not later than the one before it. -/
theorem sendThresholdUpdate_spec {charter : AppState K} {key : K} {asked : List ℤ}
    (h : Remembers charter key asked) (box : SecretBox K) (x : Send) :
    ∃ warned published charter',
      sendThresholdUpdate box charter x.threshold x.now x.seed = (⟨warned, published⟩, charter') ∧
        (warned = false ↔ ∀ t ∈ asked.getLast?, t < x.now) ∧
          Remembers charter' key (asked ++ [x.now]) ∧
            ((∃ e, published = .error e ∧ ¬Encrypted box charter x) ∨
              ∃ raw msgId, published = .ok (some raw) ∧ Encrypted box charter x ∧
                encryptCommand box key msgId x.seed
                  (buildThresholdCommand x.now x.threshold) = .ok raw) := by
  obtain ⟨hclient, deviceId, session, hsessions, rfl, hlast⟩ := h
  have hwarned : decide (x.now ≤ dictGet deviceId (-1) charter.lastSentTimestamp) = false ↔
      ∀ t ∈ asked.getLast?, t < x.now := by
    have hnonneg := x.now_nonneg
    rw [hlast, decide_eq_false_iff_not]
    cases asked.getLast? with
    | none => simp; omega
    | some t => simp
  have hnow : (asked ++ [x.now]).getLast?.getD (-1) = x.now := by simp
  simp only [sendThresholdUpdate, hsessions, hclient, Bool.not_true, Bool.false_eq_true, if_false]
  cases hraw : encryptCommand box session.txKey session.txMsgId x.seed
      (buildThresholdCommand x.now x.threshold) with
  | error e =>
      refine ⟨_, _, _, rfl, hwarned, ⟨rfl, deviceId, session, rfl, rfl, ?_⟩,
        .inl ⟨e, rfl, ?_⟩⟩
      · rw [hnow]
        exact dictGet_dictSet_self
      · rintro ⟨item, raw, hitem, hok⟩
        rw [hsessions] at hitem
        cases hitem
        cases hraw.symm.trans hok
  | ok raw =>
      refine ⟨_, _, _, rfl, hwarned, ⟨rfl, deviceId, _, rfl, rfl, ?_⟩,
        .inr ⟨raw, session.txMsgId, rfl, ⟨(deviceId, session), raw, ?_, hraw⟩, hraw⟩⟩
      · rw [hnow]
        exact dictGet_dictSet_self
      · rw [hsessions]
        rfl

theorem Newest.lt_iff {policy : Policy.State} {sent : List ℤ} (h : Newest policy sent)
    (x : Send) :
    (policy.sLastCommandTimestamp : ℤ) < x.now ↔ 0 < x.now ∧ ∀ t ∈ sent, t < x.now := by
  constructor
  · exact fun hlt ↦ ⟨(Int.natCast_nonneg _).trans_lt hlt, fun t ht ↦ (h.upper t ht).trans_lt hlt⟩
  · rintro ⟨hpositive, hall⟩
    rcases h.reached with hzero | hmem
    · rwa [hzero]
    · exact hall _ hmem

theorem Newest.applied {policy : Policy.State} {sent : List ℤ} (h : Newest policy sent)
    (hlt : (policy.sLastCommandTimestamp : ℤ) < x.now) :
    Newest ⟨x.threshold.toNat, x.now.toNat⟩ (sent ++ [x.now]) := by
  have hnow : ((x.now.toNat : ℕ) : ℤ) = x.now := Int.toNat_of_nonneg x.now_nonneg
  refine ⟨fun t ht ↦ ?_, .inr ?_⟩
  · show t ≤ ((x.now.toNat : ℕ) : ℤ)
    rw [hnow]
    rcases List.mem_append.mp ht with ht | ht
    · exact (h.upper t ht).trans hlt.le
    · exact (List.mem_singleton.mp ht).le
  · show ((x.now.toNat : ℕ) : ℤ) ∈ sent ++ [x.now]
    rw [hnow]
    exact List.mem_append_right _ (List.mem_singleton_self _)

theorem Newest.stale {policy : Policy.State} {sent : List ℤ} (h : Newest policy sent)
    (hle : x.now ≤ (policy.sLastCommandTimestamp : ℤ)) : Newest policy (sent ++ [x.now]) := by
  refine ⟨fun t ht ↦ ?_, h.reached.imp_right (List.mem_append_left _)⟩
  rcases List.mem_append.mp ht with ht | ht
  · exact h.upper t ht
  · exact (List.mem_singleton.mp ht).trans_le hle

/-- A send leaves both sides tracking, and they agree on it exactly if it is in order. -/
theorem send_spec (hbox : box.Lawful) (h : Tracks s) (x : Send) :
    ((send box s x).1.Agrees ↔ InOrder box s x) ∧ Tracks (send box s x).2 := by
  obtain ⟨warned, published, charter, heq, hwarned, hremembers, hcases⟩ :=
    sendThresholdUpdate_spec h.charter box x
  rcases hcases with ⟨e, rfl, hfailed⟩ | ⟨raw, msgId, rfl, hencrypted, hraw⟩
  · simp only [send, heq]
    refine ⟨⟨fun _ hencrypted ↦ absurd hencrypted hfailed, fun _ hpublished ↦ ?_⟩,
      h.ready, hremembers, h.device⟩
    cases hpublished
  · have hnew := h.device.lt_iff x
    have hdelivered : publishCallback box s.device .boot s.policy true TopicCommands raw =
        if (s.policy.sLastCommandTimestamp : ℤ) < x.now then
          ⟨.boot, ⟨x.threshold.toNat, x.now.toNat⟩, some (.ok ())⟩
        else ⟨.boot, s.policy, some (.error .EALREADY)⟩ :=
      publishCallback_command hbox h.ready x.command hraw s.policy
    simp only [send, heq, hdelivered]
    by_cases hlt : (s.policy.sLastCommandTimestamp : ℤ) < x.now
    · simp only [if_pos hlt]
      exact ⟨⟨fun _ _ _ ↦ hnew.mp hlt, fun _ _ _ ↦ rfl⟩, h.ready, hremembers,
        h.device.applied hlt⟩
    · simp only [if_neg hlt]
      refine ⟨⟨fun hagrees _ hlater ↦ ?_, fun horder _ hsilent ↦ ?_⟩, h.ready, hremembers,
        h.device.stale (not_lt.mp hlt)⟩
      · cases hagrees rfl (hwarned.mpr hlater)
      · exact absurd (hnew.mpr (horder hencrypted (hwarned.mp hsilent))) hlt

/-! ## Runs -/

theorem tracks_start (deviceId : List UInt8) {device : Session K}
    (hready : device.sSessionReady = true) : Tracks (System.start deviceId device) where
  ready := hready
  charter := ⟨rfl, deviceId, _, rfl, rfl, rfl⟩
  device := ⟨fun _ ht ↦ absurd ht List.not_mem_nil, .inl rfl⟩

theorem sendAll_snoc {xs : List Send} :
    sendAll box s (xs ++ [x]) = (send box (sendAll box s xs) x).2 := by
  simp [sendAll]

theorem outcomes_snoc {xs : List Send} :
    outcomes box s (xs ++ [x]) = outcomes box s xs ++ [(send box (sendAll box s xs) x).1] := by
  induction xs generalizing s with
  | nil => rfl
  | cons y xs ih => exact congrArg _ ih

theorem tracks_sendAll (hbox : box.Lawful) (h : Tracks s) (xs : List Send) :
    Tracks (sendAll box s xs) := by
  induction xs using List.reverseRecOn with
  | nil => exact h
  | append_singleton xs x ih =>
      rw [sendAll_snoc]
      exact (send_spec hbox ih x).2

theorem send_asked : (send box s x).2.asked = s.asked ++ [x.now] := by
  simp only [send]
  split <;> rfl

theorem send_sent (h : ∀ t ∈ s.sent, t ∈ s.asked) :
    ∀ t ∈ (send box s x).2.sent, t ∈ (send box s x).2.asked := by
  simp only [send]
  split
  · intro t ht
    rcases List.mem_append.mp ht with ht | ht
    · exact List.mem_append_left _ (h t ht)
    · exact List.mem_append_right _ ht
  · exact fun t ht ↦ List.mem_append_left _ (h t ht)

theorem sendAll_asked {xs : List Send} :
    (sendAll box s xs).asked = s.asked ++ xs.map Send.now := by
  induction xs using List.reverseRecOn with
  | nil => exact (List.append_nil _).symm
  | append_singleton xs x ih =>
      rw [sendAll_snoc, send_asked, ih, List.map_append, List.append_assoc]
      rfl

theorem sendAll_sent (h : ∀ t ∈ s.sent, t ∈ s.asked) (xs : List Send) :
    ∀ t ∈ (sendAll box s xs).sent, t ∈ (sendAll box s xs).asked := by
  induction xs using List.reverseRecOn with
  | nil => exact h
  | append_singleton xs x ih =>
      rw [sendAll_snoc]
      exact send_sent ih

/-- A clock that is past second 0 and never goes back keeps every send in order. -/
theorem inOrder_of_steady {deviceId : List UInt8} {device : Session K} {xs : List Send}
    (hpositive : ∀ x ∈ xs, 0 < x.now) (h : (xs.map Send.now).Pairwise (· ≤ ·)) :
    EachAfter (fun past x ↦ InOrder box (sendAll box (.start deviceId device) past) x) xs := by
  rintro past x rest rfl - hlater
  refine ⟨hpositive x (by simp), fun t ht ↦ ?_⟩
  have hmem := sendAll_sent (fun _ ht ↦ absurd ht List.not_mem_nil) past t ht
  rw [sendAll_asked] at hmem hlater
  have hmem : t ∈ past.map Send.now := hmem
  rw [List.map_append, List.pairwise_append] at h
  calc t ≤ (past.map Send.now).getLast (List.ne_nil_of_mem hmem) := h.1.rel_getLast hmem
    _ < x.now := hlater _ (List.getLast?_eq_some_getLast _)

/-- Every command that is sent without a warning is applied exactly if every command that is
later than the send before it is later than second 0 and than all earlier commands. -/
theorem warnings_agree (hbox : box.Lawful) (deviceId : List UInt8) (device : Session K)
    (hready : device.sSessionReady = true) (xs : List Send) :
    (∀ o ∈ outcomes box (.start deviceId device) xs, o.Agrees) ↔
      EachAfter (fun past x ↦ InOrder box (sendAll box (.start deviceId device) past) x) xs := by
  induction xs using List.reverseRecOn with
  | nil => exact ⟨fun _ ↦ EachAfter.nil, fun _ o ho ↦ absurd ho List.not_mem_nil⟩
  | append_singleton xs x ih =>
      have hlast := (send_spec hbox (tracks_sendAll hbox (tracks_start deviceId hready) xs) x).1
      rw [eachAfter_snoc, ← ih, ← hlast, outcomes_snoc]
      simp only [List.forall_mem_append, List.forall_mem_singleton]

/-- A second command in the same second: the charter warns, and the device drops it. -/
theorem warnings_agree_same_second :
    let xs : List Send := [⟨600, 100.25, 1, by decide, by norm_num, by norm_num⟩,
      ⟨700, 100.75, 1, by decide, by norm_num, by norm_num⟩]
    SecretBox.tagged.Lawful ∧
      ∀ o ∈ outcomes .tagged (.start (ascii "plantnode-001") ⟨7, 9, true, 3⟩) xs, o.Agrees := by
  have h₁ : intPart 100.25 = 100 := by decide +kernel
  have h₂ : intPart 100.75 = 100 := by decide +kernel
  refine ⟨SecretBox.tagged_lawful, (warnings_agree SecretBox.tagged_lawful _ _ rfl _).mpr ?_⟩
  exact inOrder_of_steady (by simp [Send.now, h₁, h₂]) (by simp [Send.now, h₁, h₂])

/-- The clock goes back from 100.25 to 50.5, and the command of 100.75 is dropped as stale
without a warning. -/
theorem stale_without_warning :
    let xs : List Send := [⟨600, 100.25, 1, by decide, by norm_num, by norm_num⟩,
      ⟨650, 50.5, 1, by decide, by norm_num, by norm_num⟩,
      ⟨700, 100.75, 1, by decide, by norm_num, by norm_num⟩]
    ¬∀ o ∈ outcomes .tagged (.start (ascii "plantnode-001") ⟨7, 9, true, 3⟩) xs, o.Agrees := by
  intro xs hall
  have hrun : outcomes .tagged (.start (ascii "plantnode-001") ⟨7, 9, true, 3⟩) xs =
      [⟨false, true, some (.ok ())⟩, ⟨true, true, some (.error .EALREADY)⟩,
        ⟨false, true, some (.error .EALREADY)⟩] := by
    decide +kernel
  rw [hrun] at hall
  cases hall ⟨false, true, some (.error .EALREADY)⟩ (by simp) rfl rfl

end PlantNode.Protocol.Staleness
