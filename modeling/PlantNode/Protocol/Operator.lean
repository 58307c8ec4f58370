import PlantNode.Foundation.IntText
import PlantNode.Policy.Convergence
import PlantNode.Protocol.Staleness

/-!
# From the text of the operator to the threshold of the device

The handler of the threshold field, `send_threshold_update` and the delivery of the command,
over any number of presses of the button.  Every command is delivered in order, within one
boot and one run of the charter.
-/

namespace PlantNode.Protocol.Operator

open Foundation Foundation.IntText Crypto Charter Comms Policy

variable {K : Type}

/-- A press of the button: the text of the field, and the value of `time.time()`. -/
structure Press where
  text : List ℕ
  time : ℚ
  seed : ℕ
  positive : 0 < time
  fits : time < 2 ^ 32

/-- `int(time.time())` -/
def Press.now (p : Press) : ℤ := intPart p.time

/-- The handler of `make_threshold_handler`. -/
def handler (chars : Characters) (box : SecretBox K) (state : AppState K) (p : Press) :
    Sent × AppState K :=
  match parseInt chars (strip chars.space p.text) with
  | none => (⟨false, .ok none⟩, state)
  | some threshold =>
      if 0 ≤ threshold ∧ threshold ≤ 65535 then
        sendThresholdUpdate box state threshold p.now p.seed
      else (⟨false, .ok none⟩, state)

/-- The timestamp and the threshold of a press that the handler lets through. -/
def accepts (chars : Characters) (p : Press) : Option (ℕ × ℕ) :=
  ((parseInt chars (strip chars.space p.text)).filter
    fun threshold ↦ decide (0 ≤ threshold ∧ threshold ≤ 65535)).map
      fun threshold ↦ (p.now.toNat, threshold.toNat)

/-- The charter and the device; `sent` are the commands that were published, and no step
reads it. -/
structure Desk (K : Type) where
  charter : AppState K
  device : Session K
  policy : Policy.State
  sent : List (ℕ × ℕ)

def Desk.start (deviceId : List UInt8) (device : Session K) : Desk K where
  charter := {
    sessions := [(deviceId, ⟨device.sSessionTxKey, device.sSessionRxKey, 0⟩)]
    mqttClient := true
    lastSentTimestamp := [] }
  device := device
  policy := .boot
  sent := []

def press (chars : Characters) (box : SecretBox K) (s : Desk K) (p : Press) : Desk K :=
  let r := handler chars box s.charter p
  match r.1.published with
  | .ok (some raw) => { s with
      charter := r.2
      policy := (publishCallback box s.device .boot s.policy true TopicCommands raw).policy
      sent := s.sent ++ (accepts chars p).toList }
  | _ => { s with charter := r.2 }

def pressAll (chars : Characters) (box : SecretBox K) (s : Desk K) (presses : List Press) :
    Desk K :=
  presses.foldl (press chars box) s

variable {chars : Characters} {box : SecretBox K} {deviceId : List UInt8} {device : Session K}
  {s : Desk K} {p : Press} {presses : List Press} {x : ℕ × ℕ}

/-! ## One press -/

theorem Press.now_range (p : Press) : 0 ≤ p.now ∧ p.now < 2 ^ 32 :=
  Staleness.intPart_time p.positive p.fits

theorem accepts_eq_some : accepts chars p = some x ↔ ∃ threshold : ℤ,
    Literal chars (strip chars.space p.text) threshold ∧ (0 ≤ threshold ∧ threshold ≤ 65535) ∧
      (p.now.toNat, threshold.toNat) = x := by
  simp only [accepts, Option.map_eq_some_iff, Option.filter_eq_some_iff, decide_eq_true_eq,
    parseInt_iff, and_assoc]

/-- A threshold in digits, with white space around it, is let through as it is. -/
theorem accepts_digits (hascii : Ascii chars) (hlimit : chars.maxDigits = 0 ∨ 5 ≤ chars.maxDigits)
    {n : ℕ} (hn : n ≤ 65535) {before after : List ℕ}
    (hbefore : ∀ c ∈ before, chars.space c = true) (hafter : ∀ c ∈ after, chars.space c = true)
    (htext : p.text = before ++ (decimal n).map UInt8.toNat ++ after) :
    accepts chars p = some (p.now.toNat, n) := by
  have hlen : (decimal n).length ≤ 5 := length_decimal_le (by norm_num) (by omega)
  have hparse := parseInt_strip hascii (decimal_run n) (hlimit.imp_right hlen.trans) hbefore hafter
  rw [decimalValue_decimal, ← htext] at hparse
  exact accepts_eq_some.mpr ⟨n, parseInt_iff.mp hparse, by omega, rfl⟩

/-- A text that is not let through changes nothing. -/
theorem press_refused (h : accepts chars p = none) : press chars box s p = s := by
  have hhandler : handler chars box s.charter p = (⟨false, .ok none⟩, s.charter) := by
    unfold handler
    split
    · rfl
    · rename_i threshold hthreshold
      split
      · rename_i hrange
        simp [accepts, hthreshold, Option.filter_some, hrange] at h
      · rfl
  simp only [press, hhandler]

/-- The charter sends under the receiving key of the device, and has counted its commands; the
device holds the newest of them. -/
structure Linked (deviceId : List UInt8) (device : Session K) (s : Desk K) : Prop where
  same : s.device = device
  client : s.charter.mqttClient = true
  session : ∃ rxKey, s.charter.sessions =
    [(deviceId, ⟨rxKey, device.sSessionRxKey, s.sent.length⟩)]
  latched : Latched (fun a x ↦ a = x) (0, 300) s.sent s.policy.pair

theorem linked_start : Linked deviceId device (.start deviceId device) where
  same := rfl
  client := rfl
  session := ⟨_, rfl⟩
  latched := .nil _

/-- The policy after a command with the timestamp and the threshold `x`. -/
def updated (policy : Policy.State) (x : ℕ × ℕ) : Policy.State :=
  if policy.sLastCommandTimestamp < x.1 then ⟨x.2, x.1⟩ else policy

theorem Latched.snoc_updated {sent : List (ℕ × ℕ)} {policy : Policy.State}
    (h : Latched (fun a x ↦ a = x) (0, 300) sent policy.pair) (x : ℕ × ℕ) :
    Latched (fun a x ↦ a = x) (0, 300) (sent ++ [x]) (updated policy x).pair := by
  unfold updated
  by_cases hlt : policy.sLastCommandTimestamp < x.1
  · rw [if_pos hlt]
    exact h.snoc_newer rfl (fun y hy ↦ hy.symm) hlt
  · rw [if_neg hlt]
    refine h.snoc_stale fun y hy ↦ ?_
    rw [← hy]
    exact Nat.not_lt.mp hlt

/-- A press that is let through sends a command, which the device applies if it is new,
unless the command cannot be encrypted. -/
theorem press_accepted (hbox : box.Lawful) (hready : device.sSessionReady = true)
    (h : Linked deviceId device s) (hx : accepts chars p = some x) :
    Linked deviceId device (press chars box s p) ∧
      ((press chars box s p).sent = s.sent ++ [x] ∨
        (press chars box s p).sent = s.sent ∧ ∃ e plain, encryptCommand box device.sSessionRxKey
          s.sent.length p.seed plain = .error e) := by
  obtain ⟨hdevice, hclient, ⟨rxKey, hsession⟩, hlatched⟩ := h
  obtain ⟨threshold, hliteral, hrange, rfl⟩ := accepts_eq_some.mp hx
  have hhandler : handler chars box s.charter p =
      sendThresholdUpdate box s.charter threshold p.now p.seed := by
    simp only [handler, parseInt_iff.mpr hliteral, if_pos hrange]
  simp only [press, hhandler, sendThresholdUpdate, hsession, hclient, Bool.not_true,
    Bool.false_eq_true, if_false, hx, Option.toList_some]
  cases hraw : encryptCommand box device.sSessionRxKey s.sent.length p.seed
      (buildThresholdCommand p.now threshold) with
  | error e => exact ⟨⟨hdevice, rfl, ⟨rxKey, rfl⟩, hlatched⟩, .inr ⟨rfl, e, _, hraw⟩⟩
  | ok raw =>
      let c : Staleness.Command := ⟨threshold, p.now, hrange, p.now_range.1, p.now_range.2⟩
      have hdelivered : (publishCallback box device .boot s.policy true TopicCommands raw).policy =
          updated s.policy (p.now.toNat, threshold.toNat) := by
        have hnow := p.now_range.1
        have hpublish := Staleness.publishCallback_command hbox hready c hraw s.policy
        rw [hpublish, updated]
        show (if (s.policy.sLastCommandTimestamp : ℤ) < p.now then _ else _ : Delivery).policy = _
        by_cases hnew : (s.policy.sLastCommandTimestamp : ℤ) < p.now
        · rw [if_pos hnew, if_pos (by omega)]
        · rw [if_neg hnew, if_neg (by omega)]
      refine ⟨⟨hdevice, rfl, ⟨rxKey, ?_⟩, ?_⟩, .inl rfl⟩
      · simp
      · simp only [hdevice, hdelivered]
        exact Latched.snoc_updated hlatched _

/-! ## Any number of presses -/

theorem pressAll_snoc : pressAll chars box s (presses ++ [p]) =
    press chars box (pressAll chars box s presses) p := by
  simp [pressAll]

/-- Every message id of 64 bits can be used with the seed of the press. -/
def Encrypts (box : SecretBox K) (device : Session K) (p : Press) : Prop :=
  ∀ msgId plain, (box.encrypt defaultContext device.sSessionRxKey msgId p.seed plain).isSome = true

theorem Encrypts.ok (h : Encrypts box device p) {msgId : ℕ} (hid : msgId < 2 ^ 64)
    (plain : List UInt8) (e : PyError) :
    encryptCommand box device.sSessionRxKey msgId p.seed plain ≠ .error e := by
  obtain ⟨cipher, hcipher⟩ := Option.isSome_iff_exists.mp (h msgId plain)
  simp only [encryptCommand, hcipher, if_pos hid]
  rintro ⟨⟩

theorem linked_pressAll (chars : Characters) (hbox : box.Lawful) (deviceId : List UInt8)
    (hready : device.sSessionReady = true) (presses : List Press) :
    let s := pressAll chars box (.start deviceId device) presses
    Linked deviceId device s ∧ s.sent.Sublist (presses.filterMap (accepts chars)) ∧
      ((∀ p ∈ presses, Encrypts box device p) → presses.length ≤ 2 ^ 64 →
        s.sent = presses.filterMap (accepts chars)) := by
  induction presses using List.reverseRecOn with
  | nil => exact ⟨linked_start, List.Sublist.refl _, fun _ _ ↦ rfl⟩
  | append_singleton presses p ih =>
      obtain ⟨hlinked, hsub, hall⟩ := ih
      rw [pressAll_snoc]
      generalize pressAll chars box (.start deviceId device) presses = s at hlinked hsub hall ⊢
      rw [List.filterMap_append, List.length_append, List.length_singleton]
      cases hx : accepts chars p with
      | none =>
          rw [press_refused hx, List.filterMap_cons_none hx, List.filterMap_nil, List.append_nil]
          refine ⟨hlinked, hsub, fun hencrypts hlen ↦ hall (fun q hq ↦ ?_) (by omega)⟩
          exact hencrypts q (List.mem_append_left _ hq)
      | some x =>
          rw [List.filterMap_cons_some hx, List.filterMap_nil]
          obtain ⟨hlinked', hsent | ⟨hsent, e, plain, herror⟩⟩ :=
            press_accepted hbox hready hlinked hx
          · refine ⟨hlinked', hsent ▸ hsub.append_right [x], fun hencrypts hlen ↦ ?_⟩
            rw [hsent, hall (fun q hq ↦ hencrypts q (List.mem_append_left _ hq)) (by omega)]
          · refine ⟨hlinked', ?_, fun hencrypts hlen ↦ ?_⟩
            · rw [hsent]
              exact hsub.trans (List.sublist_append_left _ _)
            · have hfits : s.sent.length < 2 ^ 64 := by
                have hle := hsub.length_le.trans (List.length_filterMap_le _ _)
                omega
              have hlast := hencrypts p (List.mem_append_right _ (List.mem_singleton_self p))
              exact absurd herror (hlast.ok hfits plain e)

/-- With a clock that goes forward the newest command is the last one. -/
theorem newest_of_forward {sent : List (ℕ × ℕ)} {policy : Policy.State}
    (h : Latched (fun a x ↦ a = x) (0, 300) sent policy.pair)
    (hforward : sent.Pairwise fun x y ↦ x.1 < y.1) (hpositive : ∀ x ∈ sent, 0 < x.1) :
    ∀ x ∈ sent.getLast?, policy.pair = x := by
  intro x hx
  obtain ⟨init, rfl⟩ := List.getLast?_eq_some_iff.mp hx
  have hupper := h.upper x (by simp) x rfl
  rcases h.first with hboot | ⟨pre, y, post, hsplit, rfl, -, -⟩
  · rw [hboot] at hupper
    exact absurd (hpositive x (by simp)) (Nat.not_lt.mpr hupper)
  · rw [hsplit] at hforward hx
    cases hpost : post.getLast? with
    | none =>
        rw [List.getLast?_eq_none_iff.mp hpost] at hx
        simpa using hx
    | some z =>
        have hz : z = x := by
          simpa [List.getLast?_append, List.getLast?_cons, hpost] using hx
        have hlater := (List.pairwise_cons.mp (List.pairwise_append.mp hforward).2.1).1 z
          (List.mem_of_getLast? hpost)
        rw [hz] at hlater
        exact absurd hlater (Nat.not_lt.mpr hupper)

theorem forward_accepts (h : (presses.map Press.now).Pairwise (· < ·)) :
    (presses.filterMap (accepts chars)).Pairwise fun x y ↦ x.1 < y.1 := by
  refine List.Pairwise.filterMap (accepts chars) ?_ (List.pairwise_map.mp h)
  intro p q hlt x hx y hy
  obtain ⟨-, -, -, rfl⟩ := accepts_eq_some.mp hx
  obtain ⟨-, -, -, rfl⟩ := accepts_eq_some.mp hy
  have hp := p.now_range.1
  show p.now.toNat < q.now.toNat
  omega

theorem accepts_positive (h : accepts chars p = some x) (hp : 0 < p.now) : 0 < x.1 := by
  obtain ⟨-, -, -, rfl⟩ := accepts_eq_some.mp h
  show 0 < p.now.toNat
  omega

/-- What the presses come to.  The texts that are let through are those of a number in range;
of the commands that are sent for them the device holds the newest, the first one where
several are newest, and if the seconds of the clock go forward from 0 that is the last one. -/
structure Obeyed (chars : Characters) (box : SecretBox K) (device : Session K)
    (presses : List Press) (s : Desk K) : Prop where
  read : ∀ p ∈ presses, ∀ x, accepts chars p = some x ↔ ∃ threshold : ℤ,
    Literal chars (strip chars.space p.text) threshold ∧ (0 ≤ threshold ∧ threshold ≤ 65535) ∧
      (p.now.toNat, threshold.toNat) = x
  digits : Ascii chars → chars.maxDigits = 0 ∨ 5 ≤ chars.maxDigits → ∀ p ∈ presses,
    ∀ n ≤ 65535, ∀ before after, (∀ c ∈ before, chars.space c = true) →
      (∀ c ∈ after, chars.space c = true) →
        p.text = before ++ (decimal n).map UInt8.toNat ++ after →
          accepts chars p = some (p.now.toNat, n)
  sent : s.sent.Sublist (presses.filterMap (accepts chars))
  all : (∀ p ∈ presses, Encrypts box device p) → presses.length ≤ 2 ^ 64 →
    s.sent = presses.filterMap (accepts chars)
  policy : Latched (fun a x ↦ a = x) (0, 300) s.sent s.policy.pair
  newest : (0 :: presses.map Press.now).Pairwise (· < ·) →
    ∀ x ∈ s.sent.getLast?, s.policy.pair = x

theorem operator_obeyed (chars : Characters) (hbox : box.Lawful) (deviceId : List UInt8)
    (device : Session K) (hready : device.sSessionReady = true) (presses : List Press) :
    Obeyed chars box device presses (pressAll chars box (.start deviceId device) presses) := by
  obtain ⟨hlinked, hsub, hall⟩ := linked_pressAll chars hbox deviceId hready presses
  refine ⟨fun p _ x ↦ accepts_eq_some, fun hascii hlimit p _ n hn before after hbefore hafter ↦
    accepts_digits hascii hlimit hn hbefore hafter, hsub, hall, hlinked.latched, fun hclock ↦ ?_⟩
  obtain ⟨hpositive, hforward⟩ := List.pairwise_cons.mp hclock
  refine newest_of_forward hlinked.latched ((forward_accepts hforward).sublist hsub) fun x hx ↦ ?_
  obtain ⟨p, hmem, hp⟩ := List.mem_filterMap.mp (hsub.subset hx)
  exact accepts_positive hp (hpositive _ (List.mem_map_of_mem hmem))

/-- Digits in groups, a word, a number that is too large, and a sign. -/
theorem operator_obeyed_texts :
    let text (s : String) : List ℕ := s.toList.map Char.toNat
    let presses : List Press := [⟨text " 1_000 ", 1700000000.25, 1, by norm_num, by norm_num⟩,
      ⟨text "wet", 1700000001.5, 1, by norm_num, by norm_num⟩,
      ⟨text "70000", 1700000002.75, 1, by norm_num, by norm_num⟩,
      ⟨text "+450", 1700000003.5, 1, by norm_num, by norm_num⟩]
    let s := pressAll asciiCharacters .tagged (.start (ascii "plantnode-001") ⟨11, 12, true, 0⟩)
      presses
    s.policy = ⟨450, 1700000003⟩ ∧
      Obeyed asciiCharacters .tagged ⟨11, 12, true, 0⟩ presses s := by
  intro text presses s
  refine ⟨by decide +kernel, ?_⟩
  exact operator_obeyed asciiCharacters SecretBox.tagged_lawful _ _ rfl presses

end PlantNode.Protocol.Operator
