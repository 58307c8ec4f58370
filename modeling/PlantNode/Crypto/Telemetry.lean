import PlantNode.Crypto.Session
import PlantNode.Charter.Encryption

/-!
# The telemetry round trip

Any number of readings encrypted in one session, and what the charter decodes from
the packets that were made.  The message counter has 64 bits and counts successes
only.
-/

namespace PlantNode.Crypto

open Foundation Charter

variable {K : Type}

/-- Calls of `crypto_encrypt` one after another, each with the randomness it draws. -/
def encryptAll (box : SecretBox K) (s : Session K) :
    List (SensorReading × ℕ) → List (SensorReading × Except Errno Output)
  | [] => []
  | (reading, seed) :: calls =>
      let r := cryptoEncrypt box s (some reading) true seed
      (reading, r.1) :: encryptAll box r.2 calls

def successes (results : List (SensorReading × Except Errno Output)) :
    List (SensorReading × Output) :=
  results.filterMap fun x ↦
    match x.2 with
    | .error _ => none
    | .ok out => some (x.1, out)

def initialised (s : Session K) (kx : KeyExchange K) : Session K :=
  (cryptoInitSession s true (some kx)).2

def readingObject (reading : SensorReading) : Json :=
  .object [(Json.points (ascii "timestamp"), .int reading.timestamp.toNat),
    (Json.points (ascii "humidity"), .int reading.humidityRx10.toNat),
    (Json.points (ascii "temperature"), .int reading.temperatureCx10.toInt),
    (Json.points (ascii "moisture"), .int reading.moistureRaw.toNat),
    (Json.points (ascii "lastWatering"), .int reading.lastWatering.toNat)]

structure Carries (box : SecretBox K) (key : K) (id : ℕ) (reading : SensorReading) (out : Output) :
    Prop where
  fits : out.bytes.length ≤ CryptoEncryptedMaxLen
  len : out.len = out.bytes.length
  msgId : rawMsgId out.data = id
  decodes : decryptTelemetry box key out.data = .ok (readingObject reading)

variable {box : SecretBox K} {s : Session K} {reading : SensorReading} {seed : ℕ}

theorem loads_readingText (reading : SensorReading) :
    Json.loads (readingText reading) = some (readingObject reading) := by
  apply Json.loads_object (firstMember reading) (otherMembers reading)
  · simp only [otherMembers, firstMember, List.forall_mem_cons]
    exact ⟨by decide, by decide, by decide, by decide, by decide, by simp⟩
  · simp only [otherMembers, firstMember, List.map_cons, List.map_nil]
    decide

theorem carries_of_ok (hbox : box.Lawful) (hready : s.sSessionReady = true)
    (hid : s.sMsgId < 2 ^ 64) {out : Output} {s' : Session K}
    (h : cryptoEncrypt box s (some reading) true seed = (.ok out, s')) :
    Carries box s.sSessionTxKey s.sMsgId reading out ∧
      s' = { s with sMsgId := (s.sMsgId + 1) % 2 ^ 64 } := by
  rw [cryptoEncrypt_eq hready] at h
  obtain ⟨cipher, hcipher, rfl, rfl⟩ := encryptPlain_ok h
  refine ⟨?_, rfl⟩
  have hadds := hbox.adds hcipher
  have htext := length_readingText reading
  have hlen : (toLE 8 s.sMsgId ++ cipher).length =
      8 + hydroSecretboxHeaderBytes + (readingText reading).length := by
    rw [List.length_append, length_toLE, hadds]
    omega
  have hdata : Output.data ⟨toLE 8 s.sMsgId ++ cipher,
      8 + hydroSecretboxHeaderBytes + (readingText reading).length⟩ = toLE 8 s.sMsgId ++ cipher :=
    List.take_of_length_le hlen.le
  have hmsgId : rawMsgId (toLE 8 s.sMsgId ++ cipher) = s.sMsgId := by
    rw [rawMsgId, List.take_left' (length_toLE ..), ofLE_toLE, Nat.mod_eq_of_lt]
    exact hid
  refine ⟨?_, hlen.symm, by rw [hdata, hmsgId], ?_⟩
  · rw [hlen]
    unfold CryptoEncryptedMaxLen hydroSecretboxHeaderBytes
    omega
  · have hundo : box.decrypt defaultContext s.sSessionTxKey s.sMsgId cipher =
        some (readingText reading) := hbox.undoes hcipher
    have hlong : ¬(toLE 8 s.sMsgId ++ cipher).length < 8 := by
      rw [List.length_append, length_toLE]
      omega
    rw [hdata, decryptTelemetry, if_neg hlong, hmsgId, List.drop_left' (length_toLE ..), hundo]
    simp only [loads_readingText]

theorem encryptAll_cons (hready : s.sSessionReady = true) (calls : List (SensorReading × ℕ)) :
    encryptAll box s ((reading, seed) :: calls) =
      (reading, (encryptPlain box s seed (readingText reading)).1) ::
        encryptAll box (encryptPlain box s seed (readingText reading)).2 calls := by
  rw [encryptAll, cryptoEncrypt_eq hready]

/-- Any number of calls: each failure is the primitive's, and the successes count the
message ids up. -/
theorem encryptAll_carries (hbox : box.Lawful) (calls : List (SensorReading × ℕ))
    (s : Session K) (hready : s.sSessionReady = true) (hid : s.sMsgId < 2 ^ 64) :
    (∀ x ∈ encryptAll box s calls, ∀ e, x.2 = .error e → e = .EIo) ∧
      ∀ i reading out, (successes (encryptAll box s calls))[i]? = some (reading, out) →
        Carries box s.sSessionTxKey ((s.sMsgId + i) % 2 ^ 64) reading out := by
  induction calls generalizing s with
  | nil => simp [encryptAll, successes]
  | cons call calls ih =>
      obtain ⟨reading, seed⟩ := call
      rcases hcall : cryptoEncrypt box s (some reading) true seed with ⟨result, s'⟩
      rw [encryptAll, hcall]
      dsimp only
      cases result with
      | error e =>
          have herror := hcall
          rw [cryptoEncrypt_eq hready] at herror
          obtain ⟨rfl, rfl⟩ := encryptPlain_error hready herror
          obtain ⟨hfail, hok⟩ := ih s' hready hid
          refine ⟨fun x hx e he ↦ ?_, hok⟩
          rcases List.mem_cons.mp hx with rfl | hx
          · cases he
            rfl
          · exact hfail x hx e he
      | ok out =>
          obtain ⟨hcarries, rfl⟩ := carries_of_ok hbox hready hid hcall
          obtain ⟨hfail, hok⟩ := ih { s with sMsgId := (s.sMsgId + 1) % 2 ^ 64 } hready
            (Nat.mod_lt (s.sMsgId + 1) (Nat.two_pow_pos 64))
          refine ⟨fun x hx e he ↦ ?_, fun i reading' out' hi ↦ ?_⟩
          · rcases List.mem_cons.mp hx with rfl | hx
            · cases he
            · exact hfail x hx e he
          · cases i with
            | zero =>
                cases hi
                rw [Nat.add_zero, Nat.mod_eq_of_lt hid]
                exact hcarries
            | succ i =>
                have hnext := hok i reading' out' hi
                rwa [Nat.mod_add_mod, Nat.add_assoc, Nat.add_comm 1 i] at hnext

/-- Every packet made in a session decodes to its reading, under the number of
successes before it modulo `2 ^ 64`, and the buffer never overflows. -/
theorem telemetry_round_trip (hbox : box.Lawful) (s : Session K) (kx : KeyExchange K)
    (calls : List (SensorReading × ℕ)) :
    (∀ x ∈ encryptAll box (initialised s kx) calls, ∀ e, x.2 = .error e → e = .EIo) ∧
      ∀ i reading out,
        (successes (encryptAll box (initialised s kx) calls))[i]? = some (reading, out) →
          Carries box kx.tx (i % 2 ^ 64) reading out := by
  obtain ⟨hfail, hok⟩ := encryptAll_carries hbox calls (initialised s kx) rfl
    (by norm_num [initialised, cryptoInitSession])
  refine ⟨hfail, fun i reading out hi ↦ ?_⟩
  have hcarries := hok i reading out hi
  rwa [show (initialised s kx).sMsgId = 0 from rfl, Nat.zero_add] at hcarries

theorem telemetry_round_trip_after_failure :
    let reading : SensorReading := ⟨812, -32768, 455, 1700000000, 0, true⟩
    ∃ out, (successes (encryptAll .tagged (initialised (.boot 0) ⟨7, 9, []⟩)
      [(reading, 1), (reading, 0), (reading, 2)]))[1]? = some (reading, out) ∧
        Carries .tagged 7 1 reading out := by
  intro reading
  obtain ⟨out, hout⟩ : ∃ out, (successes (encryptAll .tagged (initialised (.boot 0) ⟨7, 9, []⟩)
      [(reading, 1), (reading, 0), (reading, 2)]))[1]? = some (reading, out) := by
    refine ⟨⟨shiftOut 8 1 ++ (toLE 12 7 ++ toLE 12 1 ++ toLE 12 (ofLE KBoxCtx) ++
      readingText reading), 8 + hydroSecretboxHeaderBytes + (readingText reading).length⟩, ?_⟩
    rw [encryptAll_cons rfl, encryptAll_cons rfl, encryptAll_cons rfl]
    rfl
  exact ⟨out, hout, (telemetry_round_trip SecretBox.tagged_lawful _ _ _).2 1 reading out hout⟩

theorem successes_tagged (calls : List (SensorReading × ℕ)) (s : Session ℕ)
    (hready : s.sSessionReady = true) (hseed : ∀ call ∈ calls, call.2 ≠ 0) :
    (successes (encryptAll .tagged s calls)).length = calls.length := by
  induction calls generalizing s with
  | nil => rfl
  | cons call calls ih =>
      have hnonzero : call.2 ≠ 0 := hseed call List.mem_cons_self
      obtain ⟨out, hout⟩ : ∃ out, encryptPlain .tagged s call.2 (readingText call.1) =
          (.ok out, { s with sMsgId := (s.sMsgId + 1) % 2 ^ 64 }) :=
        ⟨_, by simp only [encryptPlain, hready, SecretBox.tagged, if_neg hnonzero]; rfl⟩
      have ih := ih { s with sMsgId := (s.sMsgId + 1) % 2 ^ 64 } hready
        fun x hx ↦ hseed x (List.mem_cons_of_mem _ hx)
      rw [encryptAll_cons hready, hout]
      exact congrArg (· + 1) ih

theorem msgId_wraps {calls : List (SensorReading × ℕ)} (hseed : ∀ call ∈ calls, call.2 ≠ 0)
    (hlong : 2 ^ 64 < calls.length) (s : Session ℕ) (kx : KeyExchange ℕ) :
    ∃ reading out, (successes (encryptAll .tagged (initialised s kx) calls))[2 ^ 64]? =
      some (reading, out) ∧ rawMsgId out.data = 0 := by
  have hlen := successes_tagged calls (initialised s kx) rfl hseed
  have hx := List.getElem?_eq_getElem (hlen ▸ hlong)
  have hcarries := (encryptAll_carries SecretBox.tagged_lawful calls (initialised s kx) rfl
    (by norm_num [initialised, cryptoInitSession])).2 _ _ _ hx
  rw [show (initialised s kx).sMsgId = 0 from rfl, Nat.zero_add, Nat.mod_self] at hcarries
  exact ⟨_, _, hx, hcarries.msgId⟩

/-- The packet after `2 ^ 64` others has message id 0 again. -/
theorem telemetry_msg_id_wraps :
    ¬∀ calls i reading out,
      (successes (encryptAll .tagged (initialised (.boot 0) ⟨7, 9, []⟩) calls))[i]? =
        some (reading, out) → Carries .tagged 7 i reading out := by
  intro hclaim
  have hseed : ∀ call ∈ List.replicate (2 ^ 64 + 1) ((⟨0, 0, 0, 0, 0, true⟩ : SensorReading), 1),
      call.2 ≠ 0 := by
    intro call hcall
    rw [List.eq_of_mem_replicate hcall]
    exact one_ne_zero
  obtain ⟨reading, out, hout, hzero⟩ := msgId_wraps hseed
    (by rw [List.length_replicate]; exact Nat.lt_succ_self _) (.boot 0) ⟨7, 9, []⟩
  have hid := (hclaim _ _ _ _ hout).msgId
  rw [hzero] at hid
  exact absurd hid (by norm_num)

end PlantNode.Crypto
