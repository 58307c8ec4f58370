import PlantNode.Comms.Callback

/-!
# The attestation query and its answer

What the telemetry compartment writes to ask for its attestation, and how it reads
an answer.
-/

namespace PlantNode.Telemetry

open Foundation Comms

def DeviceIdMaxLength : ℕ := 64

def AttestationTokenLength : ℕ := 32

/-- `deviceIdLen` bytes of `deviceId` are in use. -/
structure AttestationEvidence where
  deviceId : List UInt8
  deviceIdLen : ℕ
  token : List UInt8
  deviceId_length : deviceId.length = DeviceIdMaxLength
  deviceIdLen_le : deviceIdLen ≤ DeviceIdMaxLength
  token_length : token.length = AttestationTokenLength
  deriving DecidableEq

def AttestationEvidence.device (e : AttestationEvidence) : List UInt8 :=
  e.deviceId.take e.deviceIdLen

/-- `sizeof(sReqBuf)` -/
def reqBufSize : ℕ := 256

/-! ## The query -/

/-- `append_literal`; `buf` is what was written so far, and `none` is an overflow. -/
def appendLiteral (cap : ℕ) (buf s : List UInt8) : Option (List UInt8) :=
  if cap < buf.length + s.length then none else some (buf ++ s)

def Hex : List UInt8 := ascii "0123456789abcdef"

def hexOf (b : UInt8) : List UInt8 :=
  [Hex.getD (b >>> 4).toNat 0, Hex.getD (b &&& 0x0f).toNat 0]

/-- `append_hex` -/
def appendHex (cap : ℕ) (buf data : List UInt8) : Option (List UInt8) :=
  if cap < buf.length + 2 * data.length then none else some (buf ++ data.flatMap hexOf)

/-- `build_attestation_query`; `none` is the return value 0. -/
def buildAttestationQuery (cap : ℕ) (e : AttestationEvidence) : Option (List UInt8) := do
  let buf ← appendLiteral cap [] (ascii "\x7b\"query\":\"am_i_attested\",\"device\":\"")
  let buf ← appendLiteral cap buf e.device
  let buf ← appendLiteral cap buf (ascii "\",\"token\":\"")
  let buf ← appendHex cap buf e.token
  appendLiteral cap buf (ascii "\"\x7d")

/-- `response_is_attested` -/
def responseIsAttested (msg : List UInt8) : Bool :=
  contains msg (ascii "\"attested\":true") || contains msg (ascii "\"attested\": true")

/-! ## What the query is -/

variable {cap : ℕ} {e : AttestationEvidence} {q : List UInt8}

theorem appendLiteral_eq_some {buf s r : List UInt8} :
    appendLiteral cap buf s = some r ↔ buf.length + s.length ≤ cap ∧ r = buf ++ s := by
  unfold appendLiteral
  split
  · simp only [reduceCtorEq, false_iff]
    omega
  · rw [Option.some.injEq, eq_comm, iff_and_self]
    omega

theorem hexOf_flatMap_length (data : List UInt8) :
    (data.flatMap hexOf).length = 2 * data.length := by
  induction data with
  | nil => rfl
  | cons b data ih =>
      rw [List.flatMap_cons, List.length_append, ih, List.length_cons]
      simp only [hexOf, List.length_cons, List.length_nil]
      omega

theorem appendHex_eq_some {buf data r : List UInt8} :
    appendHex cap buf data = some r ↔
      buf.length + 2 * data.length ≤ cap ∧ r = buf ++ data.flatMap hexOf := by
  unfold appendHex
  split
  · simp only [reduceCtorEq, false_iff]
    omega
  · rw [Option.some.injEq, eq_comm, iff_and_self]
    omega

/-- The text of a query. -/
def queryText (e : AttestationEvidence) : List UInt8 :=
  ascii "\x7b\"query\":\"am_i_attested\",\"device\":\"" ++ e.device ++ ascii "\",\"token\":\"" ++
    e.token.flatMap hexOf ++ ascii "\"\x7d"

theorem buildAttestationQuery_eq_some (h : buildAttestationQuery cap e = some q) :
    q = queryText e := by
  simp only [buildAttestationQuery, Option.bind_eq_bind, Option.bind_eq_some_iff,
    appendLiteral_eq_some, appendHex_eq_some] at h
  obtain ⟨_, ⟨-, rfl⟩, _, ⟨-, rfl⟩, _, ⟨-, rfl⟩, _, ⟨-, rfl⟩, -, rfl⟩ := h
  rw [List.nil_append, queryText]

/-- No evidence overflows the buffer of the telemetry compartment. -/
theorem buildAttestationQuery_reqBufSize (e : AttestationEvidence) :
    buildAttestationQuery reqBufSize e = some (queryText e) := by
  have hdevice : e.device.length ≤ 64 := by
    rw [AttestationEvidence.device, List.length_take]
    exact (Nat.min_le_left _ _).trans e.deviceIdLen_le
  have htoken : e.token.length = 32 := e.token_length
  have h₁ : (ascii "\x7b\"query\":\"am_i_attested\",\"device\":\"").length = 35 := by decide
  have h₂ : (ascii "\",\"token\":\"").length = 11 := by decide
  have h₃ : (ascii "\"\x7d").length = 2 := by decide
  simp only [buildAttestationQuery, Option.bind_eq_bind, Option.bind_eq_some_iff,
    appendLiteral_eq_some, appendHex_eq_some, reqBufSize]
  refine ⟨_, ⟨?_, rfl⟩, _, ⟨?_, rfl⟩, _, ⟨?_, rfl⟩, _, ⟨?_, rfl⟩, ?_, ?_⟩
  all_goals simp only [List.length_append, List.length_nil, List.nil_append,
    hexOf_flatMap_length, h₁, h₂, h₃, htoken, queryText]
  all_goals omega

/-- The filter of `publish_callback` stops every query. -/
theorem contains_queryText (e : AttestationEvidence) :
    contains (queryText e) (ascii "\"query\"") = true := by
  rw [contains_iff, queryText]
  have hkey : ascii "\"query\"" <:+: ascii "\x7b\"query\":\"am_i_attested\",\"device\":\"" :=
    (contains_iff).mp (by decide)
  have htext : ascii "\x7b\"query\":\"am_i_attested\",\"device\":\"" <+: queryText e :=
    ⟨_, by simp only [queryText, List.append_assoc]; rfl⟩
  exact hkey.trans htext.isInfix

end PlantNode.Telemetry
