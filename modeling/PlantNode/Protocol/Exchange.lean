import PlantNode.Foundation.Quoted
import PlantNode.Protocol.Attestation

/-!
# One attestation exchange

A device asks and the charter answers, each over the text the other one wrote.  The
device looks for quoted words in an answer, and the answer quotes its id.
-/

namespace PlantNode.Protocol.Exchange

open Foundation Crypto Comms Telemetry Charter

open Attestation (evidenceOf)

open Json (Printable PlainKey Scans Field fieldText fieldsText)

/-! ## The query as JSON -/

def queryField : Field where
  key := ascii "query"
  text := Json.quote :: ascii "am_i_attested" ++ [Json.quote]
  value := .string attestationQuery

def deviceField (id : List UInt8) : Field where
  key := ascii "device"
  text := Json.quote :: id ++ [Json.quote]
  value := .string (Json.points id)

def tokenField (token : List UInt8) : Field where
  key := ascii "token"
  text := Json.quote :: token.flatMap hexOf ++ [Json.quote]
  value := .string (Json.points (token.flatMap hexOf))

/-- What the charter reads. -/
def requestOf (e : AttestationEvidence) : List (List ℕ × Json) :=
  [queryField, deviceField e.device, tokenField e.token].map Field.member

variable {e : AttestationEvidence} {id : List UInt8}

theorem plainKey_hex (data : List UInt8) : PlainKey (data.flatMap hexOf) := by
  have hdigits : ∀ i < 16, 0x20 ≤ Hex.getD i 0 ∧ Hex.getD i 0 < 0x80 ∧
      Hex.getD i 0 ≠ Json.quote ∧ Hex.getD i 0 ≠ Json.backslash := by
    decide
  intro c hc
  obtain ⟨b, -, hb⟩ := List.mem_flatMap.mp hc
  have hhigh : (b >>> 4).toNat < 16 := by
    have hb := b.toNat_lt
    rw [UInt8.toNat_shiftRight, Nat.shiftRight_eq_div_pow,
      show 2 ^ (UInt8.toNat 4 % 8) = 16 from rfl]
    omega
  have hlow : (b &&& 0x0f).toNat < 16 := by
    rw [UInt8.toNat_and]
    exact Nat.lt_succ_of_le Nat.and_le_right
  rw [hexOf, List.mem_cons, List.mem_singleton] at hb
  rcases hb with rfl | rfl
  · exact hdigits _ hhigh
  · exact hdigits _ hlow

theorem queryText_eq (e : AttestationEvidence) :
    queryText e = Json.openBrace :: (fieldText queryField ++
      fieldsText [deviceField e.device, tokenField e.token]) := by
  have hopen : ascii "\x7b\"query\":\"am_i_attested\",\"device\":\"" =
      Json.openBrace :: (fieldText queryField ++
        Json.comma :: Json.quote :: ascii "device" ++ [Json.quote, Json.colon, Json.quote]) := by
    decide
  have htoken : ascii "\",\"token\":\"" = Json.quote :: Json.comma :: Json.quote :: ascii "token" ++
      [Json.quote, Json.colon, Json.quote] := by
    decide
  have hclose : ascii "\"\x7d" = [Json.quote, Json.closeBrace] := by decide
  rw [queryText, hopen, htoken, hclose]
  simp only [fieldsText, fieldText, deviceField, tokenField, List.append_assoc, List.cons_append,
    List.nil_append]

/-- The charter accepts the query as one. -/
theorem parseRequest_queryText (h : Printable e.device) :
    parseRequest (queryText e) = some (requestOf e) := by
  have hkeys : ∀ x ∈ [queryField, deviceField e.device, tokenField e.token], PlainKey x.key := by
    have hquery : PlainKey (ascii "query") := by decide
    have hdevice : PlainKey (ascii "device") := by decide
    have htoken : PlainKey (ascii "token") := by decide
    exact List.forall_mem_cons.mpr ⟨hquery, List.forall_mem_cons.mpr ⟨hdevice,
      List.forall_mem_singleton.mpr htoken⟩⟩
  have hvalues : ∀ x ∈ [queryField, deviceField e.device, tokenField e.token],
      Scans x.text x.value := by
    have hquery : Scans queryField.text queryField.value := Json.scans_string (by decide)
    have hdevice : Scans (deviceField e.device).text (deviceField e.device).value :=
      Json.scans_string h.plainKey
    have htoken : Scans (tokenField e.token).text (tokenField e.token).value :=
      Json.scans_string (plainKey_hex e.token)
    exact List.forall_mem_cons.mpr ⟨hquery, List.forall_mem_cons.mpr ⟨hdevice,
      List.forall_mem_singleton.mpr htoken⟩⟩
  have hnodup : ([queryField, deviceField e.device, tokenField e.token].map Field.key).Nodup := by
    change [ascii "query", ascii "device", ascii "token"].Nodup
    decide
  have hquery : isString attestationQuery (member (points "query") (requestOf e)) = true := by
    have hmember : member (points "query") (requestOf e) = some (.string attestationQuery) := rfl
    rw [hmember, isString, decide_eq_true rfl]
  rw [parseRequest, queryText_eq, Json.loads_fields _ _ hkeys hvalues hnodup]
  exact if_pos hquery

/-! ## The answer and its quoted words -/

/-- The answer between its quotes. -/
def segments (id : List UInt8) : List (List UInt8) :=
  [[Json.openBrace], ascii "attested", ascii ": true, ", ascii "device", ascii ": ", id,
    [Json.closeBrace]]

variable {float : List UInt8 → List UInt8}

theorem buildResponse_eq (float : List UInt8 → List UInt8) (h : Printable e.device) :
    buildResponse float (requestOf e) = [Json.quote].intercalate (segments e.device) := by
  have hmember : member (points "device") (requestOf e) = some (.string (Json.points e.device)) :=
    rfl
  have hattested : Json.stringText (points "attested") = ascii "\"attested\"" := by decide
  have hdevice : Json.stringText (points "device") = ascii "\"device\"" := by decide
  simp only [buildResponse, hmember, Option.getD_some, Json.dumps, Json.dumpMembers,
    Json.dumpMember, hattested, hdevice, Json.stringText_points h, segments,
    List.intercalate_cons_cons, List.intercalate_singleton]
  have hfront : Json.openBrace :: (ascii "\"attested\"" ++ ascii ": " ++ ascii "true" ++
      ascii ", " ++ (ascii "\"device\"" ++ ascii ": " ++ [Json.quote])) =
      [Json.openBrace] ++ [Json.quote] ++ (ascii "attested" ++ [Json.quote] ++
        (ascii ": true, " ++ [Json.quote] ++ (ascii "device" ++ [Json.quote] ++
          (ascii ": " ++ [Json.quote])))) := by
    decide
  simpa using congrArg (· ++ (e.device ++ [Json.quote, Json.closeBrace])) hfront

/-- The answer contains `"query"` exactly if that is the device id. -/
theorem buildResponse_contains_query (h : Printable e.device) :
    contains (buildResponse float (requestOf e)) (ascii "\"query\"") = true ↔
      e.device = ascii "query" := by
  have hquoted : ascii "\"query\"" = quoted Json.quote (ascii "query") := by decide
  have hsegments : ∀ s ∈ segments e.device, Json.quote ∉ s := by
    have hid := h.not_mem_quote
    simp only [segments, List.forall_mem_cons]
    exact ⟨by decide, by decide, by decide, by decide, by decide, hid, by decide, by simp⟩
  rw [contains_iff, buildResponse_eq float h, hquoted,
    quoted_infix_intercalate (by decide) hsegments]
  have hinner : (segments e.device).tail.dropLast =
      [ascii "attested", ascii ": true, ", ascii "device", ascii ": "] ++ [e.device] := rfl
  have hfixed : ascii "query" ∉
      [ascii "attested", ascii ": true, ", ascii "device", ascii ": "] := by
    decide
  rw [hinner, List.mem_append, or_iff_right hfixed, List.mem_singleton, eq_comm]

theorem length_device_le (e : AttestationEvidence) : e.device.length ≤ DeviceIdMaxLength := by
  rw [AttestationEvidence.device, List.length_take]
  exact (Nat.min_le_left _ _).trans e.deviceIdLen_le

theorem buildResponse_length_le (h : Printable e.device) :
    (buildResponse float (requestOf e)).length ≤ raBufSize := by
  have hlen := length_device_le e
  have hattested : (ascii "attested").length = 8 := by decide
  have htrue : (ascii ": true, ").length = 8 := by decide
  have hdevice : (ascii "device").length = 6 := by decide
  have hcolon : (ascii ": ").length = 2 := by decide
  rw [DeviceIdMaxLength] at hlen
  rw [buildResponse_eq float h, raBufSize]
  simp only [segments, List.intercalate_cons_cons, List.intercalate_singleton, List.length_append,
    List.length_singleton, hattested, htrue, hdevice, hcolon]
  omega

theorem responseIsAttested_buildResponse (request : List (List ℕ × Json)) :
    responseIsAttested (buildResponse float request) = true := by
  have hmarker : ascii "\"attested\": true" <:+: ascii "\x7b\"attested\": true" :=
    contains_iff.mp (by decide)
  rw [responseIsAttested, Bool.or_eq_true]
  exact .inr (contains_iff.mpr (hmarker.trans (buildResponse_starts float request).isInfix))

/-! ## The exchange -/

variable {K : Type} {box : SecretBox K} {session : Session K} {policy : Policy.State}
  {mailbox : Mailbox}

/-- The query is built and its echo dropped; the charter accepts it; its answer is kept
for the telemetry thread, which sees the device attested. -/
def Completes (box : SecretBox K) (session : Session K) (mailbox : Mailbox)
    (policy : Policy.State) (float : List UInt8 → List UInt8) (e : AttestationEvidence) : Prop :=
  ∃ query request, buildAttestationQuery reqBufSize e = some query ∧
    (publishCallback box session mailbox policy true TopicAttestation query).mailbox = mailbox ∧
    parseRequest query = some request ∧
    (publishCallback box session mailbox policy true TopicAttestation
      (buildResponse float request)).mailbox =
        ⟨buildResponse float request, (buildResponse float request).length, true⟩ ∧
    responseIsAttested (buildResponse float request) = true

theorem publishCallback_query {payload : List UInt8}
    (h : contains payload (ascii "\"query\"") = true) :
    (publishCallback box session mailbox policy true TopicAttestation payload).mailbox =
      mailbox := by
  have htopic : TopicAttestation ≠ TopicCommands := by decide
  rw [publishCallback, if_neg (by decide), if_neg htopic, if_pos rfl, if_pos h]

theorem publishCallback_keeps {payload : List UInt8} (hfree : mailbox.sRaPending = false)
    (h : contains payload (ascii "\"query\"") = false) (hlen : payload.length ≤ raBufSize) :
    (publishCallback box session mailbox policy true TopicAttestation payload).mailbox =
      ⟨payload, payload.length, true⟩ := by
  have htopic : TopicAttestation ≠ TopicCommands := by decide
  rw [publishCallback, if_neg (by decide), if_neg htopic, if_pos rfl, h, if_neg (by decide), hfree,
    if_neg (by decide), if_neg (Nat.not_lt.mpr hlen)]

/-- The exchange stops at the filter, or it completes. -/
theorem completes_iff (hfree : mailbox.sRaPending = false) (hid : Printable e.device) :
    Completes box session mailbox policy float e ↔
      contains (buildResponse float (requestOf e)) (ascii "\"query\"") = false := by
  have hbuilt := buildAttestationQuery_reqBufSize e
  have hparsed := parseRequest_queryText hid
  have hecho : (publishCallback box session mailbox policy true TopicAttestation
      (queryText e)).mailbox = mailbox :=
    publishCallback_query (contains_queryText e)
  constructor
  · rintro ⟨query, request, hquery, -, hrequest, hkept, -⟩
    obtain rfl := Option.some.inj (hbuilt.symm.trans hquery)
    obtain rfl := Option.some.inj (hparsed.symm.trans hrequest)
    refine Bool.eq_false_iff.mpr fun hcontains ↦ ?_
    rw [publishCallback_query hcontains] at hkept
    rw [hkept] at hfree
    cases hfree
  · intro hcontains
    exact ⟨queryText e, requestOf e, hbuilt, hecho, hparsed,
      publishCallback_keeps hfree hcontains (buildResponse_length_le hid),
      responseIsAttested_buildResponse _⟩

/-- The exchange completes for every device but one whose id is `query`. -/
theorem exchange_completes (box : SecretBox K) (session : Session K) (policy : Policy.State)
    (float : List UInt8 → List UInt8) (hfree : mailbox.sRaPending = false)
    (hid : Printable e.device) :
    Completes box session mailbox policy float e ↔ e.device ≠ ascii "query" := by
  rw [completes_iff hfree hid, Ne, ← buildResponse_contains_query hid,
    Bool.not_eq_true]

/-- The device of the demo. -/
theorem exchange_completes_plantnode :
    Completes SecretBox.tagged ⟨7, 9, true, 3⟩ .boot .boot (fun text ↦ text)
      (evidenceOf (ascii "plantnode-001") (by decide)) :=
  (exchange_completes _ _ _ _ rfl (by decide)).mpr (by decide)

/-- A device with the id `query` never sees its answer. -/
theorem exchange_stuck_for_query :
    ¬∀ e : AttestationEvidence, Printable e.device → 1 ≤ e.device.length →
      Completes SecretBox.tagged ⟨7, 9, true, 3⟩ .boot .boot (fun text ↦ text) e := by
  intro hall
  have hid : Printable (evidenceOf (ascii "query") (by decide)).device := by decide
  have hcompletes := (completes_iff rfl hid).mp (hall _ hid (by decide))
  rw [(buildResponse_contains_query hid).mpr (by decide)] at hcompletes
  cases hcompletes

end PlantNode.Protocol.Exchange
