import PlantNode.Foundation.JsonMarkers
import PlantNode.Protocol.Exchange

/-!
# What an attestation answer means

The device judges an answer by searching its bytes for `"query"` and for `"attested"`
with `true`.  As JSON the answer confirms attestation if the object has the member
`attested` with the value true and none with the name `query`.  The searches look at
every depth and at one spelling, so the two differ on some objects.
-/

namespace PlantNode.Protocol.Meaning

open Foundation Crypto Comms Telemetry JsonTree

/-- The object confirms attestation, as JSON. -/
def Attests (o : JsonObject) : Prop := o.Has (ascii "attested") (.literal .true)

/-- The object is a query, as JSON. -/
def Queries (o : JsonObject) : Prop := o.Names (ascii "query")

/-- A member at any depth is spelled as the device expects it: the name ends with
`attested` in quotes, and the colon and at most one blank come before `true`. -/
def SpelledAttested (o : JsonObject) : Prop :=
  ∃ m ∈ o.tree.allMembers, EndsQuoted (ascii "attested") m.1.name ∧ m.1.gap = [] ∧
    (m.1.after = [] ∨ m.1.after = [.blank]) ∧ m.2 = .literal .true

/-- A string at any depth, a name or not, ends with `query` in quotes. -/
def SpelledQuery (o : JsonObject) : Prop :=
  ∃ s ∈ o.tree.strings, EndsQuoted (ascii "query") s

/-- The kinds of objects that are not judged by their meaning. -/
inductive Misleading (o : JsonObject) : Prop where
  /-- A string elsewhere than in the object's own names is `query`. -/
  | dropped (hmeans : Attests o) (hquery : ¬Queries o) (hspelled : SpelledQuery o)
  /-- The member `attested` is spelled in another way. -/
  | missed (hmeans : Attests o) (hquery : ¬Queries o) (hspelled : ¬SpelledAttested o)
  /-- The member that is spelled as expected is not the member `attested` of the object. -/
  | mistaken (hmeans : ¬Attests o) (hspelled : SpelledAttested o) (hquery : ¬SpelledQuery o)
  /-- The name `query` is spelled in another way. -/
  | disguised (hquery : Queries o) (hspelled : SpelledAttested o) (hplain : ¬SpelledQuery o)

variable {K : Type} {box : SecretBox K} {s : Telemetry.State K} {payload : List UInt8}

/-- The answer is delivered and drained, and the device is attested then. -/
def Judged (box : SecretBox K) (s : Telemetry.State K) (payload : List UInt8) : Prop :=
  ∃ c, receive box s.comms (.publish true TopicAttestation payload) = some c ∧
    (drainRaMessages { s with comms := c }).sAttested = true

/-! ## The device -/

theorem judged_iff (hfree : s.comms.mailbox.sRaPending = false) (hnew : s.sAttested = false)
    (hlen : payload.length ≤ raBufSize) : Judged box s payload ↔
      contains payload (ascii "\"query\"") = false ∧ responseIsAttested payload = true := by
  have hreceive : ∃ c, receive box s.comms (.publish true TopicAttestation payload) = some c ∧
      c.mailbox = (publishCallback box s.comms.session s.comms.mailbox s.comms.policy true
        TopicAttestation payload).mailbox := ⟨_, rfl, rfl⟩
  obtain ⟨c, hc, hmailbox⟩ := hreceive
  simp only [Judged, hc, Option.some.injEq, exists_eq_left']
  cases hquery : contains payload (ascii "\"query\"") with
  | true =>
      rw [Exchange.publishCallback_query hquery] at hmailbox
      have hempty : c.mailbox.sRaPending = false := by rw [hmailbox, hfree]
      rw [drainRaMessages, drainLoop_empty _ hempty]
      simp [hnew]
  | false =>
      rw [Exchange.publishCallback_keeps hfree hquery hlen] at hmailbox
      have hpending : c.mailbox.sRaPending = true := by rw [hmailbox]
      rw [drainRaMessages, drainLoop_pending _ hpending]
      simp [hmailbox, hnew]

theorem word_query : Word (ascii "query") := .of_all (by decide) (by decide)

theorem word_attested : Word (ascii "attested") := .of_all (by decide) (by decide)

/-- Every object is judged by its spelling. -/
theorem judged_object_iff (hfree : s.comms.mailbox.sRaPending = false)
    (hnew : s.sAttested = false) {o : JsonObject} (hlen : o.text.length ≤ raBufSize) :
    Judged box s o.text ↔ ¬SpelledQuery o ∧ SpelledAttested o := by
  have hquery : ascii "\"query\"" = quoted Json.quote (ascii "query") := by decide
  have htrue : ascii "\"attested\":true" =
      quoted Json.quote (ascii "attested") ++ Json.colon :: ascii "true" := by decide
  have hblank : ascii "\"attested\": true" =
      quoted Json.quote (ascii "attested") ++ Json.colon :: ascii " true" := by decide
  have hfilter : contains o.text (ascii "\"query\"") = true ↔ SpelledQuery o := by
    rw [contains_iff, hquery, o.quoted_infix_iff_strings word_query, SpelledQuery]
  have hanswer : responseIsAttested o.text = true ↔ SpelledAttested o := by
    rw [responseIsAttested, Bool.or_eq_true, contains_iff, contains_iff, htrue, hblank,
      o.quoted_true_infix_iff word_attested, o.quoted_blank_true_infix_iff word_attested,
      ← exists_or, SpelledAttested]
    refine exists_congr fun m ↦ ?_
    tauto
  rw [judged_iff hfree hnew hlen, ← Bool.not_eq_true, hfilter, hanswer]

/-! ## The device and the meaning -/

/-- An answer is judged by its meaning exactly if it is none of the misleading kinds. -/
theorem judged_by_meaning_iff (box : SecretBox K) (hfree : s.comms.mailbox.sRaPending = false)
    (hnew : s.sAttested = false) (o : JsonObject) (hlen : o.text.length ≤ raBufSize) :
    (Judged box s o.text ↔ Attests o ∧ ¬Queries o) ↔ ¬Misleading o := by
  rw [judged_object_iff hfree hnew hlen]
  constructor
  · rintro hiff (⟨hmeans, hquery, hspelled⟩ | ⟨hmeans, hquery, hspelled⟩ |
      ⟨hmeans, hspelled, hquery⟩ | ⟨hquery, hspelled, hplain⟩)
    · exact (hiff.mpr ⟨hmeans, hquery⟩).1 hspelled
    · exact hspelled (hiff.mpr ⟨hmeans, hquery⟩).2
    · exact hmeans (hiff.mp ⟨hquery, hspelled⟩).1
    · exact (hiff.mp ⟨hplain, hspelled⟩).2 hquery
  · intro hnot
    constructor
    · rintro ⟨hplain, hspelled⟩
      refine ⟨?_, fun hquery ↦ hnot (.disguised hquery hspelled hplain)⟩
      by_contra hmeans
      exact hnot (.mistaken hmeans hspelled hplain)
    · rintro ⟨hmeans, hquery⟩
      refine ⟨fun hspelled ↦ hnot (.dropped hmeans hquery hspelled), ?_⟩
      by_contra hspelled
      exact hnot (.missed hmeans hquery hspelled)

/-- `{"attested":` with a blank and `true}`, as the verifier writes it. -/
def confirmed : JsonObject where
  before := []
  tree := .object (.lastMember ⟨[], spell (ascii "attested") word_attested.plain, [], [.blank]⟩
    (.literal .true) [])
  after := []
  isObject := rfl

theorem judged_by_meaning_confirmed :
    confirmed.text = ascii "\x7b\"attested\": true\x7d" ∧
      (Judged SecretBox.tagged (.boot 0) confirmed.text ↔
        Attests confirmed ∧ ¬Queries confirmed) := by
  have hlen : confirmed.text.length ≤ raBufSize := by decide
  have hjudged : Judged SecretBox.tagged (.boot 0) confirmed.text :=
    (judged_iff rfl rfl hlen).mpr (by decide)
  obtain ⟨hplain, hspelled⟩ := (judged_object_iff rfl rfl hlen).mp hjudged
  have hmeans : Attests confirmed := ⟨[], _, [], rfl, denotes_spell _ word_attested.plain, by simp⟩
  have hquery : ¬Queries confirmed := by
    rintro ⟨m, hm, hdenotes⟩
    rw [List.mem_singleton.mp hm] at hdenotes
    exact absurd ((denotes_spell _ word_attested.plain).symm.trans hdenotes) (by decide)
  refine ⟨by decide, (judged_by_meaning_iff SecretBox.tagged rfl rfl confirmed hlen).mpr ?_⟩
  rintro (⟨-, -, h⟩ | ⟨-, -, h⟩ | ⟨h, -, -⟩ | ⟨h, -, -⟩)
  · exact hplain h
  · exact h hspelled
  · exact h hmeans
  · exact hquery h

theorem word_x : Word (ascii "x") := .of_all (by decide) (by decide)

/-- An object whose only member holds the member that the device looks for. -/
def nested : JsonObject where
  before := []
  tree := .object (.lastMember ⟨[], spell (ascii "x") word_x.plain, [], []⟩
    (.object (.lastMember ⟨[], spell (ascii "attested") word_attested.plain, [], []⟩
      (.literal .true) [])) [])
  after := []
  isObject := rfl

/-- The device believes it, and as JSON it says nothing about attestation. -/
theorem nested_answer_believed :
    nested.text = ascii "\x7b\"x\":\x7b\"attested\":true\x7d\x7d" ∧
      ¬(Judged SecretBox.tagged (.boot 0) nested.text ↔ Attests nested ∧ ¬Queries nested) := by
  refine ⟨by decide, fun hiff ↦ ?_⟩
  have hjudged : Judged SecretBox.tagged (.boot 0) nested.text :=
    (judged_iff rfl rfl (by decide)).mpr (by decide)
  obtain ⟨pre, k, post, hmembers, -, -⟩ := (hiff.mp hjudged).1
  have hmem : (k, JsonTree.literal .true) ∈ nested.tree.ownMembers := by
    rw [hmembers]
    simp
  cases List.mem_singleton.mp hmem

end PlantNode.Protocol.Meaning
