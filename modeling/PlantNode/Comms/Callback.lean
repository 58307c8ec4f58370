import PlantNode.Crypto.Session
import PlantNode.Policy.Update

/-!
# Delivery of a message to the device

`publish_callback` of the comms compartment: a command is decrypted and handed to
the policy compartment, an attestation answer is kept for the telemetry thread.
-/

namespace PlantNode.Comms

open Foundation Crypto

def TopicAttestation : List UInt8 := ascii "plantnode/attestation"
def TopicCommands : List UInt8 := ascii "plantnode/commands"

/-- `sizeof(plainBuf)` -/
def plainBufSize : ℕ := 256

/-- `sizeof(sRaBuf)` -/
def raBufSize : ℕ := 256

/-- The single slot for an attestation message; `sRaBuf` holds its first `sRaLen`
bytes. -/
structure Mailbox where
  sRaBuf : List UInt8
  sRaLen : ℕ
  sRaPending : Bool
  deriving DecidableEq, Repr

def Mailbox.boot : Mailbox where
  sRaBuf := []
  sRaLen := 0
  sRaPending := false

/-- What a delivery leaves behind; `result` is what `policy_update_threshold`
returned, if it was called. -/
structure Delivery where
  mailbox : Mailbox
  policy : Policy.State
  result : Option Ret

def contains (msg key : List UInt8) : Bool := msg.tails.any fun tail ↦ key.isPrefixOf tail

theorem contains_iff {msg key : List UInt8} : contains msg key = true ↔ key <:+: msg := by
  rw [contains, List.any_eq_true, List.infix_iff_prefix_suffix]
  refine exists_congr fun tail ↦ ?_
  rw [List.mem_tails, List.isPrefixOf_iff_prefix, and_comm]

variable {K : Type}

/-- `valid`: both incoming pointers could be claimed and checked. -/
def publishCallback (box : SecretBox K) (session : Session K) (mailbox : Mailbox)
    (policy : Policy.State) (valid : Bool) (topic payload : List UInt8) : Delivery :=
  if !valid then ⟨mailbox, policy, none⟩
  else if topic = TopicCommands then
    match cryptoDecrypt box session (some payload) true with
    | .error _ => ⟨mailbox, policy, none⟩
    | .ok out =>
        -- a longer plaintext runs into the bounds of `plainBuf` and traps
        if plainBufSize < out.bytes.length then ⟨mailbox, policy, none⟩
        else
          let r := Policy.policyUpdateThreshold policy (some out.data)
          ⟨mailbox, r.2, some r.1⟩
  else if topic = TopicAttestation then
    if contains payload (ascii "\"query\"") then ⟨mailbox, policy, none⟩
    else if mailbox.sRaPending then ⟨mailbox, policy, none⟩
    else if raBufSize < payload.length then ⟨mailbox, policy, none⟩
    else ⟨⟨payload, payload.length, true⟩, policy, none⟩
  else ⟨mailbox, policy, none⟩

variable {box : SecretBox K} {session : Session K} {mailbox : Mailbox} {policy : Policy.State}
  {valid : Bool} {topic payload : List UInt8}

/-- A delivery after which the policy compartment returned 0 is a command that
decrypts; any other leaves the policy alone. -/
theorem publishCallback_cases {d : Delivery}
    (hd : publishCallback box session mailbox policy valid topic payload = d) :
    (d.policy = policy ∧ d.result ≠ some (.ok ())) ∨
      ∃ out, topic = TopicCommands ∧ cryptoDecrypt box session (some payload) true = .ok out ∧
        Policy.policyUpdateThreshold policy (some out.data) = (.ok (), d.policy) ∧
          d.result = some (.ok ()) := by
  subst hd
  unfold publishCallback
  split
  · exact .inl ⟨rfl, by simp⟩
  split
  · rename_i htopic
    split
    · exact .inl ⟨rfl, by simp⟩
    rename_i out hout
    split
    · exact .inl ⟨rfl, by simp⟩
    rcases hr : Policy.policyUpdateThreshold policy (some out.data) with ⟨ret, policy'⟩
    cases ret with
    | error e =>
        rw [Policy.policyUpdateThreshold_error hr]
        exact .inl ⟨rfl, by simp⟩
    | ok u => exact .inr ⟨out, htopic, hout, hr, rfl⟩
  · split
    · split
      · exact .inl ⟨rfl, by simp⟩
      split
      · exact .inl ⟨rfl, by simp⟩
      split <;> exact .inl ⟨rfl, by simp⟩
    · exact .inl ⟨rfl, by simp⟩

/-- What waits in the mailbox makes no difference to the policy compartment. -/
theorem policy_publishCallback (box : SecretBox K) (session : Session K)
    (mailbox mailbox' : Mailbox) (policy : Policy.State) (valid : Bool)
    (topic payload : List UInt8) :
    (publishCallback box session mailbox policy valid topic payload).policy =
      (publishCallback box session mailbox' policy valid topic payload).policy := by
  have hother : ∀ m, topic ≠ TopicCommands →
      (publishCallback box session m policy valid topic payload).policy = policy := by
    intro m hne
    rcases publishCallback_cases (d := publishCallback box session m policy valid topic payload)
      rfl with ⟨hsame, -⟩ | ⟨out, htopic, -⟩
    · exact hsame
    · exact absurd htopic hne
  by_cases htopic : topic = TopicCommands
  · unfold publishCallback
    simp only [if_pos htopic]
    split
    · rfl
    split
    · rfl
    split <;> rfl
  · rw [hother mailbox htopic, hother mailbox' htopic]

end PlantNode.Comms
