import PlantNode.Comms.Machine
import PlantNode.Foundation.Run

/-!
# The receive path and its buffers

`publish_callback` and `comms_take_ra_message` again, with the bytes of `sRaBuf` and
with every write into a buffer of fixed size.  A write beyond its buffer traps: the
call that makes it fails and changes nothing.
-/

namespace PlantNode.Comms

open Foundation Crypto

/-- `sizeof(sRespBuf)` of the telemetry compartment. -/
def respBufSize : ℕ := 256

inductive Buffer where
  | plainBuf
  | sRaBuf
  | sRespBuf
  deriving DecidableEq, Repr

def Buffer.size : Buffer → ℕ
  | .plainBuf => plainBufSize
  | .sRaBuf => raBufSize
  | .sRespBuf => respBufSize

/-- What can go wrong: a write of `bytes` bytes from the start of a buffer, and a
subtraction of two lengths. -/
inductive Use where
  | write (buffer : Buffer) (bytes : ℕ)
  | subtract (a b : ℕ)
  deriving DecidableEq, Repr

def Use.Safe : Use → Prop
  | .write buffer bytes => bytes ≤ buffer.size
  | .subtract a b => b ≤ a

instance : DecidablePred Use.Safe
  | .write _ _ => inferInstanceAs (Decidable (_ ≤ _))
  | .subtract _ _ => inferInstanceAs (Decidable (_ ≤ _))

/-- `memcpy(dst, src, src.length)`; the rest of `dst` stays. -/
def memcpy (dst src : List UInt8) : List UInt8 := src ++ dst.drop src.length

theorem length_memcpy {dst src : List UInt8} (h : src.length ≤ dst.length) :
    (memcpy dst src).length = dst.length := by
  rw [memcpy, List.length_append, List.length_drop]
  omega

/-- `sRaBuf`, `sRaLen` and `sRaPending`. -/
structure RaSlot where
  sRaBuf : List UInt8
  sRaLen : ℕ
  sRaPending : Bool
  sRaBuf_length : sRaBuf.length = raBufSize
  sRaLen_le : sRaLen ≤ raBufSize
  deriving DecidableEq

def RaSlot.boot : RaSlot where
  sRaBuf := List.replicate raBufSize 0
  sRaLen := 0
  sRaPending := false
  sRaBuf_length := List.length_replicate
  sRaLen_le := Nat.zero_le _

/-- The message in the slot. -/
def RaSlot.message (slot : RaSlot) : List UInt8 := slot.sRaBuf.take slot.sRaLen

def RaSlot.store (slot : RaSlot) (payload : List UInt8) (h : payload.length ≤ raBufSize) :
    RaSlot where
  sRaBuf := memcpy slot.sRaBuf payload
  sRaLen := payload.length
  sRaPending := true
  sRaBuf_length := by rw [length_memcpy (by rwa [slot.sRaBuf_length]), slot.sRaBuf_length]
  sRaLen_le := h

variable {K : Type}

/-- What the receive path reads and writes.  `taken` are the messages returned and
`uses` the uses of buffers and lengths so far; no step reads them. -/
structure ReceivePath (K : Type) where
  session : Session K
  policy : Policy.State
  slot : RaSlot
  taken : List (List UInt8)
  uses : List Use

def ReceivePath.boot (zero : K) : ReceivePath K where
  session := .boot zero
  policy := .boot
  slot := .boot
  taken := []
  uses := []

/-! ## The functions -/

/-- What `crypto_decrypt` does with lengths, and what the box writes: all of the
plaintext, also when the message turns out not to be authentic. -/
def cryptoDecryptUses (s : Session K) (inBuf : Option (List UInt8)) (outputs : Bool) :
    List Use :=
  match inBuf with
  | none => []
  | some inBuf =>
      if !outputs then []
      else if !s.sSessionReady then []
      else if inBuf.length < 8 + hydroSecretboxHeaderBytes then []
      else
        let cipherLen := inBuf.length - 8
        let decryptedLen := cipherLen - hydroSecretboxHeaderBytes
        [.subtract inBuf.length 8, .subtract cipherLen hydroSecretboxHeaderBytes,
          .write .plainBuf decryptedLen]

/-- `publish_callback` for a command. -/
def receiveCommand (box : SecretBox K) (s : ReceivePath K) (payload : List UInt8) :
    ReceivePath K :=
  let uses := cryptoDecryptUses s.session (some payload) true
  let used := { s with uses := s.uses ++ uses }
  if uses.any fun use ↦ ¬use.Safe then used
  else match cryptoDecrypt box s.session (some payload) true with
    | .error _ => used
    | .ok out => { used with policy := (Policy.policyUpdateThreshold s.policy (some out.data)).2 }

/-- `publish_callback` for an attestation message. -/
def receiveAttestation (s : ReceivePath K) (payload : List UInt8) : ReceivePath K :=
  if contains payload (ascii "\"query\"") then s
  else if s.slot.sRaPending then s
  else if h : raBufSize < payload.length then s
  else { s with
    slot := s.slot.store payload (Nat.not_lt.mp h)
    uses := s.uses ++ [.write .sRaBuf payload.length] }

/-- `publish_callback`; `valid`: both incoming pointers could be claimed and checked. -/
def deliver (box : SecretBox K) (s : ReceivePath K) (valid : Bool) (topic payload : List UInt8) :
    ReceivePath K :=
  if !valid then s
  else if topic = TopicCommands then receiveCommand box s payload
  else if topic = TopicAttestation then receiveAttestation s payload
  else s

/-- `comms_take_ra_message`; `outputs`: no pointer is null. -/
def takeRaMessage (s : ReceivePath K) (outputs : Bool) :
    Except Errno (List UInt8) × ReceivePath K :=
  if !outputs then (.error .EINVAL, s)
  else if !s.slot.sRaPending then (.error .ENOENT, s)
  else (.ok s.slot.message,
    { s with
      slot := { s.slot with sRaPending := false }
      taken := s.taken ++ [s.slot.message]
      uses := s.uses ++ [.write .sRespBuf s.slot.sRaLen] })

/-! ## The machine -/

inductive ReceiveAction (K : Type) where
  | keyExchange (outputs : Bool) (kx : Option (KeyExchange K))
  | encrypt (reading : Option SensorReading) (outputs : Bool) (seed : ℕ)
  | deliver (valid : Bool) (topic payload : List UInt8)
  | take (outputs : Bool)

namespace ReceivePath

def step (box : SecretBox K) (s : ReceivePath K) : ReceiveAction K → ReceivePath K
  | .keyExchange outputs kx => { s with session := (cryptoInitSession s.session outputs kx).2 }
  | .encrypt reading outputs seed =>
      { s with session := (cryptoEncrypt box s.session reading outputs seed).2 }
  | .deliver valid topic payload => deliver box s valid topic payload
  | .take outputs => (takeRaMessage s outputs).2

def run (box : SecretBox K) (zero : K) (acts : List (ReceiveAction K)) : ReceivePath K :=
  acts.foldl (step box) (.boot zero)

theorem run_snoc (box : SecretBox K) (zero : K) (acts : List (ReceiveAction K))
    (a : ReceiveAction K) : run box zero (acts ++ [a]) = (run box zero acts).step box a := by
  rw [run, List.foldl_append]
  rfl

end ReceivePath

/-! ## Refinement

Without the bytes behind the message, this is the receive path of the comms machine. -/

section Refinement

/-- The box writes the plaintext, which is the ciphertext without its header. -/
def Exact (box : SecretBox K) : Prop :=
  ∀ {ctx key msgId cipher plain}, box.decrypt ctx key msgId cipher = some plain →
    plain.length = cipher.length - hydroSecretboxHeaderBytes

def RaSlot.mailbox (slot : RaSlot) : Mailbox where
  sRaBuf := slot.message
  sRaLen := slot.sRaLen
  sRaPending := slot.sRaPending

variable {box : SecretBox K} {s : ReceivePath K} {valid : Bool} {topic payload : List UInt8}

theorem RaSlot.message_store (slot : RaSlot) (h : payload.length ≤ raBufSize) :
    (slot.store payload h).message = payload := by
  simp only [RaSlot.message, RaSlot.store, memcpy]
  exact List.take_left' rfl

theorem RaSlot.mailbox_store {slot : RaSlot} (h : payload.length ≤ raBufSize) :
    (slot.store payload h).mailbox = ⟨payload, payload.length, true⟩ := by
  rw [RaSlot.mailbox, RaSlot.message_store slot h]
  rfl

/-- The decryption of a command is safe exactly if there is no session, or the message
is not too long for `plainBuf`. -/
theorem safe_cryptoDecryptUses (s : Session K) (payload : List UInt8) :
    (∀ use ∈ cryptoDecryptUses s (some payload) true, use.Safe) ↔
      (s.sSessionReady = true →
        payload.length ≤ 8 + hydroSecretboxHeaderBytes + Buffer.plainBuf.size) := by
  simp only [cryptoDecryptUses, Bool.not_true, Bool.false_eq_true, if_false]
  cases s.sSessionReady with
  | false => simp
  | true =>
      rw [Bool.not_true, if_neg Bool.false_ne_true, eq_self, true_imp_iff]
      split
      · rename_i hshort
        have hfits : payload.length ≤ 8 + hydroSecretboxHeaderBytes + Buffer.plainBuf.size := by
          omega
        simp [hfits]
      · rename_i hlong
        rw [List.forall_mem_cons, List.forall_mem_cons, List.forall_mem_singleton]
        simp only [Use.Safe]
        omega

theorem trap_iff (s : Session K) (payload : List UInt8) :
    ((cryptoDecryptUses s (some payload) true).any fun use ↦ ¬use.Safe) = true ↔
      s.sSessionReady = true ∧
        8 + hydroSecretboxHeaderBytes + Buffer.plainBuf.size < payload.length := by
  rw [← not_iff_not, Bool.not_eq_true, List.any_eq_false, not_and, not_lt,
    ← safe_cryptoDecryptUses]
  simp only [decide_not, Bool.not_eq_true', decide_eq_false_iff_not, not_not]

/-- The plaintext fits exactly if its decryption does not trap. -/
theorem bytes_le_iff (hbox : Exact box) {s : Session K} {out : Output}
    (h : cryptoDecrypt box s (some payload) true = .ok out) :
    plainBufSize < out.bytes.length ↔
      s.sSessionReady = true ∧
        8 + hydroSecretboxHeaderBytes + Buffer.plainBuf.size < payload.length := by
  obtain ⟨hready, hplain, -⟩ := cryptoDecrypt_ok h
  have hlen := hbox hplain
  rw [List.length_drop] at hlen
  rw [hready, eq_self, true_and, hlen]
  change plainBufSize < _ ↔ 8 + hydroSecretboxHeaderBytes + plainBufSize < _
  omega

/-- What a delivery leaves is what one of the comms machine leaves. -/
def Leaves (s : ReceivePath K) (d : Delivery) : Prop :=
  s.slot.mailbox = d.mailbox ∧ s.policy = d.policy

theorem receiveCommand_refines (hbox : Exact box) (s : ReceivePath K) (payload : List UInt8) :
    Leaves (receiveCommand box s payload)
      (publishCallback box s.session s.slot.mailbox s.policy true TopicCommands payload) := by
  rw [publishCallback, if_neg (by decide), if_pos rfl, receiveCommand]
  cases hout : cryptoDecrypt box s.session (some payload) true with
  | error e =>
      split
      · exact ⟨rfl, rfl⟩
      · exact ⟨rfl, rfl⟩
  | ok out =>
      simp only [trap_iff, ← bytes_le_iff hbox hout]
      split
      · exact ⟨rfl, rfl⟩
      · exact ⟨rfl, rfl⟩

theorem receiveAttestation_refines (box : SecretBox K) (s : ReceivePath K)
    (payload : List UInt8) :
    Leaves (receiveAttestation s payload)
      (publishCallback box s.session s.slot.mailbox s.policy true TopicAttestation payload) := by
  have htopic : TopicAttestation ≠ TopicCommands := by decide
  have hpending : s.slot.mailbox.sRaPending = s.slot.sRaPending := rfl
  rw [publishCallback, if_neg (by decide), if_neg htopic, if_pos rfl, hpending,
    receiveAttestation]
  split
  · exact ⟨rfl, rfl⟩
  split
  · exact ⟨rfl, rfl⟩
  split
  · exact ⟨rfl, rfl⟩
  · rename_i hfits
    exact ⟨RaSlot.mailbox_store (Nat.not_lt.mp hfits), rfl⟩

/-- A delivery refines that of the comms machine, the slot being its mailbox. -/
theorem deliver_refines (hbox : Exact box) (s : ReceivePath K) (valid : Bool)
    (topic payload : List UInt8) :
    Leaves (deliver box s valid topic payload)
      (publishCallback box s.session s.slot.mailbox s.policy valid topic payload) := by
  cases valid with
  | false => exact ⟨rfl, rfl⟩
  | true =>
      rw [deliver, Bool.not_true, if_neg Bool.false_ne_true]
      by_cases hcommand : topic = TopicCommands
      · subst hcommand
        rw [if_pos rfl]
        exact receiveCommand_refines hbox s payload
      · rw [if_neg hcommand]
        by_cases hattestation : topic = TopicAttestation
        · subst hattestation
          rw [if_pos rfl]
          exact receiveAttestation_refines box s payload
        · rw [if_neg hattestation, publishCallback, Bool.not_true, if_neg Bool.false_ne_true,
            if_neg hcommand, if_neg hattestation]
          exact ⟨rfl, rfl⟩

/-- So does a take with valid pointers. -/
theorem takeRaMessage_refines (c : State K) (h : s.slot.mailbox = c.mailbox) :
    (takeRaMessage s true).1 = (commsTakeRaMessage c).1 ∧
      (takeRaMessage s true).2.slot.mailbox = (commsTakeRaMessage c).2.mailbox := by
  have hpending : c.mailbox.sRaPending = s.slot.sRaPending := by rw [← h]; rfl
  have hmessage : c.mailbox.sRaBuf.take c.mailbox.sRaLen = s.slot.message := by
    rw [← h, RaSlot.message]
    exact List.take_take.trans (congrArg (List.take · _) (min_self s.slot.sRaLen))
  simp only [takeRaMessage, commsTakeRaMessage, Bool.not_true, Bool.false_eq_true, if_false,
    hpending, hmessage]
  split
  · exact ⟨rfl, h⟩
  · refine ⟨rfl, ?_⟩
    rw [State.emit, ← h]
    rfl

end Refinement

end PlantNode.Comms
