import PlantNode.Crypto.SecretBox
import PlantNode.Crypto.Serialise

/-!
# The session of the crypto compartment

The statics of `crypto.cc` and the functions that read and write them.  The flag
`outputs` says that no output pointer is null; a null input is `none`.
-/

namespace PlantNode.Crypto

open Foundation

variable {K : Type}

structure Session (K : Type) where
  sSessionTxKey : K
  sSessionRxKey : K
  sSessionReady : Bool
  sMsgId : ℕ

def Session.boot (zero : K) : Session K where
  sSessionTxKey := zero
  sSessionRxKey := zero
  sSessionReady := false
  sMsgId := 0

/-- The bytes written at an output pointer, and the length stored beside it. -/
structure Output where
  bytes : List UInt8
  len : ℕ
  deriving DecidableEq, Repr

def Output.data (out : Output) : List UInt8 := out.bytes.take out.len

def CryptoKxPacketLen : ℕ := 48
def CryptoEncryptedMaxLen : ℕ := 8 + 36 + 128

structure KeyExchange (K : Type) where
  tx : K
  rx : K
  packet1 : List UInt8

/-- `crypto_init_session`; `kx` is the result of the key exchange. -/
def cryptoInitSession (s : Session K) (outputs : Bool) (kx : Option (KeyExchange K)) :
    Except Errno Output × Session K :=
  if !outputs then (.error .EINVAL, s)
  else match kx with
    | none => (.error .EIo, s)
    | some kx =>
        (.ok { bytes := kx.packet1, len := CryptoKxPacketLen },
          { sSessionTxKey := kx.tx, sSessionRxKey := kx.rx, sSessionReady := true, sMsgId := 0 })

section Primitive

variable (box : SecretBox K)

/-- `encrypt_plain`: the message id, then the ciphertext. -/
def encryptPlain (s : Session K) (seed : ℕ) (plain : List UInt8) :
    Except Errno Output × Session K :=
  if !s.sSessionReady then (.error .ENOSYS, s)
  else match box.encrypt KBoxCtx s.sSessionTxKey s.sMsgId seed plain with
    | none => (.error .EIo, s)
    | some cipher =>
        (.ok { bytes := shiftOut 8 s.sMsgId ++ cipher,
               len := 8 + hydroSecretboxHeaderBytes + plain.length },
          { s with sMsgId := (s.sMsgId + 1) % 2 ^ 64 })

def cryptoEncrypt (s : Session K) (reading : Option SensorReading) (outputs : Bool) (seed : ℕ) :
    Except Errno Output × Session K :=
  match reading with
  | none => (.error .EINVAL, s)
  | some reading =>
      if !outputs then (.error .EINVAL, s)
      else if !s.sSessionReady then (.error .ENOSYS, s)
      else match serialise reading with
        | none => (.error .ENOMEM, s)
        | some plain => encryptPlain box s seed plain

def cryptoDecrypt (s : Session K) (inBuf : Option (List UInt8)) (outputs : Bool) :
    Except Errno Output :=
  match inBuf with
  | none => .error .EINVAL
  | some inBuf =>
      if !outputs then .error .EINVAL
      else if !s.sSessionReady then .error .ENOSYS
      else if inBuf.length < 8 + hydroSecretboxHeaderBytes then .error .EINVAL
      else
        let msgId := orBytes 0 0 (inBuf.take 8)
        let cipherLen := inBuf.length - 8
        match box.decrypt KBoxCtx s.sSessionRxKey msgId (inBuf.drop 8) with
        | none => .error .EBADMSG
        | some plain => .ok { bytes := plain, len := cipherLen - hydroSecretboxHeaderBytes }

end Primitive

variable {box : SecretBox K} {s : Session K} {reading : SensorReading} {seed : ℕ}

theorem cryptoEncrypt_eq (hready : s.sSessionReady = true) :
    cryptoEncrypt box s (some reading) true seed =
      encryptPlain box s seed (readingText reading) := by
  simp [cryptoEncrypt, hready, serialise_eq]

theorem encryptPlain_error {plain : List UInt8} {e : Errno} {s' : Session K}
    (hready : s.sSessionReady = true) (h : encryptPlain box s seed plain = (.error e, s')) :
    e = .EIo ∧ s' = s := by
  simp only [encryptPlain, hready, Bool.not_true, Bool.false_eq_true, if_false] at h
  split at h <;> cases h
  exact ⟨rfl, rfl⟩

theorem encryptPlain_ok {plain : List UInt8} {out : Output} {s' : Session K}
    (h : encryptPlain box s seed plain = (.ok out, s')) :
    ∃ cipher, box.encrypt KBoxCtx s.sSessionTxKey s.sMsgId seed plain = some cipher ∧
      out = ⟨toLE 8 s.sMsgId ++ cipher, 8 + hydroSecretboxHeaderBytes + plain.length⟩ ∧
        s' = { s with sMsgId := (s.sMsgId + 1) % 2 ^ 64 } := by
  unfold encryptPlain at h
  split at h
  · cases h
  · split at h
    · cases h
    · rename_i cipher hcipher
      cases h
      exact ⟨cipher, hcipher, by rw [shiftOut_eq], rfl⟩

theorem orBytes_take (bs : List UInt8) : orBytes 0 0 bs = ofLE bs := by
  rw [orBytes_eq bs (by norm_num), Nat.pow_zero, Nat.one_mul, Nat.zero_add]

theorem cryptoDecrypt_ok {inBuf : List UInt8} {outputs : Bool} {out : Output}
    (h : cryptoDecrypt box s (some inBuf) outputs = .ok out) :
    s.sSessionReady = true ∧
      box.decrypt KBoxCtx s.sSessionRxKey (ofLE (inBuf.take 8)) (inBuf.drop 8) = some out.bytes ∧
        out.len = (inBuf.drop 8).length - hydroSecretboxHeaderBytes := by
  unfold cryptoDecrypt at h
  split at h
  · cases h
  rename_i inBuf hinBuf
  cases hinBuf
  split at h
  · cases h
  split at h
  · cases h
  rename_i hready
  split at h
  · cases h
  dsimp only at h
  split at h
  · cases h
  rename_i plain hplain
  cases h
  rw [orBytes_take] at hplain
  exact ⟨by simpa using hready, hplain, by rw [List.length_drop]⟩

end PlantNode.Crypto
