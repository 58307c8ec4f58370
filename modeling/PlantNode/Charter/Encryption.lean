import PlantNode.Crypto.SecretBox
import PlantNode.Foundation.Json

/-!
# Encryption in the charter

`encryption.py`.  An exception is an `Except.error`.
-/

namespace PlantNode.Charter

open Foundation Crypto

inductive PyError where
  | ValueError
  | OverflowError
  | EncryptException
  | DecryptException
  | JSONDecodeError
  deriving DecidableEq, Repr

def defaultContext : List UInt8 := ascii "        "

variable {K : Type} (box : SecretBox K)

/-- `int.from_bytes(raw[:8], "little")` -/
def rawMsgId (raw : List UInt8) : ℕ := ofLE (raw.take 8)

def decryptTelemetry (sessionRx : K) (raw : List UInt8) : Except PyError Json :=
  if raw.length < 8 then .error .ValueError
  else match box.decrypt defaultContext sessionRx (rawMsgId raw) (raw.drop 8) with
    | none => .error .DecryptException
    | some plaintext =>
        match Json.loads plaintext with
        | none => .error .JSONDecodeError
        | some value => .ok value

/-- `encrypt_command`; a message id of more than 64 bits has no eight-byte form. -/
def encryptCommand (txKey : K) (msgId seed : ℕ) (plaintext : List UInt8) :
    Except PyError (List UInt8) :=
  match box.encrypt defaultContext txKey msgId seed plaintext with
  | none => .error .EncryptException
  | some ciphertext =>
      if msgId < 2 ^ 64 then .ok (toLE 8 msgId ++ ciphertext) else .error .OverflowError

end PlantNode.Charter
