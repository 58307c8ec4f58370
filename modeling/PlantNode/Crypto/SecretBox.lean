import PlantNode.Basic
import PlantNode.Foundation.LittleEndian
import PlantNode.Foundation.Decimal

/-!
# The secretbox primitive

Both ends call one library for authenticated encryption.  It is a parameter: what
the development relies on is `SecretBox.Lawful`.  The seed of an encryption stands
for the randomness it draws.  `none` is a nonzero result of the C functions and an
exception of the Python ones.
-/

namespace PlantNode.Crypto

open Foundation

structure SecretBox (K : Type) where
  encrypt : (ctx : List UInt8) → (key : K) → (msgId seed : ℕ) → (plain : List UInt8) →
    Option (List UInt8)
  decrypt : (ctx : List UInt8) → (key : K) → (msgId : ℕ) → (cipher : List UInt8) →
    Option (List UInt8)

def hydroSecretboxHeaderBytes : ℕ := 36

/-- `KBoxCtx`: eight spaces, also the default of the Python binding. -/
def KBoxCtx : List UInt8 := ascii "        "

/-- Decryption undoes encryption under the same key and message id, and encryption
adds the header. -/
structure SecretBox.Lawful {K : Type} (box : SecretBox K) : Prop where
  undoes : ∀ {ctx key msgId seed plain cipher},
    box.encrypt ctx key msgId seed plain = some cipher →
      box.decrypt ctx key msgId cipher = some plain
  adds : ∀ {ctx key msgId seed plain cipher},
    box.encrypt ctx key msgId seed plain = some cipher →
      cipher.length = plain.length + hydroSecretboxHeaderBytes

/-- A box without secrecy, whose header repeats the key, the message id and the
context.  Without randomness it fails. -/
def SecretBox.tagged : SecretBox ℕ where
  encrypt ctx key msgId seed plain :=
    if seed = 0 then none else some (toLE 12 key ++ toLE 12 msgId ++ toLE 12 (ofLE ctx) ++ plain)
  decrypt ctx key msgId cipher :=
    if cipher.take 36 = toLE 12 key ++ toLE 12 msgId ++ toLE 12 (ofLE ctx) then
      some (cipher.drop 36) else none

theorem SecretBox.tagged_lawful : SecretBox.tagged.Lawful := by
  have hlen : ∀ key msgId ctx,
      (toLE 12 key ++ toLE 12 msgId ++ toLE 12 (ofLE ctx)).length = 36 := by simp
  constructor
  · intro ctx key msgId seed plain cipher h
    simp only [SecretBox.tagged] at h
    split at h
    · cases h
    · cases h
      simp only [SecretBox.tagged]
      rw [List.take_left' (hlen ..), if_pos rfl, List.drop_left' (hlen ..)]
  · intro ctx key msgId seed plain cipher h
    simp only [SecretBox.tagged] at h
    split at h
    · cases h
    · cases h
      rw [List.length_append, hlen, Nat.add_comm, hydroSecretboxHeaderBytes]

end PlantNode.Crypto
