import PlantNode.Basic
import PlantNode.Foundation.DigitLoop
import PlantNode.Foundation.JsonIntegers

/-!
# Writing a reading as JSON

The serializer inside `crypto_encrypt`: bounded appends to a buffer of 128 bytes.
A buffer is the list of the bytes written so far; a failed append is `none`.
-/

namespace PlantNode.Crypto

open Foundation

/-- `sizeof(plain)` -/
def plainSize : ℕ := 128

def writeChar (plain : List UInt8) (c : UInt8) : Option (List UInt8) :=
  if plainSize ≤ plain.length then none else some (plain ++ [c])

def writeLiteral (plain s : List UInt8) : Option (List UInt8) :=
  if plainSize < plain.length + s.length then none else some (plain ++ s)

def writeUint (plain : List UInt8) (v : ℕ) : Option (List UInt8) :=
  let tmp := printLoop v
  if plainSize < plain.length + tmp.length then none else some (plain ++ tmp)

def writeInt (plain : List UInt8) (v : ℤ) : Option (List UInt8) :=
  if v < 0 then do
    let plain ← writeChar plain minusSign
    writeUint plain (-v).toNat
  else writeUint plain v.toNat

/-- The compact JSON of a reading, or `none` on overflow of the buffer. -/
def serialise (reading : SensorReading) : Option (List UInt8) := do
  let plain ← writeLiteral [] (ascii "\x7b\"timestamp\":")
  let plain ← writeUint plain reading.timestamp.toNat
  let plain ← writeLiteral plain (ascii ",\"humidity\":")
  let plain ← writeUint plain reading.humidityRx10.toNat
  let plain ← writeLiteral plain (ascii ",\"temperature\":")
  let plain ← writeInt plain reading.temperatureCx10.toInt
  let plain ← writeLiteral plain (ascii ",\"moisture\":")
  let plain ← writeUint plain reading.moistureRaw.toNat
  let plain ← writeLiteral plain (ascii ",\"lastWatering\":")
  let plain ← writeUint plain reading.lastWatering.toNat
  writeLiteral plain (ascii "\x7d")

/-! ## What is written -/

variable {plain : List UInt8}

theorem writeUint_eq (plain : List UInt8) (v : ℕ) :
    writeUint plain v = writeLiteral plain (decimal v) := by
  rw [writeUint, printLoop_eq, writeLiteral]

theorem writeInt_eq (plain : List UInt8) (v : ℤ) :
    writeInt plain v = writeLiteral plain (decimalInt v) := by
  unfold writeInt decimalInt
  split
  · rename_i hneg
    rw [show (-v).toNat = v.natAbs by omega]
    by_cases hfull : plainSize ≤ plain.length
    · have hover : plainSize < plain.length + (minusSign :: decimal v.natAbs).length := by
        rw [List.length_cons]
        omega
      rw [writeChar, if_pos hfull, writeLiteral, if_pos hover]
      rfl
    · have hlen : (plain ++ [minusSign]).length + (decimal v.natAbs).length =
          plain.length + (minusSign :: decimal v.natAbs).length := by
        simp only [List.length_append, List.length_cons, List.length_nil]
        omega
      simp only [writeChar, if_neg hfull, Option.bind_eq_bind, Option.bind_some, writeUint_eq,
        writeLiteral, hlen, List.append_assoc, List.singleton_append]
  · rw [writeUint_eq, show v.toNat = v.natAbs by omega]

theorem foldlM_writeLiteral (pieces : List (List UInt8)) (hplain : plain.length ≤ plainSize) :
    pieces.foldlM writeLiteral plain =
      if plainSize < plain.length + pieces.flatten.length then none
      else some (plain ++ pieces.flatten) := by
  induction pieces generalizing plain with
  | nil => simp [Nat.not_lt.mpr hplain]
  | cons s pieces ih =>
      rw [List.foldlM_cons]
      by_cases hover : plainSize < plain.length + s.length
      · have hover' : plainSize < plain.length + (s :: pieces).flatten.length := by
          rw [List.flatten_cons, List.length_append]
          omega
        simp only [writeLiteral, if_pos hover, if_pos hover']
        rfl
      · have hfits : (plain ++ s).length ≤ plainSize := by
          rw [List.length_append]
          omega
        simp only [writeLiteral, if_neg hover]
        rw [show (some (plain ++ s) >>= fun x ↦ pieces.foldlM writeLiteral x) =
          pieces.foldlM writeLiteral (plain ++ s) from rfl, ih hfits]
        simp only [List.length_append, List.flatten_cons, List.append_assoc, Nat.add_assoc]

def firstMember (reading : SensorReading) : List UInt8 × ℤ :=
  (ascii "timestamp", reading.timestamp.toNat)

def otherMembers (reading : SensorReading) : List (List UInt8 × ℤ) :=
  [(ascii "humidity", reading.humidityRx10.toNat),
    (ascii "temperature", reading.temperatureCx10.toInt),
    (ascii "moisture", reading.moistureRaw.toNat),
    (ascii "lastWatering", reading.lastWatering.toNat)]

def readingText (reading : SensorReading) : List UInt8 :=
  Json.openBrace ::
    (Json.memberText (firstMember reading) ++ Json.membersText (otherMembers reading))

def pieces (reading : SensorReading) : List (List UInt8) :=
  [ascii "\x7b\"timestamp\":", decimal reading.timestamp.toNat,
    ascii ",\"humidity\":", decimal reading.humidityRx10.toNat,
    ascii ",\"temperature\":", decimalInt reading.temperatureCx10.toInt,
    ascii ",\"moisture\":", decimal reading.moistureRaw.toNat,
    ascii ",\"lastWatering\":", decimal reading.lastWatering.toNat, ascii "\x7d"]

theorem serialise_eq_foldlM (reading : SensorReading) :
    serialise reading = (pieces reading).foldlM writeLiteral [] := by
  simp only [serialise, writeUint_eq, writeInt_eq, pieces, List.foldlM_cons, List.foldlM_nil,
    bind_pure]

theorem flatten_pieces (reading : SensorReading) :
    (pieces reading).flatten = readingText reading := by
  have h₁ : ascii "\x7b\"timestamp\":" =
      Json.openBrace :: Json.quote :: (ascii "timestamp" ++ [Json.quote, Json.colon]) := by decide
  have h₂ : ascii ",\"humidity\":" =
      Json.comma :: Json.quote :: (ascii "humidity" ++ [Json.quote, Json.colon]) := by decide
  have h₃ : ascii ",\"temperature\":" =
      Json.comma :: Json.quote :: (ascii "temperature" ++ [Json.quote, Json.colon]) := by decide
  have h₄ : ascii ",\"moisture\":" =
      Json.comma :: Json.quote :: (ascii "moisture" ++ [Json.quote, Json.colon]) := by decide
  have h₅ : ascii ",\"lastWatering\":" =
      Json.comma :: Json.quote :: (ascii "lastWatering" ++ [Json.quote, Json.colon]) := by decide
  have h₆ : ascii "\x7d" = [Json.closeBrace] := by decide
  simp [pieces, h₁, h₂, h₃, h₄, h₅, h₆, readingText, firstMember, otherMembers, Json.memberText,
    Json.membersText]

theorem length_decimalInt_le {v : ℤ} {k : ℕ} (hk : 0 < k) (h : v.natAbs < 10 ^ k) :
    (decimalInt v).length ≤ k + 1 := by
  have hlen := length_decimal_le hk h
  unfold decimalInt
  split
  · rw [List.length_cons]
    omega
  · omega

theorem length_readingText (reading : SensorReading) : (readingText reading).length ≤ 105 := by
  have htimestamp : (decimal reading.timestamp.toNat).length ≤ 10 :=
    length_decimal_le (by norm_num) (by have := reading.timestamp.toNat_lt; omega)
  have hhumidity : (decimal reading.humidityRx10.toNat).length ≤ 5 :=
    length_decimal_le (by norm_num) (by have := reading.humidityRx10.toNat_lt; omega)
  have htemperature : (decimalInt reading.temperatureCx10.toInt).length ≤ 6 := by
    have hlow := reading.temperatureCx10.le_toInt
    have hhigh := reading.temperatureCx10.toInt_lt
    exact length_decimalInt_le (k := 5) (by norm_num) (by omega)
  have hmoisture : (decimal reading.moistureRaw.toNat).length ≤ 5 :=
    length_decimal_le (by norm_num) (by have := reading.moistureRaw.toNat_lt; omega)
  have hwatering : (decimal reading.lastWatering.toNat).length ≤ 10 :=
    length_decimal_le (by norm_num) (by have := reading.lastWatering.toNat_lt; omega)
  have h₁ : (ascii "\x7b\"timestamp\":").length = 13 := by decide
  have h₂ : (ascii ",\"humidity\":").length = 12 := by decide
  have h₃ : (ascii ",\"temperature\":").length = 15 := by decide
  have h₄ : (ascii ",\"moisture\":").length = 12 := by decide
  have h₅ : (ascii ",\"lastWatering\":").length = 16 := by decide
  have h₆ : (ascii "\x7d").length = 1 := by decide
  rw [← flatten_pieces]
  simp only [pieces, List.flatten_cons, List.flatten_nil, List.length_append, List.length_nil, h₁,
    h₂, h₃, h₄, h₅, h₆]
  omega

/-- The buffer never overflows. -/
theorem serialise_eq (reading : SensorReading) :
    serialise reading = some (readingText reading) := by
  have hlen := length_readingText reading
  rw [serialise_eq_foldlM, foldlM_writeLiteral _ (Nat.zero_le _), flatten_pieces, List.nil_append,
    List.length_nil, if_neg]
  unfold plainSize
  omega

end PlantNode.Crypto
