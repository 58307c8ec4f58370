import PlantNode.Crypto.Telemetry
import Mathlib.Data.Rat.Cast.Defs
import Mathlib.Tactic.FieldSimp

/-!
# The readings on the screen

`display_sensor_readings` and the helpers that write a line.  They check no bounds, so
a write past the end of `line` or `tmp` has no result here.  None is made, and the
screen shows the integers that are sent.
-/

namespace PlantNode.Display

open Foundation Crypto

/-- `sizeof(line)` -/
def lineSize : ℕ := 24

/-- `sizeof(tmp)` -/
def tmpSize : ℕ := 10

def point : UInt8 := 0x2e

/-- `*p++ = c`; the line is what was written so far. -/
def put (line : List UInt8) (c : UInt8) : Option (List UInt8) :=
  if line.length < lineSize then some (line ++ [c]) else none

def appendStr (line : List UInt8) : List UInt8 → Option (List UInt8)
  | [] => some line
  | c :: s => (put line c).bind fun line ↦ appendStr line s

/-- `do { tmp[n++] = '0' + (v % 10); v /= 10; } while (v);` -/
def tmpLoop (tmp : List UInt8) (v : ℕ) : Option (List UInt8) :=
  if tmpSize ≤ tmp.length then none
  else if v / 10 = 0 then some (tmp ++ [digitByte (v % 10)])
  else tmpLoop (tmp ++ [digitByte (v % 10)]) (v / 10)
termination_by v

/-- `for (int i = n - 1; i >= 0; i--) { *p++ = tmp[i]; }` -/
def copyLoop (line tmp : List UInt8) : ℕ → Option (List UInt8)
  | 0 => some line
  | i + 1 => tmp[i]?.bind fun c ↦ (put line c).bind fun line ↦ copyLoop line tmp i

def appendUint (line : List UInt8) (v : ℕ) : Option (List UInt8) :=
  (tmpLoop [] v).bind fun tmp ↦ copyLoop line tmp tmp.length

/-- `append_decimal`; no `val` that is passed is the least `int`. -/
def appendDecimal (line : List UInt8) (val : ℤ) (divisor : ℕ) : Option (List UInt8) :=
  (if val < 0 then put line minusSign else some line).bind fun line ↦
    (appendUint line (val.natAbs / divisor)).bind fun line ↦
      (put line point).bind fun line ↦ appendUint line (val.natAbs % divisor)

/-- A label, a number in tenths and a unit. -/
def decimalLine (label unit : List UInt8) (val : ℤ) : Option (List UInt8) :=
  (appendStr [] label).bind fun line ↦
    (appendDecimal line val 10).bind fun line ↦
      (appendStr line unit).bind fun line ↦ put line 0

def temperatureLine (reading : SensorReading) : Option (List UInt8) :=
  decimalLine (ascii "Temp: ") (ascii " C") reading.temperatureCx10.toInt

def humidityLine (reading : SensorReading) : Option (List UInt8) :=
  decimalLine (ascii "Hum:  ") (ascii " %") reading.humidityRx10.toNat

def moistureLine (reading : SensorReading) : Option (List UInt8) :=
  (appendStr [] (ascii "Moist: ")).bind fun line ↦
    (appendUint line reading.moistureRaw.toNat).bind fun line ↦ put line 0

/-- What `draw_str` draws of a line: the characters before its NUL. -/
def drawn (line : List UInt8) : List UInt8 := line.takeWhile (· ≠ 0)

/-- `display_sensor_readings`: what it draws below the title bar, at which height. -/
def displaySensorReadings : Option SensorReading → Option (List (ℕ × List UInt8))
  | none => some [(30, ascii "No sensor data")]
  | some reading =>
      if !reading.valid then some [(30, ascii "No sensor data")]
      else
        (temperatureLine reading).bind fun temperature ↦
          (humidityLine reading).bind fun humidity ↦
            (moistureLine reading).map fun moisture ↦
              [(30, drawn temperature), (46, drawn humidity), (62, drawn moisture)]

variable {line tmp s : List UInt8} {v n : ℕ}

/-! ## Writing -/

theorem put_eq (h : line.length < lineSize) (c : UInt8) : put line c = some (line ++ [c]) :=
  if_pos h

theorem appendStr_eq (h : line.length + s.length ≤ lineSize) :
    appendStr line s = some (line ++ s) := by
  induction s generalizing line with
  | nil => rw [appendStr, List.append_nil]
  | cons c s ih =>
      rw [List.length_cons] at h
      have hroom : (line ++ [c]).length + s.length ≤ lineSize := by
        rw [List.length_append, List.length_singleton]
        omega
      rw [appendStr, put_eq (by omega), Option.bind_some, ih hroom, List.append_assoc,
        List.singleton_append]

/-- The last digit comes off the end. -/
theorem reverse_decimal (v : ℕ) : (decimal v).reverse =
    digitByte (v % 10) :: if v / 10 = 0 then [] else (decimal (v / 10)).reverse := by
  rcases Nat.eq_zero_or_pos v with rfl | hpos
  · rfl
  · rw [decimal, if_neg hpos.ne', List.reverse_reverse, Nat.digits_def' (by norm_num) hpos,
      List.map_cons]
    split
    · rename_i hlast
      rw [hlast]
      rfl
    · rename_i hmore
      rw [decimal, if_neg hmore, List.reverse_reverse]

/-- The loop into `tmp` writes the digits of the numeral, the last one first. -/
theorem tmpLoop_eq (h : tmp.length + (decimal v).length ≤ tmpSize) :
    tmpLoop tmp v = some (tmp ++ (decimal v).reverse) := by
  induction v using Nat.strongRecOn generalizing tmp with
  | ind v ih =>
      have hdigits := reverse_decimal v
      have hlen := congrArg List.length hdigits
      rw [List.length_reverse, List.length_cons] at hlen
      rw [tmpLoop, if_neg (by omega), hdigits]
      split
      · rfl
      · rename_i hmore
        rw [if_neg hmore, List.length_reverse] at hlen
        have hroom :
            (tmp ++ [digitByte (v % 10)]).length + (decimal (v / 10)).length ≤ tmpSize := by
          rw [List.length_append, List.length_singleton]
          omega
        rw [ih (v / 10) (by omega) hroom, List.append_assoc, List.singleton_append]

theorem copyLoop_eq (htmp : n ≤ tmp.length) (h : line.length + n ≤ lineSize) :
    copyLoop line tmp n = some (line ++ (tmp.take n).reverse) := by
  induction n generalizing line with
  | zero => rw [copyLoop, List.take_zero, List.reverse_nil, List.append_nil]
  | succ n ih =>
      have hget := List.getElem?_eq_getElem (Nat.lt_of_succ_le htmp)
      have hroom : (line ++ [tmp[n]]).length + n ≤ lineSize := by
        rw [List.length_append, List.length_singleton]
        omega
      rw [copyLoop, hget, Option.bind_some, put_eq (by omega), Option.bind_some,
        ih (by omega) hroom, List.take_add_one, hget, List.reverse_append, Option.toList_some,
        List.reverse_singleton, List.append_assoc]

/-- `append_uint` writes the numeral, if there is room for it. -/
theorem appendUint_eq (hv : v < 10 ^ tmpSize) (h : line.length + (decimal v).length ≤ lineSize) :
    appendUint line v = some (line ++ decimal v) := by
  have htmp : ([] : List UInt8).length + (decimal v).length ≤ tmpSize := by
    rw [List.length_nil, Nat.zero_add]
    exact length_decimal_le (by decide) hv
  rw [appendUint, tmpLoop_eq htmp, Option.bind_some, List.nil_append,
    copyLoop_eq le_rfl (by rwa [List.length_reverse]), List.take_length, List.reverse_reverse]

/-- What `append_decimal` writes. -/
def decimalText (val : ℤ) (divisor : ℕ) : List UInt8 :=
  (if val < 0 then [minusSign] else []) ++
    (decimal (val.natAbs / divisor) ++ point :: decimal (val.natAbs % divisor))

theorem appendDecimal_eq {val : ℤ} {divisor : ℕ} (hval : val.natAbs < 10 ^ tmpSize)
    (h : line.length + (decimalText val divisor).length ≤ lineSize) :
    appendDecimal line val divisor = some (line ++ decimalText val divisor) := by
  have hdiv : val.natAbs / divisor < 10 ^ tmpSize := (Nat.div_le_self _ _).trans_lt hval
  have hmod : val.natAbs % divisor < 10 ^ tmpSize := (Nat.mod_le _ _).trans_lt hval
  simp only [decimalText, List.length_append, List.length_cons] at h
  have hsign : (if val < 0 then put line minusSign else some line) =
      some (line ++ if val < 0 then [minusSign] else []) := by
    split
    · exact put_eq (by omega) minusSign
    · rw [List.append_nil]
  rw [appendDecimal, hsign, Option.bind_some,
    appendUint_eq hdiv (by rw [List.length_append]; omega), Option.bind_some,
    put_eq (by simp only [List.length_append]; omega), Option.bind_some,
    appendUint_eq hmod (by simp only [List.length_append, List.length_singleton]; omega),
    decimalText]
  simp only [List.append_assoc, List.singleton_append]

/-! ## Reading back -/

/-- A decimal numeral without sign: a run of digits, perhaps with a point and another run of
digits behind it, and nothing else. -/
def readUnsigned (text : List UInt8) : Option ℚ :=
  let whole := text.takeWhile isDigit
  if whole = [] then none
  else
    match text.dropWhile isDigit with
    | [] => some (decimalValue whole)
    | c :: fraction =>
        if c = point ∧ fraction ≠ [] ∧ fraction.all isDigit = true then
          some (decimalValue whole + decimalValue fraction / 10 ^ fraction.length)
        else none

/-- A decimal numeral, perhaps with a minus sign. -/
def readDecimal (text : List UInt8) : Option ℚ :=
  if text.head? = some minusSign then (readUnsigned text.tail).map fun q ↦ -q
  else readUnsigned text

theorem head?_decimal_ne (v : ℕ) (rest : List UInt8) :
    (decimal v ++ rest).head? ≠ some minusSign := by
  obtain ⟨c, ds, hcons⟩ := List.exists_cons_of_ne_nil (decimal_run v).ne_nil
  have hc := (decimal_run v).digits c (by rw [hcons]; exact List.mem_cons_self)
  rw [hcons]
  rintro ⟨⟩
  cases hc

theorem noDigit_nil : NoDigit [] := by
  rintro c ⟨⟩

theorem noDigit_point (rest : List UInt8) : NoDigit (point :: rest) := by
  rintro c ⟨⟩
  rfl

theorem readUnsigned_decimal (v : ℕ) : readUnsigned (decimal v) = some (v : ℚ) := by
  have htake := takeWhile_digits (decimal_run v).digits noDigit_nil
  have hdrop := dropWhile_digits (decimal_run v).digits noDigit_nil
  rw [List.append_nil] at htake hdrop
  simp only [readUnsigned, htake, hdrop, if_neg (decimal_run v).ne_nil, decimalValue_decimal]

theorem readDecimal_decimal (v : ℕ) : readDecimal (decimal v) = some (v : ℚ) := by
  have hhead := head?_decimal_ne v []
  rw [List.append_nil] at hhead
  rw [readDecimal, if_neg hhead, readUnsigned_decimal]

/-- Two runs of digits around a point. -/
theorem readUnsigned_point {whole fraction : List UInt8} (hwhole : DigitRun whole)
    (hfraction : DigitRun fraction) : readUnsigned (whole ++ point :: fraction) =
      some (decimalValue whole + decimalValue fraction / 10 ^ fraction.length : ℚ) := by
  have htake := takeWhile_digits hwhole.digits (noDigit_point fraction)
  have hdrop := dropWhile_digits hwhole.digits (noDigit_point fraction)
  have hall : fraction.all isDigit = true := List.all_eq_true.mpr hfraction.digits
  simp only [readUnsigned, htake, hdrop, if_neg hwhole.ne_nil]
  exact if_pos ⟨trivial, hfraction.ne_nil, hall⟩

/-- The whole part and the one digit after the point. -/
theorem whole_add_tenth (n : ℕ) : ((n / 10 : ℕ) + (n % 10 : ℕ) / 10 : ℚ) = n / 10 := by
  have hsplit : ((10 * (n / 10) + n % 10 : ℕ) : ℚ) = n := by rw [Nat.div_add_mod]
  push_cast at hsplit
  rw [← hsplit]
  ring

/-- What `append_decimal` writes is the number of tenths it was given, sign included. -/
theorem readDecimal_decimalText (val : ℤ) :
    readDecimal (decimalText val 10) = some (val / 10 : ℚ) := by
  obtain ⟨n, hn⟩ : ∃ n, val.natAbs = n := ⟨_, rfl⟩
  have hlength : (decimal (n % 10)).length = 1 := by
    have hle : (decimal (n % 10)).length ≤ 1 := length_decimal_le one_pos (by omega)
    have hpos := List.length_pos_of_ne_nil (decimal_run (n % 10)).ne_nil
    omega
  have hunsigned : readUnsigned (decimal (n / 10) ++ point :: decimal (n % 10)) =
      some (n / 10 : ℚ) := by
    rw [readUnsigned_point (decimal_run _) (decimal_run _), decimalValue_decimal,
      decimalValue_decimal, hlength, pow_one, whole_add_tenth]
  rw [decimalText, hn]
  split
  · rename_i hneg
    have hint : val = -(n : ℤ) := by omega
    have hval : (val : ℚ) = -n := by exact_mod_cast hint
    rw [List.singleton_append, readDecimal, List.head?_cons, if_pos rfl, List.tail_cons, hunsigned,
      Option.map_some, hval, neg_div]
  · rename_i hpos
    have hint : val = (n : ℤ) := by omega
    have hval : (val : ℚ) = n := by exact_mod_cast hint
    rw [readDecimal, List.nil_append, if_neg (head?_decimal_ne _ _), hunsigned, hval]

/-- Texts that are no numerals. -/
example : ∀ text ∈ ["", "-", ".", ".5", "5.", "5 C"], (readDecimal (ascii text)).isNone := by decide

/-! ## The lines -/

theorem length_decimalText {val : ℤ} {k : ℕ} (hk : 0 < k) (h : val.natAbs / 10 < 10 ^ k) :
    (decimalText val 10).length ≤ k + 3 := by
  have hwhole : (decimal (val.natAbs / 10)).length ≤ k := length_decimal_le hk h
  have htenth : (decimal (val.natAbs % 10)).length ≤ 1 := length_decimal_le one_pos (by omega)
  have hsign : (if val < 0 then [minusSign] else []).length ≤ 1 := by split <;> simp
  simp only [decimalText, List.length_append, List.length_cons]
  omega

theorem decimalLine_eq (label unit : List UInt8) (val : ℤ) (hval : val.natAbs < 10 ^ 5)
    (hroom : label.length + unit.length ≤ 16) :
    decimalLine label unit val = some (label ++ decimalText val 10 ++ unit ++ [0]) ∧
      (label ++ decimalText val 10 ++ unit).length < lineSize := by
  have hlen : (decimalText val 10).length ≤ 7 := length_decimalText (k := 4) (by omega) (by omega)
  have hfits : (label ++ decimalText val 10 ++ unit).length < lineSize := by
    simp only [List.length_append, lineSize]
    omega
  refine ⟨?_, hfits⟩
  have hnul := put_eq hfits 0
  simp only [List.length_append] at hfits
  rw [decimalLine, appendStr_eq (by rw [List.length_nil]; omega), Option.bind_some,
    List.nil_append, appendDecimal_eq (hval.trans (by decide)) (by omega), Option.bind_some,
    appendStr_eq (by rw [List.length_append]; omega), Option.bind_some, hnul]

theorem drawn_eq {text : List UInt8} (h : 0 ∉ text) : drawn (text ++ [0]) = text := by
  have hkept : ∀ c ∈ text, (decide (c ≠ 0)) = true := by
    intro c hc
    apply decide_eq_true
    rintro rfl
    exact h hc
  rw [drawn, List.takeWhile_append_of_pos hkept]
  simp

theorem zero_notMem_decimal (v : ℕ) : 0 ∉ decimal v :=
  fun h ↦ absurd ((decimal_run v).digits 0 h) (by decide)

theorem zero_notMem_decimalText (val : ℤ) (divisor : ℕ) : 0 ∉ decimalText val divisor := by
  have hsign : 0 ∉ (if val < 0 then [minusSign] else []) := by
    split <;> decide
  have hpoint : (0 : UInt8) ≠ point := by decide
  simp only [decimalText, List.mem_append, List.mem_cons, not_or]
  exact ⟨hsign, zero_notMem_decimal _, hpoint, zero_notMem_decimal _⟩

theorem drawn_decimalLine {label unit : List UInt8} (val : ℤ) (hlabel : 0 ∉ label)
    (hunit : 0 ∉ unit) : drawn (label ++ decimalText val 10 ++ unit ++ [0]) =
      label ++ decimalText val 10 ++ unit := by
  apply drawn_eq
  simp only [List.mem_append, not_or]
  exact ⟨⟨hlabel, zero_notMem_decimalText val 10⟩, hunit⟩

theorem moistureLine_eq (reading : SensorReading) :
    moistureLine reading =
        some (ascii "Moist: " ++ decimal reading.moistureRaw.toNat ++ [0]) ∧
      (ascii "Moist: " ++ decimal reading.moistureRaw.toNat).length < lineSize := by
  have hlt := reading.moistureRaw.toNat_lt
  have hlen : (decimal reading.moistureRaw.toNat).length ≤ 5 :=
    length_decimal_le (by norm_num) (by omega)
  have hlabel : (ascii "Moist: ").length = 7 := by decide
  have hfits : (ascii "Moist: " ++ decimal reading.moistureRaw.toNat).length < lineSize := by
    rw [List.length_append, hlabel, lineSize]
    omega
  refine ⟨?_, hfits⟩
  have hnul := put_eq hfits 0
  simp only [List.length_append] at hfits
  rw [moistureLine, appendStr_eq (by rw [List.length_nil]; omega), Option.bind_some,
    List.nil_append, appendUint_eq (hlt.trans (by decide)) (by omega), Option.bind_some, hnul]

/-- What the screen shows for a valid reading. -/
def screen (reading : SensorReading) : List (ℕ × List UInt8) :=
  [(30, ascii "Temp: " ++ decimalText reading.temperatureCx10.toInt 10 ++ ascii " C"),
    (46, ascii "Hum:  " ++ decimalText reading.humidityRx10.toNat 10 ++ ascii " %"),
    (62, ascii "Moist: " ++ decimal reading.moistureRaw.toNat)]

theorem displaySensorReadings_eq {reading : SensorReading} (hvalid : reading.valid = true) :
    displaySensorReadings (some reading) = some (screen reading) ∧
      ∀ x ∈ screen reading, x.2.length + 1 ≤ lineSize := by
  have hlow := reading.temperatureCx10.le_toInt
  have hhigh := reading.temperatureCx10.toInt_lt
  have hhumid := reading.humidityRx10.toNat_lt
  have htemperature := decimalLine_eq (ascii "Temp: ") (ascii " C")
    reading.temperatureCx10.toInt (by omega) (by decide)
  have hhumidity := decimalLine_eq (ascii "Hum:  ") (ascii " %")
    reading.humidityRx10.toNat (by omega) (by decide)
  have hmoisture := moistureLine_eq reading
  constructor
  · have hlabel : 0 ∉ ascii "Moist: " := by decide
    have hdrawn : drawn (ascii "Moist: " ++ decimal reading.moistureRaw.toNat ++ [0]) =
        ascii "Moist: " ++ decimal reading.moistureRaw.toNat := by
      apply drawn_eq
      simp only [List.mem_append, not_or]
      exact ⟨hlabel, zero_notMem_decimal _⟩
    rw [displaySensorReadings, hvalid, if_neg (by decide), temperatureLine, htemperature.1,
      Option.bind_some, humidityLine, hhumidity.1, Option.bind_some, hmoisture.1, Option.map_some,
      drawn_decimalLine _ (by decide) (by decide), drawn_decimalLine _ (by decide) (by decide),
      hdrawn, screen]
  · simp only [screen, List.forall_mem_cons]
    exact ⟨htemperature.2, hhumidity.2, hmoisture.2, by simp⟩

/-- What is drawn for a valid reading fits its lines and shows decimal numerals of the integers of
the JSON that is sent for it. -/
theorem screen_agrees_with_wire (reading : SensorReading) (hvalid : reading.valid = true) :
    ∃ temperature humidity moisture wire members,
      displaySensorReadings (some reading) =
        some [(30, ascii "Temp: " ++ temperature ++ ascii " C"),
          (46, ascii "Hum:  " ++ humidity ++ ascii " %"), (62, ascii "Moist: " ++ moisture)] ∧
      (ascii "Temp: " ++ temperature ++ ascii " C").length + 1 ≤ lineSize ∧
      (ascii "Hum:  " ++ humidity ++ ascii " %").length + 1 ≤ lineSize ∧
      (ascii "Moist: " ++ moisture).length + 1 ≤ lineSize ∧
      serialise reading = some wire ∧ Json.loads wire = some (.object members) ∧
      (∃ n, n = reading.temperatureCx10.toInt ∧
        (Json.points (ascii "temperature"), .int n) ∈ members ∧
          readDecimal temperature = some (n / 10 : ℚ)) ∧
      (∃ n : ℕ, n = reading.humidityRx10.toNat ∧
        (Json.points (ascii "humidity"), .int n) ∈ members ∧
          readDecimal humidity = some (n / 10 : ℚ)) ∧
      ∃ n : ℕ, n = reading.moistureRaw.toNat ∧
        (Json.points (ascii "moisture"), .int n) ∈ members ∧
          readDecimal moisture = some (n : ℚ) := by
  obtain ⟨hdrawn, hfits⟩ := displaySensorReadings_eq hvalid
  simp only [screen, List.forall_mem_cons] at hfits
  obtain ⟨htemperature, hhumidity, hmoisture, -⟩ := hfits
  refine ⟨_, _, _, _, _, hdrawn, htemperature, hhumidity, hmoisture, serialise_eq reading,
    loads_readingText reading, ⟨_, rfl, by simp, readDecimal_decimalText _⟩,
    ⟨_, rfl, by simp, ?_⟩, _, rfl, by simp, readDecimal_decimal _⟩
  rw [readDecimal_decimalText]
  push_cast
  rfl

/-- A reading just below zero. -/
def frosty : SensorReading := ⟨512, -5, 455, 1700000000, 0, true⟩

theorem screen_agrees_with_wire_frosty :
    displaySensorReadings (some frosty) =
        some [(30, ascii "Temp: -0.5 C"), (46, ascii "Hum:  45.5 %"), (62, ascii "Moist: 512")] ∧
      ∃ wire, serialise frosty = some wire := by
  obtain ⟨temperature, humidity, moisture, wire, members, hdrawn, -, -, -, hwire, -⟩ :=
    screen_agrees_with_wire frosty rfl
  have hshown : displaySensorReadings (some frosty) = some (screen frosty) :=
    (displaySensorReadings_eq rfl).1
  refine ⟨?_, wire, hwire⟩
  rw [hshown]
  decide

end PlantNode.Display
