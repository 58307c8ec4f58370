import PlantNode.Audit.Mmio
import PlantNode.Driver.Types
import PlantNode.Foundation.Hex
import PlantNode.Foundation.LittleEndian
import PlantNode.Foundation.Rules
import Mathlib.Data.Finset.Card

/-!
# Sealed device capabilities

Which compartments hold a capability of the I2C driver, and what its contents grant.
-/

namespace PlantNode.Audit

open Foundation Driver

def isI2cSealed (imp : Import) : Bool :=
  decide (imp.kind = .SealedObject ∧ imp.sealingType = some ⟨"I2CDeviceKey", "i2c_driver"⟩)

def i2cDriverExportsSealingKey (fw : Firmware) : Bool :=
  (fw.exportsOf "i2c_driver").any fun e ↦
    decide (e.exportSymbol = "__export.sealing_type.i2c_driver.I2CDeviceKey" ∧
      e.kind = .SealingKey)

def i2cSealedObjectHolders (fw : Firmware) : Finset String := fw.holders isI2cSealed

def prop2Pass (fw : Firmware) : Bool :=
  i2cDriverExportsSealingKey fw && decide ((i2cSealedObjectHolders fw).card = 2)

/-- The contents of the capabilities of one compartment, as a complete rule. -/
def capContents (fw : Firmware) (name : String) : Outcome String :=
  completeRule (((fw.importsOf name).filter isI2cSealed).filterMap Import.contents)

def moistureCapContents (fw : Firmware) : Outcome String := capContents fw "moisture_sensor"

def temperatureCapContents (fw : Firmware) : Outcome String := capContents fw "temperature_sensor"

def addressHex (contents : String) : List Char := lower (substring contents.toList 0 2)

def prop3Pass (fw : Firmware) : Bool :=
  (moistureCapContents fw).satisfies (fun c ↦ decide (addressHex c = "36".toList)) &&
    (temperatureCapContents fw).satisfies (fun c ↦ decide (addressHex c = "38".toList)) &&
      decide (i2cSealedObjectHolders fw = {"moisture_sensor", "temperature_sensor"})

def authorizedI2cCompartments : Finset String :=
  {"i2c_driver", "moisture_sensor", "temperature_sensor"}

def otherAppCompartments (fw : Firmware) : Finset String :=
  ((fw.compartments.map Prod.fst).filter fun name ↦ name ∉ authorizedI2cCompartments).toFinset

def otherWithI2cMmio (fw : Firmware) : Finset String :=
  (otherAppCompartments fw).filter fun name ↦ name ∈ i2c0MmioHolders fw

def otherWithI2cSealed (fw : Firmware) : Finset String :=
  (otherAppCompartments fw).filter fun name ↦ name ∈ i2cSealedObjectHolders fw

def prop4Pass (fw : Firmware) : Bool :=
  decide ((otherWithI2cMmio fw).card = 0) && decide ((otherWithI2cSealed fw).card = 0)

def i2cSealedContents (fw : Firmware) : Outcome (Finset (String × String)) :=
  objectOf ((fw.imports.filter fun x ↦ isI2cSealed x.2).filterMap fun x ↦
    x.2.contents.map fun c ↦ (x.1, c))

def maxBatchMsHexLe (contents : String) : List Char := lower (substring contents.toList 13 4)

def zeroMaxBatchMsHolders (fw : Firmware) : Outcome (Finset String) :=
  (i2cSealedContents fw).map fun object ↦
    (object.filter fun x ↦ maxBatchMsHexLe x.2 = "0000".toList).image Prod.fst

def prop5Pass (fw : Firmware) : Bool :=
  (zeroMaxBatchMsHolders fw).satisfies (fun holders ↦ decide (holders.card = 0)) &&
    (moistureCapContents fw).satisfies (fun c ↦ decide (maxBatchMsHexLe c = "1400".toList)) &&
      (temperatureCapContents fw).satisfies fun c ↦ decide (maxBatchMsHexLe c = "9600".toList)

/-! ## What the contents grant -/

/-- The bytes of `struct I2CDeviceCap`; one byte before `maxTransferLen` is padding. -/
def capBytes (cap : I2CDeviceCap) (padding : UInt8) : List UInt8 :=
  [cap.address, cap.opsMask, cap.flags, padding] ++ toLE 2 cap.maxTransferLen.toNat ++
    toLE 2 cap.maxBatchMs.toNat ++ toLE 4 cap.maxLeaseMs.toNat

/-- The contents print the bytes of the capability, with hex digits of either case. -/
def Encodes (contents : String) (cap : I2CDeviceCap) : Prop :=
  ∃ padding, lower contents.toList = hexDump (capBytes cap padding)

variable {fw : Firmware} {name : String} {imp : Import} {contents : String} {cap : I2CDeviceCap}

theorem Encodes.address (h : Encodes contents cap) : addressHex contents = hexByte cap.address := by
  obtain ⟨padding, h⟩ := h
  rw [addressHex, lower_substring, h]
  exact substring_hexDump (capBytes cap padding) (i := 0) (by simp [capBytes])

theorem Encodes.maxBatchMs (h : Encodes contents cap) : maxBatchMsHexLe contents =
    hexByte (UInt8.ofNat cap.maxBatchMs.toNat) ++
      hexByte (UInt8.ofNat (cap.maxBatchMs.toNat / 256)) := by
  obtain ⟨padding, h⟩ := h
  have hlen : (capBytes cap padding).length = 12 := by simp [capBytes]
  have hlow := substring_hexDump (capBytes cap padding) (i := 6) (by rw [hlen]; norm_num)
  have hhigh := substring_hexDump (capBytes cap padding) (i := 7) (by rw [hlen]; norm_num)
  rw [maxBatchMsHexLe, lower_substring, h, substring_add _ 13 2 2]
  exact congrArg₂ _ hlow hhigh

theorem Encodes.address_eq (h : Encodes contents cap) {address : UInt8}
    (haddress : addressHex contents = hexByte address) : cap.address = address :=
  hexByte_injective (h.address.symm.trans haddress)

theorem Encodes.maxBatchMs_eq (h : Encodes contents cap) {ms : UInt16}
    (hms : maxBatchMsHexLe contents =
      hexByte (UInt8.ofNat ms.toNat) ++ hexByte (UInt8.ofNat (ms.toNat / 256))) :
    cap.maxBatchMs = ms := by
  obtain ⟨hlow, hhigh⟩ := List.append_inj (h.maxBatchMs.symm.trans hms) rfl
  have hbytes : toLE 2 cap.maxBatchMs.toNat = toLE 2 ms.toNat := by
    simp only [toLE, hexByte_injective hlow, hexByte_injective hhigh]
  have hvalue := congrArg ofLE hbytes
  rw [ofLE_toLE, ofLE_toLE] at hvalue
  have hcap := cap.maxBatchMs.toNat_lt
  have hms := ms.toNat_lt
  apply UInt16.toNat_inj.mp
  omega

/-! ## The audit -/

/-- Where a complete rule binds a value, it binds the contents of every capability of
the compartment: another one would conflict. -/
theorem capContents_eq {value : String} (hvalue : capContents fw name = .value value)
    (himp : (name, imp) ∈ fw.imports) (hsealed : isI2cSealed imp = true)
    (hcontents : imp.contents = some contents) : contents = value := by
  apply (completeRule_eq_value.mp hvalue).2 contents
  refine List.mem_filterMap.mpr ⟨imp, ?_, hcontents⟩
  exact List.mem_filter.mpr ⟨Firmware.mem_importsOf.mpr himp, hsealed⟩

theorem prop3Pass_iff : prop3Pass fw = true ↔
    ((∃ c, moistureCapContents fw = .value c ∧ addressHex c = "36".toList) ∧
      ∃ c, temperatureCapContents fw = .value c ∧ addressHex c = "38".toList) ∧
        i2cSealedObjectHolders fw = {"moisture_sensor", "temperature_sensor"} := by
  simp only [prop3Pass, Bool.and_eq_true, Outcome.satisfies_iff, decide_eq_true_eq]

theorem prop5Pass_contents (h : prop5Pass fw = true) :
    (∃ c, moistureCapContents fw = .value c ∧ maxBatchMsHexLe c = "1400".toList) ∧
      ∃ c, temperatureCapContents fw = .value c ∧ maxBatchMsHexLe c = "9600".toList := by
  simp only [prop5Pass, Bool.and_eq_true, Outcome.satisfies_iff, decide_eq_true_eq] at h
  exact ⟨h.1.2, h.2⟩

theorem not_authorized (h : name ∈ otherAppCompartments fw) :
    name ∉ authorizedI2cCompartments :=
  of_decide_eq_true (List.mem_filter.mp (List.mem_toFinset.mp h)).2

/-- The fourth property follows from the first and the third. -/
theorem prop4Pass_of_prop1_prop3 (h1 : prop1Pass fw = true) (h3 : prop3Pass fw = true) :
    prop4Pass fw = true := by
  have hmmio : i2c0MmioHolders fw = {"i2c_driver"} := prop1Pass_iff.mp h1
  have hsealed := (prop3Pass_iff.mp h3).2
  have hsome : otherWithI2cMmio fw = ∅ ∧ otherWithI2cSealed fw = ∅ := by
    rw [otherWithI2cMmio, otherWithI2cSealed, hmmio, hsealed]
    refine ⟨Finset.filter_eq_empty_iff.mpr ?_, Finset.filter_eq_empty_iff.mpr ?_⟩
    · intro name hname hmem
      rw [Finset.mem_singleton.mp hmem] at hname
      exact not_authorized hname (by decide)
    · intro name hname hmem
      have hsub : ({"moisture_sensor", "temperature_sensor"} : Finset String) ⊆
          authorizedI2cCompartments := by decide
      exact not_authorized hname (hsub hmem)
  simp [prop4Pass, hsome.1, hsome.2]

/-- What a passing audit says of one capability of the driver. -/
def Audited (name : String) (cap : I2CDeviceCap) : Prop :=
  (name = "moisture_sensor" ∧ cap.address = 0x36 ∧ cap.maxBatchMs = 20) ∨
    (name = "temperature_sensor" ∧ cap.address = 0x38 ∧ cap.maxBatchMs = 150)

theorem audited_of_contents {address ms : String} {a : UInt8} {m : UInt16}
    (hrule : ∃ c, capContents fw name = .value c ∧ addressHex c = address.toList)
    (hbatch : ∃ c, capContents fw name = .value c ∧ maxBatchMsHexLe c = ms.toList)
    (himp : (name, imp) ∈ fw.imports) (hsealed : isI2cSealed imp = true)
    (hcontents : imp.contents = some contents) (hcap : Encodes contents cap)
    (haddress : address.toList = hexByte a)
    (hms : ms.toList = hexByte (UInt8.ofNat m.toNat) ++ hexByte (UInt8.ofNat (m.toNat / 256))) :
    cap.address = a ∧ cap.maxBatchMs = m := by
  obtain ⟨c, hvalue, hc⟩ := hrule
  obtain ⟨c', hvalue', hc'⟩ := hbatch
  have heq := capContents_eq hvalue himp hsealed hcontents
  have heq' := capContents_eq hvalue' himp hsealed hcontents
  subst heq heq'
  exact ⟨hcap.address_eq (hc.trans haddress), hcap.maxBatchMs_eq (hc'.trans hms)⟩

/-- In an image that passes, each capability of the I2C driver is that of one of the two
sensors, and every one of them has a ceiling. -/
theorem sealed_caps_audited (fw : Firmware)
    (carried : ∀ name imp, (name, imp) ∈ fw.imports → imp.kind = .SealedObject →
      imp.contents.isSome = true)
    (pass : prop2Pass fw = true ∧ prop3Pass fw = true ∧ prop5Pass fw = true) :
    ∀ name imp, (name, imp) ∈ fw.imports → isI2cSealed imp = true →
      ∃ contents, imp.contents = some contents ∧
        ∀ cap, Encodes contents cap → Audited name cap ∧ cap.maxBatchMs ≠ 0 := by
  obtain ⟨-, h3, h5⟩ := pass
  obtain ⟨⟨hmoisture, htemperature⟩, hholders⟩ := prop3Pass_iff.mp h3
  obtain ⟨hmoistureMs, htemperatureMs⟩ := prop5Pass_contents h5
  intro name imp himp hsealed
  obtain ⟨contents, hcontents⟩ :=
    Option.isSome_iff_exists.mp (carried name imp himp (of_decide_eq_true hsealed).1)
  refine ⟨contents, hcontents, fun cap hcap ↦ ?_⟩
  have hname : name ∈ i2cSealedObjectHolders fw := Firmware.mem_holders.mpr ⟨imp, himp, hsealed⟩
  rw [hholders, Finset.mem_insert, Finset.mem_singleton] at hname
  rcases hname with rfl | rfl
  · obtain ⟨haddress, hms⟩ := audited_of_contents (a := 0x36) (m := 20) hmoisture hmoistureMs
      himp hsealed hcontents hcap (by decide) (by decide)
    exact ⟨.inl ⟨rfl, haddress, hms⟩, by rw [hms]; decide⟩
  · obtain ⟨haddress, hms⟩ := audited_of_contents (a := 0x38) (m := 150) htemperature
      htemperatureMs himp hsealed hcontents hcap (by decide) (by decide)
    exact ⟨.inr ⟨rfl, haddress, hms⟩, by rw [hms]; decide⟩

def sensorCap (contents : String) : Import where
  kind := .SealedObject
  contents := some contents
  sealingType := some ⟨"I2CDeviceKey", "i2c_driver"⟩

/-- An image with the two capabilities of the source. -/
def sensorImage : Firmware where
  compartments := [
    ("i2c_driver", { imports := [], exports := [
      ⟨"__export.sealing_type.i2c_driver.I2CDeviceKey", .SealingKey⟩] }),
    ("moisture_sensor", { imports := [sensorCap "36030000 08001400 00000000"], exports := [] }),
    ("temperature_sensor", { imports := [sensorCap "38030000 08009600 00000000"], exports := [] })]
  nodup := by decide

theorem sealed_caps_audited_sensors :
    Audited "moisture_sensor" ⟨0x36, 3, 0, 8, 20, 0⟩ ∧
      Audited "temperature_sensor" ⟨0x38, 3, 0, 8, 150, 0⟩ := by
  have haudited := sealed_caps_audited sensorImage
    (fun name imp himp _ ↦ by
      have hall : ∀ x ∈ sensorImage.imports, x.2.contents.isSome = true := by decide +kernel
      exact hall _ himp)
    (by decide +kernel)
  constructor
  · obtain ⟨contents, hcontents, hcaps⟩ := haudited "moisture_sensor"
      (sensorCap "36030000 08001400 00000000") (by decide +kernel) (by decide +kernel)
    cases Option.some.inj hcontents
    exact (hcaps _ ⟨0, by decide +kernel⟩).1
  · obtain ⟨contents, hcontents, hcaps⟩ := haudited "temperature_sensor"
      (sensorCap "38030000 08009600 00000000") (by decide +kernel) (by decide +kernel)
    cases Option.some.inj hcontents
    exact (hcaps _ ⟨0, by decide +kernel⟩).1

end PlantNode.Audit
