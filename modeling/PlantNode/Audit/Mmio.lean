import PlantNode.Audit.Firmware
import Mathlib.Order.Interval.Set.Disjoint

/-!
# Exclusive MMIO

The holders of a region are found by comparing the start and the length of an import
with those of the region.
-/

namespace PlantNode.Audit

def i2c0Start : ℕ := 2149580800
def i2c0Length : ℕ := 128
def gpioStart : ℕ := 2147483648
def gpioLength : ℕ := 16

def isMmio (start length : ℕ) (imp : Import) : Bool :=
  decide (imp.kind = .Mmio ∧ imp.start = some start ∧ imp.length = some length)

def i2c0MmioHolders (fw : Firmware) : Finset String := fw.holders (isMmio i2c0Start i2c0Length)

def prop1Pass (fw : Firmware) : Bool := decide (i2c0MmioHolders fw = {"i2c_driver"})

def gpioHolders (fw : Firmware) : Finset String := fw.holders (isMmio gpioStart gpioLength)

def propAPass (fw : Firmware) : Bool := decide (gpioHolders fw = {"pump_driver"})

/-! ## What the audit is for -/

def addressRange (start length : ℕ) : Set ℕ := Set.Ico start (start + length)

/-- The addresses that an import reaches as memory-mapped registers. -/
def Import.addresses (imp : Import) : Set ℕ :=
  match imp.kind, imp.start, imp.length with
  | .Mmio, some start, some length => addressRange start length
  | _, _, _ => ∅

/-- No compartment but the owner reaches into the range. -/
def Exclusive (fw : Firmware) (owner : String) (start length : ℕ) : Prop :=
  ∀ name imp, (name, imp) ∈ fw.imports → name ≠ owner →
    ∀ address ∈ imp.addresses, address ∉ addressRange start length

/-- An import of registers from another start or of another length than the range, which begins
before the end of the range and ends behind its start. -/
def Import.overlaps (start length : ℕ) (imp : Import) : Bool :=
  match imp.kind, imp.start, imp.length with
  | .Mmio, some s, some l =>
      decide ((s ≠ start ∨ l ≠ length) ∧ 0 < l ∧ s < start + length ∧ start < s + l)
  | _, _, _ => false

/-- No other compartment imports such registers. -/
def NoPartialOverlap (fw : Firmware) (owner : String) (start length : ℕ) : Prop :=
  ∀ name imp, (name, imp) ∈ fw.imports → name ≠ owner → imp.overlaps start length = false

variable {fw : Firmware} {owner : String} {start length s l : ℕ} {imp : Import}

/-! ## Ranges -/

/-- Of two ranges that are not empty, one ends before the other begins, or they meet. -/
theorem addressRange_apart (hlength : 0 < length) :
    (∀ address ∈ addressRange s l, address ∉ addressRange start length) ↔
      l = 0 ∨ s + l ≤ start ∨ start + length ≤ s := by
  rw [← Set.disjoint_left, addressRange, addressRange, Set.Ico_disjoint_Ico]
  constructor
  · intro h
    rcases Nat.eq_zero_or_pos l with hzero | hpos
    · exact .inl hzero
    rcases le_max_iff.mp h with hs | hstart
    · exact .inr (.inr ((min_le_iff.mp hs).resolve_left (by omega)))
    · exact .inr (.inl ((min_le_iff.mp hstart).resolve_right (by omega)))
  · rintro (rfl | hbefore | hbehind)
    · exact (min_le_left _ _).trans (le_max_left _ _)
    · exact (min_le_left _ _).trans (hbefore.trans (le_max_right _ _))
    · exact (min_le_right _ _).trans (hbehind.trans (le_max_left _ _))

theorem isMmio_iff : isMmio start length imp = true ↔
    imp.kind = .Mmio ∧ imp.start = some start ∧ imp.length = some length :=
  decide_eq_true_iff

theorem Import.addresses_mmio (hkind : imp.kind = .Mmio) (hs : imp.start = some s)
    (hl : imp.length = some l) : imp.addresses = addressRange s l := by
  simp only [addresses, hkind, hs, hl]

theorem Import.overlaps_mmio (hkind : imp.kind = .Mmio) (hs : imp.start = some s)
    (hl : imp.length = some l) : imp.overlaps start length = true ↔
      (s ≠ start ∨ l ≠ length) ∧ 0 < l ∧ s < start + length ∧ start < s + l := by
  simp only [overlaps, hkind, hs, hl, decide_eq_true_iff]

/-- An import that says nothing of registers reaches none. -/
theorem Import.mmio_or_silent (imp : Import) :
    (∃ s l, imp.kind = .Mmio ∧ imp.start = some s ∧ imp.length = some l) ∨
      imp.addresses = ∅ ∧ imp.overlaps start length = false ∧ isMmio start length imp = false := by
  rcases imp with ⟨kind, s, l, contents, sealingType, providedBy⟩
  cases kind with
  | Mmio =>
      cases s with
      | none => exact .inr ⟨rfl, rfl, by simp [isMmio]⟩
      | some s =>
          cases l with
          | none => exact .inr ⟨rfl, rfl, by simp [isMmio]⟩
          | some l => exact .inl ⟨s, l, rfl, rfl, rfl⟩
  | _ => exact .inr ⟨rfl, rfl, by simp [isMmio]⟩

/-- An import misses the range exactly if it is neither the range itself nor one that overlaps
it. -/
theorem Import.misses_iff (hlength : 0 < length) :
    (∀ address ∈ imp.addresses, address ∉ addressRange start length) ↔
      isMmio start length imp = false ∧ imp.overlaps start length = false := by
  rcases imp.mmio_or_silent with ⟨s, l, hkind, hs, hl⟩ | ⟨hnone, hoverlaps, hexact⟩
  · rw [addresses_mmio hkind hs hl, addressRange_apart hlength, Bool.eq_false_iff,
      Bool.eq_false_iff, ne_eq, isMmio_iff, ne_eq, overlaps_mmio hkind hs hl]
    simp only [hkind, hs, hl, true_and, Option.some.injEq]
    constructor
    · intro hapart
      exact ⟨by omega, by omega⟩
    · rintro ⟨hexact, hoverlaps⟩
      omega
  · rw [hnone]
    exact ⟨fun _ ↦ ⟨hexact, hoverlaps⟩, fun _ address haddress ↦ absurd haddress (by simp)⟩

/-! ## The audits -/

/-- What the comparison does establish. -/
theorem holders_isMmio : fw.holders (isMmio start length) = {owner} ↔
    (∃ imp, (owner, imp) ∈ fw.imports ∧ isMmio start length imp = true) ∧
      ∀ name imp, (name, imp) ∈ fw.imports → name ≠ owner → isMmio start length imp = false := by
  rw [Firmware.holders_eq_singleton]
  refine and_congr_right fun _ ↦ ⟨fun h name imp himp hne ↦ ?_, fun h name imp himp hexact ↦ ?_⟩
  · exact Bool.eq_false_iff.mpr fun hexact ↦ hne (h name imp himp hexact)
  · by_contra hne
    rw [h name imp himp hne] at hexact
    cases hexact

/-- An image in which no other compartment imports exactly the range is exclusive if nothing
overlaps it, and only then. -/
theorem exclusive_iff (hlength : 0 < length)
    (hpass : fw.holders (isMmio start length) = {owner}) :
    Exclusive fw owner start length ↔ NoPartialOverlap fw owner start length := by
  obtain ⟨-, hothers⟩ := holders_isMmio.mp hpass
  constructor
  · intro h name imp himp hne
    exact ((Import.misses_iff hlength).mp (h name imp himp hne)).2
  · intro h name imp himp hne
    exact (Import.misses_iff hlength).mpr ⟨hothers name imp himp hne, h name imp himp hne⟩

theorem prop1Pass_iff :
    prop1Pass fw = true ↔ fw.holders (isMmio i2c0Start i2c0Length) = {"i2c_driver"} :=
  decide_eq_true_iff

theorem propAPass_iff :
    propAPass fw = true ↔ fw.holders (isMmio gpioStart gpioLength) = {"pump_driver"} :=
  decide_eq_true_iff

/-- Where no MMIO import of another compartment overlaps the two ranges without being one of
them, both audits are sound; an image that passes and has such an import is not exclusive. -/
theorem mmio_audit_sound (fw : Firmware) :
    (NoPartialOverlap fw "i2c_driver" i2c0Start i2c0Length → prop1Pass fw = true →
        Exclusive fw "i2c_driver" i2c0Start i2c0Length) ∧
      (NoPartialOverlap fw "pump_driver" gpioStart gpioLength → propAPass fw = true →
        Exclusive fw "pump_driver" gpioStart gpioLength) ∧
      (prop1Pass fw = true → Exclusive fw "i2c_driver" i2c0Start i2c0Length →
        NoPartialOverlap fw "i2c_driver" i2c0Start i2c0Length) ∧
      (propAPass fw = true → Exclusive fw "pump_driver" gpioStart gpioLength →
        NoPartialOverlap fw "pump_driver" gpioStart gpioLength) := by
  have hbus : 0 < i2c0Length := by decide
  have hpump : 0 < gpioLength := by decide
  rw [prop1Pass_iff, propAPass_iff]
  refine ⟨fun hapart hpass ↦ ?_, fun hapart hpass ↦ ?_, fun hpass hexclusive ↦ ?_,
    fun hpass hexclusive ↦ ?_⟩
  · exact (exclusive_iff hbus hpass).mpr hapart
  · exact (exclusive_iff hpump hpass).mpr hapart
  · exact (exclusive_iff hbus hpass).mp hexclusive
  · exact (exclusive_iff hpump hpass).mp hexclusive

/-- An image in which telemetry imports the registers right behind those of the bus. -/
def neighbourImport : Firmware where
  compartments := [
    ("i2c_driver", { exports := [], imports := [
      { kind := .Mmio, start := some i2c0Start, length := some i2c0Length }] }),
    ("pump_driver", { exports := [], imports := [
      { kind := .Mmio, start := some gpioStart, length := some gpioLength }] }),
    ("telemetry", { exports := [], imports := [
      { kind := .Mmio, start := some (i2c0Start + i2c0Length), length := some i2c0Length }] })]
  nodup := by decide

theorem mmio_audit_sound_neighbour : prop1Pass neighbourImport = true ∧
    Exclusive neighbourImport "i2c_driver" i2c0Start i2c0Length := by
  have hpass : prop1Pass neighbourImport = true := by decide +kernel
  have hall : (neighbourImport.imports.all fun x ↦
      x.1 == "i2c_driver" || !x.2.overlaps i2c0Start i2c0Length) = true := by decide +kernel
  refine ⟨hpass, (mmio_audit_sound neighbourImport).1 (fun name imp himp hne ↦ ?_) hpass⟩
  have hboth := List.all_eq_true.mp hall (name, imp) himp
  simpa [hne] using hboth

/-- An image in which telemetry imports twice the registers of the bus. -/
def widenedImport : Firmware where
  compartments := [
    ("i2c_driver", { exports := [], imports := [
      { kind := .Mmio, start := some i2c0Start, length := some i2c0Length }] }),
    ("telemetry", { exports := [], imports := [
      { kind := .Mmio, start := some i2c0Start, length := some (2 * i2c0Length) }] })]
  nodup := by decide

theorem mmio_audit_unsound : prop1Pass widenedImport = true ∧
    ¬Exclusive widenedImport "i2c_driver" i2c0Start i2c0Length := by
  refine ⟨by decide +kernel, fun h ↦ ?_⟩
  have hwide : i2c0Start ∈ addressRange i2c0Start (2 * i2c0Length) :=
    Set.mem_Ico.mpr ⟨le_refl _, by decide⟩
  have hbus : i2c0Start ∈ addressRange i2c0Start i2c0Length :=
    Set.mem_Ico.mpr ⟨le_refl _, by decide⟩
  exact h "telemetry" { kind := .Mmio, start := some i2c0Start, length := some (2 * i2c0Length) }
    (by decide +kernel) (by decide) i2c0Start hwide hbus

end PlantNode.Audit
