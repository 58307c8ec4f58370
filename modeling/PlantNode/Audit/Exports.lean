import PlantNode.Audit.Firmware
import Mathlib.Data.Finset.Card
import Mathlib.Data.List.Infix
import Mathlib.Data.List.Perm.Subperm

/-!
# The exports of the crypto compartment

An export is recognised by a name that its symbol contains, and the exports are counted.
-/

namespace PlantNode.Audit

def cryptoExportNames : List String := ["crypto_init_session", "crypto_encrypt", "crypto_decrypt"]

def cryptoExportMatches (symbol : String) : Bool :=
  cryptoExportNames.any fun name ↦ decide (name.toList <:+: symbol.toList)

def unmatchedCryptoExports (fw : Firmware) : Finset String :=
  (((fw.exportsOf "crypto").filter fun e ↦ !cryptoExportMatches e.exportSymbol).map
    Export.exportSymbol).toFinset

def nonFunctionCryptoExports (fw : Firmware) : Finset String :=
  (((fw.exportsOf "crypto").filter fun e ↦ e.kind ≠ .Function).map Export.exportSymbol).toFinset

def propEPass (fw : Firmware) : Bool :=
  decide ((fw.exportsOf "crypto").length = 3) && decide ((unmatchedCryptoExports fw).card = 0) &&
    decide ((nonFunctionCryptoExports fw).card = 0)

/-! ## What the audit is for -/

/-- What is written before and after the name of a function in its symbol. -/
structure Mangling where
  before : String → String
  after : String → String

def Mangling.symbol (m : Mangling) (name : String) : String := m.before name ++ name ++ m.after name

structure ExportedFunction where
  name : String
  kind : ExportKind

def ExportedFunction.toExport (m : Mangling) (f : ExportedFunction) : Export :=
  ⟨m.symbol f.name, f.kind⟩

/-- No function name is a part of the mangling. -/
def Mangling.Clean (m : Mangling) (functions : List ExportedFunction) : Prop :=
  ∀ f ∈ functions, ∀ g ∈ functions, ¬f.name.toList <:+: (m.before g.name).toList ∧
    ¬f.name.toList <:+: (m.after g.name).toList

instance (m : Mangling) (functions : List ExportedFunction) : Decidable (m.Clean functions) :=
  inferInstanceAs (Decidable (∀ f ∈ functions, ∀ g ∈ functions, _ ∧ _))

/-- Each of the three entry points once, and nothing else. -/
def ExactlyIntended (functions : List ExportedFunction) : Prop :=
  (functions.map ExportedFunction.name).Perm cryptoExportNames ∧
    ∀ f ∈ functions, f.kind = .Function

/-- Three functions whose symbols all contain an intended name, although one of the
functions is exported twice or has another name. -/
def Mistaken (m : Mangling) (functions : List ExportedFunction) : Prop :=
  functions.length = 3 ∧
    (∀ f ∈ functions, f.kind = .Function ∧ cryptoExportMatches (m.symbol f.name) = true) ∧
      (¬(functions.map ExportedFunction.name).Nodup ∨ ∃ f ∈ functions, f.name ∉ cryptoExportNames)

variable {fw : Firmware} {m : Mangling} {functions : List ExportedFunction}

theorem propEPass_iff : propEPass fw = true ↔
    (fw.exportsOf "crypto").length = 3 ∧ ∀ e ∈ fw.exportsOf "crypto",
      e.kind = .Function ∧ cryptoExportMatches e.exportSymbol = true := by
  have hunmatched : unmatchedCryptoExports fw = ∅ ↔
      ∀ e ∈ fw.exportsOf "crypto", cryptoExportMatches e.exportSymbol = true := by
    simp [unmatchedCryptoExports, List.filter_eq_nil_iff]
  have hkinds : nonFunctionCryptoExports fw = ∅ ↔
      ∀ e ∈ fw.exportsOf "crypto", e.kind = .Function := by
    simp [nonFunctionCryptoExports, List.filter_eq_nil_iff]
  simp only [propEPass, Bool.and_eq_true, decide_eq_true_eq, Finset.card_eq_zero, hunmatched,
    hkinds, and_assoc]
  exact and_congr_right fun _ ↦ ⟨fun ⟨hmatch, hkind⟩ e he ↦ ⟨hkind e he, hmatch e he⟩,
    fun h ↦ ⟨fun e he ↦ (h e he).2, fun e he ↦ (h e he).1⟩⟩

theorem cryptoExportMatches_symbol {name : String} (h : name ∈ cryptoExportNames) :
    cryptoExportMatches (m.symbol name) = true := by
  refine List.any_eq_true.mpr ⟨name, h, decide_eq_true ?_⟩
  rw [Mangling.symbol, String.toList_append, String.toList_append]
  exact List.infix_append _ _ _

/-- The intended exports pass. -/
theorem ExactlyIntended.pass (h : ExactlyIntended functions)
    (hexports : fw.exportsOf "crypto" = functions.map (ExportedFunction.toExport m)) :
    propEPass fw = true := by
  have hlen := h.1.length_eq
  rw [List.length_map] at hlen
  rw [propEPass_iff, hexports, List.length_map, List.forall_mem_map]
  refine ⟨hlen, fun f hf ↦ ⟨h.2 f hf, cryptoExportMatches_symbol (m := m) ?_⟩⟩
  exact h.1.mem_iff.mp (List.mem_map_of_mem hf)

/-- Three distinct names among three are all of them. -/
theorem perm_cryptoExportNames {names : List String} (hlen : names.length = 3)
    (hnodup : names.Nodup) (hsub : names ⊆ cryptoExportNames) : names.Perm cryptoExportNames :=
  (hnodup.subperm hsub).perm_of_length_le hlen.ge

/-- The audit recognises the intended exports in every list that it does not mistake for
them, and in no other. -/
theorem crypto_exports_exact (fw : Firmware) (m : Mangling) (functions : List ExportedFunction)
    (hexports : fw.exportsOf "crypto" = functions.map (ExportedFunction.toExport m)) :
    (propEPass fw = true ↔ ExactlyIntended functions) ↔ ¬Mistaken m functions := by
  have hpass : propEPass fw = true ↔ functions.length = 3 ∧
      ∀ f ∈ functions, f.kind = .Function ∧ cryptoExportMatches (m.symbol f.name) = true := by
    rw [propEPass_iff, hexports, List.length_map, List.forall_mem_map]
    rfl
  constructor
  · rintro hiff ⟨hlen, hall, hbad⟩
    obtain ⟨hperm, -⟩ := hiff.mp (hpass.mpr ⟨hlen, hall⟩)
    rcases hbad with hdup | ⟨f, hf, hname⟩
    · exact hdup (hperm.nodup_iff.mpr (by decide))
    · exact hname (hperm.mem_iff.mp (List.mem_map_of_mem hf))
  · refine fun hgood ↦ ⟨fun h ↦ ?_, fun h ↦ h.pass hexports⟩
    obtain ⟨hlen, hall⟩ := hpass.mp h
    have hnodup : (functions.map ExportedFunction.name).Nodup := by
      by_contra hdup
      exact hgood ⟨hlen, hall, .inl hdup⟩
    have hsub : functions.map ExportedFunction.name ⊆ cryptoExportNames := by
      intro name hname
      obtain ⟨f, hf, rfl⟩ := List.mem_map.mp hname
      by_contra hforeign
      exact hgood ⟨hlen, hall, .inr ⟨f, hf, hforeign⟩⟩
    exact ⟨perm_cryptoExportNames (by rw [List.length_map, hlen]) hnodup hsub,
      fun f hf ↦ (hall f hf).1⟩

def exportImage (m : Mangling) (functions : List ExportedFunction) : Firmware where
  compartments :=
    [("crypto", { imports := [], exports := functions.map (ExportedFunction.toExport m) })]
  nodup := List.nodup_singleton _

def plainMangling : Mangling := ⟨fun _ ↦ "__export_crypto__", fun _ ↦ ""⟩

theorem crypto_exports_exact_intended :
    let functions := cryptoExportNames.map fun name ↦ ExportedFunction.mk name .Function
    propEPass (exportImage plainMangling functions) = true ↔ ExactlyIntended functions := by
  intro functions
  refine (crypto_exports_exact (exportImage plainMangling functions) plainMangling functions
    rfl).mpr ?_
  rintro ⟨-, -, hdup | ⟨f, hf, hname⟩⟩
  · exact hdup (by decide)
  · obtain ⟨name, hmem, rfl⟩ := List.mem_map.mp hf
    exact hname hmem

/-- A function that hands out the key under a longer name passes for `crypto_decrypt`. -/
theorem crypto_exports_key_accessor :
    let functions := [⟨"crypto_init_session", .Function⟩, ⟨"crypto_encrypt", .Function⟩,
      ⟨"crypto_decrypt_key", .Function⟩]
    plainMangling.Clean functions ∧ propEPass (exportImage plainMangling functions) = true ∧
      ¬ExactlyIntended functions := by
  refine ⟨by decide +kernel, by decide +kernel, fun h ↦ ?_⟩
  have hmem := (h.1.mem_iff (a := "crypto_decrypt_key")).mp (by decide)
  exact absurd hmem (by decide)

end PlantNode.Audit
