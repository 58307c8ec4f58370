import PlantNode.Audit.Firmware
import Mathlib.Data.Finset.Card

/-!
# Irrigation and the network

Calls into a network-facing compartment are found by the file that provides them.
-/

namespace PlantNode.Audit

def networkFacingCompartments : List String :=
  ["comms", "crypto", "attestation", "tpm", "TCPIP", "Firewall", "MQTT", "NetAPI", "SNTP", "TLS",
    "DNS", "telemetry", "display"]

def endsWith (path suffix : String) : Bool := decide (suffix.toList <:+ path.toList)

/-- The body of `irrigation_network_imports`. -/
def isNetworkImport (imp : Import) : Bool :=
  decide (imp.kind = .CompartmentExport) &&
    networkFacingCompartments.any fun name ↦
      imp.providedBy.any fun path ↦ endsWith path (name ++ ".compartment")

def irrigationNetworkImports (fw : Firmware) : Finset Import :=
  ((fw.importsOf "irrigation").filter isNetworkImport).toFinset

def propDPass (fw : Firmware) : Bool := decide ((irrigationNetworkImports fw).card = 0)

/-! ## What the audit is for -/

/-- The part of a path after its last slash. -/
def fileName (path : String) : List Char := (path.toList.reverse.takeWhile fun c ↦ c ≠ '/').reverse

/-- A cross-compartment call into the compartment `name`. -/
def CallsInto (imp : Import) (name : String) : Prop :=
  imp.kind = .CompartmentExport ∧
    ∃ path, imp.providedBy = some path ∧ fileName path = (name ++ ".compartment").toList

/-- A sealed object whose sealing type belongs to the compartment `name`. -/
def SealedBy (imp : Import) (name : String) : Prop :=
  imp.kind = .SealedObject ∧ ∃ key, imp.sealingType = some ⟨key, name⟩

/-- Irrigation holds no authority over a network-facing compartment. -/
def Isolated (fw : Firmware) : Prop :=
  ∀ imp ∈ fw.importsOf "irrigation", ∀ name ∈ networkFacingCompartments,
    ¬CallsInto imp name ∧ ¬SealedBy imp name

variable {fw : Firmware} {imp : Import} {name : String}

theorem fileName_suffix (path : String) : fileName path <:+ path.toList := by
  rw [fileName, ← List.reverse_prefix, List.reverse_reverse]
  exact List.takeWhile_prefix _

/-- Every call into the network is caught. -/
theorem CallsInto.isNetworkImport (h : CallsInto imp name)
    (hname : name ∈ networkFacingCompartments) : isNetworkImport imp = true := by
  obtain ⟨hkind, path, hpath, hfile⟩ := h
  rw [Audit.isNetworkImport, Bool.and_eq_true]
  refine ⟨decide_eq_true hkind, List.any_eq_true.mpr ⟨name, hname, ?_⟩⟩
  rw [hpath, Option.any_some, endsWith, decide_eq_true_eq, ← hfile]
  exact fileName_suffix path

theorem propDPass_iff : propDPass fw = true ↔
    ∀ imp ∈ fw.importsOf "irrigation", isNetworkImport imp = false := by
  simp [propDPass, irrigationNetworkImports]

/-- Sealed objects are what the audit does not see. -/
theorem irrigation_audit_sound (fw : Firmware) : (propDPass fw = true → Isolated fw) ↔
    (∃ imp ∈ fw.importsOf "irrigation", isNetworkImport imp = true) ∨
      ∀ imp ∈ fw.importsOf "irrigation", ∀ name ∈ networkFacingCompartments,
        ¬SealedBy imp name := by
  rw [propDPass_iff]
  constructor
  · intro h
    by_cases hfound : ∃ imp ∈ fw.importsOf "irrigation", isNetworkImport imp = true
    · exact .inl hfound
    · refine .inr fun imp himp name hname ↦ (h (fun imp himp ↦ ?_) imp himp name hname).2
      exact Bool.eq_false_iff.mpr fun hnetwork ↦ hfound ⟨imp, himp, hnetwork⟩
  · rintro (⟨imp, himp, hnetwork⟩ | hsealed) hnone
    · rw [hnone imp himp] at hnetwork
      cases hnetwork
    · refine fun imp himp name hname ↦ ⟨fun hcall ↦ ?_, hsealed imp himp name hname⟩
      have hnetwork := hcall.isNetworkImport hname
      rw [hnone imp himp] at hnetwork
      cases hnetwork

/-- An image in which irrigation holds a sealed object of the network stack. -/
def sealedConnection : Firmware where
  compartments := [("irrigation", { exports := [], imports := [
    { kind := .SealedObject, sealingType := some ⟨"NetworkConnectionKey", "NetAPI"⟩ }] })]
  nodup := List.nodup_singleton _

theorem irrigation_audit_unsound :
    propDPass sealedConnection = true ∧ ¬Isolated sealedConnection := by
  refine ⟨by decide +kernel, fun h ↦ ?_⟩
  exact (h { kind := .SealedObject, sealingType := some ⟨"NetworkConnectionKey", "NetAPI"⟩ }
    (by decide +kernel) "NetAPI" (by decide)).2 ⟨rfl, _, rfl⟩

end PlantNode.Audit
