import Mathlib.Data.Finset.Insert
import Mathlib.Data.Finset.Dedup
import Mathlib.Data.List.Nodup

/-!
# The description of a linked image

The `input` of `plantnode.rego`: what each compartment imports and exports.  A field
that a record does not have is `none`.
-/

namespace PlantNode.Audit

/-- `Mmio` is `MMIO`, and `other` a kind that the policy does not name. -/
inductive ImportKind where
  | Mmio
  | SealedObject
  | CompartmentExport
  | other (kind : String)
  deriving DecidableEq

structure SealingType where
  key : String
  compartment : String
  deriving DecidableEq

structure Import where
  kind : ImportKind
  start : Option ℕ := none
  length : Option ℕ := none
  contents : Option String := none
  sealingType : Option SealingType := none
  providedBy : Option String := none
  deriving DecidableEq

inductive ExportKind where
  | Function
  | SealingKey
  | other (kind : String)
  deriving DecidableEq

structure Export where
  exportSymbol : String
  kind : ExportKind
  deriving DecidableEq

structure Compartment where
  imports : List Import
  exports : List Export

structure Firmware where
  compartments : List (String × Compartment)
  nodup : (compartments.map Prod.fst).Nodup

namespace Firmware

/-- `input.compartments[name]` -/
def compartment (fw : Firmware) (name : String) : Option Compartment :=
  (fw.compartments.find? fun c ↦ c.1 = name).map Prod.snd

def importsOf (fw : Firmware) (name : String) : List Import :=
  match fw.compartment name with
  | none => []
  | some comp => comp.imports

def exportsOf (fw : Firmware) (name : String) : List Export :=
  match fw.compartment name with
  | none => []
  | some comp => comp.exports

/-- `some name, comp in input.compartments; some imp in comp.imports` -/
def imports (fw : Firmware) : List (String × Import) :=
  fw.compartments.flatMap fun c ↦ c.2.imports.map fun imp ↦ (c.1, imp)

/-- The names of the compartments with an import that meets `p`. -/
def holders (fw : Firmware) (p : Import → Bool) : Finset String :=
  ((fw.imports.filter fun x ↦ p x.2).map Prod.fst).toFinset

variable {fw : Firmware} {name : String} {comp : Compartment} {imp : Import} {p : Import → Bool}

theorem compartment_eq_some : fw.compartment name = some comp ↔ (name, comp) ∈ fw.compartments := by
  unfold compartment
  have hnodup := fw.nodup
  generalize fw.compartments = compartments at hnodup
  induction compartments with
  | nil => simp
  | cons c rest ih =>
      obtain ⟨first, comp'⟩ := c
      rw [List.map_cons, List.nodup_cons] at hnodup
      by_cases hname : first = name
      · subst hname
        have hrest : (first, comp) ∉ rest := fun h ↦
          hnodup.1 (List.mem_map.mpr ⟨_, h, rfl⟩)
        simp [hrest, eq_comm]
      · have hne : name ≠ first := fun h ↦ hname h.symm
        simpa [hname, hne] using ih hnodup.2

theorem mem_importsOf : imp ∈ fw.importsOf name ↔ (name, imp) ∈ fw.imports := by
  have hiff : (name, imp) ∈ fw.imports ↔
      ∃ comp, (name, comp) ∈ fw.compartments ∧ imp ∈ comp.imports := by
    simp [imports]
  rw [hiff, importsOf]
  constructor
  · intro h
    cases hcomp : fw.compartment name with
    | none => simp [hcomp] at h
    | some comp =>
        rw [hcomp] at h
        exact ⟨comp, compartment_eq_some.mp hcomp, h⟩
  · rintro ⟨comp, hcomp, himp⟩
    rw [compartment_eq_some.mpr hcomp]
    exact himp

theorem mem_holders : name ∈ fw.holders p ↔ ∃ imp, (name, imp) ∈ fw.imports ∧ p imp = true := by
  simp [holders]

theorem holders_eq_singleton : fw.holders p = {name} ↔
    (∃ imp, (name, imp) ∈ fw.imports ∧ p imp = true) ∧
      ∀ other imp, (other, imp) ∈ fw.imports → p imp = true → other = name := by
  rw [Finset.eq_singleton_iff_unique_mem, mem_holders]
  refine and_congr_right fun _ ↦ ⟨fun h other imp himp hp ↦ ?_, fun h other hother ↦ ?_⟩
  · exact h other (mem_holders.mpr ⟨imp, himp, hp⟩)
  · obtain ⟨imp, himp, hp⟩ := mem_holders.mp hother
    exact h other imp himp hp

end Firmware

end PlantNode.Audit
