import DoccrOS.Construction.Devices.Pci
import DoccrOS.Lib.Chain

namespace DoccrOS.Devices
open Lib

/-- A pointer to a capability; the pointer 0 ends the list. -/
abbrev CapabilityPointer := { pointer : BitVec 8 // pointer ≠ 0 }

def toCapability (pointer : BitVec 8) : Option CapabilityPointer :=
  if nonzero : pointer ≠ 0 then some ⟨pointer, nonzero⟩ else none

/-- The capability that the byte at `PCI_CAPABILITIES` points to. -/
def firstCapability (space : ConfigSpace) (bus device function : BitVec 8) : Option CapabilityPointer :=
  toCapability (pciConfigReadByte space bus device function pciCapabilities)

/-- The capability that the byte behind the id of a capability points to. -/
def nextCapability (space : ConfigSpace) (bus device function : BitVec 8) (pointer : CapabilityPointer) :
    Option CapabilityPointer :=
  toCapability (pciConfigReadByte space bus device function (pointer.1 + 1))

def capabilityId (space : ConfigSpace) (bus device function : BitVec 8) (pointer : CapabilityPointer) : BitVec 8 :=
  pciConfigReadByte space bus device function pointer.1

/-- The status announces a capability list, and the pointers of the list come back to a capability. -/
def CircularCapabilities (space : ConfigSpace) (bus device function : BitVec 8) : Prop :=
  pciConfigReadWord space bus device function pciStatus &&& 0x10 ≠ 0 ∧
    Circular (nextCapability space bus device function) (firstCapability space bus device function)

section
variable {space : ConfigSpace} {bus device function capId pointer : BitVec 8} {fuel : Nat}

theorem toCapability_zero : toCapability 0 = none := rfl

theorem toCapability_nonzero (nonzero : pointer ≠ 0) : toCapability pointer = some ⟨pointer, nonzero⟩ := dif_pos nonzero

/-- The loop is a search along the chain of capabilities. -/
theorem pciFindCapabilityLoop_search : pciFindCapabilityLoop space bus device function capId fuel pointer =
    (search (nextCapability space bus device function)
      (fun item => decide (capabilityId space bus device function item = capId)) fuel (toCapability pointer)).map
        fun found => (found.map Subtype.val).getD 0 := by
  induction fuel generalizing pointer with
  | zero => rfl
  | succ fuel inductionHypothesis =>
      rw [pciFindCapabilityLoop]
      by_cases zero : pointer = 0
      · rw [if_neg (not_not.mpr zero), zero, toCapability_zero]
        rfl
      · rw [if_pos zero, toCapability_nonzero zero, search_some, inductionHypothesis]
        by_cases wanted : capabilityId space bus device function ⟨pointer, zero⟩ = capId
        · rw [if_pos (decide_eq_true wanted)]
          exact if_pos wanted
        · rw [decide_eq_false wanted, if_neg Bool.false_ne_true]
          exact if_neg wanted

theorem bytes_finite : Finite (BitVec 8) :=
  Finite.of_injective BitVec.toFin fun _ _ same => BitVec.eq_of_toFin_eq same

/-- A search for all ids returns exactly when the list ends: there are more ids than pointers to capabilities. -/
theorem pciFindCapability_returns :
    (∀ capId, ∃ fuel offset, pciFindCapability space fuel bus device function capId = some offset) ↔
      ¬ CircularCapabilities space bus device function := by
  have bytes : Finite (BitVec 8) := bytes_finite
  have fewer : Nat.card CapabilityPointer < Nat.card (BitVec 8) :=
    Finite.card_subtype_lt (x := 0) fun nonzero => nonzero rfl
  have every : _ ↔ ChainEnds (nextCapability space bus device function) (firstCapability space bus device function) :=
    search_returns_every_label (capabilityId space bus device function) fewer
  rw [CircularCapabilities, not_and, ← chainEnds_iff_not_circular, ← every]
  by_cases listed : pciConfigReadWord space bus device function pciStatus &&& 0x10 = 0
  · refine ⟨fun _ absent => absurd listed absent, fun _ capId => ⟨0, 0, ?_⟩⟩
    rw [pciFindCapability, if_pos listed]
  · rw [imp_iff_right listed]
    apply forall_congr'
    intro capId
    apply exists_congr
    intro fuel
    rw [pciFindCapability, if_neg listed, pciFindCapabilityLoop_search]
    constructor
    · rintro ⟨offset, returned⟩
      obtain ⟨found, searched, _⟩ := Option.map_eq_some_iff.mp returned
      exact ⟨found, searched⟩
    · rintro ⟨found, searched⟩
      exact ⟨(found.map Subtype.val).getD 0, Option.map_eq_some_iff.mpr ⟨found, searched, rfl⟩⟩

end

end DoccrOS.Devices
