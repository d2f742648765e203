import DoccrOS.Proof.Devices.PciScan

namespace DoccrOS.Devices
open Lib

/-- The enumeration has at most 256 entries, and no function twice exactly when a bus with entries is named again only after
the table is full. -/
theorem pciDeviceInit_nodup {space : ConfigSpace} {fuel : Nat} {devices : List PciDevice}
    (returned : pciDeviceInit space fuel = some devices) :
    devices.length ≤ maxPciDevices ∧ ((devices.map PciDevice.location).Nodup ↔ (busWorklist space).Fresh) := by
  rw [pciDeviceInit_expand] at returned
  obtain ⟨_, filled⟩ := Worklist.Expanded.start.result returned
  constructor
  · rw [filled]
    exact List.length_take_le _ _
  · exact Worklist.nodup_iff_fresh returned

/-- The discovery is right exactly when no function announces a circular capability list and the bridges, followed in the order
of the search from bus 0, name no bus with present functions again before 256 present functions are found. -/
theorem pciDiscovery_exact (space : ConfigSpace) :
    ((∀ bus device function capId, ∃ fuel offset, pciFindCapability space fuel bus device function capId = some offset) ∧
      ∃ fuel devices, pciDeviceInit space fuel = some devices ∧ devices.length ≤ 256 ∧
        (devices.map PciDevice.location).Nodup) ↔
    (∀ bus device function, ¬ CircularCapabilities space bus device function) ∧
      ∀ buses bus, (busWorklist space).Visits (buses ++ [bus]) → bus ∈ buses →
        busEntries space bus = [] ∨ 256 ≤ (buses.flatMap (busEntries space)).length := by
  apply and_congr
  · exact forall_congr' fun bus => forall_congr' fun device => forall_congr' fun function => pciFindCapability_returns
  · change _ ↔ (busWorklist space).Fresh
    constructor
    · rintro ⟨fuel, devices, returned, _, nodup⟩
      exact (pciDeviceInit_nodup returned).2.mp nodup
    · intro fresh
      obtain ⟨fuel, devices, returned⟩ := pciDeviceInit_returns space
      obtain ⟨small, nodup⟩ := pciDeviceInit_nodup returned
      exact ⟨fuel, devices, returned, small, nodup.mpr fresh⟩

/-- A host bridge whose capability points to itself, two bridges to bus 1 and one function on bus 1. -/
def faultyRegisters : List (BitVec 32 × BitVec 32) :=
  [(0x80000000, 0x12378086), (0x80000004, 0x00100000), (0x80000008, 0x06000002), (0x8000000C, 0x00000000),
    (0x80000034, 0x00000040), (0x80000040, 0x00004005),
    (0x80000800, 0x24488086), (0x80000808, 0x06040000), (0x8000080C, 0x00010000), (0x80000818, 0x00010100),
    (0x80001000, 0x24488086), (0x80001008, 0x06040000), (0x8000100C, 0x00010000), (0x80001018, 0x00010100),
    (0x80010000, 0x100E8086), (0x80010008, 0x02000000), (0x8001000C, 0x00000000)]

/-- All bits of a register that is not there are set. -/
def faultySpace : ConfigSpace := fun address =>
  ((faultyRegisters.find? fun register => register.1 == address).map Prod.snd).getD 0xFFFFFFFF

theorem faultySpace_loop (fuel : Nat) : pciFindCapabilityLoop faultySpace 0 0 0 0x10 fuel 0x40 = none := by
  induction fuel with
  | zero => rfl
  | succ fuel inductionHypothesis =>
      have id : pciConfigReadByte faultySpace 0 0 0 0x40 ≠ 0x10 := by decide +kernel
      have next : pciConfigReadByte faultySpace 0 0 0 (0x40 + 1) = 0x40 := by decide +kernel
      rw [pciFindCapabilityLoop, if_pos (by decide), if_neg id, next]
      exact inductionHypothesis

/-- Here the search for a capability never returns, and the function on bus 1 has two entries. -/
theorem faultySpace_discovery : (∀ fuel, pciFindCapability faultySpace fuel 0 0 0 0x10 = none) ∧
    ∃ fuel devices, pciDeviceInit faultySpace fuel = some devices ∧
      devices.map PciDevice.location = [(0, 0, 0), (0, 1, 0), (0, 2, 0), (1, 0, 0), (1, 0, 0)] ∧
        ¬ (devices.map PciDevice.location).Nodup := by
  constructor
  · intro fuel
    have listed : pciConfigReadWord faultySpace 0 0 0 pciStatus &&& 0x10 ≠ 0 := by decide +kernel
    have first : pciConfigReadByte faultySpace 0 0 0 pciCapabilities = 0x40 := by decide +kernel
    rw [pciFindCapability, if_neg listed, first]
    exact faultySpace_loop fuel
  · have entries : (pciDeviceInit faultySpace 6).map (fun devices => devices.map PciDevice.location) =
        some [(0, 0, 0), (0, 1, 0), (0, 2, 0), (1, 0, 0), (1, 0, 0)] := by decide +kernel
    obtain ⟨devices, returned, locations⟩ := Option.map_eq_some_iff.mp entries
    refine ⟨6, devices, returned, locations, ?_⟩
    rw [locations]
    decide

end DoccrOS.Devices
