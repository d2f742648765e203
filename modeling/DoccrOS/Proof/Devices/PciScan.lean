import DoccrOS.Lib.Worklist
import DoccrOS.Proof.Devices.PciCapabilities

namespace DoccrOS.Devices
open Lib

/-- The bus, the device and the function of an entry. -/
def PciDevice.location (dev : PciDevice) : BitVec 8 × BitVec 8 × BitVec 8 := (dev.bus, dev.device, dev.function)

/-- The function gives a vendor. -/
def pciPresent (space : ConfigSpace) (bus device function : BitVec 8) : Bool :=
  decide ((pciConfigRead space bus device function pciVendorId).setWidth 16 ≠ 0xFFFF#16)

/-- Function 0 is there and has more functions beside it. -/
def pciMultifunction (space : ConfigSpace) (bus device : BitVec 8) : Bool :=
  pciPresent space bus device 0 && decide ((pciReadDevice space bus device 0).multifunction ≠ 0)

/-- The entries of the present functions of a device; only function 0 counts on a device with a single function. -/
def deviceEntries (space : ConfigSpace) (bus device : BitVec 8) : List PciDevice :=
  ((countTo 8).filter fun function =>
    pciPresent space bus device function && (function == 0 || pciMultifunction space bus device)).map
      (pciReadDevice space bus device)

/-- The entries of the present functions of a bus. -/
def busEntries (space : ConfigSpace) (bus : BitVec 8) : List PciDevice := (countTo 32).flatMap (deviceEntries space bus)

/-- The secondary bus of a bridge, unless it is 0. -/
def bridgedBus (space : ConfigSpace) (dev : PciDevice) : Option (BitVec 8) :=
  if dev.classCode = 0x06 ∧ dev.subclass = 0x04 then
    if pciSecondaryBusOf space dev > 0 then some (pciSecondaryBusOf space dev) else none
  else none

/-- How the loop over functions leaves the table when it has entries to add. -/
def scanned (devices entries : List PciDevice) : ScanExit × List PciDevice :=
  if (devices ++ entries).length ≤ maxPciDevices then (.nextDevice, devices ++ entries)
  else (.full, (devices ++ entries).take maxPciDevices)

section
variable {space : ConfigSpace} {bus device function : BitVec 8} {devices entries : List PciDevice} {functions slots : List (BitVec 8)}

theorem pciScanFunctions_absent (absent : pciPresent space bus device function = false) (nonzero : function ≠ 0) :
    pciScanFunctions space bus device (function :: functions) devices = pciScanFunctions space bus device functions devices := by
  rw [pciScanFunctions, if_pos (not_not.mp (of_decide_eq_false absent)), if_neg nonzero]

/-- A present function of a full table ends the scan. -/
theorem pciScanFunctions_full (present : pciPresent space bus device function = true) (full : devices.length = maxPciDevices) :
    pciScanFunctions space bus device (function :: functions) devices = (.full, devices) := by
  rw [pciScanFunctions, if_neg (of_decide_eq_true present), if_pos full.ge]

theorem pciScanFunctions_room (present : pciPresent space bus device function = true) (room : devices.length < maxPciDevices) :
    pciScanFunctions space bus device (function :: functions) devices =
      if function = 0 ∧ (pciReadDevice space bus device function).multifunction = 0 then
        (.nextDevice, devices ++ [pciReadDevice space bus device function])
      else pciScanFunctions space bus device functions (devices ++ [pciReadDevice space bus device function]) := by
  rw [pciScanFunctions, if_neg (of_decide_eq_true present), if_neg (Nat.not_le.mpr room)]

theorem scanned_nil (fits : devices.length ≤ maxPciDevices) : scanned devices [] = (.nextDevice, devices) := by
  rw [scanned, List.append_nil, if_pos fits]

theorem scanned_full {dev : PciDevice} (full : devices.length = maxPciDevices) : scanned devices (dev :: entries) = (.full, devices) := by
  rw [scanned, if_neg (by simp [full]), List.take_append_of_le_length full.ge, List.take_of_length_le full.le]

theorem scanned_cons {dev : PciDevice} : scanned devices (dev :: entries) = scanned (devices ++ [dev]) entries := by
  rw [scanned, scanned, List.append_assoc, List.singleton_append]

/-- Behind function 0 every present function is added. -/
theorem pciScanFunctions_others (others : 0 ∉ functions) (fits : devices.length ≤ maxPciDevices) :
    pciScanFunctions space bus device functions devices =
      scanned devices ((functions.filter (pciPresent space bus device)).map (pciReadDevice space bus device)) := by
  induction functions generalizing devices with
  | nil => exact (scanned_nil fits).symm
  | cons function functions inductionHypothesis =>
      obtain ⟨nonzero, others⟩ := not_or.mp (mt List.mem_cons.mpr others)
      cases present : pciPresent space bus device function with
      | false =>
          rw [pciScanFunctions_absent present (Ne.symm nonzero), inductionHypothesis others fits,
            List.filter_cons_of_neg (by rw [present]; exact Bool.false_ne_true)]
      | true =>
          rw [List.filter_cons_of_pos present, List.map_cons]
          rcases Nat.lt_or_ge devices.length maxPciDevices with room | full
          · rw [pciScanFunctions_room present room, if_neg fun both => nonzero both.1.symm, scanned_cons]
            apply inductionHypothesis others
            rw [List.length_append]
            exact room
          · have full := Nat.le_antisymm fits full
            rw [pciScanFunctions_full present full, scanned_full full]

theorem countTo_eight : countTo 8 = 0 :: [1, 2, 3, 4, 5, 6, 7] := by decide

theorem deviceEntries_absent (absent : pciPresent space bus device 0 = false) : deviceEntries space bus device = [] := by
  rw [deviceEntries, List.map_eq_nil_iff, List.filter_eq_nil_iff]
  intro function _ counted
  obtain ⟨present, rest⟩ := Bool.and_eq_true_iff.mp counted
  rcases Bool.or_eq_true_iff.mp rest with zero | multi
  · rw [eq_of_beq zero, absent] at present
    cases present
  · rw [pciMultifunction, absent] at multi
    cases multi

theorem deviceEntries_single (present : pciPresent space bus device 0 = true)
    (single : (pciReadDevice space bus device 0).multifunction = 0) :
    deviceEntries space bus device = [pciReadDevice space bus device 0] := by
  have alone : pciMultifunction space bus device = false := by
    rw [pciMultifunction, decide_eq_false (not_not.mpr single), Bool.and_false]
  have counted : (fun function => pciPresent space bus device function && (function == 0 || pciMultifunction space bus device)) =
      fun function => function == 0 := by
    funext function
    rw [alone, Bool.or_false]
    by_cases zero : function = 0
    · rw [zero, present, Bool.true_and]
    · rw [beq_eq_false_iff_ne.mpr zero, Bool.and_false]
  have zero : (countTo 8).filter (fun function => function == 0) = [0] := by decide
  rw [deviceEntries, counted, zero, List.map_singleton]

theorem deviceEntries_multi (present : pciPresent space bus device 0 = true)
    (multi : (pciReadDevice space bus device 0).multifunction ≠ 0) :
    deviceEntries space bus device = pciReadDevice space bus device 0 ::
      (([1, 2, 3, 4, 5, 6, 7] : List (BitVec 8)).filter (pciPresent space bus device)).map (pciReadDevice space bus device) := by
  have more : pciMultifunction space bus device = true := by
    rw [pciMultifunction, present, decide_eq_true multi, Bool.and_true]
  have counted : (fun function => pciPresent space bus device function && (function == 0 || pciMultifunction space bus device)) =
      pciPresent space bus device := by
    funext function
    rw [more, Bool.or_true, Bool.and_true]
  rw [deviceEntries, counted, countTo_eight, List.filter_cons_of_pos present, List.map_cons]

/-- The loop over the functions of a device adds the entries of the device as far as they fit. -/
theorem pciScanFunctions_device (fits : devices.length ≤ maxPciDevices) :
    pciScanFunctions space bus device (countTo 8) devices = scanned devices (deviceEntries space bus device) := by
  rw [countTo_eight]
  cases present : pciPresent space bus device 0 with
  | false =>
      rw [pciScanFunctions, if_pos (not_not.mp (of_decide_eq_false present)), if_pos rfl, deviceEntries_absent present,
        scanned_nil fits]
  | true =>
      rcases Nat.lt_or_ge devices.length maxPciDevices with room | full
      · rw [pciScanFunctions_room present room]
        by_cases single : (pciReadDevice space bus device 0).multifunction = 0
        · rw [if_pos ⟨rfl, single⟩, deviceEntries_single present single, scanned_cons, scanned_nil]
          rw [List.length_append]
          exact room
        · rw [if_neg fun both => single both.2, deviceEntries_multi present single, scanned_cons]
          apply pciScanFunctions_others (by decide)
          rw [List.length_append]
          exact room
      · have full := Nat.le_antisymm fits full
        rw [pciScanFunctions_full present full]
        by_cases single : (pciReadDevice space bus device 0).multifunction = 0
        · rw [deviceEntries_single present single, scanned_full full]
        · rw [deviceEntries_multi present single, scanned_full full]

theorem pciScanDevices_entries (fits : devices.length ≤ maxPciDevices) : pciScanDevices space bus slots devices =
    (devices ++ slots.flatMap (deviceEntries space bus)).take maxPciDevices := by
  induction slots generalizing devices with
  | nil => rw [pciScanDevices, List.flatMap_nil, List.append_nil, List.take_of_length_le fits]
  | cons device slots inductionHypothesis =>
      rw [pciScanDevices, pciScanFunctions_device fits, scanned, List.flatMap_cons, ← List.append_assoc]
      split_ifs with room
      · exact inductionHypothesis room
      · exact (List.take_append_of_le_length (Nat.le_of_not_le room)).symm

/-- A scan of a bus adds the entries of the bus as far as they fit. -/
theorem pciDeviceScanBus_entries (fits : devices.length ≤ maxPciDevices) :
    pciDeviceScanBus space bus devices = (devices ++ busEntries space bus).take maxPciDevices :=
  pciScanDevices_entries fits

theorem deviceEntries_locations : (deviceEntries space bus device).map PciDevice.location =
    ((countTo 8).filter fun function =>
      pciPresent space bus device function && (function == 0 || pciMultifunction space bus device)).map
        fun function => (bus, device, function) := by
  rw [deviceEntries, List.map_map]
  rfl

theorem deviceEntries_place {dev : PciDevice} (member : dev ∈ deviceEntries space bus device) :
    dev.bus = bus ∧ dev.device = device := by
  obtain ⟨function, _, rfl⟩ := List.mem_map.mp member
  exact ⟨rfl, rfl⟩

theorem busEntries_bus {dev : PciDevice} (member : dev ∈ busEntries space bus) : dev.bus = bus := by
  obtain ⟨device, _, member⟩ := List.mem_flatMap.mp member
  exact (deviceEntries_place member).1

/-- No function of a bus has two entries. -/
theorem busEntries_nodup : ((busEntries space bus).map PciDevice.location).Nodup := by
  rw [busEntries, List.map_flatMap, List.nodup_flatMap]
  constructor
  · intro device _
    rw [deviceEntries_locations]
    exact (List.Nodup.filter _ (by decide)).map fun function function' same => (Prod.mk.inj (Prod.mk.inj same).2).2
  · refine List.Pairwise.imp ?_ (by decide : (countTo 32).Nodup)
    intro device device' different location member member'
    obtain ⟨dev, inside, rfl⟩ := List.mem_map.mp member
    obtain ⟨dev', inside', same⟩ := List.mem_map.mp member'
    apply different
    calc
      device = dev.device := (deviceEntries_place inside).2.symm
      _ = dev'.device := congrArg (fun location => location.2.1) same.symm
      _ = device' := (deviceEntries_place inside').2

/-- The buses as nodes with their entries; the bridges link to further buses. -/
def busWorklist (space : ConfigSpace) : Worklist (BitVec 8) PciDevice (BitVec 8 × BitVec 8 × BitVec 8) where
  root := 0
  items := busEntries space
  link := bridgedBus space
  capacity := maxPciDevices
  key := PciDevice.location
  owner := Prod.fst
  owned := fun _ _ member => busEntries_bus member
  distinct := fun _ => busEntries_nodup

/-- The loop of `pci_device_init` is the loop over the worklist of the buses. -/
theorem pciDeviceInitLoop_expand {fuel i : Nat} (fits : devices.length ≤ maxPciDevices) :
    pciDeviceInitLoop space fuel i devices = (busWorklist space).expand fuel i devices := by
  induction fuel generalizing i devices with
  | zero => rfl
  | succ fuel inductionHypothesis =>
      rw [pciDeviceInitLoop, Worklist.expand]
      cases devices[i]? with
      | none => rfl
      | some dev =>
          have scan (secondaryBus : BitVec 8) : pciDeviceScanBus space secondaryBus devices =
              (busWorklist space).fill devices secondaryBus := pciDeviceScanBus_entries fits
          have link : (busWorklist space).link dev = bridgedBus space dev := rfl
          simp only [link, bridgedBus]
          split_ifs with bridge secondary
          · rw [scan]
            exact inductionHypothesis (List.length_take_le _ _)
          · exact inductionHypothesis fits
          · exact inductionHypothesis fits

theorem pciDeviceInit_expand {fuel : Nat} :
    pciDeviceInit space fuel = (busWorklist space).expand fuel 0 ((busWorklist space).fill [] (busWorklist space).root) := by
  have scan : pciDeviceScanBus space 0 [] = (busWorklist space).fill [] (busWorklist space).root :=
    pciDeviceScanBus_entries (Nat.zero_le _)
  rw [pciDeviceInit, scan]
  exact pciDeviceInitLoop_expand (List.length_take_le _ _)

/-- The enumeration returns on every configuration space. -/
theorem pciDeviceInit_returns (space : ConfigSpace) : ∃ fuel devices, pciDeviceInit space fuel = some devices := by
  refine ⟨maxPciDevices + 1, ?_⟩
  rw [pciDeviceInit_expand]
  exact Worklist.Expanded.start.returns (Nat.lt_succ_self _)

end

end DoccrOS.Devices
