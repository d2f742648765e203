import Mathlib.Tactic

namespace DoccrOS.Devices

/-- The configuration space: the value that a read of `PCI_CONFIG_DATA` gives for each address in `PCI_CONFIG_ADDRESS`. -/
abbrev ConfigSpace := BitVec 32 → BitVec 32

def pciVendorId : BitVec 8 := 0x00

def pciStatus : BitVec 8 := 0x06

def pciClassRevision : BitVec 8 := 0x08

def pciHeaderType : BitVec 8 := 0x0E

def pciBar0 : BitVec 8 := 0x10

def pciSecondaryBus : BitVec 8 := 0x19

def pciCapabilities : BitVec 8 := 0x34

/-- The address that `pci_config_read` writes to `PCI_CONFIG_ADDRESS`. -/
def pciConfigAddress (bus device function offset : BitVec 8) : BitVec 32 :=
  bus.setWidth 32 <<< 16 ||| device.setWidth 32 <<< 11 ||| function.setWidth 32 <<< 8 ||| (offset &&& 0xFC).setWidth 32 |||
    0x80000000

/-- This is `pci_config_read`. -/
def pciConfigRead (space : ConfigSpace) (bus device function offset : BitVec 8) : BitVec 32 :=
  space (pciConfigAddress bus device function offset)

/-- This is `pci_config_read_word`. -/
def pciConfigReadWord (space : ConfigSpace) (bus device function offset : BitVec 8) : BitVec 16 :=
  let value := pciConfigRead space bus device function (offset &&& 0xFC)
  (value >>> ((offset &&& 2).toNat * 8)).setWidth 16

/-- This is `pci_config_read_byte`. -/
def pciConfigReadByte (space : ConfigSpace) (bus device function offset : BitVec 8) : BitVec 8 :=
  let value := pciConfigRead space bus device function (offset &&& 0xFC)
  (value >>> ((offset &&& 3).toNat * 8)).setWidth 8

/-- The `while` loop of `pci_find_capability`, with no result when the fuel runs out; `cap_ptr + 1` is a `u8` argument. -/
def pciFindCapabilityLoop (space : ConfigSpace) (bus device function capId : BitVec 8) :
    (fuel : Nat) → (capPtr : BitVec 8) → Option (BitVec 8)
  | 0, _ => none
  | fuel + 1, capPtr =>
    if capPtr ≠ 0 then
      let id := pciConfigReadByte space bus device function capPtr
      if id = capId then some capPtr
      else pciFindCapabilityLoop space bus device function capId fuel (pciConfigReadByte space bus device function (capPtr + 1))
    else some 0

/-- This is `pci_find_capability`. -/
def pciFindCapability (space : ConfigSpace) (fuel : Nat) (bus device function capId : BitVec 8) : Option (BitVec 8) :=
  let status := pciConfigReadWord space bus device function pciStatus
  if status &&& 0x10 = 0 then some 0
  else pciFindCapabilityLoop space bus device function capId fuel (pciConfigReadByte space bus device function pciCapabilities)

/-- This is `pci_device_t`. -/
structure PciDevice where
  vendorId : BitVec 16
  deviceId : BitVec 16
  bus : BitVec 8
  device : BitVec 8
  function : BitVec 8
  classCode : BitVec 8
  subclass : BitVec 8
  progIf : BitVec 8
  revision : BitVec 8
  headerType : BitVec 8
  multifunction : BitVec 8
  bar0 : BitVec 32
deriving DecidableEq

/-- This is `MAX_PCI_DEVICES`. -/
def maxPciDevices : Nat := 256

/-- The entry that `pci_device_scan_bus` writes for a function. -/
def pciReadDevice (space : ConfigSpace) (bus device function : BitVec 8) : PciDevice :=
  let vendorDevice := pciConfigRead space bus device function pciVendorId
  let classInfo := pciConfigRead space bus device function pciClassRevision
  let headerInfo := pciConfigRead space bus device function pciHeaderType
  { vendorId := vendorDevice.setWidth 16
    deviceId := (vendorDevice >>> 16).setWidth 16
    bus, device, function
    classCode := (classInfo >>> 24).setWidth 8
    subclass := (classInfo >>> 16).setWidth 8
    progIf := (classInfo >>> 8).setWidth 8
    revision := classInfo.setWidth 8
    headerType := (headerInfo >>> 16).setWidth 8 &&& 0x7F
    multifunction := (headerInfo >>> 16).setWidth 8 &&& 0x80
    bar0 := pciConfigRead space bus device function pciBar0 }

/-- How the loop over the functions of a device ends: on to the next device, or out of the call. -/
inductive ScanExit where
  | nextDevice
  | full
deriving DecidableEq

/-- The loop over the functions in `pci_device_scan_bus`, on the entries that `devices` holds. -/
def pciScanFunctions (space : ConfigSpace) (bus device : BitVec 8) :
    (functions : List (BitVec 8)) → (devices : List PciDevice) → ScanExit × List PciDevice
  | [], devices => (.nextDevice, devices)
  | function :: rest, devices =>
    let vendorDevice := pciConfigRead space bus device function pciVendorId
    if vendorDevice.setWidth 16 = 0xFFFF#16 then
      if function = 0 then (.nextDevice, devices) else pciScanFunctions space bus device rest devices
    else if devices.length ≥ maxPciDevices then (.full, devices)
    else
      let dev := pciReadDevice space bus device function
      if function = 0 ∧ dev.multifunction = 0 then (.nextDevice, devices ++ [dev])
      else pciScanFunctions space bus device rest (devices ++ [dev])

/-- The values of a `u8` counter that goes up to a bound. -/
def countTo (bound : Nat) : List (BitVec 8) := (List.range bound).map (BitVec.ofNat 8)

/-- The loop over the devices in `pci_device_scan_bus`. -/
def pciScanDevices (space : ConfigSpace) (bus : BitVec 8) : (slots : List (BitVec 8)) → (devices : List PciDevice) → List PciDevice
  | [], devices => devices
  | device :: rest, devices =>
    match pciScanFunctions space bus device (countTo 8) devices with
    | (.nextDevice, devices) => pciScanDevices space bus rest devices
    | (.full, devices) => devices

/-- This is `pci_device_scan_bus`. -/
def pciDeviceScanBus (space : ConfigSpace) (bus : BitVec 8) (devices : List PciDevice) : List PciDevice :=
  pciScanDevices space bus (countTo 32) devices

/-- The `secondary_bus` that `pci_device_init` reads for an entry. -/
def pciSecondaryBusOf (space : ConfigSpace) (dev : PciDevice) : BitVec 8 :=
  let busInfo := pciConfigRead space dev.bus dev.device dev.function pciSecondaryBus
  (busInfo >>> 8).setWidth 8

/-- The loop of `pci_device_init` from an index, with no result when the fuel runs out; its bound is the count, which grows. -/
def pciDeviceInitLoop (space : ConfigSpace) : (fuel i : Nat) → (devices : List PciDevice) → Option (List PciDevice)
  | 0, _, _ => none
  | fuel + 1, i, devices =>
    match devices[i]? with
    | none => some devices
    | some dev =>
      if dev.classCode = 0x06 ∧ dev.subclass = 0x04 then
        let secondaryBus := pciSecondaryBusOf space dev
        if secondaryBus > 0 then pciDeviceInitLoop space fuel (i + 1) (pciDeviceScanBus space secondaryBus devices)
        else pciDeviceInitLoop space fuel (i + 1) devices
      else pciDeviceInitLoop space fuel (i + 1) devices

/-- This is `pci_device_init`. -/
def pciDeviceInit (space : ConfigSpace) (fuel : Nat) : Option (List PciDevice) :=
  pciDeviceInitLoop space fuel 0 (pciDeviceScanBus space 0 [])

end DoccrOS.Devices
