import DoccrOS.Construction.Mem.Kernel
import DoccrOS.Lib.Run
import DoccrOS.Lib.Radix
import DoccrOS.Lib.Sharing
import DoccrOS.Proof.Mem.Boot
import DoccrOS.Proof.Mem.CowCalls
import DoccrOS.Proof.Mem.CowCounts
import DoccrOS.Proof.Mem.CowFaults
import DoccrOS.Proof.Mem.CowIsolation
import DoccrOS.Proof.Mem.CowKernel
import DoccrOS.Proof.Mem.CowPages
import DoccrOS.Proof.Mem.CowRanges
import DoccrOS.Proof.Mem.CowSpaces
import DoccrOS.Proof.Mem.CowSteps
import DoccrOS.Proof.Mem.FrameBudget
import DoccrOS.Proof.Mem.PageSteps
import DoccrOS.Proof.Mem.Paging
import DoccrOS.Proof.Mem.PhysMem
import DoccrOS.Proof.Mem.Roots
import DoccrOS.Proof.Mem.SpaceLoops
import DoccrOS.Proof.Mem.CowResolution
import DoccrOS.Lib.Linked
import DoccrOS.Lib.Tiling
import DoccrOS.Construction.Mem.Kheap
import DoccrOS.Proof.Mem.Kheap
import DoccrOS.Proof.Mem.KheapRuns
import DoccrOS.Proof.Mem.KheapPayloads
import DoccrOS.Construction.Mem.VmmRanges
import DoccrOS.Proof.Mem.VmmRanges
import DoccrOS.Proof.Mem.VmmRangesRuns
import DoccrOS.Lib.Ring
import DoccrOS.Construction.Proc.Process
import DoccrOS.Construction.Proc.Fork
import DoccrOS.Proof.Proc.Queue
import DoccrOS.Proof.Proc.Yield
import DoccrOS.Proof.Proc.Calls
import DoccrOS.Proof.Proc.Steps
import DoccrOS.Proof.Proc.SchedulerLists
import DoccrOS.Proof.User.ExitStatus
import DoccrOS.Proof.Mem.PhysMemRuns
import DoccrOS.Construction.User.Stdlib
import DoccrOS.Proof.User.Stdlib
import DoccrOS.Proof.User.StdlibRuns
import DoccrOS.Proof.Mem.DestroyEnds
import DoccrOS.Proof.Mem.CowReadOnly
import DoccrOS.Lib.NamedTree
import DoccrOS.Construction.Fs.Vfs
import DoccrOS.Proof.Fs.Path
import DoccrOS.Proof.Fs.Tree
import DoccrOS.Proof.Fs.TreeSteps
import DoccrOS.Proof.Fs.TreeRemoves
import DoccrOS.Proof.Fs.TreeRuns
import DoccrOS.Lib.Ownership
import DoccrOS.Proof.Fs.Files
import DoccrOS.Proof.Fs.FileRuns
import DoccrOS.Construction.User.SysFs
import DoccrOS.Proof.User.Descriptors
import DoccrOS.Proof.Mem.CowBreak
import DoccrOS.Proof.Proc.ActiveSpace
import DoccrOS.Proof.Proc.ActiveSpaceRuns
import DoccrOS.Proof.Mem.KernelHalf
import DoccrOS.Construction.Devices.Fb0
import DoccrOS.Proof.Devices.Fb0
import DoccrOS.Proof.Mem.MapRanges
import DoccrOS.Construction.Screen.Layout
import DoccrOS.Construction.User.SysMem
import DoccrOS.Proof.Mem.AllocRanges
import DoccrOS.Proof.Mem.FreeRanges
import DoccrOS.Proof.Mem.UserMemory
import DoccrOS.Proof.Mem.UserSpaces
import DoccrOS.Proof.User.MemCalls
import DoccrOS.Construction.Packages.Elf
import DoccrOS.Proof.Mem.OccupiedTables
import DoccrOS.Proof.Mem.RoundTrip
import DoccrOS.Proof.Mem.AllOrNothing
import DoccrOS.Lib.Gap
import DoccrOS.Proof.User.FreeVaddr
import DoccrOS.Proof.Mem.PageLaws
import DoccrOS.Proof.Mem.VmmRangesReal
import DoccrOS.Proof.Mem.KheapSizes
import DoccrOS.Proof.User.StdlibSizes
import DoccrOS.Proof.User.StdlibAlignment
import DoccrOS.Proof.User.Munmap
import DoccrOS.Proof.User.Brk
import DoccrOS.Proof.Mem.CloneLoops
import DoccrOS.Proof.Mem.CloneShares
import DoccrOS.Proof.Mem.DestroyedSpace
import DoccrOS.Proof.Mem.UndoneClone
import DoccrOS.Proof.Proc.FailedFork
import DoccrOS.Proof.Mem.DataStores
import DoccrOS.Proof.Packages.ElfSegments
import DoccrOS.Proof.Packages.ElfLoads
import DoccrOS.Proof.Packages.ElfUser
import DoccrOS.Proof.Packages.ElfImage
import DoccrOS.Proof.Mem.Twins
import DoccrOS.Proof.User.FreshPages
import DoccrOS.Construction.Packages.ElfReads
import DoccrOS.Proof.Packages.ElfReads
import DoccrOS.Proof.Fs.CreationLeaks
import DoccrOS.Proof.Fs.CreatedNodes
import DoccrOS.Proof.Fs.FileFields
import DoccrOS.Proof.User.FileReads
import DoccrOS.Proof.User.FileWrites
import DoccrOS.Proof.User.DirectoryReads
import DoccrOS.Construction.Fs.PathStores
import DoccrOS.Proof.Fs.PathStores
import DoccrOS.Construction.Packages.Cpio
import DoccrOS.Proof.Packages.Cpio
import DoccrOS.Construction.User.UserAccess
import DoccrOS.Proof.User.UserAccess
import DoccrOS.Construction.Devices.Input
import DoccrOS.Proof.Devices.Input
import DoccrOS.Construction.Devices.Ps2
import DoccrOS.Proof.Devices.Ps2Mouse
import DoccrOS.Proof.Devices.Ps2Keyboard
import DoccrOS.Construction.Screen.Console
import DoccrOS.Proof.Screen.Console
import DoccrOS.Lib.Formatter
import DoccrOS.Construction.User.Stdio
import DoccrOS.Construction.Devices.Serial
import DoccrOS.Construction.User.Printf
import DoccrOS.Proof.User.Stdio
import DoccrOS.Proof.User.FormatReads
import DoccrOS.Proof.User.Printf
import DoccrOS.Construction.Boot.PhysmemInit
import DoccrOS.Lib.Painting
import DoccrOS.Proof.Boot.PhysmemInit
import DoccrOS.Construction.Devices.FbHandles
import DoccrOS.Proof.Devices.FbHandles
import DoccrOS.Construction.Devices.Registry
import DoccrOS.Proof.Fs.CleanCreations
import DoccrOS.Proof.Devices.Registry
import DoccrOS.Construction.Mem.Memmove
import DoccrOS.Proof.Mem.Memmove
import DoccrOS.Construction.Screen.Strings
import DoccrOS.Lib.Text
import DoccrOS.Proof.Screen.Strings
import DoccrOS.Construction.Screen.Draw
import DoccrOS.Lib.LineWalk
import DoccrOS.Proof.Screen.Draw
import DoccrOS.Proof.Packages.ElfCopy
import DoccrOS.Construction.Screen.Accesses
import DoccrOS.Proof.Mem.KheapTwice
import DoccrOS.Proof.Devices.FbFlush
import DoccrOS.Construction.Screen.Boot
import DoccrOS.Proof.Screen.Bounds
import DoccrOS.Proof.Screen.ScreenRuns
import DoccrOS.Proof.User.Numbers
import DoccrOS.Construction.Mem.SpaceRegions
import DoccrOS.Proof.Mem.SpaceRegions
import DoccrOS.Proof.Mem.SpaceCalls
import DoccrOS.Proof.Mem.ListedSpaces
import DoccrOS.Proof.Mem.SpaceClones
import DoccrOS.Proof.Mem.SpaceListRuns
import DoccrOS.Construction.Devices.Pci
import DoccrOS.Lib.Chain
import DoccrOS.Lib.Worklist
import DoccrOS.Proof.Devices.PciCapabilities
import DoccrOS.Proof.Devices.PciScan
import DoccrOS.Proof.Mem.TableForest
import DoccrOS.Proof.Devices.PciDiscovery
import DoccrOS.Proof.Mem.ForestCalls
import DoccrOS.Proof.Mem.ForestRuns
import DoccrOS.Proof.Mem.FrameOrder
import DoccrOS.Proof.Packages.ElfTwins
import DoccrOS.Proof.User.FreshMemory
import DoccrOS.Proof.User.OrderedSpaces
import DoccrOS.Proof.Devices.DisjointRegions
import DoccrOS.Proof.Proc.Turns
import DoccrOS.Lib.Cpu
import DoccrOS.Construction.Proc.Context
import DoccrOS.Proof.Proc.Context
import DoccrOS.Proof.Proc.ContextRuns
import DoccrOS.Proof.Proc.NewThreads
import DoccrOS.Proof.Proc.Traps
import DoccrOS.Proof.Proc.TrapRuns
import DoccrOS.Proof.Packages.CpioRoundTrip
import DoccrOS.Proof.Packages.CpioFiles
