import Kernix.Proofs.HeapAccounting
import Kernix.Proofs.PhysmemInit
import Kernix.Proofs.LargePages
import Kernix.Proofs.TaskPlacement
import Kernix.Proofs.TaskTermination
import Kernix.Proofs.TasksApart
import Kernix.Proofs.FirstSwitch
import Kernix.Proofs.MountTable
import Kernix.Proofs.FileModel
import Kernix.Proofs.Descriptors
import Kernix.Proofs.FileBounds
import Kernix.Proofs.TmpfsTree
import Kernix.Proofs.DeviceNodes
import Kernix.Proofs.DeviceHandles
import Kernix.Proofs.InodeTable
import Kernix.Proofs.EntryLookups
import Kernix.Proofs.CreateFailures
import Kernix.Proofs.VolumePaths
import Kernix.Proofs.FileTransfers
import Kernix.Proofs.EnteredLines
import Kernix.Proofs.TimerIds
import Kernix.Proofs.TimerPasses
import Kernix.Proofs.UserSpaces
import Kernix.Proofs.AtaWrites
import Kernix.Proofs.PartitionBlocks
import Kernix.Proofs.PartitionProbes
import Kernix.Proofs.RegionMapping
import Kernix.Proofs.KeyboardRings
import Kernix.Proofs.KeyDecoders
import Kernix.Proofs.ChainedCommands
import Kernix.Proofs.EditorKeys
import Kernix.Proofs.SavedTexts
import Kernix.Proofs.WorkingDirectory
import Kernix.Proofs.ProgramStates
import Kernix.Proofs.TaskbarOrder
import Kernix.Proofs.ScreenBounds
import Kernix.Proofs.WindowClicks
import Kernix.Proofs.UsbReports
import Kernix.Proofs.DescriptorRings
import Kernix.Proofs.EventRing
import Kernix.Proofs.PacketBounds
import Kernix.Proofs.ArpTable
import Kernix.Proofs.PciBridges
import Kernix.Proofs.WorkspaceSessions
import Kernix.Proofs.ElfRelocations
import Kernix.Proofs.HeapRequests
import Kernix.Proofs.PathBuffers
import Kernix.Proofs.MappedProcesses
import Kernix.Proofs.ModuleTable
import Kernix.Proofs.FailedOpens
import Kernix.Proofs.CreatedPaths
import Kernix.Proofs.TaskQueues
import Kernix.Proofs.TimerClocks
import Kernix.Proofs.DirectoryEntries
import Kernix.Proofs.InodeSearch
import Kernix.Proofs.MountGeometry
import Kernix.Proofs.ExtentMaps
import Kernix.Proofs.PartitionBounds
import Kernix.Proofs.TaskAccounts
import Kernix.Proofs.TaskCounts
import Kernix.Proofs.TaskPools
import Kernix.Proofs.Checksums
import Kernix.Proofs.IpAddresses
import Kernix.Proofs.TypedTexts
import Kernix.Proofs.DirtyRegions
import Kernix.Proofs.TerminalOutput
import Kernix.Proofs.ScrollBars
import Kernix.Proofs.TerminalInput
import Kernix.Proofs.HistoryWalks
import Kernix.Proofs.LoadedTexts
import Kernix.Proofs.LoadedBitmaps
import Kernix.Proofs.DecimalTexts
import Kernix.Proofs.AtaSectors
import Kernix.Proofs.DrawnLines
import Kernix.Proofs.ClippedDrawing
import Kernix.Proofs.ConsolePrinting
import Kernix.Proofs.MousePointers
import Kernix.Proofs.HidItems
import Kernix.Proofs.FontGlyphs
import Kernix.Proofs.ElfAccesses
import Kernix.Proofs.LockedQueues
import Kernix.Proofs.TimeSlices
import Kernix.Proofs.ServedInterrupts
import Kernix.Proofs.HeapLayouts
import Kernix.Proofs.Capabilities
import Kernix.Proofs.BrowsedDirectories
import Kernix.Proofs.EchoReplies
import Kernix.Proofs.MouseGestures
