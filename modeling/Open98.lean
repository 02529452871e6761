import Open98.NtDef
import Open98.Library.Run
import Open98.Library.Keeps
import Open98.Library.LinkedChain
import Open98.Library.ChainFamily
import Open98.Library.NameTree
import Open98.Library.RadixTree
import Open98.Mm.Pmm
import Open98.Mm.PmmRuns
import Open98.Mm.Vmm
import Open98.Mm.PageTables
import Open98.Mm.PageMap
import Open98.Mm.Liballoc
import Open98.Mm.HeapBacking
import Open98.Drv.Disk
import Open98.Drv.Ata
import Open98.Fat32.Volume
import Open98.Fat32.Entry
import Open98.Fat32.Table
import Open98.Fat32.FileData
import Open98.Fat32.Names
import Open98.Fat32.Directory
import Open98.Fat32.Listing
import Open98.Fat32.ClusterIO
import Open98.Fat32.File
import Open98.Fat32.Locate
import Open98.Fat32.Write
import Open98.Fat32.Delete
import Open98.Fat32.Layout
import Open98.Fat32.Create
import Open98.Fat32.Runs
import Open98.Fat32.ReadBack
import Open98.Fat32.OutOfSpace
import Open98.Fat32.NameCodec
import Open98.Ke.Mutex
import Open98.Library.Ownership
import Open98.Mm.PmmTasks
import Open98.Hal.Idt
import Open98.Library.Search
import Open98.Library.RoundRobin
import Open98.Ps.Rotation
import Open98.Ps.Contexts
import Open98.Ps.Resumption
import Open98.Ps.Acknowledge
import Open98.Fat32.Mount
import Open98.Fat32.Sectors
import Open98.Fat32.Orderly
import Open98.Fat32.Remount
import Open98.Fat32.Mirror
import Open98.Library.BlockHeap
import Open98.Fsrtl.Drive
import Open98.Fat32.Startup
import Open98.Mm.Permissions
import Open98.Library.RadixForest
import Open98.Library.Loop
import Open98.Mm.Family
import Open98.Mm.VmmInit
import Open98.Mm.Pagemaps
import Open98.Mm.DirectMap
import Open98.Fat32.Erase
import Open98.Fat32.Insertion
import Open98.Fat32.Boundary
import Open98.Library.ByteCopy
import Open98.Mm.BootBitmap
import Open98.Mm.Memcpy
import Open98.Mm.PageHooks
import Open98.Fat32.Allocator
import Open98.Fat32.ChainWalks
import Open98.Fat32.SlotSearch
import Open98.Fat32.CorruptWalks
import Open98.Fat32.DirectoryWalks
import Open98.Fat32.Labels
import Open98.Fat32.DeleteList
import Open98.Fat32.ShortNames
import Open98.Fat32.Marks
import Open98.Fat32.Orphans
import Open98.Drv.Transfers
import Open98.Fat32.LongNames
import Open98.Fat32.SlotBytes
import Open98.Fat32.BadEntries
import Open98.Lib.Utill
import Open98.Drv.Mouse
import Open98.Ps.Stacks
import Open98.Drv.Framing
import Open98.NtUser.CursorRuns
import Open98.Fat32.Paths
import Open98.Mod.Wm
import Open98.Drv.Vbe
import Open98.Mod.Draw
import Open98.Mod.HitTest
import Open98.Library.Stores
import Open98.NtUser.SavedUnder
import Open98.Mod.Transparency
import Open98.Hal.Acpi
import Open98.Lib.Octal
import Open98.Drv.ArchiveSize
import Open98.Drv.Ustar
import Open98.Drv.MemberLookup
import Open98.Drv.Ahci
import Open98.Drv.PortRebase
import Open98.Fat32.ShortCodec
import Open98.Drv.PortMemory
import Open98.Lib.Printf
import Open98.Lib.PrintfText
import Open98.Lib.PrintfParse
import Open98.Lib.PrintfLayout
import Open98.Lib.PrintfNumbers
import Open98.Lib.PrintfStrings
import Open98.Ke.Dbg
import Open98.Ke.Panic
import Open98.Drv.Humanify
import Open98.Library.TwoWayList
import Open98.Mm.HeapMemory
import Open98.Mm.HeapShape
import Open98.Mm.HeapInsert
import Open98.Mm.HeapPages
import Open98.Mm.HeapMalloc
import Open98.Mm.HeapFree
import Open98.Mm.HeapRealloc
import Open98.Mm.HeapRuns
