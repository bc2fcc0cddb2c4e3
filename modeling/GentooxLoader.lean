import GentooxLoader.Base.Cells
import GentooxLoader.Base.Words
import GentooxLoader.Base.Machine
import GentooxLoader.Base.Arena
import GentooxLoader.Base.Streams
import GentooxLoader.Heap.Clusters
import GentooxLoader.Heap.Blocks
import GentooxLoader.MemoryLayout
import GentooxLoader.Heap.Live
import GentooxLoader.Heap.Limits
import GentooxLoader.Ide.Bus
import GentooxLoader.Ide.Sector
import GentooxLoader.Fatx.RawRead
import GentooxLoader.Fatx.Partition
import GentooxLoader.Fatx.File
import GentooxLoader.Fatx.Open
import GentooxLoader.Lib.Strings
import GentooxLoader.Lib.Digest
import GentooxLoader.Heap.Malloc
import GentooxLoader.Fatx.Load
import GentooxLoader.Config.Buffer
import GentooxLoader.Config.Parser
import GentooxLoader.Config.Lines
import GentooxLoader.Config.Fields
import GentooxLoader.Config.Reference
import GentooxLoader.Config.Entries
import GentooxLoader.Net.Receive
import GentooxLoader.Net.WebBoot
import GentooxLoader.Net.Session
import GentooxLoader.Net.Http
import GentooxLoader.Net.NetBoot
import GentooxLoader.Flash.Reflash
import GentooxLoader.Net.NetFlash
import GentooxLoader.Net.HandlePost
import GentooxLoader.Net.Form
import GentooxLoader.Net.AnyBody
import GentooxLoader.Net.Connection
import GentooxLoader.Image.Build
import GentooxLoader.Image.Start
import GentooxLoader.Image.Retries
import GentooxLoader.Image.Decompress
import GentooxLoader.Image.XbeRepair
import GentooxLoader.Iso.Iso9660
import GentooxLoader.Iso.Tree
import GentooxLoader.Iso.Search
import GentooxLoader.Iso.ReadFile
import GentooxLoader.Iso.FileStores
import GentooxLoader.Iso.Turns
import GentooxLoader.Iso.Termination
import GentooxLoader.Heap.Allocator
import GentooxLoader.Iso.Balance
import GentooxLoader.Fatx.Directory
import GentooxLoader.Fatx.Entries
import GentooxLoader.Fatx.Walk
import GentooxLoader.Fatx.Turns
import GentooxLoader.Fatx.Termination
import GentooxLoader.Fatx.Links
import GentooxLoader.Fatx.FindDir
import GentooxLoader.Fatx.Tree
import GentooxLoader.Fatx.FindFile
import GentooxLoader.Fatx.ListDir
import GentooxLoader.Flash.Sources
import GentooxLoader.Base.Loops
import GentooxLoader.Flash.BootFlash
import GentooxLoader.Flash.Turns
import GentooxLoader.Flash.Protocol
import GentooxLoader.Flash.Region
import GentooxLoader.Flash.Events
import GentooxLoader.Eeprom.BootEEPROM
import GentooxLoader.Lib.Sha1
import GentooxLoader.Lib.Rc4
import GentooxLoader.Lib.Compare
import GentooxLoader.Ide.BootHddKey
import GentooxLoader.Boot.LoadLinux
import GentooxLoader.Boot.Staging
import GentooxLoader.Boot.CommandLine
import GentooxLoader.Lib.Sha1Blocks
import GentooxLoader.Ide.HddHash
import GentooxLoader.Eeprom.Mirror
import GentooxLoader.Eeprom.Checksum
import GentooxLoader.Flash.Descriptor
import GentooxLoader.Flash.Rounds
import GentooxLoader.Flash.Errors
import GentooxLoader.Net.FileIndex
import GentooxLoader.Net.Response
import GentooxLoader.Net.WebWrites
import GentooxLoader.Net.HeaderBlock
import GentooxLoader.Base.Edges
import GentooxLoader.Usb.RiseFall
import GentooxLoader.Menu.Editors
import GentooxLoader.Base.Chains
import GentooxLoader.Menu.TextMenu
import GentooxLoader.Menu.IconMenu
import GentooxLoader.Menu.IconMenuInit
import GentooxLoader.Ide.SwapTrim
import GentooxLoader.Ide.Encoding
import GentooxLoader.Config.Built
import GentooxLoader.Config.Linked
import GentooxLoader.Config.Pointer
import GentooxLoader.Config.Default
import GentooxLoader.Config.Append
import GentooxLoader.Heap.Small
import GentooxLoader.Menu.Calls
import GentooxLoader.Menu.BootMenu
import GentooxLoader.Menu.NativeIcons
import GentooxLoader.Pci.I2cIo
import GentooxLoader.Pci.ConfigSpace
import GentooxLoader.Video.StringWidth
import GentooxLoader.Video.FocusPll
import GentooxLoader.Video.Focus
import GentooxLoader.Video.ProgressBar
import GentooxLoader.Base.BitOrder
import GentooxLoader.Base.PrefixCodes
import GentooxLoader.Gzip.HuftBuild
import GentooxLoader.Gzip.Tables
import GentooxLoader.Gzip.Deflate
import GentooxLoader.Gzip.Lengths
import GentooxLoader.Base.Rings
import GentooxLoader.Gzip.Bits
import GentooxLoader.Base.Registers
import GentooxLoader.Base.Outcomes
import GentooxLoader.Gzip.Crc
import GentooxLoader.Gzip.Window
import GentooxLoader.Gzip.Codes
import GentooxLoader.Gzip.Blocks
import GentooxLoader.Gzip.Gunzip
import GentooxLoader.Gzip.AnyInput
import GentooxLoader.Grub.Ext2
