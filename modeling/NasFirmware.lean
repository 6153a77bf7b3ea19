import NasFirmware.Lib.Loop
import NasFirmware.Lzss.Model
import NasFirmware.Lib.Chain
import NasFirmware.Lzss.Tree
import NasFirmware.Lib.Window
import NasFirmware.Lzss.Units
import NasFirmware.Lzss.Decoder
import NasFirmware.Lzss.Encoder
import NasFirmware.Lzss.RoundTrip
import NasFirmware.Lib.Mem
import NasFirmware.Mib.Model
import NasFirmware.Mib.Elements
import NasFirmware.Mib.Schema
import NasFirmware.Mib.RoundTrip
import NasFirmware.Apmib.Model
import NasFirmware.Apmib.SaveLoad
import NasFirmware.Factory.Model
import NasFirmware.Tar.Header
import NasFirmware.Tar.Archive
import NasFirmware.Factory.Map
import NasFirmware.Factory.Root
import NasFirmware.Factory.Save
import NasFirmware.Factory.Crash
import NasFirmware.BigInt.Model
import NasFirmware.BigInt.Arith
import NasFirmware.BigInt.Reduce
import NasFirmware.BigInt.Power
import NasFirmware.Lib.Redirect
import NasFirmware.Nand.Model
import NasFirmware.Nand.Remap
import NasFirmware.Nand.ReadBack
import NasFirmware.Nand.Confined
import NasFirmware.BigInt.Signature
import NasFirmware.Mtd.Model
import NasFirmware.Mtd.Offset
import NasFirmware.Apmib.Hardware
import NasFirmware.Apmib.Sector
import NasFirmware.Igmp.Model
import NasFirmware.Igmp.Sources
import NasFirmware.Igmp.ToEx
import NasFirmware.Igmp.Routes
import NasFirmware.Igmp.Runs
import NasFirmware.Lib.Flood
import NasFirmware.Mesh.Flooding
import NasFirmware.Mesh.LoopFree
import NasFirmware.Nand.Persist
import NasFirmware.Dot11k.Model
import NasFirmware.Dot11k.Neighbors
import NasFirmware.Bluetooth.Accounting
import NasFirmware.Bluetooth.Links
import NasFirmware.Bluetooth.HidStatus
import NasFirmware.Lib.Framing
import NasFirmware.Bluetooth.Reassembly
import NasFirmware.Bluetooth.Driver
import NasFirmware.Bluetooth.Sessions
import NasFirmware.Bluetooth.Signalling
import NasFirmware.Bluetooth.Download
import NasFirmware.Boot.Model
import NasFirmware.Boot.Table
import NasFirmware.Lib.Chained
import NasFirmware.Nvram.Model
import NasFirmware.Nvram.Reopen
import NasFirmware.Nvram.Map
import NasFirmware.Factory.Newest
import NasFirmware.Tar.Walk
import NasFirmware.Factory.Retry
import NasFirmware.Factory.Sanity
import NasFirmware.Lib.Patch
import NasFirmware.Mib.Order
import NasFirmware.Apmib.Rate
import NasFirmware.Apmib.Bounds
import NasFirmware.Apmib.Failure
import NasFirmware.Apmib.Tables
import NasFirmware.Mib.Scan
import NasFirmware.Nand.PowerLoss
import NasFirmware.Igmp.Routable
import NasFirmware.Igmp.Bookkeeping
import NasFirmware.Igmp.Leaks
import NasFirmware.Igmp.Overread
import NasFirmware.Dot11k.FrameBody
import NasFirmware.Dot11k.Stations
import NasFirmware.Igmp.Checksum
import NasFirmware.Lib.Provenance
import NasFirmware.Mesh.Election
import NasFirmware.Mesh.Hops
import NasFirmware.Dot11k.Buffers
import NasFirmware.Mcp.Hashes
import NasFirmware.BigInt.Product
import NasFirmware.Bootparam.Evaluate
import NasFirmware.Bootparam.Value
