import Ar7Qemu.Lib.ByteStore
import Ar7Qemu.Block.HostFile
import Ar7Qemu.Qcow2.State
import Ar7Qemu.Qcow2.Reliable
import Ar7Qemu.Qcow2.Refcount
import Ar7Qemu.Qcow2.RefcountLookup
import Ar7Qemu.Qcow2.Cluster
import Ar7Qemu.Qcow2.Lookup
import Ar7Qemu.Qcow2.Io
import Ar7Qemu.Qcow2.View
import Ar7Qemu.Qcow2.Aio
import Ar7Qemu.Qcow2.AioRead
import Ar7Qemu.Qcow2.Snapshot
import Ar7Qemu.Qcow2.Check
import Ar7Qemu.Qcow2.Create
import Ar7Qemu.Qcow2.CreateLayout
import Ar7Qemu.Qcow2.CreateOpen
import Ar7Qemu.Qcow2.RunLookup
import Ar7Qemu.Qcow2.AllocRun
import Ar7Qemu.Qcow2.L1Index
import Ar7Qemu.Qcow2.RefcountFrame
import Ar7Qemu.Qcow2.SnapshotTable
import Ar7Qemu.Qcow2.L2Runs
import Ar7Qemu.Block.Commit
import Ar7Qemu.Lib.Run
import Ar7Qemu.Lib.Frame
import Ar7Qemu.Block.Dma
import Ar7Qemu.Block.DmaRun
import Ar7Qemu.Migration.QemuFile
import Ar7Qemu.Migration.Ram
import Ar7Qemu.Migration.RamLive
import Ar7Qemu.Migration.Savevm
import Ar7Qemu.Migration.SavevmRoundTrip
import Ar7Qemu.Migration.BufferedFile
import Ar7Qemu.Migration.FileBuffer
import Ar7Qemu.Mips.Cpu
import Ar7Qemu.Mips.Interrupts
import Ar7Qemu.Mips.MmuSound
import Ar7Qemu.Mips.Random
import Ar7Qemu.Mips.Resume
import Ar7Qemu.Mips.TimerSound
import Ar7Qemu.Mips.Unaligned
import Ar7Qemu.Tcg.Op
import Ar7Qemu.Tcg.Liveness
import Ar7Qemu.Tcg.Semantics
import Ar7Qemu.Tcg.LivenessSound
import Ar7Qemu.Tcg.ExpandSound
import Ar7Qemu.Tcg.WideShift
import Ar7Qemu.Tcg.OptionalSound
import Ar7Qemu.Tcg.Temps
import Ar7Qemu.Tcg.Pool
import Ar7Qemu.Exec.Tb
import Ar7Qemu.Exec.JmpCache
import Ar7Qemu.Exec.TbFindPc
import Ar7Qemu.Lib.Chain
import Ar7Qemu.Exec.TbLists
import Ar7Qemu.Exec.TbListsSound
import Ar7Qemu.Exec.TbReset
import Ar7Qemu.Exec.CodeProtectSound
import Ar7Qemu.Exec.CodeBitmap
import Ar7Qemu.Exec.PageFlags
import Ar7Qemu.Ar7.Intc
import Ar7Qemu.Ar7.Emac
import Ar7Qemu.Ar7.EmacRun
import Ar7Qemu.Ar7.EmacSafety
import Ar7Qemu.Ar7.IoMem
import Ar7Qemu.Ar7.IoMemSound
import Ar7Qemu.Ar7.Mdio
import Ar7Qemu.Ar7.EmacStats
import Ar7Qemu.Ar7.Timer
import Ar7Qemu.Ar7.Watchdog
import Ar7Qemu.Hw.EepromProtocol
import Ar7Qemu.Hw.EepromRange
import Ar7Qemu.Hw.Eepro100
import Ar7Qemu.Hw.Eepro100Intr
import Ar7Qemu.Hw.Eepro100Rx
import Ar7Qemu.Hw.Eepro100Save
import Ar7Qemu.Hw.Eepro100Bounded
import Ar7Qemu.Hw.Eepro100SaveSound
import Ar7Qemu.Hw.Eepro100Tx
import Ar7Qemu.Lib.RingIndex
import Ar7Qemu.Virtio.Queue
import Ar7Qemu.Virtio.QueueSound
import Ar7Qemu.Virtio.QueueFill
import Ar7Qemu.Virtio.QueueBounds
import Ar7Qemu.Virtio.Blk
import Ar7Qemu.Virtio.BlkSound
import Ar7Qemu.Net.Vlan
import Ar7Qemu.Hw.I8259
import Ar7Qemu.Hw.I8259Sound
import Ar7Qemu.Block.Nbd
import Ar7Qemu.Block.NbdSound
import Ar7Qemu.Lib.Results
import Ar7Qemu.Block.NbdClient
import Ar7Qemu.Block.ByteRequest
import Ar7Qemu.Block.AioHandlerSound
import Ar7Qemu.Lib.RingFifo
import Ar7Qemu.Hw.Ptimer
import Ar7Qemu.Hw.PtimerSound
import Ar7Qemu.Hw.Serial
import Ar7Qemu.Hw.SerialSound
import Ar7Qemu.Hw.SerialIrq
import Ar7Qemu.Hw.SerialSave
import Ar7Qemu.Lib.FlashArray
import Ar7Qemu.Hw.PflashCfi02
import Ar7Qemu.Hw.PflashCfi02Sound
import Ar7Qemu.Hw.PflashCfi01
import Ar7Qemu.Hw.PflashCfi01Sound
import Ar7Qemu.Lib.Record
import Ar7Qemu.Block.Vpc
import Ar7Qemu.Block.VpcLayout
import Ar7Qemu.Block.VpcWrite
import Ar7Qemu.Block.VpcOpen
import Ar7Qemu.Block.VpcSound
import Ar7Qemu.Exec.PhysMap
import Ar7Qemu.Exec.PhysRegister
import Ar7Qemu.Exec.PhysUnmap
import Ar7Qemu.Exec.RamBlocks
import Ar7Qemu.Exec.SoftMmuSound
import Ar7Qemu.Vl.Acl
import Ar7Qemu.Vl.BottomHalf
import Ar7Qemu.Vl.Calendar
import Ar7Qemu.Vl.Ticks
import Ar7Qemu.Vl.Timers
import Ar7Qemu.Lib.Wide
import Ar7Qemu.Exec.HostUtils
import Ar7Qemu.Block.VpcGeometry
import Ar7Qemu.Block.VpcBounds
import Ar7Qemu.Lib.Framing
import Ar7Qemu.Net.Socket
import Ar7Qemu.Net.Sendv
import Ar7Qemu.Lib.ByteList
import Ar7Qemu.Gdb.Packet
import Ar7Qemu.Gdb.ReadByte
import Ar7Qemu.Lib.CString
import Ar7Qemu.Gdb.Commands
import Ar7Qemu.Gdb.CommandsSafe
import Ar7Qemu.Virtio.NetFilter
import Ar7Qemu.Virtio.NetFilterSound
import Ar7Qemu.Lib.ScaledDiv
import Ar7Qemu.Lib.Scatter
import Ar7Qemu.Virtio.NetReceive
import Ar7Qemu.Virtio.NetReceiveSound
import Ar7Qemu.Monitor.Expr
import Ar7Qemu.Monitor.ExprPrint
import Ar7Qemu.Monitor.ExprSound
import Ar7Qemu.Hw.Nand
import Ar7Qemu.Hw.NandStore
import Ar7Qemu.Hw.NandSound
