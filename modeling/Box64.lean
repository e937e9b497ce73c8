import Box64.Lib.Transition
import Box64.Lib.Runs
import Box64.Lib.Propagate
import Box64.Lib.CarryChain
import Box64.Lib.OpenAddressing
import Box64.Lib.CallFrame
import Box64.Lib.VarArgs
import Box64.Custommem.JumpTable
import Box64.Dynarec.Dynablock
import Box64.Dynarec.DynamapInvariant
import Box64.Dynarec.CleanDB
import Box64.Custommem.Marks
import Box64.Custommem.Arena
import Box64.Custommem.ArenaWalk
import Box64.Custommem.CustomMalloc
import Box64.Custommem.DynarecMap
import Box64.Custommem.NativeLookup
import Box64.Custommem.MapMem
import Box64.Custommem.MemProt
import Box64.Custommem.ProtectionMap
import Box64.Custommem.ProtectDB
import Box64.Custommem.JumpTableFlat
import Box64.Custommem.MapMemIntervals
import Box64.Dynarec.InstSize
import Box64.Dynarec.FlagNeed
import Box64.Dynarec.FlagDemand
import Box64.Dynarec.FlagSound
import Box64.Dynarec.FlagRules
import Box64.Dynarec.Arm64
import Box64.Dynarec.EmitShift
import Box64.Dynarec.EmitFragments
import Box64.Dynarec.ShiftOverflow
import Box64.Dynarec.ShiftRuns
import Box64.Dynarec.ShiftEmitters
import Box64.Emu.State
import Box64.Emu.UpdateFlags
import Box64.Emu.Primop
import Box64.Emu.EagerFlags
import Box64.Emu.FlagLemmas
import Box64.Emu.ShiftFlags
import Box64.Emu.ProductFlags
import Box64.Emu.LazyFlags
import Box64.Emu.PendingShift
import Box64.Tools.Bridge
import Box64.Tools.BridgeSlots
import Box64.Elfs.Relocate
import Box64.Elfs.DwarfUnwind
import Box64.Elfs.UnwindRules
import Box64.Libtools.MyAlign
import Box64.Libtools.PrintfFormat
import Box64.Emu.Tls
import Box64.Emu.TlsRuns
import Box64.Dynarec.ShiftZeroCount
import Box64.Emu.Unlocked
import Box64.Emu.Locked
import Box64.Custommem.FindBlock
import Box64.Custommem.Realloc
import Box64.Emu.CarryFlags
import Box64.Emu.Division
import Box64.Lib.Rows
import Box64.Dynarec.Predecessors
import Box64.Emu.LongDouble
import Box64.Dynarec.DivEmitters
import Box64.Lib.AddressForm
import Box64.Emu.Address
import Box64.Dynarec.AddressCode
import Box64.Dynarec.Geted
import Box64.Dynarec.GetedAddress
import Box64.Dynarec.Geted32
import Box64.Emu.Run
import Box64.Emu.UpperHalf
import Box64.Emu.RotateCarry
import Box64.Lib.Leb128
import Box64.Elfs.ReadLeb128
import Box64.Dynarec.HotPage
import Box64.Dynarec.ArmFsave
import Box64.Emu.X87
import Box64.Lib.RepeatScan
import Box64.Emu.StringOps
import Box64.Libtools.FormatLoop
import Box64.Libtools.Scanf
import Box64.Libtools.Valist
import Box64.Libtools.ScanfFormat
import Box64.Elfs.CfaBytes
import Box64.Elfs.UnwindBounds
import Box64.Elfs.FdeLookup
import Box64.Librarian.Symbols
import Box64.Librarian.SymbolName
import Box64.Dynarec.NeedCalls
import Box64.Librarian.MapLib
import Box64.Dynarec.IsNops
import Box64.Lib.Lanes
import Box64.Lib.BitString
import Box64.Emu.PackedShift
import Box64.Emu.PackedShiftCounts
import Box64.Emu.Simd
import Box64.Emu.Simd660F
import Box64.Emu.Simd0F
import Box64.Emu.SimdAliasing
import Box64.Emu.BitTests
import Box64.Emu.ModRm
import Box64.Emu.RipRelative
import Box64.Emu.Run66
import Box64.Emu.RedundantPrefix
import Box64.Lib.Memo
import Box64.Librarian.SymbolCache
import Box64.Elfs.InitFini
import Box64.Elfs.AllocMemory
import Box64.Elfs.AllMapped
import Box64.Emu.SimdTransfers
import Box64.Emu.CompareExchange
import Box64.Emu.LockLoops
import Box64.Emu.LockRefinement
import Box64.Dynarec.NextInstruction
import Box64.Emu.PrefixOrder
import Box64.Lib.PostOrder
import Box64.Librarian.Teardown
import Box64.Dynarec.NeonCache
import Box64.Lib.Marking
import Box64.Lib.DoublyLinked
import Box64.Librarian.LinkMap
import Box64.Dynarec.PromoteDouble
import Box64.Dynarec.PromoteWalks
import Box64.Dynarec.PromoteConsistent
import Box64.Dynarec.CacheOps
import Box64.Dynarec.Unwind
import Box64.Dynarec.UnwindExit
import Box64.Dynarec.UnwindX87
import Box64.Dynarec.UnwindPurge
import Box64.Dynarec.UnwindSimd
import Box64.Include.Khash
import Box64.Include.KhashCells
import Box64.Include.KhashRehash
import Box64.Include.KhashRuns
import Box64.Emu.AesRounds
import Box64.Lib.CStrings
import Box64.Tools.Box64Stack
import Box64.Tools.InitialStack
import Box64.Dynarec.EmitLogic
import Box64.Dynarec.LogicEmitters
import Box64.Dynarec.LogicAgreement
import Box64.Dynarec.TestEmitters
import Box64.Dynarec.MathAgreement
