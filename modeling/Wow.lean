import Wow.Lib.Rd
import Wow.Lib.Duplex
import Wow.Lib.Monitor
import Wow.Lib.Fair
import Wow.Lib.Stream
import Wow.Lib.Crc
import Wow.Modbus.Integrity
import Wow.Modbus.WriteMultiple
import Wow.Modbus.Chunks
import Wow.Encrypt.CrcParams
import Wow.Utils.ByteArray
import Wow.Iec10x.Base
import Wow.Iec104.Frame
import Wow.Iec104.Link
import Wow.Iec104.Loop
import Wow.Iec104.Objects
import Wow.Iec104.Slave
import Wow.Iec104.Master
import Wow.Iec104.Contracts
import Wow.Iec104.Numbering
import Wow.Iec104.Interrogation
import Wow.Iec104.Exchange
import Wow.Iec104.Command
import Wow.Iec104.CallEnd
import Wow.Iec104.Capacity
import Wow.Iec104.Gating
import Wow.Iec104.Timers
import Wow.Iec104.ConnectTimeout
import Wow.Iec104.LinkTest
import Wow.Iec104.Reassembly
import Wow.Iec104.Bounds
import Wow.Iec104.Fidelity
import Wow.Iec104.Spontaneous
import Wow.Iec10x.Pending
import Wow.Iec104.Pending
import Wow.Iec101.Frame
import Wow.Iec101.Link
import Wow.Iec101.Slave
import Wow.Iec101.Master
import Wow.Iec101.Grouping
import Wow.Iec101.Requests
import Wow.Iec101.Failures
import Wow.Iec101.Receive
import Wow.Iec101.Wire
import Wow.Iec101.Domains
import Wow.Iec101.Pair
import Wow.Iec101.Dialogue
import Wow.Iec101.Interrogation
import Wow.Iec101.Completion
import Wow.Iec101.Unfinished
import Wow.Iec101.Monitoring
import Wow.Iec101.CommandSafety
import Wow.Iec101.Pending
import Wow.Iec101.CheckSumLoop
import Wow.Iec101.Confirmation
import Wow.Iec101.Execution
import Wow.Lib.CNum
import Wow.Lib.Block
import Wow.Utils.RingBuff
import Wow.Utils.ByteArrayGrowth
import Wow.Utils.ByteArraySlice
import Wow.Utils.WowString
import Wow.Utils.WowStringRefine
import Wow.Lib.Calendar
import Wow.System.Time
import Wow.System.TimeRound
import Wow.System.TimeRtc
import Wow.System.TimeCp56
import Wow.Encrypt.Crc
import Wow.Modbus.Base
import Wow.Modbus.Backend
import Wow.Modbus.Receive
import Wow.Modbus.Master
import Wow.Modbus.Slave
import Wow.Modbus.Exchange
import Wow.Modbus.Agreement
import Wow.Modbus.Encoding
import Wow.Modbus.Replies
import Wow.Modbus.Framing
import Wow.Modbus.Confirm
import Wow.Modbus.Session
import Wow.Modbus.Late
import Wow.Lib.Cells
import Wow.Base.Slist
import Wow.Base.SlistRefine
import Wow.Lib.Avl
import Wow.Base.CString
import Wow.Base.KvList
import Wow.Base.KvListTree
import Wow.Base.KvListAvl
import Wow.Base.KvListHeap
import Wow.Base.KvListMap
import Wow.Base.Ipc
import Wow.Base.IpcWait
import Wow.Base.IpcServer
import Wow.Base.IpcServerRoute
import Wow.Base.IpcLength
import Wow.Iot.Element
import Wow.Iot.HashMap
import Wow.Iot.HashMapRefine
import Wow.Iot.HashMapBytes
import Wow.Iot.Database
import Wow.Iot.DatabaseRows
import Wow.Iot.SqlLog
import Wow.Iot.SqlLogState
import Wow.Iot.SqlLogRead
import Wow.Iot.SqlLogBound
import Wow.Iot.SqlLogExtreme
import Wow.Lib.FileOctets
import Wow.Lib.Decimal
import Wow.Lib.LogWindow
import Wow.Iot.LogFile
import Wow.Iot.LogFileRing
import Wow.Iot.LogFileKept
import Wow.Lib.Stdio
import Wow.Base.Hfile
import Wow.Base.HfileSame
import Wow.Lib.Heap
import Wow.Utils.MemLeak
import Wow.Utils.MemLeakMirror
import Wow.Utils.TypeParse
import Wow.Utils.TypeDouble
import Wow.Lib.CInt
import Wow.Iot.DatabaseVal
import Wow.Utils.StrReplace
import Wow.Utils.StrReplaceRight
import Wow.Utils.Singleton
import Wow.Utils.TypeArrays
import Wow.Utils.TypeRegisters
import Wow.Utils.Bcd
import Wow.Utils.Math
import Wow.Utils.Hex
import Wow.Lib.Sextets
import Wow.Lib.Bits
import Wow.Lib.Bloom
import Wow.Iot.Bloomfilter
import Wow.Lib.Printf
import Wow.Iot.ProtoData
import Wow.Lib.Runs
import Wow.Iot.Bitmap
import Wow.Iot.Base64
import Wow.Iot.Base64Limits
import Wow.Iot.Plugin
