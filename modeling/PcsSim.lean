import PcsSim.Lib.Runs
import PcsSim.Lib.Stock
import PcsSim.Lib.Threads
import PcsSim.Lib.Circular
import PcsSim.Lib.Objects
import PcsSim.Lib.DropOldest
import PcsSim.RingBuffer.Basic
import PcsSim.RingBuffer.Contents
import PcsSim.RingBuffer.Fifo
import PcsSim.Lib.CString
import PcsSim.StateMachine.Sm
import PcsSim.Mqtt.World
import PcsSim.Mqtt.StateMachine
import PcsSim.Mqtt.Outline
import PcsSim.Mqtt.LifeCycle
import PcsSim.Mqtt.ConnLost
import PcsSim.Mqtt.TxBuffer
import PcsSim.Mqtt.Transmit
import PcsSim.Mqtt.Insert
import PcsSim.Mqtt.Spool
import PcsSim.Mqtt.Conserve
import PcsSim.Lib.WordMemory
import PcsSim.Mdl
import PcsSim.Modbus.Holding
import PcsSim.Modbus.Frame
import PcsSim.Modbus.Context
import PcsSim.Modbus.Functions
import PcsSim.Modbus.Reads
import PcsSim.Modbus.Writes
import PcsSim.Modbus.Rtu
import PcsSim.Modbus.Line
import PcsSim.Modbus.Poll
import PcsSim.Modbus.Memory
import PcsSim.Lib.Reader
import PcsSim.Lib.CCalls
import PcsSim.CJson.Basic
import PcsSim.CJson.Parse
import PcsSim.CJson.WellFormed
import PcsSim.CJson.Compose
import PcsSim.Cloud.Recv
import PcsSim.Cloud.Handled
import PcsSim.Cloud.Answer
import PcsSim.Tb.Recv
import PcsSim.Cloud.Safety
import PcsSim.Lib.TimedLock
import PcsSim.Tb.Lock
import PcsSim.Lib.Transcript
import PcsSim.Shm.Model
import PcsSim.Shm.Exchange
import PcsSim.Shm.Fresh
import PcsSim.Cloud.Echo
import PcsSim.Cloud.SetUab
import PcsSim.Lib.Binary64
import PcsSim.Modbus.Representable
import PcsSim.Lib.PaddedReads
import PcsSim.Lib.Handles
import PcsSim.Chan.Basic
import PcsSim.Chan.Context
import PcsSim.Chan.Retry
import PcsSim.Chan.TcpservCan
import PcsSim.Tbmqtt.StateMachine
import PcsSim.Tbmqtt.LifeCycle
import PcsSim.Lib.CharArray
import PcsSim.Mqtt.MsgArrvd
import PcsSim.Cloud.OnlyUab
import PcsSim.CJson.Plain
import PcsSim.Cloud.Decodes
import PcsSim.Mqtt.SpoolCall
import PcsSim.Mqtt.SpoolStep
import PcsSim.Mqtt.SpoolLimit
import PcsSim.Lib.DelimitedToken
import PcsSim.Mqtt.Cache
import PcsSim.Mqtt.CacheRoundTrip
import PcsSim.StateMachine.Timing
import PcsSim.Cloud.Identifiers
import PcsSim.Misc.Mac
import PcsSim.Lib.Gregorian
import PcsSim.Misc.DayDiff
import PcsSim.Lib.ExchangeSort
import PcsSim.Component.List
import PcsSim.Misc.CreateDir
import PcsSim.Chan.Init
import PcsSim.Chan.Load
import PcsSim.Chan.Transmit
import PcsSim.Chan.Accepted
import PcsSim.Lib.Crc
import PcsSim.Modbus.Crc
import PcsSim.Modbus.Delivery
import PcsSim.Modbus.Broadcast
import PcsSim.Modbus.Exchange
import PcsSim.Libmodbus.Rtu
import PcsSim.Libmodbus.Receive
import PcsSim.Libmodbus.Frames
import PcsSim.Libmodbus.Master
import PcsSim.Libmodbus.Session
import PcsSim.Chan.Requests
import PcsSim.Lib.Significant
import PcsSim.Lib.GeneralFormat
import PcsSim.CJson.Numerals
import PcsSim.CJson.Print
import PcsSim.CJson.RoundTrip
import PcsSim.Lib.Double
import PcsSim.CJson.Digits
import PcsSim.CJson.Reprint
import PcsSim.Cloud.Report
