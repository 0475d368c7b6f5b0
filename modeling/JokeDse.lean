import JokeDse.Lib.MachineInt
import JokeDse.Lib.LittleEndian
import JokeDse.Lib.Framing
import JokeDse.Lib.Paths
import JokeDse.Lib.Runs
import JokeDse.Lib.Slots
import JokeDse.Lib.Crc
import JokeDse.Lib.Tokens
import JokeDse.Lib.Calendar
import JokeDse.Basic
import JokeDse.Crc32
import JokeDse.FileHeader
import JokeDse.Checksum
import JokeDse.MemMerge
import JokeDse.MergeCopies
import JokeDse.Session
import JokeDse.Delivery
import JokeDse.Reading
import JokeDse.Stream
import JokeDse.Faults
import JokeDse.Bounds
import JokeDse.Recovery
import JokeDse.Retention
import JokeDse.SendFile
import JokeDse.Transfer
import JokeDse.Unfinished
import JokeDse.SavePath
import JokeDse.Scan
import JokeDse.ScanResult
import JokeDse.Filter
import JokeDse.SourcePath
import JokeDse.StopEvent
import JokeDse.Workers
import JokeDse.Counters
import JokeDse.Pool
import JokeDse.ClearClient
import JokeDse.Placement
import JokeDse.Monitor
import JokeDse.Disconnects
import JokeDse.Handler
import JokeDse.Server
import JokeDse.FileList
import JokeDse.SavedFiles
import JokeDse.Clients
import JokeDse.OldReceiver
import JokeDse.SystemTime
import JokeDse.CharWidth
import JokeDse.HexText
import JokeDse.Lib.Kmp
import JokeDse.StrFind
import JokeDse.TrimSpace
import JokeDse.DirectoryTree
import JokeDse.StatSection
import JokeDse.HttpRecv
import JokeDse.HttpStream
import JokeDse.Lib.CrcUp
import JokeDse.Crc16
import JokeDse.FileFrame
import JokeDse.Lib.Terminated
import JokeDse.Runlog
import JokeDse.Lib.Shares
import JokeDse.Together
import JokeDse.Apart
import JokeDse.Lib.Versions
import JokeDse.FileSystem
import JokeDse.OneSession
import JokeDse.EndToEnd
import JokeDse.Mirror
import JokeDse.Lib.Progress
import JokeDse.Returning
import JokeDse.Traffic
import JokeDse.Lib.Events
import JokeDse.Injection
import JokeDse.Searches
import JokeDse.Rows
import JokeDse.StartStop
import JokeDse.Sleepers
import JokeDse.FailedStart
import JokeDse.Stopping
