import IoJournal.Wire.JsonParse
import IoJournal.Wire.Calendar
import IoJournal.Wire.Buffer
import IoJournal.Wire.PrintG
import IoJournal.Wire.Writes
import IoJournal.Wire.Pieces
import IoJournal.EventCopy
import IoJournal.Denylist
import IoJournal.ArenaLayout
import IoJournal.Timestamp
import IoJournal.NonInterference
import IoJournal.EscapeFlags
import IoJournal.RedactionPaths
import IoJournal.KeptFields
import IoJournal.FileSinkSpec
import IoJournal.RotatingStore
import IoJournal.SizeLimit
import IoJournal.RetentionFailure
import IoJournal.RotationFailure
import IoJournal.RotationCollision
import IoJournal.TornLines
import IoJournal.TcpStream
import IoJournal.ConsoleSink
import IoJournal.Delivery
import IoJournal.Descriptors
import IoJournal.Shutdown
import IoJournal.PayloadSize
import IoJournal.NdjsonStream
import IoJournal.RedactionPolicy
import IoJournal.Utf8Reads
import IoJournal.SyslogMessage
import IoJournal.RingErrors
import IoJournal.RingThreads
import IoJournal.IntegerText
import IoJournal.RedactKernels
import IoJournal.EncodeBounds
import IoJournal.TimestampRange
import IoJournal.Journal
import IoJournal.SyslogJournal
import IoJournal.FileJournal
import IoJournal.LoggerSpec
import IoJournal.BackendAgreement
import IoJournal.EventMemory
import IoJournal.SinkMemory
import IoJournal.LoggerMemory
import IoJournal.CrashConsistency
import IoJournal.CrashJournal
import IoJournal.RotationOrder
import IoJournal.RotationTimes
import IoJournal.SimdCache
import IoJournal.UringWrites
import IoJournal.Runs.Machine
import IoJournal.Runs.Monitor
import IoJournal.Runs.SegmentedLog
import IoJournal.Runs.Circular
import IoJournal.Runs.Fifo
import IoJournal.Runs.Greedy
import IoJournal.Runs.Allocation
import IoJournal.Runs.Relaxed
import IoJournal.Runs.Completions
