import CtiLog.Chains
import CtiLog.WholeRecord
import CtiLog.MkDirs
import CtiLog.FlushInterval
import CtiLog.Serial
import CtiLog.SizeLimit
import CtiLog.Neighbours
import CtiLog.Registry
import CtiLog.Frame
import CtiLog.NoHole
import CtiLog.Append
import CtiLog.Handles
import CtiLog.Transfer
import CtiLog.Slices
import CtiLog.MapSizes
import CtiLog.RestPosition
import CtiLog.TryLock
import CtiLog.Any
import CtiLog.TypeTag
import CtiLog.Accessors
import CtiLog.DataBundle
import CtiLog.OneWrite
import CtiLog.Locks
import CtiLog.Scopes
import CtiLog.LockOrder
import CtiLog.AnyLocks
import CtiLog.Write2Stream
import CtiLog.Constructed
import CtiLog.Notices
import CtiLog.BusyFlag
import CtiLog.LogLines
import CtiLog.Process
import CtiLog.References
import CtiLog.Restarts
import CtiLog.TornLines
import CtiLog.Levels
import CtiLog.Callbacks
import CtiLog.Create
import CtiLog.Exceptions
import CtiLog.Patch
import CtiLog.RandomAccess
import CtiLog.WinRwlock
import CtiLog.Sharing
