import Aesd.Lib.Run
import Aesd.Lib.Concat
import Aesd.Lib.Ring
import Aesd.Lib.Heap
import Aesd.Lib.Delim
import Aesd.Lib.SList
import Aesd.Lib.Table
import Aesd.Lib.Monitor
import Aesd.Lib.Files
import Aesd.Driver.CircularBuffer
import Aesd.Driver.Device
import Aesd.Driver.Write
import Aesd.Driver.Commands
import Aesd.Driver.Failure
import Aesd.Driver.Read
import Aesd.Driver.Seek
import Aesd.Driver.Ownership
import Aesd.Driver.Extent
import Aesd.Driver.Bounds
import Aesd.Driver.Calls
import Aesd.Driver.Slots
import Aesd.Driver.History
import Aesd.Driver.Loading
import Aesd.Server.CtrlLine
import Aesd.Server.CtrlFormat
import Aesd.Server.CtrlMemory
import Aesd.Server.SockThread
import Aesd.Server.Protocol
import Aesd.Server.ReadLine
import Aesd.Server.Growth
import Aesd.Server.SendFile
import Aesd.Server.LastError
import Aesd.Server.World
import Aesd.Server.Events
import Aesd.Server.Visit
import Aesd.Server.Turns
import Aesd.Server.Progress
import Aesd.Server.Appends
import Aesd.Server.Answers
import Aesd.Server.Isolation
import Aesd.Server.Timestamps
import Aesd.Server.FileTurns
import Aesd.Server.Main
import Aesd.Server.Startup
import Aesd.Server.Reaper
import Aesd.Server.Drain
import Aesd.Server.Descriptors
import Aesd.Server.Signals
import Aesd.Server.Shutdown
import Aesd.Server.Service
import Aesd.Server.Finish
