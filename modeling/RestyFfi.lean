import RestyFfi.Base.Transition
import RestyFfi.Base.Calls
import RestyFfi.Base.Counting
import RestyFfi.Base.Arena
import RestyFfi.Base.BlockHeap
import RestyFfi.Base.Placement
import RestyFfi.Base.Lanes
import RestyFfi.Base.TailQueue
import RestyFfi.Base.CString
import RestyFfi.Base.Numeral
import RestyFfi.Base.Word
import RestyFfi.Queue.Basic
import RestyFfi.Queue.Pointers
import RestyFfi.Queue.Failure
import RestyFfi.Queue.Pollers
import RestyFfi.Queue.Accounting
import RestyFfi.Queue.Teardown
import RestyFfi.Lua.Registry
import RestyFfi.Lua.RegistryInv
import RestyFfi.Lua.System
import RestyFfi.Lua.Unload
import RestyFfi.Lua.Library
import RestyFfi.Lua.Ledger
import RestyFfi.Lua.Stranded
import RestyFfi.Lua.Isolation
import RestyFfi.Lua.BuildId
import RestyFfi.Lua.NoteWalk
import RestyFfi.Worker.Basic
import RestyFfi.Worker.Ownership
import RestyFfi.Worker.History
import RestyFfi.Worker.Matching
import RestyFfi.Worker.Cleanup
import RestyFfi.Worker.Notify
import RestyFfi.Worker.Delivery
import RestyFfi.Worker.Handout
import RestyFfi.Runtime.Echo
import RestyFfi.Runtime.Csv
import RestyFfi.Runtime.Python
import RestyFfi.Runtime.ClassLoader
import RestyFfi.Runtime.Java
import RestyFfi.Runtime.Node
import RestyFfi.Runtime.NodeSession
import RestyFfi.Runtime.JavaOpts
import RestyFfi.Runtime.InitLock
import RestyFfi.Runtime.Serving
import RestyFfi.Runtime.Order
import RestyFfi.Runtime.Rpc
import RestyFfi.Runtime.Configured
import RestyFfi.Runtime.Progress
import RestyFfi.Runtime.ServeLoop
import RestyFfi.Runtime.Programs
import RestyFfi.Runtime.Benchmark
