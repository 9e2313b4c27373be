import JudoEngine.Lib.Linked
import JudoEngine.Lib.Words
import JudoEngine.Lib.Monitor
import JudoEngine.Queue
import JudoEngine.Queue.HandOver
import JudoEngine.Queue.Destructor
import JudoEngine.ConcurBlockingQueue.Model
import JudoEngine.ConcurBlockingQueue.Invariants
import JudoEngine.ConcurBlockingQueue.Fifo
import JudoEngine.ConcurBlockingQueue.WakeUp
import JudoEngine.ConcurBlockingQueue.ShutOut
import JudoEngine.ConcurBlockingQueue.Supply
import JudoEngine.ConcurBlockingQueue.Priority
import JudoEngine.ConcurBlockingQueue.Rest
import JudoEngine.Lib.Memory
import JudoEngine.Lib.Prog
import JudoEngine.Lib.Threads
import JudoEngine.Lib.Obeys
import JudoEngine.Lib.Lifetime
import JudoEngine.Lib.Recorded
import JudoEngine.Lib.CString
import JudoEngine.Lib.History
import JudoEngine.Lib.Progress
import JudoEngine.DualDynamicArray
import JudoEngine.DualDynamicArray.Bag
import JudoEngine.DualDynamicArray.Capacity
import JudoEngine.DualDynamicArray.Cost
import JudoEngine.LoggyMcLogFace
import JudoEngine.LoggyMcLogFace.Construction
import JudoEngine.LoggyMcLogFace.Format
import JudoEngine.LoggyMcLogFace.Registry
import JudoEngine.LoggyMcLogFace.Atomicity
import JudoEngine.LoggyMcLogFace.Survival
import JudoEngine.JudoServer.Model
import JudoEngine.JudoServer.Connection
import JudoEngine.JudoServer.Exits
import JudoEngine.JudoServer.Reassembly
import JudoEngine.JudoServer.Packets
import JudoEngine.JudoServer.Stream
import JudoEngine.JudoServer.Wire
import JudoEngine.JudoServer.Senders
import JudoEngine.JudoServer.Link
import JudoEngine.JudoServer.Calls
import JudoEngine.JudoServer.Session
import JudoEngine.JudoServer.Deadlock
import JudoEngine.JudoServer.Negotiation
import JudoEngine.JudoServer.Run
import JudoEngine.JudoServer.Life
import JudoEngine.JudoServer.Flags
import JudoEngine.JudoServer.Downgrade
import JudoEngine.JudoServer.AccessSafety
import JudoEngine.JudoServer.Service
import JudoEngine.JudoServer.Budget
import JudoEngine.JudoServer.ConnectionTable
import JudoEngine.JudoServer.Nodes
import JudoEngine.JudoServer.Handling
import JudoEngine.JudoServer.NodeLife
import JudoEngine.JudoServer.Sealed
import JudoEngine.JudoServer.Destruction
import JudoEngine.JudoServer.Indeterminate
import JudoEngine.JudoServer.Sending
import JudoEngine.JudoServer.Handshake
import JudoEngine.JudoServer.FacingHandshakes
import JudoEngine.JudoServer.Tickets
import JudoEngine.JudoServer.SetUp
import JudoEngine.JudoServer.Releases
import JudoEngine.JudoServer.FailedPoll
import JudoEngine.JudoServer.Draining
import JudoEngine.JudoServer.CharArrays
import JudoEngine.JudoServer.Descriptors
import JudoEngine.JudoServer.Reception
import JudoEngine.JudoServer.Opening
import JudoEngine.JudoServer.Logging
