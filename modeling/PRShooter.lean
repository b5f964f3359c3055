import PRShooter.Acceptance
import PRShooter.BasicStructs
import PRShooter.Border
import PRShooter.BorderLoops
import PRShooter.CausalOrder
import PRShooter.CellHeap
import PRShooter.Client
import PRShooter.ClientClosed
import PRShooter.ClientInput
import PRShooter.ClientNews
import PRShooter.ClientParts
import PRShooter.ClientReceive
import PRShooter.Collisions
import PRShooter.Combat
import PRShooter.CommandDelivery
import PRShooter.Commands
import PRShooter.ConvexRegion
import PRShooter.CyclicLoop
import PRShooter.DeadPlayers
import PRShooter.Delimited
import PRShooter.Descriptors
import PRShooter.Divisors
import PRShooter.Double
import PRShooter.DoublyLinked
import PRShooter.ExactReal
import PRShooter.Framing
import PRShooter.Game
import PRShooter.GameStateCodec
import PRShooter.GrowableArray
import PRShooter.HandleMessage
import PRShooter.Health
import PRShooter.Heap
import PRShooter.Heron
import PRShooter.History
import PRShooter.HostLinearization
import PRShooter.HostOutlets
import PRShooter.HostProcess
import PRShooter.HostShutdown
import PRShooter.HostThreads
import PRShooter.Introductions
import PRShooter.Latency
import PRShooter.LinkedQueue
import PRShooter.LittleEndian
import PRShooter.LiveBuffers
import PRShooter.LockOrder
import PRShooter.Locking
import PRShooter.Lts
import PRShooter.MapCorners
import PRShooter.MapReach
import PRShooter.MapReads
import PRShooter.MapText
import PRShooter.Motions
import PRShooter.Ownership
import PRShooter.Payload
import PRShooter.Pings
import PRShooter.PlayerIds
import PRShooter.PlayersOnMap
import PRShooter.ProjectileLifetime
import PRShooter.ProjectilePath
import PRShooter.ProjectileRange
import PRShooter.Pushes
import PRShooter.QueueRefinement
import PRShooter.Receive
import PRShooter.ReceivedBuffers
import PRShooter.ReceiverThreads
import PRShooter.Roster
import PRShooter.SafeTicks
import PRShooter.Scores
import PRShooter.SegmentTest
import PRShooter.SendMessageTo
import PRShooter.SenderMoves
import PRShooter.SenderOrder
import PRShooter.SenderProgress
import PRShooter.SentBuffers
import PRShooter.Serialize
import PRShooter.SerializeBounds
import PRShooter.ServerQueue
import PRShooter.ServerThreads
import PRShooter.ServerWrapper
import PRShooter.Spacing
import PRShooter.StartReceiving
import PRShooter.Steering
import PRShooter.StopServer
import PRShooter.TakeTimeout
import PRShooter.TickFrame
import PRShooter.TriangleHeight
import PRShooter.UMap
import PRShooter.UpdateTimer
import PRShooter.Velocity
import PRShooter.WallTest
