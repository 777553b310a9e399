import Daenet.Lib.Double
import Daenet.Lib.Bytes
import Daenet.Lib.Clockwise
import Daenet.Lib.Walk
import Daenet.Lib.Circle
import Daenet.Lib.Stabilize
import Daenet.Lib.Swap
import Daenet.Lib.Congruential
import Daenet.Lib.Chain
import Daenet.Lib.Runs
import Daenet.Lib.Slots
import Daenet.Lib.Slide
import Daenet.Lib.HeapOrder
import Daenet.Lib.Tiling
import Daenet.Lib.Strides
import Daenet.Lib.Absorb
import Daenet.Lib.Partial
import Daenet.Lib.Words
import Daenet.Ref.Packet
import Daenet.Ref.Node
import Daenet.Ref.Handler
import Daenet.Ref.Datagram
import Daenet.Ref.RandomQueue
import Daenet.Ref.ShufflePool
import Daenet.Ref.DAESocket
import Daenet.Ref.System
import Daenet.Ref.Frame
import Daenet.Ref.TcpSocket
import Daenet.Ref.TorSocket
import Daenet.Ref.LoopixSocket
import Daenet.Ref.Heap
import Daenet.Ref.OrderedVector
import Daenet.Ref.DAESimulator
import Daenet.Ref.BufferSend
import Daenet.Spec.Ring
import Daenet.Spec.Session
import Daenet.Proofs.Handlers
import Daenet.Proofs.InRange
import Daenet.Proofs.Routing
import Daenet.Proofs.Rendezvous
import Daenet.Proofs.Logarithmic
import Daenet.Proofs.Pingpong
import Daenet.Proofs.Conserve
import Daenet.Proofs.DeadDrop
import Daenet.Proofs.Datagrams
import Daenet.Proofs.Duplicates
import Daenet.Proofs.Payload
import Daenet.Proofs.Pool
import Daenet.Proofs.Frames
import Daenet.Proofs.Framing
import Daenet.Proofs.Onion
import Daenet.Proofs.Maintenance
import Daenet.Proofs.Identity
import Daenet.Proofs.Steps
import Daenet.Proofs.Failures
import Daenet.Proofs.Ideal
import Daenet.Proofs.Joins
import Daenet.Proofs.Converge
import Daenet.Proofs.Overwrite
import Daenet.Proofs.Backups
import Daenet.Proofs.FixFingers
import Daenet.Proofs.Failover
import Daenet.Proofs.Swaps
import Daenet.Proofs.Exchange
import Daenet.Proofs.Notify
import Daenet.Proofs.Spread
import Daenet.Proofs.Recv
import Daenet.Proofs.BadFrame
import Daenet.Proofs.Requests
import Daenet.Proofs.Loopix
import Daenet.Proofs.Heap
import Daenet.Proofs.HeapOrder
import Daenet.Proofs.OrderedVector
import Daenet.Proofs.NearNeighbour
import Daenet.Proofs.Neighbours
import Daenet.Proofs.FileBlocks
import Daenet.Proofs.PingClient
import Daenet.Proofs.Reports
import Daenet.Proofs.Simulator
import Daenet.Proofs.RingSize
import Daenet.Proofs.RandomArray
import Daenet.Proofs.Checksum
import Daenet.Proofs.Monitor
import Daenet.Proofs.FileService
import Daenet.Proofs.PoissionPool
import Daenet.Proofs.SocketConfig
import Daenet.Proofs.ConfigFile
import Daenet.Proofs.Deployment
import Daenet.Proofs.PoolSimulator
import Daenet.Proofs.BufferSend
