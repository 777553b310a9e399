import Daenet.Ref.DAESocket
import Daenet.Ref.ShufflePool

/-!
# The system: relays and datagrams

A relay is one process: its node, the pool in front of its socket, the tasks
`EventTask` holds for it and the sockets its application opened. The system is
the relays and the datagrams in flight.

A step is what one of them can do at one moment, with handlers taken as
atomic: a timer of a node, a datagram handed to the node it is addressed to, a
datagram lost or duplicated, an application sending, a pool releasing. Any
datagram in flight may be the next one delivered, so reordering is not a step
of its own. `step` is total: an action that is not enabled — a datagram that
is not there, or that is addressed to another node — changes nothing. A run is
a list of actions, and what a theorem allows to happen is said about the list.
-/

namespace Daenet.Ref

/-- One process. -/
structure Relay where
  cfg : RelayConfig
  node : DAENode
  pool : PackagePool
  counters : Counters := {}
  tasks : List Task := []
  sockets : List DAESocket := []
  started : Bool := false

namespace Relay

/-- The relay `DAEService`'s constructor builds. -/
def new (cfg : RelayConfig) : Relay where
  cfg := cfg
  node := DAENode.new cfg
  pool := ShufflePool.new cfg.ringBits

/-- One effect: the relay after it, and the datagrams that went out. -/
def perform (r : Relay) : Effect → Relay × List AnonymousPacket
  | .directSend p => ({ r with counters := r.counters.directSend p }, [p])
  | .safeSend p =>
      if r.cfg.shuffle then
        match ShufflePool.send r.pool r.node.fingerTable r.node.m
            r.cfg.relayIp r.cfg.relayPort p with
        | .queued pool => ({ r with pool := pool }, [])
        | .direct => ({ r with counters := r.counters.directSend p }, [p])
        | .dropped => (r, [])
      else ({ r with counters := r.counters.directSend p }, [p])
  | .schedule t => ({ r with tasks := r.tasks ++ [t] }, [])

/-- Effects in call order. -/
def performAll (r : Relay) : List Effect → Relay × List AnonymousPacket
  | [] => (r, [])
  | e :: es =>
      let a := r.perform e
      let b := a.1.performAll es
      (b.1, a.2 ++ b.2)

/-- A handler of the node, run with its effects. -/
def handle (r : Relay) (f : DAENode → DAENode × List Effect) :
    Relay × List AnonymousPacket :=
  let a := f r.node
  { r with node := a.1 }.performAll a.2

/-- The address the relay's UDP socket is bound to. -/
def addr (r : Relay) : String × Int := (r.cfg.relayIp, r.cfg.relayPort)

/-- `DAESocket::send` on the relay's `j`-th socket. -/
def socketSend (r : Relay) (j : Nat) (buf : List UInt8) :
    Relay × List AnonymousPacket :=
  match r.sockets[j]? with
  | none => (r, [])
  | some s =>
      let a := s.send buf
      { r with sockets := r.sockets.set j a.1 }.handle fun n =>
        (n, [n.handleExternalMessaging a.2])

/-- `ShufflePool::send_batch`; a `DirectPool` holds nothing to release. -/
def sendBatch (r : Relay) (accept : Nat → Bool)
    (draws : Nat → ShufflePool.Draw) (due : Bool) :
    Relay × List AnonymousPacket :=
  if r.cfg.shuffle then
    let b := ShufflePool.sendBatch r.pool r.node.fingerTable accept draws
      r.cfg.sendDummy r.cfg.debugShuffle due r.counters
    ({ r with pool := b.pool, counters := b.counters }, b.out)
  else (r, [])

end Relay

/-- The relays and the datagrams in flight, over any set of nodes. -/
structure System (ι : Type) where
  relays : ι → Relay
  net : List AnonymousPacket

/-- What can happen. -/
inductive Act (ι : Type) where
  | join (i : ι)
  | stabilize (i : ι)
  | fixFingers (i : ι)
  | fetchSuccessorList (i : ι)
  | checkPredecessorFailure (i : ι)
  | checkSuccessorFailure (i : ι)
  | runTask (i : ι) (k : Nat)
  | deliver (i : ι) (k : Nat)
  | lose (k : Nat)
  | duplicate (k : Nat)
  | send (i : ι) (j : Nat) (buf : List UInt8)
  | sendBatch (i : ι) (accept : Nat → Bool) (draws : Nat → ShufflePool.Draw)
      (due : Bool)

namespace System

variable {ι : Type} [DecidableEq ι]

/-- Freshly constructed relays and an empty network. -/
def init (cfg : ι → RelayConfig) : System ι where
  relays := fun i => Relay.new (cfg i)
  net := []

/-- Relay `i` moves, and its datagrams join those in flight. -/
def move (s : System ι) (i : ι) (a : Relay × List AnonymousPacket) :
    System ι where
  relays := Function.update s.relays i a.1
  net := s.net ++ a.2

/-- A handler of node `i`. -/
def handle (s : System ι) (i : ι) (f : DAENode → DAENode × List Effect) :
    System ι :=
  s.move i ((s.relays i).handle f)

/-- The first thing a process does, once. -/
def join (s : System ι) (i : ι) : System ι :=
  let r := s.relays i
  if r.started then s
  else s.move i ({ r with started := true }.handle fun n =>
    n.join r.cfg.initPeers)

/-- `EventTask` runs the `k`-th task it holds for relay `i`. -/
def runTask (s : System ι) (i : ι) (k : Nat) : System ι :=
  let r := s.relays i
  match r.tasks[k]? with
  | none => s
  | some t => s.move i ({ r with tasks := r.tasks.eraseIdx k }.handle fun n =>
      n.runTask r.cfg.initPeers t)

/-- The `k`-th datagram in flight reaches node `i`, if it is addressed to it. -/
def deliver (s : System ι) (i : ι) (k : Nat) : System ι :=
  match s.net[k]? with
  | none => s
  | some p =>
      if p.dest = (s.relays i).addr then
        handle { s with net := s.net.eraseIdx k } i fun n => n.receive p
      else s

/-- One step. -/
def step (s : System ι) : Act ι → System ι
  | .join i => s.join i
  | .stabilize i => s.handle i DAENode.stabilize
  | .fixFingers i => s.handle i DAENode.fixFingers
  | .fetchSuccessorList i => s.handle i fun n => (n, n.fetchSuccessorList)
  | .checkPredecessorFailure i => s.handle i DAENode.checkPredecessorFailure
  | .checkSuccessorFailure i => s.handle i DAENode.checkSuccessorFailure
  | .runTask i k => s.runTask i k
  | .deliver i k => s.deliver i k
  | .lose k => { s with net := s.net.eraseIdx k }
  | .duplicate k => { s with net := s.net ++ s.net[k]?.toList }
  | .send i j buf => s.move i ((s.relays i).socketSend j buf)
  | .sendBatch i accept draws due =>
      s.move i ((s.relays i).sendBatch accept draws due)

/-- A run. -/
def run (s : System ι) (acts : List (Act ι)) : System ι := acts.foldl step s

end System

end Daenet.Ref
