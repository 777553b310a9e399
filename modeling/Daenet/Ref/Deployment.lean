import Daenet.Ref.ConfigFile

/-!
# The script that starts a network

`deploy-dae.py` draws clients and their servers among the hosts, writes a file for each of
them, and starts the nodes that are left as relays, with the same values on their command
lines. Every node gets the next of the ids that were drawn for the network, and the address
of the first relay.

What the script draws is an argument (`Plan`), and so are its constants (`Deployment`). A
command line is a list of options with their values.
-/

namespace Daenet.Ref

open Daenet.Lib

/-- What `deploy-dae.py` is told. -/
structure Deployment where
  bits : Nat
  p2pTimeBefore : Nat
  p2pTimeAfter : Nat
  msgRate : Nat
  poolSize : Nat
  shuffleP : List Char
  delay : Nat
  recheck : Nat
  checkwait : Nat
  printShuffle : Bool
  daemon : Bool
  cntInterval : Nat

/-- A host and a port. -/
abbrev Host := List Char × Nat

/-- A node that is started: an application with its file, or a relay with its options. -/
inductive Started where
  | app (file : List Char)
  | relay (args : List (CmdOption × List Char))

/-- The configuration of a node. An application is given its address when it is started,
and `initialize` puts it in. -/
def Started.readConfig {δ : Type} (stod : List Char → Option δ) (cast : LexicalCast δ) (p : δ)
    (host : Host) : Started → Option (CmdConfig δ)
  | .app file => (FileConfig.readFromFile stod p file).map fun c =>
      { relayIp := host.1, relayPort := host.2, fields := c }
  | .relay args => CmdConfig.initFromCmd cast p args

/-- What the script reads and draws: `node_ids`, half of the sample of `server_port`, the
sample, the rest, and the keys of `server_list` in the order in which they come. -/
structure Plan where
  nodeIds : List Nat
  k : Nat
  clientServers : List Host
  staticNodes : List Host
  servers : List (List Char)

/-- `server_port`. -/
def serverPort (servers : List (List Char)) (n : Nat) : List Host :=
  servers.zipIdx.flatMap fun host => (List.range n).map fun idx => (host.1, 3100 + idx + host.2)

namespace Deployment

/-- `"%s %d\n"` and the like. -/
def line (k : ConfigKey) (value : List Char) : List Char := k.name ++ ' ' :: (value ++ ['\n'])

/-- `config_content`. -/
def content (d : Deployment) : List Char :=
  line .m (toText d.bits) ++
  line .p2pTimeBefore (toText d.p2pTimeBefore) ++
  line .p2pTimeAfter (toText d.p2pTimeAfter) ++
  line .msgRate (toText d.msgRate) ++
  line .poolSize (toText d.poolSize) ++
  line .shuffleP d.shuffleP ++
  line .btTime (toText d.delay) ++
  line .recheck (toText d.recheck) ++
  line .checkwait (toText d.checkwait) ++
  (if d.printShuffle then line .debugShuffle ['t', 'r', 'u', 'e'] else []) ++
  line .debug ['T', 'r', 'u', 'e'] ++
  line .cntTime (toText d.cntInterval) ++
  line .shuffle ['s', 'h', 'u', 'f', 'f', 'l', 'e'] ++
  line .transmission ['1']

/-- The file of the client or of the server of pair `idx`; the last line has no end. -/
def file (d : Deployment) (peer : Host) (server : Bool) (idx nodeId : Nat) : List Char :=
  d.content ++
  (if server then line .server ['1'] else []) ++
  line .session (toText (idx + 1)) ++
  line .seed (toText (idx + 1)) ++
  line .key (toText nodeId) ++
  line .peerIp peer.1 ++
  (ConfigKey.peerPort.name ++ ' ' :: toText peer.2)

/-- The options of a relay. -/
def options (d : Deployment) (peer host : Host) (nodeId : Nat) :
    List (CmdOption × List Char) :=
  List.flatten
    [[(.ip, host.1), (.port, toText host.2), (.debug, ['1']), (.key, toText nodeId),
        (.cntTime, toText d.cntInterval)],
      if d.printShuffle then [(.debugShuffle, ['1'])] else [],
      [(.shuffleP, d.shuffleP), (.recheck, toText d.recheck),
        (.checkwait, toText d.checkwait), (.p2pTimeBefore, toText d.p2pTimeBefore),
        (.p2pTimeAfter, toText d.p2pTimeAfter), (.peerIp, peer.1),
        (.peerPort, toText peer.2), (.keyRange, toText d.bits),
        (.msgRate, toText d.msgRate), (.poolSize, toText d.poolSize),
        (.btTime, toText d.delay)],
      if d.daemon then [(.daemon, ['1'])] else []]

/-- The loop of `sample_servers` over the pairs; none is an index that is out of range. -/
def sampleServers (d : Deployment) (plan : Plan) (peer : Host) :
    Nat → List Nat → Option (List (Host × Started))
  | _, [] => some []
  | curCnt, idx :: idxs => do
      let client ← plan.clientServers[idx]?
      let server ← plan.clientServers[idx + plan.k]?
      let clientId ← plan.nodeIds[curCnt]?
      let serverId ← plan.nodeIds[curCnt + 1]?
      let rest ← d.sampleServers plan peer (curCnt + 2) idxs
      return (client, .app (d.file peer false idx clientId)) ::
        (server, .app (d.file peer true idx serverId)) :: rest

/-- `server_list`, host after host. -/
def serverList (plan : Plan) : List Host :=
  plan.servers.flatMap fun server => plan.staticNodes.filter fun host => host.1 == server

/-- The loop of `run_all` over the relays. -/
def runAll (d : Deployment) (plan : Plan) (peer : Host) :
    Nat → List Host → Option (List (Host × Started))
  | _, [] => some []
  | curCnt, host :: hosts => do
      let nodeId ← plan.nodeIds[curCnt]?
      let rest ← d.runAll plan peer (curCnt + 1) hosts
      return (host, .relay (d.options peer host nodeId)) :: rest

/-- The script: `sample_servers`, which leaves `cur_cnt` behind two ids for each pair, and
`run_all`. All nodes are told of the first of the static ones. -/
def deploy (d : Deployment) (plan : Plan) : Option (List (Host × Started)) := do
  let peer ← plan.staticNodes[0]?
  let apps ← d.sampleServers plan peer 0 (List.range plan.k)
  let relays ← d.runAll plan peer (2 * plan.k) (serverList plan)
  return apps ++ relays

end Deployment

end Daenet.Ref
