import Daenet.Lib.Words
import Daenet.Ref.TorSocket

/-!
# The files that name the peers

The TCP, Loopix and onion sockets read the peers from a file: a line with an address and
a port for each, and for the onion socket a key too and lines with the number of layers.
`initialize` answers the number of the node's own line, and `connect` takes such a
number. The scripts `deploy-tcp.py`, `deploy-loopix.py` and `deploy-tor.py` write the
files.

Strings are lists of characters. `inet_pton` is a parameter; it leaves the address alone
if it cannot read one. What `bind` and `listen` answer is an argument.
-/

namespace Daenet.Ref

open Daenet.Lib

/-- `std::stoi`; none is an exception. -/
def stoi (text : List Char) : Option Int := (readInt text).map Prod.fst

/-- `std::to_string` of an index. -/
def toText (n : Nat) : List Char := Nat.toDigits 10 n

/-! ## Lines with an address and a port -/

/-- `tcp_host_t`. -/
structure TcpHost where
  ip : List Char
  port : Int
  deriving DecidableEq, Repr

/-- `config >> meta_ip >> meta_port`. -/
def readHost (text : List Char) : Option (TcpHost × List Char) :=
  match readWord text with
  | none => none
  | some (ip, text) =>
      match readInt text with
      | none => none
      | some (port, text) => some (⟨ip, port⟩, text)

/-- What the scripts write. -/
def hostConfig (servers : List (List Char × Nat)) : List Char :=
  servers.flatMap fun server => server.1 ++ ' ' :: (toText server.2 ++ ['\n'])

/-- `RelayMetadata` of the TCP socket. -/
structure TcpMetadata where
  relayIdx : Int := -1
  relays : List TcpHost := []
  deriving DecidableEq, Repr

namespace TcpMetadata

/-- One turn of the loop of `initialize`, with the index of the line. -/
def addHost (ip : List Char) (port : Int) (m : TcpMetadata) (line : TcpHost × Nat) :
    TcpMetadata :=
  let m := if ip = line.1.ip ∧ port = line.1.port then { m with relayIdx := line.2 } else m
  { m with relays := m.relays ++ [line.1] }

/-- `initialize`: the id, which is empty if it fails, and the metadata. -/
def initializeRelay (bound : Bool) (ip : List Char) (port : Int) (text : List Char) :
    List Char × TcpMetadata :=
  let m := (records readHost text).zipIdx.foldl (addHost ip port) {}
  if m.relayIdx = -1 then ([], m)
  else if bound then (toText m.relayIdx.toNat, m)
  else ([], m)

/-- `connect`: whom it connects to. An index is compared as a `size_t`. -/
inductive Dialled where
  | exception
  | noSuch
  | host (h : TcpHost)
  deriving DecidableEq, Repr

def connect (m : TcpMetadata) (id : List Char) : Dialled :=
  match stoi id with
  | none => .exception
  | some idx =>
      match m.relays[(idx % 2 ^ 64).toNat]? with
      | none => .noSuch
      | some h => .host h

end TcpMetadata

/-- The loop of Loopix's `initialize`: `relay_idx`, which is zero before it, and
`relay_num`. -/
def loopixIndex (ip : List Char) (port : Int) (text : List Char) : Nat × Nat :=
  let lines := records readHost text
  (lines.zipIdx.foldl (fun relayIdx line =>
    if line.1.ip = ip ∧ line.1.port = port then line.2 else relayIdx) 0, lines.length)

/-! ## Lines with a key -/

/-- `crypto_aead_aes256gcm_KEYBYTES`. -/
def keyBytes : Nat := 32

/-- `tor_peer_t`. -/
structure TorRelay where
  ip : List Char
  port : Int
  key : List Char
  ipRaw : UInt32 := 0
  deriving DecidableEq, Repr

/-- What the circuits use of it. -/
def TorRelay.peer (r : TorRelay) : TorPeer := ⟨r.port, r.ipRaw⟩

/-- `RelayMetadata` of the onion socket; the allocation zeroes it. -/
structure TorMetadata where
  allRelays : List TorRelay := []
  torKey : List Char := []
  serverIdx : Nat := 0
  numLayers : Int := 0
  rawKey : List UInt8 := List.replicate keyBytes 0
  deriving DecidableEq, Repr

/-- What one turn of the loop reads. The key is missing only at the end of the text. -/
inductive TorLine where
  | layer (n : Int)
  | relay (ip : List Char) (port : Int) (key : Option (List Char))
  deriving DecidableEq, Repr

/-- `config_stream >> relay_ip >> relay_port`, and `config_stream >> key` unless the
line is about the layers. -/
def readTorLine (text : List Char) : Option (TorLine × List Char) :=
  match readWord text with
  | none => none
  | some (ip, text) =>
      match readInt text with
      | none => none
      | some (port, text) =>
          if ip = ['l', 'a', 'y', 'e', 'r'] then some (.layer port, text)
          else match readWord text with
            | none => some (.relay ip port none, [])
            | some (key, text) => some (.relay ip port (some key), text)

/-- `strcpy`: up to the first zero, which is copied too; the bytes after it stay. -/
def strcpy (mem : List UInt8) (text : List Char) : List UInt8 :=
  let bytes := (text.map fun c => UInt8.ofNat c.toNat).takeWhile (· ≠ 0)
  bytes ++ 0 :: mem.drop (bytes.length + 1)

/-- The variables of the loop. -/
structure TorLoop where
  metadata : TorMetadata := {}
  key : List Char := []
  findMe : Bool := false
  curIdx : Nat := 0
  deriving DecidableEq, Repr

/-- One turn of the loop; none is the return for a key that is too long. A relay is given
the key that was read before its own. -/
def TorLoop.line (ip : List Char) (port : Int) (s : TorLoop) : TorLine → Option TorLoop
  | .layer n => some { s with metadata := { s.metadata with numLayers := n } }
  | .relay relayIp relayPort read =>
      let pair : TorRelay := { ip := relayIp, port := relayPort, key := s.key }
      let key := read.getD s.key
      if relayIp = ip ∧ relayPort = port then
        if key.length ≥ keyBytes then none
        else some
          { metadata := { s.metadata with
              torKey := key
              rawKey := strcpy s.metadata.rawKey key
              serverIdx := s.curIdx
              allRelays := s.metadata.allRelays ++ [pair] }
            key := key
            findMe := true
            curIdx := s.curIdx + 1 }
      else some
        { metadata := { s.metadata with allRelays := s.metadata.allRelays ++ [pair] }
          key := key
          findMe := s.findMe
          curIdx := s.curIdx + 1 }

/-- The loop that fills in `ip_raw`: an address that cannot be read is taken to be the one
before it. -/
def rawAddresses (inetPton : List Char → Option UInt32) :
    UInt32 → List TorRelay → List TorRelay
  | _, [] => []
  | last, r :: rs =>
      let raw := (inetPton r.ip).getD last
      { r with ipRaw := raw } :: rawAddresses inetPton raw rs

namespace TorMetadata

/-- `initialize`: the id and the metadata; none if it answers the empty string. -/
def initializeRelay (inetPton : List Char → Option UInt32) (bound : Bool) (ip : List Char)
    (port : Int) (text : List Char) : Option (List Char × TorMetadata) :=
  match (records readTorLine text).foldlM (TorLoop.line ip port) {} with
  | none => none
  | some s =>
      if s.findMe && bound then
        some (toText s.metadata.serverIdx,
          { s.metadata with allRelays := rawAddresses inetPton 0 s.metadata.allRelays })
      else none

/-- `relay_idx`, drawn until it is neither the node nor the destination; none if there are
no draws left. -/
def drawRelay (range : Nat) (avoid : Nat → Bool) : List Nat → Option (Nat × List Nat)
  | [] => none
  | x :: draws =>
      if avoid (x % range) then drawRelay range avoid draws else some (x % range, draws)

/-- The loop over the relays of the circuit. -/
def drawRelays (range : Nat) (avoid : Nat → Bool) :
    Nat → List Nat → Option (List Nat)
  | 0, _ => some []
  | n + 1, draws =>
      match drawRelay range avoid draws with
      | none => none
      | some (i, draws) =>
          match drawRelays range avoid n draws with
          | none => none
          | some is => some (i :: is)

/-- How `connect` ends: with an exception, without a destination, outside the array of
relays, still drawing, or with a socket whose relays are the lines `path`. -/
inductive Connected where
  | exception
  | noSuch
  | fault
  | drawing
  | circuit (path : List Nat) (socket : TorSocket)

/-- The socket with the relays of some lines, and the destination behind them. -/
def socketOver (m : TorMetadata) (dest : TorRelay) (path : List Nat) : TorSocket where
  isSender := true
  numLayers := m.numLayers.toNat
  relays := fun i =>
    if i = m.numLayers.toNat then dest.peer
    else match m.allRelays[path.getD i 0]? with
      | none => dest.peer
      | some r => r.peer
  rawKey := m.rawKey

/-- `connect`, up to the message that creates the circuit. An index is compared as a
`size_t`. -/
def connect (m : TorMetadata) (id : List Char) (draws : List Nat) : Connected :=
  if m.numLayers < -1 then .exception
  else match stoi id with
    | none => .exception
    | some idi =>
        match m.allRelays[(idi % 2 ^ 64).toNat]? with
        | none => .noSuch
        | some dest =>
            if m.numLayers < 0 then .fault
            else
              let avoid i := i == m.serverIdx || (i : Int) == idi
              match drawRelays m.allRelays.length avoid m.numLayers.toNat draws with
              | none => .drawing
              | some path => .circuit path (m.socketOver dest path)

end TorMetadata

/-- What `deploy-tor.py` writes. -/
def torConfig (layer : Nat) (servers : List (List Char × Nat)) (key : List Char) :
    List Char :=
  ['l', 'a', 'y', 'e', 'r'] ++ ' ' :: (toText layer ++ '\n' ::
    servers.flatMap fun server =>
      server.1 ++ ' ' :: (toText server.2 ++ ' ' :: (key ++ ['\n'])))

end Daenet.Ref
