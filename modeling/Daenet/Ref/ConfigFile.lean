import Daenet.Lib.Words
import Daenet.Ref.DAESocket
import Daenet.Ref.SocketConfig

/-!
# The configuration of a node

`RelayConfig::read_from_file`: lines with a key and a value, each of which sets a field.
`initialize` reads it, and `connect` and `accept` build their socket from it. A node
without an application takes the same fields from its command line, by `init_from_cmd`.

`std::stod` is a parameter, and so is the type of what it answers. `seed` has no value
before it is set. `CLI11`, which reads the command line, is not modelled: its options are
given with their values, and how it reads a number is a parameter.
-/

namespace Daenet.Ref

open Daenet.Lib

/-- The keys that `read_from_file` knows. -/
inductive ConfigKey where
  | peerIp
  | peerPort
  | debug
  | key
  | m
  | session
  | transmission
  | seed
  | server
  | msgRate
  | poolSize
  | btTime
  | debugShuffle
  | shuffle
  | cntTime
  | shuffleP
  | recheck
  | checkwait
  | p2pTimeBefore
  | p2pTimeAfter
  | sendDummy
  | checkFailure
  deriving DecidableEq, Repr

namespace ConfigKey

/-- How a key is written. -/
def name : ConfigKey → List Char
  | .peerIp => ['p', 'e', 'e', 'r', '_', 'i', 'p']
  | .peerPort => ['p', 'e', 'e', 'r', '_', 'p', 'o', 'r', 't']
  | .debug => ['d', 'e', 'b', 'u', 'g']
  | .key => ['k', 'e', 'y']
  | .m => ['m']
  | .session => ['s', 'e', 's', 's', 'i', 'o', 'n']
  | .transmission => ['t', 'r', 'a', 'n', 's', 'm', 'i', 's', 's', 'i', 'o', 'n']
  | .seed => ['s', 'e', 'e', 'd']
  | .server => ['s', 'e', 'r', 'v', 'e', 'r']
  | .msgRate => ['m', 's', 'g', '_', 'r', 'a', 't', 'e']
  | .poolSize => ['p', 'o', 'o', 'l', '_', 's', 'i', 'z', 'e']
  | .btTime => ['b', 't', '_', 't', 'i', 'm', 'e']
  | .debugShuffle => ['d', 'e', 'b', 'u', 'g', '_', 's', 'h', 'u', 'f', 'f', 'l', 'e']
  | .shuffle => ['s', 'h', 'u', 'f', 'f', 'l', 'e']
  | .cntTime => ['c', 'n', 't', '_', 't', 'i', 'm', 'e']
  | .shuffleP => ['s', 'h', 'u', 'f', 'f', 'l', 'e', '_', 'P']
  | .recheck => ['r', 'e', 'c', 'h', 'e', 'c', 'k']
  | .checkwait => ['c', 'h', 'e', 'c', 'k', 'w', 'a', 'i', 't']
  | .p2pTimeBefore => ['p', '2', 'p', '_', 't', 'i', 'm', 'e', '_', 'b', 'e', 'f', 'o', 'r', 'e']
  | .p2pTimeAfter => ['p', '2', 'p', '_', 't', 'i', 'm', 'e', '_', 'a', 'f', 't', 'e', 'r']
  | .sendDummy => ['s', 'e', 'n', 'd', '_', 'd', 'u', 'm', 'm', 'y']
  | .checkFailure => ['c', 'h', 'e', 'c', 'k', '_', 'f', 'a', 'i', 'l', 'u', 'r', 'e']

/-- The keys in the order of the tests. -/
def all : List ConfigKey :=
  [.peerIp, .peerPort, .debug, .key, .m, .session, .transmission, .seed, .server, .msgRate,
    .poolSize, .btTime, .debugShuffle, .shuffle, .cntTime, .shuffleP, .recheck, .checkwait,
    .p2pTimeBefore, .p2pTimeAfter, .sendDummy, .checkFailure]

/-- The key that a word is, if it is one. -/
def ofWord (word : List Char) : Option ConfigKey := all.find? fun k => k.name == word

end ConfigKey

/-- The fields of `RelayConfig` that `read_from_file` sets, with their defaults. -/
structure FileConfig (δ : Type) where
  peerIp : List Char := ['1', '0', '.', '2', '2', '.', '1', '.', '1', '6']
  peerPort : Int := 3010
  debug : Bool := false
  relayId : Nat := 0
  ringBits : Int := 10
  session : Int := 0
  transmission : List Char := []
  seed : Option Int := none
  isServer : Bool := false
  msgRate : Int := 10
  minPool : Int := 10
  btTime : Int := 10
  debugShuffle : Bool := false
  shuffle : List Char := ['s', 'h', 'u', 'f', 'f', 'l', 'e']
  cntInterval : Int := 1
  shuffleP : δ
  recheck : Int := 10
  checkwait : Int := 2
  p2pTimeBefore : Int := 10
  p2pTimeAfter : Int := 1
  sendDummy : Int := 0
  checkFailure : Int := 0
  deriving DecidableEq

namespace FileConfig

variable {δ : Type}

/-- One branch of the loop; none is the exception of a value that is no number. -/
def set (stod : List Char → Option δ) (c : FileConfig δ) (value : List Char) :
    ConfigKey → Option (FileConfig δ)
  | .peerIp => some { c with peerIp := value }
  | .peerPort => (stoi value).map fun z => { c with peerPort := z }
  | .debug => some { c with debug := true }
  | .key => (stoi value).map fun z => { c with relayId := (z % 2 ^ 64).toNat }
  | .m => (stoi value).map fun z => { c with ringBits := z }
  | .session => (stoi value).map fun z => { c with session := z }
  | .transmission => some { c with transmission := value }
  | .seed => (stoi value).map fun z => { c with seed := some z }
  | .server => some { c with isServer := true }
  | .msgRate => (stoi value).map fun z => { c with msgRate := z }
  | .poolSize => (stoi value).map fun z => { c with minPool := z }
  | .btTime => (stoi value).map fun z => { c with btTime := z }
  | .debugShuffle => some { c with debugShuffle := true }
  | .shuffle => some { c with shuffle := value }
  | .cntTime => (stoi value).map fun z => { c with cntInterval := z }
  | .shuffleP => (stod value).map fun x => { c with shuffleP := x }
  | .recheck => (stoi value).map fun z => { c with recheck := z }
  | .checkwait => (stoi value).map fun z => { c with checkwait := z }
  | .p2pTimeBefore => (stoi value).map fun z => { c with p2pTimeBefore := z }
  | .p2pTimeAfter => (stoi value).map fun z => { c with p2pTimeAfter := z }
  | .sendDummy => (stoi value).map fun z => { c with sendDummy := z }
  | .checkFailure => (stoi value).map fun z => { c with checkFailure := z }

/-- `config_file >> key >> value`. -/
def readPair (text : List Char) : Option ((List Char × List Char) × List Char) :=
  match readWord text with
  | none => none
  | some (key, text) =>
      match readWord text with
      | none => none
      | some (value, text) => some ((key, value), text)

/-- One turn of the loop. A key that is not known is passed over. -/
def turn (stod : List Char → Option δ) (c : FileConfig δ) (pair : List Char × List Char) :
    Option (FileConfig δ) :=
  match ConfigKey.ofWord pair.1 with
  | none => some c
  | some k => c.set stod pair.2 k

/-- `read_from_file`; `p` is the default of `shuffle_P`. -/
def readFromFile (stod : List Char → Option δ) (p : δ) (text : List Char) :
    Option (FileConfig δ) :=
  (records readPair text).foldlM (turn stod) { shuffleP := p }

/-- What the node and its socket read of it, after `initialize` has put the address in. -/
def relayConfig (c : FileConfig δ) (ip : List Char) (port : Int) : RelayConfig where
  relayIp := String.ofList ip
  relayPort := port
  relayId := c.relayId
  ringBits := c.ringBits.toNat
  initPeers := ⟨String.ofList c.peerIp, c.peerPort, 0⟩
  recheck := c.recheck.toNat
  shuffle := c.shuffle == ['s', 'h', 'u', 'f', 'f', 'l', 'e']
  sendDummy := c.sendDummy != 0
  debugShuffle := c.debugShuffle

end FileConfig

/-! ## The command line -/

/-- `lexical_cast`: the number, or the truth value, that a word is; none is an exception. -/
structure LexicalCast (δ : Type) where
  int : List Char → Option Int
  bool : List Char → Option Bool
  double : List Char → Option δ

/-- The options that `init_from_cmd` knows. -/
inductive CmdOption where
  | ip
  | port
  | key
  | keyRange
  | daemon
  | peerIp
  | peerPort
  | standalone
  | debug
  | msgRate
  | poolSize
  | btTime
  | cntTime
  | debugShuffle
  | shuffleP
  | recheck
  | checkwait
  | p2pTimeBefore
  | p2pTimeAfter
  | checkFailure
  | sendDummy
  deriving DecidableEq, Repr

/-- The address and the fields. `key` is `debug_int_relay_id`, which has no value before it
is set; `daemon` and `standalone` are left out. -/
structure CmdConfig (δ : Type) where
  relayIp : List Char := ['0', '.', '0', '.', '0', '.', '0']
  relayPort : Int := 3010
  key : Option Int := none
  fields : FileConfig δ

namespace CmdConfig

variable {δ : Type}

/-- A field is set to a value that could be read. -/
def setField {α : Type} (c : CmdConfig δ) (value : Option α)
    (f : FileConfig δ → α → FileConfig δ) : Option (CmdConfig δ) :=
  value.map fun a => { c with fields := f c.fields a }

/-- What an option does with its value. `debug` is an `int`. -/
def set (cast : LexicalCast δ) (c : CmdConfig δ) (value : List Char) :
    CmdOption → Option (CmdConfig δ)
  | .ip => some { c with relayIp := value }
  | .port => (cast.int value).map fun z => { c with relayPort := z }
  | .key => (cast.int value).map fun z => { c with key := some z }
  | .keyRange => c.setField (cast.int value) fun f z => { f with ringBits := z }
  | .daemon => (cast.int value).map fun _ => c
  | .peerIp => c.setField (some value) fun f ip => { f with peerIp := ip }
  | .peerPort => c.setField (cast.int value) fun f z => { f with peerPort := z }
  | .standalone => (cast.bool value).map fun _ => c
  | .debug => c.setField (cast.int value) fun f z => { f with debug := z != (0 : Int) }
  | .msgRate => c.setField (cast.int value) fun f z => { f with msgRate := z }
  | .poolSize => c.setField (cast.int value) fun f z => { f with minPool := z }
  | .btTime => c.setField (cast.int value) fun f z => { f with btTime := z }
  | .cntTime => c.setField (cast.int value) fun f z => { f with cntInterval := z }
  | .debugShuffle => c.setField (cast.bool value) fun f b => { f with debugShuffle := b }
  | .shuffleP => c.setField (cast.double value) fun f x => { f with shuffleP := x }
  | .recheck => c.setField (cast.int value) fun f z => { f with recheck := z }
  | .checkwait => c.setField (cast.int value) fun f z => { f with checkwait := z }
  | .p2pTimeBefore => c.setField (cast.int value) fun f z => { f with p2pTimeBefore := z }
  | .p2pTimeAfter => c.setField (cast.int value) fun f z => { f with p2pTimeAfter := z }
  | .checkFailure => c.setField (cast.int value) fun f z => { f with checkFailure := z }
  | .sendDummy => c.setField (cast.int value) fun f z => { f with sendDummy := z }

/-- `init_from_cmd`. An option that is given twice is an exception, and without a key the
id has no value. -/
def initFromCmd (cast : LexicalCast δ) (p : δ) (args : List (CmdOption × List Char)) :
    Option (CmdConfig δ) :=
  if (args.map Prod.fst).Nodup then
    match args.foldlM (fun c arg => c.set cast arg.2 arg.1)
        ({ fields := { shuffleP := p } } : CmdConfig δ) with
    | none => none
    | some c => c.key.map fun key =>
        { c with fields := { c.fields with relayId := (key % 2 ^ 64).toNat } }
  else none

def relayConfig (c : CmdConfig δ) : RelayConfig := c.fields.relayConfig c.relayIp c.relayPort

end CmdConfig

end Daenet.Ref
