import Daenet.Ref.Md5
import Mathlib.Logic.Function.Basic

/-!
# Sharing files

`FileService`: a node that shares a file registers it with the node that the hash of the
file leads to, and a node that wants it asks there for the owner and then fetches the
file from it, in blocks. Each connection is served by a thread of its own.

What a thread does with one message is one step, except for `fetch_file`, which goes on
reading and sending; every turn of its loop is a step. A descriptor is shared: there is
one for each upload, with one position in the file, whoever reads. A map of the standard
library is a function, with what `operator[]` puts in for a key that is not there: an
entry of zeros, and so descriptor 0. A file does not change while it is shared.

The service is linked with one of the socket libraries, which is a parameter
(`SocketLibrary`). Requests and answers arrive as they were sent; of a block it is only
said that it was given to `send`. All the libraries put a message into a buffer of
`MAX_MTU` bytes and do not look at its length, and a block may be longer than that; what
is then overwritten is not modelled.
-/

namespace Daenet.Ref

open Daenet.Lib

/-- `uint128_t`. -/
structure UInt128 where
  h : UInt64
  l : UInt64
  deriving DecidableEq, Repr

/-- `set_md5_from_buf`. -/
def UInt128.setMd5FromBuf (buf : List UInt8) : UInt128 where
  h := .ofNat (leNat (buf.take 8))
  l := .ofNat (leNat ((buf.drop 8).take 8))

/-- `FileMessageType`. -/
inductive FileMessageType where
  | registerFile
  | registerFileReply
  | fetchFileLoc
  | fetchFileLocReply
  | fetchFile
  | fileContent
  deriving DecidableEq, Repr

/-- `RegisterFetchFile`. `len` is a `long` in the message and an `uint64_t` at the node. -/
structure RegisterFetchFile where
  messageType : FileMessageType
  md5 : UInt128
  idx : UInt64
  owner : UInt64
  len : UInt64
  deriving DecidableEq, Repr

/-- `FileContent`. -/
structure FileContent where
  md5 : UInt128
  blockIdx : UInt64
  len : UInt64
  data : List UInt8
  deriving DecidableEq, Repr

/-- `registered_file_t`. -/
structure RegisteredFile where
  fileLen : UInt64
  fileOwner : UInt64
  deriving DecidableEq, Repr

/-- `sizeof(RegisterFetchFile)`. -/
def sizeofRegisterFetchFile : Nat := 48

/-- `sizeof(FileContent)`, without the data. -/
def sizeofFileContent : Nat := 40

/-- What the service uses of the library: the number that `initialize` has returned to a
node, the node that `connect` leads to with a number, `id_range`, and how long a message
`send` has room for. -/
structure SocketLibrary (ι : Type) where
  key : ι → UInt64
  reach : UInt64 → ι
  idRange : UInt64
  room : Nat

/-- What the service takes for granted: `connect` leads back to the node that was given
the number, and there is room for what is not a block. The DAE library is not such a
one: its `initialize` returns the number of the session, and `connect` does not look at
it. -/
structure SocketLibrary.Sound {ι : Type} (library : SocketLibrary ι) : Prop where
  reach_key : ∀ i, library.reach (library.key i) = i
  room : sizeofRegisterFetchFile ≤ library.room

/-- An open file: what is in it, and the position. -/
structure OpenFile where
  content : List UInt8
  position : Nat

/-- A `FileService`, and the open files of its process. -/
structure FileNode where
  registeredFiles : UInt128 → RegisteredFile
  sharedFiles : UInt128 → Nat
  files : Nat → OpenFile
  nextFd : Nat

namespace FileNode

/-- No file is registered or shared; descriptor 0 is the standard input. -/
def new (stdin : OpenFile) : FileNode where
  registeredFiles := fun _ => ⟨0, 0⟩
  sharedFiles := fun _ => 0
  files := fun _ => stdin
  nextFd := 3

/-- `lseek` from the start. A negative position is refused. -/
def lseek (node : FileNode) (fd : Nat) (idx : UInt64) : FileNode :=
  if idx.toNat < 2 ^ 63 then
    { node with
      files := Function.update node.files fd { node.files fd with position := idx.toNat } }
  else node

/-- `read`: as many bytes as the kernel gives at a time, at least one if there is one. -/
def read (node : FileNode) (fd count : Nat) : FileNode × List UInt8 :=
  let file := node.files fd
  let data := (file.content.drop file.position).take count
  ({ node with
      files := Function.update node.files fd
        { file with position := file.position + data.length } }, data)

/-- What the thread of a connection does next. -/
inductive Next where
  | receive
  | reply (message : RegisterFetchFile)
  | send (fd : Nat) (currentIdx : UInt64)

/-- What the thread of a connection does with a message. -/
def handle (node : FileNode) (m : RegisterFetchFile) : FileNode × Next :=
  match m.messageType with
  | .registerFile =>
      ({ node with
          registeredFiles := Function.update node.registeredFiles m.md5 ⟨m.len, m.owner⟩ },
        .reply { m with messageType := .registerFileReply })
  | .registerFileReply => (node, .receive)
  | .fetchFile =>
      let fd := node.sharedFiles m.md5
      (node.lseek fd m.idx, .send fd m.idx)
  | .fetchFileLoc =>
      let file := node.registeredFiles m.md5
      (node, .reply { m with
        owner := file.fileOwner, len := file.fileLen, messageType := .fetchFileLocReply })
  | .fetchFileLocReply => (node, .receive)
  | .fileContent => (node, .receive)

/-- The hash of what `read` has returned, piece by piece. -/
def hashFile (chunks : List (List UInt8)) : Option UInt128 := do
  let md5 ← chunks.foldlM MD5.addData MD5.new
  let md5 ← md5.finalize
  return .setMd5FromBuf md5.toArray

/-- `upload`, up to the connection: the file is open, read to its end, and shared. -/
def share (node : FileNode) (md5 : UInt128) (chunks : List (List UInt8)) : FileNode :=
  { node with
    files := Function.update node.files node.nextFd
      ⟨chunks.flatten, chunks.flatten.length⟩
    sharedFiles := Function.update node.sharedFiles md5 node.nextFd
    nextFd := node.nextFd + 1 }

end FileNode

/-- The thread of a connection that asks for a file: the message is on its way, or the
file is being sent, or the thread is done with the message (with descriptor 0 when no
file was sent), or it has given `send` a block that there is no room for. -/
inductive Sending where
  | asked
  | sending (fd : Nat) (currentIdx : UInt64)
  | closed (fd : Nat)
  | overrun
  deriving DecidableEq, Repr

/-- A connection that asks `node` for a file, with the blocks that were given to `send`.
`download` says that the other end is `download`. -/
structure Transfer (ι : Type) where
  node : ι
  message : RegisterFetchFile
  phase : Sending
  blocks : List FileContent := []
  download : Bool

/-- The nodes, the registrations on their way and the connections. -/
structure FileSystem (ι : Type) where
  node : ι → FileNode
  registrations : List (ι × RegisterFetchFile) := []
  transfers : List (Transfer ι) := []

namespace FileSystem

variable {ι : Type}

/-- What happens. `request` is any peer that sends a message to a node. -/
inductive Act (ι : Type) where
  | upload (node : ι) (chunks : List (List UInt8))
  | register (index : Nat)
  | download (md5 : UInt128)
  | request (node : ι) (message : RegisterFetchFile)
  | serve (index : Nat)
  | send (index limit : Nat)

variable [DecidableEq ι] (library : SocketLibrary ι)

/-- `message::hash`, and the node that `connect` leads to. -/
def hashNode (md5 : UInt128) : ι := library.reach (md5.l % library.idRange)

def setNode (s : FileSystem ι) (i : ι) (node : FileNode) : FileSystem ι :=
  { s with node := Function.update s.node i node }

/-- `upload`. The registration is sent, with an `idx` that is not set and not read; when
it arrives is left open. -/
def upload (s : FileSystem ι) (i : ι) (chunks : List (List UInt8)) : FileSystem ι :=
  match FileNode.hashFile chunks with
  | none => s
  | some md5 =>
      let message : RegisterFetchFile :=
        { messageType := .registerFile, md5, idx := 0, owner := library.key i
          len := .ofNat chunks.flatten.length }
      { s.setNode i ((s.node i).share md5 chunks) with
        registrations := s.registrations ++ [(hashNode library md5, message)] }

/-- A registration arrives. -/
def register (s : FileSystem ι) (index : Nat) : FileSystem ι :=
  match s.registrations[index]? with
  | none => s
  | some (i, message) =>
      { s.setNode i ((s.node i).handle message).1 with
        registrations := s.registrations.eraseIdx index }

/-- `download`: the owner is asked for, and then the owner for the file. -/
def download (s : FileSystem ι) (md5 : UInt128) : FileSystem ι :=
  let asked : RegisterFetchFile :=
    { messageType := .fetchFileLoc, md5, idx := 0, owner := 0, len := 0 }
  match ((s.node (hashNode library md5)).handle asked).2 with
  | .reply message =>
      if message.len = 0 then s
      else
        let fetch : RegisterFetchFile :=
          { message with messageType := .fetchFile, md5, idx := 0 }
        { s with transfers := s.transfers ++ [{ node := library.reach message.owner
                                                message := fetch
                                                phase := .asked
                                                download := true }] }
  | _ => s

/-- The message that asks for a file is handled. -/
def serve (s : FileSystem ι) (index : Nat) : FileSystem ι :=
  match s.transfers[index]? with
  | none => s
  | some t =>
      if t.phase = .asked then
        match (s.node t.node).handle t.message with
        | (node, .send fd currentIdx) =>
            { s.setNode t.node node with
              transfers := s.transfers.set index { t with phase := .sending fd currentIdx } }
        | (node, _) =>
            { s.setNode t.node node with
              transfers := s.transfers.set index { t with phase := .closed 0 } }
      else s

/-- A turn of the loop of `fetch_file`. -/
def send (s : FileSystem ι) (index limit : Nat) : FileSystem ι :=
  match s.transfers[index]? with
  | none => s
  | some t =>
      match t.phase with
      | .sending fd currentIdx =>
          let (node, data) := (s.node t.node).read fd (min 1300 (limit + 1))
          if data.length = 0 then
            { s.setNode t.node node with
              transfers := s.transfers.set index { t with phase := .closed fd } }
          else if library.room < sizeofFileContent + data.length then
            { s.setNode t.node node with
              transfers := s.transfers.set index { t with phase := .overrun } }
          else
            let block : FileContent :=
              { md5 := t.message.md5, blockIdx := currentIdx, len := .ofNat data.length, data }
            { s.setNode t.node node with
              transfers := s.transfers.set index
                { t with
                  phase := .sending fd (currentIdx + .ofNat data.length)
                  blocks := t.blocks ++ [block] } }
      | _ => s

/-- One step. -/
def step (s : FileSystem ι) : Act ι → FileSystem ι
  | .upload i chunks => s.upload library i chunks
  | .register index => s.register index
  | .download md5 => s.download library md5
  | .request i message =>
      { s with transfers := s.transfers ++ [{ node := i, message, phase := .asked
                                              download := false }] }
  | .serve index => s.serve index
  | .send index limit => s.send library index limit

/-- No file is shared. -/
def new (stdin : ι → OpenFile) : FileSystem ι where
  node := fun i => FileNode.new (stdin i)

end FileSystem

end Daenet.Ref
