import Daenet.Ref.SocketConfig

/-!
# The buffered sender

`BufferSend`: `fetch` sends `n` requests at once and then one more for every reply and for
every time-out, and `start` answers the requests that carry its key. This is one
connection with its two ends and what is under way between them. The network hands over
what it has in any order, and loses what it likes; a call of `recv` also ends without a
packet, at any time.

What `accept` sends of itself depends on the library. That of DAE, with which the sender is
linked, sends a welcome, and `fetch` takes it for a reply; the others send nothing.

The time between two reports is not part of the model. `recv_count` is an `int`, and a
natural number here: it stays below `n` if this is positive, and counts without end if
not.
-/

namespace Daenet.Ref

/-- The lines that `fetch` and `start` log. -/
inductive BufferLine where
  | timeout
  | invalid
  | times
  | ended
  | idError
  deriving DecidableEq, Repr

/-- What `accept` of the DAE library sends. -/
def daeWelcome : List (List UInt8) := [List.replicate 10 0]

/-- What happens next: the server accepts the connection, its `recv` or the client's
answers with the `k`-th packet under way, or with none, or the packet is lost. -/
inductive BufferAct where
  | accept
  | serve (k : Nat)
  | serveEnd
  | reply (k : Nat)
  | timeout
  | invalid
  | loseRequest (k : Nat)
  | loseReply (k : Nat)
  deriving DecidableEq, Repr

/-- A connection. `fetch` is the request, `buf` the buffer of the server, `welcome` what
the library sends when the connection is accepted; `delivered` counts the packets that
`recv` of the client has answered with. -/
structure BufferLink where
  fetch : List UInt8
  n : Int
  key : List Char
  buf : List UInt8
  welcome : List (List UInt8)
  fetching : Bool := true
  accepted : Bool := false
  serving : Bool := false
  recvCount : Nat := 0
  requests : List (List UInt8) := []
  replies : List (List UInt8) := []
  delivered : Nat := 0
  lost : Nat := 0
  log : List BufferLine := []
  deriving DecidableEq, Repr

namespace BufferLink

/-- The bytes of a string. -/
def bytes (text : List Char) : List UInt8 := text.map fun c => UInt8.ofNat c.toNat

/-- `fetch`, up to its loop: `strcpy` into the 128 bytes of `id`, and `n` times `send`. None
is a string that does not fit. -/
def start (welcome : List (List UInt8)) (s : List Char) (n : Int) (key : List Char)
    (id buf : List UInt8) : Option BufferLink :=
  if ((bytes s).takeWhile (· ≠ 0)).length < 128 then
    some
      { fetch := strcpy id s
        n := n
        key := key
        buf := buf
        welcome := welcome
        requests := List.replicate n.toNat (strcpy id s) }
  else none

/-- `socket->send` of the client. -/
def sendFetch (l : BufferLink) : BufferLink := { l with requests := l.requests ++ [l.fetch] }

def write (l : BufferLink) (line : BufferLine) : BufferLink := { l with log := line :: l.log }

/-- `accept`. A connection is accepted once. -/
def accept (l : BufferLink) : BufferLink :=
  if l.accepted then l
  else { l with accepted := true, serving := true, replies := l.replies ++ l.welcome }

/-- A request in the server's buffer. -/
def serve (l : BufferLink) (request : List UInt8) : BufferLink :=
  let buf := request.take 1000 ++ l.buf.drop (request.take 1000).length
  let l := { l with buf := buf }
  if buf.takeWhile (· ≠ 0) = bytes l.key then { l with replies := l.replies ++ [buf.take 500] }
  else l.write .idError

/-- A reply, or what the client takes for one: it does not look at it. -/
def receive (l : BufferLink) : BufferLink :=
  let l := { l with recvCount := l.recvCount + 1, delivered := l.delivered + 1 }.sendFetch
  if (l.recvCount : Int) = l.n then { l with recvCount := 0 }.write .times else l

def step (l : BufferLink) : BufferAct → BufferLink
  | .accept => l.accept
  | .serve k =>
      match l.serving, l.requests[k]? with
      | true, some request =>
          { l with requests := l.requests.eraseIdx k }.serve request
      | _, _ => l
  | .serveEnd => if l.serving then { l with serving := false }.write .ended else l
  | .reply k =>
      if l.fetching ∧ k < l.replies.length then
        { l with replies := l.replies.eraseIdx k }.receive
      else l
  | .timeout => if l.fetching then (l.write .timeout).sendFetch else l
  | .invalid => if l.fetching then { l with fetching := false }.write .invalid else l
  | .loseRequest k =>
      if k < l.requests.length then
        { l with requests := l.requests.eraseIdx k, lost := l.lost + 1 }
      else l
  | .loseReply k =>
      if k < l.replies.length then
        { l with replies := l.replies.eraseIdx k, lost := l.lost + 1 }
      else l

def run (l : BufferLink) (acts : List BufferAct) : BufferLink := acts.foldl step l

end BufferLink

end Daenet.Ref
