import Mathlib.Algebra.Group.Nat.Defs

/-!
# The simulator

`DAESimulator`: users on a circle, each with neighbours at the distances
`1, 2, 4, ..`, passing messages to one another. In a step every user emits a
message to a random user and forwards what it received; then it sends as many
messages as it has neighbours.

Numbers are `int`s in the source and are not bounded here. The sum in `init`
overflows, which is undefined, from some `1.4 * 10 ^ 9` users on.
-/

namespace Daenet.Ref

/-- `DAEMsg`. Its `ram` orders the priority queues, from which nothing is sent. -/
structure DAEMsg where
  dest : Nat
  step : Nat
  t : Nat
  deriving DecidableEq, Repr

/-- `DAEUser`; the array `neighbours` has `count` entries. -/
structure DAEUser where
  id : Nat
  count : Nat
  neighbours : Nat → Nat
  sendQueue : List DAEMsg := []
  recvMessages : List DAEMsg := []
  totalMsgCount : Int := 0
  totalRecvMsgCount : Int := 1
  totalRecvMsgLatencies : Int := 10

namespace DAEUser

/-- `in_range`, from `left` clockwise to `right`. -/
def inRange (numOfUsers left right val : Nat) : Bool :=
  if left < right then decide (val ≥ left ∧ val < right)
  else decide (val ≥ left ∧ val < numOfUsers ∨ val < right)

/-- `init`. -/
def init (numOfUsers id : Nat) : DAEUser where
  id := id
  count := numOfUsers.log2
  neighbours := fun i => (id + 2 ^ i) % numOfUsers

/-- The loop of `get_idx`, from `i` down. -/
def searchIdx (u : DAEUser) (numOfUsers dest : Nat) : Nat → Nat
  | 0 => u.count - 1
  | i + 1 =>
      if inRange numOfUsers (u.neighbours i) (u.neighbours (i + 1)) dest then i
      else u.searchIdx numOfUsers dest i

/-- `get_idx`. -/
def getIdx (u : DAEUser) (numOfUsers dest : Nat) : Nat :=
  u.searchIdx numOfUsers dest (u.count - 1)

/-- `recv_message`, in step `step` of the simulator. -/
def recvMessage (u : DAEUser) (step : Nat) (msg : DAEMsg) : DAEUser :=
  if msg.dest = u.id then
    { u with totalRecvMsgCount := u.totalRecvMsgCount + 1
             totalRecvMsgLatencies := u.totalRecvMsgLatencies + ((step : Int) - msg.t) }
  else { u with recvMessages := u.recvMessages ++ [msg] }

/-- `emit_real_message`, with the random number that gives the destination. -/
def emitRealMessage (u : DAEUser) (numOfUsers step r : Nat) : DAEUser :=
  let msg : DAEMsg := { dest := r % numOfUsers, step := 0, t := step }
  let forwarded := u.recvMessages.map fun m => { m with step := m.step + 1 }
  { u with sendQueue := u.sendQueue ++ msg :: forwarded
           recvMessages := []
           totalMsgCount := u.totalMsgCount + 1 + forwarded.length }

/-- `print_info`: the mean stands for what was received so far. -/
def printInfo (u : DAEUser) : DAEUser :=
  { u with totalRecvMsgLatencies := u.totalRecvMsgLatencies.tdiv u.totalRecvMsgCount
           totalRecvMsgCount := 1 }

end DAEUser

/-- `DAESimulator`. -/
structure DAESimulator where
  numOfUsers : Nat
  step : Nat := 0
  users : Nat → DAEUser

namespace DAESimulator

/-- The simulator before its first step. -/
def start (numOfUsers : Nat) : DAESimulator where
  numOfUsers := numOfUsers
  users := DAEUser.init numOfUsers

/-- A method of user `i`. -/
def modify (s : DAESimulator) (i : Nat) (f : DAEUser → DAEUser) : DAESimulator :=
  { s with users := fun j => if j = i then f (s.users i) else s.users j }

/-- `send_real_message` of user `i`: the first message of its queue goes to the
neighbour responsible for it. -/
def sendRealMessage (s : DAESimulator) (i : Nat) : DAESimulator :=
  match (s.users i).sendQueue with
  | [] => s
  | m :: _ =>
      let u := s.users i
      let next := u.neighbours (u.getIdx s.numOfUsers m.dest)
      (s.modify next fun v => v.recvMessage s.step m).modify i fun u =>
        { u with sendQueue := u.sendQueue.tail, totalMsgCount := u.totalMsgCount - 1 }

/-- `send_batch_messages`. -/
def sendBatchMessages (s : DAESimulator) (i : Nat) : DAESimulator :=
  (List.range (s.users i).count).foldl (fun s _ => s.sendRealMessage i) s

/-- One turn of the loop of `start`: `r` gives the random destinations, `print` says
whether a second has passed. -/
def turn (s : DAESimulator) (r : Nat → Nat) (print : Bool) : DAESimulator :=
  let s := (List.range s.numOfUsers).foldl
    (fun s i => s.modify i fun u => u.emitRealMessage s.numOfUsers s.step (r i)) s
  let s := (List.range s.numOfUsers).foldl
    (fun s i =>
      let s := s.sendBatchMessages i
      if print ∧ i < 1024 then s.modify i DAEUser.printInfo else s) s
  { s with step := s.step + 1 }

end DAESimulator

end Daenet.Ref
