import Mathlib.Algebra.Group.Nat.Defs
import Mathlib.Data.List.Basic

/-!
# The script that watches a ring

`scripts/chord.py`: it draws the ids that the nodes are given, computes what their
tables should be, and compares that with the tables that the nodes report. The draws are
an argument, and so are the number of nodes and of bits, constants in the script.
-/

namespace Daenet.Ref.Monitor

/-- The loop that draws the ids; none if it needs more draws. -/
def nodeIds (allClient : Nat) : List Nat → List Nat → Option (List Nat)
  | _, [] => none
  | ids, x :: draws =>
      let ids := if x ∈ ids then ids else ids ++ [x]
      if ids.length > allClient then some ids else nodeIds allClient ids draws

/-- `cur_client`, after `sort`. -/
def curClient (ids : List Nat) : List Nat := ids.mergeSort (· ≤ ·)

/-- One entry of `route_table[id]`. -/
def routeEntry (m : Nat) (clients : List Nat) (id i : Nat) : Nat :=
  match clients.filter fun x => decide (x ≥ (id + 2 ^ i) % 2 ^ m) with
  | [] => clients.getD 0 0
  | x :: _ => x

/-- `route_table[id]`. -/
def routeTable (m : Nat) (clients : List Nat) (id : Nat) : List Nat :=
  (List.range m).map (routeEntry m clients id)

/-- The messages that it waits for. -/
inductive Message where
  /-- Its first word speaks of a `successor_failure`. -/
  | failure
  /-- Three words: an id, an address and a port. -/
  | client (id : Nat)
  /-- Numbers: an id, its table and its successors. -/
  | numbers (a : List Nat)
  deriving DecidableEq, Repr

/-- `clients` by their ids, `table_done`, `successor_client` and `successor_cnt`. -/
structure State where
  clients : List Nat := []
  tableDone : List Nat := []
  successorClient : List Nat := []
  successorCnt : Int := 0
  deriving DecidableEq, Repr

/-- The sum of `route_table[id] == table`. An array of one element is compared with every
element of the other; other arrays of different lengths cannot be compared. -/
def matching (expected table : List Nat) : Option Nat :=
  if table.length = expected.length then
    some ((expected.zip table).countP fun p => p.1 == p.2)
  else if table.length = 1 then some (expected.count (table.getD 0 0))
  else none

/-- The first entry of a table is looked at by itself. -/
def State.checkSuccessor (s : State) (id : Nat) (right : Bool) : State :=
  if right then
    if id ∈ s.successorClient then s
    else { s with
      successorClient := s.successorClient ++ [id]
      successorCnt := s.successorCnt + 1 }
  else
    if id ∈ s.successorClient then
      { s with
        successorClient := s.successorClient.erase id
        successorCnt := s.successorCnt - 1 }
    else s

/-- The whole table is compared. -/
def State.checkTable (s : State) (m id : Nat) (expected table : List Nat) : State :=
  match matching expected table with
  | none => s
  | some k =>
      if k = table.length then
        if id ∈ s.tableDone then s else { s with tableDone := s.tableDone ++ [id] }
      -- The mask of a table of another length is rejected.
      else if table.length ≠ m then s
      else if id ∈ s.tableDone then { s with tableDone := s.tableDone.erase id }
      else s

/-- The branch of the loop that takes a report. An exception ends it where it is raised. -/
def State.report (s : State) (m allClient : Nat) (curClient : List Nat) (id : Nat)
    (rest : List Nat) : State :=
  if curClient.length ≠ allClient then s
  else if id ∉ curClient then s
  else
    let table := rest.take m
    -- The message about its length names the client.
    if table.length ≠ m ∧ id ∉ s.clients then s
    else
      let expected := routeTable m curClient id
      match table with
      | [] => s
      | first :: _ =>
          (s.checkSuccessor id (expected.getD 0 0 == first)).checkTable m id expected table

/-- A client that is not known is added. -/
def State.addClient (s : State) (id : Nat) : State :=
  if id ∈ s.clients then s else { s with clients := s.clients ++ [id] }

/-- One turn of the loop. -/
def step (m allClient : Nat) (curClient : List Nat) (s : State) : Message → State
  | .failure => s
  | .client id => s.addClient id
  | .numbers [id, _, _] => s.addClient id
  | .numbers [] => s
  | .numbers (id :: rest) => s.report m allClient curClient id rest

/-- The loop. -/
def run (m allClient : Nat) (curClient : List Nat) (messages : List Message) : State :=
  messages.foldl (step m allClient curClient) {}

end Daenet.Ref.Monitor
