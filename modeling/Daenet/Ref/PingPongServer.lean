/-!
# The ping client

`PingPongServer::ping`: one message is sent, and then messages are received until
one is not stale, or none comes. A batch is `n` messages received; after it the
average of the measured times is logged and the next one begins. The loops end on
an error only, and then at the end of a batch.

Two counters, both `int`s, are natural numbers here: `i` counts what was received
in a batch, `ii` what was measured. An overflow of theirs is undefined.
-/

namespace Daenet.Ref

/-- `ping_t`. -/
structure PingT where
  id : String
  idx : UInt32
  deriving DecidableEq, Repr

/-- One call of `recv`: what it returns, what the buffer then holds where `ping_t`
has its `idx` (a short message leaves there what was there before), and the clock,
in nanoseconds, when it returns and when the next message is sent, if one is. -/
structure RecvCall where
  len : Int
  idx : UInt32
  now : Int := 0
  sent : Int := 0
  deriving DecidableEq, Repr

/-- The variables of `ping`. `timestamp` is a map from `int`. -/
structure PingClient where
  s : String
  idx : UInt64 := 1
  running : Bool := true
  timestamp : Int32 → Option Int := fun _ => none
  totalTimeMs : UInt64 := 0
  i : Nat := 0
  ii : Nat := 0

/-- What `ping` does besides counting. -/
inductive PingOutput where
  | send (ping : PingT)
  | average (s : String) (n : Int) (ms : UInt64)
  | close
  deriving DecidableEq, Repr

namespace PingClient

/-- A message, with its time. -/
def send (p : PingClient) (now : Int) : PingClient × PingOutput :=
  let idx := p.idx.toUInt32.toInt32
  ({ p with timestamp := fun k => if k = idx then some now else p.timestamp k },
    .send { id := p.s, idx := p.idx.toUInt32 })

/-- `duration_cast<milliseconds>` of a duration in nanoseconds, as it is added to an
`unsigned long`. -/
def milliseconds (d : Int) : UInt64 := .ofInt (d.tdiv 1000000)

/-- One turn of the loop that receives, and whether it is left. -/
def receive (p : PingClient) (r : RecvCall) : PingClient × Bool :=
  if r.len = 0 then ({ p with idx := p.idx + 1 }, true)
  else if r.len < 0 then ({ p with running := false }, true)
  else if r.idx.toUInt64 ≥ p.idx - 1 then
    let p := { p with idx := p.idx + 1, i := p.i + 1 }
    match p.timestamp r.idx.toInt32 with
    | some t =>
        ({ p with totalTimeMs := p.totalTimeMs + milliseconds (r.now - t)
                  ii := p.ii + 1 }, true)
    | none => (p, true)
  else ({ p with i := p.i + 1 }, false)

/-- `total_time_ms / ii`; `none` is a division by zero. -/
def average (p : PingClient) : Option UInt64 :=
  if p.ii = 0 then none else some (p.totalTimeMs / .ofNat p.ii)

end PingClient

/-- Where `ping` is: it receives, it has returned, or it has divided by zero. -/
inductive Pinging where
  | receiving (p : PingClient)
  | closed
  | fault

namespace Pinging

/-- From one `recv` to the next. -/
def step (n : Int) : Pinging → RecvCall → Pinging × List PingOutput
  | receiving p, r =>
      match p.receive r with
      | (p', false) => (receiving p', [])
      | (p', true) =>
          if (p'.i : Int) < n then
            let (p'', out) := p'.send r.sent
            (receiving p'', [out])
          else if p'.running = false then (closed, [.close])
          else
            match p'.average with
            | none => (fault, [])
            | some ms =>
                let (p'', out) := { p' with totalTimeMs := 0, i := 0, ii := 0 }.send r.sent
                (receiving p'', [.average p'.s n ms, out])
  | state, _ => (state, [])

/-- The first message to `s`, sent at `now`. -/
def start (s : String) (now : Int) : Pinging × List PingOutput :=
  let (p, out) := PingClient.send { s } now
  (receiving p, [out])

end Pinging

end Daenet.Ref
