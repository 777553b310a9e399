import Daenet.Proofs.Rendezvous

/-!
# Ping-pong messages are never consumed

The two dead-drop cases of the dispatch look at `is_dest` before they route a
packet; the two ping-pong cases do not. A ping-pong message reaches the node
responsible for its key marked `is_dest` like any other, and that node hands
it to `handle_external_messaging` again: to itself when the key is its own id,
once more around the ring otherwise. There is no ring, key or starting node
for which it ends.
-/

namespace Daenet.Proofs

open Daenet.Lib Daenet.Ref Daenet.Spec

variable {ι : Type} {R : Roster ι} {i : ι} {n : DAENode}

/-- A message of one of the two ping-pong kinds. -/
def PingpongKind (x : DAENode.ExternalMsg) : Prop :=
  x.msgType = .externalPingpongService ∨
    x.msgType = .externalReplyPingpongService

/-- What a handler sent is received `N` times, each time by the node it is
addressed to and each time sent again; `nodes t` are the states at the moment
of the `t`-th reception. -/
inductive Resent (R : Roster ι) (nodes : Nat → ι → DAENode) :
    Nat → Effect → Nat → Prop where
  | zero (t : Nat) (e : Effect) : Resent R nodes t e 0
  | succ {t N : Nat} {e e' : Effect} {p : AnonymousPacket} {j : ι}
      (he : packetOf e = some p) (hdest : p.dest = R.addr j)
      (hrecv : e' ∈ ((nodes t j).receive p).2)
      (hrest : Resent R nodes (t + 1) e' N) : Resent R nodes t e (N + 1)

/-- A message received and sent again only finitely many times. -/
def Consumed (R : Roster ι) (nodes : Nat → ι → DAENode) (t : Nat) (e : Effect) :
    Prop :=
  ∃ N, ∀ M, Resent R nodes t e M → M ≤ N

/-- The ping-pong cases route whatever they get. -/
theorem receive_pingpong {x : DAENode.ExternalMsg} {p : AnonymousPacket}
    (h : Carries x p) (hx : PingpongKind x) :
    n.receive p = (n, [n.handleExternalMessaging (DAENode.passOn p)]) := by
  rcases hx with hx | hx <;>
    simp only [DAENode.receive, AnonymousPacket.isInternalMsg, h.msgType, h.id,
      hx, DAENode.processMessage]

/-- An application message always goes to some node of the ring. -/
theorem mail_sent (hown : R.Owns i n) (hlive : R.Live n)
    (x : DAENode.ExternalMsg) (hk : x.destId < R.size) :
    ∃ p j, n.handleExternalMessaging x = .safeSend p ∧ Carries x p ∧
      p.dest = R.addr j := by
  obtain ⟨p, hp, hcar, hcase⟩ := mail_cases hown hlive x hk
  rcases hcase with ⟨_, _, hdest⟩ | ⟨_, _, _, hdest⟩ | ⟨_, _, _, j, hdest, _⟩
  · exact ⟨p, i, hp, hcar, hdest⟩
  · obtain ⟨s, hs⟩ := live_successor hlive
    refine ⟨p, s, hp, hcar, hdest.trans ?_⟩
    exact Prod.ext (congrArg PeerPair.ip hs) (congrArg PeerPair.port hs)
  · exact ⟨p, j, hp, hcar, hdest⟩

theorem PingpongKind.passOn {x : DAENode.ExternalMsg} {p : AnonymousPacket}
    (hx : PingpongKind x) (h : Carries x p) :
    PingpongKind (DAENode.passOn p) := by
  rcases hx with hx | hx
  · exact Or.inl (h.id.trans hx)
  · exact Or.inr (h.id.trans hx)

section Run

variable {nodes : Nat → ι → DAENode} (howns : ∀ t i, R.Owns i (nodes t i))
  (hlive : ∀ t i, R.Live (nodes t i))

include howns hlive

theorem resent_always (N : Nat) :
    ∀ (t : Nat) (i : ι) (n : DAENode) (x : DAENode.ExternalMsg), R.Owns i n →
      R.Live n → PingpongKind x → x.destId < R.size →
      Resent R nodes t (n.handleExternalMessaging x) N := by
  induction N with
  | zero => exact fun t _ _ _ _ _ _ _ => .zero t _
  | succ N ih =>
      intro t i n x hown hl hx hk
      obtain ⟨p, j, hp, hcar, hdest⟩ := mail_sent hown hl x hk
      refine .succ (congrArg packetOf hp) hdest ?_
        (ih (t + 1) j (nodes t j) (DAENode.passOn p) (howns t j) (hlive t j)
          (hx.passOn hcar) (lt_of_eq_of_lt hcar.key hk))
      rw [receive_pingpong hcar hx]
      exact List.mem_singleton_self _

theorem never_consumed (t : Nat) (hown : R.Owns i n) (hl : R.Live n)
    {x : DAENode.ExternalMsg} (hx : PingpongKind x) (hk : x.destId < R.size) :
    ¬ Consumed R nodes t (n.handleExternalMessaging x) := by
  rintro ⟨N, hN⟩
  have h := hN (N + 1) (resent_always howns hlive (N + 1) t i n x hown hl hx hk)
  omega

/-- No ping-pong message is ever consumed: on a ring with correct successors,
for every key and every starting node, it is sent on without end, and the
node responsible for its key, when it gets it marked `is_dest`, sends it on like
any other node does. -/
theorem pingpong_circulates (hnext : ∀ t i, R.PointsNext i (nodes t i))
    {x : DAENode.ExternalMsg} (hx : PingpongKind x) (hk : x.destId < 2 ^ R.m)
    (i : ι) :
    ¬ Consumed R nodes 1 ((nodes 0 i).handleExternalMessaging x) ∧
    ∀ t s p, R.IsSucc x.destId s → Carries x p → p.header.isDest = true →
      p.dest = R.addr s →
      ∃ p' j, (nodes t s).receive p = (nodes t s, [.safeSend p']) ∧
        Carries x p' ∧ p'.dest = R.addr j ∧
        (p'.header.isDest = true → j = s) := by
  refine ⟨never_consumed howns hlive 1 (howns 0 i) (hlive 0 i) hx hk, ?_⟩
  intro t s p hs hcar _ _
  have hkey : (DAENode.passOn p).destId = x.destId := hcar.key
  obtain ⟨p', hp', hcar', hcase⟩ := mail_answer (howns t s) (hlive t s)
    (hnext t s) (DAENode.passOn p) (lt_of_eq_of_lt hkey hk)
  have hrecv : (nodes t s).receive p = (nodes t s, [.safeSend p']) := by
    rw [receive_pingpong hcar hx, hp']
  rcases hcase with ⟨_, j, hj, hdest⟩ | ⟨hd, j, hdest⟩
  · rw [hkey] at hj
    exact ⟨p', j, hrecv, hcar.passOn hcar', hdest,
      fun _ => R.isSucc_unique hk hj hs⟩
  · exact ⟨p', j, hrecv, hcar.passOn hcar', hdest,
      fun h => absurd (hd.symm.trans h) Bool.false_ne_true⟩

end Run

/-- A ping for the second node of two. -/
def pairPing : DAENode.ExternalMsg where
  isDeaddrop := false
  session := 1
  seq := 0
  msgType := .externalPingpongService
  destId := 1
  clientKey := 0
  ctPackage := [7]
  size := 1

theorem pingpong_circulates_pair :
    ¬ Consumed pairRoster (fun _ => pairNodes) 1
      ((pairNodes 0).handleExternalMessaging pairPing) :=
  (pingpong_circulates (fun _ => pairNodes_owns) (fun _ => pairNodes_live)
    (fun _ => pairNodes_pointsNext) (Or.inl rfl) (by decide) 0).1

/-- The second node gets the ping marked `is_dest` and sends it to itself,
marked `is_dest`. -/
theorem ping_sent_again :
    ∃ p, (pairNodes 0).handleExternalMessaging pairPing = .safeSend p ∧
      p.header.isDest = true ∧ p.dest = pairRoster.addr 1 ∧
      (∃ p', (pairNodes 1).receive p = (pairNodes 1, [.safeSend p']) ∧
        p'.header.isDest = true ∧ p'.dest = pairRoster.addr 1) ∧
      ¬ Consumed pairRoster (fun _ => pairNodes) 1 (.safeSend p) := by
  refine ⟨_, rfl, by decide, by decide, ⟨_, rfl, by decide, by decide⟩, ?_⟩
  exact never_consumed (n := pairNodes 0) (fun _ => pairNodes_owns)
    (fun _ => pairNodes_live) 1 (pairNodes_owns 0) (pairNodes_live 0)
    (x := pairPing) (Or.inl rfl) (by decide)

end Daenet.Proofs
