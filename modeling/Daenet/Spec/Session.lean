import Daenet.Spec.Ring

/-!
# A session between two sockets

Two sockets with one session id and one seed, on two nodes. Both draw from
generators in the same state, so the `k`-th message of either goes to the same
dead drop; that is all the two ends have in common. The parties are `false` and
`true`, and the other party of `x` is `!x`.
-/

namespace Daenet.Spec

open Daenet.Ref

/-- The two ends of a session: on which nodes, which socket there, and what the
two sockets were built with. -/
structure Session (ι : Type) where
  node : Bool → ι
  sock : Bool → Nat
  id : Int
  seed : Int
  distinct : node false ≠ node true

namespace Session

variable {ι : Type} (S : Session ι) (R : Roster ι)

/-- The generator of either end before its `k`-th message. -/
def generator : Nat → RandomGenerator
  | 0 => ⟨(S.seed % 2 ^ 64).toNat⟩
  | k + 1 => (generator k).rand.2

/-- The dead drop of the `k`-th messages. -/
def drop (k : Nat) : Nat := (S.generator k).rand.1 % intShl R.m

/-- The socket of party `x` before its `k`-th message. -/
def socket (x : Bool) (k : Nat) : DAESocket where
  random := S.generator k
  serviceType := .externalDeaddropMessaging
  myKey := R.id (S.node x)
  maxId := intShl R.m
  sessionId := S.id
  seq := k

/-- The `k`-th message of party `x`, to the dead drop. -/
def request (x : Bool) (k : Nat) (payload : List UInt8) : DAENode.ExternalMsg where
  isDeaddrop := false
  session := S.id
  seq := k
  msgType := .externalDeaddropMessaging
  destId := S.drop R k
  clientKey := R.id (S.node x)
  ctPackage := payload
  size := payload.length

/-- The `k`-th message from the dead drop to party `x`. -/
def reply (x : Bool) (k : Nat) (payload : List UInt8) : DAENode.ExternalMsg where
  isDeaddrop := false
  session := S.id
  seq := k
  msgType := .externalReplyDeaddropMessaging
  destId := R.id (S.node x)
  clientKey := S.drop R k
  ctPackage := payload
  size := payload.length

/-- A packet of the session. -/
def Mail (p : AnonymousPacket) : Prop :=
  p.header.sessionId = S.id ∧
    (p.header.id = .externalDeaddropMessaging ∨
      p.header.id = .externalReplyDeaddropMessaging)

instance : DecidablePred S.Mail := fun p =>
  inferInstanceAs (Decidable (p.header.sessionId = S.id ∧
    (p.header.id = .externalDeaddropMessaging ∨
      p.header.id = .externalReplyDeaddropMessaging)))

/-- What party `x` sends in an action. -/
def sentBy [DecidableEq ι] (x : Bool) : Act ι → Option (List UInt8)
  | .send i j buf => if i = S.node x ∧ j = S.sock x then some buf else none
  | _ => none

/-- The payloads of party `x`, in the order of its `send` calls. -/
def sends [DecidableEq ι] (x : Bool) (acts : List (Act ι)) : List (List UInt8) :=
  acts.filterMap (S.sentBy x)

theorem node_inj {x y : Bool} (h : S.node x = S.node y) : x = y := by
  cases x <;> cases y
  · rfl
  · exact absurd h S.distinct
  · exact absurd h.symm S.distinct
  · rfl

theorem socket_new {x : Bool} {n : DAENode} (h : R.Owns (S.node x) n) :
    DAESocket.new n S.id S.seed = S.socket R x 0 := by
  unfold DAESocket.new
  rw [h.id, h.m]
  rfl

theorem socket_send (x : Bool) (k : Nat) (buf : List UInt8) :
    (S.socket R x k).send buf = (S.socket R x (k + 1), S.request R x k buf) := by
  simp only [DAESocket.send, socket, request, generator, drop, Nat.cast_add,
    Nat.cast_one]

theorem send_session (t : DAESocket) (buf : List UInt8) :
    (t.send buf).1.sessionId = t.sessionId ∧ (t.send buf).2.session = t.sessionId := by
  cases t
  exact ⟨rfl, rfl⟩

/-- A dead drop is a place on the ring, also where the `int` shift that computes
`max_id` has overflowed: the generator's draws have 31 bits. -/
theorem drop_lt (k : Nat) : S.drop R k < R.size := by
  have hdraw : (S.generator k).rand.1 < 2 ^ 31 := by
    simp only [RandomGenerator.rand]
    exact Nat.lt_of_le_of_lt Nat.and_le_right (by decide)
  by_cases hm : R.m ≤ 30
  · unfold drop
    rw [intShl_eq R.m hm]
    exact Nat.mod_lt _ (Nat.two_pow_pos R.m)
  · have hle : S.drop R k ≤ (S.generator k).rand.1 := Nat.mod_le _ _
    have hsize : 2 ^ 31 ≤ R.size := Nat.pow_le_pow_right (by omega) (by omega)
    omega

end Session

end Daenet.Spec
