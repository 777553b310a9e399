import Daenet.Ref.BufferSend
import Mathlib.Algebra.Group.Int.Defs
import Mathlib.Data.List.TakeWhile
import Mathlib.Tactic.ByContra

/-!
# The window of a buffered sender

A request is answered once or not at all, and a reply or a time-out sends one more: the
packets under way, with those lost and those refused, are the `n` of the start, one for
each time-out and what the server's `accept` has sent, whatever the order in which they
travel (`FetchWindow`). So a client that has the right key and loses nothing always has
them under way, and never waits for nothing. With another key than the server's, every
request is refused and nothing comes but the welcome.
-/

namespace Daenet.Proofs

open Daenet.Ref

/-- What the server reads of the string in a request. -/
def idOf (s : List Char) : List UInt8 := (BufferLink.bytes s).takeWhile (· ≠ 0)

/-- How many packets `accept` has sent. -/
def welcomed (welcome : List (List UInt8)) (l : BufferLink) : Nat :=
  if l.accepted then welcome.length else 0

/-- The counts of a connection. -/
structure FetchWindow (welcome : List (List UInt8)) (s key : List Char) (n : Int)
    (l : BufferLink) : Prop where
  greeting : l.welcome = welcome
  size : l.n = n
  lock : l.key = key
  fetch : ∃ rest, l.fetch = idOf s ++ 0 :: rest
  requests : ∀ request ∈ l.requests, request = l.fetch
  flight : l.requests.length + l.replies.length + l.lost + l.log.count .idError =
    n.toNat + l.log.count .timeout + welcomed welcome l
  rounds : l.log.count .times * n + l.recvCount = l.delivered
  below : 0 < n → l.recvCount < n
  noRounds : n ≤ 0 → l.log.count .times = 0
  served : idOf s = BufferLink.bytes key → l.log.count .idError = 0
  refused : idOf s ≠ BufferLink.bytes key →
    l.replies.length + l.delivered ≤ welcomed welcome l ∧ ∀ reply ∈ l.replies, reply ∈ welcome

section Steps

variable {welcome : List (List UInt8)} {s key : List Char} {n : Int} {l : BufferLink}

/-- The server reads the client's string, whatever was in its buffer. -/
theorem takeWhile_served (hs : (idOf s).length < 128) (rest buf : List UInt8) :
    ((idOf s ++ 0 :: rest).take 1000 ++ buf).takeWhile (· ≠ 0) = idOf s := by
  have hid : ∀ b ∈ idOf s, (fun c : UInt8 => decide (c ≠ 0)) b = true :=
    fun b hb => List.mem_takeWhile_imp (p := fun c : UInt8 => decide (c ≠ 0)) hb
  rw [List.take_append, List.take_of_length_le (by omega), List.append_assoc,
    List.takeWhile_append_of_pos hid]
  obtain ⟨k, hk⟩ : ∃ k, 1000 - (idOf s).length = k + 1 := ⟨999 - (idOf s).length, by omega⟩
  rw [hk, List.take_succ_cons, List.cons_append, List.takeWhile_cons]
  exact List.append_nil _

/-- An end that stops, and a line of the log that is in none of the counts. -/
theorem FetchWindow.halt (h : FetchWindow welcome s key n l) (fetching serving : Bool)
    (line : BufferLine) (hid : line ≠ .idError) (htimeout : line ≠ .timeout)
    (htimes : line ≠ .times) :
    FetchWindow welcome s key n
      ({ l with fetching := fetching, serving := serving }.write line) := by
  have hone : (line :: l.log).count .idError = l.log.count .idError := List.count_cons_of_ne hid
  have htwo : (line :: l.log).count .timeout = l.log.count .timeout :=
    List.count_cons_of_ne htimeout
  have hthree : (line :: l.log).count .times = l.log.count .times := List.count_cons_of_ne htimes
  refine ⟨h.greeting, h.size, h.lock, h.fetch, h.requests, ?_, ?_, h.below, ?_, ?_, h.refused⟩
  · show l.requests.length + l.replies.length + l.lost + (line :: l.log).count .idError =
      n.toNat + (line :: l.log).count .timeout + welcomed welcome l
    rw [hone, htwo]
    exact h.flight
  · show ((line :: l.log).count .times : Int) * n + l.recvCount = l.delivered
    rw [hthree]
    exact h.rounds
  · intro hn
    exact hthree.trans (h.noRounds hn)
  · intro hmatch
    exact hone.trans (h.served hmatch)

theorem FetchWindow.mem_sendFetch (h : FetchWindow welcome s key n l) :
    ∀ request ∈ l.requests ++ [l.fetch], request = l.fetch := by
  intro request hrequest
  rcases List.mem_append.mp hrequest with hmem | hmem
  · exact h.requests request hmem
  · exact List.mem_singleton.mp hmem

theorem FetchWindow.mem_eraseIdx (h : FetchWindow welcome s key n l) (k : Nat) :
    ∀ request ∈ l.requests.eraseIdx k, request = l.fetch :=
  fun request hrequest => h.requests request (List.mem_of_mem_eraseIdx hrequest)

theorem FetchWindow.serve (h : FetchWindow welcome s key n l) (hs : (idOf s).length < 128) {k : Nat}
    {request : List UInt8} (hk : l.requests[k]? = some request) :
    FetchWindow welcome s key n ({ l with requests := l.requests.eraseIdx k }.serve request) := by
  obtain ⟨hlt, _⟩ := List.getElem?_eq_some_iff.mp hk
  have hreq : request = l.fetch := h.requests request (List.mem_of_getElem? hk)
  obtain ⟨rest, hfetch⟩ := h.fetch
  have hlen := List.length_eraseIdx_of_lt hlt
  have hflight := h.flight
  unfold BufferLink.serve
  simp only
  generalize hbuf : request.take 1000 ++ l.buf.drop (request.take 1000).length = buf
  have hread : buf.takeWhile (· ≠ 0) = idOf s := by
    rw [← hbuf, hreq, hfetch]
    exact takeWhile_served hs _ _
  split
  · next hkey =>
      rw [hread, h.lock] at hkey
      refine ⟨h.greeting, h.size, h.lock, h.fetch, h.mem_eraseIdx k, ?_, h.rounds, h.below,
        h.noRounds, h.served, fun hne => absurd hkey hne⟩
      show (l.requests.eraseIdx k).length + (l.replies ++ [buf.take 500]).length + l.lost +
        l.log.count .idError = n.toNat + l.log.count .timeout + welcomed welcome l
      rw [hlen, List.length_append, List.length_singleton]
      omega
  · next hkey =>
      rw [hread, h.lock] at hkey
      have hone : (BufferLine.idError :: l.log).count .idError = l.log.count .idError + 1 :=
        List.count_cons_self
      refine ⟨h.greeting, h.size, h.lock, h.fetch, h.mem_eraseIdx k, ?_, h.rounds, h.below,
        h.noRounds, fun heq => absurd heq hkey, h.refused⟩
      show (l.requests.eraseIdx k).length + l.replies.length + l.lost +
        (BufferLine.idError :: l.log).count .idError =
          n.toNat + l.log.count .timeout + welcomed welcome l
      rw [hlen, hone]
      omega

/-- A reply takes one from the network, and the next request puts one there. -/
theorem FetchWindow.receive (h : FetchWindow welcome s key n l) {k : Nat}
    (hk : k < l.replies.length) :
    FetchWindow welcome s key n ({ l with replies := l.replies.eraseIdx k }.receive) := by
  have hlen := List.length_eraseIdx_of_lt hk
  have hflight := h.flight
  have hrounds := h.rounds
  have hbelow := h.below
  have hnext : (l.requests ++ [l.fetch]).length + (l.replies.eraseIdx k).length + l.lost +
      l.log.count .idError = n.toNat + l.log.count .timeout + welcomed welcome l := by
    rw [hlen, List.length_append, List.length_singleton]
    omega
  have hrefused : idOf s ≠ BufferLink.bytes key →
      (l.replies.eraseIdx k).length + (l.delivered + 1) ≤ welcomed welcome l ∧
        ∀ reply ∈ l.replies.eraseIdx k, reply ∈ welcome := by
    intro hne
    obtain ⟨hcount, hwelcome⟩ := h.refused hne
    rw [hlen]
    exact ⟨by omega, fun reply hreply => hwelcome reply (List.mem_of_mem_eraseIdx hreply)⟩
  unfold BufferLink.receive
  dsimp only [BufferLink.sendFetch]
  split
  · next hfull =>
      rw [h.size] at hfull
      have htimes : (BufferLine.times :: l.log).count .times = l.log.count .times + 1 :=
        List.count_cons_self
      refine ⟨h.greeting, h.size, h.lock, h.fetch, h.mem_sendFetch, hnext, ?_, fun hn => hn,
        ?_, h.served, hrefused⟩
      · show ((BufferLine.times :: l.log).count .times : Int) * n + (0 : Nat) =
          ((l.delivered + 1 : Nat) : Int)
        rw [htimes]
        push_cast at hfull hrounds ⊢
        rw [Int.add_mul]
        omega
      · intro hn
        omega
  · next hfull =>
      rw [h.size] at hfull
      refine ⟨h.greeting, h.size, h.lock, h.fetch, h.mem_sendFetch, hnext, ?_, ?_,
        h.noRounds, h.served, hrefused⟩
      · show (l.log.count .times : Int) * n + ((l.recvCount + 1 : Nat) : Int) =
          ((l.delivered + 1 : Nat) : Int)
        push_cast
        omega
      · intro hn
        show ((l.recvCount + 1 : Nat) : Int) < n
        have := hbelow hn
        omega

theorem FetchWindow.timeout (h : FetchWindow welcome s key n l) :
    FetchWindow welcome s key n (l.write .timeout).sendFetch := by
  have hflight := h.flight
  have hone : (BufferLine.timeout :: l.log).count .timeout = l.log.count .timeout + 1 :=
    List.count_cons_self
  refine ⟨h.greeting, h.size, h.lock, h.fetch, h.mem_sendFetch, ?_, h.rounds, h.below,
    h.noRounds, h.served, h.refused⟩
  show (l.requests ++ [l.fetch]).length + l.replies.length + l.lost + l.log.count .idError =
    n.toNat + (BufferLine.timeout :: l.log).count .timeout + welcomed welcome l
  rw [hone, List.length_append, List.length_singleton]
  omega

/-- The welcome is under way to the client. -/
theorem FetchWindow.accept (h : FetchWindow welcome s key n l) :
    FetchWindow welcome s key n l.accept := by
  unfold BufferLink.accept
  split
  · exact h
  · next hnew =>
      have hflight := h.flight
      have hnone : welcomed welcome l = 0 := if_neg hnew
      refine ⟨h.greeting, h.size, h.lock, h.fetch, h.requests, ?_, h.rounds, h.below,
        h.noRounds, h.served, fun hne => ⟨?_, ?_⟩⟩
      · show l.requests.length + (l.replies ++ l.welcome).length + l.lost +
          l.log.count .idError = n.toNat + l.log.count .timeout + welcome.length
        rw [List.length_append, h.greeting]
        omega
      · have hcount := (h.refused hne).1
        show (l.replies ++ l.welcome).length + l.delivered ≤ welcome.length
        rw [List.length_append, h.greeting]
        omega
      · intro reply hreply
        rcases List.mem_append.mp hreply with hold | hnew
        · exact (h.refused hne).2 reply hold
        · rw [← h.greeting]
          exact hnew

theorem FetchWindow.step (hs : (idOf s).length < 128) (h : FetchWindow welcome s key n l)
    (act : BufferAct) : FetchWindow welcome s key n (l.step act) := by
  have hflight := h.flight
  cases act with
  | accept => exact h.accept
  | serve k =>
      simp only [BufferLink.step]
      split
      · next request _ hk => exact h.serve hs hk
      · exact h
  | serveEnd =>
      simp only [BufferLink.step]
      split
      · exact h.halt l.fetching false .ended (by decide) (by decide) (by decide)
      · exact h
  | reply k =>
      simp only [BufferLink.step]
      split
      · next hk => exact h.receive hk.2
      · exact h
  | timeout =>
      simp only [BufferLink.step]
      split
      · exact h.timeout
      · exact h
  | invalid =>
      simp only [BufferLink.step]
      split
      · exact h.halt false l.serving .invalid (by decide) (by decide) (by decide)
      · exact h
  | loseRequest k =>
      simp only [BufferLink.step]
      split
      · next hk =>
          refine ⟨h.greeting, h.size, h.lock, h.fetch, h.mem_eraseIdx k, ?_, h.rounds, h.below,
            h.noRounds, h.served, h.refused⟩
          show (l.requests.eraseIdx k).length + l.replies.length + (l.lost + 1) +
            l.log.count .idError = n.toNat + l.log.count .timeout + welcomed welcome l
          rw [List.length_eraseIdx_of_lt hk]
          omega
      · exact h
  | loseReply k =>
      simp only [BufferLink.step]
      split
      · next hk =>
          refine ⟨h.greeting, h.size, h.lock, h.fetch, h.requests, ?_, h.rounds, h.below,
            h.noRounds, h.served, fun hne => ?_⟩
          · show l.requests.length + (l.replies.eraseIdx k).length + (l.lost + 1) +
              l.log.count .idError = n.toNat + l.log.count .timeout + welcomed welcome l
            rw [List.length_eraseIdx_of_lt hk]
            omega
          · obtain ⟨hcount, hwelcome⟩ := h.refused hne
            refine ⟨?_, fun reply hreply => hwelcome reply (List.mem_of_mem_eraseIdx hreply)⟩
            show (l.replies.eraseIdx k).length + l.delivered ≤ welcomed welcome l
            rw [List.length_eraseIdx_of_lt hk]
            omega
      · exact h

theorem FetchWindow.run (hs : (idOf s).length < 128) (h : FetchWindow welcome s key n l)
    (acts : List BufferAct) : FetchWindow welcome s key n (l.run acts) := by
  unfold BufferLink.run
  induction acts generalizing l with
  | nil => exact h
  | cons act acts ih => exact ih (h.step hs act)

/-- `fetch` begins with `n` requests under way. -/
theorem start_fetchWindow {id buf : List UInt8}
    (h : BufferLink.start welcome s n key id buf = some l) :
    (idOf s).length < 128 ∧ FetchWindow welcome s key n l := by
  unfold BufferLink.start at h
  split at h
  · next hs =>
      cases h
      refine ⟨hs, rfl, rfl, rfl, ⟨_, rfl⟩,
        fun request hrequest => List.eq_of_mem_replicate hrequest, ?_, ?_, fun hn => hn,
        fun _ => rfl, fun _ => rfl,
        fun _ => ⟨Nat.le_refl _, fun reply hreply => absurd hreply List.not_mem_nil⟩⟩
      · show (List.replicate n.toNat (strcpy id s)).length + 0 + 0 + 0 = n.toNat + 0 + 0
        rw [List.length_replicate]
      · show ((0 : Nat) : Int) * n + (0 : Nat) = (0 : Nat)
        omega
  · cases h

/-- A report for every `n` replies. -/
theorem FetchWindow.times_eq (h : FetchWindow welcome s key n l) (hn : 0 < n) :
    (l.log.count .times : Int) = l.delivered / n := by
  rw [← h.rounds, Int.add_comm, Int.add_mul_ediv_right _ _ (by omega),
    Int.ediv_eq_zero_of_lt (by omega) (h.below hn), Int.zero_add]

end Steps

/-- Every run of a connection, from the first requests on. The packets under way, lost and
refused are `n`, one for each time-out and what `accept` has sent; a report comes with every
`n`-th packet that the client takes for a reply. With the server's key no request is
refused, and unless all are lost something is under way; with another one the client never
gets anything but the welcome. -/
theorem fetch_keeps_window {welcome : List (List UInt8)} {s key : List Char} {n : Int}
    {id buf : List UInt8} {l : BufferLink}
    (hstart : BufferLink.start welcome s n key id buf = some l) (acts : List BufferAct) :
    (l.run acts).requests.length + (l.run acts).replies.length + (l.run acts).lost +
        (l.run acts).log.count .idError =
      n.toNat + (l.run acts).log.count .timeout + welcomed welcome (l.run acts) ∧
    (0 < n → ((l.run acts).log.count .times : Int) = (l.run acts).delivered / n) ∧
    (n ≤ 0 → (l.run acts).log.count .times = 0) ∧
    (idOf s = BufferLink.bytes key → (l.run acts).log.count .idError = 0 ∧
      ((l.run acts).lost <
          n.toNat + (l.run acts).log.count .timeout + welcomed welcome (l.run acts) →
        (l.run acts).requests ≠ [] ∨ (l.run acts).replies ≠ [])) ∧
    (idOf s ≠ BufferLink.bytes key →
      (l.run acts).replies.length + (l.run acts).delivered ≤ welcomed welcome (l.run acts) ∧
        ∀ reply ∈ (l.run acts).replies, reply ∈ welcome) := by
  obtain ⟨hs, hwindow⟩ := start_fetchWindow hstart
  have h := hwindow.run hs acts
  refine ⟨h.flight, h.times_eq, h.noRounds, fun hmatch => ⟨h.served hmatch, fun hlost => ?_⟩,
    h.refused⟩
  have hflight := h.flight
  rw [h.served hmatch] at hflight
  by_contra hnone
  rw [not_or, not_not, not_not] at hnone
  rw [hnone.1, hnone.2, List.length_nil] at hflight
  omega

/-- Two requests under way, over the DAE library. -/
def pairLink : BufferLink where
  fetch := strcpy (List.replicate 128 1) ['7']
  n := 2
  key := ['7']
  buf := []
  welcome := daeWelcome
  requests := List.replicate 2 (strcpy (List.replicate 128 1) ['7'])

theorem pairLink_start :
    BufferLink.start daeWelcome ['7'] 2 ['7'] (List.replicate 128 1) [] = some pairLink := rfl

/-- The connection is accepted, one request is answered, the client's time is up once, and it
gets the welcome and the reply: there are four packets under way. -/
def pairActs : List BufferAct := [.accept, .serve 0, .timeout, .reply 0, .reply 0]

theorem fetch_keeps_window_pair :
    BufferLink.start daeWelcome ['7'] 2 ['7'] (List.replicate 128 1) [] = some pairLink ∧
      (pairLink.run pairActs).delivered = 2 ∧
      ((pairLink.run pairActs).log.count .times : Int) = (pairLink.run pairActs).delivered / 2 ∧
      (pairLink.run pairActs).requests.length + (pairLink.run pairActs).replies.length +
          (pairLink.run pairActs).lost + (pairLink.run pairActs).log.count .idError =
        2 + (pairLink.run pairActs).log.count .timeout +
          welcomed daeWelcome (pairLink.run pairActs) :=
  ⟨pairLink_start, rfl, (fetch_keeps_window pairLink_start _).2.1 (by decide),
    (fetch_keeps_window pairLink_start _).1⟩

end Daenet.Proofs
