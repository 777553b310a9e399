import Mathlib.Data.List.Induction
import Daenet.Lib.Partial
import Daenet.Ref.SocketConfig

/-!
# Ids and the files they come from

An id is the number of a line. All nodes read the same lines, whoever they are, so an id
that one node was given names the line with its address at every other node: a connection
goes there, and so does a circuit, over relays that are neither end of it.

The scripts write the files and the sockets read them: the lines that are read are the
servers that were written.
-/

namespace Daenet.Proofs

open Daenet.Lib Daenet.Ref

/-! ## What is written is read -/

section Lines

variable {rest : List Char}

theorem isBlank_space : isBlank ' ' = true := rfl

theorem isBlank_newline : isBlank '\n' = true := rfl

/-- A server that a line can be about. -/
structure Writable (server : List Char × Nat) : Prop where
  ip : IsWord server.1
  port : server.2 < 2 ^ 31

theorem readHost_consumes : Consumes readHost := by
  intro text h rest hread
  unfold readHost at hread
  split at hread
  · cases hread
  · next ip text₁ hword =>
      have h₁ := readWord_length hword
      split at hread
      · cases hread
      · next port text₂ hint =>
          have h₂ := readInt_length hint
          cases hread
          omega

theorem readTorLine_consumes : Consumes readTorLine := by
  intro text l rest hread
  unfold readTorLine at hread
  split at hread
  · cases hread
  · next ip text₁ hword =>
      have h₁ := readWord_length hword
      split at hread
      · cases hread
      · next port text₂ hint =>
          have h₂ := readInt_length hint
          split at hread
          · cases hread
            omega
          · split at hread
            · cases hread
              exact Nat.lt_of_le_of_lt (Nat.zero_le _) h₁
            · next key text₃ hkey =>
                have h₃ := readWord_length hkey
                cases hread
                omega

/-- A reader that begins with a word skips a blank. -/
theorem records_blank {α : Type} {read : List Char → Option (α × List Char)}
    (hread : Consumes read) {c : Char} (h : ∀ text, read (c :: text) = read text)
    (text : List Char) : records read (c :: text) = records read text := by
  rw [records_eq hread, records_eq hread text, h]

theorem readHost_blank {c : Char} (hc : isBlank c = true) (text : List Char) :
    readHost (c :: text) = readHost text := by
  unfold readHost
  rw [readWord_blank hc]

theorem readTorLine_blank {c : Char} (hc : isBlank c = true) (text : List Char) :
    readTorLine (c :: text) = readTorLine text := by
  unfold readTorLine
  rw [readWord_blank hc]

/-- The number behind a blank. -/
theorem readInt_toText {n : Nat} (hn : n < 2 ^ 31) (hrest : EndsWord rest) :
    readInt (' ' :: (toText n ++ rest)) = some ((n : Int), rest) := by
  rw [readInt_blank isBlank_space]
  exact readInt_digits hn hrest

theorem readHost_line {server : List Char × Nat} (h : Writable server) :
    readHost (server.1 ++ ' ' :: (toText server.2 ++ '\n' :: rest)) =
      some (⟨server.1, server.2⟩, '\n' :: rest) := by
  unfold readHost
  rw [readWord_append h.ip (endsWord_cons isBlank_space)]
  simp only
  rw [readInt_toText h.port (endsWord_cons isBlank_newline)]

/-- The lines of the file are the servers. -/
theorem records_hostConfig {servers : List (List Char × Nat)}
    (h : ∀ server ∈ servers, Writable server) :
    records readHost (hostConfig servers) =
      servers.map fun server => (⟨server.1, server.2⟩ : TcpHost) := by
  induction servers with
  | nil => rfl
  | cons server servers ih =>
      have hline : hostConfig (server :: servers) =
          server.1 ++ ' ' :: (toText server.2 ++ '\n' :: hostConfig servers) := by
        simp [hostConfig]
      rw [hline, records_eq readHost_consumes, readHost_line (h _ (List.mem_cons_self ..))]
      simp only
      rw [records_blank readHost_consumes (readHost_blank isBlank_newline),
        ih fun s hs => h s (List.mem_cons_of_mem _ hs), List.map_cons]

theorem readTorLine_line {server : List Char × Nat} {key : List Char} (h : Writable server)
    (hlayer : server.1 ≠ ['l', 'a', 'y', 'e', 'r']) (hkey : IsWord key) :
    readTorLine (server.1 ++ ' ' :: (toText server.2 ++ ' ' :: (key ++ '\n' :: rest))) =
      some (.relay server.1 server.2 (some key), '\n' :: rest) := by
  unfold readTorLine
  rw [readWord_append h.ip (endsWord_cons isBlank_space)]
  simp only
  rw [readInt_toText h.port (endsWord_cons isBlank_space)]
  simp only
  rw [if_neg hlayer, readWord_blank isBlank_space,
    readWord_append hkey (endsWord_cons isBlank_newline)]

theorem isWord_layer : IsWord ['l', 'a', 'y', 'e', 'r'] := isWord_of_all rfl rfl

theorem readTorLine_layer {layer : Nat} (hlayer : layer < 2 ^ 31) :
    readTorLine (['l', 'a', 'y', 'e', 'r'] ++ ' ' :: (toText layer ++ '\n' :: rest)) =
      some (.layer layer, '\n' :: rest) := by
  unfold readTorLine
  rw [readWord_append isWord_layer (endsWord_cons isBlank_space)]
  simp only
  rw [readInt_toText hlayer (endsWord_cons isBlank_newline)]
  simp only [if_true]

/-- The lines of the file are the number of layers and the servers. -/
theorem records_torConfig {layer : Nat} {servers : List (List Char × Nat)} {key : List Char}
    (hlayer : layer < 2 ^ 31) (h : ∀ server ∈ servers, Writable server)
    (hne : ∀ server ∈ servers, server.1 ≠ ['l', 'a', 'y', 'e', 'r']) (hkey : IsWord key) :
    records readTorLine (torConfig layer servers key) =
      .layer layer :: servers.map fun server => .relay server.1 server.2 (some key) := by
  have hservers : records readTorLine (servers.flatMap fun server =>
      server.1 ++ ' ' :: (toText server.2 ++ ' ' :: (key ++ ['\n']))) =
      servers.map fun server => .relay server.1 server.2 (some key) := by
    induction servers with
    | nil => rfl
    | cons server servers ih =>
        have hline : (List.flatMap (fun server : List Char × Nat =>
            server.1 ++ ' ' :: (toText server.2 ++ ' ' :: (key ++ ['\n'])))
              (server :: servers)) =
            server.1 ++ ' ' :: (toText server.2 ++ ' ' :: (key ++ '\n' ::
              servers.flatMap fun server =>
                server.1 ++ ' ' :: (toText server.2 ++ ' ' :: (key ++ ['\n'])))) := by
          simp
        rw [hline, records_eq readTorLine_consumes,
          readTorLine_line (h _ (List.mem_cons_self ..)) (hne _ (List.mem_cons_self ..)) hkey]
        simp only
        rw [records_blank readTorLine_consumes (readTorLine_blank isBlank_newline),
          ih (fun s hs => h s (List.mem_cons_of_mem _ hs))
            (fun s hs => hne s (List.mem_cons_of_mem _ hs)), List.map_cons]
  rw [torConfig, records_eq readTorLine_consumes, readTorLine_layer hlayer]
  simp only
  rw [records_blank readTorLine_consumes (readTorLine_blank isBlank_newline), hservers]

/-- An id is read as the number it was made from. -/
theorem stoi_toText {n : Nat} (hn : n < 2 ^ 31) : stoi (toText n) = some (n : Int) := by
  have h := readInt_digits hn endsWord_nil
  rw [List.append_nil] at h
  rw [stoi, toText, h]
  rfl

end Lines

/-! ## The last line with an address -/

section LastLine

variable {α β : Type} {p : α → Bool} {l : List α} {k : Nat}

/-- Line `k` is the last one of which `p` holds. -/
structure LastLine (p : α → Bool) (l : List α) (k : Nat) : Prop where
  here : ∃ x, l[k]? = some x ∧ p x = true
  after : ∀ j x, k < j → l[j]? = some x → p x = false

theorem LastLine.concat_new {x : α} (hx : p x = true) : LastLine p (l ++ [x]) l.length := by
  refine ⟨⟨x, List.getElem?_concat_length, hx⟩, fun j y hj hy => ?_⟩
  rw [List.getElem?_eq_none (by rw [List.length_append, List.length_singleton]; omega)] at hy
  cases hy

theorem LastLine.concat_old {x : α} (h : LastLine p l k) (hx : p x = false) :
    LastLine p (l ++ [x]) k := by
  obtain ⟨y, hy, hpy⟩ := h.here
  have hk : k < l.length := (List.getElem?_eq_some_iff.mp hy).1
  refine ⟨⟨y, by rw [List.getElem?_append_left hk, hy], hpy⟩, fun j z hj hz => ?_⟩
  rcases Nat.lt_trichotomy j l.length with hlt | rfl | hgt
  · rw [List.getElem?_append_left hlt] at hz
    exact h.after j z hj hz
  · rw [List.getElem?_concat_length] at hz
    cases hz
    exact hx
  · rw [List.getElem?_eq_none
      (by rw [List.length_append, List.length_singleton]; omega)] at hz
    cases hz

theorem LastLine.lt (h : LastLine p l k) : k < l.length := by
  obtain ⟨y, hy, _⟩ := h.here
  exact (List.getElem?_eq_some_iff.mp hy).1

/-- The loop that notes the number of each line of which `p` holds ends with the last. -/
theorem foldl_lastLine (p : α → Bool) (g : Nat → β) (init : β) (l : List α) :
    (∃ k, LastLine p l k ∧
      l.zipIdx.foldl (fun b line => if p line.1 then g line.2 else b) init = g k) ∨
    ((∀ x ∈ l, p x = false) ∧
      l.zipIdx.foldl (fun b line => if p line.1 then g line.2 else b) init = init) := by
  induction l using List.reverseRecOn with
  | nil => exact .inr ⟨fun x hx => absurd hx List.not_mem_nil, rfl⟩
  | append_singleton l x ih =>
      rw [List.zipIdx_append, List.foldl_append]
      simp only [List.zipIdx_cons, List.zipIdx_nil, List.foldl_cons, List.foldl_nil,
        Nat.zero_add]
      cases hx : p x with
      | true => exact .inl ⟨l.length, LastLine.concat_new hx, if_pos rfl⟩
      | false =>
          rw [if_neg Bool.false_ne_true]
          rcases ih with ⟨k, hlast, hk⟩ | ⟨hnone, hk⟩
          · exact .inl ⟨k, hlast.concat_old hx, hk⟩
          · refine .inr ⟨fun y hy => ?_, hk⟩
            rcases List.mem_append.mp hy with hy | hy
            · exact hnone y hy
            · rw [List.mem_singleton.mp hy]
              exact hx

end LastLine

/-! ## TCP and Loopix -/

section Hosts

variable {ip : List Char} {port : Int} {text : List Char} {bound : Bool}

/-- A line is the node's own. -/
def isHost (ip : List Char) (port : Int) (h : TcpHost) : Bool :=
  decide (ip = h.ip ∧ port = h.port)

theorem isHost_iff {h : TcpHost} : isHost ip port h = true ↔ h = ⟨ip, port⟩ := by
  unfold isHost
  rw [decide_eq_true_iff]
  constructor
  · rintro ⟨rfl, rfl⟩
    rfl
  · rintro rfl
    exact ⟨rfl, rfl⟩

theorem addHost_fold (ip : List Char) (port : Int) (lines : List (TcpHost × Nat))
    (m : TcpMetadata) :
    lines.foldl (TcpMetadata.addHost ip port) m =
      { relayIdx := lines.foldl (fun b line =>
          if isHost ip port line.1 then ((line.2 : Nat) : Int) else b) m.relayIdx
        relays := m.relays ++ lines.map Prod.fst } := by
  induction lines generalizing m with
  | nil => simp
  | cons line lines ih =>
      rw [List.foldl_cons, ih, List.foldl_cons, List.map_cons]
      unfold TcpMetadata.addHost isHost
      by_cases h : ip = line.1.ip ∧ port = line.1.port
      · simp [h]
      · simp [h]

/-- Every node that reads the file has the same lines. -/
theorem initializeRelay_relays :
    (TcpMetadata.initializeRelay bound ip port text).2.relays = records readHost text := by
  have hm := addHost_fold ip port (records readHost text).zipIdx {}
  have hrelays : ((records readHost text).zipIdx.foldl (TcpMetadata.addHost ip port)
      {}).relays = records readHost text := by
    rw [hm]
    simp
  unfold TcpMetadata.initializeRelay
  simp only
  split
  · exact hrelays
  · split
    · exact hrelays
    · exact hrelays

/-- The id is the number of the last line with the node's address. -/
theorem initializeRelay_id (ip : List Char) (port : Int) (text : List Char) :
    (∃ k, LastLine (isHost ip port) (records readHost text) k ∧
      (TcpMetadata.initializeRelay true ip port text).1 = toText k) ∨
    (⟨ip, port⟩ ∉ records readHost text ∧
      (TcpMetadata.initializeRelay true ip port text).1 = []) := by
  have hm := addHost_fold ip port (records readHost text).zipIdx {}
  unfold TcpMetadata.initializeRelay
  simp only [if_true]
  rw [hm]
  simp only
  rcases foldl_lastLine (isHost ip port) (fun k => (k : Int)) (-1) (records readHost text) with
    ⟨k, hlast, hk⟩ | ⟨hnone, hk⟩
  · rw [hk]
    refine .inl ⟨k, hlast, ?_⟩
    rw [if_neg (by omega)]
    rfl
  · rw [hk]
    refine .inr ⟨fun hmem => ?_, by rw [if_pos rfl]⟩
    have := hnone _ hmem
    rw [isHost_iff.mpr rfl] at this
    cases this

theorem loopixIndex_eq (ip : List Char) (port : Int) (text : List Char) :
    (∃ k, LastLine (isHost ip port) (records readHost text) k ∧
      (loopixIndex ip port text).1 = k) ∨
    (⟨ip, port⟩ ∉ records readHost text ∧ (loopixIndex ip port text).1 = 0) := by
  have hfold : (loopixIndex ip port text).1 = (records readHost text).zipIdx.foldl
      (fun b line => if isHost ip port line.1 then id line.2 else b) 0 := by
    unfold loopixIndex isHost
    simp only [eq_comm (a := ip), eq_comm (a := port), decide_eq_true_eq, id]
  rw [hfold]
  rcases foldl_lastLine (isHost ip port) id 0 (records readHost text) with
    ⟨k, hlast, hk⟩ | ⟨hnone, hk⟩
  · exact .inl ⟨k, hlast, hk⟩
  · refine .inr ⟨fun hmem => ?_, hk⟩
    have := hnone _ hmem
    rw [isHost_iff.mpr rfl] at this
    cases this

theorem LastLine.host {lines : List TcpHost} {k : Nat} (h : LastLine (isHost ip port) lines k) :
    lines[k]? = some ⟨ip, port⟩ := by
  obtain ⟨x, hx, hp⟩ := h.here
  rw [hx, isHost_iff.mp hp]

/-- A connection to an id goes to the line with that number. -/
theorem connect_toText {m : TcpMetadata} {k : Nat} {h : TcpHost} (hk : k < 2 ^ 31)
    (hh : m.relays[k]? = some h) : m.connect (toText k) = .host h := by
  have hidx : (((k : Nat) : Int) % 2 ^ 64).toNat = k := by
    rw [Int.emod_eq_of_lt (by omega) (by omega)]
    rfl
  unfold TcpMetadata.connect
  rw [stoi_toText hk]
  simp only [hidx, hh]

theorem mem_hosts {servers : List (List Char × Nat)} {port : Nat} :
    (⟨ip, port⟩ : TcpHost) ∈ (servers.map fun server => (⟨server.1, server.2⟩ : TcpHost)) ↔
      (ip, port) ∈ servers := by
  rw [List.mem_map]
  constructor
  · rintro ⟨server, hmem, heq⟩
    injection heq with hip hport
    have hpair : server = (ip, port) := Prod.ext hip (Int.ofNat_inj.mp hport)
    rwa [← hpair]
  · intro hmem
    exact ⟨(ip, port), hmem, rfl⟩

end Hosts

/-- From the script to the connection. With the file that the script writes for some
servers, the id that `initialize` gives to one of them takes every other one there, over
TCP; over Loopix its index is a line with its address. A node that is not among them gets
no id over TCP, but over Loopix it is taken for the first of them. -/
theorem deployed_hosts_are_reached {servers : List (List Char × Nat)}
    (h : ∀ server ∈ servers, Writable server) (hlen : servers.length ≤ 2 ^ 31)
    (ip : List Char) (port : Nat) :
    ((ip, port) ∈ servers →
      (∀ bound ip' port',
        (TcpMetadata.initializeRelay bound ip' port' (hostConfig servers)).2.connect
          (TcpMetadata.initializeRelay true ip port (hostConfig servers)).1 =
            .host ⟨ip, port⟩) ∧
      servers[(loopixIndex ip port (hostConfig servers)).1]? = some (ip, port)) ∧
    ((ip, port) ∉ servers →
      (TcpMetadata.initializeRelay true ip port (hostConfig servers)).1 = [] ∧
      (loopixIndex ip port (hostConfig servers)).1 = 0) ∧
    (loopixIndex ip port (hostConfig servers)).2 = servers.length := by
  have hrecords := records_hostConfig h
  have hmem : (⟨ip, (port : Int)⟩ : TcpHost) ∈ records readHost (hostConfig servers) ↔
      (ip, port) ∈ servers := by
    rw [hrecords]
    exact mem_hosts
  refine ⟨fun hlisted => ⟨fun bound ip' port' => ?_, ?_⟩, fun hlisted => ⟨?_, ?_⟩, ?_⟩
  · rcases initializeRelay_id ip port (hostConfig servers) with
      ⟨k, hlast, hid⟩ | ⟨hnot, _⟩
    · rw [hid]
      have hlt := hlast.lt
      rw [hrecords, List.length_map] at hlt
      refine connect_toText (by omega) ?_
      rw [initializeRelay_relays]
      exact hlast.host
    · exact absurd (hmem.mpr hlisted) hnot
  · rcases loopixIndex_eq ip port (hostConfig servers) with
      ⟨k, hlast, hk⟩ | ⟨hnot, _⟩
    · rw [hk]
      have hhost := hlast.host
      rw [hrecords, List.getElem?_map, Option.map_eq_some_iff] at hhost
      obtain ⟨server, hserver, heq⟩ := hhost
      injection heq with hip hport
      rw [hserver, ← hip, ← Int.ofNat_inj.mp hport]
    · exact absurd (hmem.mpr hlisted) hnot
  · rcases initializeRelay_id ip port (hostConfig servers) with
      ⟨k, hlast, _⟩ | ⟨_, hid⟩
    · exact absurd (hmem.mp (List.mem_of_getElem? hlast.host)) hlisted
    · exact hid
  · rcases loopixIndex_eq ip port (hostConfig servers) with
      ⟨k, hlast, _⟩ | ⟨_, hk⟩
    · exact absurd (hmem.mp (List.mem_of_getElem? hlast.host)) hlisted
    · exact hk
  · show (records readHost (hostConfig servers)).length = _
    rw [hrecords, List.length_map]

/-- Two servers, and a node that is not one of them. -/
theorem deployed_hosts_are_reached_pair :
    (TcpMetadata.initializeRelay true ['b'] 3101
        (hostConfig [(['a'], 3100), (['b'], 3101)])).2.connect
      (TcpMetadata.initializeRelay true ['a'] 3100
        (hostConfig [(['a'], 3100), (['b'], 3101)])).1 = .host ⟨['a'], 3100⟩ ∧
    (loopixIndex ['c'] 3102 (hostConfig [(['a'], 3100), (['b'], 3101)])).1 = 0 := by
  have hservers : ∀ server ∈ [((['a'] : List Char), 3100), (['b'], 3101)],
      Writable server := by
    intro server hserver
    simp only [List.mem_cons, List.not_mem_nil, or_false] at hserver
    rcases hserver with rfl | rfl
    · exact ⟨isWord_of_all rfl rfl, by decide⟩
    · exact ⟨isWord_of_all rfl rfl, by decide⟩
  have hreached := fun ip port => deployed_hosts_are_reached hservers (by decide) ip port
  exact ⟨((hreached ['a'] 3100).1 (by decide)).1 true ['b'] 3101,
    ((hreached ['c'] 3102).2.1 (by decide)).2⟩

/-! ## The onion socket -/

section Relays

variable {ip : List Char} {port : Int} {s s' : TorLoop}

/-- A line is the node's own. -/
def isRelay (ip : List Char) (port : Int) (r : TorRelay) : Bool :=
  decide (r.ip = ip ∧ r.port = port)

/-- What all nodes make of a line alike. -/
def readRelay (shared : List Char × List TorRelay × Int) :
    TorLine → List Char × List TorRelay × Int
  | .layer n => (shared.1, shared.2.1, n)
  | .relay ip port read =>
      (read.getD shared.1, shared.2.1 ++ [{ ip := ip, port := port, key := shared.1 }],
        shared.2.2)

/-- The variables of the loop that do not depend on the node. -/
def sharedOf (s : TorLoop) : List Char × List TorRelay × Int :=
  (s.key, s.metadata.allRelays, s.metadata.numLayers)

/-- What a turn of the loop does. -/
theorem line_cases {l : TorLine} (h : s.line ip port l = some s') :
    (∃ n, l = .layer n ∧ s' = { s with metadata := { s.metadata with numLayers := n } }) ∨
    (∃ relayIp relayPort read, l = .relay relayIp relayPort read ∧
      s'.curIdx = s.curIdx + 1 ∧ sharedOf s' = readRelay (sharedOf s) l ∧
      ((isRelay ip port { ip := relayIp, port := relayPort, key := s.key } = true ∧
          s'.findMe = true ∧ s'.metadata.serverIdx = s.curIdx ∧
          s'.metadata.rawKey = strcpy s.metadata.rawKey (read.getD s.key)) ∨
        (isRelay ip port { ip := relayIp, port := relayPort, key := s.key } = false ∧
          s'.findMe = s.findMe ∧ s'.metadata.serverIdx = s.metadata.serverIdx ∧
          s'.metadata.rawKey = s.metadata.rawKey))) := by
  cases l with
  | layer n =>
      cases h
      exact .inl ⟨n, rfl, rfl⟩
  | relay relayIp relayPort read =>
      simp only [TorLoop.line] at h
      split at h
      · next hme =>
          split at h
          · cases h
          · cases h
            exact .inr ⟨_, _, _, rfl, rfl, rfl, .inl ⟨decide_eq_true hme, rfl, rfl, rfl⟩⟩
      · next hme =>
          cases h
          exact .inr ⟨_, _, _, rfl, rfl, rfl, .inr ⟨decide_eq_false hme, rfl, rfl, rfl⟩⟩

theorem line_shared {l : TorLine} (h : s.line ip port l = some s') :
    sharedOf s' = readRelay (sharedOf s) l := by
  rcases line_cases h with ⟨n, rfl, rfl⟩ | ⟨_, _, _, rfl, _, hshared, _⟩
  · rfl
  · exact hshared

/-- The node's own line is the last one with its address. -/
structure Located (ip : List Char) (port : Int) (s : TorLoop) : Prop where
  count : s.curIdx = s.metadata.allRelays.length
  found : s.findMe = true → LastLine (isRelay ip port) s.metadata.allRelays s.metadata.serverIdx
  lost : s.findMe = false → ∀ r ∈ s.metadata.allRelays, isRelay ip port r = false

theorem Located.line {l : TorLine} (hs : Located ip port s) (h : s.line ip port l = some s') :
    Located ip port s' := by
  rcases line_cases h with ⟨n, rfl, rfl⟩ |
    ⟨relayIp, relayPort, read, rfl, hcount, hshared, hme⟩
  · exact ⟨hs.count, hs.found, hs.lost⟩
  · have hrelays : s'.metadata.allRelays = s.metadata.allRelays ++
        [{ ip := relayIp, port := relayPort, key := s.key }] :=
      congrArg (fun shared => shared.2.1) hshared
    refine ⟨?_, ?_, ?_⟩
    · rw [hcount, hrelays, List.length_append, List.length_singleton, hs.count]
    · intro hfind
      rcases hme with ⟨hme, _, hidx, _⟩ | ⟨hme, hfind', hidx, _⟩
      · rw [hrelays, hidx, hs.count]
        exact LastLine.concat_new hme
      · rw [hrelays, hidx]
        exact (hs.found (hfind' ▸ hfind)).concat_old hme
    · intro hfind r hr
      rcases hme with ⟨_, hfind', _, _⟩ | ⟨hme, hfind', _, _⟩
      · rw [hfind'] at hfind
        cases hfind
      · rw [hrelays, List.mem_append, List.mem_singleton] at hr
        rcases hr with hr | rfl
        · exact hs.lost (hfind' ▸ hfind) r hr
        · exact hme

theorem located_loop {lines : List TorLine}
    (h : lines.foldlM (TorLoop.line ip port) {} = some s) : Located ip port s :=
  foldlM_inv (fun _ _ _ hs hstep => Located.line hs hstep)
    ⟨rfl, fun hfind => absurd hfind Bool.false_ne_true, fun _ _ hr => absurd hr List.not_mem_nil⟩ h

/-- Two nodes read the same relays from the same lines. -/
theorem shared_loop {lines : List TorLine}
    (h : lines.foldlM (TorLoop.line ip port) {} = some s) :
    sharedOf s = lines.foldl readRelay ([], [], 0) := by
  have hshown : ∀ s l t, (fun _ : TorLine => true) l = true →
      TorLoop.line ip port s l = some t → sharedOf t = readRelay (sharedOf s) l :=
    fun _ _ _ _ hstep => line_shared hstep
  have hview := foldlM_view hshown (fun _ _ _ hfalse => absurd hfalse.symm Bool.false_ne_true) h
  rw [List.filter_true] at hview
  exact hview

/-- Filling in an address changes nothing else. -/
theorem rawAddresses_getElem? (inetPton : List Char → Option UInt32) (last : UInt32)
    {rs : List TorRelay} {k : Nat} {r : TorRelay} (h : rs[k]? = some r) :
    ∃ raw, (rawAddresses inetPton last rs)[k]? = some { r with ipRaw := raw } ∧
      ∀ a, inetPton r.ip = some a → raw = a := by
  induction rs generalizing last k with
  | nil => cases h
  | cons r' rs ih =>
      cases k with
      | zero =>
          cases h
          refine ⟨_, rfl, fun a ha => ?_⟩
          rw [ha]
          rfl
      | succ k => exact ih _ h

/-- The relays and the number of layers that a file holds. -/
def fileRelays (text : List Char) : List TorRelay × Int :=
  ((records readTorLine text).foldl readRelay ([], [], 0)).2

variable {inetPton : List Char → Option UInt32} {bound : Bool} {text id : List Char}
  {m : TorMetadata}

/-- What a node knows after `initialize`: what the file holds, and where it stands in it
itself. -/
theorem initializeRelay_spec
    (h : TorMetadata.initializeRelay inetPton bound ip port text = some (id, m)) :
    m.allRelays = rawAddresses inetPton 0 (fileRelays text).1 ∧
    m.numLayers = (fileRelays text).2 ∧ id = toText m.serverIdx ∧
    ∃ r, m.allRelays[m.serverIdx]? = some r ∧ r.ip = ip ∧ r.port = port ∧
      ∀ a, inetPton ip = some a → r.ipRaw = a := by
  unfold TorMetadata.initializeRelay at h
  split at h
  · cases h
  · next s hloop =>
      have hshared := congrArg Prod.snd (shared_loop hloop)
      split at h
      · next hfind =>
          cases h
          have hrelays : s.metadata.allRelays = (fileRelays text).1 :=
            congrArg Prod.fst hshared
          have hlast := (located_loop hloop).found (Bool.and_eq_true_iff.mp hfind).1
          obtain ⟨r, hr, hme⟩ := hlast.here
          obtain ⟨hip, hport⟩ := of_decide_eq_true hme
          obtain ⟨raw, hraw, hread⟩ := rawAddresses_getElem? inetPton 0 hr
          refine ⟨by rw [hrelays], congrArg Prod.snd hshared, rfl, _, hraw, hip, hport, ?_⟩
          intro a ha
          rw [← hip] at ha
          exact hread a ha
      · cases h

end Relays

/-! ## Drawing the relays -/

section Draws

variable (range : Nat) (avoid : Nat → Bool)

/-- The draws that `connect` can use. -/
def goodDraws (range : Nat) (avoid : Nat → Bool) (draws : List Nat) : List Nat :=
  (draws.map (· % range)).filter fun i => !avoid i

theorem drawRelay_good (draws : List Nat) :
    (TorMetadata.drawRelay range avoid draws = none ∧ goodDraws range avoid draws = []) ∨
    ∃ i rest, TorMetadata.drawRelay range avoid draws = some (i, rest) ∧
      goodDraws range avoid draws = i :: goodDraws range avoid rest := by
  induction draws with
  | nil => exact .inl ⟨rfl, rfl⟩
  | cons x draws ih =>
      unfold TorMetadata.drawRelay goodDraws
      rw [List.map_cons]
      cases hx : avoid (x % range) with
      | true =>
          rw [if_pos rfl, List.filter_cons_of_neg (by simp [hx])]
          exact ih
      | false =>
          rw [if_neg Bool.false_ne_true, List.filter_cons_of_pos (by simp [hx])]
          exact .inr ⟨_, _, rfl, rfl⟩

/-- The first draws that can be used are used. -/
theorem drawRelays_good (n : Nat) (draws : List Nat) :
    TorMetadata.drawRelays range avoid n draws =
      if n ≤ (goodDraws range avoid draws).length then
        some ((goodDraws range avoid draws).take n)
      else none := by
  induction n generalizing draws with
  | zero =>
      rw [if_pos (Nat.zero_le _), List.take_zero]
      rfl
  | succ n ih =>
      unfold TorMetadata.drawRelays
      rcases drawRelay_good range avoid draws with
        ⟨hdraw, hgood⟩ | ⟨i, rest, hdraw, hgood⟩
      · rw [hdraw, hgood, if_neg (by simp)]
      · rw [hdraw, hgood]
        simp only
        rw [ih rest, List.length_cons, List.take_succ_cons]
        by_cases hn : n ≤ (goodDraws range avoid rest).length
        · rw [if_pos hn, if_pos (Nat.succ_le_succ hn)]
        · rw [if_neg hn, if_neg fun h => hn (Nat.le_of_succ_le_succ h)]

end Draws

/-- `connect` to the id of a line, when there is one. -/
theorem connect_line {m : TorMetadata} {k : Nat} {dest : TorRelay} (hk : k < 2 ^ 31)
    (hdest : m.allRelays[k]? = some dest) (hlayers : 0 ≤ m.numLayers) (draws : List Nat) :
    let good := goodDraws m.allRelays.length (fun i => i == m.serverIdx || i == k) draws
    m.connect (toText k) draws =
      if m.numLayers.toNat ≤ good.length then
        .circuit (good.take m.numLayers.toNat)
          (m.socketOver dest (good.take m.numLayers.toNat))
      else .drawing := by
  intro good
  have hidx : (((k : Nat) : Int) % 2 ^ 64).toNat = k := by
    rw [Int.emod_eq_of_lt (by omega) (by omega)]
    rfl
  have havoid : (fun i : Nat => i == m.serverIdx || (i : Int) == (k : Int)) =
      fun i => i == m.serverIdx || i == k := by
    funext i
    rw [show ((i : Int) == (k : Int)) = (i == k) by
      rw [Bool.eq_iff_iff, beq_iff_eq, beq_iff_eq]
      exact Int.ofNat_inj]
  unfold TorMetadata.connect
  rw [if_neg (by omega), stoi_toText hk]
  simp only [hidx, hdest]
  rw [if_neg (by omega), havoid, drawRelays_good]
  by_cases hn : m.numLayers.toNat ≤ good.length
  · rw [if_pos hn, if_pos hn]
  · rw [if_neg hn, if_neg hn]

theorem socketOver_relay {m : TorMetadata} {dest r : TorRelay} {path : List Nat} {i k : Nat}
    (hi : i ≠ m.numLayers.toNat) (hk : path[i]? = some k) (hr : m.allRelays[k]? = some r) :
    (m.socketOver dest path).relays i = r.peer := by
  have hgetD : path.getD i 0 = k := by
    rw [List.getD_eq_getElem?_getD, hk]
    rfl
  simp only [TorMetadata.socketOver, if_neg hi, hgetD, hr]

theorem mem_goodDraws {range i : Nat} {avoid : Nat → Bool} {draws : List Nat}
    (h : i ∈ goodDraws range avoid draws) : (0 < range → i < range) ∧ avoid i = false := by
  obtain ⟨hmap, havoid⟩ := List.mem_filter.mp h
  obtain ⟨x, _, rfl⟩ := List.mem_map.mp hmap
  exact ⟨fun hpos => Nat.mod_lt x hpos, by simpa using havoid⟩

/-- Two nodes that have read the same file, whatever is in it. A circuit from the first to
the id of the second ends at the second's address, and its relays are lines of the file
that are neither the one nor the other: the first draws that are not. With no other lines
than theirs, it draws for ever. -/
theorem circuits_end_at_ids {inetPton : List Char → Option UInt32} {boundA boundB : Bool}
    {ipA ipB : List Char} {portA portB : Int} {text idA idB : List Char}
    {mA mB : TorMetadata}
    (hA : TorMetadata.initializeRelay inetPton boundA ipA portA text = some (idA, mA))
    (hB : TorMetadata.initializeRelay inetPton boundB ipB portB text = some (idB, mB))
    (hlen : mA.allRelays.length ≤ 2 ^ 31) (hlayers : 0 ≤ mA.numLayers) (draws : List Nat) :
    let L := mA.numLayers.toNat
    let good := goodDraws mA.allRelays.length
      (fun i => i == mA.serverIdx || i == mB.serverIdx) draws
    (good.length < L → mA.connect idB draws = .drawing) ∧
    (L ≤ good.length → ∃ (socket : TorSocket) (dest : TorRelay),
      mA.connect idB draws = .circuit (good.take L) socket ∧ socket.numLayers = L ∧
      dest.ip = ipB ∧ dest.port = portB ∧
      (∀ a, inetPton ipB = some a → dest.ipRaw = a) ∧ socket.relays L = dest.peer ∧
      ∀ i < L, ∃ k r, (good.take L)[i]? = some k ∧ k ≠ mA.serverIdx ∧ k ≠ mB.serverIdx ∧
        mA.allRelays[k]? = some r ∧ socket.relays i = r.peer) ∧
    ((∀ i < mA.allRelays.length, i = mA.serverIdx ∨ i = mB.serverIdx) → 0 < L →
      mA.connect idB draws = .drawing) := by
  intro L good
  obtain ⟨hrelaysA, _, _, _⟩ := initializeRelay_spec hA
  obtain ⟨hrelaysB, _, hidB, dest, hdest, hip, hport, hraw⟩ := initializeRelay_spec hB
  rw [hrelaysB, ← hrelaysA] at hdest
  have hlt := (List.getElem?_eq_some_iff.mp hdest).1
  have hconnect := connect_line (k := mB.serverIdx) (by omega) hdest hlayers draws
  rw [← hidB] at hconnect
  have hfew : good.length < L → mA.connect idB draws = .drawing := fun hlt =>
    hconnect.trans (if_neg (Nat.not_le.mpr hlt))
  have hgood : ∀ i ∈ good, i < mA.allRelays.length ∧ i ≠ mA.serverIdx ∧
      i ≠ mB.serverIdx := by
    intro i hi
    obtain ⟨hrange, havoid⟩ := mem_goodDraws hi
    simp only [Bool.or_eq_false_iff, beq_eq_false_iff_ne] at havoid
    exact ⟨hrange (by omega), havoid⟩
  refine ⟨hfew, fun hL => ?_, fun hnone hpos => ?_⟩
  · refine ⟨mA.socketOver dest (good.take L), dest, hconnect.trans (if_pos hL), rfl, hip, hport,
      hraw, if_pos rfl, fun i hi => ?_⟩
    have hi' : i < (good.take L).length := by
      rw [List.length_take]
      omega
    have hk := List.getElem?_eq_getElem hi'
    obtain ⟨hrange, hneA, hneB⟩ := hgood _ (List.mem_of_mem_take (List.getElem_mem hi'))
    have hr := List.getElem?_eq_getElem hrange
    exact ⟨_, _, hk, hneA, hneB, hr, socketOver_relay (Nat.ne_of_lt hi) hk hr⟩
  · refine hfew ?_
    have hempty : good = [] := by
      refine List.eq_nil_iff_forall_not_mem.mpr fun i hi => ?_
      obtain ⟨hrange, hneA, hneB⟩ := hgood i hi
      rcases hnone i hrange with h | h
      · exact hneA h
      · exact hneB h
    show good.length < L
    rw [hempty]
    exact hpos

/-- Three relays, and circuits over one. -/
def threeLines : List Char :=
  ['l', 'a', 'y', 'e', 'r', ' ', '1', '\n', 'a', ' ', '1', ' ', 'k', '\n',
    'b', ' ', '2', ' ', 'k', '\n', 'c', ' ', '3', ' ', 'k', '\n']

/-- What the node on one of the lines knows then. -/
def threeRelays (serverIdx : Nat) : TorMetadata where
  allRelays := [{ ip := ['a'], port := 1, key := [], ipRaw := 7 },
    { ip := ['b'], port := 2, key := ['k'], ipRaw := 7 },
    { ip := ['c'], port := 3, key := ['k'], ipRaw := 7 }]
  torKey := ['k']
  serverIdx := serverIdx
  numLayers := 1
  rawKey := 107 :: List.replicate 31 0

/-- The first draw is the node itself and the second one the destination. -/
theorem circuits_end_at_ids_three :
    ∃ socket : TorSocket, (threeRelays 0).connect ['2'] [3, 2, 4] = .circuit [1] socket ∧
      socket.relays 0 = ⟨2, 7⟩ ∧ socket.relays 1 = ⟨3, 7⟩ := by
  have hA : TorMetadata.initializeRelay (fun _ => some 7) true ['a'] 1 threeLines =
      some (['0'], threeRelays 0) := by decide
  have hB : TorMetadata.initializeRelay (fun _ => some 7) true ['c'] 3 threeLines =
      some (['2'], threeRelays 2) := by decide
  obtain ⟨socket, dest, hconnect, _, _, hport, hraw, hlast, hrelays⟩ :=
    (circuits_end_at_ids hA hB (by decide) (by decide) [3, 2, 4]).2.1 (by decide)
  refine ⟨socket, hconnect, ?_, ?_⟩
  · obtain ⟨k, r, hk, _, _, hr, hpeer⟩ := hrelays 0 (by decide)
    cases hk
    cases hr
    exact hpeer
  · have hlast : socket.relays 1 = dest.peer := hlast
    rw [hlast, TorRelay.peer, hport, hraw 7 rfl]

/-! ## The file that the script writes -/

section Script

variable {layer : Nat} {servers : List (List Char × Nat)} {key : List Char}

/-- The relays that a node reads from the lines of the servers: each has the key of the
line before. -/
def writtenRelays (key : List Char) : List Char → List (List Char × Nat) → List TorRelay
  | _, [] => []
  | before, server :: servers =>
      { ip := server.1, port := server.2, key := before } :: writtenRelays key key servers

theorem readRelay_servers (shared : List Char × List TorRelay × Int) :
    ((servers.map fun server => TorLine.relay server.1 server.2 (some key)).foldl readRelay
      shared).2 = (shared.2.1 ++ writtenRelays key shared.1 servers, shared.2.2) := by
  induction servers generalizing shared with
  | nil => simp [writtenRelays]
  | cons server servers ih =>
      rw [List.map_cons, List.foldl_cons, ih]
      simp [readRelay, writtenRelays]

theorem writtenRelays_servers (servers : List (List Char × Nat)) (key before : List Char) :
    (writtenRelays key before servers).map (fun r => (r.ip, r.port)) =
      servers.map fun server => (server.1, (server.2 : Int)) := by
  induction servers generalizing before with
  | nil => rfl
  | cons server servers ih => rw [writtenRelays, List.map_cons, List.map_cons, ih]

theorem writtenRelays_keys (before : List Char) :
    (writtenRelays key before servers).map TorRelay.key =
      (before :: List.replicate servers.length key).take servers.length := by
  induction servers generalizing before with
  | nil => rfl
  | cons server servers ih =>
      rw [writtenRelays, List.map_cons, ih, List.length_cons, List.replicate_succ,
        List.take_succ_cons]

theorem rawAddresses_map {β : Type} {g : TorRelay → β} (inetPton : List Char → Option UInt32)
    (last : UInt32) (rs : List TorRelay) (hg : ∀ r raw, g { r with ipRaw := raw } = g r) :
    (rawAddresses inetPton last rs).map g = rs.map g := by
  induction rs generalizing last with
  | nil => rfl
  | cons r rs ih =>
      unfold rawAddresses
      rw [List.map_cons, List.map_cons, ih, hg]

/-- Copying a key a second time changes nothing. -/
theorem strcpy_strcpy (mem : List UInt8) (text : List Char) :
    strcpy (strcpy mem text) text = strcpy mem text := by
  unfold strcpy
  simp only
  generalize (text.map fun c => UInt8.ofNat c.toNat).takeWhile (· ≠ 0) = bytes
  rw [List.drop_append, List.drop_of_length_le (by omega), Nat.add_sub_cancel_left]
  rfl

/-- The lines that the script writes. -/
def IsWritten (key : List Char) : TorLine → Prop
  | .layer _ => True
  | .relay _ _ read => read = some key

/-- The key of a node that has found itself is the one in the file. -/
def Keyed (key : List Char) (s : TorLoop) : Prop :=
  s.metadata.rawKey =
    if s.findMe then strcpy (List.replicate keyBytes 0) key else List.replicate keyBytes 0

theorem Keyed.line {ip : List Char} {port : Int} {s s' : TorLoop} {l : TorLine}
    (hl : IsWritten key l) (hs : Keyed key s) (h : s.line ip port l = some s') :
    Keyed key s' := by
  unfold Keyed at hs ⊢
  rcases line_cases h with ⟨n, rfl, rfl⟩ | ⟨_, _, read, rfl, _, _, hme⟩
  · exact hs
  · have hread : read = some key := hl
    rcases hme with ⟨_, hfind, _, hraw⟩ | ⟨_, hfind, _, hraw⟩
    · rw [hraw, hfind, hs, hread, if_pos rfl, Option.getD_some]
      cases s.findMe with
      | true => rw [if_pos rfl, strcpy_strcpy]
      | false => rw [if_neg Bool.false_ne_true]
    · rw [hraw, hfind, hs]

theorem line_isSome {ip : List Char} {port : Int} (hshort : key.length < keyBytes)
    {l : TorLine} (hl : IsWritten key l) (s : TorLoop) : (s.line ip port l).isSome := by
  cases l with
  | layer n => rfl
  | relay relayIp relayPort read =>
      have hread : read = some key := hl
      subst hread
      simp only [TorLoop.line, Option.getD_some]
      split
      · rw [if_neg (Nat.not_le.mpr hshort)]
        rfl
      · rfl

theorem isWritten_lines {l : TorLine} (h : l ∈ TorLine.layer layer ::
    servers.map fun server => TorLine.relay server.1 server.2 (some key)) :
    IsWritten key l := by
  rcases List.mem_cons.mp h with rfl | h
  · trivial
  · obtain ⟨server, _, rfl⟩ := List.mem_map.mp h
    rfl

/-- What the loop leaves for the file of the script. -/
theorem written_loop (hlayer : layer < 2 ^ 31) (h : ∀ server ∈ servers, Writable server)
    (hne : ∀ server ∈ servers, server.1 ≠ ['l', 'a', 'y', 'e', 'r']) (hkey : IsWord key)
    (hshort : key.length < keyBytes) (ip : List Char) (port : Int) :
    ∃ s, (records readTorLine (torConfig layer servers key)).foldlM (TorLoop.line ip port)
        {} = some s ∧ Located ip port s ∧ Keyed key s ∧
      s.metadata.allRelays = writtenRelays key [] servers ∧ s.metadata.numLayers = layer := by
  have hlines := records_torConfig hlayer h hne hkey
  have hsome : ((records readTorLine (torConfig layer servers key)).foldlM
      (TorLoop.line ip port) {}).isSome := by
    rw [hlines]
    refine foldlM_isSome_iff.mpr fun before l after s hsplit _ => ?_
    have hmem : l ∈ before ++ l :: after := List.mem_append_right _ (List.mem_cons_self ..)
    exact line_isSome hshort (isWritten_lines (hsplit ▸ hmem)) s
  obtain ⟨s, hs⟩ := Option.isSome_iff_exists.mp hsome
  have hshared := congrArg Prod.snd (shared_loop hs)
  rw [hlines, List.foldl_cons, readRelay_servers] at hshared
  refine ⟨s, hs, located_loop hs, ?_, congrArg Prod.fst hshared, congrArg Prod.snd hshared⟩
  have hnew : Keyed key {} := rfl
  rw [hlines] at hs
  exact foldlM_inv_mem (fun l hl _ _ hI hstep => hI.line (isWritten_lines hl) hstep) hnew hs

end Script

/-- From the script to the relays. With the file that `deploy-tor.py` writes, each of the
servers that it was written for finds itself, and all of them have the same key, the same
relays in the order of the servers and the number of layers. Other nodes do not start.
(The key that is kept with a relay is that of the line before it.) -/
theorem deployed_relays_agree {layer : Nat} {servers : List (List Char × Nat)}
    {key : List Char} (hlayer : layer < 2 ^ 31) (h : ∀ server ∈ servers, Writable server)
    (hne : ∀ server ∈ servers, server.1 ≠ ['l', 'a', 'y', 'e', 'r']) (hkey : IsWord key)
    (hshort : key.length < keyBytes) (inetPton : List Char → Option UInt32)
    (ip : List Char) (port : Nat) :
    ((ip, port) ∉ servers → TorMetadata.initializeRelay inetPton true ip port
      (torConfig layer servers key) = none) ∧
    ((ip, port) ∈ servers → ∃ m, TorMetadata.initializeRelay inetPton true ip port
        (torConfig layer servers key) = some (toText m.serverIdx, m) ∧
      servers[m.serverIdx]? = some (ip, port) ∧ m.numLayers = layer ∧
      m.rawKey = strcpy (List.replicate keyBytes 0) key ∧
      (m.allRelays.map fun r => (r.ip, r.port)) =
        (servers.map fun server => (server.1, (server.2 : Int))) ∧
      m.allRelays.map TorRelay.key =
        ([] :: List.replicate servers.length key).take servers.length) := by
  obtain ⟨s, hloop, hlocated, hkeyed, hrelays, hlayers⟩ :=
    written_loop hlayer h hne hkey hshort ip port
  have haddr := writtenRelays_servers servers key []
  unfold TorMetadata.initializeRelay
  rw [hloop]
  simp only [Bool.and_true]
  cases hfind : s.findMe with
  | false =>
      refine ⟨fun _ => if_neg Bool.false_ne_true, fun hmem => ?_⟩
      have hmap : (ip, (port : Int)) ∈
          (writtenRelays key [] servers).map fun r => (r.ip, r.port) := by
        rw [haddr]
        exact List.mem_map.mpr ⟨(ip, port), hmem, rfl⟩
      obtain ⟨r, hr, heq⟩ := List.mem_map.mp hmap
      injection heq with hip hport
      have hnot := hlocated.lost hfind r (hrelays ▸ hr)
      rw [isRelay, decide_eq_true ⟨hip, hport⟩] at hnot
      cases hnot
  | true =>
      obtain ⟨r, hr, hme⟩ := (hlocated.found hfind).here
      obtain ⟨hip, hport⟩ := of_decide_eq_true hme
      have hserver : servers[s.metadata.serverIdx]? = some (ip, port) := by
        have hget := congrArg (fun l => l[s.metadata.serverIdx]?) haddr
        rw [hrelays] at hr
        simp only [List.getElem?_map, hr, Option.map_some, hip, hport] at hget
        obtain ⟨server, hs, heq⟩ := Option.map_eq_some_iff.mp hget.symm
        injection heq with h₁ h₂
        rw [hs, ← h₁, ← Int.ofNat_inj.mp h₂]
      refine ⟨fun hnot => absurd (List.mem_of_getElem? hserver) hnot, fun _ => ?_⟩
      refine ⟨{ s.metadata with allRelays := rawAddresses inetPton 0 s.metadata.allRelays },
        if_pos rfl, hserver, hlayers, ?_, ?_, ?_⟩
      · show s.metadata.rawKey = _
        rw [hkeyed, hfind, if_pos rfl]
      · rw [rawAddresses_map _ _ _ fun _ _ => rfl, hrelays, haddr]
      · rw [rawAddresses_map _ _ _ fun _ _ => rfl, hrelays, writtenRelays_keys]

/-- Two servers. -/
theorem deployed_relays_agree_pair :
    ∃ m, TorMetadata.initializeRelay (fun _ => none) true ['b'] 3101
        (torConfig 3 [(['a'], 3100), (['b'], 3101)] ['k']) = some (toText m.serverIdx, m) ∧
      [((['a'] : List Char), 3100), (['b'], 3101)][m.serverIdx]? = some (['b'], 3101) := by
  have hservers : ∀ server ∈ [((['a'] : List Char), 3100), (['b'], 3101)],
      Writable server := by
    intro server hserver
    simp only [List.mem_cons, List.not_mem_nil, or_false] at hserver
    rcases hserver with rfl | rfl
    · exact ⟨isWord_of_all rfl rfl, by decide⟩
    · exact ⟨isWord_of_all rfl rfl, by decide⟩
  obtain ⟨m, hm, hserver, _⟩ := (@deployed_relays_agree 3 _ ['k'] (by decide)
    hservers (by decide) (isWord_of_all rfl rfl) (by decide) (fun _ => none) ['b'] 3101).2
    (by decide)
  exact ⟨m, hm, hserver⟩

end Daenet.Proofs
