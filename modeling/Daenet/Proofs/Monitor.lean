import Daenet.Ref.Monitor
import Daenet.Spec.Ring

/-!
# What the script takes for a correct ring

The tables that the script computes are those of a correct ring: an entry is the node
responsible for its start. It looks at a report only if it has as many ids as it waits
for nodes; then it keeps the nodes whose last report was such a table, and takes the ring
for finished when these are all. Otherwise no report has an effect.

The ids that it draws are one more than the nodes it waits for. So with these, no report
is looked at.
-/

namespace Daenet.Proofs

open Daenet.Lib Daenet.Ref Daenet.Spec

section Lists

variable {N s : Nat} {clients : List Nat}

/-- The nodes in the order in which they are met from `s` on. -/
def rotated (s : Nat) (clients : List Nat) : List Nat :=
  clients.filter (fun x => decide (x ≥ s)) ++ clients.filter fun x => !decide (x ≥ s)

theorem mem_rotated {x : Nat} : x ∈ rotated s clients ↔ x ∈ clients := by
  rw [rotated, List.mem_append, List.mem_filter, List.mem_filter]
  by_cases hx : x ≥ s
  · simp [hx]
  · simp [hx]

/-- They are in order of their distance. -/
theorem rotated_pairwise (hs : s < N) (hlt : ∀ x ∈ clients, x < N)
    (hsorted : clients.Pairwise (· < ·)) :
    (rotated s clients).Pairwise fun x y => cw N s x < cw N s y := by
  refine List.pairwise_append.mpr ⟨?_, ?_, ?_⟩
  · refine (hsorted.filter _).imp_of_mem fun {x y} hx hy hxy => ?_
    have hx' := of_decide_eq_true (List.mem_filter.mp hx).2
    have hy' := of_decide_eq_true (List.mem_filter.mp hy).2
    unfold cw
    rw [if_pos hx', if_pos hy']
    omega
  · refine (hsorted.filter _).imp_of_mem fun {x y} hx hy hxy => ?_
    have hx' : ¬ s ≤ x := by simpa using (List.mem_filter.mp hx).2
    have hy' : ¬ s ≤ y := by simpa using (List.mem_filter.mp hy).2
    unfold cw
    rw [if_neg hx', if_neg hy']
    omega
  · intro x hx y hy
    have hx' := of_decide_eq_true (List.mem_filter.mp hx).2
    have hy' : ¬ s ≤ y := by simpa using (List.mem_filter.mp hy).2
    have hxN := hlt x (List.mem_filter.mp hx).1
    unfold cw
    rw [if_pos hx', if_neg hy']
    omega

/-- The first one is the nearest. -/
theorem head_nearest {r : Nat} (hs : s < N) (hlt : ∀ x ∈ clients, x < N)
    (hsorted : clients.Pairwise (· < ·)) (hr : (rotated s clients).head? = some r) :
    r ∈ clients ∧ ∀ x ∈ clients, cw N s r ≤ cw N s x := by
  have hpair := rotated_pairwise hs hlt hsorted
  cases hrot : rotated s clients with
  | nil =>
      rw [hrot] at hr
      cases hr
  | cons y ys =>
      rw [hrot] at hr hpair
      cases hr
      refine ⟨mem_rotated.mp (by rw [hrot]; exact List.mem_cons_self ..), fun x hx => ?_⟩
      rcases List.mem_cons.mp (hrot ▸ mem_rotated.mpr hx) with rfl | hmem
      · exact Nat.le_refl _
      · exact Nat.le_of_lt (List.rel_of_pairwise_cons hpair hmem)

end Lists

section Ring

variable {ι : Type} (R : Roster ι) {clients : List Nat}

/-- The ids of a ring, in order. -/
structure Lists (clients : List Nat) : Prop where
  sorted : clients.Pairwise (· < ·)
  ids : ∀ x, x ∈ clients ↔ ∃ i, R.id i = x

/-- The table of a node on a correct ring. -/
def ExactTable (i : ι) (table : List Nat) : Prop :=
  table.length = R.m ∧ ∀ t < R.m, ∃ j, R.IsSucc (R.start i t) j ∧ table[t]? = some (R.id j)

variable {R}

/-- An entry is the first node from its start on. -/
theorem routeEntry_head {m id t : Nat} (hne : clients ≠ []) :
    (rotated ((id + 2 ^ t) % 2 ^ m) clients).head? =
      some (Monitor.routeEntry m clients id t) := by
  unfold rotated Monitor.routeEntry
  cases hf : clients.filter fun x => decide (x ≥ (id + 2 ^ t) % 2 ^ m) with
  | cons x xs => rfl
  | nil =>
      rw [List.nil_append, List.filter_eq_self.mpr]
      · cases hc : clients with
        | nil => exact absurd hc hne
        | cons c cs => rfl
      · intro x hx
        have hlt := List.filter_eq_nil_iff.mp hf x hx
        simpa using hlt

theorem Lists.routeEntry (hL : Lists R clients) (i : ι) (t : Nat) :
    ∃ j, R.IsSucc (R.start i t) j ∧
      Monitor.routeEntry R.m clients (R.id i) t = R.id j := by
  have hne : clients ≠ [] := List.ne_nil_of_mem ((hL.ids (R.id i)).mpr ⟨i, rfl⟩)
  have hlt : ∀ x ∈ clients, x < R.size := by
    intro x hx
    obtain ⟨j, rfl⟩ := (hL.ids x).mp hx
    exact R.id_lt_size j
  obtain ⟨hmem, hnear⟩ := head_nearest (R.start_lt i t) hlt hL.sorted (routeEntry_head hne)
  obtain ⟨j, hj⟩ := (hL.ids _).mp hmem
  refine ⟨j, fun l => ?_, hj.symm⟩
  rw [hj]
  exact hnear (R.id l) ((hL.ids _).mpr ⟨l, rfl⟩)

/-- The table that the script computes is the one of a correct ring, and no other is. -/
theorem Lists.routeTable_eq_iff (hL : Lists R clients) (i : ι) (table : List Nat) :
    Monitor.routeTable R.m clients (R.id i) = table ↔ ExactTable R i table := by
  unfold Monitor.routeTable
  constructor
  · rintro rfl
    refine ⟨by rw [List.length_map, List.length_range], fun t ht => ?_⟩
    obtain ⟨j, hsucc, hj⟩ := hL.routeEntry i t
    refine ⟨j, hsucc, ?_⟩
    rw [List.getElem?_map, List.getElem?_range ht, Option.map_some, hj]
  · rintro ⟨hlen, htable⟩
    refine List.ext_getElem? fun t => ?_
    by_cases ht : t < R.m
    · obtain ⟨j, hsucc, hj⟩ := hL.routeEntry i t
      obtain ⟨j', hsucc', hj'⟩ := htable t ht
      rw [List.getElem?_map, List.getElem?_range ht, Option.map_some, hj, hj',
        R.isSucc_unique (R.start_lt i t) hsucc hsucc']
    · rw [List.getElem?_eq_none (by rw [List.length_map, List.length_range]; omega),
        List.getElem?_eq_none (by omega)]

end Ring

/-! ## The lists that the script keeps -/

/-- A list in which an id is put or from which it is taken. -/
def marked (l : List Nat) (id : Nat) (right : Bool) : List Nat :=
  if right then if id ∈ l then l else l ++ [id]
  else if id ∈ l then l.erase id else l

theorem mem_marked {l : List Nat} {id x : Nat} {right : Bool} (hl : l.Nodup) :
    x ∈ marked l id right ↔ if x = id then right = true else x ∈ l := by
  unfold marked
  cases right with
  | true =>
      by_cases hx : x = id
      · subst hx
        by_cases hmem : x ∈ l
        · simp [hmem]
        · simp [hmem]
      · by_cases hmem : id ∈ l
        · simp [hmem, hx]
        · simp [hmem, hx]
  | false =>
      by_cases hx : x = id
      · subst hx
        by_cases hmem : x ∈ l
        · simp [hmem, hl.not_mem_erase]
        · simp [hmem]
      · by_cases hmem : id ∈ l
        · simp [hmem, hx, List.mem_erase_of_ne hx]
        · simp [hmem, hx]

theorem nodup_marked {l : List Nat} {id : Nat} {right : Bool} (hl : l.Nodup) :
    (marked l id right).Nodup := by
  unfold marked
  split
  · split
    · exact hl
    · next hmem =>
        exact List.nodup_append.mpr ⟨hl, List.nodup_singleton id, by
          intro a ha b hb hab
          exact hmem (List.mem_singleton.mp hb ▸ hab ▸ ha)⟩
  · split
    · exact hl.erase id
    · exact hl

section Run

variable {m allClient : Nat} {clients : List Nat} {s : Monitor.State}

/-- Arrays of one length agree in all places if they are equal. -/
theorem countP_zip_eq_length {a b : List Nat} (h : b.length = a.length) :
    ((a.zip b).countP fun p => p.1 == p.2) = b.length ↔ a = b := by
  have hlen : (a.zip b).length = b.length := by
    rw [List.length_zip, h, Nat.min_self]
  rw [← hlen, List.countP_eq_length]
  constructor
  · intro hall
    refine List.ext_getElem h.symm fun t ha hb => ?_
    have hz : t < (a.zip b).length := by omega
    have hmem := hall _ (List.getElem_mem hz)
    rw [List.getElem_zip] at hmem
    exact of_decide_eq_true hmem
  · rintro rfl p hp
    rw [List.zip_eq_zipWith, List.zipWith_self, List.mem_map] at hp
    obtain ⟨x, _, rfl⟩ := hp
    exact beq_self_eq_true x

theorem length_routeTable (m : Nat) (clients : List Nat) (id : Nat) :
    (Monitor.routeTable m clients id).length = m := by
  rw [Monitor.routeTable, List.length_map, List.length_range]

/-- A whole table: the two lists of the script are marked by what it holds. -/
theorem report_full {id : Nat} {rest : List Nat} (hm : 0 < m) (hid : id ∈ clients)
    (hall : clients.length = allClient) (hfull : m ≤ rest.length) :
    s.report m allClient clients id rest =
      ((s.checkSuccessor id ((Monitor.routeTable m clients id).getD 0 0 ==
        (rest.take m).getD 0 0)).checkTable m id (Monitor.routeTable m clients id)
          (rest.take m)) := by
  have hlen : (rest.take m).length = m := by rw [List.length_take]; omega
  unfold Monitor.State.report
  rw [if_neg (by simp [hall]), if_neg (by simp [hid])]
  simp only [hlen]
  rw [if_neg (by simp)]
  cases htake : rest.take m with
  | nil =>
      rw [htake] at hlen
      simp only [List.length_nil] at hlen
      omega
  | cons first tail => rfl

theorem checkSuccessor_eq (id : Nat) (right : Bool) :
    (s.checkSuccessor id right).tableDone = s.tableDone ∧
    (s.checkSuccessor id right).successorClient = marked s.successorClient id right ∧
    (s.successorCnt = s.successorClient.length →
      (s.checkSuccessor id right).successorCnt =
        (s.checkSuccessor id right).successorClient.length) := by
  unfold Monitor.State.checkSuccessor marked
  split
  · split
    · exact ⟨rfl, rfl, fun h => h⟩
    · refine ⟨rfl, rfl, fun h => ?_⟩
      simp [h]
  · split
    · next hmem =>
        have hpos := List.length_pos_of_mem hmem
        refine ⟨rfl, rfl, fun h => ?_⟩
        simp only [List.length_erase_of_mem hmem, h]
        omega
    · exact ⟨rfl, rfl, fun h => h⟩

theorem checkTable_eq (id : Nat) {expected table : List Nat} (hm : expected.length = m)
    (hlen : table.length = m) :
    (s.checkTable m id expected table).tableDone =
      marked s.tableDone id (decide (expected = table)) ∧
    (s.checkTable m id expected table).successorClient = s.successorClient ∧
    (s.checkTable m id expected table).successorCnt = s.successorCnt := by
  have heq := countP_zip_eq_length (hlen.trans hm.symm)
  unfold Monitor.State.checkTable Monitor.matching
  rw [if_pos (hlen.trans hm.symm)]
  simp only
  by_cases h : expected = table
  · rw [if_pos (heq.mpr h), decide_eq_true h, marked, if_pos rfl]
    split
    · exact ⟨rfl, rfl, rfl⟩
    · exact ⟨rfl, rfl, rfl⟩
  · rw [if_neg (mt heq.mp h), if_neg (by simp [hlen]), decide_eq_false h, marked,
      if_neg Bool.false_ne_true]
    split
    · exact ⟨rfl, rfl, rfl⟩
    · exact ⟨rfl, rfl, rfl⟩

/-- The table that a message reports for a node. -/
def reported (m id : Nat) : Monitor.Message → Option (List Nat)
  | .numbers (x :: rest) => if x = id ∧ rest.length ≠ 2 then some (rest.take m) else none
  | _ => none

/-- The last table reported for a node. -/
def lastTable (m id : Nat) (messages : List Monitor.Message) : Option (List Nat) :=
  (messages.filterMap (reported m id)).getLast?

theorem lastTable_concat (id : Nat) (messages : List Monitor.Message) (msg : Monitor.Message) :
    lastTable m id (messages ++ [msg]) =
      (reported m id msg).or (lastTable m id messages) := by
  unfold lastTable
  rw [List.filterMap_append]
  cases h : reported m id msg with
  | none => simp [h]
  | some table => simp [h]

/-- A message with three words is of a client; the others report a whole table. -/
def WholeReport (m : Nat) : Monitor.Message → Prop
  | .numbers a => a.length = 3 ∨ m < a.length
  | _ => True

/-- A message that is not of three words is a report. -/
theorem step_report (m allClient : Nat) (clients : List Nat) (id : Nat) {rest : List Nat}
    (h2 : rest.length ≠ 2) :
    Monitor.step m allClient clients s (.numbers (id :: rest)) =
      s.report m allClient clients id rest := by
  unfold Monitor.step
  split
  · next heq => cases heq
  · next heq => cases heq
  · next heq =>
      cases heq
      exact absurd rfl h2
  · next heq => cases heq
  · next heq =>
      cases heq
      rfl

/-- What a turn of the loop can do. -/
theorem step_turns (hall : clients.length = allClient) {msg : Monitor.Message}
    (hwhole : WholeReport m msg) :
    (∃ id rest, id ∈ clients ∧ m ≤ rest.length ∧
      (∀ x, reported m x msg = if x = id then some (rest.take m) else none) ∧
      Monitor.step m allClient clients s msg = s.report m allClient clients id rest) ∨
    ((∀ x ∈ clients, reported m x msg = none) ∧
      (Monitor.step m allClient clients s msg).tableDone = s.tableDone ∧
      (Monitor.step m allClient clients s msg).successorClient = s.successorClient ∧
      (Monitor.step m allClient clients s msg).successorCnt = s.successorCnt) := by
  have hadd : ∀ id, (s.addClient id).tableDone = s.tableDone ∧
      (s.addClient id).successorClient = s.successorClient ∧
      (s.addClient id).successorCnt = s.successorCnt := by
    intro id
    unfold Monitor.State.addClient
    split
    · exact ⟨rfl, rfl, rfl⟩
    · exact ⟨rfl, rfl, rfl⟩
  cases msg with
  | failure => exact .inr ⟨fun _ _ => rfl, rfl, rfl, rfl⟩
  | client id => exact .inr ⟨fun _ _ => rfl, hadd id⟩
  | numbers a =>
      cases a with
      | nil => exact .inr ⟨fun _ _ => rfl, rfl, rfl, rfl⟩
      | cons id rest =>
          by_cases h2 : rest.length = 2
          · obtain ⟨y, z, rfl⟩ := List.length_eq_two.mp h2
            exact .inr ⟨fun x _ => if_neg (by simp), hadd id⟩
          · have hstep := step_report (s := s) m allClient clients id h2
            have hrep : ∀ x, reported m x (.numbers (id :: rest)) =
                if x = id then some (rest.take m) else none := by
              intro x
              unfold reported
              simp only [h2, ne_eq, not_false_eq_true, and_true, eq_comm]
            by_cases hid : id ∈ clients
            · refine .inl ⟨id, rest, hid, ?_, hrep, hstep⟩
              rcases hwhole with h3 | hlt
              · rw [List.length_cons] at h3
                omega
              · rw [List.length_cons] at hlt
                omega
            · have hsame : s.report m allClient clients id rest = s := by
                unfold Monitor.State.report
                rw [if_neg (by simp [hall]), if_pos hid]
              rw [hstep, hsame]
              refine .inr ⟨fun x hx => ?_, rfl, rfl, rfl⟩
              rw [hrep, if_neg fun h : x = id => hid (h ▸ hx)]

/-- What the lists of the script say after some messages. -/
structure Watched (m : Nat) (clients : List Nat) (messages : List Monitor.Message)
    (s : Monitor.State) : Prop where
  doneNodup : s.tableDone.Nodup
  successorNodup : s.successorClient.Nodup
  count : s.successorCnt = s.successorClient.length
  done : ∀ x, x ∈ s.tableDone ↔ x ∈ clients ∧
    lastTable m x messages = some (Monitor.routeTable m clients x)
  successor : ∀ x, x ∈ s.successorClient ↔ x ∈ clients ∧ ∃ table,
    lastTable m x messages = some table ∧
      (Monitor.routeTable m clients x).getD 0 0 = table.getD 0 0

theorem Watched.step (hm : 0 < m) (hall : clients.length = allClient)
    {messages : List Monitor.Message} (hs : Watched m clients messages s)
    {msg : Monitor.Message} (hwhole : WholeReport m msg) :
    Watched m clients (messages ++ [msg]) (Monitor.step m allClient clients s msg) := by
  rcases step_turns (s := s) hall hwhole with
    ⟨id, rest, hid, hfull, hrep, hstep⟩ | ⟨hrep, hdone, hsucc, hcnt⟩
  · have hlen : (rest.take m).length = m := by rw [List.length_take]; omega
    rw [hstep, report_full hm hid hall hfull]
    obtain ⟨hd₁, hs₁, hc₁⟩ := checkSuccessor_eq (s := s) id
      ((Monitor.routeTable m clients id).getD 0 0 == (rest.take m).getD 0 0)
    obtain ⟨hd₂, hs₂, hc₂⟩ := checkTable_eq
      (s := s.checkSuccessor id
        ((Monitor.routeTable m clients id).getD 0 0 == (rest.take m).getD 0 0)) id
      (length_routeTable m clients id) hlen
    rw [hd₁] at hd₂
    rw [hs₁] at hs₂
    refine ⟨?_, ?_, ?_, ?_, ?_⟩
    · rw [hd₂]
      exact nodup_marked hs.doneNodup
    · rw [hs₂]
      exact nodup_marked hs.successorNodup
    · rw [hc₂, hc₁ hs.count, hs₁, hs₂]
    · intro x
      rw [hd₂, mem_marked hs.doneNodup, lastTable_concat, hrep]
      by_cases hx : x = id
      · subst hx
        simp [hid, eq_comm]
      · rw [if_neg hx, if_neg hx, Option.none_or]
        exact hs.done x
    · intro x
      rw [hs₂, mem_marked hs.successorNodup, lastTable_concat, hrep]
      by_cases hx : x = id
      · subst hx
        simp [hid]
      · rw [if_neg hx, if_neg hx, Option.none_or]
        exact hs.successor x
  · refine ⟨hdone ▸ hs.doneNodup, hsucc ▸ hs.successorNodup, ?_, ?_, ?_⟩
    · rw [hcnt, hsucc]
      exact hs.count
    · intro x
      rw [hdone, hs.done]
      refine and_congr_right fun hx => ?_
      rw [lastTable_concat, hrep x hx, Option.none_or]
    · intro x
      rw [hsucc, hs.successor]
      refine and_congr_right fun hx => ?_
      rw [lastTable_concat, hrep x hx, Option.none_or]

theorem watched_run (hm : 0 < m) (hall : clients.length = allClient)
    (messages : List Monitor.Message) (hwhole : ∀ msg ∈ messages, WholeReport m msg) :
    Watched m clients messages (Monitor.run m allClient clients messages) := by
  induction messages using List.reverseRecOn with
  | nil =>
      refine ⟨List.nodup_nil, List.nodup_nil, rfl, ?_, ?_⟩
      · intro x
        simp [Monitor.run, lastTable]
      · intro x
        simp [Monitor.run, lastTable]
  | append_singleton messages msg ih =>
      have hs := ih fun b hb => hwhole b (List.mem_append_left _ hb)
      have hrun : Monitor.run m allClient clients (messages ++ [msg]) =
          Monitor.step m allClient clients (Monitor.run m allClient clients messages) msg := by
        rw [Monitor.run, List.foldl_append]
        rfl
      rw [hrun]
      exact hs.step hm hall (hwhole msg (List.mem_append_right _ (List.mem_singleton_self msg)))

/-- The script takes the ring for finished when the list holds all the nodes. -/
theorem Watched.length_iff {messages : List Monitor.Message} (hs : Watched m clients messages s)
    (hclients : clients.Nodup) :
    s.tableDone.length = clients.length ↔ ∀ x ∈ clients, x ∈ s.tableDone := by
  have hsub : s.tableDone ⊆ clients := fun x hx => ((hs.done x).mp hx).1
  constructor
  · intro hlen x hx
    have hperm := (hs.doneNodup.subperm hsub).perm_of_length_le (Nat.le_of_eq hlen.symm)
    exact hperm.mem_iff.mpr hx
  · intro hx
    exact Nat.le_antisymm (hs.doneNodup.subperm hsub).length_le
      (hclients.subperm hx).length_le

/-- A report that finds another number of ids than of nodes changes nothing. -/
theorem step_of_length_ne (hlen : clients.length ≠ allClient) (msg : Monitor.Message) :
    (Monitor.step m allClient clients s msg).tableDone = s.tableDone ∧
    (Monitor.step m allClient clients s msg).successorClient = s.successorClient ∧
    (Monitor.step m allClient clients s msg).successorCnt = s.successorCnt := by
  have hadd : ∀ id, (s.addClient id).tableDone = s.tableDone ∧
      (s.addClient id).successorClient = s.successorClient ∧
      (s.addClient id).successorCnt = s.successorCnt := by
    intro id
    unfold Monitor.State.addClient
    split
    · exact ⟨rfl, rfl, rfl⟩
    · exact ⟨rfl, rfl, rfl⟩
  unfold Monitor.step
  split
  · exact ⟨rfl, rfl, rfl⟩
  · exact hadd _
  · exact hadd _
  · exact ⟨rfl, rfl, rfl⟩
  · unfold Monitor.State.report
    rw [if_pos hlen]
    exact ⟨rfl, rfl, rfl⟩

/-- And so no run of messages does. -/
theorem run_of_length_ne (hlen : clients.length ≠ allClient)
    (messages : List Monitor.Message) :
    (Monitor.run m allClient clients messages).tableDone = [] ∧
    (Monitor.run m allClient clients messages).successorClient = [] ∧
    (Monitor.run m allClient clients messages).successorCnt = 0 := by
  induction messages using List.reverseRecOn with
  | nil => exact ⟨rfl, rfl, rfl⟩
  | append_singleton messages msg ih =>
      have hrun : Monitor.run m allClient clients (messages ++ [msg]) =
          Monitor.step m allClient clients (Monitor.run m allClient clients messages) msg := by
        rw [Monitor.run, List.foldl_append]
        rfl
      obtain ⟨hdone, hsuccessor, hcnt⟩ := step_of_length_ne (m := m)
        (s := Monitor.run m allClient clients messages) hlen msg
      rw [hrun, hdone, hsuccessor, hcnt]
      exact ih

end Run

/-- The script knows a node's table as right exactly when it was given as many ids as it
waits for nodes, and the last table that the node reported is that of a correct ring. If
it was, it takes the ring for finished exactly when this holds of all nodes; and it knows
in the same way whose first entry is right. -/
theorem monitor_watches_the_ring {ι : Type} (R : Roster ι) {clients : List Nat}
    (hL : Lists R clients) (allClient : Nat) {messages : List Monitor.Message}
    (hwhole : ∀ msg ∈ messages, WholeReport R.m msg) :
    (∀ i, R.id i ∈ (Monitor.run R.m allClient clients messages).tableDone ↔
      clients.length = allClient ∧
        ∃ table, lastTable R.m (R.id i) messages = some table ∧ ExactTable R i table) ∧
    (clients.length = allClient →
      ((Monitor.run R.m allClient clients messages).tableDone.length = allClient ↔
        ∀ i, ∃ table, lastTable R.m (R.id i) messages = some table ∧ ExactTable R i table)) ∧
    (∀ i, R.id i ∈ (Monitor.run R.m allClient clients messages).successorClient ↔
      clients.length = allClient ∧
        ∃ table j, lastTable R.m (R.id i) messages = some table ∧
          R.IsNext i j ∧ table.getD 0 0 = R.id j) ∧
    (Monitor.run R.m allClient clients messages).successorCnt =
      (Monitor.run R.m allClient clients messages).successorClient.length := by
  by_cases hlen : clients.length = allClient
  · have hs := watched_run R.bits_pos hlen messages hwhole
    have hmem : ∀ i, R.id i ∈ clients := fun i => (hL.ids _).mpr ⟨i, rfl⟩
    have hdone : ∀ i, R.id i ∈ (Monitor.run R.m allClient clients messages).tableDone ↔
        ∃ table, lastTable R.m (R.id i) messages = some table ∧ ExactTable R i table := by
      intro i
      rw [hs.done]
      constructor
      · rintro ⟨_, hlast⟩
        exact ⟨_, hlast, (hL.routeTable_eq_iff i _).mp rfl⟩
      · rintro ⟨table, hlast, hexact⟩
        exact ⟨hmem i, by rw [hlast, (hL.routeTable_eq_iff i table).mpr hexact]⟩
    refine ⟨fun i => ⟨fun h => ⟨hlen, (hdone i).mp h⟩, fun h => (hdone i).mpr h.2⟩, ?_, ?_,
      hs.count⟩
    · intro _
      have hall := hs.length_iff (hL.sorted.imp Nat.ne_of_lt)
      rw [hlen] at hall
      rw [hall]
      constructor
      · intro h i
        exact (hdone i).mp (h _ (hmem i))
      · intro h x hx
        obtain ⟨i, rfl⟩ := (hL.ids x).mp hx
        exact (hdone i).mpr (h i)
    · intro i
      have hfirst : (Monitor.routeTable R.m clients (R.id i)).getD 0 0 =
          Monitor.routeEntry R.m clients (R.id i) 0 := by
        rw [Monitor.routeTable, List.getD_eq_getElem?_getD, List.getElem?_map,
          List.getElem?_range R.bits_pos]
        rfl
      obtain ⟨j, hsucc, hj⟩ := hL.routeEntry i 0
      have hnext : R.IsNext i j := R.isNext_iff_isSucc.mpr hsucc
      rw [hs.successor, hfirst, hj]
      constructor
      · rintro ⟨_, table, hlast, heq⟩
        exact ⟨hlen, table, j, hlast, hnext, heq.symm⟩
      · rintro ⟨_, table, l, hlast, hl, heq⟩
        exact ⟨hmem i, table, hlast, by rw [heq, R.isNext_unique hnext hl]⟩
  · obtain ⟨hdone, hsuccessor, hcnt⟩ := run_of_length_ne (m := R.m) hlen messages
    rw [hdone, hsuccessor, hcnt]
    exact ⟨fun i => ⟨fun h => absurd h List.not_mem_nil, fun h => absurd h.1 hlen⟩,
      fun h => absurd h hlen,
      fun i => ⟨fun h => absurd h List.not_mem_nil, fun h => absurd h.1 hlen⟩, rfl⟩

theorem pairRoster_lists : Lists pairRoster [0, 1] := by
  refine ⟨by decide, fun x => ⟨fun hx => ?_, ?_⟩⟩
  · have hlt : x < 2 := by
      simp only [List.mem_cons, List.not_mem_nil, or_false] at hx
      omega
    exact ⟨⟨x, hlt⟩, rfl⟩
  · rintro ⟨i, rfl⟩
    revert i
    decide

/-- The two nodes of the smallest ring, the first of which has reported its table, with
two nodes to wait for and with one. -/
theorem monitor_watches_the_ring_pair :
    (∀ i, pairRoster.id i ∈
        (Monitor.run 1 2 [0, 1] [.client 0, .numbers [0, 1, 1, 0]]).tableDone ↔
      [0, 1].length = 2 ∧
        ∃ table, lastTable 1 (pairRoster.id i) [.client 0, .numbers [0, 1, 1, 0]] =
          some table ∧ ExactTable pairRoster i table) ∧
    (Monitor.run 1 2 [0, 1] [.client 0, .numbers [0, 1, 1, 0]]).tableDone = [0] ∧
    ∀ i, pairRoster.id i ∉
      (Monitor.run 1 1 [0, 1] [.client 0, .numbers [0, 1, 1, 0]]).tableDone := by
  have hwhole : ∀ msg ∈ [Monitor.Message.client 0, .numbers [0, 1, 1, 0]],
      WholeReport pairRoster.m msg := by
    intro msg hmsg
    simp only [List.mem_cons, List.not_mem_nil, or_false] at hmsg
    rcases hmsg with rfl | rfl
    · trivial
    · exact .inr (by decide)
  refine ⟨(monitor_watches_the_ring pairRoster pairRoster_lists 2 hwhole).1, by decide, ?_⟩
  intro i hi
  exact absurd (((monitor_watches_the_ring pairRoster pairRoster_lists 1 hwhole).1 i).mp hi).1
    (by decide)

/-! ## The ids that are drawn -/

/-- The loop stops at one id more than it was to draw. -/
theorem nodeIds_spec {allClient : Nat} {draws ids l : List Nat} (hids : ids.Nodup)
    (hlen : ids.length ≤ allClient) (h : Monitor.nodeIds allClient ids draws = some l) :
    l.Nodup ∧ l.length = allClient + 1 ∧ ∀ x ∈ l, x ∈ ids ∨ x ∈ draws := by
  induction draws generalizing ids with
  | nil => cases h
  | cons x draws ih =>
      have hadd : (if x ∈ ids then ids else ids ++ [x]).Nodup ∧
          (if x ∈ ids then ids else ids ++ [x]).length ≤ allClient + 1 ∧
          ∀ y ∈ (if x ∈ ids then ids else ids ++ [x]), y ∈ ids ∨ y = x := by
        split
        · exact ⟨hids, by omega, fun y hy => .inl hy⟩
        · next hx =>
            refine ⟨?_, ?_, ?_⟩
            · rw [List.nodup_append]
              exact ⟨hids, List.nodup_singleton x, fun a ha b hb hab =>
                hx (List.mem_singleton.mp hb ▸ hab ▸ ha)⟩
            · rw [List.length_append, List.length_singleton]
              omega
            · intro y hy
              simpa using hy
      obtain ⟨hnodup, hle, hmem⟩ := hadd
      simp only [Monitor.nodeIds] at h
      generalize (if x ∈ ids then ids else ids ++ [x]) = new at h hnodup hle hmem
      split at h
      · next hgt =>
          cases h
          refine ⟨hnodup, by omega, fun y hy => ?_⟩
          rcases hmem y hy with hy | rfl
          · exact .inl hy
          · exact .inr (List.mem_cons_self ..)
      · next hgt =>
          obtain ⟨h₁, h₂, h₃⟩ := ih hnodup (by omega) h
          refine ⟨h₁, h₂, fun y hy => ?_⟩
          rcases h₃ y hy with hy | hy
          · rcases hmem y hy with hy | rfl
            · exact .inl hy
            · exact .inr (List.mem_cons_self ..)
          · exact .inr (List.mem_cons_of_mem _ hy)

/-- With the ids that the script draws, whatever they are, no report of any node is ever
looked at: the lists stay empty. -/
theorem monitor_looks_at_no_report {m allClient : Nat} {draws ids : List Nat}
    (hdraw : Monitor.nodeIds allClient [] draws = some ids)
    (messages : List Monitor.Message) :
    (Monitor.curClient ids).length = allClient + 1 ∧
    (Monitor.curClient ids).Pairwise (· < ·) ∧
    (Monitor.run m allClient (Monitor.curClient ids) messages).tableDone = [] ∧
    (Monitor.run m allClient (Monitor.curClient ids) messages).successorClient = [] := by
  obtain ⟨hnodup, hlen, _⟩ := nodeIds_spec List.nodup_nil (Nat.zero_le _) hdraw
  have hcur : (Monitor.curClient ids).length = allClient + 1 := by
    rw [Monitor.curClient, List.length_mergeSort, hlen]
  refine ⟨hcur, ?_, ?_⟩
  · have hle : (Monitor.curClient ids).Pairwise (· ≤ ·) := by
      have htrans : ∀ a b c : Nat, decide (a ≤ b) = true → decide (b ≤ c) = true →
          decide (a ≤ c) = true := by
        intro a b c hab hbc
        exact decide_eq_true (Nat.le_trans (of_decide_eq_true hab) (of_decide_eq_true hbc))
      have htotal : ∀ a b : Nat, (decide (a ≤ b) || decide (b ≤ a)) = true := by
        intro a b
        simp only [Bool.or_eq_true, decide_eq_true_eq]
        omega
      exact (List.pairwise_mergeSort htrans htotal ids).imp of_decide_eq_true
    have hne : (Monitor.curClient ids).Nodup := (List.mergeSort_perm ids _).nodup_iff.mpr hnodup
    exact (hle.and hne).imp fun h => Nat.lt_of_le_of_ne h.1 h.2
  · obtain ⟨hdone, hsuccessor, -⟩ := run_of_length_ne (m := m)
      (by omega : (Monitor.curClient ids).length ≠ allClient) messages
    exact ⟨hdone, hsuccessor⟩

/-- Three ids for two nodes. -/
theorem monitor_looks_at_no_report_three :
    Monitor.nodeIds 2 [] [3, 1, 3, 2] = some [3, 1, 2] ∧
    (Monitor.run 2 2 (Monitor.curClient [3, 1, 2])
      [.client 1, .numbers [1, 2, 3, 2, 3]]).tableDone = [] := by
  have hdraw : Monitor.nodeIds 2 [] [3, 1, 3, 2] = some [3, 1, 2] := by decide
  exact ⟨hdraw, (monitor_looks_at_no_report hdraw _).2.2.1⟩

end Daenet.Proofs
