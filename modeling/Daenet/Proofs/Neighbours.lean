import Daenet.Proofs.OrderedVector
import Mathlib.Data.Finset.Card

/-!
# The set of neighbours and its array

`NeighbouringSet` keeps the ids of its array in a set as well. The two agree as
long as there is room: a new id goes into both. At the first new id that finds
the array full they part. If the array refuses it, `add_neighbor` puts it into the
set all the same; if an element makes way for it, that element's id stays in the
set (the id erased is the new one, or that of an element that is still there).

The order is lost before that. `operator>` of `host_port_t` is `operator<`, so a
second element is put before the first one if it is bigger and behind it if it is
smaller: two elements already stand in descending order, and a third between them
in neither.
-/

namespace Daenet.Proofs

open Daenet.Lib Daenet.Ref

variable {s : NeighbouringSet} {h : HostPort} {c : NeighbouringSet.Call}

/-- The ids of the array. -/
def ids (s : NeighbouringSet) : Multiset Nat := (slots s.arr s.n).map HostPort.relayId

/-- `contain` answers for the array, and no id stands in it twice. -/
structure Agrees (s : NeighbouringSet) : Prop where
  contain : ∀ id, s.contain id = true ↔ ∃ i < s.n, (s.arr i).relayId = id
  distinct : ∀ i j, i < s.n → j < s.n → (s.arr i).relayId = (s.arr j).relayId → i = j

/-- The array is in the order of the ids. -/
def Ascending (s : NeighbouringSet) : Prop :=
  ∀ i, i + 1 < s.n → (s.arr i).relayId ≤ (s.arr (i + 1)).relayId

/-! ## One call -/

theorem mem_ids {id : Nat} : id ∈ ids s ↔ ∃ i < s.n, (s.arr i).relayId = id := by
  simp only [ids, Multiset.mem_map, mem_slots]
  constructor
  · rintro ⟨_, ⟨i, hi, rfl⟩, hid⟩
    exact ⟨i, hi, hid⟩
  · rintro ⟨i, hi, hid⟩
    exact ⟨_, ⟨i, hi, rfl⟩, hid⟩

theorem card_ids (s : NeighbouringSet) : (ids s).card = s.n := by
  rw [ids, Multiset.card_map, slots, Multiset.card_map, Multiset.card_range]

/-- The set and the array agree when they hold the same ids, as multisets. -/
theorem agrees_iff : Agrees s ↔ s.set.val = ids s := by
  have hcontain : ∀ id, s.contain id = true ↔ id ∈ s.set.val :=
    fun id => decide_eq_true_iff
  have hmap : ids s = (Multiset.range s.n).map fun i => (s.arr i).relayId := by
    rw [ids, slots, Multiset.map_map]
    rfl
  constructor
  · intro hs
    refine (Multiset.Nodup.ext s.set.nodup ?_).mpr fun id => ?_
    · rw [hmap]
      refine (Multiset.nodup_range s.n).map_on fun i hi j hj => ?_
      exact hs.distinct i j (Multiset.mem_range.mp hi) (Multiset.mem_range.mp hj)
    · rw [← hcontain, hs.contain, mem_ids]
  · intro heq
    refine ⟨fun id => by rw [hcontain, heq, mem_ids], fun i j hi hj => ?_⟩
    have hnd : ((Multiset.range s.n).map fun i => (s.arr i).relayId).Nodup := by
      rw [← hmap, ← heq]
      exact s.set.nodup
    exact Multiset.inj_on_of_nodup_map hnd i (Multiset.mem_range.mpr hi) j
      (Multiset.mem_range.mpr hj)

theorem Agrees.card (hs : Agrees s) : s.set.card = s.n := by
  rw [Finset.card_def, agrees_iff.mp hs, card_ids]

theorem Agrees.mem (hs : Agrees s) {i : Nat} (hi : i < s.n) : (s.arr i).relayId ∈ s.set := by
  change _ ∈ s.set.val
  rw [agrees_iff.mp hs, mem_ids]
  exact ⟨i, hi, rfl⟩

theorem addNeighbor_known (hid : h.relayId ∈ s.set) : s.addNeighbor h = s := if_pos hid

theorem addNeighbor_new (hid : h.relayId ∉ s.set) :
    s.addNeighbor h =
      { s.insertWith HostPort.operators h with
        set := insert h.relayId (s.insertWith HostPort.operators h).set } :=
  if_neg hid

/-- A new id when there is room. -/
theorem addNeighbor_room (hs : Agrees s) (hid : h.relayId ∉ s.set) (hroom : s.n < s.maxNum) :
    Agrees (s.addNeighbor h) ∧ (s.addNeighbor h).n = s.n + 1 ∧
      (s.addNeighbor h).set = insert h.relayId s.set := by
  rw [addNeighbor_new hid]
  cases insertWith_inserts HostPort.operators s h with
  | room _ p hp _ _ harr hn hset =>
      refine ⟨agrees_iff.mpr ?_, hn, by dsimp only; rw [hset]⟩
      have hids : ids { s.insertWith HostPort.operators h with
          set := insert h.relayId (s.insertWith HostPort.operators h).set } =
          h.relayId ::ₘ ids s := by
        simp only [ids, harr, hn, slots_opened hp, Multiset.map_cons]
      rw [hids, ← agrees_iff.mp hs]
      dsimp only
      rw [hset, Finset.insert_val, Multiset.ndinsert_of_notMem hid]
  | refused hfull _ _ => omega
  | last hfull _ _ _ _ _ _ _ _ _ => omega
  | first hfull _ _ _ _ _ _ _ _ _ => omega

/-- A new id that finds the array full. -/
theorem addNeighbor_full (hs : Agrees s) (hid : h.relayId ∉ s.set) (hfull : s.n = s.maxNum)
    (htwo : 2 ≤ s.maxNum) : ¬ Agrees (s.addNeighbor h) := by
  rw [addNeighbor_new hid]
  -- One id more in the set than there are elements.
  have hmore : ∀ s' : NeighbouringSet, s'.set = insert h.relayId s.set → s'.n = s.n →
      ¬ Agrees s' := by
    intro s' hset hn hag
    have hcard := hag.card
    rw [hset, Finset.card_insert_of_notMem hid, hs.card, hn] at hcard
    omega
  -- The id of an element that is still there, erased.
  have hgone : ∀ (s' : NeighbouringSet) (i j : Nat), i < s.n → j < s'.n →
      s'.arr j = s.arr i →
      s'.set = insert h.relayId ((insert h.relayId s.set).erase (s.arr i).relayId) →
      ¬ Agrees s' := by
    intro s' i j hi hj harr hset hag
    have hmem := hag.mem hj
    rw [harr, hset, Finset.mem_insert] at hmem
    rcases hmem with heq | hmem
    · exact hid (heq ▸ hs.mem hi)
    · exact Finset.notMem_erase _ _ hmem
  cases insertWith_inserts HostPort.operators s h with
  | room hroom _ _ _ _ _ _ _ => omega
  | refused _ _ hv => exact hmore _ (by dsimp only; rw [hv]) (by dsimp only; rw [hv])
  | last _ _ _ p hp _ _ harr hn hset =>
      rcases Nat.eq_zero_or_pos p with rfl | hpos
      · rw [if_neg (Nat.lt_irrefl 0)] at hset
        refine hgone _ 0 1 (by omega) (by dsimp only; omega) ?_ (by dsimp only; rw [hset]; rfl)
        dsimp only
        rw [harr]
        exact opened_after (Nat.le_refl 0) (by omega)
      · rw [if_pos hpos] at hset
        refine hmore _ ?_ hn
        dsimp only
        rw [hset]
        exact Finset.insert_erase (Finset.mem_insert_self ..)
  | first _ _ _ p hp _ _ harr hn hset =>
      rcases Nat.lt_or_eq_of_le hp with hlt | rfl
      · rw [if_pos hlt] at hset
        refine hmore _ ?_ hn
        dsimp only
        rw [hset]
        exact Finset.insert_erase (Finset.mem_insert_self ..)
      · rw [if_neg (Nat.lt_irrefl _)] at hset
        refine hgone _ (s.maxNum - 1) (s.maxNum - 2) (by omega) (by dsimp only; omega) ?_
          (by dsimp only; rw [hset]; rfl)
        dsimp only
        rw [harr, closed_before (by omega), show s.maxNum - 2 + 1 = s.maxNum - 1 by omega]

/-- Two elements are in descending order. -/
theorem addNeighbor_second (hs : Agrees s) (hid : h.relayId ∉ s.set) (hone : s.n = 1)
    (hroom : s.n < s.maxNum) : ¬ Ascending (s.addNeighbor h) := by
  have hne : (s.arr 0).relayId ≠ h.relayId := fun heq => hid (heq ▸ hs.mem (by omega))
  rw [addNeighbor_new hid]
  cases insertWith_inserts HostPort.operators s h with
  | room _ p hp hplace habove harr hn _ =>
      intro hasc
      have hle := hasc 0 (by dsimp only; omega)
      rw [hone] at hp hplace habove harr
      dsimp only at hle
      rw [harr] at hle
      rcases Nat.eq_zero_or_pos p with rfl | hpos
      · -- Not below the first one, and put before it.
        rw [opened_self, opened_after (Nat.le_refl 0) Nat.zero_lt_one] at hle
        have hnot := habove 1 Nat.zero_lt_one (Nat.le_refl 1)
        refine hnot ⟨decide_eq_true ?_, .inr (Nat.le_refl 1)⟩
        exact Nat.lt_of_le_of_ne hle hne.symm
      · obtain rfl : p = 1 := by omega
        rw [opened_before Nat.zero_lt_one, opened_self] at hle
        have hlt := of_decide_eq_true (hplace hpos).1
        exact absurd hlt (Nat.not_lt.mpr hle)
  | refused hfull _ _ => omega
  | last hfull _ _ _ _ _ _ _ _ _ => omega
  | first hfull _ _ _ _ _ _ _ _ _ => omega

/-! ## Runs -/

/-- The id of a call is known, or there are fewer than `k` so far. -/
def Below (k : Nat) (s : NeighbouringSet) (c : NeighbouringSet.Call) : Prop :=
  c.neighbor.relayId ∈ s.set ∨ s.n < k

/-- The set and the array agree, and hold at most `k` ids. -/
structure Agreeing (k : Nat) (s : NeighbouringSet) : Prop extends Agrees s where
  cap : s.maxNum = NeighbouringSet.maxSet
  le : s.n ≤ k

theorem call_maxNum (s : NeighbouringSet) (c : NeighbouringSet.Call) :
    (s.call c).maxNum = s.maxNum := by
  simp only [NeighbouringSet.call, NeighbouringSet.addNeighbor]
  split
  · rfl
  · exact (insertWith_fixed ..).1

theorem Agreeing.call {k : Nat} (hs : Agreeing k s) (hk : k ≤ NeighbouringSet.maxSet)
    (hc : Below k s c) :
    Agreeing k (s.call c) ∧ (s.call c).set = insert c.neighbor.relayId s.set := by
  by_cases hid : c.neighbor.relayId ∈ s.set
  · rw [NeighbouringSet.call, addNeighbor_known hid, Finset.insert_eq_of_mem hid]
    exact ⟨hs, rfl⟩
  · have hlt := hc.resolve_left hid
    obtain ⟨hag, hn, hset⟩ := addNeighbor_room hs.toAgrees hid (by rw [hs.cap]; omega)
    refine ⟨⟨hag, (call_maxNum s c).trans hs.cap, ?_⟩, hset⟩
    rw [NeighbouringSet.call, hn]
    omega

/-- The ids that the calls bring. -/
def brought (cs : List NeighbouringSet.Call) : Finset Nat :=
  (cs.map fun c => c.neighbor.relayId).toFinset

theorem brought_cons (c : NeighbouringSet.Call) (cs : List NeighbouringSet.Call) :
    brought (c :: cs) = insert c.neighbor.relayId (brought cs) := by
  rw [brought, List.map_cons, List.toFinset_cons]
  rfl

/-- No call is one too many if and only if there are at most `k` ids in all. -/
theorem always_below_iff {k : Nat} (hk : k ≤ NeighbouringSet.maxSet) (hs : Agreeing k s)
    (cs : List NeighbouringSet.Call) :
    Always NeighbouringSet.call (Below k) s cs ↔ (s.set ∪ brought cs).card ≤ k := by
  induction cs generalizing s with
  | nil =>
      refine iff_of_true trivial ?_
      change (s.set ∪ ∅).card ≤ k
      rw [Finset.union_empty, hs.card]
      exact hs.le
  | cons c cs ih =>
      have hunion : s.set ∪ brought (c :: cs) =
          insert c.neighbor.relayId s.set ∪ brought cs := by
        rw [brought_cons, Finset.union_insert, Finset.insert_union]
      rw [hunion]
      constructor
      · rintro ⟨hc, hcs⟩
        obtain ⟨hs', hset⟩ := hs.call hk hc
        rw [← hset]
        exact (ih hs').mp hcs
      · intro hcard
        have hc : Below k s c := by
          by_cases hid : c.neighbor.relayId ∈ s.set
          · exact .inl hid
          · have hsub : (insert c.neighbor.relayId s.set).card ≤
                (insert c.neighbor.relayId s.set ∪ brought cs).card :=
              Finset.card_le_card Finset.subset_union_left
            rw [Finset.card_insert_of_notMem hid, hs.card] at hsub
            exact .inr (by omega)
        obtain ⟨hs', hset⟩ := hs.call hk hc
        rw [← hset] at hcard
        exact ⟨hc, (ih hs').mpr hcard⟩

theorem agreeing_init (k : Nat) (relayHost : HostPort) (arr : Nat → HostPort) :
    Agreeing k (NeighbouringSet.init relayHost arr) := by
  refine ⟨⟨fun id => ?_, fun i _ hi => absurd hi (Nat.not_lt_zero i)⟩, rfl, Nat.zero_le k⟩
  refine iff_of_false ?_ ?_
  · exact fun h => absurd (of_decide_eq_true h) (Finset.notMem_empty id)
  · rintro ⟨i, hi, _⟩
    exact absurd hi (Nat.not_lt_zero i)

theorem agrees_call_iff (hs : Agreeing NeighbouringSet.maxSet s) :
    Agrees (s.call c) ↔ Below NeighbouringSet.maxSet s c := by
  constructor
  · intro hag
    by_contra hno
    rw [Below, not_or, not_lt] at hno
    refine addNeighbor_full hs.toAgrees hno.1 ?_ ?_ hag
    · rw [hs.cap]
      exact Nat.le_antisymm hs.le hno.2
    · rw [hs.cap]
      decide
  · exact fun hc => (hs.call (Nat.le_refl _) hc).1.toAgrees

theorem ordered_call_iff (hs : Agreeing 1 s) :
    Agrees (s.call c) ∧ Ascending (s.call c) ↔ Below 1 s c := by
  constructor
  · rintro ⟨_, hasc⟩
    by_contra hno
    rw [Below, not_or, not_lt] at hno
    have hone : s.n = 1 := Nat.le_antisymm hs.le hno.2
    refine addNeighbor_second hs.toAgrees hno.1 hone ?_ hasc
    rw [hone, hs.cap]
    decide
  · intro hc
    have hs' := (hs.call (by decide) hc).1
    refine ⟨hs'.toAgrees, fun i hi => ?_⟩
    have hle := hs'.le
    omega

/-- After every call of a run the set agrees with the array, and the array is in
order, if and only if all the calls bring one id. Set and array alone agree if and
only if the calls bring no more ids than there is room for. -/
theorem neighbours_agree_iff (relayHost : HostPort) (arr : Nat → HostPort)
    (cs : List NeighbouringSet.Call) :
    (Always NeighbouringSet.call (fun s c => Agrees (s.call c) ∧ Ascending (s.call c))
        (NeighbouringSet.init relayHost arr) cs ↔ (brought cs).card ≤ 1) ∧
      (Always NeighbouringSet.call (fun s c => Agrees (s.call c))
        (NeighbouringSet.init relayHost arr) cs ↔
          (brought cs).card ≤ NeighbouringSet.maxSet) := by
  have htrue (s : NeighbouringSet) : Always NeighbouringSet.call (fun _ _ => True) s cs :=
    always_of_forall (fun _ _ => trivial) s cs
  have hempty : (NeighbouringSet.init relayHost arr).set ∪ brought cs = brought cs :=
    Finset.empty_union _
  constructor
  · rw [← hempty, ← always_below_iff (by decide) (agreeing_init 1 relayHost arr) cs]
    refine always_iff_of_inv (I := Agreeing 1) ?_ ?_ (agreeing_init 1 relayHost arr) (htrue _)
    · exact fun s c hs _ hc => (hs.call (by decide) hc).1
    · exact fun s c hs _ => ordered_call_iff hs
  · rw [← hempty, ← always_below_iff (Nat.le_refl _)
      (agreeing_init NeighbouringSet.maxSet relayHost arr) cs]
    refine always_iff_of_inv (I := Agreeing NeighbouringSet.maxSet) ?_ ?_
      (agreeing_init NeighbouringSet.maxSet relayHost arr) (htrue _)
    · exact fun s c hs _ hc => (hs.call (Nat.le_refl _) hc).1
    · exact fun s c hs _ => agrees_call_iff hs

/-- Three ids, of which the last is between the others: the array is in neither
order. -/
theorem neighbours_unordered :
    let host : Nat → HostPort := fun id => { host := "10.0.0.1", port := 2000, relayId := id }
    let cs : List NeighbouringSet.Call := [.host (host 9), .host (host 7), .host (host 8)]
    let s := NeighbouringSet.init (host 5) fun _ => host 0
    (List.range 3).map (fun i => ((cs.foldl NeighbouringSet.call s).arr i).relayId) =
        [8, 9, 7] ∧
      ¬ Always NeighbouringSet.call (fun s c => Agrees (s.call c) ∧ Ascending (s.call c))
        s cs := by
  refine ⟨by decide, ?_⟩
  rintro ⟨_, ⟨_, hasc⟩, _⟩
  exact absurd (hasc 0 (by decide)) (by decide)

end Daenet.Proofs
