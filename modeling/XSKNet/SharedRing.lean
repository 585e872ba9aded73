import Mathlib.Data.Nat.ModEq
import Mathlib.Tactic.Common

/- Single-producer single-consumer rings in shared memory, driven by 32-bit
   free-running counters that wrap. One side is the local user, who keeps a cached
   copy of both counters and refreshes it only when needed; the other side is the
   peer. The ring is used either as a producer ring (the user fills it) or as a
   consumer ring (the user drains it). -/
namespace SharedRing

/-- A ring size for which masked counters survive the wrap at 2^32. -/
class RingSize (n : Nat) : Prop where
  pos : 0 < n
  lt : n < 2 ^ 32
  dvd : n ∣ 2 ^ 32

structure Ring (n : Nat) (α : Type) where
  slot : Nat → α
  producer : UInt32
  consumer : UInt32
  cachedProd : UInt32
  cachedCons : UInt32

variable {n : Nat} {α : Type}

/-- The slot of a counter; for a power of two this is the counter masked by n - 1. -/
def index (n : Nat) (c : UInt32) : Nat := c.toNat % n

def window (n : Nat) (slot : Nat → α) (c : UInt32) : Nat → List α
  | 0 => []
  | len + 1 => slot (index n c) :: window n slot (c + 1) len

namespace Ring

def read (r : Ring n α) (c : UInt32) : α := r.slot (index n c)

def write (r : Ring n α) (c : UInt32) (v : α) : Ring n α :=
  { r with slot := fun i => if i = index n c then v else r.slot i }

/-- Entries the producer has made visible and the consumer has not given back. -/
def used (r : Ring n α) : Nat := (r.producer - r.consumer).toNat

def entries (r : Ring n α) : List α := window n r.slot r.consumer r.used

/- The user as producer. -/

/-- Free entries by the cached counters alone. -/
def room (r : Ring n α) : UInt32 := r.cachedCons - r.cachedProd

def pending (r : Ring n α) : Nat := (r.cachedProd - r.producer).toNat

def pendingEntries (r : Ring n α) : List α := window n r.slot r.producer r.pending

/-- Free entries; the peer's counter is read only when the cached room is below nb. -/
def prodNbFree (nb : UInt32) (r : Ring n α) : UInt32 × Ring n α :=
  if nb ≤ r.room then (r.room, r)
  else
    let r' := { r with cachedCons := r.consumer + UInt32.ofNat n }
    (r'.room, r')

/-- All or nothing: nb slots from the returned index on, or zero and idx unchanged. -/
def prodReserve (nb idx : UInt32) (r : Ring n α) : UInt32 × UInt32 × Ring n α :=
  let (free, r') := r.prodNbFree nb
  if free < nb then (0, idx, r')
  else (nb, r'.cachedProd, { r' with cachedProd := r'.cachedProd + nb })

def prodSubmit (nb : UInt32) (r : Ring n α) : Ring n α :=
  { r with producer := r.producer + nb }

/- The user as consumer. -/

/-- Entries the cached counters show and that are not peeked yet. -/
def seen (r : Ring n α) : UInt32 := r.cachedProd - r.cachedCons

/-- Entries peeked and not yet released. -/
def peeked (r : Ring n α) : Nat := (r.cachedCons - r.consumer).toNat

def consNbAvail (nb : UInt32) (r : Ring n α) : UInt32 × Ring n α :=
  let r' := if r.seen = 0 then { r with cachedProd := r.producer } else r
  (if nb < r'.seen then nb else r'.seen, r')

def consPeek (nb idx : UInt32) (r : Ring n α) : UInt32 × UInt32 × Ring n α :=
  let (avail, r') := r.consNbAvail nb
  if 0 < avail then (avail, r'.cachedCons, { r' with cachedCons := r'.cachedCons + avail })
  else (avail, idx, r')

def consRelease (nb : UInt32) (r : Ring n α) : Ring n α :=
  { r with consumer := r.consumer + nb }

/- The peer. -/

def peerTake (r : Ring n α) : Option (α × Ring n α) :=
  if r.producer = r.consumer then none
  else some (r.read r.consumer, { r with consumer := r.consumer + 1 })

def peerPut (v : α) (r : Ring n α) : Option (Ring n α) :=
  if n ≤ r.used then none
  else some { r.write r.producer v with producer := r.producer + 1 }

/-- Counters of a producer ring: used, pending and cached room fit the ring. -/
def Producing (r : Ring n α) : Prop := r.used + r.pending + r.room.toNat ≤ n

/-- Counters of a consumer ring: what is peeked and seen is used, and fits the ring. -/
def Consuming (r : Ring n α) : Prop := r.peeked + r.seen.toNat ≤ r.used ∧ r.used ≤ n

end Ring

/- Windows. -/

section windows
variable [size : RingSize n]

theorem index_add (c : UInt32) (k : Nat) :
    index n (c + UInt32.ofNat k) = (c.toNat + k) % n := by
  have wrap : (c + UInt32.ofNat k).toNat = (c.toNat + k) % 2 ^ 32 := by
    rw [UInt32.toNat_add, UInt32.toNat_ofNat', Nat.add_mod_mod]
  rw [index, wrap, Nat.mod_mod_of_dvd _ size.dvd]

theorem index_add_inj (c : UInt32) {i j : Nat} (hi : i < n) (hj : j < n)
    (same : index n (c + UInt32.ofNat i) = index n (c + UInt32.ofNat j)) : i = j := by
  rw [index_add, index_add] at same
  have mod : i ≡ j [MOD n] := Nat.ModEq.add_left_cancel' c.toNat same
  exact Nat.ModEq.eq_of_lt_of_lt mod hi hj

end windows

@[simp] theorem window_length (slot : Nat → α) (c : UInt32) (len : Nat) :
    (window n slot c len).length = len := by
  induction len generalizing c with
  | zero => rfl
  | succ len ih => simp [window, ih]

theorem counter_succ (c : UInt32) (k : Nat) :
    c + 1 + UInt32.ofNat k = c + UInt32.ofNat (k + 1) := by
  rw [UInt32.add_assoc]
  congr 1
  rw [← UInt32.toNat_inj]
  simp [UInt32.toNat_add, Nat.add_comm]

theorem counter_next (c : UInt32) (k : Nat) :
    c + UInt32.ofNat k + 1 = c + UInt32.ofNat (k + 1) := by
  rw [← counter_succ, UInt32.add_assoc, UInt32.add_assoc, UInt32.add_comm 1]

theorem ofNat_of_toNat {k : Nat} {c : UInt32} (number : k = c.toNat) : c = UInt32.ofNat k := by
  rw [number, UInt32.ofNat_toNat]

theorem window_add (slot : Nat → α) (c : UInt32) (a b : Nat) :
    window n slot c (a + b) =
      window n slot c a ++ window n slot (c + UInt32.ofNat a) b := by
  induction a generalizing c with
  | zero => simp [window]
  | succ a ih =>
    rw [Nat.add_right_comm, window, ih, window, counter_succ, List.cons_append]

theorem window_succ (slot : Nat → α) (c : UInt32) (len : Nat) :
    window n slot c (len + 1) =
      window n slot c len ++ [slot (index n (c + UInt32.ofNat len))] := by
  rw [window_add]
  rfl

theorem window_congr (slot slot' : Nat → α) (c : UInt32) (len : Nat)
    (same : ∀ i, i < len →
      slot' (index n (c + UInt32.ofNat i)) = slot (index n (c + UInt32.ofNat i))) :
    window n slot' c len = window n slot c len := by
  induction len with
  | zero => rfl
  | succ len ih =>
    rw [window_succ, window_succ, ih (fun i hi => same i (by omega)), same len (by omega)]

theorem window_get (slot : Nat → α) (c : UInt32) (len i : Nat) (bound : i < len) :
    (window n slot c len)[i]? = some (slot (index n (c + UInt32.ofNat i))) := by
  obtain ⟨rest, split⟩ : ∃ rest, len = i + (rest + 1) := ⟨len - i - 1, by omega⟩
  rw [split, window_add, List.getElem?_append_right (by simp)]
  simp [window]

theorem window_write_outside [size : RingSize n] (r : Ring n α) (v : α) (c w : UInt32)
    (len k : Nat) (at_k : w = c + UInt32.ofNat k) (after : len ≤ k) (fits : k < n) :
    window n (r.write w v).slot c len = window n r.slot c len := by
  apply window_congr
  intro i hi
  have other : index n (c + UInt32.ofNat i) ≠ index n w := by
    intro same
    rw [at_k] at same
    have := index_add_inj c (by omega) fits same
    omega
  simp [Ring.write, other]

namespace Ring

/- The counters as natural numbers. -/

theorem producer_eq (r : Ring n α) : r.producer = r.consumer + UInt32.ofNat r.used := by
  rw [UInt32.add_comm]
  simp [used]

theorem cachedProd_eq (r : Ring n α) : r.cachedProd = r.producer + UInt32.ofNat r.pending := by
  rw [UInt32.add_comm]
  simp [pending]

theorem cachedCons_eq (r : Ring n α) : r.cachedCons = r.consumer + UInt32.ofNat r.peeked := by
  rw [UInt32.add_comm]
  simp [peeked]

@[simp] theorem entries_length (r : Ring n α) : r.entries.length = r.used := by
  simp [entries]

theorem entries_of_used_succ (r : Ring n α) {k : Nat} (some_used : r.used = k + 1) :
    r.entries = r.read r.consumer :: window n r.slot (r.consumer + 1) k := by
  rw [entries, some_used]
  rfl

theorem read_consumer_add (r : Ring n α) {i : Nat} (bound : i < r.used) :
    r.entries[i]? = some (r.read (r.consumer + UInt32.ofNat i)) := by
  rw [entries, window_get _ _ _ _ bound]
  rfl

/- The user as producer. -/

@[simp] theorem prodNbFree_slot (nb : UInt32) (r : Ring n α) :
    (r.prodNbFree nb).2.slot = r.slot := by
  unfold prodNbFree
  split <;> rfl

@[simp] theorem prodNbFree_producer (nb : UInt32) (r : Ring n α) :
    (r.prodNbFree nb).2.producer = r.producer := by
  unfold prodNbFree
  split <;> rfl

@[simp] theorem prodNbFree_consumer (nb : UInt32) (r : Ring n α) :
    (r.prodNbFree nb).2.consumer = r.consumer := by
  unfold prodNbFree
  split <;> rfl

theorem prodNbFree_used (nb : UInt32) (r : Ring n α) : (r.prodNbFree nb).2.used = r.used := by
  simp [used]

@[simp] theorem prodNbFree_cachedProd (nb : UInt32) (r : Ring n α) :
    (r.prodNbFree nb).2.cachedProd = r.cachedProd := by
  unfold prodNbFree
  split <;> rfl

@[simp] theorem prodNbFree_room (nb : UInt32) (r : Ring n α) :
    (r.prodNbFree nb).2.room = (r.prodNbFree nb).1 := by
  unfold prodNbFree
  split <;> rfl

@[simp] theorem prodNbFree_entries (nb : UInt32) (r : Ring n α) :
    (r.prodNbFree nb).2.entries = r.entries := by
  simp [entries, used]

@[simp] theorem prodNbFree_pending (nb : UInt32) (r : Ring n α) :
    (r.prodNbFree nb).2.pending = r.pending := by
  simp [pending]

/-- The answer is the cached room when that is enough, else the true room. -/
theorem prodNbFree_value [size : RingSize n] (nb : UInt32) (r : Ring n α) (ok : r.Producing) :
    (r.prodNbFree nb).1.toNat =
      if nb ≤ r.room then r.room.toNat else n - r.used - r.pending := by
  unfold prodNbFree
  split
  · rfl
  · have small := size.lt
    have hp := r.producer.toNat_lt
    have hc := r.consumer.toNat_lt
    have hq := r.cachedProd.toNat_lt
    simp only [Producing, used, pending, room, UInt32.toNat_sub, UInt32.toNat_add,
      UInt32.toNat_ofNat'] at ok ⊢
    omega

theorem prodNbFree_producing [size : RingSize n] (nb : UInt32) (r : Ring n α)
    (ok : r.Producing) : (r.prodNbFree nb).2.Producing := by
  have value := prodNbFree_value nb r ok
  have same : (r.prodNbFree nb).2.used = r.used := by simp [used]
  have same' : (r.prodNbFree nb).2.pending = r.pending := by simp [pending]
  unfold Producing at ok ⊢
  rw [same, same', prodNbFree_room, value]
  split <;> omega

theorem prodReserve_of_room (nb idx : UInt32) (r : Ring n α) (enough : nb ≤ r.room) :
    r.prodReserve nb idx = (nb, r.cachedProd, { r with cachedProd := r.cachedProd + nb }) := by
  have free : r.prodNbFree nb = (r.room, r) := by simp [prodNbFree, enough]
  simp [prodReserve, free, UInt32.not_lt.mpr enough]

theorem reserved_pending [size : RingSize n] (nb : UInt32) (r : Ring n α) (ok : r.Producing)
    (enough : nb ≤ r.room) :
    ({ r with cachedProd := r.cachedProd + nb } : Ring n α).pending = r.pending + nb.toNat := by
  have small := size.lt
  rw [UInt32.le_iff_toNat_le] at enough
  simp only [Producing, used, pending, room, UInt32.toNat_sub, UInt32.toNat_add] at ok enough ⊢
  omega

theorem reserved_room (nb : UInt32) (r : Ring n α) :
    ({ r with cachedProd := r.cachedProd + nb } : Ring n α).room = r.room - nb := by
  have hc := r.cachedCons.toNat_lt
  have hp := r.cachedProd.toNat_lt
  have hn := nb.toNat_lt
  rw [← UInt32.toNat_inj]
  simp only [room, UInt32.toNat_sub, UInt32.toNat_add]
  omega

theorem reserved_producing [size : RingSize n] (nb : UInt32) (r : Ring n α) (ok : r.Producing)
    (enough : nb ≤ r.room) :
    ({ r with cachedProd := r.cachedProd + nb } : Ring n α).Producing := by
  have more := reserved_pending nb r ok enough
  have small := size.lt
  rw [UInt32.le_iff_toNat_le] at enough
  have less : ({ r with cachedProd := r.cachedProd + nb } : Ring n α).room.toNat =
      r.room.toNat - nb.toNat := by
    have hq := r.cachedProd.toNat_lt
    have hc := r.cachedCons.toNat_lt
    simp only [room, UInt32.toNat_sub, UInt32.toNat_add] at enough ⊢
    omega
  unfold Producing at ok ⊢
  rw [more, less]
  change r.used + _ + _ ≤ n
  omega

theorem write_pending_entries [size : RingSize n] (r : Ring n α) (v : α) {i : Nat}
    (ok : r.Producing) (reserved : i < r.pending) :
    (r.write (r.producer + UInt32.ofNat i) v).entries = r.entries := by
  unfold Producing at ok
  refine window_write_outside r v r.consumer _ r.used (r.used + i) ?_ (by omega) (by omega)
  conv => lhs; rw [producer_eq]
  rw [UInt32.add_assoc, UInt32.ofNat_add]

theorem write_pending_window [size : RingSize n] (r : Ring n α) (v : α) {i : Nat}
    (fits : i < n) :
    window n (r.write (r.producer + UInt32.ofNat i) v).slot r.producer (i + 1) =
      window n r.slot r.producer i ++ [v] := by
  rw [window_succ, window_write_outside r v r.producer _ i i rfl (by omega) fits]
  simp [write]

theorem submit_used [size : RingSize n] (r : Ring n α) (ok : r.Producing) :
    (r.prodSubmit (UInt32.ofNat r.pending)).used = r.used + r.pending := by
  have small := size.lt
  simp only [Producing, prodSubmit, used, pending, UInt32.toNat_sub, UInt32.toNat_add,
    UInt32.toNat_ofNat'] at ok ⊢
  omega

theorem submit_pending (r : Ring n α) :
    (r.prodSubmit (UInt32.ofNat r.pending)).pending = 0 := by
  simp only [prodSubmit, pending]
  rw [UInt32.ofNat_toNat, UInt32.add_comm, UInt32.sub_add_cancel]
  simp

theorem submit_entries [size : RingSize n] (r : Ring n α) (ok : r.Producing) :
    (r.prodSubmit (UInt32.ofNat r.pending)).entries = r.entries ++ r.pendingEntries := by
  rw [entries, submit_used r ok]
  change window n r.slot r.consumer (r.used + r.pending) = _
  rw [window_add, ← producer_eq]
  rfl

theorem submit_producing [size : RingSize n] (r : Ring n α) (ok : r.Producing) :
    (r.prodSubmit (UInt32.ofNat r.pending)).Producing := by
  unfold Producing at ok ⊢
  rw [submit_used r ok, submit_pending]
  change _ + 0 + r.room.toNat ≤ n
  omega

theorem peerTake_spec [size : RingSize n] {r r' : Ring n α} {v : α} (ok : r.Producing)
    (taken : r.peerTake = some (v, r')) :
    r.entries = v :: r'.entries ∧ r'.pending = r.pending ∧ r'.room = r.room ∧
      r'.pendingEntries = r.pendingEntries ∧ r'.cachedProd = r.cachedProd ∧
      r'.producer = r.producer ∧ r'.slot = r.slot ∧ r'.Producing := by
  unfold peerTake at taken
  split at taken
  · cases taken
  · rename_i differ
    obtain ⟨rfl, rfl⟩ := Prod.mk.inj (Option.some.inj taken)
    have small := size.lt
    have shrink : r.used = ({ r with consumer := r.consumer + 1 } : Ring n α).used + 1 := by
      rw [← UInt32.toNat_inj] at differ
      have hp := r.producer.toNat_lt
      have hc := r.consumer.toNat_lt
      simp only [used, UInt32.toNat_sub, UInt32.toNat_add, UInt32.toNat_one]
      omega
    refine ⟨entries_of_used_succ r shrink, rfl, rfl, rfl, rfl, rfl, rfl, ?_⟩
    unfold Producing at ok ⊢
    rw [shrink] at ok
    change _ + r.pending + r.room.toNat ≤ n
    omega

theorem peerTake_of_used (r : Ring n α) (some_used : 0 < r.used) :
    ∃ r', r.peerTake = some (r.read r.consumer, r') ∧ r'.used + 1 = r.used := by
  have differ : r.producer ≠ r.consumer := by
    intro same
    simp [used, same] at some_used
  refine ⟨{ r with consumer := r.consumer + 1 }, by simp [peerTake, differ], ?_⟩
  have hp := r.producer.toNat_lt
  have hc := r.consumer.toNat_lt
  simp only [used, UInt32.toNat_sub, UInt32.toNat_add, UInt32.toNat_one] at some_used ⊢
  omega

/- The user as consumer. -/

@[simp] theorem consNbAvail_slot (nb : UInt32) (r : Ring n α) :
    (r.consNbAvail nb).2.slot = r.slot := by
  unfold consNbAvail
  dsimp only
  split <;> rfl

@[simp] theorem consNbAvail_producer (nb : UInt32) (r : Ring n α) :
    (r.consNbAvail nb).2.producer = r.producer := by
  unfold consNbAvail
  dsimp only
  split <;> rfl

@[simp] theorem consNbAvail_consumer (nb : UInt32) (r : Ring n α) :
    (r.consNbAvail nb).2.consumer = r.consumer := by
  unfold consNbAvail
  dsimp only
  split <;> rfl

theorem consNbAvail_used (nb : UInt32) (r : Ring n α) : (r.consNbAvail nb).2.used = r.used := by
  simp [used]

@[simp] theorem consNbAvail_cachedCons (nb : UInt32) (r : Ring n α) :
    (r.consNbAvail nb).2.cachedCons = r.cachedCons := by
  unfold consNbAvail
  dsimp only
  split <;> rfl

@[simp] theorem consNbAvail_entries (nb : UInt32) (r : Ring n α) :
    (r.consNbAvail nb).2.entries = r.entries := by
  simp [entries, used]

@[simp] theorem consNbAvail_peeked (nb : UInt32) (r : Ring n α) :
    (r.consNbAvail nb).2.peeked = r.peeked := by
  simp [peeked]

theorem consNbAvail_le (nb : UInt32) (r : Ring n α) :
    (r.consNbAvail nb).1.toNat ≤ nb.toNat ∧
      (r.consNbAvail nb).1.toNat ≤ (r.consNbAvail nb).2.seen.toNat := by
  unfold consNbAvail
  dsimp only
  generalize (if r.seen = 0 then _ else r : Ring n α).seen = s
  split
  · rename_i less
    rw [UInt32.lt_iff_toNat_lt] at less
    omega
  · rename_i more
    rw [UInt32.lt_iff_toNat_lt] at more
    omega

theorem consNbAvail_pos (nb : UInt32) (r : Ring n α) (asked : 0 < nb) (released : r.peeked = 0)
    (some_used : 0 < r.used) : 0 < (r.consNbAvail nb).1 := by
  have same : r.cachedCons = r.consumer := by
    rw [cachedCons_eq, released]
    exact UInt32.add_zero _
  have some_seen : 0 < (r.consNbAvail nb).2.seen := by
    unfold consNbAvail
    dsimp only
    split
    · rw [UInt32.lt_iff_toNat_lt]
      simpa [seen, same, used] using some_used
    · rename_i cached
      exact UInt32.pos_iff_ne_zero.mpr cached
  change 0 < if nb < (r.consNbAvail nb).2.seen then nb else (r.consNbAvail nb).2.seen
  split
  · exact asked
  · exact some_seen

theorem consNbAvail_consuming (nb : UInt32) (r : Ring n α) (ok : r.Consuming) :
    (r.consNbAvail nb).2.Consuming := by
  unfold consNbAvail
  dsimp only
  split
  · have hp := r.producer.toNat_lt
    have hc := r.consumer.toNat_lt
    have hq := r.cachedCons.toNat_lt
    simp only [Consuming, peeked, seen, used, UInt32.toNat_sub] at ok ⊢
    omega
  · exact ok

theorem consPeek_eq (nb idx : UInt32) (r : Ring n α) (some_avail : 0 < (r.consNbAvail nb).1) :
    r.consPeek nb idx = ((r.consNbAvail nb).1, r.cachedCons,
      { (r.consNbAvail nb).2 with cachedCons := r.cachedCons + (r.consNbAvail nb).1 }) := by
  simp [consPeek, some_avail]

theorem peek_peeked (nb : UInt32) (r : Ring n α) (ok : r.Consuming) :
    ({ (r.consNbAvail nb).2 with
      cachedCons := r.cachedCons + (r.consNbAvail nb).1 } : Ring n α).peeked =
        r.peeked + (r.consNbAvail nb).1.toNat := by
  have bound := (consNbAvail_le nb r).2
  have ok' := consNbAvail_consuming nb r ok
  have hc := r.cachedCons.toNat_lt
  have hk := r.consumer.toNat_lt
  have hp := r.producer.toNat_lt
  simp only [Consuming, peeked, seen, used, consNbAvail_consumer, consNbAvail_cachedCons,
    consNbAvail_producer, UInt32.toNat_sub, UInt32.toNat_add] at ok' bound ⊢
  omega

theorem peek_consuming (nb : UInt32) (r : Ring n α) (ok : r.Consuming) :
    ({ (r.consNbAvail nb).2 with
      cachedCons := r.cachedCons + (r.consNbAvail nb).1 } : Ring n α).Consuming := by
  have more := peek_peeked nb r ok
  have bound := (consNbAvail_le nb r).2
  have ok' := consNbAvail_consuming nb r ok
  have same : (r.consNbAvail nb).2.peeked = r.peeked := by simp [peeked]
  have less : ({ (r.consNbAvail nb).2 with
      cachedCons := r.cachedCons + (r.consNbAvail nb).1 } : Ring n α).seen.toNat =
        (r.consNbAvail nb).2.seen.toNat - (r.consNbAvail nb).1.toNat := by
    have hc := r.cachedCons.toNat_lt
    have hq := (r.consNbAvail nb).2.cachedProd.toNat_lt
    simp only [seen, consNbAvail_cachedCons, UInt32.toNat_sub, UInt32.toNat_add] at bound ⊢
    omega
  unfold Consuming at ok' ⊢
  rw [more, less]
  rw [same] at ok'
  change _ ≤ (r.consNbAvail nb).2.used ∧ (r.consNbAvail nb).2.used ≤ n
  omega

theorem release_used [size : RingSize n] (r : Ring n α) (ok : r.Consuming) :
    (r.consRelease (UInt32.ofNat r.peeked)).used = r.used - r.peeked := by
  have small := size.lt
  have hp := r.producer.toNat_lt
  have hc := r.consumer.toNat_lt
  simp only [Consuming, used, peeked, consRelease, UInt32.toNat_sub, UInt32.toNat_add,
    UInt32.toNat_ofNat'] at ok ⊢
  omega

theorem release_entries [size : RingSize n] (r : Ring n α) (ok : r.Consuming) :
    (r.consRelease (UInt32.ofNat r.peeked)).entries = r.entries.drop r.peeked := by
  have bound : r.peeked ≤ r.used := by have := ok.1; omega
  have split : r.entries = window n r.slot r.consumer r.peeked ++
      window n r.slot (r.consumer + UInt32.ofNat r.peeked) (r.used - r.peeked) := by
    rw [← window_add, Nat.add_sub_cancel' bound]
    rfl
  rw [split, List.drop_append_of_le_length (by simp), entries, release_used r ok]
  simp only [consRelease]
  rw [List.drop_of_length_le (by simp), List.nil_append]

theorem release_peeked (r : Ring n α) :
    (r.consRelease (UInt32.ofNat r.peeked)).peeked = 0 := by
  simp only [consRelease, peeked]
  rw [UInt32.ofNat_toNat, UInt32.add_comm, UInt32.sub_add_cancel]
  simp

theorem release_consuming [size : RingSize n] (r : Ring n α) (ok : r.Consuming) :
    (r.consRelease (UInt32.ofNat r.peeked)).Consuming := by
  have none := release_peeked r
  have shrink := release_used r ok
  unfold Consuming at ok ⊢
  rw [none, shrink]
  change 0 + r.seen.toNat ≤ _ ∧ _
  omega

theorem peerPut_spec [size : RingSize n] {r r' : Ring n α} {v : α} (ok : r.Consuming)
    (put : r.peerPut v = some r') :
    r'.entries = r.entries ++ [v] ∧ r'.peeked = r.peeked ∧ r'.consumer = r.consumer ∧
      r.used < n ∧ r'.Consuming := by
  unfold peerPut at put
  split at put
  · cases put
  · rename_i free
    obtain rfl := Option.some.inj put
    have small := size.lt
    have grow : ({ r.write r.producer v with producer := r.producer + 1 } : Ring n α).used =
        r.used + 1 := by
      have hp := r.producer.toNat_lt
      have hc := r.consumer.toNat_lt
      simp only [used, write, UInt32.toNat_sub, UInt32.toNat_add, UInt32.toNat_one] at free ⊢
      omega
    refine ⟨?_, rfl, rfl, by omega, ?_⟩
    · rw [entries, grow, window_succ]
      change window n (r.write r.producer v).slot r.consumer r.used ++ _ = _
      rw [window_write_outside r v r.consumer r.producer r.used r.used (producer_eq r)
        (Nat.le_refl _) (by omega)]
      congr 2
      change (if index n (r.consumer + UInt32.ofNat r.used) = index n r.producer then v
        else r.slot _) = v
      rw [← producer_eq, if_pos rfl]
    · unfold Consuming at ok ⊢
      rw [grow]
      change r.peeked + r.seen.toNat ≤ r.used + 1 ∧ r.used + 1 ≤ n
      omega

theorem peerPut_of_room (r : Ring n α) (v : α) (free : r.used < n) :
    ∃ r', r.peerPut v = some r' :=
  ⟨_, if_neg (Nat.not_le.mpr free)⟩

end Ring

end SharedRing
