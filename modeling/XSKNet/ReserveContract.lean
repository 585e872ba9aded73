import XSKNet.RingHistory

/- What a caller may assume of an all-or-nothing reservation, without the ring behind it. -/
namespace SharedRing

variable {σ : Type} {n : Nat} {α : Type}

/-- A call for nb entries returns 0 and reserves nothing or returns nb and reserves nb, and
    it succeeds when nb entries are free; a submit takes back what was reserved. -/
structure Reserving (σ : Type) where
  ok : σ → Prop
  free : σ → Nat
  reserved : σ → Nat
  reserve : UInt32 → σ → UInt32 × σ
  submit : UInt32 → σ → σ
  allOrNothing : ∀ nb s, ok s → ok (reserve nb s).2 ∧
    ((reserve nb s).1 = 0 ∧ reserved (reserve nb s).2 = reserved s ∨
      (reserve nb s).1 = nb ∧ reserved (reserve nb s).2 = reserved s + nb.toNat)
  enough : ∀ nb s, ok s → nb.toNat ≤ free s → (reserve nb s).1 = nb
  submitted : ∀ nb s, ok s → nb.toNat ≤ reserved s →
    ok (submit nb s) ∧ reserved (submit nb s) + nb.toNat = reserved s

/-- What the other side does before each call: nothing it does reserves entries. -/
structure Peer (lib : Reserving σ) where
  move : Nat → σ → σ
  keeps : ∀ k s, lib.ok s → lib.ok (move k s) ∧ lib.reserved (move k s) = lib.reserved s

theorem Reserving.of_some (lib : Reserving σ) {nb : UInt32} {s : σ} (ok : lib.ok s)
    (some_nb : 0 < nb) (all : (lib.reserve nb s).1 = nb) :
    lib.reserved (lib.reserve nb s).2 = lib.reserved s + nb.toNat := by
  rcases (lib.allOrNothing nb s ok).2 with ⟨none, -⟩ | ⟨-, more⟩
  · rw [none] at all
    rw [← all] at some_nb
    exact absurd some_nb (UInt32.lt_irrefl 0)
  · exact more

/- The producer ring. -/

theorem Ring.prodSubmit_pending (nb : UInt32) (r : Ring n α) (reserved : nb.toNat ≤ r.pending) :
    (r.prodSubmit nb).pending + nb.toNat = r.pending := by
  simp only [Ring.prodSubmit, Ring.pending, UInt32.toNat_sub, UInt32.toNat_add] at reserved ⊢
  have hp := r.producer.toNat_lt
  have hq := r.cachedProd.toNat_lt
  omega

theorem Ring.prodReserve_idx (nb idx : UInt32) (r : Ring n α) :
    (r.prodReserve nb idx).1 = (r.prodReserve nb 0).1 ∧
      (r.prodReserve nb idx).2.2 = (r.prodReserve nb 0).2.2 := by
  by_cases less : (r.prodNbFree nb).1 < nb
  · simp only [Ring.prodReserve, less, if_true, and_self]
  · simp only [Ring.prodReserve, less, if_false, and_self]

theorem Ring.prodReserve_answer (nb idx : UInt32) (r : Ring n α) :
    (r.prodReserve nb idx).1 = 0 ∨ (r.prodReserve nb idx).1 = nb := by
  by_cases less : (r.prodNbFree nb).1 < nb
  · simp only [Ring.prodReserve, less, if_true, true_or]
  · simp only [Ring.prodReserve, less, if_false, or_true]

variable [size : RingSize n]

theorem Ring.prodReserve_allOrNothing (nb : UInt32) (r : Ring n α) (ok : r.Producing) :
    (r.prodReserve nb 0).1 = 0 ∧ (r.prodReserve nb 0).2.2.pending = r.pending ∨
      (r.prodReserve nb 0).1 = nb ∧
        (r.prodReserve nb 0).2.2.pending = r.pending + nb.toNat := by
  by_cases less : (r.prodNbFree nb).1 < nb
  · left
    simp only [Ring.prodReserve, less, if_true, Ring.prodNbFree_pending, and_self]
  · right
    have enough : nb ≤ (r.prodNbFree nb).2.room := by
      rw [Ring.prodNbFree_room]
      exact UInt32.not_lt.mp less
    have more := Ring.reserved_pending nb _ (Ring.prodNbFree_producing nb r ok) enough
    rw [Ring.prodNbFree_pending] at more
    simp only [Ring.prodReserve, less, if_false, more, and_self]

theorem Ring.prodReserve_enough (nb : UInt32) (r : Ring n α) (ok : r.Producing)
    (free : nb.toNat ≤ n - r.used - r.pending) : (r.prodReserve nb 0).1 = nb := by
  have value := Ring.prodNbFree_value nb r ok
  have all : ¬ (r.prodNbFree nb).1 < nb := by
    rw [UInt32.lt_iff_toNat_lt, value]
    split
    · rename_i cached
      exact Nat.not_lt.mpr (UInt32.le_iff_toNat_le.mp cached)
    · exact Nat.not_lt.mpr free
  simp only [Ring.prodReserve, all, if_false]

/-- The ring keeps the contract, whatever its counters are. -/
def Ring.reserving : Reserving (Ring n α) where
  ok := Ring.Producing
  free r := n - r.used - r.pending
  reserved := Ring.pending
  reserve nb r := ((r.prodReserve nb 0).1, (r.prodReserve nb 0).2.2)
  submit := Ring.prodSubmit
  allOrNothing nb r ok := ⟨reserve_producing nb 0 ok, Ring.prodReserve_allOrNothing nb r ok⟩
  enough := Ring.prodReserve_enough
  submitted nb r ok reserved := by
    have part := submit_part_producing ok reserved
    rw [UInt32.ofNat_toNat] at part
    exact ⟨part, Ring.prodSubmit_pending nb r reserved⟩

end SharedRing
