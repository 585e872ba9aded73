import XSKNet.SharedRing
import XSKNet.Runs

/- All histories of a producer ring from its creation, with the calls of the user and the
   entries taken by the peer in any order. -/
namespace SharedRing
open Runs

variable {n : Nat} {α : Type}

/-- A ring as it is created: nothing used, and its whole size cached as room. -/
def Ring.Fresh (r : Ring n α) : Prop := ∃ slot, r = ⟨slot, 0, 0, 0, UInt32.ofNat n⟩

inductive ProducerMove : Ring n α → Ring n α → Prop where
  | nbFree (nb : UInt32) (r : Ring n α) : ProducerMove r (r.prodNbFree nb).2
  | reserve (nb idx : UInt32) (r : Ring n α) : ProducerMove r (r.prodReserve nb idx).2.2
  | write (r : Ring n α) (v : α) {i : Nat} (reserved : i < r.pending) :
      ProducerMove r (r.write (r.producer + UInt32.ofNat i) v)
  | submit (r : Ring n α) {k : Nat} (reserved : k ≤ r.pending) :
      ProducerMove r (r.prodSubmit (UInt32.ofNat k))
  | take {r r' : Ring n α} {v : α} (taken : r.peerTake = some (v, r')) : ProducerMove r r'

variable [size : RingSize n]

theorem fresh_producing {r : Ring n α} (fresh : r.Fresh) : r.Producing := by
  obtain ⟨slot, rfl⟩ := fresh
  have small := size.lt
  simp only [Ring.Producing, Ring.used, Ring.pending, Ring.room, UInt32.toNat_sub,
    UInt32.toNat_zero, UInt32.toNat_ofNat']
  omega

theorem reserve_producing (nb idx : UInt32) {r : Ring n α} (ok : r.Producing) :
    (r.prodReserve nb idx).2.2.Producing := by
  have free := Ring.prodNbFree_producing nb r ok
  by_cases less : (r.prodNbFree nb).1 < nb
  · simpa only [Ring.prodReserve, less, if_true] using free
  · simp only [Ring.prodReserve, less, if_false]
    apply Ring.reserved_producing nb _ free
    rw [Ring.prodNbFree_room]
    exact UInt32.not_lt.mp less

theorem submit_part_producing {r : Ring n α} {k : Nat} (ok : r.Producing) (reserved : k ≤ r.pending) :
    (r.prodSubmit (UInt32.ofNat k)).Producing := by
  have small := size.lt
  have hp := r.producer.toNat_lt
  have hq := r.cachedProd.toNat_lt
  have hc := r.consumer.toNat_lt
  unfold Ring.Producing at ok ⊢
  change _ + _ + r.room.toNat ≤ n
  simp only [Ring.prodSubmit, Ring.used, Ring.pending, UInt32.toNat_sub, UInt32.toNat_add,
    UInt32.toNat_ofNat'] at ok reserved ⊢
  omega

theorem move_producing {r r' : Ring n α} (ok : r.Producing) (move : ProducerMove r r') :
    r'.Producing := by
  cases move with
  | nbFree nb => exact Ring.prodNbFree_producing nb r ok
  | reserve nb idx => exact reserve_producing nb idx ok
  | write v reserved => exact ok
  | submit _ reserved => exact submit_part_producing ok reserved
  | take taken => exact (Ring.peerTake_spec ok taken).2.2.2.2.2.2.2

theorem history_producing {r : Ring n α} (history : Reached Ring.Fresh ProducerMove r) :
    r.Producing :=
  reached_invariant Ring.Producing (fun _ => fresh_producing) (fun _ _ => move_producing) history

end SharedRing
