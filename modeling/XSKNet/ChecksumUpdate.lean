import XSKNet.EchoReply

/- csum_replace2 of xsk_receive.c against the recomputed checksum. -/
namespace XSKChecksum
open OnesComplement XSKPacket XSKEcho

/-- csum_replace2 with the promotions of C written out: the operands of each operator are
    ints, ~old is -old - 1, and an assignment to a uint16_t reduces modulo 2^16. -/
def csumReplace2Int (sum old new : UInt16) : UInt16 :=
  let csum := UInt16.ofInt (-sum.toNat - 1)
  let csum := UInt16.ofInt (csum.toNat + (-old.toNat - 1))
  let csum := UInt16.ofInt (csum.toNat +
    if csum.toNat < (UInt16.ofInt (-old.toNat - 1)).toNat then 1 else 0)
  let csum := UInt16.ofInt (csum.toNat + new.toNat)
  let csum := UInt16.ofInt (csum.toNat + if csum.toNat < new.toNat then 1 else 0)
  UInt16.ofInt (-csum.toNat - 1)

theorem ofInt_toNat (w : UInt16) : UInt16.ofInt w.toNat = w := by
  have bound := w.toNat_lt
  rw [← UInt16.toNat_inj, UInt16.ofInt, UInt16.toNat_ofNat']
  omega

theorem ofInt_complement (w : UInt16) : UInt16.ofInt (-w.toNat - 1) = ~~~ w := by
  have bound := w.toNat_lt
  rw [← UInt16.toNat_inj, complement_toNat, UInt16.ofInt, UInt16.toNat_ofNat']
  omega

theorem ofInt_carry (a b : UInt16) :
    a + UInt16.ofInt (if a.toNat < b.toNat then 1 else 0) = if a < b then a + 1 else a := by
  by_cases carry : a.toNat < b.toNat
  · rw [if_pos carry, if_pos (UInt16.lt_iff_toNat_lt.mpr carry)]
    rfl
  · rw [if_neg carry, if_neg (mt UInt16.lt_iff_toNat_lt.mp carry)]
    exact UInt16.add_zero a

theorem csumReplace2Int_eq (sum old new : UInt16) :
    csumReplace2Int sum old new = csumReplace2 sum old new := by
  simp only [csumReplace2Int, csumReplace2, ofInt_complement, ofInt_carry, UInt16.ofInt_add,
    ofInt_toNat]

theorem replaced_modEq (ws : List UInt16) (i : Fin ws.length) (new : UInt16) :
    (add (add (sum ws) (~~~ ws.get i)) new).toNat ≡ natSum (ws.set i new) [MOD 65535] := by
  have first := add_modEq (sum ws) (~~~ ws.get i)
  have second := add_modEq (add (sum ws) (~~~ ws.get i)) new
  have old := sum_modEq ws
  have change_one := natSum_set ws i new
  have bound := (ws.get i).toNat_lt
  rw [complement_toNat] at first
  unfold Nat.ModEq at first second old ⊢
  omega

/-- It is never 0x0000: only an all-zero list has that sum, and then old is zero too. -/
theorem replaced_nonzero (ws : List UInt16) (i : Fin ws.length) (new : UInt16) :
    add (add (sum ws) (~~~ ws.get i)) new ≠ 0 := by
  intro zero
  obtain ⟨inner, -⟩ := (add_eq_zero_iff _ _).mp zero
  obtain ⟨blank, ones⟩ := (add_eq_zero_iff _ _).mp inner
  have old := (natSum_eq_zero_iff ws).mp ((sum_eq_zero_iff ws).mp blank) _ (ws.get_mem i)
  rw [old] at ones
  exact absurd ones (by decide)

/-- csum_replace2 agrees with recomputing the checksum, except that a list of zeros gets
    0x0000 where its checksum is 0xFFFF. -/
theorem csum_replace2_agrees (ws : List UInt16) (i : Fin ws.length) (new : UInt16) :
    ((∃ w ∈ ws.set i new, w ≠ 0) →
      csumReplace2 (checksum ws) (ws.get i) new = checksum (ws.set i new)) ∧
    ((∀ w ∈ ws.set i new, w = 0) →
      csumReplace2 (checksum ws) (ws.get i) new = 0x0000 ∧ checksum (ws.set i new) = 0xFFFF) := by
  have update : csumReplace2 (checksum ws) (ws.get i) new =
      ~~~ add (add (sum ws) (~~~ ws.get i)) new := by
    rw [csumReplace2_eq, checksum, UInt16.not_not]
  have result := eq_sum_of_modEq (replaced_modEq ws i new) (replaced_nonzero ws i new)
  rw [update]
  constructor
  · intro ⟨w, member, nonzero⟩
    have some_sum : natSum (ws.set i new) ≠ 0 := by
      intro zero
      exact nonzero ((natSum_eq_zero_iff _).mp zero w member)
    rw [result, if_neg some_sum, checksum]
  · intro blank
    have zero := (natSum_eq_zero_iff _).mpr blank
    rw [result, if_pos zero, checksum, (sum_eq_zero_iff _).mpr zero]
    exact ⟨rfl, rfl⟩

end XSKChecksum
