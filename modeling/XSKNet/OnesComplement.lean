import Mathlib.Data.Nat.ModEq
import Mathlib.Tactic.Common

/- One's complement arithmetic on 16-bit words, as the Internet checksum uses it.
   Zero has two representations, 0x0000 and 0xFFFF; a sum of words is 0x0000 only
   when every word is. -/
namespace OnesComplement

/-- Wrapping addition followed by the end-around carry. -/
def add (a b : UInt16) : UInt16 :=
  let s := a + b
  if s < b then s + 1 else s

def sum : List UInt16 → UInt16
  | [] => 0
  | w :: ws => add w (sum ws)

def Verifies (ws : List UInt16) : Prop := sum ws = 0xFFFF

instance (ws : List UInt16) : Decidable (Verifies ws) := by
  unfold Verifies
  infer_instance

theorem add_toNat (a b : UInt16) :
    (add a b).toNat = if a.toNat + b.toNat < 65536 then a.toNat + b.toNat
      else a.toNat + b.toNat - 65535 := by
  have ha := a.toNat_lt
  have hb := b.toNat_lt
  unfold add
  dsimp only
  split <;> rename_i carry <;>
    simp only [UInt16.lt_iff_toNat_lt, UInt16.toNat_add, UInt16.toNat_one] at carry ⊢ <;>
    split <;> omega

theorem add_modEq (a b : UInt16) : (add a b).toNat ≡ a.toNat + b.toNat [MOD 65535] := by
  rw [add_toNat]
  unfold Nat.ModEq
  split <;> omega

theorem add_eq_zero_iff (a b : UInt16) : add a b = 0 ↔ a = 0 ∧ b = 0 := by
  rw [← UInt16.toNat_inj, ← UInt16.toNat_inj, ← UInt16.toNat_inj, add_toNat]
  simp only [UInt16.toNat_zero]
  split <;> omega

def natSum (ws : List UInt16) : Nat := (ws.map UInt16.toNat).sum

@[simp] theorem natSum_nil : natSum [] = 0 := rfl

@[simp] theorem natSum_cons (w : UInt16) (ws : List UInt16) :
    natSum (w :: ws) = w.toNat + natSum ws := by simp [natSum]

theorem sum_modEq (ws : List UInt16) : (sum ws).toNat ≡ natSum ws [MOD 65535] := by
  induction ws with
  | nil => rfl
  | cons w ws ih =>
    rw [natSum_cons, sum]
    exact (add_modEq w (sum ws)).trans (Nat.ModEq.add_left _ ih)

theorem sum_eq_zero_iff (ws : List UInt16) : sum ws = 0 ↔ natSum ws = 0 := by
  induction ws with
  | nil => simp [sum]
  | cons w ws ih =>
    rw [sum, add_eq_zero_iff, ih, natSum_cons, ← UInt16.toNat_inj, UInt16.toNat_zero]
    omega

theorem verifies_iff (ws : List UInt16) :
    Verifies ws ↔ natSum ws % 65535 = 0 ∧ natSum ws ≠ 0 := by
  have mod := sum_modEq ws
  have zero := sum_eq_zero_iff ws
  have bound := (sum ws).toNat_lt
  unfold Verifies
  unfold Nat.ModEq at mod
  rw [← UInt16.toNat_inj, UInt16.toNat_zero] at zero
  rw [← UInt16.toNat_inj]
  change (sum ws).toNat = 65535 ↔ _
  omega

/- Checksums, and lists with one word replaced. -/

def checksum (ws : List UInt16) : UInt16 := ~~~ sum ws

theorem complement_toNat (w : UInt16) : (~~~ w).toNat = 65535 - w.toNat := by
  rw [UInt16.toNat_not]
  rfl

theorem natSum_eq_zero_iff (ws : List UInt16) : natSum ws = 0 ↔ ∀ w ∈ ws, w = 0 := by
  induction ws with
  | nil => simp
  | cons w ws ih =>
    rw [natSum_cons, List.forall_mem_cons, ← ih, ← UInt16.toNat_inj, UInt16.toNat_zero]
    omega

theorem natSum_set (ws : List UInt16) (i : Fin ws.length) (w : UInt16) :
    natSum (ws.set i w) + (ws.get i).toNat = natSum ws + w.toNat := by
  induction ws with
  | nil => exact i.elim0
  | cons head tail ih =>
    refine Fin.cases ?_ ?_ i
    · change natSum (w :: tail) + head.toNat = _
      rw [natSum_cons, natSum_cons]
      omega
    · intro j
      have rest := ih j
      change natSum (head :: tail.set j w) + (tail.get j).toNat = _
      rw [natSum_cons, natSum_cons]
      omega

/-- A word congruent to the plain sum is the one's complement sum, the choice between the two
    zeros apart. -/
theorem eq_sum_of_modEq {s : UInt16} {ws : List UInt16}
    (congruent : s.toNat ≡ natSum ws [MOD 65535]) (nonzero : s ≠ 0) :
    s = if natSum ws = 0 then 0xFFFF else sum ws := by
  have mod := congruent.trans (sum_modEq ws).symm
  have zero := sum_eq_zero_iff ws
  have bound := s.toNat_lt
  have bound' := (sum ws).toNat_lt
  unfold Nat.ModEq at mod
  rw [ne_eq, ← UInt16.toNat_inj, UInt16.toNat_zero] at nonzero
  rw [← UInt16.toNat_inj, UInt16.toNat_zero] at zero
  rw [← UInt16.toNat_inj]
  split
  · change s.toNat = 65535
    omega
  · omega

/- Octets. A message is read as big-endian words and zero-padded to even length. -/

def word (hi lo : UInt8) : UInt16 := hi.toUInt16 * 256 + lo.toUInt16

def words : List UInt8 → List UInt16
  | [] => []
  | [b] => [word b 0]
  | a :: b :: rest => word a b :: words rest

theorem word_toNat (hi lo : UInt8) : (word hi lo).toNat = 256 * hi.toNat + lo.toNat := by
  have hh := hi.toNat_lt
  have hl := lo.toNat_lt
  unfold word
  rw [UInt16.toNat_add, UInt16.toNat_mul, UInt8.toNat_toUInt16, UInt8.toNat_toUInt16]
  change (hi.toNat * 256 % 2 ^ 16 + lo.toNat) % 2 ^ 16 = _
  omega

theorem natSum_words_eq_zero_iff (m : List UInt8) :
    natSum (words m) = 0 ↔ ∀ b ∈ m, b = 0 := by
  induction m using words.induct with
  | case1 => simp [words]
  | case2 b =>
    simp only [words, natSum_cons, natSum_nil, word_toNat, List.mem_singleton, forall_eq]
    rw [← UInt8.toNat_inj, UInt8.toNat_zero]
    omega
  | case3 a b rest ih =>
    simp only [words, natSum_cons, word_toNat, List.mem_cons, forall_eq_or_imp]
    rw [← ih, ← UInt8.toNat_inj, ← UInt8.toNat_inj, UInt8.toNat_zero]
    omega

end OnesComplement
