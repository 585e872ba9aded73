import Mathlib.Data.List.Nodup
import Mathlib.Tactic.Common

/- A multimap kept in insertion order. Lookup returns the entry added last among
   those with an equal key, and deletion removes the entry that lookup returns. -/
namespace Multimap

variable {α κ : Type} (key : α → κ)

def keys (m : List α) : List κ := m.map key

def add (m : List α) (a : α) : List α := m ++ [a]

@[simp] theorem keys_add (m : List α) (a : α) : keys key (add m a) = keys key m ++ [key a] := by
  simp [keys, add]

variable [DecidableEq κ]

def find (m : List α) (k : κ) : Option α := m.reverse.find? fun a => decide (key a = k)

def del (m : List α) (k : κ) : List α :=
  (m.reverse.eraseP fun a => decide (key a = k)).reverse

theorem find_eq_none_iff (m : List α) (k : κ) : find key m k = none ↔ k ∉ keys key m := by
  simp [find, keys]

/-- Deletion takes one entry with the key out and keeps the order of the rest. -/
theorem del_split {m : List α} {k : κ} (present : k ∈ keys key m) :
    ∃ front a back, m = front ++ a :: back ∧ key a = k ∧ k ∉ keys key back ∧
      del key m k = front ++ back := by
  obtain ⟨c, member, same⟩ := List.mem_map.mp present
  obtain ⟨a, l₁, l₂, none_before, hit, split, erased⟩ := List.exists_of_eraseP
    (p := fun a => decide (key a = k)) (List.mem_reverse.mpr member) (by simpa using same)
  refine ⟨l₂.reverse, a, l₁.reverse, ?_, by simpa using hit, ?_, ?_⟩
  · rw [← List.reverse_reverse m, split]
    simp
  · simp only [keys, List.mem_map, List.mem_reverse, not_exists, not_and]
    intro b before
    simpa using none_before b before
  · rw [del, erased]
    simp

theorem del_absent {m : List α} {k : κ} (absent : k ∉ keys key m) : del key m k = m := by
  rw [del, List.eraseP_of_forall_not, List.reverse_reverse]
  intro a member
  have other : key a ≠ k := fun same =>
    absent (List.mem_map.mpr ⟨a, List.mem_reverse.mp member, same⟩)
  simpa using other

theorem del_subset (m : List α) (k : κ) : del key m k ⊆ m := by
  intro b member
  exact List.mem_reverse.mp (List.mem_of_mem_eraseP (List.mem_reverse.mp member))

theorem del_only {a : α} {front back : List α} (last : key a ∉ keys key back) :
    del key (front ++ a :: back) (key a) = front ++ back := by
  have kept : ∀ b ∈ back.reverse, ¬ (decide (key b = key a)) = true := by
    intro b member same
    exact last (List.mem_map.mpr ⟨b, List.mem_reverse.mp member, of_decide_eq_true same⟩)
  rw [del, List.reverse_append, List.reverse_cons, List.append_assoc,
    List.eraseP_append_right _ kept]
  simp

theorem del_head {a : α} {m : List α} (alone : key a ∉ keys key m) :
    del key (a :: m) (key a) = m := by
  have kept : ∀ b ∈ m.reverse, ¬ (decide (key b = key a)) = true := by
    intro b member same
    exact alone (List.mem_map.mpr ⟨b, List.mem_reverse.mp member, of_decide_eq_true same⟩)
  rw [del, List.reverse_cons, List.eraseP_append_right _ kept]
  simp

theorem mem_keys_del {m : List α} (distinct : (keys key m).Nodup) (k q : κ) :
    q ∈ keys key (del key m k) ↔ q ∈ keys key m ∧ q ≠ k := by
  by_cases present : k ∈ keys key m
  · obtain ⟨front, a, back, rfl, same, -, erased⟩ := del_split key present
    rw [erased]
    simp only [keys, List.map_append, List.map_cons, List.mem_append, List.mem_cons, same]
      at distinct ⊢
    have apart := (List.nodup_middle.mp distinct).notMem
    rw [List.mem_append, not_or] at apart
    constructor
    · rintro (left | right)
      · exact ⟨Or.inl left, fun e => apart.1 (e ▸ left)⟩
      · exact ⟨Or.inr (Or.inr right), fun e => apart.2 (e ▸ right)⟩
    · rintro ⟨left | here | right, other⟩
      · exact Or.inl left
      · exact absurd here other
      · exact Or.inr right
  · rw [del_absent key present]
    constructor
    · exact fun member => ⟨member, fun e => present (e ▸ member)⟩
    · exact fun both => both.1

theorem keys_del_nodup {m : List α} (distinct : (keys key m).Nodup) (k : κ) :
    (keys key (del key m k)).Nodup := by
  by_cases present : k ∈ keys key m
  · obtain ⟨front, a, back, rfl, -, -, erased⟩ := del_split key present
    rw [erased]
    simp only [keys, List.map_append, List.map_cons] at distinct ⊢
    exact (List.nodup_middle.mp distinct).of_cons
  · rwa [del_absent key present]

end Multimap
