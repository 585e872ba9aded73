import Mathlib.Data.Finset.Card
import Mathlib.Data.Finset.Range
import Mathlib.Logic.Function.Basic

/- Tables of numbered slots of which only those below a limit can be handed out, such as the
   descriptors of a process. -/
namespace Slots

variable {α : Type} {limit i : Nat} {table table' : Nat → Option α}

def taken (limit : Nat) (table : Nat → Option α) : Finset Nat :=
  (Finset.range limit).filter fun i => (table i).isSome

def inUse (limit : Nat) (table : Nat → Option α) : Nat := (taken limit table).card

theorem mem_taken : i ∈ taken limit table ↔ i < limit ∧ (table i).isSome := by
  simp [taken]

theorem inUse_le (limit : Nat) (table : Nat → Option α) : inUse limit table ≤ limit := by
  have below := Finset.card_filter_le (Finset.range limit) fun i => (table i).isSome = true
  rwa [Finset.card_range] at below

theorem inUse_mono (kept : ∀ i, (table i).isSome → (table' i).isSome) :
    inUse limit table ≤ inUse limit table' := by
  apply Finset.card_le_card
  intro i member
  obtain ⟨below, here⟩ := mem_taken.mp member
  exact mem_taken.mpr ⟨below, kept i here⟩

theorem full_of_inUse (full : inUse limit table = limit) (below : i < limit) :
    (table i).isSome := by
  have all : taken limit table = Finset.range limit := by
    apply Finset.eq_of_subset_of_card_le (Finset.filter_subset _ _)
    rw [Finset.card_range]
    exact Nat.le_of_eq full.symm
  have member : i ∈ taken limit table := by
    rw [all]
    exact Finset.mem_range.mpr below
  exact (mem_taken.mp member).2

theorem taken_set (v : α) (below : i < limit) :
    taken limit (Function.update table i (some v)) = insert i (taken limit table) := by
  ext j
  rw [Finset.mem_insert, mem_taken, mem_taken]
  by_cases same : j = i
  · subst same
    simp [below]
  · simp [same]

theorem inUse_set (v : α) (free : table i = none) (below : i < limit) :
    inUse limit (Function.update table i (some v)) = inUse limit table + 1 := by
  have fresh : i ∉ taken limit table := by
    intro member
    have here := (mem_taken.mp member).2
    rw [free] at here
    cases here
  rw [inUse, taken_set v below, Finset.card_insert_of_notMem fresh]
  rfl

theorem inUse_clear (here : (table i).isSome) (below : i < limit) :
    inUse limit (Function.update table i none) + 1 = inUse limit table := by
  obtain ⟨v, held⟩ := Option.isSome_iff_exists.mp here
  have restored : Function.update (Function.update table i none) i (some v) = table := by
    rw [Function.update_idem, ← held, Function.update_eq_self]
  have free : Function.update table i none i = none := Function.update_self ..
  rw [← inUse_set v free below, restored]

end Slots
