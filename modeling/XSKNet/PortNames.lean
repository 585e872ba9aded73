import XSKNet.PortCommands

/- The interface names in the port table. The suffix is cut at 15 bytes, so whether the two
   names of a port differ depends on the length of its prefix. -/
namespace XSKNames
open CStrings XSKVeth XSKPorts Runs

/-- veth_list_add for an allowed prefix, whatever malloc returns, or veth_list_remove. -/
inductive TableStep (allowed : CString → Prop) : VethMap → VethMap → Prop where
  | add (mallocOk : Bool) (m : VethMap) {p : CString} (ok : allowed p) :
      TableStep allowed m (vethListAdd mallocOk m p).2
  | remove (m : VethMap) (p : CString) : TableStep allowed m (vethListRemove m p).2

def NoPorts (m : VethMap) : Prop := m = []

structure NamesApart (m : VethMap) : Prop where
  within : ∀ e ∈ m, e.veth1 ≠ e.veth2
  across : ∀ e ∈ m, ∀ f ∈ m, e.key ≠ f.key →
    e.veth1 ≠ f.veth1 ∧ e.veth1 ≠ f.veth2 ∧ e.veth2 ≠ f.veth1 ∧ e.veth2 ≠ f.veth2

/-- Every entry was made by veth_list_add for an allowed prefix. -/
def Made (allowed : CString → Prop) (m : VethMap) : Prop :=
  ∀ e ∈ m, ∃ p, allowed p ∧ e = newEntry p

theorem add_made {allowed : CString → Prop} (mallocOk : Bool) {m : VethMap} {p : CString}
    (made : Made allowed m) (ok : allowed p) : Made allowed (vethListAdd mallocOk m p).2 := by
  intro e member
  rcases vethListAdd_cases mallocOk m p with ⟨same, -⟩ | ⟨added, -⟩
  · rw [same] at member
    exact made e member
  · rw [added] at member
    rcases List.mem_append.mp member with old | new
    · exact made e old
    · exact ⟨p, ok, List.mem_singleton.mp new⟩

theorem remove_made {allowed : CString → Prop} {m : VethMap} (p : CString)
    (made : Made allowed m) : Made allowed (vethListRemove m p).2 := by
  intro e member
  by_cases registered : p ∈ keys m
  · rw [vethListRemove_registered registered] at member
    exact made e (Multimap.del_subset VethPair.key m p member)
  · rw [vethListRemove_absent registered] at member
    exact made e member

theorem reached_made {allowed : CString → Prop} {m : VethMap}
    (run : Reached NoPorts (TableStep allowed) m) : Made allowed m := by
  induction run with
  | start empty =>
    intro e member
    rw [empty] at member
    cases member
  | step before next ih =>
    cases next with
    | add mallocOk m ok => exact add_made mallocOk ih ok
    | remove m p => exact remove_made p ih

/-- From 14 bytes on the cut leaves at most the underscore of the suffix. -/
theorem long_names_equal {p : CString} (long : 14 ≤ p.length) : innerName p = outerName p := by
  have long' : 14 ≤ p.bytes.length := long
  apply CString.ext_bytes
  rw [innerName_bytes, outerName_bytes, List.take_append, List.take_append]
  obtain cut | cut : 15 - p.bytes.length = 0 ∨ 15 - p.bytes.length = 1 := by omega
  · rw [cut, List.take_zero, List.take_zero]
  · rw [cut, List.take_succ_cons, List.take_succ_cons, List.take_zero, List.take_zero]

theorem newEntry_short_iff (p : CString) : (newEntry p).key.length ≤ 13 ↔ p.length ≤ 13 := by
  change ((p.bytes).take 15).length ≤ 13 ↔ p.bytes.length ≤ 13
  rw [List.length_take]
  omega

theorem made_apart_iff {allowed : CString → Prop} {m : VethMap} (made : Made allowed m) :
    NamesApart m ↔ ∀ k ∈ keys m, k.length ≤ 13 := by
  constructor
  · intro apart k member
    obtain ⟨e, inside, rfl⟩ := List.mem_map.mp member
    obtain ⟨p, -, rfl⟩ := made e inside
    by_contra long
    rw [newEntry_short_iff, Nat.not_le] at long
    exact apart.within _ inside (long_names_equal long)
  · intro short
    have short_stem : ∀ p, newEntry p ∈ m → p.length ≤ 13 := by
      intro p inside
      exact (newEntry_short_iff p).mp (short _ (List.mem_map_of_mem inside))
    constructor
    · intro e inside
      obtain ⟨p, -, rfl⟩ := made e inside
      exact inner_ne_outer (short_stem p inside) (short_stem p inside)
    · intro e inside f inside' other
      obtain ⟨p, -, rfl⟩ := made e inside
      obtain ⟨q, -, rfl⟩ := made f inside'
      have differ : p ≠ q := fun same => other (by rw [same])
      exact short_names_apart (short_stem q inside') (short_stem p inside) differ

/-- Of the tables of all runs the names are apart in just those whose keys have at most 13
    bytes, and so in every table of a run that adds no longer prefix. -/
theorem names_never_collide_iff {m : VethMap}
    (run : Reached NoPorts (TableStep fun _ => True) m) :
    (NamesApart m ↔ ∀ k ∈ keys m, k.length ≤ 13) ∧
      (Reached NoPorts (TableStep fun p => p.length ≤ 13) m → NamesApart m) := by
  have apart_iff := made_apart_iff (reached_made run)
  refine ⟨apart_iff, ?_⟩
  intro short_run
  apply apart_iff.mpr
  intro k member
  obtain ⟨e, inside, rfl⟩ := List.mem_map.mp member
  obtain ⟨p, short, rfl⟩ := reached_made short_run e inside
  exact (newEntry_short_iff p).mpr short

theorem one_port_reached (p : CString) :
    Reached NoPorts (TableStep fun _ => True) [newEntry p] :=
  Reached.step (Reached.start rfl) (TableStep.add true [] trivial)

def thirteenLetters : CString := ⟨List.replicate 13 97, by decide⟩

def otherLetters : CString := ⟨List.replicate 13 98, by decide⟩

theorem two_ports_reached :
    Reached NoPorts (TableStep fun _ => True) [newEntry thirteenLetters, newEntry otherLetters] :=
  Reached.step (one_port_reached thirteenLetters)
    (TableStep.add (p := otherLetters) true [newEntry thirteenLetters] trivial)

theorem thirteen_letters_apart :
    NamesApart [newEntry thirteenLetters, newEntry otherLetters] :=
  (names_never_collide_iff two_ports_reached).1.mpr (by decide)

def fourteenLetters : CString := ⟨List.replicate 14 97, by decide⟩

/-- One port with a prefix of fourteen letters: both its interfaces get the same name. -/
theorem fourteen_letters_collide :
    Reached NoPorts (TableStep fun _ => True) [newEntry fourteenLetters] ∧
      innerName fourteenLetters = outerName fourteenLetters ∧
      ¬ NamesApart [newEntry fourteenLetters] := by
  have same : innerName fourteenLetters = outerName fourteenLetters :=
    long_names_equal (by decide)
  refine ⟨one_port_reached fourteenLetters, same, ?_⟩
  intro apart
  exact apart.within _ (List.mem_singleton_self _) same

end XSKNames
