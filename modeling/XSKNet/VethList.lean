import XSKNet.CStrings
import XSKNet.Multimap
import XSKNet.Runs
import Mathlib.Data.Finset.Basic

/- The port table of veth_list.c. uthash is taken as a multimap keyed by the string in
   the entry's prefix array, so the key is the truncated copy of the caller's prefix
   while lookups compare against the whole of it. -/
namespace XSKVeth
open CStrings Runs

abbrev IFNAMSIZ : Nat := 16

def innerSuffix : CString := ⟨ascii "_inner", by decide⟩
def outerSuffix : CString := ⟨ascii "_outer", by decide⟩

def innerName (p : CString) : CString := CString.snprintf IFNAMSIZ [p, innerSuffix]
def outerName (p : CString) : CString := CString.snprintf IFNAMSIZ [p, outerSuffix]

/-- struct veth_pair; key is the prefix array of 16 bytes. -/
structure VethPair where
  key : CString
  veth1 : CString
  veth2 : CString
  fits : key.length ≤ 15
  deriving DecidableEq

abbrev VethMap := List VethPair

/-- strncpy of 15 bytes followed by the terminator. -/
def storedKey (p : CString) : CString := p.truncate 15

def newEntry (p : CString) : VethPair where
  key := storedKey p
  veth1 := innerName p
  veth2 := outerName p
  fits := CString.truncate_length_le 15 p

def hashFindStr (m : VethMap) (p : CString) : Option VethPair := Multimap.find VethPair.key m p

def vethListAdd (mallocOk : Bool) (m : VethMap) (p : CString) : Int × VethMap :=
  match hashFindStr m p with
  | some _ => (-1, m)
  | none => if mallocOk then (0, Multimap.add m (newEntry p)) else (-1, m)

def vethListRemove (m : VethMap) (p : CString) : Int × VethMap :=
  match hashFindStr m p with
  | none => (-1, m)
  | some _ => (0, Multimap.del VethPair.key m p)

def keys (m : VethMap) : List CString := Multimap.keys VethPair.key m

theorem keys_short {m : VethMap} {p : CString} (member : p ∈ keys m) : p.length ≤ 15 := by
  obtain ⟨e, -, rfl⟩ := List.mem_map.mp member
  exact e.fits

theorem not_mem_keys_of_empty {m : VethMap} (empty : m = []) (p : CString) : p ∉ keys m := by
  intro member
  rw [empty] at member
  cases member

theorem hashFindStr_eq_none_iff (m : VethMap) (p : CString) :
    hashFindStr m p = none ↔ p ∉ keys m := Multimap.find_eq_none_iff VethPair.key m p

theorem vethListAdd_registered (mallocOk : Bool) {m : VethMap} {p : CString}
    (registered : p ∈ keys m) : vethListAdd mallocOk m p = (-1, m) := by
  unfold vethListAdd
  cases found : hashFindStr m p with
  | none => exact absurd registered ((hashFindStr_eq_none_iff m p).mp found)
  | some e => rfl

theorem vethListAdd_new {m : VethMap} {p : CString} (absent : p ∉ keys m) :
    vethListAdd true m p = (0, Multimap.add m (newEntry p)) := by
  simp [vethListAdd, (hashFindStr_eq_none_iff m p).mpr absent]

theorem vethListRemove_absent {m : VethMap} {p : CString} (absent : p ∉ keys m) :
    vethListRemove m p = (-1, m) := by
  simp [vethListRemove, (hashFindStr_eq_none_iff m p).mpr absent]

theorem vethListRemove_registered {m : VethMap} {p : CString} (registered : p ∈ keys m) :
    vethListRemove m p = (0, Multimap.del VethPair.key m p) := by
  unfold vethListRemove
  cases found : hashFindStr m p with
  | none => exact absurd registered ((hashFindStr_eq_none_iff m p).mp found)
  | some e => rfl

/- The table as a set of prefixes. -/

inductive VethCall where
  | add (p : CString)
  | remove (p : CString)
  deriving DecidableEq

def VethCall.exec (m : VethMap) : VethCall → Int × VethMap
  | .add p => vethListAdd true m p
  | .remove p => vethListRemove m p

/-- The prefixes added and not since removed. -/
def VethCall.spec (s : Finset CString) : VethCall → Int × Finset CString
  | .add p => if p ∈ s then (-1, s) else (0, insert p s)
  | .remove p => if p ∈ s then (0, s.erase p) else (-1, s)

def Represents (m : VethMap) (s : Finset CString) : Prop :=
  (keys m).Nodup ∧ ∀ p, p ∈ keys m ↔ p ∈ s

def VethCall.Short : VethCall → Prop
  | .add p => p.length ≤ 15
  | .remove _ => True

theorem storedKey_of_short {p : CString} (short : p.length ≤ 15) : storedKey p = p :=
  CString.truncate_eq_self short

theorem keys_add (m : VethMap) (p : CString) :
    keys (Multimap.add m (newEntry p)) = keys m ++ [storedKey p] :=
  Multimap.keys_add VethPair.key m (newEntry p)

theorem vethListAdd_cases (mallocOk : Bool) (m : VethMap) (p : CString) :
    (vethListAdd mallocOk m p = (-1, m) ∧ (p ∈ keys m ∨ mallocOk = false)) ∨
    (vethListAdd mallocOk m p = (0, Multimap.add m (newEntry p)) ∧ p ∉ keys m ∧
      mallocOk = true) := by
  by_cases registered : p ∈ keys m
  · left
    exact ⟨vethListAdd_registered mallocOk registered, Or.inl registered⟩
  · cases mallocOk with
    | false =>
      left
      refine ⟨?_, Or.inr rfl⟩
      simp [vethListAdd, (hashFindStr_eq_none_iff m p).mpr registered]
    | true =>
      right
      exact ⟨vethListAdd_new registered, registered, rfl⟩

theorem keys_vethListAdd {mallocOk : Bool} {m : VethMap} {p q : CString}
    (member : q ∈ keys (vethListAdd mallocOk m p).2) : q ∈ keys m ∨ q = storedKey p := by
  rcases vethListAdd_cases mallocOk m p with ⟨same, -⟩ | ⟨added, -⟩
  · rw [same] at member
    exact Or.inl member
  · rw [added, keys_add] at member
    simpa using member

theorem mem_keys_vethListAdd (mallocOk : Bool) {m : VethMap} {p : CString}
    (short : p.length ≤ 15) (q : CString) :
    q ∈ keys (vethListAdd mallocOk m p).2 ↔ q ∈ keys m ∨ (mallocOk = true ∧ q = p) := by
  rcases vethListAdd_cases mallocOk m p with ⟨same, why⟩ | ⟨added, -, yes⟩
  · rw [same]
    constructor
    · exact Or.inl
    · rintro (old | ⟨yes, rfl⟩)
      · exact old
      · rcases why with registered | no
        · exact registered
        · rw [no] at yes
          cases yes
  · rw [added, keys_add, storedKey_of_short short]
    simp [yes]

theorem nodup_vethListAdd (mallocOk : Bool) {m : VethMap} {p : CString} (short : p.length ≤ 15)
    (distinct : (keys m).Nodup) : (keys (vethListAdd mallocOk m p).2).Nodup := by
  rcases vethListAdd_cases mallocOk m p with ⟨same, -⟩ | ⟨added, absent, -⟩
  · rwa [same]
  · rw [added, keys_add, storedKey_of_short short]
    apply List.nodup_append.mpr
    refine ⟨distinct, List.nodup_singleton p, ?_⟩
    intro q hq r hr e
    rw [List.mem_singleton] at hr
    exact absent (hr ▸ e ▸ hq)

theorem mem_keys_vethListRemove {m : VethMap} (distinct : (keys m).Nodup) (p q : CString) :
    q ∈ keys (vethListRemove m p).2 ↔ q ∈ keys m ∧ q ≠ p := by
  by_cases registered : p ∈ keys m
  · rw [vethListRemove_registered registered]
    exact Multimap.mem_keys_del VethPair.key distinct p q
  · rw [vethListRemove_absent registered]
    constructor
    · exact fun member => ⟨member, fun e => registered (e ▸ member)⟩
    · exact And.left

theorem nodup_vethListRemove {m : VethMap} (distinct : (keys m).Nodup) (p : CString) :
    (keys (vethListRemove m p).2).Nodup := by
  by_cases registered : p ∈ keys m
  · rw [vethListRemove_registered registered]
    exact Multimap.keys_del_nodup VethPair.key distinct p
  · rwa [vethListRemove_absent registered]

theorem add_represents {m : VethMap} {s : Finset CString} (p : CString) (short : p.length ≤ 15)
    (rep : Represents m s) :
    (VethCall.exec m (.add p)).1 = (VethCall.spec s (.add p)).1 ∧
      Represents (VethCall.exec m (.add p)).2 (VethCall.spec s (.add p)).2 := by
  obtain ⟨distinct, same⟩ := rep
  have member := @mem_keys_vethListAdd true m p short
  constructor
  · by_cases registered : p ∈ keys m
    · have present := (same p).mp registered
      simp [VethCall.exec, VethCall.spec, vethListAdd_registered true registered, present]
    · have absent : p ∉ s := fun inside => registered ((same p).mpr inside)
      simp [VethCall.exec, VethCall.spec, vethListAdd_new registered, absent]
  · refine ⟨nodup_vethListAdd true short distinct, ?_⟩
    intro q
    rw [VethCall.exec, member q, same q]
    by_cases present : p ∈ s
    · simp only [VethCall.spec, present, if_true, true_and]
      constructor
      · rintro (old | rfl)
        · exact old
        · exact present
      · exact Or.inl
    · simp only [VethCall.spec, present, if_false, true_and, Finset.mem_insert]
      exact or_comm

theorem remove_represents {m : VethMap} {s : Finset CString} (p : CString)
    (rep : Represents m s) :
    (VethCall.exec m (.remove p)).1 = (VethCall.spec s (.remove p)).1 ∧
      Represents (VethCall.exec m (.remove p)).2 (VethCall.spec s (.remove p)).2 := by
  obtain ⟨distinct, same⟩ := rep
  constructor
  · by_cases registered : p ∈ keys m
    · have present := (same p).mp registered
      simp [VethCall.exec, VethCall.spec, vethListRemove_registered registered, present]
    · have absent : p ∉ s := fun inside => registered ((same p).mpr inside)
      simp [VethCall.exec, VethCall.spec, vethListRemove_absent registered, absent]
  · refine ⟨nodup_vethListRemove distinct p, ?_⟩
    intro q
    rw [VethCall.exec, mem_keys_vethListRemove distinct p q, same q]
    by_cases present : p ∈ s
    · simp only [VethCall.spec, present, if_true, Finset.mem_erase]
      exact and_comm
    · simp only [VethCall.spec, present, if_false]
      constructor
      · exact And.left
      · exact fun inside => ⟨inside, fun e => present (e ▸ inside)⟩

theorem short_call_represents (m : VethMap) (s : Finset CString) (c : VethCall)
    (rep : Represents m s) (short : c.Short) :
    (c.exec m).1 = (c.spec s).1 ∧ Represents (c.exec m).2 (c.spec s).2 := by
  cases c with
  | add p => exact add_represents p short rep
  | remove p => exact remove_represents p rep

/-- A prefix longer than the array can enter the set but never the table. -/
theorem represented_add_short {m : VethMap} {s : Finset CString} {p : CString}
    (after : Represents (VethCall.exec m (.add p)).2 (VethCall.spec s (.add p)).2) :
    p.length ≤ 15 := by
  have member : p ∈ (VethCall.spec s (.add p)).2 := by
    by_cases present : p ∈ s
    · simp [VethCall.spec, present]
    · simp [VethCall.spec, present]
  exact keys_short ((after.2 p).mpr member)

theorem empty_represents : Represents [] ∅ := by
  constructor
  · exact List.nodup_nil
  · intro p
    simp [keys, Multimap.keys]

theorem exec_rejected {m : VethMap} {c : VethCall} (rejected : (c.exec m).1 = -1) :
    (c.exec m).2 = m := by
  cases c with
  | add p =>
    by_cases registered : p ∈ keys m
    · simp [VethCall.exec, vethListAdd_registered true registered]
    · simp [VethCall.exec, vethListAdd_new registered] at rejected
  | remove p =>
    by_cases registered : p ∈ keys m
    · simp [VethCall.exec, vethListRemove_registered registered] at rejected
    · simp [VethCall.exec, vethListRemove_absent registered]

theorem remove_takes_one {m : VethMap} {p : CString} (removed : (vethListRemove m p).1 = 0) :
    ∃ front e back, m = front ++ e :: back ∧ e.key = p ∧
      (vethListRemove m p).2 = front ++ back := by
  by_cases registered : p ∈ keys m
  · obtain ⟨front, e, back, split, same, -, rest⟩ := Multimap.del_split VethPair.key registered
    refine ⟨front, e, back, split, same, ?_⟩
    rw [vethListRemove_registered registered]
    exact rest
  · simp [vethListRemove_absent registered] at removed

/-- The whole contract over a sequence of calls from the empty table: same answers and
    same prefixes as the set at every call, a rejected call changes nothing, and a
    removal takes out one entry with the given key. -/
def RefinesSet (calls : List VethCall) : Prop :=
  Lockstep Represents VethCall.exec VethCall.spec [] ∅ calls ∧
    (∀ m c, (VethCall.exec m c).1 = -1 → (VethCall.exec m c).2 = m) ∧
    ∀ m p, (vethListRemove m p).1 = 0 → ∃ front e back,
      m = front ++ e :: back ∧ e.key = p ∧ (vethListRemove m p).2 = front ++ back

theorem table_refines_set_iff (calls : List VethCall) :
    RefinesSet calls ↔ ∀ c ∈ calls, c.Short := by
  constructor
  · rintro ⟨run, -, -⟩ c member
    cases c with
    | add p =>
      obtain ⟨m, s, -, -, after⟩ := lockstep_input run member
      exact represented_add_short after
    | remove p => exact trivial
  · intro all_short
    refine ⟨?_, fun m c => exec_rejected, fun m p => remove_takes_one⟩
    exact lockstep_of_step VethCall.Short short_call_represents calls all_short [] ∅
      empty_represents

def sixteenLetters : CString := ⟨List.replicate 16 97, by decide⟩

/-- Sixteen letters are added twice, the stored keys are equal, and a removal finds none. -/
theorem long_prefix_added_twice :
    let first := vethListAdd true [] sixteenLetters
    let second := vethListAdd true first.2 sixteenLetters
    first.1 = 0 ∧ second.1 = 0 ∧ ¬ (keys second.2).Nodup ∧
      (vethListRemove second.2 sixteenLetters).1 = -1 ∧
      ¬ ∀ calls, RefinesSet calls := by
  refine ⟨by decide, by decide, by decide, by decide, ?_⟩
  intro always
  have run := (always [.add sixteenLetters]).1
  obtain ⟨m, s, -, -, after⟩ := lockstep_input run (List.mem_singleton_self _)
  exact absurd (represented_add_short after) (by decide)

end XSKVeth
