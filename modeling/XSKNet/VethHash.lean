import XSKNet.UthashTable
import XSKNet.Shutdown
import XSKNet.NamingRule

/- veth_list.c on uthash.h: the entries are elements of a hash with their prefix as key, in
   memory that malloc hands out and free takes back. -/
namespace XSKVethHash
open CStrings XSKVeth XSKNames XSKUthash XSKShutdown XSKNaming IntrusiveList SavedSuccessor Runs

abbrev Table := XSKUthash.State VethPair

/-- A string as keyptr, with (unsigned)strlen as keylen. -/
def keyOf (p : CString) : Key where
  bytes := p.bytes.take (p.length % 2 ^ 32)
  fits := by
    rw [List.length_take]
    omega

def hashFindStr (fuel : Nat) (s : Table) (p : CString) : Except Trap (Option Addr) :=
  hashFind hashJen fuel s (keyOf p)

def release (s : Table) (a : Addr) : Table := { s with heap := Function.update s.heap a none }

def vethListPrint (fuel : Nat) (s : Table) : Except Trap (List VethPair) := do
  let (visited, s) ← hashIter (fun current s => do
    let _ ← access (s.heap current)
    .ok s) fuel s
  access (visited.mapM fun a => (s.heap a).map Element.payload)

/-- What malloc returns for an entry, and what stands in its handle then. -/
structure NewMemory where
  address : Option Addr
  junk : UTHashHandle

def vethListAdd (malloc : Malloc) (fuel : Nat) (memory : NewMemory) (s : Table) (p : CString) :
    Except Trap (Int × Table) := do
  match ← hashFindStr fuel s p with
  | some _ => .ok (-1, s)
  | none =>
    match memory.address with
    | none => .ok (-1, s)
    | some a =>
      let s := { s with heap := Function.update s.heap a (some ⟨newEntry p, memory.junk⟩) }
      let s ← hashAddKeyptr hashJen malloc fuel s (keyOf (storedKey p)) a
      let _ ← vethListPrint fuel s
      .ok (0, s)

def vethListRemove (fuel : Nat) (s : Table) (p : CString) : Except Trap (Int × Table) := do
  let _ ← vethListPrint fuel s
  match ← hashFindStr fuel s p with
  | none => .ok (-1, s)
  | some a =>
    let s ← hashDeleteHh s a
    .ok (0, release s a)

/-- The head is passed by value: what HASH_DEL makes of it is lost, and the caller keeps the
    one it had. -/
def vethListDestroy (fuel : Nat) (s : Table) : Except Trap (List Addr × Table) := do
  let _ ← vethListPrint fuel s
  let (visited, after) ← hashIter (fun current s => do
    let s ← hashDeleteHh s current
    .ok (release s current)) fuel s
  .ok (visited, { after with head := s.head })

/-- The loop of unload_list, as far as delete_port changes the table. -/
def unloadList (fuel : Nat) (s : Table) : Except Trap (List Addr × Table) :=
  hashIter (fun current s => do
    let e ← access (s.heap current)
    let (_, s) ← vethListRemove fuel s e.payload.key
    .ok s) fuel s

def nothing : Table := ⟨none, fun _ => none⟩

/-- The memory of the table is the nodes, each an entry that veth_list_add made. -/
structure Backed (s : Table) (l : List Node) : Prop where
  holds : Holds hashJen s (l.map Node.address)
  only : ∀ a, a ∉ l.map Node.address → s.heap a = none
  core : ∀ n ∈ l, coreAt s.heap n.address = some (n.pair, keyOf n.pair.key)
  made : ∀ n ∈ l, n.pair = newEntry n.pair.key

/-- Shorter than 4 GiB, so strlen fits in an unsigned. -/
def Fits (p : CString) : Prop := p.length < 2 ^ 32

theorem keyOf_inj {p q : CString} (fits_p : Fits p) (fits_q : Fits q) (same : keyOf p = keyOf q) :
    p = q := by
  have whole : ∀ r : CString, Fits r → (keyOf r).bytes = r.bytes := by
    intro r fits
    change r.bytes.take (r.length % 2 ^ 32) = r.bytes
    rw [Nat.mod_eq_of_lt fits]
    exact List.take_length
  apply CString.ext_bytes
  rw [← whole p fits_p, same, whole q fits_q]

theorem key_fits (e : VethPair) : Fits e.key := by
  have short := e.fits
  unfold Fits
  omega

theorem newEntry_storedKey (p : CString) : newEntry (storedKey p) = newEntry p := by
  have key : storedKey (storedKey p) = storedKey p :=
    storedKey_of_short (CString.truncate_length_le 15 p)
  simp only [newEntry, key, innerName_storedKey, outerName_storedKey]

section Backing
variable {s : Table} {l : List Node}

theorem Backed.keyAt (backed : Backed s l) {n : Node} (member : n ∈ l) :
    keyAt s.heap n.address = some (keyOf n.pair.key) := by
  rw [XSKUthash.keyAt, backed.core n member]
  rfl

theorem Backed.threaded (backed : Backed s l) : Threaded Node.address s.heap l :=
  ⟨backed.holds.app, backed.holds.nodup, backed.only⟩

theorem Backed.head_eq (backed : Backed s l) :
    s.head.map UTHash.head = head Node.address l := by
  rw [backed.holds.head_eq, List.head?_map]
  rfl

theorem backed_nothing : Backed nothing [] where
  holds := rfl
  only _ _ := rfl
  core n member := by cases member
  made n member := by cases member

theorem hashFindStr_ok (backed : Backed s l) {p : CString} (fits : Fits p) {fuel : Nat}
    (enough : l.length < fuel) :
    ∃ out, hashFindStr fuel s p = .ok out ∧ (out = none ↔ p ∉ keys (l.map Node.pair)) ∧
      ∀ a, out = some a → ∃ n ∈ l, n.address = a ∧ n.pair.key = p := by
  obtain ⟨out, found, absent, present⟩ :=
    hashFind_ok backed.holds (keyOf p) (by rwa [List.length_map])
  have same : ∀ n ∈ l, (XSKUthash.keyAt s.heap n.address = some (keyOf p) ↔ n.pair.key = p) := by
    intro n member
    rw [backed.keyAt member]
    constructor
    · exact fun e => keyOf_inj (key_fits n.pair) fits (Option.some.inj e)
    · exact fun e => by rw [e]
  refine ⟨out, found, ?_, ?_⟩
  · rw [absent, ← node_keys]
    constructor
    · intro nowhere registered
      obtain ⟨n, member, here⟩ := List.mem_map.mp registered
      exact nowhere _ (List.mem_map_of_mem member) ((same n member).mpr here)
    · intro unregistered a inside hit
      obtain ⟨n, member, rfl⟩ := List.mem_map.mp inside
      exact unregistered (List.mem_map.mpr ⟨n, member, (same n member).mp hit⟩)
  · intro a out_a
    obtain ⟨inside, hit⟩ := present a out_a
    obtain ⟨n, member, rfl⟩ := List.mem_map.mp inside
    exact ⟨n, member, rfl, (same n member).mp hit⟩

theorem vethListPrint_ok (backed : Backed s l) {fuel : Nat} (enough : l.length < fuel) :
    vethListPrint fuel s = .ok (l.map Node.pair) := by
  have pairs : (l.map Node.address).mapM (fun a => (s.heap a).map Element.payload) =
      some (l.map Node.pair) := by
    have each : ∀ n ∈ l, (s.heap n.address).map Element.payload = some n.pair := by
      intro n member
      have view := congrArg (Option.map Prod.fst) (backed.core n member)
      rw [coreAt, Option.map_map, Option.map_some] at view
      exact view
    clear backed enough
    induction l with
    | nil => rfl
    | cons n rest ih =>
      have later := ih fun m member => each m (List.mem_cons_of_mem n member)
      rw [List.map_cons, List.mapM_cons, each n List.mem_cons_self, later]
      rfl
  have walk := hashIter_follows Node.address (fun s' l' => s' = s ∧ l' = l)
    (fun current s => do
      let _ ← access (s.heap current)
      .ok s) (fun _ l => l)
    (by
      rintro s' l' ⟨rfl, rfl⟩
      exact backed.threaded)
    (by
      rintro s' l' n ⟨rfl, rfl⟩ member
      obtain ⟨e, record, -⟩ := Option.map_eq_some_iff.mp (backed.core n member)
      refine ⟨s', ?_, rfl, rfl⟩
      simp only [record, access_some, ok_bind])
    (by
      intro s' a gone
      simp only [gone]
      rfl)
    ⟨rfl, rfl⟩ backed.head_eq fuel
  have visited := loop_keeps Node.address [] l backed.holds.nodup enough
  rw [List.nil_append] at visited
  rw [visited] at walk
  obtain ⟨s', run, rfl, -⟩ := walk
  simp only [vethListPrint, run, ok_bind, pairs, access_some]

theorem add_backed (backed : Backed s l) (malloc : Malloc) {fuel : Nat}
    (enough : l.length + 1 < fuel) {a : Addr} (fresh : s.heap a = none) (junk : UTHashHandle)
    (p : CString) :
    let grown : Table :=
      { s with heap := Function.update s.heap a (some ⟨newEntry p, junk⟩) }
    (hashAddKeyptr hashJen malloc fuel grown (keyOf (storedKey p)) a = .error .exited ∧
      OutOfMemory hashJen malloc s (keyOf (storedKey p))) ∨
    ∃ s', hashAddKeyptr hashJen malloc fuel grown (keyOf (storedKey p)) a = .ok s' ∧
      Backed s' (l ++ [⟨a, newEntry p⟩]) := by
  intro grown
  have outsider : a ∉ l.map Node.address := by
    intro member
    obtain ⟨n, inside, rfl⟩ := List.mem_map.mp member
    have core := backed.core n inside
    rw [coreAt, fresh] at core
    cases core
  have apart : ∀ b ∈ l.map Node.address, b ≠ a := fun b member same => outsider (same ▸ member)
  have holds : Holds hashJen grown (l.map Node.address) :=
    backed.holds.congr fun b member => Function.update_of_ne (apart b member) _ _
  have live : grown.heap a = some ⟨newEntry p, junk⟩ := Function.update_self _ _ _
  rcases hashAddKeyptr_ok malloc holds outsider live (keyOf (storedKey p))
    (by rwa [List.length_map]) with stop | ⟨s', run, after, core⟩
  · exact Or.inl stop
  · right
    have kept : ∀ b, b ≠ a → coreAt s'.heap b = coreAt s.heap b := by
      intro b other
      have same : grown.heap b = s.heap b := Function.update_of_ne other _ _
      rw [core, Function.update_of_ne other, coreAt, same]
      rfl
    refine ⟨s', run, by rw [List.map_append]; exact after, ?_, ?_, ?_⟩
    · intro b absent
      rw [List.map_append, List.map_singleton, List.mem_append, List.mem_singleton, not_or]
        at absent
      have gone : coreAt s'.heap b = none := by
        rw [kept b absent.2, coreAt, backed.only b absent.1]
        rfl
      exact Option.map_eq_none_iff.mp gone
    · intro n member
      rw [List.mem_append, List.mem_singleton] at member
      rcases member with old | rfl
      · rw [kept n.address (apart _ (List.mem_map_of_mem old))]
        exact backed.core n old
      · rw [core]
        exact Function.update_self _ _ _
    · intro n member
      rw [List.mem_append, List.mem_singleton] at member
      rcases member with old | rfl
      · exact backed.made n old
      · exact (newEntry_storedKey p).symm

theorem vethListAdd_ok (backed : Backed s l) (malloc : Malloc) {fuel : Nat}
    (enough : l.length + 1 < fuel) (memory : NewMemory)
    (fresh : ∀ a, memory.address = some a → s.heap a = none) {p : CString} (fits : Fits p) :
    (vethListAdd malloc fuel memory s p = .error .exited ∧
      OutOfMemory hashJen malloc s (keyOf (storedKey p))) ∨
    ∃ s', vethListAdd malloc fuel memory s p =
        .ok ((XSKVeth.vethListAdd memory.address.isSome (l.map Node.pair) p).1, s') ∧
      Backed s' (addNode memory.address.isSome (memory.address.getD 0) p l) := by
  obtain ⟨out, found, absent, -⟩ := hashFindStr_ok backed fits (Nat.lt_of_succ_lt enough)
  unfold vethListAdd addNode
  rw [found]
  simp only [ok_bind]
  cases out with
  | some b =>
    right
    have registered : p ∈ keys (l.map Node.pair) := by
      by_contra unregistered
      cases absent.mpr unregistered
    rw [vethListAdd_registered _ registered]
    rw [← node_keys] at registered
    cases hit : Multimap.find nodeKey l p with
    | none => exact absurd registered ((Multimap.find_eq_none_iff nodeKey l p).mp hit)
    | some n => exact ⟨s, rfl, backed⟩
  | none =>
    have unregistered := absent.mp rfl
    have miss : Multimap.find nodeKey l p = none := by
      rw [Multimap.find_eq_none_iff, node_keys]
      exact unregistered
    rw [miss]
    cases given : memory.address with
    | none =>
      right
      refine ⟨s, ?_, backed⟩
      simp [XSKVeth.vethListAdd, (hashFindStr_eq_none_iff _ p).mpr unregistered]
    | some a =>
      rcases add_backed backed malloc enough (fresh a given) memory.junk p with
        ⟨stop, short⟩ | ⟨s', run, after⟩
      · left
        simp only [stop]
        exact ⟨rfl, short⟩
      · right
        have longer : (l ++ [(⟨a, newEntry p⟩ : Node)]).length < fuel := by simpa using enough
        have printed := vethListPrint_ok after longer
        refine ⟨s', ?_, after⟩
        rw [Option.isSome_some, vethListAdd_new unregistered]
        simp only [run, ok_bind, printed]

theorem remove_backed (backed : Backed s l) {front back : List Node} {n : Node}
    (split : l = front ++ n :: back) :
    ∃ s', hashDeleteHh s n.address = .ok s' ∧ Backed (release s' n.address) (front ++ back) := by
  have member : n.address ∈ l.map Node.address := by
    rw [split]
    simp
  obtain ⟨s', run, after, core⟩ := hashDeleteHh_ok backed.holds member
  have distinct := backed.holds.nodup
  rw [split, List.map_append, List.map_cons] at distinct
  have apart := List.nodup_cons.mp (List.nodup_middle.mp distinct)
  rw [List.mem_append, not_or] at apart
  have erased : (l.map Node.address).erase n.address = (front ++ back).map Node.address := by
    rw [split, List.map_append, List.map_cons, List.erase_append_right _ apart.1.1,
      List.erase_cons_head, List.map_append]
  rw [erased] at after
  have other : ∀ b ∈ (front ++ back).map Node.address, b ≠ n.address := by
    intro b inside same
    rw [List.map_append, List.mem_append, same] at inside
    exact inside.elim apart.1.1 apart.1.2
  have inside : ∀ m ∈ front ++ back, m ∈ l := by
    intro m part
    rw [split]
    simp at part ⊢
    tauto
  refine ⟨s', run, after.congr fun b part => Function.update_of_ne (other b part) _ _, ?_, ?_, ?_⟩
  · intro b absent
    by_cases here : b = n.address
    · rw [here]
      exact Function.update_self _ _ _
    · have gone : coreAt s'.heap b = none := by
        rw [core, coreAt, backed.only b]
        · rfl
        · rw [split]
          simp [here] at absent ⊢
          exact absent
      exact (Function.update_of_ne here _ _).trans (Option.map_eq_none_iff.mp gone)
  · intro m part
    have apart_m := other m.address (List.mem_map_of_mem part)
    change ((Function.update s'.heap n.address none) m.address).map _ = _
    rw [Function.update_of_ne apart_m]
    change coreAt s'.heap m.address = _
    rw [core]
    exact backed.core m (inside m part)
  · exact fun m part => backed.made m (inside m part)

theorem vethListRemove_ok (backed : Backed s l) {fuel : Nat} (enough : l.length < fuel)
    {p : CString} (fits : Fits p) :
    (p ∉ keys (l.map Node.pair) ∧ vethListRemove fuel s p = .ok (-1, s)) ∨
    ∃ front n back s', l = front ++ n :: back ∧ n.pair.key = p ∧
      vethListRemove fuel s p = .ok (0, s') ∧ Backed s' (front ++ back) := by
  obtain ⟨out, found, absent, present⟩ := hashFindStr_ok backed fits enough
  have printed := vethListPrint_ok backed enough
  unfold vethListRemove
  rw [printed, ok_bind, found, ok_bind]
  cases out with
  | none => exact Or.inl ⟨absent.mp rfl, rfl⟩
  | some a =>
    right
    obtain ⟨n, member, rfl, key⟩ := present a rfl
    obtain ⟨front, back, split⟩ := List.append_of_mem member
    obtain ⟨s', run, after⟩ := remove_backed backed split
    refine ⟨front, n, back, release s' n.address, split, key, ?_, after⟩
    dsimp only
    rw [run]
    rfl

end Backing

/- Runs of calls, on the heap and on the table of entries. -/

inductive HashCall where
  | add (malloc : Malloc) (memory : NewMemory) (p : CString)
  | remove (p : CString)

def HashCall.given : HashCall → CString
  | .add _ _ p => p
  | .remove p => p

def HashCall.exec (fuel : Nat) (s : Table) : HashCall → Except Trap (Int × Table)
  | .add malloc memory p => vethListAdd malloc fuel memory s p
  | .remove p => vethListRemove fuel s p

def HashCall.onEntries (m : VethMap) : HashCall → Int × VethMap
  | .add _ memory p => XSKVeth.vethListAdd memory.address.isSome m p
  | .remove p => XSKVeth.vethListRemove m p

def HashCall.Fresh (s : Table) : HashCall → Prop
  | .add _ memory _ => ∀ a, memory.address = some a → s.heap a = none
  | .remove _ => True

def HashCall.Refused (s : Table) : HashCall → Prop
  | .add malloc _ p => OutOfMemory hashJen malloc s (keyOf (storedKey p))
  | .remove _ => False

inductive Called (allowed : CString → Prop) : Table × VethMap → Table × VethMap → Prop where
  | call {s s' : Table} {m : VethMap} {c : HashCall} {fuel : Nat} {r : Int}
      (ok : allowed c.given) (fresh : c.Fresh s) (enough : m.length + 1 < fuel)
      (done : c.exec fuel s = .ok (r, s')) : Called allowed (s, m) (s', (c.onEntries m).2)

def Nothing (t : Table × VethMap) : Prop := t = (nothing, [])

def Short (p : CString) : Prop := p.length ≤ 15

/-- The heap has the entries, in some order. -/
def Mirrors (s : Table) (m : VethMap) : Prop :=
  ∃ l, Backed s l ∧ (l.map Node.pair).Perm m

/-- The heap has the entries in their order, and no two have the same key. -/
def Copies (s : Table) (m : VethMap) : Prop :=
  ∃ l, Backed s l ∧ l.map Node.pair = m ∧ (keys m).Nodup

theorem keys_perm {m m' : VethMap} (perm : m.Perm m') (p : CString) : p ∈ keys m ↔ p ∈ keys m' :=
  (perm.map VethPair.key).mem_iff

theorem vethListAdd_perm (mallocOk : Bool) {m m' : VethMap} (perm : m.Perm m') (p : CString) :
    (XSKVeth.vethListAdd mallocOk m p).1 = (XSKVeth.vethListAdd mallocOk m' p).1 ∧
      (XSKVeth.vethListAdd mallocOk m p).2.Perm (XSKVeth.vethListAdd mallocOk m' p).2 := by
  by_cases registered : p ∈ keys m
  · rw [vethListAdd_registered mallocOk registered,
      vethListAdd_registered mallocOk ((keys_perm perm p).mp registered)]
    exact ⟨rfl, perm⟩
  · have also : p ∉ keys m' := fun member => registered ((keys_perm perm p).mpr member)
    cases mallocOk with
    | false =>
      have none_here := (hashFindStr_eq_none_iff m p).mpr registered
      have none_there := (hashFindStr_eq_none_iff m' p).mpr also
      simp only [XSKVeth.vethListAdd, none_here, none_there]
      exact ⟨rfl, perm⟩
    | true =>
      rw [vethListAdd_new registered, vethListAdd_new also]
      exact ⟨rfl, perm.append_right _⟩

/-- Entries with the same key are equal, so it does not matter which one goes. -/
theorem removed_perm {l front back : List Node} {n : Node} {m : VethMap}
    (made : ∀ n ∈ l, n.pair = newEntry n.pair.key) (perm : (l.map Node.pair).Perm m)
    (split : l = front ++ n :: back) :
    XSKVeth.vethListRemove m n.pair.key = (0, Multimap.del VethPair.key m n.pair.key) ∧
      ((front ++ back).map Node.pair).Perm (Multimap.del VethPair.key m n.pair.key) := by
  have inside : n.pair ∈ m := perm.mem_iff.mp (List.mem_map_of_mem (by rw [split]; simp))
  have registered : n.pair.key ∈ keys m := List.mem_map_of_mem inside
  refine ⟨vethListRemove_registered registered, ?_⟩
  obtain ⟨f, e, b, parts, same, -, rest⟩ := Multimap.del_split VethPair.key registered
  have same_entry : e = n.pair := by
    have member : e ∈ l.map Node.pair := perm.mem_iff.mpr (by rw [parts]; simp)
    obtain ⟨k, old, rfl⟩ := List.mem_map.mp member
    rw [made k old, made n (by rw [split]; simp), same]
  have both : (n.pair :: (front ++ back).map Node.pair).Perm (n.pair :: (f ++ b)) := by
    have left : (n.pair :: (front ++ back).map Node.pair).Perm (l.map Node.pair) := by
      rw [split]
      simpa using List.perm_middle.symm
    have right : m.Perm (n.pair :: (f ++ b)) := by
      rw [parts, same_entry]
      exact List.perm_middle
    exact (left.trans perm).trans right
  rw [rest]
  exact both.cons_inv

theorem exec_mirrors {s : Table} {m : VethMap} (mirrors : Mirrors s m) {c : HashCall}
    (fits : Fits c.given) (fresh : c.Fresh s) {fuel : Nat} (enough : m.length + 1 < fuel) :
    (c.exec fuel s = .error .exited ∧ c.Refused s) ∨
    ∃ s', c.exec fuel s = .ok ((c.onEntries m).1, s') ∧ Mirrors s' (c.onEntries m).2 := by
  obtain ⟨l, backed, perm⟩ := mirrors
  have size : l.length = m.length := by
    have same := perm.length_eq
    rwa [List.length_map] at same
  rw [← size] at enough
  cases c with
  | add malloc memory p =>
    change Fits p at fits
    rcases vethListAdd_ok backed malloc enough memory fresh fits with stop | ⟨s', run, after⟩
    · exact Or.inl stop
    · right
      obtain ⟨code, entries⟩ := vethListAdd_perm memory.address.isSome perm p
      rw [code] at run
      refine ⟨s', run, _, after, ?_⟩
      rw [addNode_pairs]
      exact entries
  | remove p =>
    right
    change Fits p at fits
    rcases vethListRemove_ok backed (Nat.lt_of_succ_lt enough) fits with
      ⟨absent, run⟩ | ⟨front, n, back, s', split, rfl, run, after⟩
    · have also : p ∉ keys m := fun member => absent ((keys_perm perm p).mpr member)
      refine ⟨s, ?_, ?_⟩
      · simp only [HashCall.exec, HashCall.onEntries, vethListRemove_absent also, run]
      · simp only [HashCall.onEntries, vethListRemove_absent also]
        exact ⟨l, backed, perm⟩
    · obtain ⟨answer, left⟩ := removed_perm backed.made perm split
      refine ⟨s', ?_, ?_⟩
      · simp only [HashCall.exec, HashCall.onEntries, answer, run]
      · simp only [HashCall.onEntries, answer]
        exact ⟨_, after, left⟩

theorem reached_mirrors {t : Table × VethMap} (run : Reached Nothing (Called Fits) t) :
    Mirrors t.1 t.2 := by
  induction run with
  | start begin =>
    rw [begin]
    exact ⟨[], backed_nothing, List.Perm.refl []⟩
  | step before next ih =>
    cases next with
    | @call s s' m c fuel r ok fresh enough done =>
      rcases exec_mirrors ih ok fresh enough with ⟨stop, -⟩ | ⟨s'', run, after⟩
      · rw [done] at stop
        cases stop
      · rw [done] at run
        obtain ⟨-, rfl⟩ := Prod.mk.inj (Except.ok.inj run)
        exact after

theorem exec_copies {s s' : Table} {m : VethMap} (copies : Copies s m) {c : HashCall}
    (short : Short c.given) (fresh : c.Fresh s) {fuel : Nat} (enough : m.length + 1 < fuel)
    {r : Int} (done : c.exec fuel s = .ok (r, s')) : Copies s' (c.onEntries m).2 := by
  obtain ⟨l, backed, rfl, distinct⟩ := copies
  rw [List.length_map] at enough
  cases c with
  | add malloc memory p =>
    change p.length ≤ 15 at short
    have fits : Fits p := by unfold Fits; omega
    rcases vethListAdd_ok backed malloc enough memory fresh fits with ⟨stop, -⟩ | ⟨s'', run, after⟩
    · rw [HashCall.exec, stop] at done
      cases done
    · rw [HashCall.exec, run] at done
      obtain ⟨-, rfl⟩ := Prod.mk.inj (Except.ok.inj done)
      exact ⟨_, after, addNode_pairs _ _ p l, nodup_vethListAdd _ short distinct⟩
  | remove p =>
    change p.length ≤ 15 at short
    have fits : Fits p := by unfold Fits; omega
    rcases vethListRemove_ok backed (Nat.lt_of_succ_lt enough) fits with
      ⟨absent, run⟩ | ⟨front, n, back, s'', split, rfl, run, after⟩
    · rw [HashCall.exec, run] at done
      obtain ⟨-, rfl⟩ := Prod.mk.inj (Except.ok.inj done)
      refine ⟨l, backed, ?_, nodup_vethListRemove distinct p⟩
      rw [HashCall.onEntries, vethListRemove_absent absent]
    · rw [HashCall.exec, run] at done
      obtain ⟨-, rfl⟩ := Prod.mk.inj (Except.ok.inj done)
      refine ⟨_, after, ?_, nodup_vethListRemove distinct _⟩
      -- the only entry with the key is the one that was found
      have alone : n.pair.key ∉ keys (back.map Node.pair) := by
        rw [split, List.map_append, List.map_cons] at distinct
        unfold XSKVeth.keys Multimap.keys at distinct ⊢
        rw [List.map_append, List.map_cons] at distinct
        have apart := (List.nodup_cons.mp (List.nodup_middle.mp distinct)).1
        rw [List.mem_append, not_or] at apart
        exact apart.2
      have registered : n.pair.key ∈ keys (l.map Node.pair) := by
        rw [split]
        exact List.mem_map_of_mem (by simp)
      rw [HashCall.onEntries, vethListRemove_registered registered, split, List.map_append,
        List.map_append, List.map_cons, Multimap.del_only VethPair.key alone]

theorem reached_copies {t : Table × VethMap} (run : Reached Nothing (Called Short) t) :
    Copies t.1 t.2 := by
  induction run with
  | start begin =>
    rw [begin]
    exact ⟨[], backed_nothing, rfl, List.nodup_nil⟩
  | step before next ih =>
    cases next with
    | call ok fresh enough done => exact exec_copies ih ok fresh enough done

/- The two loops that release every entry. -/

theorem backed_nil {s : Table} (backed : Backed s []) : s = nothing := by
  have holds := backed.holds
  unfold Holds at holds
  cases head : s.head with
  | some u =>
    rw [head] at holds
    cases holds.head
  | none =>
    have heap : s.heap = fun _ => none := funext fun a => backed.only a List.not_mem_nil
    cases s
    cases head
    cases heap
    rfl

theorem vethListDestroy_ok {s : Table} {l : List Node} (backed : Backed s l) {fuel : Nat}
    (enough : l.length < fuel) :
    vethListDestroy fuel s = .ok (l.map Node.address, ⟨s.head, fun _ => none⟩) := by
  have walk := hashIter_follows Node.address Backed
    (fun current s => do
      let s ← hashDeleteHh s current
      .ok (release s current))
    (fun current l => l.eraseP fun n => decide (n.address = current.address))
    (fun s' l' back => back.threaded)
    (by
      intro s' l' n back' member
      obtain ⟨front, back, split⟩ := List.append_of_mem member
      obtain ⟨s'', run, after⟩ := remove_backed back' split
      have distinct := back'.holds.nodup
      rw [split, List.map_append, List.map_cons] at distinct
      have kept : ∀ b ∈ front, ¬ (decide (b.address = n.address)) = true := by
        intro b inside same
        have here : b.address = n.address := of_decide_eq_true same
        exact (List.nodup_append.mp distinct).2.2 _ (List.mem_map_of_mem inside) _
          List.mem_cons_self here
      refine ⟨release s'' n.address, by rw [run]; rfl, ?_⟩
      rw [split, List.eraseP_append_right _ kept, List.eraseP_cons_of_pos (by simp)]
      exact after)
    (by
      intro s' a gone
      unfold hashDeleteHh
      cases s'.head with
      | none => rfl
      | some u =>
        simp only [gone]
        rfl)
    backed backed.head_eq fuel
  have cleared : loop Node.address
      (fun current l => l.eraseP fun n => decide (n.address = current.address)) fuel l
      (head Node.address l) (head Node.address l.tail) = .finished l [] := by
    apply loop_clears Node.address _ enough
    intro n rest suffix
    exact List.eraseP_cons_of_pos (by simp)
  rw [cleared] at walk
  obtain ⟨s', run, after⟩ := walk
  rw [backed_nil after] at run
  simp only [vethListDestroy, vethListPrint_ok backed enough, ok_bind]
  rw [run]
  rfl

/-- The caller's head points to an entry that was freed, so its next walk reads it. -/
theorem freed_walk_stuck {s : Table} {u : UTHash} (head : s.head = some u) (fuel : Nat) :
    vethListPrint fuel ⟨s.head, fun _ => none⟩ = .error .stuck := by
  rw [head]
  rfl

theorem Backed.empty_iff {s : Table} {l : List Node} (backed : Backed s l) :
    s.head = none ↔ l = [] := by
  have same := backed.head_eq
  cases l with
  | nil =>
    cases head : s.head with
    | none => simp
    | some u =>
      rw [head] at same
      cases same
  | cons n rest =>
    cases head : s.head with
    | none =>
      rw [head] at same
      cases same
    | some u => simp

theorem unloadList_ok {s : Table} {l : List Node} (backed : Backed s l)
    (distinct : (keys (l.map Node.pair)).Nodup) {fuel : Nat} (enough : l.length < fuel) :
    unloadList fuel s = .ok (l.map Node.address, nothing) := by
  rw [← node_keys] at distinct
  have walk := hashIter_follows Node.address
    (fun s l => Backed s l ∧ (Multimap.keys nodeKey l).Nodup ∧ l.length < fuel)
    (fun current s => do
      let e ← access (s.heap current)
      let (_, s) ← vethListRemove fuel s e.payload.key
      .ok s)
    (deleteKey nodeKey)
    (fun s' l' state => state.1.threaded)
    (by
      rintro s' l' n ⟨back', unique, short⟩ member
      obtain ⟨e, record, view⟩ := Option.map_eq_some_iff.mp (back'.core n member)
      have payload : e.payload = n.pair := congrArg Prod.fst view
      have registered : n.pair.key ∈ keys (l'.map Node.pair) := by
        rw [← node_keys]
        exact List.mem_map_of_mem member
      rcases vethListRemove_ok back' short (key_fits n.pair) with
        ⟨absent, -⟩ | ⟨front, m, back, s'', split, same, run, after⟩
      · exact absurd registered absent
      · have unique' := unique
        rw [split] at unique'
        unfold Multimap.keys at unique'
        rw [List.map_append, List.map_cons] at unique'
        have apart := (List.nodup_cons.mp (List.nodup_middle.mp unique')).1
        rw [List.mem_append, not_or] at apart
        have gone : deleteKey nodeKey n l' = front ++ back := by
          rw [deleteKey, split, show nodeKey n = nodeKey m from same.symm]
          exact Multimap.del_only nodeKey apart.2
        refine ⟨s'', ?_, ?_, ?_, ?_⟩
        · simp only [record, access_some, ok_bind, payload, run]
        · rw [gone]
          exact after
        · exact Multimap.keys_del_nodup nodeKey unique _
        · rw [gone]
          rw [split] at short
          simp at short ⊢
          omega)
    (by
      intro s' a gone
      simp only [gone]
      rfl)
    ⟨backed, distinct, enough⟩ backed.head_eq fuel
  have cleared : loop Node.address (deleteKey nodeKey) fuel l (head Node.address l)
      (head Node.address l.tail) = .finished l [] := by
    apply loop_clears Node.address _ enough
    intro n rest suffix
    apply Multimap.del_head
    have keys_suffix : Multimap.keys nodeKey (n :: rest) <:+ Multimap.keys nodeKey l :=
      suffix.map nodeKey
    exact (List.nodup_cons.mp (List.Nodup.sublist keys_suffix.sublist distinct)).1
  rw [cleared] at walk
  obtain ⟨s', run, after, -, -⟩ := walk
  rw [backed_nil after] at run
  exact run

/- Runs that can be computed. -/

def HashCall.fresh (s : Table) : HashCall → Bool
  | .add _ memory _ => memory.address.all fun a => (s.heap a).isNone
  | .remove _ => true

def nextCall (letters fuel : Nat) (t : Table × VethMap) (c : HashCall) :
    Option (Table × VethMap) :=
  if c.given.length ≤ letters ∧ c.fresh t.1 = true ∧ t.2.length + 1 < fuel then
    match c.exec fuel t.1 with
    | .ok (_, s) => some (s, (c.onEntries t.2).2)
    | .error _ => none
  else none

theorem fresh_of_true {s : Table} {c : HashCall} (fresh : c.fresh s = true) : c.Fresh s := by
  cases c with
  | remove p => trivial
  | add malloc memory p =>
    intro a given
    rw [HashCall.fresh, given] at fresh
    exact Option.isNone_iff_eq_none.mp fresh

theorem nextCall_called {letters fuel : Nat} {allowed : CString → Prop}
    (within : ∀ p : CString, p.length ≤ letters → allowed p) {t t' : Table × VethMap}
    {c : HashCall} (next : nextCall letters fuel t c = some t') : Called allowed t t' := by
  unfold nextCall at next
  split at next
  · rename_i ok
    obtain ⟨short, fresh, enough⟩ := ok
    split at next
    · rename_i r s done
      cases next
      exact Called.call (within _ short) (fresh_of_true fresh) enough done
    · cases next
  · cases next

theorem calls_reached {letters fuel : Nat} {allowed : CString → Prop}
    (within : ∀ p : CString, p.length ≤ letters → allowed p) {calls : List HashCall}
    {t : Table × VethMap} (run : calls.foldlM (nextCall letters fuel) (nothing, []) = some t) :
    Reached Nothing (Called allowed) t := by
  have begin : Reached Nothing (fun s t => ∃ c, nextCall letters fuel s c = some t)
      (nothing, []) := Reached.start rfl
  exact reached_mono (fun _ _ ⟨_, next⟩ => nextCall_called within next)
    (reached_events begin run)

def giving (some_memory : Bool) : Malloc where
  gives size := some_memory && decide (size < 2 ^ 36)
  bounded size large := by rw [decide_eq_false (Nat.not_lt.mpr large), Bool.and_false]

def longPrefix : CString := ⟨ascii "aaaaaaaaaaaaaaaa", by decide⟩

def garbage : UTHashHandle := ⟨some 1, none, some 2, some 3, ⟨[1], by decide⟩, 5⟩

def equalKeys (n : Nat) : List HashCall :=
  (List.range n).map fun a => .add (giving true) ⟨some a, garbage⟩ longPrefix

/-- The check of HASH_DEBUG passes after every run, and no call reads or writes memory that
    is not an entry in use; a call ends the process only for lack of memory. -/
theorem hash_integrity {t : Table × VethMap} (run : Reached Nothing (Called Fits) t) :
    (∀ fuel, t.2.length < fuel → hashFsck fuel t.1 = .ok true) ∧
    ∀ (c : HashCall) fuel, Fits c.given → c.Fresh t.1 → t.2.length + 1 < fuel →
      c.exec fuel t.1 ≠ .error .stuck ∧ (c.exec fuel t.1 = .error .exited → c.Refused t.1) := by
  have mirrors := reached_mirrors run
  constructor
  · intro fuel enough
    obtain ⟨l, backed, perm⟩ := mirrors
    apply hashFsck_ok backed.holds
    have size := perm.length_eq
    rw [List.length_map] at size ⊢
    omega
  · intro c fuel fits fresh enough
    rcases exec_mirrors mirrors fits fresh enough with ⟨stop, short⟩ | ⟨s', ok, -⟩
    · rw [stop]
      exact ⟨nofun, fun _ => short⟩
    · rw [ok]
      exact ⟨nofun, nofun⟩

theorem fits_of_length (p : CString) (short : p.length ≤ 16) : Fits p := by
  unfold Fits
  omega

theorem computed_reached {letters fuel : Nat} {allowed : CString → Prop}
    (within : ∀ p : CString, p.length ≤ letters → allowed p) {calls : List HashCall}
    {check : Table × VethMap → Bool}
    (computed : (calls.foldlM (nextCall letters fuel) (nothing, [])).any check = true) :
    ∃ t, Reached Nothing (Called allowed) t ∧ check t = true := by
  cases run : calls.foldlM (nextCall letters fuel) (nothing, []) with
  | none =>
    rw [run] at computed
    cases computed
  | some t =>
    rw [run] at computed
    exact ⟨t, calls_reached within run, computed⟩

theorem keys_length (m : VethMap) : (keys m).length = m.length := List.length_map _

def exits {α : Type} : Except Trap α → Bool
  | .error .exited => true
  | _ => false

theorem exits_eq {α : Type} {x : Except Trap α} (ends : exits x = true) : x = .error .exited := by
  cases x with
  | ok y => cases ends
  | error e =>
    cases e with
    | exited => rfl
    | stuck => cases ends

def starved : HashCall := .add (giving false) ⟨some 9, garbage⟩ longPrefix

/-- The tenth entry with one stored key doubles the buckets, and the table passes the check.
    With no memory left the call that adds it ends the process, for want of the new buckets. -/
theorem hash_integrity_after_expansion :
    ∃ s t : Table × VethMap, keys s.2 = List.replicate 9 (storedKey longPrefix) ∧
      bucketsOf s.1 = 32 ∧ starved.exec 12 s.1 = .error .exited ∧ starved.Refused s.1 ∧
      keys t.2 = List.replicate 10 (storedKey longPrefix) ∧ bucketsOf t.1 = 64 ∧
      hashFsck 11 t.1 = .ok true ∧
      vethListRemove 12 t.1 (storedKey longPrefix) ≠ .error .stuck := by
  have computed : ((equalKeys 9).foldlM (nextCall 16 12) (nothing, [])).any (fun t =>
      keys t.2 == List.replicate 9 (storedKey longPrefix) && bucketsOf t.1 == 32 &&
        starved.fresh t.1 && exits (starved.exec 12 t.1)) = true := by
    decide +kernel
  have computed' : ((equalKeys 10).foldlM (nextCall 16 12) (nothing, [])).any (fun t =>
      keys t.2 == List.replicate 10 (storedKey longPrefix) && bucketsOf t.1 == 64) = true := by
    decide +kernel
  obtain ⟨s, run, before⟩ := computed_reached fits_of_length computed
  obtain ⟨t, run', after⟩ := computed_reached fits_of_length computed'
  simp only [Bool.and_eq_true, beq_iff_eq] at before after
  obtain ⟨⟨⟨nine, few⟩, fresh⟩, ends⟩ := before
  obtain ⟨ten, more⟩ := after
  have size := congrArg List.length nine
  have size' := congrArg List.length ten
  rw [keys_length, List.length_replicate] at size size'
  have fits := fits_of_length longPrefix (by decide)
  have stored := fits_of_length (storedKey longPrefix) (by decide)
  have refused := ((hash_integrity run).2 starved 12 fits (fresh_of_true fresh) (by omega)).2
    (exits_eq ends)
  obtain ⟨sound, calls⟩ := hash_integrity run'
  refine ⟨s, t, nine, few, exits_eq ends, refused, ten, more, sound 11 (by omega), ?_⟩
  exact (calls (.remove (storedKey longPrefix)) 12 stored trivial (by omega)).1

/-- The hash answers every call as the table of entries does, and logs the same entries; in
    the same order when every prefix fits its array. -/
theorem heap_answers {t : Table × VethMap} (run : Reached Nothing (Called Fits) t) :
    (∀ (c : HashCall) fuel r s', Fits c.given → c.Fresh t.1 → t.2.length + 1 < fuel →
      c.exec fuel t.1 = .ok (r, s') → r = (c.onEntries t.2).1) ∧
    (∀ fuel, t.2.length < fuel → ∃ logged, vethListPrint fuel t.1 = .ok logged ∧
      logged.Perm t.2) ∧
    (Reached Nothing (Called Short) t → ∀ fuel, t.2.length < fuel →
      vethListPrint fuel t.1 = .ok t.2) := by
  have mirrors := reached_mirrors run
  refine ⟨?_, ?_, ?_⟩
  · intro c fuel r s' fits fresh enough done
    rcases exec_mirrors mirrors fits fresh enough with ⟨stop, -⟩ | ⟨s'', ok, -⟩
    · rw [stop] at done
      cases done
    · rw [ok] at done
      exact (Prod.mk.inj (Except.ok.inj done)).1.symm
  · intro fuel enough
    obtain ⟨l, backed, perm⟩ := mirrors
    have size := perm.length_eq
    rw [List.length_map] at size
    exact ⟨_, vethListPrint_ok backed (by omega), perm⟩
  · intro short fuel enough
    obtain ⟨l, backed, same, -⟩ := reached_copies short
    have size := congrArg List.length same
    rw [List.length_map] at size
    rw [← same]
    exact vethListPrint_ok backed (by omega)

def portV : CString := ⟨ascii "veth7", by decide⟩

def portW : CString := ⟨ascii "veth8", by decide⟩

def twoEntries : List HashCall :=
  [.add (giving true) ⟨some 7, garbage⟩ portV, .add (giving true) ⟨some 5, garbage⟩ portW]

theorem two_entries_reached : ∃ t : Table × VethMap, Reached Nothing (Called Short) t ∧
    t.2 = [newEntry portV, newEntry portW] := by
  have computed : (twoEntries.foldlM (nextCall 15 5) (nothing, [])).any (fun t =>
      t.2 == [newEntry portV, newEntry portW]) = true := by
    decide +kernel
  obtain ⟨t, run, entries⟩ := computed_reached (fun _ short => short) computed
  exact ⟨t, run, beq_iff_eq.mp entries⟩

theorem short_fits {t : Table × VethMap} (run : Reached Nothing (Called Short) t) :
    Reached Nothing (Called Fits) t := by
  refine reached_mono ?_ run
  rintro _ _ ⟨ok, fresh, enough, done⟩
  unfold Short at ok
  exact Called.call (by unfold Fits; omega) fresh enough done

/-- Two prefixes in their order, and three entries with one stored key, which a removal finds. -/
theorem heap_answers_of_equal_keys :
    ∃ s t : Table × VethMap, vethListPrint 5 s.1 = .ok [newEntry portV, newEntry portW] ∧
      keys t.2 = List.replicate 3 (storedKey longPrefix) ∧
      (∃ logged, vethListPrint 5 t.1 = .ok logged ∧ logged.Perm t.2) ∧
      ∀ r s', vethListRemove 5 t.1 (storedKey longPrefix) = .ok (r, s') → r = 0 := by
  obtain ⟨s, short, entries⟩ := two_entries_reached
  have computed : ((equalKeys 3).foldlM (nextCall 16 12) (nothing, [])).any (fun t =>
      keys t.2 == List.replicate 3 (storedKey longPrefix)) = true := by
    decide +kernel
  obtain ⟨t, run, after⟩ := computed_reached fits_of_length computed
  have same := beq_iff_eq.mp after
  have size := congrArg List.length same
  rw [keys_length, List.length_replicate] at size
  have printed := (heap_answers (short_fits short)).2.2 short 5 (by rw [entries]; decide)
  rw [entries] at printed
  obtain ⟨answers, logged, -⟩ := heap_answers run
  refine ⟨s, t, printed, same, logged 5 (by omega), ?_⟩
  intro r s' done
  have stored := fits_of_length (storedKey longPrefix) (by decide)
  have registered : storedKey longPrefix ∈ keys t.2 := by
    rw [same]
    exact List.mem_cons_self
  have answer := answers (.remove (storedKey longPrefix)) 5 r s' stored trivial (by omega) done
  rw [answer, HashCall.onEntries, vethListRemove_registered registered]

/-- veth_list_destroy visits every entry once and leaves no memory in use, but its caller with
    the head it had, which was freed first; the loop of unload_list leaves no entry and no head
    when every prefix fits its array. -/
theorem loops_release_all {t : Table × VethMap} (run : Reached Nothing (Called Fits) t) :
    ∃ order : List Addr, order.Nodup ∧ (∀ a, a ∈ order ↔ t.1.heap a ≠ none) ∧
      order.length = t.2.length ∧ t.1.head.map UTHash.head = order.head? ∧
      (∀ fuel, t.2.length < fuel →
        vethListDestroy fuel t.1 = .ok (order, ⟨t.1.head, fun _ => none⟩)) ∧
      (t.2 ≠ [] → ∀ fuel, vethListPrint fuel ⟨t.1.head, fun _ => none⟩ = .error .stuck) ∧
      (Reached Nothing (Called Short) t → ∀ fuel, t.2.length < fuel →
        unloadList fuel t.1 = .ok (order, nothing)) := by
  obtain ⟨l, backed, perm⟩ := reached_mirrors run
  have size := perm.length_eq
  rw [List.length_map] at size
  refine ⟨l.map Node.address, backed.holds.nodup, ?_, by rwa [List.length_map],
    backed.holds.head_eq, ?_, ?_, ?_⟩
  · intro a
    constructor
    · intro member gone
      obtain ⟨n, inside, rfl⟩ := List.mem_map.mp member
      have core := backed.core n inside
      rw [coreAt, gone] at core
      cases core
    · intro live
      by_contra absent
      exact live (backed.only a absent)
  · exact fun fuel enough => vethListDestroy_ok backed (by omega)
  · intro some_entry fuel
    cases head : t.1.head with
    | none =>
      have empty := backed.empty_iff.mp head
      rw [empty] at perm
      exact absurd perm.nil_eq.symm some_entry
    | some u => rw [← head]; exact freed_walk_stuck head fuel
  · intro short fuel enough
    apply unloadList_ok backed _ (by omega)
    obtain ⟨-, -, -, distinct⟩ := reached_copies short
    exact (perm.map VethPair.key).nodup_iff.mpr distinct

/-- Both loops on two entries; veth_list_destroy leaves its caller the head it freed first. -/
theorem loops_release_two : ∃ (s : Table) (a b : Addr), s.heap a ≠ none ∧ s.heap b ≠ none ∧
    a ≠ b ∧ s.head.map UTHash.head = some a ∧
    vethListDestroy 3 s = .ok ([a, b], ⟨s.head, fun _ => none⟩) ∧
    vethListPrint 3 ⟨s.head, fun _ => none⟩ = .error .stuck ∧
    unloadList 3 s = .ok ([a, b], nothing) := by
  obtain ⟨t, short, entries⟩ := two_entries_reached
  obtain ⟨order, distinct, live, size, first, destroyed, freed, unloaded⟩ :=
    loops_release_all (short_fits short)
  rw [entries] at size freed
  obtain ⟨a, b, rfl⟩ := List.length_eq_two.mp size
  have enough : t.2.length < 3 := by
    rw [entries]
    decide
  refine ⟨t.1, a, b, (live a).mp List.mem_cons_self,
    (live b).mp (List.mem_cons_of_mem a List.mem_cons_self), ?_, first, destroyed 3 enough,
    freed (List.cons_ne_nil _ _) 3, unloaded short 3 enough⟩
  exact fun same => (List.nodup_cons.mp distinct).1 (same ▸ List.mem_cons_self)

end XSKVethHash
