import XSKNet.Uthash
import Mathlib.Data.List.Forall2
import Mathlib.Data.List.Perm.Subperm

/- What every hash of uthash.h satisfies between two calls: the elements form one list in the
   order they were added, each bucket has the list of the elements whose hash value selects
   it, and the counters and the tail agree with the lists. -/
namespace XSKUthash
open IntrusiveList

variable {π : Type}

/- What is read from an element. -/

def coreAt (h : Elements π) (a : Addr) : Option (π × Key) :=
  (h a).map fun e => (e.payload, e.hh.key)

def hashvAt (h : Elements π) (a : Addr) : Option UInt32 := (h a).map fun e => e.hh.hashv

abbrev appLinks (h : Elements π) : Addr → Option (Link Addr) := links (appField π) h

abbrev chainLinks (h : Elements π) : Addr → Option (Link Addr) := links (chainField π) h

theorem app_edit {h h' : Elements π} (outside : Outside (appField π) h h') (a : Addr) :
    chainLinks h' a = chainLinks h a ∧ coreAt h' a = coreAt h a ∧ hashvAt h' a = hashvAt h a :=
  ⟨outside.view (fun _ _ => rfl) a, outside.view (fun _ _ => rfl) a,
    outside.view (fun _ _ => rfl) a⟩

theorem chain_edit {h h' : Elements π} (outside : Outside (chainField π) h h') (a : Addr) :
    appLinks h' a = appLinks h a ∧ coreAt h' a = coreAt h a ∧ hashvAt h' a = hashvAt h a :=
  ⟨outside.view (fun _ _ => rfl) a, outside.view (fun _ _ => rfl) a,
    outside.view (fun _ _ => rfl) a⟩

theorem hashToBkt_lt (v : UInt32) {n : UInt32} (pos : 0 < n.toNat) :
    (hashToBkt v n).toNat < n.toNat := by
  have le : (hashToBkt v n).toNat ≤ (n - 1).toNat := by
    rw [hashToBkt, UInt32.toNat_and]
    exact Nat.and_le_right
  have one : (n - 1).toNat = n.toNat - 1 := by
    have small := n.toNat_lt
    rw [UInt32.toNat_sub]
    simp only [UInt32.reduceToNat]
    omega
  omega

def bucketAt (h : Elements π) (n : UInt32) (a : Addr) : Option Nat :=
  (hashvAt h a).map fun v => (hashToBkt v n).toNat

structure BucketHolds (h : Elements π) (b : UTHashBucket) (chain : List Addr) : Prop where
  head : b.hhHead = chain.head?
  linked : Segment (chainLinks h) none chain none
  count : b.count = UInt32.ofNat chain.length

/-- The buckets have exactly the members, each in the bucket that its hash value selects. -/
structure Chained (h : Elements π) (buckets : List UTHashBucket) (n : UInt32)
    (members : List Addr) (chains : Nat → List Addr) : Prop where
  size : n.toNat = buckets.length
  positive : 0 < n.toNat
  holds : ∀ i b, buckets[i]? = some b → BucketHolds h b (chains i)
  unique : ∀ i, i < buckets.length → (chains i).Nodup
  live : ∀ a ∈ members, ∃ v, hashvAt h a = some v
  placed : ∀ i < buckets.length, ∀ a, a ∈ chains i ↔ a ∈ members ∧ bucketAt h n a = some i

section Chains
variable {h h' : Elements π} {buckets : List UTHashBucket} {n : UInt32} {members : List Addr}
  {chains : Nat → List Addr}

theorem Chained.mem (chained : Chained h buckets n members chains) {i : Nat}
    (bound : i < buckets.length) {a : Addr} (inside : a ∈ chains i) : a ∈ members :=
  ((chained.placed i bound a).mp inside).1

theorem Chained.apart (chained : Chained h buckets n members chains) {i j : Nat}
    (bound_i : i < buckets.length) (bound_j : j < buckets.length) (other : i ≠ j) {a : Addr}
    (here : a ∈ chains i) (there : a ∈ chains j) : False := by
  have first := ((chained.placed i bound_i a).mp here).2
  have second := ((chained.placed j bound_j a).mp there).2
  rw [first] at second
  exact other (Option.some.inj second)

theorem Chained.select (chained : Chained h buckets n members chains) (v : UInt32) :
    (hashToBkt v n).toNat < buckets.length := by
  rw [← chained.size]
  exact hashToBkt_lt v chained.positive

theorem Chained.bucket (chained : Chained h buckets n members chains) {i : Nat}
    (bound : i < buckets.length) :
    ∃ b, buckets[i]? = some b ∧ BucketHolds h b (chains i) := by
  have found : buckets[i]? = some (buckets.get ⟨i, bound⟩) := by
    rw [List.getElem?_eq_getElem bound]
    rfl
  exact ⟨_, found, chained.holds i _ found⟩

theorem Chained.home (chained : Chained h buckets n members chains) {a : Addr}
    (member : a ∈ members) {v : UInt32} (hashed : hashvAt h a = some v) :
    a ∈ chains (hashToBkt v n).toNat := by
  apply (chained.placed _ (chained.select v) a).mpr
  refine ⟨member, ?_⟩
  rw [bucketAt, hashed]
  rfl

theorem Chained.reorder (chained : Chained h buckets n members chains) {members' : List Addr}
    (same : ∀ a, a ∈ members' ↔ a ∈ members) : Chained h buckets n members' chains where
  size := chained.size
  positive := chained.positive
  holds := chained.holds
  unique := chained.unique
  live a member := chained.live a ((same a).mp member)
  placed i bound a := by
    rw [same a]
    exact chained.placed i bound a

theorem Chained.congr (chained : Chained h buckets n members chains)
    (linked : ∀ a ∈ members, chainLinks h' a = chainLinks h a)
    (hashed : ∀ a ∈ members, hashvAt h' a = hashvAt h a) :
    Chained h' buckets n members chains where
  size := chained.size
  positive := chained.positive
  holds i b found := by
    obtain ⟨bound, -⟩ := List.getElem?_eq_some_iff.mp found
    have old := chained.holds i b found
    refine ⟨old.head, segment_congr ?_ old.linked, old.count⟩
    exact fun a inside => linked a (chained.mem bound inside)
  unique := chained.unique
  live a member := by
    rw [hashed a member]
    exact chained.live a member
  placed i bound a := by
    rw [chained.placed i bound a]
    constructor
    · rintro ⟨member, home⟩
      refine ⟨member, ?_⟩
      rwa [bucketAt, hashed a member]
    · rintro ⟨member, home⟩
      refine ⟨member, ?_⟩
      rwa [bucketAt, hashed a member] at home

theorem Chained.replace (chained : Chained h buckets n members chains) {i : Nat}
    (bound : i < buckets.length) {b' : UTHashBucket} (chain : List Addr) {members' : List Addr}
    (outside : Outside (chainField π) h h')
    (others : ∀ j < buckets.length, j ≠ i → ∀ a ∈ chains j, chainLinks h' a = chainLinks h a)
    (bucket : BucketHolds h' b' chain) (unique : chain.Nodup)
    (live : ∀ a ∈ members', ∃ v, hashvAt h a = some v)
    (elsewhere : ∀ a, bucketAt h n a ≠ some i → (a ∈ members' ↔ a ∈ members))
    (inside : ∀ a, a ∈ chain ↔ a ∈ members' ∧ bucketAt h n a = some i) :
    Chained h' (buckets.set i b') n members' (Function.update chains i chain) where
  size := by rw [List.length_set, chained.size]
  positive := chained.positive
  holds j b found := by
    by_cases here : j = i
    · subst here
      rw [List.getElem?_set_self bound] at found
      obtain rfl := Option.some.inj found
      rwa [Function.update_self]
    · rw [List.getElem?_set_ne (Ne.symm here)] at found
      rw [Function.update_of_ne here]
      obtain ⟨bound_j, -⟩ := List.getElem?_eq_some_iff.mp found
      have old := chained.holds j b found
      exact ⟨old.head, segment_congr (others j bound_j here) old.linked, old.count⟩
  unique j bound_j := by
    rw [List.length_set] at bound_j
    by_cases here : j = i
    · rwa [here, Function.update_self]
    · rw [Function.update_of_ne here]
      exact chained.unique j bound_j
  live a member := by
    rw [(chain_edit outside a).2.2]
    exact live a member
  placed j bound_j a := by
    rw [List.length_set] at bound_j
    rw [bucketAt, (chain_edit outside a).2.2]
    change _ ↔ _ ∧ bucketAt h n a = some j
    by_cases here : j = i
    · rw [here, Function.update_self]
      exact inside a
    · rw [Function.update_of_ne here, chained.placed j bound_j a]
      constructor
      · rintro ⟨member, home⟩
        have away : bucketAt h n a ≠ some i := by
          rw [home]
          exact fun e => here (Option.some.inj e)
        exact ⟨(elsewhere a away).mpr member, home⟩
      · rintro ⟨member, home⟩
        have away : bucketAt h n a ≠ some i := by
          rw [home]
          exact fun e => here (Option.some.inj e)
        exact ⟨(elsewhere a away).mp member, home⟩

theorem Chained.push (chained : Chained h buckets n members chains) {a : Addr} {v : UInt32}
    (fresh : a ∉ members) (hashed : hashvAt h a = some v) :
    ∃ b h', buckets[(hashToBkt v n).toNat]? = some b ∧
      pushFront (chainField π) h a b.hhHead = some h' ∧ Outside (chainField π) h h' ∧
      (∀ c, c ≠ a → c ∉ members → chainLinks h' c = chainLinks h c) ∧
      ∀ b', b'.hhHead = some a → b'.count = b.count + 1 →
        ∃ chains', Chained h' (buckets.set (hashToBkt v n).toNat b') n (a :: members) chains' := by
  have bound := chained.select v
  generalize index : (hashToBkt v n).toNat = i at bound
  obtain ⟨b, found, old⟩ := chained.bucket bound
  have home : bucketAt h n a = some i := by rw [bucketAt, hashed, ← index]; rfl
  have outsider : a ∉ chains i := fun inside => fresh (chained.mem bound inside)
  obtain ⟨e, record, -⟩ := Option.map_eq_some_iff.mp hashed
  have live : chainLinks h a = some ((chainField π).get e) := by
    unfold chainLinks links
    rw [record]
    rfl
  obtain ⟨h', pushed, now⟩ := pushFront_ok live outsider (chained.unique i bound) old.linked
  refine ⟨b, h', found, by rw [old.head]; exact pushed, now.outside, ?_, ?_⟩
  · intro c other absent
    apply now.others c
    rw [List.mem_cons, not_or]
    exact ⟨other, fun inside => absent (chained.mem bound inside)⟩
  · intro b' first counted
    refine ⟨_, chained.replace bound (a :: chains i) now.outside ?_ ⟨first, now.linked, ?_⟩
      (List.nodup_cons.mpr ⟨outsider, chained.unique i bound⟩) ?_ ?_ ?_⟩
    · intro j bound_j other c inside
      apply now.others c
      rw [List.mem_cons, not_or]
      exact ⟨fun e => fresh (e ▸ chained.mem bound_j inside),
        fun there => chained.apart bound_j bound other inside there⟩
    · rw [counted, old.count, List.length_cons]
      simp
    · intro c member
      rcases List.mem_cons.mp member with rfl | old_member
      · exact ⟨v, hashed⟩
      · exact chained.live c old_member
    · intro c away
      have other : c ≠ a := fun e => away (e ▸ home)
      simp [other]
    · intro c
      rw [List.mem_cons, List.mem_cons, chained.placed i bound c]
      constructor
      · rintro (rfl | ⟨member, there⟩)
        · exact ⟨Or.inl rfl, home⟩
        · exact ⟨Or.inr member, there⟩
      · rintro ⟨rfl | member, there⟩
        · exact Or.inl rfl
        · exact Or.inr ⟨member, there⟩

theorem Chained.remove (chained : Chained h buckets n members chains) (distinct : members.Nodup)
    {a : Addr} {v : UInt32} (member : a ∈ members) (hashed : hashvAt h a = some v) :
    ∃ b front back h', buckets[(hashToBkt v n).toNat]? = some b ∧
      BucketHolds h b (front ++ a :: back) ∧ (front ++ a :: back).Nodup ∧
      unlink (chainField π) h a = some h' ∧ Outside (chainField π) h h' ∧
      ∀ b', b'.hhHead = (front ++ back).head? → b'.count = b.count - 1 → ∃ chains',
        Chained h' (buckets.set (hashToBkt v n).toNat b') n (members.erase a) chains' := by
  have inside := chained.home member hashed
  have bound := chained.select v
  have home : bucketAt h n a = some (hashToBkt v n).toNat := by rw [bucketAt, hashed]; rfl
  generalize (hashToBkt v n).toNat = i at inside bound home
  obtain ⟨b, found, old⟩ := chained.bucket bound
  obtain ⟨front, back, split⟩ := List.append_of_mem inside
  have unique := chained.unique i bound
  rw [split] at old unique
  obtain ⟨h', gone, now⟩ := unlink_ok unique old.linked
  have middle := List.nodup_middle.mp unique
  refine ⟨b, front, back, h', found, old, unique, gone, now.outside, ?_⟩
  intro b' first counted
  have part : ∀ c, c ∈ front ++ back ↔ c ∈ chains i ∧ c ≠ a := by
    intro c
    rw [split]
    constructor
    · intro left
      exact ⟨by simp at left ⊢; tauto, fun e => (List.nodup_cons.mp middle).1 (e ▸ left)⟩
    · rintro ⟨left, other⟩
      simp [other] at left ⊢
      exact left
  refine ⟨_, chained.replace bound (front ++ back) now.outside ?_ ⟨first, now.linked, ?_⟩
    (List.nodup_cons.mp middle).2 ?_ ?_ ?_⟩
  · intro j bound_j other c there
    apply now.others c
    intro left
    exact chained.apart bound_j bound other there ((part c).mp left).1
  · have plus : (front ++ a :: back).length = (front ++ back).length + 1 := by simp; omega
    rw [counted, old.count, plus]
    simp
  · exact fun c left => chained.live c (List.mem_of_mem_erase left)
  · intro c away
    have other : c ≠ a := fun e => away (e ▸ home)
    exact List.mem_erase_of_ne other
  · intro c
    rw [part c, chained.placed i bound c, distinct.mem_erase_iff]
    tauto

end Chains

/- HASH_EXPAND_BUCKETS. -/

theorem Chained.lists {h : Elements π} {buckets : List UTHashBucket} {n : UInt32}
    {members : List Addr} {chains : Nat → List Addr} (chained : Chained h buckets n members chains)
    (distinct : members.Nodup) :
    ∃ lists : List (List Addr), List.Forall₂ (BucketHolds h) buckets lists ∧
      lists.flatten.Perm members := by
  let lists := (List.range buckets.length).map chains
  have same_length : lists.length = buckets.length := by simp [lists]
  have member : ∀ a, a ∈ lists.flatten ↔ a ∈ members := by
    intro a
    simp only [lists, List.mem_flatten, List.mem_map, List.mem_range, exists_exists_and_eq_and]
    constructor
    · rintro ⟨i, bound, inside⟩
      exact chained.mem bound inside
    · intro inside
      obtain ⟨v, hashed⟩ := chained.live a inside
      exact ⟨_, chained.select v, chained.home inside hashed⟩
  refine ⟨lists, ?_, ?_⟩
  · apply List.forall₂_iff_get.mpr
    refine ⟨same_length.symm, ?_⟩
    intro i bound _
    have found : buckets[i]? = some (buckets.get ⟨i, bound⟩) := by
      rw [List.getElem?_eq_getElem bound]
      rfl
    simpa [lists] using chained.holds i _ found
  · apply (List.perm_ext_iff_of_nodup _ distinct).mpr member
    apply List.nodup_flatten.mpr
    constructor
    · intro l inside
      obtain ⟨i, bound, rfl⟩ := List.mem_map.mp inside
      exact chained.unique i (List.mem_range.mp bound)
    · apply List.pairwise_map.mpr
      apply List.Pairwise.imp_of_mem _ List.pairwise_lt_range
      intro i j bound_i bound_j less a here there
      exact chained.apart (List.mem_range.mp bound_i) (List.mem_range.mp bound_j)
        (Nat.ne_of_lt less) here there

/-- The elements moved so far are in the new buckets, the others have the links they had. -/
structure Moved (h : Elements π) (n : UInt32) (s : Redistribution π) (moved : List Addr) :
    Prop where
  chained : ∃ chains, Chained s.heap s.newBuckets n moved chains
  outside : Outside (chainField π) h s.heap
  others : ∀ a, a ∉ moved → chainLinks s.heap a = chainLinks h a

theorem countUp_count (ideal : UInt32) (b : UTHashBucket) :
    (countUp ideal b).count = b.count + 1 := by
  unfold countUp
  dsimp only
  split <;> rfl

theorem countUp_hhHead (ideal : UInt32) (b : UTHashBucket) :
    (countUp ideal b).hhHead = b.hhHead := by
  unfold countUp
  dsimp only
  split <;> rfl

theorem moveElement_ok (ideal : UInt32) {h : Elements π} {n : UInt32} {s : Redistribution π}
    {moved : List Addr} (state : Moved h n s moved) {a : Addr} {v : UInt32} (fresh : a ∉ moved)
    (hashed : hashvAt h a = some v) :
    ∃ s', moveElement ideal n s a = some s' ∧ Moved h n s' (a :: moved) := by
  obtain ⟨chains, chained⟩ := state.chained
  have still : hashvAt s.heap a = some v := ((chain_edit state.outside a).2.2).trans hashed
  obtain ⟨b, h', found, pushed, outside, others, next⟩ := chained.push fresh still
  obtain ⟨e, record, rfl⟩ := Option.map_eq_some_iff.mp still
  have after := next { countUp ideal b with hhHead := some a } rfl (countUp_count ideal b)
  have run : ∃ k, moveElement ideal n s a = some ⟨k, s.newBuckets.set
      (hashToBkt e.hh.hashv n).toNat { countUp ideal b with hhHead := some a }, h'⟩ := by
    simp only [moveElement, record, Option.bind_eq_bind, Option.bind_some, found, countUp_hhHead,
      pushed]
    exact ⟨_, rfl⟩
  obtain ⟨k, run⟩ := run
  refine ⟨_, run, after, state.outside.trans outside, ?_⟩
  intro c absent
  rw [List.mem_cons, not_or] at absent
  rw [others c absent.1 absent.2]
  exact state.others c absent.2

theorem moveChain_ok (ideal : UInt32) {h : Elements π} {n : UInt32} {chain moved : List Addr}
    {s : Redistribution π} (state : Moved h n s moved) {p : Option Addr}
    (linked : Segment (chainLinks h) p chain none) (fresh : (chain ++ moved).Nodup) {fuel : Nat}
    (enough : chain.length < fuel) :
    ∃ s', moveChain ideal n fuel chain.head? s = some s' ∧
      Moved h n s' (chain.reverse ++ moved) := by
  induction chain generalizing moved s p fuel with
  | nil =>
    obtain ⟨k, rfl⟩ : ∃ k, fuel = k + 1 := ⟨fuel - 1, by simp at enough; omega⟩
    exact ⟨s, rfl, state⟩
  | cons a rest ih =>
    obtain ⟨k, rfl⟩ : ∃ k, fuel = k + 1 := ⟨fuel - 1, by omega⟩
    rw [List.cons_append, List.nodup_cons, List.mem_append, not_or] at fresh
    obtain ⟨⟨not_later, not_moved⟩, rest_fresh⟩ := fresh
    obtain ⟨e, record, mine⟩ := Option.map_eq_some_iff.mp linked.1
    have hashed : hashvAt h a = some e.hh.hashv := by rw [hashvAt, record]; rfl
    have here : chainLinks s.heap a = some ((chainField π).get e) := by
      rw [state.others a not_moved, chainLinks, links, record]
      rfl
    obtain ⟨now, record', same⟩ := Option.map_eq_some_iff.mp here
    have next : now.hh.hhNext = rest.head? := by
      have both := congrArg Link.next (same.trans mine)
      simpa [chainField] using both
    obtain ⟨s', moved_one, state'⟩ := moveElement_ok ideal state not_moved hashed
    have fresh' : (rest ++ a :: moved).Nodup :=
      List.nodup_middle.mpr (List.nodup_cons.mpr ⟨by simp [not_later, not_moved], rest_fresh⟩)
    obtain ⟨s'', rest_moved, state''⟩ := ih state' linked.2 fresh' (by simpa using enough)
    refine ⟨s'', ?_, by simpa using state''⟩
    rw [List.head?_cons, moveChain, record']
    simp only [Option.bind_eq_bind, Option.bind_some, moved_one, next]
    exact rest_moved

theorem moveBuckets_ok (ideal : UInt32) {h : Elements π} {n : UInt32} {buckets : List UTHashBucket}
    {lists : List (List Addr)} (hold : List.Forall₂ (BucketHolds h) buckets lists)
    {moved : List Addr} {s : Redistribution π} (state : Moved h n s moved)
    (fresh : (lists.flatten ++ moved).Nodup) {fuel : Nat}
    (enough : lists.flatten.length < fuel) :
    ∃ s' moved', buckets.foldlM (fun s b => moveChain ideal n fuel b.hhHead s) s = some s' ∧
      Moved h n s' moved' ∧ ∀ a, a ∈ moved' ↔ a ∈ lists.flatten ++ moved := by
  induction hold generalizing moved s with
  | nil => exact ⟨s, moved, rfl, state, fun a => by simp⟩
  | @cons b list buckets lists here later ih =>
    rw [List.flatten_cons, List.append_assoc] at fresh
    rw [List.flatten_cons, List.length_append] at enough
    have shape := List.nodup_append.mp fresh
    have first : (list ++ moved).Nodup := by
      exact List.Nodup.sublist ((List.sublist_append_right _ _).append_left list) fresh
    obtain ⟨s₁, run, state₁⟩ :=
      moveChain_ok ideal state here.linked first (Nat.lt_of_le_of_lt (Nat.le_add_right _ _) enough)
    have rest : (lists.flatten ++ (list.reverse ++ moved)).Nodup := by
      apply (List.Perm.nodup_iff _).mp fresh
      exact ((list.reverse_perm.symm.append_right _).trans (List.perm_append_comm_assoc _ _ _))
    obtain ⟨s₂, moved', run', state₂, same⟩ := ih state₁ rest (by omega)
    refine ⟨s₂, moved', ?_, state₂, ?_⟩
    · rw [List.foldlM_cons, here.head, run]
      exact run'
    · intro a
      rw [same a]
      simp only [List.flatten_cons, List.mem_append, List.mem_reverse]
      tauto

theorem chained_new (h : Elements π) {n : UInt32} {size : Nat} (count : n.toNat = size)
    (positive : 0 < size) :
    Chained h (List.replicate size emptyBucket) n [] fun _ => [] where
  size := by rw [List.length_replicate, count]
  positive := by rwa [count]
  holds i b found := by
    obtain ⟨bound, rfl⟩ := List.getElem?_eq_some_iff.mp found
    rw [List.getElem_replicate]
    exact ⟨rfl, trivial, rfl⟩
  unique _ _ := List.nodup_nil
  live a member := by cases member
  placed i bound a := by simp

def PowerOfTwo (t : UTHashTable) : Prop := t.numBuckets.toNat = 2 ^ t.log2NumBuckets.toNat

def overfills (t : UTHashTable) (bkt : Nat) : Bool :=
  t.buckets[bkt]?.any fun b => wantsExpand t { b with count := b.count + 1 }

def expandedSize (t : UTHashTable) : Nat := sizeofBucket * t.numBuckets.toNat * 2

theorem hashExpandBuckets_ok (malloc : Malloc) {fuel : Nat} (t : UTHashTable) {h : Elements π}
    {members : List Addr} {chains : Nat → List Addr}
    (chained : Chained h t.buckets t.numBuckets members chains) (distinct : members.Nodup)
    (power : PowerOfTwo t) (enough : members.length < fuel) :
    (hashExpandBuckets malloc fuel t h = .error .exited ∧
      malloc.gives (expandedSize t) = false) ∨
    ∃ t' h' chains', hashExpandBuckets malloc fuel t h = .ok (t', h') ∧
      Outside (chainField π) h h' ∧ t'.numItems = t.numItems ∧ t'.tail = t.tail ∧
      PowerOfTwo t' ∧ Chained h' t'.buckets t'.numBuckets members chains' := by
  unfold hashExpandBuckets
  cases given : malloc.gives (sizeofBucket * t.numBuckets.toNat * 2) with
  | false => exact Or.inl ⟨rfl, given⟩
  | true =>
    right
    have small : t.numBuckets.toNat < 2 ^ 31 := by
      by_contra big
      have refused := malloc.bounded (sizeofBucket * t.numBuckets.toNat * 2)
        (by unfold sizeofBucket; omega)
      rw [given] at refused
      cases refused
    have double : (t.numBuckets * 2).toNat = t.numBuckets.toNat * 2 := by
      rw [UInt32.toNat_mul]
      simp only [UInt32.reduceToNat]
      omega
    have shift : (t.log2NumBuckets + 1).toNat = t.log2NumBuckets.toNat + 1 := by
      have log : t.log2NumBuckets.toNat < 31 := by
        apply (Nat.pow_lt_pow_iff_right (a := 2) (by decide)).mp
        rwa [← power]
      rw [UInt32.toNat_add]
      simp only [UInt32.reduceToNat]
      omega
    obtain ⟨lists, hold, perm⟩ := chained.lists distinct
    have start : Moved h (t.numBuckets * 2)
        ⟨0, List.replicate (t.numBuckets.toNat * 2) emptyBucket, h⟩ [] :=
      ⟨⟨_, chained_new h double (by have := chained.positive; omega)⟩, Outside.refl _ h,
        fun _ _ => rfl⟩
    obtain ⟨s, moved, run, state, same⟩ := moveBuckets_ok (idealChainMaxlen t) hold start
      (by rw [List.append_nil]; exact perm.nodup_iff.mpr distinct)
      (by rw [perm.length_eq]; exact enough)
    obtain ⟨chains', final⟩ := state.chained
    have all : ∀ a, a ∈ members ↔ a ∈ moved := by
      intro a
      rw [same a, List.append_nil]
      exact perm.mem_iff.symm
    simp only [if_true, run]
    refine ⟨_, _, chains', rfl, state.outside, rfl, rfl, ?_, final.reorder all⟩
    change (t.numBuckets * 2).toNat = 2 ^ (t.log2NumBuckets + 1).toNat
    rw [double, shift, Nat.pow_succ, power]

theorem hashAddToBkt_ok (malloc : Malloc) {fuel : Nat} {t : UTHashTable} {h : Elements π}
    {members : List Addr} {chains : Nat → List Addr}
    (chained : Chained h t.buckets t.numBuckets members chains) (distinct : members.Nodup)
    (power : PowerOfTwo t) {a : Addr} {v : UInt32} (fresh : a ∉ members)
    (hashed : hashvAt h a = some v) (enough : members.length + 1 < fuel) :
    (hashAddToBkt malloc fuel t (hashToBkt v t.numBuckets).toNat a h = .error .exited ∧
      overfills t (hashToBkt v t.numBuckets).toNat = true ∧
      malloc.gives (expandedSize t) = false) ∨
    ∃ t' h' chains',
      hashAddToBkt malloc fuel t (hashToBkt v t.numBuckets).toNat a h = .ok (t', h') ∧
      Outside (chainField π) h h' ∧ t'.numItems = t.numItems ∧ t'.tail = t.tail ∧
      PowerOfTwo t' ∧ Chained h' t'.buckets t'.numBuckets (a :: members) chains' := by
  obtain ⟨b, h₁, found, pushed, outside, -, next⟩ := chained.push fresh hashed
  let b' : UTHashBucket := { b with hhHead := some a, count := b.count + 1 }
  let t₁ : UTHashTable := { t with buckets := t.buckets.set (hashToBkt v t.numBuckets).toNat b' }
  obtain ⟨chains₁, chained₁⟩ := next b' rfl rfl
  have run : hashAddToBkt malloc fuel t (hashToBkt v t.numBuckets).toNat a h =
      if wantsExpand t₁ b' then hashExpandBuckets malloc fuel t₁ h₁ else .ok (t₁, h₁) := by
    simp only [hashAddToBkt, found, access_some, ok_bind, pushed]
    rfl
  rw [run]
  cases full : wantsExpand t₁ b' with
  | false => exact Or.inr ⟨t₁, h₁, chains₁, rfl, outside, rfl, rfl, power, chained₁⟩
  | true =>
    rcases hashExpandBuckets_ok malloc t₁ chained₁ (List.nodup_cons.mpr ⟨fresh, distinct⟩)
      power (by simpa using enough) with stop | ⟨t₂, h₂, chains₂, ran, more, items, tail, rest⟩
    · refine Or.inl ⟨stop.1, ?_, stop.2⟩
      rw [overfills, found]
      exact full
    · exact Or.inr ⟨t₂, h₂, chains₂, ran, outside.trans more, items, tail, rest⟩

end XSKUthash
