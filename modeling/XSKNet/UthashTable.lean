import XSKNet.UthashIntegrity
import XSKNet.SavedSuccessor
import XSKNet.Runs

/- A hash as its users see it: the list of its elements in the order they were added. -/
namespace XSKUthash
open IntrusiveList Runs

variable {π : Type} (hashFunction : Key → UInt32)

def keyAt (h : Elements π) (a : Addr) : Option Key := (coreAt h a).map Prod.snd

def Keyed (h : Elements π) (a : Addr) : Prop :=
  ∃ k, keyAt h a = some k ∧ hashvAt h a = some (hashFunction k)

structure TableHolds (h : Elements π) (u : UTHash) (l : List Addr) : Prop where
  distinct : l.Nodup
  head : l.head? = some u.head
  tail : u.tbl.tail = l.getLast?
  app : Segment (appLinks h) none l none
  items : u.tbl.numItems = UInt32.ofNat l.length
  keyed : ∀ a ∈ l, Keyed hashFunction h a
  power : PowerOfTwo u.tbl
  chained : ∃ chains, Chained h u.tbl.buckets u.tbl.numBuckets l chains

/-- A head that is null has no elements. -/
def Holds (s : State π) (l : List Addr) : Prop :=
  match s.head with
  | none => l = []
  | some u => TableHolds hashFunction s.heap u l

variable {hashFunction}

theorem Keyed.congr {h h' : Elements π} {a : Addr} (core : coreAt h' a = coreAt h a)
    (hashed : hashvAt h' a = hashvAt h a) (keyed : Keyed hashFunction h a) :
    Keyed hashFunction h' a := by
  obtain ⟨k, key, value⟩ := keyed
  refine ⟨k, ?_, hashed.trans value⟩
  rw [keyAt, core]
  exact key

theorem TableHolds.congr {h h' : Elements π} {u : UTHash} {l : List Addr}
    (same : ∀ a ∈ l, h' a = h a) (holds : TableHolds hashFunction h u l) :
    TableHolds hashFunction h' u l := by
  obtain ⟨chains, chained⟩ := holds.chained
  have field : ∀ (F : Field Addr (Element π)), ∀ a ∈ l, links F h' a = links F h a := by
    intro F a member
    rw [links, same a member]
    rfl
  exact {
    distinct := holds.distinct
    head := holds.head
    tail := holds.tail
    app := segment_congr (field _) holds.app
    items := holds.items
    keyed := by
      intro a member
      apply (holds.keyed a member).congr
      · rw [coreAt, same a member]
        rfl
      · rw [hashvAt, same a member]
        rfl
    power := holds.power
    chained := by
      refine ⟨chains, chained.congr (field _) ?_⟩
      intro a member
      rw [hashvAt, same a member]
      rfl }

theorem Holds.congr {s : State π} {l : List Addr} {h' : Elements π}
    (same : ∀ a ∈ l, h' a = s.heap a) (holds : Holds hashFunction s l) :
    Holds hashFunction ⟨s.head, h'⟩ l := by
  unfold Holds at holds ⊢
  cases head : s.head with
  | none =>
    rw [head] at holds
    exact holds
  | some u =>
    rw [head] at holds
    exact TableHolds.congr same holds

theorem Holds.nodup {s : State π} {l : List Addr} (holds : Holds hashFunction s l) : l.Nodup := by
  unfold Holds at holds
  cases head : s.head with
  | none =>
    rw [head] at holds
    rw [holds]
    exact List.nodup_nil
  | some u =>
    rw [head] at holds
    exact holds.distinct

theorem Holds.head_eq {s : State π} {l : List Addr} (holds : Holds hashFunction s l) :
    s.head.map UTHash.head = l.head? := by
  unfold Holds at holds
  cases head : s.head with
  | none =>
    rw [head] at holds
    rw [holds]
    rfl
  | some u =>
    rw [head] at holds
    exact holds.head.symm

theorem Holds.app {s : State π} {l : List Addr} (holds : Holds hashFunction s l) :
    Segment (appLinks s.heap) none l none := by
  unfold Holds at holds
  cases head : s.head with
  | none =>
    rw [head] at holds
    rw [holds]
    trivial
  | some u =>
    rw [head] at holds
    exact holds.app

theorem Holds.keyed {s : State π} {l : List Addr} (holds : Holds hashFunction s l) {a : Addr}
    (member : a ∈ l) : Keyed hashFunction s.heap a := by
  unfold Holds at holds
  cases head : s.head with
  | none =>
    rw [head] at holds
    rw [holds] at member
    cases member
  | some u =>
    rw [head] at holds
    exact TableHolds.keyed holds a member

/- HASH_FIND. -/

theorem sameKey_iff (k : Key) (v : UInt32) (e : Element π) :
    sameKey k v e = true ↔ e.hh.hashv = v ∧ e.hh.key = k := by
  have whole : ∀ q : Key, q.bytes.take q.len.toNat = q.bytes := by
    intro q
    have fits := q.fits
    apply List.take_of_length_le
    rw [Key.len, UInt32.toNat_ofNat']
    omega
  unfold sameKey
  rw [Bool.and_eq_true, Bool.and_eq_true, beq_iff_eq, beq_iff_eq, beq_iff_eq, whole k]
  constructor
  · rintro ⟨⟨value, length⟩, bytes⟩
    refine ⟨value, ?_⟩
    rw [← length, whole] at bytes
    cases key : e.hh.key with
    | mk own fits =>
      rw [key] at bytes
      cases k
      cases bytes
      rfl
  · rintro ⟨value, rfl⟩
    exact ⟨⟨value, rfl⟩, whole _⟩

theorem testAt_iff {h : Elements π} {a : Addr} (keyed : Keyed hashFunction h a) (k : Key) :
    (h a).any (sameKey k (hashFunction k)) = true ↔ keyAt h a = some k := by
  obtain ⟨own, key, value⟩ := keyed
  obtain ⟨core, found, rfl⟩ := Option.map_eq_some_iff.mp key
  obtain ⟨e, record, rfl⟩ := Option.map_eq_some_iff.mp found
  have hashed : e.hh.hashv = hashFunction e.hh.key := by
    rw [hashvAt, record] at value
    exact Option.some.inj value
  rw [key, record, Option.any_some, sameKey_iff]
  constructor
  · rintro ⟨-, rfl⟩
    rfl
  · intro same
    obtain rfl := Option.some.inj same
    exact ⟨hashed, rfl⟩

theorem hashFind_ok {s : State π} {l : List Addr} (holds : Holds hashFunction s l) (k : Key)
    {fuel : Nat} (enough : l.length < fuel) :
    ∃ out, hashFind hashFunction fuel s k = .ok out ∧
      (out = none ↔ ∀ a ∈ l, keyAt s.heap a ≠ some k) ∧
      ∀ a, out = some a → a ∈ l ∧ keyAt s.heap a = some k := by
  have keyed := fun a (member : a ∈ l) => holds.keyed member
  unfold Holds at holds
  unfold hashFind
  cases head : s.head with
  | none =>
    rw [head] at holds
    subst holds
    exact ⟨none, rfl, by simp, by simp⟩
  | some u =>
    rw [head] at holds
    obtain ⟨chains, chained⟩ := holds.chained
    obtain ⟨b, found, bucket⟩ := chained.bucket (chained.select (hashFunction k))
    generalize index : (hashToBkt (hashFunction k) u.tbl.numBuckets).toNat = i at found bucket
    obtain ⟨bound, -⟩ := List.getElem?_eq_some_iff.mp found
    have short : (chains i).length < fuel := by
      have sub := List.subperm_of_subset (chained.unique i bound) fun _ => chained.mem bound
      exact Nat.lt_of_le_of_lt sub.length_le enough
    have searched := search_ok (sameKey k (hashFunction k)) bucket.linked short
    rw [← bucket.head] at searched
    refine ⟨(chains i).find? fun a => (s.heap a).any (sameKey k (hashFunction k)), ?_, ?_, ?_⟩
    · simp only [index, found, access_some, ok_bind, hashFindInBkt, searched]
    · rw [List.find?_eq_none]
      constructor
      · intro none_here a member hit
        obtain ⟨own, key, value⟩ := keyed a member
        have mine : own = k := Option.some.inj (key.symm.trans hit)
        have inside := chained.home member value
        rw [mine, index] at inside
        exact none_here a inside ((testAt_iff (keyed a member) k).mpr hit)
      · intro nowhere a inside hit
        have member := chained.mem bound inside
        exact nowhere a member ((testAt_iff (keyed a member) k).mp hit)
    · intro a out
      have member := chained.mem bound (List.mem_of_find?_eq_some out)
      have hit := @List.find?_some _ (fun a => (s.heap a).any (sameKey k (hashFunction k))) a _ out
      exact ⟨member, (testAt_iff (keyed a member) k).mp hit⟩

/- HASH_ADD. -/

theorem hashAddToTable_ok (malloc : Malloc) {fuel : Nat} {h : Elements π} {u : UTHash}
    {l : List Addr} {a : Addr} {v : UInt32} (distinct : (l ++ [a]).Nodup)
    (head : (l ++ [a]).head? = some u.head) (tail : u.tbl.tail = some a)
    (app : Segment (appLinks h) none (l ++ [a]) none)
    (items : u.tbl.numItems = UInt32.ofNat l.length)
    (keyed : ∀ b ∈ l ++ [a], Keyed hashFunction h b) (power : PowerOfTwo u.tbl)
    (chained : ∃ chains, Chained h u.tbl.buckets u.tbl.numBuckets l chains)
    (hashed : hashvAt h a = some v) (enough : l.length + 1 < fuel) :
    (hashAddToTable malloc fuel u v a h = .error .exited ∧
      overfills u.tbl (hashToBkt v u.tbl.numBuckets).toNat = true ∧
      malloc.gives (expandedSize u.tbl) = false) ∨
    ∃ s', hashAddToTable malloc fuel u v a h = .ok s' ∧ Holds hashFunction s' (l ++ [a]) ∧
      coreAt s'.heap = coreAt h := by
  obtain ⟨chains, chained⟩ := chained
  have parts := List.nodup_append.mp distinct
  have fresh : a ∉ l := fun member => parts.2.2 a member a (List.mem_singleton_self a) rfl
  let t : UTHashTable := { u.tbl with numItems := u.tbl.numItems + 1 }
  rcases hashAddToBkt_ok malloc (t := t) chained parts.1 power fresh hashed enough with
    ⟨stop, short⟩ | ⟨t', h', chains', run, outside, same_items, same_tail, power', chained'⟩
  · left
    refine ⟨?_, short⟩
    simp only [hashAddToTable, t] at stop ⊢
    rw [stop]
    rfl
  · right
    refine ⟨⟨some ⟨u.head, t'⟩, h'⟩, ?_, ?_, ?_⟩
    · simp only [hashAddToTable, t] at run ⊢
      rw [run]
      rfl
    · exact {
        distinct := distinct
        head := head
        tail := by
          rw [same_tail, List.getLast?_concat]
          exact tail
        app := segment_congr (fun b _ => (chain_edit outside b).1) app
        items := by
          rw [same_items, List.length_append, List.length_singleton]
          change u.tbl.numItems + 1 = _
          rw [items]
          simp
        keyed := fun b member =>
          (keyed b member).congr (chain_edit outside b).2.1 (chain_edit outside b).2.2
        power := power'
        chained := ⟨chains', chained'.reorder fun b => by simp [or_comm]⟩ }
    · funext b
      exact (chain_edit outside b).2.1

theorem write_key (h : Elements π) {a : Addr} {e : Element π} (live : h a = some e) (k : Key)
    (v : UInt32) :
    ∃ h', write h a (fun e => { e with hh := { e.hh with hashv := v, key := k } }) = some h' ∧
      (∀ b, b ≠ a → h' b = h b) ∧ hashvAt h' a = some v ∧
      (∃ link, appLinks h' a = some link) ∧
      coreAt h' = Function.update (coreAt h) a (some (e.payload, k)) := by
  refine ⟨_, by rw [write, live, Option.map_some], ?_, ?_, ?_, ?_⟩
  · intro b other
    exact Function.update_of_ne other _ _
  · simp [hashvAt]
  · simp [links]
  · funext b
    by_cases here : b = a
    · subst here
      simp [coreAt]
    · simp [coreAt, here]

def initialSizes : List Nat := [sizeofTable, hashInitialNumBuckets.toNat * sizeofBucket]

theorem overfills_new {t : UTHashTable} {size : Nat}
    (empty : t.buckets = List.replicate size emptyBucket) (bkt : Nat) :
    overfills t bkt = false := by
  unfold overfills
  cases found : t.buckets[bkt]? with
  | none => rfl
  | some b =>
    rw [empty] at found
    obtain ⟨bound, rfl⟩ := List.getElem?_eq_some_iff.mp found
    rw [List.getElem_replicate]
    rfl

theorem hashMakeTable_ok (malloc : Malloc) (a : Addr) :
    (hashMakeTable malloc a = .error .exited ∧
      ∃ size ∈ initialSizes, malloc.gives size = false) ∨
    ∃ t, hashMakeTable malloc a = .ok t ∧ t.tail = some a ∧ t.numItems = 0 ∧ PowerOfTwo t ∧
      (∀ bkt, overfills t bkt = false) ∧
      ∀ h : Elements π, Chained h t.buckets t.numBuckets [] fun _ => [] := by
  unfold hashMakeTable
  cases table : malloc.gives sizeofTable with
  | false => exact Or.inl ⟨rfl, _, List.mem_cons_self, table⟩
  | true =>
    cases buckets : malloc.gives (hashInitialNumBuckets.toNat * sizeofBucket) with
    | false => exact Or.inl ⟨rfl, _, List.mem_cons_of_mem _ List.mem_cons_self, buckets⟩
    | true =>
      right
      exact ⟨_, rfl, rfl, rfl, rfl, overfills_new rfl, fun h => chained_new h rfl (by decide)⟩

def bucketsOf (s : State π) : UInt32 :=
  match s.head with
  | none => hashInitialNumBuckets
  | some u => u.tbl.numBuckets

/-- What an add asks malloc for: the first table, or more buckets when the one of the key is
    full. -/
def askedSizes (hash : Key → UInt32) (s : State π) (k : Key) : List Nat :=
  match s.head with
  | none => initialSizes
  | some u =>
    if overfills u.tbl (hashToBkt (hash k) u.tbl.numBuckets).toNat then
      [expandedSize u.tbl]
    else []

def OutOfMemory (hash : Key → UInt32) (malloc : Malloc) (s : State π) (k : Key) : Prop :=
  ∃ size ∈ askedSizes hash s k, malloc.gives size = false

def Added (hash : Key → UInt32) (malloc : Malloc) (fuel : Nat) (s : State π) (k : Key) (a : Addr)
    (p : π) (l : List Addr) : Prop :=
  (hashAddKeyptr hash malloc fuel s k a = .error .exited ∧ OutOfMemory hash malloc s k) ∨
  ∃ s', hashAddKeyptr hash malloc fuel s k a = .ok s' ∧ Holds hash s' (l ++ [a]) ∧
    coreAt s'.heap = Function.update (coreAt s.heap) a (some (p, k))

theorem hashAddKeyptr_first (malloc : Malloc) {fuel : Nat} {s : State π} (null : s.head = none)
    {a : Addr} {e : Element π} (live : s.heap a = some e) (k : Key) (enough : 1 < fuel) :
    Added hashFunction malloc fuel s k a e.payload [] := by
  obtain ⟨h₁, wrote, -, hashed, ⟨link, linked⟩, core⟩ := write_key s.heap live k (hashFunction k)
  have mine : Keyed hashFunction h₁ a := ⟨k, by rw [keyAt, core]; simp, hashed⟩
  obtain ⟨h₂, h₃, next_null, prev_null, links₃, outside⟩ := set_both linked none none
  have look := app_edit outside a
  unfold Added hashAddKeyptr OutOfMemory askedSizes
  simp only [null, wrote, next_null, prev_null, access_some, ok_bind]
  rcases @hashMakeTable_ok π malloc a with
    ⟨stop, short⟩ | ⟨t, made, tail, items, power, roomy, chained⟩
  · left
    rw [stop]
    exact ⟨rfl, short⟩
  · rw [made, ok_bind]
    have single : Segment (appLinks h₃) none ([] ++ [a]) none :=
      ⟨by rw [appLinks, links₃]; simp, trivial⟩
    have keyed : ∀ b ∈ [] ++ [a], Keyed hashFunction h₃ b := by
      intro b member
      rw [List.nil_append, List.mem_singleton] at member
      subst member
      exact mine.congr look.2.1 look.2.2
    rcases hashAddToTable_ok malloc (u := ⟨a, t⟩) (List.nodup_singleton a) rfl tail single items
      keyed power ⟨_, chained h₃⟩ (look.2.2.trans hashed) enough with
      ⟨-, full, -⟩ | ⟨s', run, after, cores⟩
    · rw [roomy] at full
      cases full
    · refine Or.inr ⟨s', run, after, ?_⟩
      rw [cores, ← core]
      funext b
      exact (app_edit outside b).2.1

theorem hashAddKeyptr_later (malloc : Malloc) {fuel : Nat} {s : State π} {u : UTHash}
    (head : s.head = some u) {l : List Addr} (holds : TableHolds hashFunction s.heap u l)
    {a : Addr} {e : Element π} (fresh : a ∉ l) (live : s.heap a = some e) (k : Key)
    (enough : l.length + 1 < fuel) :
    Added hashFunction malloc fuel s k a e.payload l := by
  obtain ⟨h₁, wrote, others, hashed, ⟨link, linked⟩, core⟩ :=
    write_key s.heap live k (hashFunction k)
  have mine : Keyed hashFunction h₁ a := ⟨k, by rw [keyAt, core]; simp, hashed⟩
  have table : TableHolds hashFunction h₁ u l :=
    holds.congr fun b member => others b fun same => fresh (same ▸ member)
  have distinct : (l ++ [a]).Nodup := by
    rw [List.nodup_append]
    refine ⟨holds.distinct, List.nodup_singleton a, ?_⟩
    intro b old c new same
    rw [List.mem_singleton] at new
    exact fresh (new ▸ same ▸ old)
  obtain ⟨last, end_of⟩ : ∃ last, l.getLast? = some last := by
    cases l with
    | nil => cases table.head
    | cons b rest => exact ⟨_, List.getLast?_eq_getLast_of_ne_nil (by simp)⟩
  obtain ⟨h₂, appended, relinked⟩ := append_ok linked end_of fresh holds.distinct table.app
  have look := fun b => app_edit relinked.outside b
  obtain ⟨chains, chained⟩ := table.chained
  have run₂ : hashAppendList u.tbl a h₁ = .ok ({ u.tbl with tail := some a }, h₂) := by
    simp only [hashAppendList, table.tail, end_of, access_some, ok_bind, appended]
  unfold Added hashAddKeyptr OutOfMemory askedSizes
  simp only [head, wrote, run₂, access_some, ok_bind]
  have first : (l ++ [a]).head? = some u.head := by
    rw [List.head?_append, table.head]
    rfl
  have keyed : ∀ b ∈ l ++ [a], Keyed hashFunction h₂ b := by
    intro b member
    rw [List.mem_append, List.mem_singleton] at member
    rcases member with old | rfl
    · exact (table.keyed b old).congr (look b).2.1 (look b).2.2
    · exact mine.congr (look b).2.1 (look b).2.2
  have chained₂ := chained.congr (fun b _ => (look b).1) (fun b _ => (look b).2.2)
  rcases hashAddToTable_ok malloc (u := ⟨u.head, { u.tbl with tail := some a }⟩) distinct first
    rfl relinked.linked table.items keyed table.power ⟨chains, chained₂⟩
    ((look a).2.2.trans hashed) enough with ⟨stop, full, short⟩ | ⟨s', run, after, cores⟩
  · refine Or.inl ⟨stop, expandedSize u.tbl, ?_, short⟩
    have asks : overfills u.tbl (hashToBkt (hashFunction k) u.tbl.numBuckets).toNat = true :=
      full
    rw [if_pos asks]
    exact List.mem_singleton_self _
  · refine Or.inr ⟨s', run, after, ?_⟩
    rw [cores, ← core]
    funext b
    exact (look b).2.1

/-- The new element is the last of the list; the call ends otherwise only when malloc refuses
    what it asks for. -/
theorem hashAddKeyptr_ok (malloc : Malloc) {fuel : Nat} {s : State π} {l : List Addr}
    (holds : Holds hashFunction s l) {a : Addr} {e : Element π} (fresh : a ∉ l)
    (live : s.heap a = some e) (k : Key) (enough : l.length + 1 < fuel) :
    Added hashFunction malloc fuel s k a e.payload l := by
  unfold Holds at holds
  cases head : s.head with
  | none =>
    rw [head] at holds
    obtain rfl : l = [] := holds
    exact hashAddKeyptr_first malloc head live k enough
  | some u =>
    rw [head] at holds
    exact hashAddKeyptr_later malloc head holds fresh live k enough

/- HASH_DEL. -/

theorem getLast?_eq_none {l : List Addr} : l.getLast? = none ↔ l = [] := by simp

theorem hashDelInBkt_ok {t : UTHashTable} {h : Elements π} {members : List Addr}
    (chained : ∃ chains, Chained h t.buckets t.numBuckets members chains)
    (distinct : members.Nodup) {a : Addr} {v : UInt32} (member : a ∈ members)
    (hashed : hashvAt h a = some v) :
    ∃ t' h', hashDelInBkt t (hashToBkt v t.numBuckets).toNat a h = .ok (t', h') ∧
      Outside (chainField π) h h' ∧ t'.numItems = t.numItems ∧ t'.tail = t.tail ∧
      (PowerOfTwo t → PowerOfTwo t') ∧
      ∃ chains', Chained h' t'.buckets t'.numBuckets (members.erase a) chains' := by
  obtain ⟨chains, chained⟩ := chained
  obtain ⟨b, front, back, h', found, bucket, unique, gone, outside, next⟩ :=
    chained.remove distinct member hashed
  have middle := segment_middle bucket.linked
  obtain ⟨e, record, mine⟩ := Option.map_eq_some_iff.mp middle
  have behind : e.hh.hhNext = back.head? := congrArg Link.next mine
  have apart : a ∉ front ++ back := (List.nodup_cons.mp (List.nodup_middle.mp unique)).1
  have first : (if b.hhHead = some a then e.hh.hhNext else b.hhHead) = (front ++ back).head? := by
    rw [bucket.head, behind]
    cases front with
    | nil => simp
    | cons c rest =>
      have other : c ≠ a := fun same => apart (by simp [same])
      simp [other]
  let b' : UTHashBucket := { b with hhHead := (front ++ back).head?, count := b.count - 1 }
  have run : hashDelInBkt t (hashToBkt v t.numBuckets).toNat a h =
      .ok ({ t with buckets := t.buckets.set (hashToBkt v t.numBuckets).toNat b' }, h') := by
    simp only [hashDelInBkt, found, record, access_some, ok_bind, gone, first, b']
  exact ⟨_, h', run, outside, rfl, rfl, id, next b' rfl rfl⟩

theorem removed_head {front back : List Addr} {a h : Addr}
    (is_head : (front ++ a :: back).head? = some h)
    (others : ¬ (front.getLast? = none ∧ back.head? = none)) :
    ∃ first, (if front.getLast? = none then back.head? else some h) = some first ∧
      (front ++ back).head? = some first := by
  cases front with
  | nil =>
    cases back with
    | nil => simp at others
    | cons c rest => exact ⟨c, by simp, rfl⟩
  | cons c rest =>
    refine ⟨c, ?_, rfl⟩
    simp only [List.cons_append, List.head?_cons] at is_head
    rw [if_neg (by simp), ← is_head]

theorem removed_tail {front back : List Addr} {a : Addr} {tail : Option Addr}
    (is_tail : tail = (front ++ a :: back).getLast?) (not_right : a ∉ back) :
    (if tail = some a then front.getLast? else tail) = (front ++ back).getLast? := by
  rw [is_tail, List.getLast?_append, List.getLast?_append]
  rcases List.eq_nil_or_concat' back with rfl | ⟨rest, c, rfl⟩
  · simp
  · have other : c ≠ a := fun same => not_right (by simp [same])
    have last : (a :: (rest ++ [c])).getLast? = some c := by
      rw [← List.cons_append, List.getLast?_concat]
    rw [last, List.getLast?_concat]
    simp [other]

theorem hashDeleteHh_ok {s : State π} {l : List Addr} (holds : Holds hashFunction s l) {a : Addr}
    (member : a ∈ l) :
    ∃ s', hashDeleteHh s a = .ok s' ∧ Holds hashFunction s' (l.erase a) ∧
      coreAt s'.heap = coreAt s.heap := by
  unfold Holds at holds
  unfold hashDeleteHh
  cases head : s.head with
  | none =>
    rw [head] at holds
    obtain rfl : l = [] := holds
    cases member
  | some u =>
    rw [head] at holds
    have table : TableHolds hashFunction s.heap u l := holds
    obtain ⟨front, back, rfl⟩ := List.append_of_mem member
    have apart := List.nodup_middle.mp table.distinct
    have not_left : a ∉ front := fun inside => (List.nodup_cons.mp apart).1 (by simp [inside])
    have not_right : a ∉ back := fun inside => (List.nodup_cons.mp apart).1 (by simp [inside])
    have erased : (front ++ a :: back).erase a = front ++ back := by
      rw [List.erase_append_right _ not_left, List.erase_cons_head]
    have middle := segment_middle table.app
    obtain ⟨e, record, mine⟩ := Option.map_eq_some_iff.mp middle
    have before : e.hh.prev = front.getLast? := congrArg Link.prev mine
    have behind : e.hh.next = back.head? := congrArg Link.next mine
    simp only [access_some, ok_bind, record, before, behind]
    rw [erased]
    by_cases alone : front.getLast? = none ∧ back.head? = none
    · have nothing : front ++ back = [] := by
        rw [getLast?_eq_none.mp alone.1, List.head?_eq_none_iff.mp alone.2]
        rfl
      rw [if_pos alone]
      exact ⟨_, rfl, nothing, rfl⟩
    · rw [if_neg alone]
      have new_tail := removed_tail table.tail not_right
      obtain ⟨first, choose, is_first⟩ := removed_head table.head alone
      obtain ⟨h₁, gone, relinked⟩ := unlink_ok table.distinct table.app
      have look := fun b => app_edit relinked.outside b
      obtain ⟨chains, chained⟩ := table.chained
      have chained₁ := chained.congr (fun b _ => (look b).1) (fun b _ => (look b).2.2)
      have hashed : hashvAt h₁ a = some e.hh.hashv := by
        rw [(look a).2.2, hashvAt, record]
        rfl
      obtain ⟨t', h₂, run, outside, items, tail, power, chained₂⟩ :=
        hashDelInBkt_ok (t := { u.tbl with tail := (front ++ back).getLast? }) ⟨chains, chained₁⟩
          table.distinct member hashed
      rw [choose, new_tail]
      simp only [access_some, ok_bind, gone]
      simp only at run
      rw [run]
      refine ⟨_, rfl, ?_, ?_⟩
      · rw [erased] at chained₂
        exact {
          distinct := (List.nodup_cons.mp apart).2
          head := is_first
          tail := tail
          app := segment_congr (fun b _ => (chain_edit outside b).1) relinked.linked
          items := by
            change t'.numItems - 1 = _
            have plus : (front ++ a :: back).length = (front ++ back).length + 1 := by simp; omega
            rw [items]
            change u.tbl.numItems - 1 = _
            rw [table.items, plus]
            simp
          keyed := by
            intro b inside
            have old : b ∈ front ++ a :: back := by simp at inside ⊢; tauto
            have kept := (table.keyed b old).congr (look b).2.1 (look b).2.2
            exact kept.congr (chain_edit outside b).2.1 (chain_edit outside b).2.2
          power := power table.power
          chained := chained₂ }
      · funext b
        exact ((chain_edit outside b).2.1).trans (look b).2.1

/- HASH_FSCK. -/

theorem fsckList_ok (F : Field Addr (Element π)) {h : Elements π} {l : List Addr}
    {p : Option Addr} (linked : Segment (links F h) p l none) {fuel : Nat}
    (enough : l.length < fuel) (n : UInt32) :
    fsckList F h fuel p l.head? n = .ok (some (n + UInt32.ofNat l.length)) := by
  induction l generalizing p fuel n with
  | nil =>
    obtain ⟨k, rfl⟩ : ∃ k, fuel = k + 1 := ⟨fuel - 1, by simp at enough; omega⟩
    simp [fsckList]
  | cons a rest ih =>
    obtain ⟨k, rfl⟩ : ∃ k, fuel = k + 1 := ⟨fuel - 1, by omega⟩
    obtain ⟨e, record, mine⟩ := Option.map_eq_some_iff.mp linked.1
    have later := ih linked.2 (by simpa using enough) (n + 1)
    rw [List.head?_cons, fsckList, record]
    simp only [access_some, ok_bind, mine, if_true, Option.or_none]
    rw [later, List.length_cons, UInt32.ofNat_add, UInt32.add_comm (UInt32.ofNat rest.length),
      UInt32.add_assoc]
    rfl

theorem fsckBuckets_ok {h : Elements π} {buckets : List UTHashBucket} {lists : List (List Addr)}
    (hold : List.Forall₂ (BucketHolds h) buckets lists) {fuel : Nat}
    (enough : lists.flatten.length < fuel) (n : UInt32) :
    fsckBuckets h fuel buckets n = .ok (some (n + UInt32.ofNat lists.flatten.length)) := by
  induction hold generalizing n with
  | nil => simp [fsckBuckets]
  | @cons b list buckets lists here later ih =>
    rw [List.flatten_cons, List.length_append] at enough
    have short : list.length < fuel := by omega
    have walked := fsckList_ok (chainField π) here.linked short 0
    rw [UInt32.zero_add] at walked
    rw [fsckBuckets, here.head, walked]
    simp only [ok_bind, here.count, if_true]
    rw [ih (by omega), List.flatten_cons, List.length_append, UInt32.ofNat_add, UInt32.add_assoc]

theorem hashFsck_ok {s : State π} {l : List Addr} (holds : Holds hashFunction s l) {fuel : Nat}
    (enough : l.length < fuel) : hashFsck fuel s = .ok true := by
  unfold Holds at holds
  unfold hashFsck
  cases head : s.head with
  | none => rfl
  | some u =>
    rw [head] at holds
    have table : TableHolds hashFunction s.heap u l := holds
    obtain ⟨chains, chained⟩ := table.chained
    obtain ⟨lists, hold, perm⟩ := chained.lists table.distinct
    have buckets := fsckBuckets_ok hold (by rw [perm.length_eq]; exact enough) 0
    have list := fsckList_ok (appField π) table.app enough 0
    rw [UInt32.zero_add] at buckets list
    rw [perm.length_eq] at buckets
    rw [table.head] at list
    simp only [buckets, ok_bind, list, table.items, if_true, beq_self_eq_true]

/- HASH_ITER, against the walk over a list that its pointers follow. -/

section Iteration
open SavedSuccessor

variable {ν : Type} (address : ν → Addr)

/-- The heap has the nodes of the list, linked in its order, and nothing else. -/
structure Threaded (h : Elements π) (l : List ν) : Prop where
  linked : Segment (appLinks h) none (l.map address) none
  distinct : (l.map address).Nodup
  only : ∀ a, a ∉ l.map address → h a = none

theorem nextOf_threaded {h : Elements π} {l : List ν} {p : Option Addr}
    (linked : Segment (appLinks h) p (l.map address) none) {a : Addr} (member : a ∈ l.map address) :
    ∃ next, SavedSuccessor.nextOf address l a = some next ∧ nextOf h (some a) = .ok next := by
  induction l generalizing p with
  | nil => cases member
  | cons n rest ih =>
    rw [List.map_cons] at linked
    by_cases here : address n = a
    · obtain ⟨e, record, mine⟩ := Option.map_eq_some_iff.mp linked.1
      have next : e.hh.next = SavedSuccessor.head address rest := by
        have both := congrArg Link.next mine
        rw [Option.or_none, List.head?_map] at both
        exact both
      refine ⟨SavedSuccessor.head address rest, ?_, ?_⟩
      · rw [SavedSuccessor.nextOf, if_pos here]
      · rw [← here, nextOf, record, access_some, ok_bind, next]
    · have later : a ∈ rest.map address := by
        rw [List.map_cons, List.mem_cons] at member
        exact member.resolve_left (Ne.symm here)
      obtain ⟨next, mine, same⟩ := ih linked.2 later
      refine ⟨next, ?_, same⟩
      rw [SavedSuccessor.nextOf, if_neg here]
      exact mine

theorem nextOf_absent {l : List ν} {a : Addr} (absent : a ∉ l.map address) :
    SavedSuccessor.nextOf address l a = none := by
  induction l with
  | nil => rfl
  | cons n rest ih =>
    rw [List.map_cons, List.mem_cons, not_or] at absent
    rw [SavedSuccessor.nextOf, if_neg (Ne.symm absent.1)]
    exact ih absent.2

theorem nextOf_advance {h : Elements π} {l : List ν} (threaded : Threaded address h l)
    (tmp : Option Addr) :
    (∃ next, advance address l tmp = some next ∧ nextOf h tmp = .ok next) ∨
    (advance address l tmp = none ∧ nextOf h tmp = .error .stuck) := by
  cases tmp with
  | none => exact Or.inl ⟨none, rfl, rfl⟩
  | some a =>
    by_cases member : a ∈ l.map address
    · left
      exact nextOf_threaded address threaded.linked member
    · right
      refine ⟨nextOf_absent address member, ?_⟩
      rw [nextOf, threaded.only a member]
      rfl

/-- What the loop over the heap returns for a walk over the list. -/
def Follows (related : State π → List ν → Prop) (w : Walk ν)
    (r : Except Trap (List Addr × State π)) : Prop :=
  match w with
  | .finished visited left => ∃ s', r = .ok (visited.map address, s') ∧ related s' left
  | .dangling => r = .error .stuck
  | .unfinished => r = .error .stuck

theorem hashIterLoop_follows (related : State π → List ν → Prop)
    (body : Addr → State π → Except Trap (State π)) (listBody : ν → List ν → List ν)
    (threaded : ∀ s l, related s l → Threaded address s.heap l)
    (visits : ∀ s l n, related s l → n ∈ l →
      ∃ s', body (address n) s = .ok s' ∧ related s' (listBody n l))
    (released : ∀ s a, s.heap a = none → body a s = .error .stuck)
    (fuel : Nat) {s : State π} {l : List ν} (start : related s l) (el tmp : Option Addr) :
    Follows address related (loop address listBody fuel l el tmp)
      (hashIterLoop body fuel el tmp s) := by
  induction fuel generalizing s l el tmp with
  | zero => rfl
  | succ fuel ih =>
    cases el with
    | none => exact ⟨s, rfl, start⟩
    | some a =>
      unfold loop hashIterLoop
      cases found : find address l a with
      | none =>
        have absent : a ∉ l.map address := by
          intro member
          obtain ⟨n, inside, here⟩ := List.mem_map.mp member
          have miss := List.find?_eq_none.mp found n inside
          simp [here] at miss
        rw [released s a ((threaded s l start).only a absent)]
        rfl
      | some n =>
        have inside := mem_of_find address found
        have here : address n = a := by
          have hit := @List.find?_some _ (fun m => decide (address m = a)) n _ found
          exact of_decide_eq_true hit
        obtain ⟨s', ran, after⟩ := visits s l n start inside
        rw [← here, ran]
        simp only [ok_bind]
        rcases nextOf_advance address (threaded s' _ after) tmp with
          ⟨next, list_next, heap_next⟩ | ⟨list_next, heap_next⟩
        · rw [list_next, heap_next]
          simp only [ok_bind]
          have rest := ih after tmp next
          unfold Follows at rest ⊢
          cases walk : loop address listBody fuel (listBody n l) tmp next with
          | finished visited left =>
            rw [walk] at rest
            obtain ⟨s'', run, last⟩ := rest
            rw [run]
            exact ⟨s'', rfl, last⟩
          | dangling =>
            rw [walk] at rest
            rw [rest]
            rfl
          | unfinished =>
            rw [walk] at rest
            rw [rest]
            rfl
        · rw [list_next, heap_next]
          rfl

theorem hashIter_follows (related : State π → List ν → Prop)
    (body : Addr → State π → Except Trap (State π)) (listBody : ν → List ν → List ν)
    (threaded : ∀ s l, related s l → Threaded address s.heap l)
    (visits : ∀ s l n, related s l → n ∈ l →
      ∃ s', body (address n) s = .ok s' ∧ related s' (listBody n l))
    (released : ∀ s a, s.heap a = none → body a s = .error .stuck)
    {s : State π} {l : List ν} (start : related s l)
    (first : s.head.map UTHash.head = head address l) (fuel : Nat) :
    Follows address related
      (loop address listBody fuel l (head address l) (head address l.tail))
      (hashIter body fuel s) := by
  have run := hashIterLoop_follows address related body listBody threaded visits released
    fuel start (head address l) (head address l.tail)
  rcases nextOf_advance address (threaded s l start) (head address l) with
    ⟨next, saved, same⟩ | ⟨lost, -⟩
  · rw [advance_head] at saved
    obtain rfl := Option.some.inj saved
    unfold hashIter
    simp only [first, same, ok_bind]
    exact run
  · rw [advance_head] at lost
    cases lost

end Iteration

end XSKUthash
