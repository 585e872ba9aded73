import XSKNet.IntrusiveList
import Mathlib.Data.Nat.ModEq

/- uthash.h as veth_list.c uses it: no bloom filter, and a failed malloc ends the process.
   An element is a record at an address, with its hash handle in it, so the address of the
   element stands for the address of the handle too. -/
namespace XSKUthash
open IntrusiveList

abbrev Addr : Type := Nat

/-- keyptr and keylen: the bytes that keylen covers. -/
structure Key where
  bytes : List UInt8
  fits : bytes.length < 2 ^ 32
  deriving DecidableEq

def Key.len (k : Key) : UInt32 := UInt32.ofNat k.bytes.length

structure UTHashHandle where
  prev : Option Addr
  next : Option Addr
  hhPrev : Option Addr
  hhNext : Option Addr
  key : Key
  hashv : UInt32
  deriving DecidableEq

structure Element (π : Type) where
  payload : π
  hh : UTHashHandle

structure UTHashBucket where
  hhHead : Option Addr
  count : UInt32
  expandMult : UInt32
  deriving DecidableEq

def emptyBucket : UTHashBucket := ⟨none, 0, 0⟩

structure UTHashTable where
  buckets : List UTHashBucket
  numBuckets : UInt32
  log2NumBuckets : UInt32
  numItems : UInt32
  tail : Option Addr
  idealChainMaxlen : UInt32
  nonidealItems : UInt32
  ineffExpands : UInt32
  noexpand : UInt32
  deriving DecidableEq

def appField (π : Type) : Field Addr (Element π) where
  get e := ⟨e.hh.prev, e.hh.next⟩
  put e l := { e with hh := { e.hh with prev := l.prev, next := l.next } }
  get_put _ _ := rfl
  put_get _ := rfl
  put_put _ _ _ := rfl

def chainField (π : Type) : Field Addr (Element π) where
  get e := ⟨e.hh.hhPrev, e.hh.hhNext⟩
  put e l := { e with hh := { e.hh with hhPrev := l.prev, hhNext := l.next } }
  get_put _ _ := rfl
  put_get _ := rfl
  put_put _ _ _ := rfl

/-- A head that is not null, with the table that its handle points to. -/
structure UTHash where
  head : Addr
  tbl : UTHashTable

abbrev Elements (π : Type) := Heap Addr (Element π)

structure State (π : Type) where
  head : Option UTHash
  heap : Elements π

/-- exited is uthash_fatal; stuck is an access outside the live elements and buckets, or a
    loop without end. -/
inductive Trap where
  | exited
  | stuck
  deriving DecidableEq

def access {α : Type} : Option α → Except Trap α
  | some x => .ok x
  | none => .error .stuck

@[simp] theorem access_some {α : Type} (x : α) : access (some x) = .ok x := rfl

@[simp] theorem ok_bind {α β : Type} (x : α) (f : α → Except Trap β) :
    (Except.ok x >>= f) = f x := rfl

/-- No process gets 64 GiB in one piece. -/
structure Malloc where
  gives : Nat → Bool
  bounded : ∀ size, 2 ^ 36 ≤ size → gives size = false

def sizeofTable : Nat := 64
def sizeofBucket : Nat := 16

def hashInitialNumBuckets : UInt32 := 32
def hashInitialNumBucketsLog2 : UInt32 := 5
def hashBktCapacityThresh : UInt32 := 10

/- HASH_JEN, the hash function of HASH_VALUE. -/

def hashJenMix (a b c : UInt32) : UInt32 × UInt32 × UInt32 :=
  let a := (a - b - c) ^^^ (c >>> 13)
  let b := (b - c - a) ^^^ (a <<< 8)
  let c := (c - a - b) ^^^ (b >>> 13)
  let a := (a - b - c) ^^^ (c >>> 12)
  let b := (b - c - a) ^^^ (a <<< 16)
  let c := (c - a - b) ^^^ (b >>> 5)
  let a := (a - b - c) ^^^ (c >>> 3)
  let b := (b - c - a) ^^^ (a <<< 10)
  let c := (c - a - b) ^^^ (b >>> 15)
  (a, b, c)

def jenWord (b₀ b₁ b₂ b₃ : UInt8) : UInt32 :=
  b₀.toUInt32 + (b₁.toUInt32 <<< 8) + (b₂.toUInt32 <<< 16) + (b₃.toUInt32 <<< 24)

/-- Blocks of twelve bytes; what is left is shorter. -/
def hashJenLoop : List UInt8 → UInt32 × UInt32 × UInt32 → List UInt8 × UInt32 × UInt32 × UInt32
  | b₀ :: b₁ :: b₂ :: b₃ :: b₄ :: b₅ :: b₆ :: b₇ :: b₈ :: b₉ :: b₁₀ :: b₁₁ :: rest, (i, j, hashv) =>
    hashJenLoop rest (hashJenMix (i + jenWord b₀ b₁ b₂ b₃) (j + jenWord b₄ b₅ b₆ b₇)
      (hashv + jenWord b₈ b₉ b₁₀ b₁₁))
  | rest, s => (rest, s)

/-- The switch falls through, so every byte left is added; the lowest byte of the hash value
    is the length. -/
def hashJen (k : Key) : UInt32 :=
  let (rest, i, j, hashv) := hashJenLoop k.bytes (0x9e3779b9, 0x9e3779b9, 0xfeedbeef)
  let byte := fun n => rest.getD n 0
  let hashv := hashv + k.len + jenWord 0 (byte 8) (byte 9) (byte 10)
  let j := j + jenWord (byte 4) (byte 5) (byte 6) (byte 7)
  let i := i + jenWord (byte 0) (byte 1) (byte 2) (byte 3)
  (hashJenMix i j hashv).2.2

section Macros
variable {π : Type} (hashFunction : Key → UInt32)

def hashToBkt (hashv numBkts : UInt32) : UInt32 := hashv &&& (numBkts - 1)

/-- HASH_FIND_IN_BKT compares the hash values first, then the lengths, then the bytes. -/
def sameKey (k : Key) (hashval : UInt32) (e : Element π) : Bool :=
  e.hh.hashv == hashval && e.hh.key.len == k.len &&
    e.hh.key.bytes.take k.len.toNat == k.bytes.take k.len.toNat

def hashFindInBkt (fuel : Nat) (h : Elements π) (b : UTHashBucket) (k : Key) (hashval : UInt32) :
    Option (Option Addr) :=
  search (chainField π) (sameKey k hashval) h fuel b.hhHead

def hashFind (fuel : Nat) (s : State π) (k : Key) : Except Trap (Option Addr) :=
  match s.head with
  | none => .ok none
  | some u => do
    let hashv := hashFunction k
    let b ← access u.tbl.buckets[(hashToBkt hashv u.tbl.numBuckets).toNat]?
    access (hashFindInBkt fuel s.heap b k hashv)

def hashMakeTable (malloc : Malloc) (head : Addr) : Except Trap UTHashTable :=
  if malloc.gives sizeofTable && malloc.gives (hashInitialNumBuckets.toNat * sizeofBucket) then
    .ok {
      buckets := List.replicate hashInitialNumBuckets.toNat emptyBucket
      numBuckets := hashInitialNumBuckets
      log2NumBuckets := hashInitialNumBucketsLog2
      numItems := 0
      tail := some head
      idealChainMaxlen := 0
      nonidealItems := 0
      ineffExpands := 0
      noexpand := 0 }
  else .error .exited

/-- What HASH_EXPAND_BUCKETS builds up while it moves the elements. -/
structure Redistribution (π : Type) where
  nonidealItems : UInt32
  newBuckets : List UTHashBucket
  heap : Elements π

def countUp (ideal : UInt32) (b : UTHashBucket) : UTHashBucket :=
  let b := { b with count := b.count + 1 }
  if ideal < b.count ∧ b.expandMult * ideal < b.count then
    { b with expandMult := b.expandMult + 1 }
  else b

def moveElement (ideal numBkts : UInt32) (s : Redistribution π) (thh : Addr) :
    Option (Redistribution π) := do
  let e ← s.heap thh
  let bkt := (hashToBkt e.hh.hashv numBkts).toNat
  let old ← s.newBuckets[bkt]?
  let newbkt := countUp ideal old
  let h ← pushFront (chainField π) s.heap thh newbkt.hhHead
  some {
    nonidealItems := if ideal < newbkt.count then s.nonidealItems + 1 else s.nonidealItems
    newBuckets := s.newBuckets.set bkt { newbkt with hhHead := some thh }
    heap := h }

/-- The successor is read before the element is moved. -/
def moveChain (ideal numBkts : UInt32) :
    Nat → Option Addr → Redistribution π → Option (Redistribution π)
  | 0, _, _ => none
  | _ + 1, none, s => some s
  | fuel + 1, some thh, s => do
    let e ← s.heap thh
    let s ← moveElement ideal numBkts s thh
    moveChain ideal numBkts fuel e.hh.hhNext s

def idealChainMaxlen (t : UTHashTable) : UInt32 :=
  (t.numItems >>> (t.log2NumBuckets + 1)) +
    if t.numItems &&& (t.numBuckets * 2 - 1) ≠ 0 then 1 else 0

def hashExpandBuckets (malloc : Malloc) (fuel : Nat) (t : UTHashTable) (h : Elements π) :
    Except Trap (UTHashTable × Elements π) :=
  if malloc.gives (sizeofBucket * t.numBuckets.toNat * 2) then do
    let ideal := idealChainMaxlen t
    let new := List.replicate (t.numBuckets.toNat * 2) emptyBucket
    let s ← access (t.buckets.foldlM
      (fun s b => moveChain ideal (t.numBuckets * 2) fuel b.hhHead s) ⟨0, new, h⟩)
    let ineff := if t.numItems >>> 1 < s.nonidealItems then t.ineffExpands + 1 else 0
    .ok ({ t with
      buckets := s.newBuckets
      numBuckets := t.numBuckets * 2
      log2NumBuckets := t.log2NumBuckets + 1
      idealChainMaxlen := ideal
      nonidealItems := s.nonidealItems
      ineffExpands := ineff
      noexpand := if 1 < ineff then 1 else t.noexpand }, s.heap)
  else .error .exited

def wantsExpand (t : UTHashTable) (b : UTHashBucket) : Bool :=
  decide ((b.expandMult + 1) * hashBktCapacityThresh ≤ b.count) && t.noexpand == 0

def hashAddToBkt (malloc : Malloc) (fuel : Nat) (t : UTHashTable) (bkt : Nat) (add : Addr)
    (h : Elements π) : Except Trap (UTHashTable × Elements π) := do
  let b ← access t.buckets[bkt]?
  let h ← access (pushFront (chainField π) h add b.hhHead)
  let b := { b with hhHead := some add, count := b.count + 1 }
  let t := { t with buckets := t.buckets.set bkt b }
  if wantsExpand t b then hashExpandBuckets malloc fuel t h else .ok (t, h)

def hashAppendList (t : UTHashTable) (add : Addr) (h : Elements π) :
    Except Trap (UTHashTable × Elements π) := do
  let last ← access t.tail
  let h ← access (append (appField π) h add last)
  .ok ({ t with tail := some add }, h)

def hashAddToTable (malloc : Malloc) (fuel : Nat) (u : UTHash) (hashval : UInt32) (add : Addr)
    (h : Elements π) : Except Trap (State π) := do
  let t := { u.tbl with numItems := u.tbl.numItems + 1 }
  let (t, h) ← hashAddToBkt malloc fuel t (hashToBkt hashval t.numBuckets).toNat add h
  .ok ⟨some ⟨u.head, t⟩, h⟩

def hashAddKeyptr (malloc : Malloc) (fuel : Nat) (s : State π) (k : Key) (add : Addr) :
    Except Trap (State π) := do
  let hashv := hashFunction k
  let h ← access (write s.heap add fun e =>
    { e with hh := { e.hh with hashv := hashv, key := k } })
  match s.head with
  | none =>
    let h ← access (setNext (appField π) h add none)
    let h ← access (setPrev (appField π) h add none)
    let t ← hashMakeTable malloc add
    hashAddToTable malloc fuel ⟨add, t⟩ hashv add h
  | some u =>
    let (t, h) ← hashAppendList u.tbl add h
    hashAddToTable malloc fuel ⟨u.head, t⟩ hashv add h

def hashDelInBkt (t : UTHashTable) (bkt : Nat) (del : Addr) (h : Elements π) :
    Except Trap (UTHashTable × Elements π) := do
  let b ← access t.buckets[bkt]?
  let e ← access (h del)
  let first := if b.hhHead = some del then e.hh.hhNext else b.hhHead
  let h ← access (unlink (chainField π) h del)
  .ok ({ t with buckets := t.buckets.set bkt { b with hhHead := first, count := b.count - 1 } }, h)

/-- The table goes with its last element; otherwise the head of the list and the tail move
    when they are the element deleted. -/
def hashDeleteHh (s : State π) (del : Addr) : Except Trap (State π) := do
  let u ← access s.head
  let e ← access (s.heap del)
  if e.hh.prev = none ∧ e.hh.next = none then .ok ⟨none, s.heap⟩
  else
    let tail := if u.tbl.tail = some del then e.hh.prev else u.tbl.tail
    let head ← access (if e.hh.prev = none then e.hh.next else some u.head)
    let h ← access (unlink (appField π) s.heap del)
    let bkt := (hashToBkt e.hh.hashv u.tbl.numBuckets).toNat
    let (t, h) ← hashDelInBkt { u.tbl with tail := tail } bkt del h
    .ok ⟨some ⟨head, { t with numItems := t.numItems - 1 }⟩, h⟩

def nextOf (h : Elements π) : Option Addr → Except Trap (Option Addr)
  | none => .ok none
  | some a => do
    let e ← access (h a)
    .ok e.hh.next

def hashIterLoop (body : Addr → State π → Except Trap (State π)) :
    Nat → Option Addr → Option Addr → State π → Except Trap (List Addr × State π)
  | 0, _, _, _ => .error .stuck
  | _ + 1, none, _, s => .ok ([], s)
  | fuel + 1, some el, tmp, s => do
    let s ← body el s
    let next ← nextOf s.heap tmp
    let (visited, s) ← hashIterLoop body fuel tmp next s
    .ok (el :: visited, s)

def hashIter (body : Addr → State π → Except Trap (State π)) (fuel : Nat) (s : State π) :
    Except Trap (List Addr × State π) := do
  let start := s.head.map UTHash.head
  let tmp ← nextOf s.heap start
  hashIterLoop body fuel start tmp s

/- HASH_FSCK, which a build with HASH_DEBUG runs after every add and delete. -/

/-- Counts along a list; nothing when a back link is not the element before. -/
def fsckList (F : Field Addr (Element π)) (h : Elements π) :
    Nat → Option Addr → Option Addr → UInt32 → Except Trap (Option UInt32)
  | 0, _, _, _ => .error .stuck
  | _ + 1, _, none, n => .ok (some n)
  | fuel + 1, before, some a, n => do
    let e ← access (h a)
    if (F.get e).prev = before then fsckList F h fuel (some a) (F.get e).next (n + 1)
    else .ok none

def fsckBuckets (h : Elements π) (fuel : Nat) :
    List UTHashBucket → UInt32 → Except Trap (Option UInt32)
  | [], n => .ok (some n)
  | b :: rest, n => do
    match ← fsckList (chainField π) h fuel none b.hhHead 0 with
    | none => .ok none
    | some c => if b.count = c then fsckBuckets h fuel rest (n + c) else .ok none

def hashFsck (fuel : Nat) (s : State π) : Except Trap Bool :=
  match s.head with
  | none => .ok true
  | some u => do
    match ← fsckBuckets s.heap fuel u.tbl.buckets 0 with
    | none => .ok false
    | some n =>
      if n = u.tbl.numItems then
        let m ← fsckList (appField π) s.heap fuel none (some u.head) 0
        .ok (m == some u.tbl.numItems)
      else .ok false

end Macros

end XSKUthash
