import XSKNet.ReceiveLoop
import Mathlib.Data.List.Nodup

/- UMEM frame conservation. Frames are counted by chunk, over the free stack, the fill
   ring with the slots already written, the kernel, and the rx entries not yet freed. -/
namespace XSKConservation
open XSKPacket SharedRing XSKSocket XSKReceive Runs

def Pc.filled : Pc → Nat
  | .filling _ _ _ _ i => i
  | _ => 0

def Pc.freed : Pc → Nat
  | .receiving _ _ i => i
  | _ => 0

def freeFrames (x : XskSocketInfo) : List Nat := (freeStack x).map frameOf

/-- Entries the kernel can still take, with the first filled of the reserved slots. -/
def written (fq : Ring NUM_DESCS UInt64) (filled : Nat) : List UInt64 :=
  fq.entries ++ window NUM_DESCS fq.slot fq.producer filled

def fillFrames (fq : Ring NUM_DESCS UInt64) (filled : Nat) : List Nat :=
  framesIn (written fq filled)

/-- Published entries without the first freed of them. -/
def rxFrames (rx : Ring NUM_DESCS XdpDesc) (freed : Nat) : List Nat :=
  (rx.entries.drop freed).map fun d => frameOf d.addr

def located (x : XskSocketInfo) (held : List Nat) (filled freed : Nat) : List Nat :=
  freeFrames x ++ fillFrames x.fq filled ++ held ++ rxFrames x.rx freed

def Batch (x : XskSocketInfo) (rcvd idxRx : UInt32) (i : Nat) : Prop :=
  x.rx.peeked = rcvd.toNat ∧ idxRx = x.rx.consumer + UInt32.ofNat i

def AtPc (x : XskSocketInfo) : Pc → Prop
  | .idle => x.fq.pending = 0 ∧ x.rx.peeked = 0
  | .peeked rcvd idxRx => x.fq.pending = 0 ∧ Batch x rcvd idxRx 0
  | .stocking rcvd idxRx stockFrames =>
    x.fq.pending = 0 ∧ stockFrames = x.fq.room ∧ Batch x rcvd idxRx 0
  | .retrying rcvd idxRx stockFrames idxFq ret =>
    x.fq.pending = stockFrames.toNat ∧ ret = stockFrames ∧ idxFq = x.fq.producer ∧
      Batch x rcvd idxRx 0
  | .filling rcvd idxRx stockFrames idxFq i =>
    x.fq.pending = stockFrames.toNat ∧ i ≤ stockFrames.toNat ∧
      idxFq = x.fq.producer + UInt32.ofNat i ∧ Batch x rcvd idxRx 0
  | .receiving rcvd idxRx i => x.fq.pending = 0 ∧ i ≤ rcvd.toNat ∧ Batch x rcvd idxRx i
  | .completing => x.fq.pending = 0 ∧ x.rx.peeked = 0
  | .aborted => False

structure Conserved (s : System) : Prop where
  frames : List.Perm (located s.xsk s.held (Pc.filled s.pc) (Pc.freed s.pc))
    (List.range NUM_FRAMES)
  tail : TailInvalid s.xsk
  noTx : s.xsk.outstandingTx = 0
  producing : s.xsk.fq.Producing
  consuming : s.xsk.rx.Consuming
  atPc : AtPc s.xsk s.pc

/- Consequences of conservation. -/

theorem located_count (x : XskSocketInfo) (held : List Nat) (filled freed f : Nat) :
    (located x held filled freed).count f =
      (freeFrames x).count f + (fillFrames x.fq filled).count f + held.count f +
        (rxFrames x.rx freed).count f := by
  simp only [located, List.count_append]

theorem range_count {f : Nat} (frame : f < NUM_FRAMES) : (List.range NUM_FRAMES).count f = 1 :=
  List.count_eq_one_of_mem List.nodup_range (List.mem_range.mpr frame)

theorem located_lt {x : XskSocketInfo} {held : List Nat} {filled freed : Nat}
    (frames : List.Perm (located x held filled freed) (List.range NUM_FRAMES)) {f : Nat}
    (member : f ∈ located x held filled freed) : f < NUM_FRAMES :=
  List.mem_range.mp (frames.subset member)

theorem free_valid {x : XskSocketInfo} {held : List Nat} {filled freed : Nat}
    (frames : List.Perm (located x held filled freed) (List.range NUM_FRAMES)) {a : UInt64}
    (member : a ∈ freeStack x) : InUmem a := by
  rw [inUmem_iff]
  apply located_lt frames
  simp only [located, freeFrames, List.mem_append, List.mem_map]
  exact Or.inl (Or.inl (Or.inl ⟨a, member, rfl⟩))

theorem located_length {x : XskSocketInfo} {held : List Nat} {filled freed : Nat}
    (frames : List.Perm (located x held filled freed) (List.range NUM_FRAMES)) :
    x.umemFrameFree.toNat + (fillFrames x.fq filled).length + held.length +
      (x.rx.used - freed) = NUM_FRAMES := by
  have total := frames.length_eq
  simp only [located, freeFrames, rxFrames, List.length_append, List.length_map,
    List.length_drop, List.length_range, freeStack_length, Ring.entries_length] at total
  exact total

/- The four places under the operations of the loop. -/

theorem fillOne_frame (idx : UInt32) (x : XskSocketInfo) :
    (fillOne idx x).fq = x.fq.write idx (xskAllocUmemFrame x).1 ∧ (fillOne idx x).rx = x.rx ∧
      (fillOne idx x).outstandingTx = x.outstandingTx := by
  obtain ⟨fq, rx, -, -, tx, -⟩ := alloc_frame x
  refine ⟨?_, rx, tx⟩
  unfold fillOne
  rw [← fq]

theorem fillOne_written {x : XskSocketInfo} {i : Nat} (ok : x.fq.Producing)
    (reserved : i < x.fq.pending) :
    written (fillOne (x.fq.producer + UInt32.ofNat i) x).fq (i + 1) =
      written x.fq i ++ [(xskAllocUmemFrame x).1] := by
  have small : i < NUM_DESCS := by
    unfold Ring.Producing at ok
    omega
  rw [(fillOne_frame _ x).1, written, Ring.write_pending_entries x.fq _ ok reserved]
  change _ ++ window _ (x.fq.write _ _).slot x.fq.producer (i + 1) = _
  rw [Ring.write_pending_window x.fq _ small, written, List.append_assoc]

/-- The frame popped from the stack is the one added to the filled slots; an empty stack
    adds an address that is no frame. -/
theorem fillOne_located {x : XskSocketInfo} {held : List Nat} {i freed : Nat}
    (ok : x.fq.Producing) (reserved : i < x.fq.pending)
    (valid : ∀ a ∈ freeStack x, InUmem a) :
    List.Perm
      (located (fillOne (x.fq.producer + UInt32.ofNat i) x) held (i + 1) freed)
      (located x held i freed) := by
  obtain ⟨-, rx, -⟩ := fillOne_frame (x.fq.producer + UInt32.ofNat i) x
  have slots : fillFrames (fillOne (x.fq.producer + UInt32.ofNat i) x).fq (i + 1) =
      fillFrames x.fq i ++ framesIn [(xskAllocUmemFrame x).1] := by
    rw [fillFrames, fillOne_written ok reserved, framesIn_append, fillFrames]
  rw [List.perm_iff_count]
  intro f
  rw [located_count, located_count, slots, rx]
  change ((freeStack (xskAllocUmemFrame x).2).map frameOf).count f + _ + _ + _ = _
  by_cases empty : x.umemFrameFree = 0
  · rw [alloc_empty empty, framesIn_invalid invalid_outside]
    simp [framesIn, freeFrames]
  · have pops := alloc_pops empty
    have top : InUmem (xskAllocUmemFrame x).1 := by
      apply valid
      rw [pops]
      simp
    rw [framesIn_valid top, freeFrames, pops]
    simp only [framesIn, List.map_append, List.map_cons, List.map_nil, List.count_append,
      List.filter_nil]
    omega

theorem submit_written {fq : Ring NUM_DESCS UInt64} (ok : fq.Producing) :
    written (fq.prodSubmit (UInt32.ofNat fq.pending)) 0 = written fq fq.pending := by
  have entries := Ring.submit_entries fq ok
  rw [written, entries]
  exact List.append_nil _

theorem submit_located {x : XskSocketInfo} (held : List Nat) (freed : Nat)
    (ok : x.fq.Producing) :
    located { x with fq := x.fq.prodSubmit (UInt32.ofNat x.fq.pending) } held 0 freed =
      located x held x.fq.pending freed := by
  simp only [located, fillFrames, submit_written ok]
  rfl

theorem free_located {x y : XskSocketInfo} {d : XdpDesc} {held : List Nat} {i : Nat}
    (inside : i < x.rx.used) (entry : d = x.rx.read (x.rx.consumer + UInt32.ofNat i))
    (pushed : freeStack y = freeStack x ++ [d.addr]) (fq : y.fq = x.fq) (rx : y.rx = x.rx) :
    List.Perm (located y held 0 (i + 1)) (located x held 0 i) := by
  have split : x.rx.entries.drop i = d :: x.rx.entries.drop (i + 1) := by
    have length : i < x.rx.entries.length := by simpa using inside
    rw [List.drop_eq_getElem_cons length]
    congr 1
    have found := Ring.read_consumer_add x.rx inside
    rw [List.getElem?_eq_getElem length, ← entry] at found
    exact Option.some.inj found
  rw [List.perm_iff_count]
  intro f
  rw [located_count, located_count, fq, rx, rxFrames, rxFrames, split, freeFrames, pushed]
  simp only [freeFrames, List.map_append, List.map_cons, List.map_nil, List.count_append,
    List.count_cons, List.count_nil]
  omega

theorem release_located {x : XskSocketInfo} (held : List Nat) (ok : x.rx.Consuming) :
    located { x with rx := x.rx.consRelease (UInt32.ofNat x.rx.peeked) } held 0 0 =
      located x held 0 x.rx.peeked := by
  have entries := Ring.release_entries x.rx ok
  simp only [located, rxFrames, entries, List.drop_zero]
  rfl

theorem take_located {x : XskSocketInfo} {v : UInt64} {fq : Ring NUM_DESCS UInt64}
    {held : List Nat} {filled freed : Nat} (ok : x.fq.Producing)
    (taken : x.fq.peerTake = some (v, fq)) :
    List.Perm
      (located { x with fq := fq } (if InUmem v then frameOf v :: held else held) filled freed)
      (located x held filled freed) := by
  obtain ⟨entries, -, -, -, -, producer, slot, -⟩ := Ring.peerTake_spec ok taken
  rw [List.perm_iff_count]
  intro f
  rw [located_count, located_count]
  simp only [fillFrames, written, entries, producer, slot, List.cons_append]
  by_cases valid : InUmem v
  · rw [framesIn_valid valid, if_pos valid]
    simp only [List.count_cons]
    change (freeFrames x).count f + _ + _ + _ = _
    omega
  · rw [framesIn_invalid valid, if_neg valid]
    rfl

theorem publish_located {x : XskSocketInfo} {d : XdpDesc} {rx : Ring NUM_DESCS XdpDesc}
    {buffer : Nat → UInt8} {held : List Nat} {filled freed : Nat} (ok : x.rx.Consuming)
    (bound : freed ≤ x.rx.used) (member : frameOf d.addr ∈ held)
    (put : x.rx.peerPut d = some rx) :
    List.Perm
      (located { x with rx := rx, buffer := buffer } (held.erase (frameOf d.addr)) filled freed)
      (located x held filled freed) := by
  obtain ⟨entries, -⟩ := Ring.peerPut_spec ok put
  rw [List.perm_iff_count]
  intro f
  rw [located_count, located_count, rxFrames, rxFrames, entries,
    List.drop_append_of_le_length (by simpa using bound)]
  simp only [List.map_append, List.map_cons, List.map_nil, List.count_append]
  change (freeFrames x).count f + _ + _ + _ = _
  have moved := (List.perm_cons_erase member).count_eq f
  rw [List.count_cons] at moved
  simp only [List.count_cons, List.count_nil]
  omega

/- The state that xsk_configure_socket leaves. -/

theorem fillOne_keeps {x : XskSocketInfo} {held : List Nat} {i freed : Nat}
    (ok : x.fq.Producing) (reserved : i < x.fq.pending) (tail : TailInvalid x)
    (frames : List.Perm (located x held i freed) (List.range NUM_FRAMES)) :
    List.Perm (located (fillOne (x.fq.producer + UInt32.ofNat i) x) held (i + 1) freed)
        (List.range NUM_FRAMES) ∧
      TailInvalid (fillOne (x.fq.producer + UInt32.ofNat i) x) := by
  constructor
  · exact (fillOne_located ok reserved fun a => free_valid frames).trans frames
  · exact alloc_tail tail

theorem alloc_valid {x : XskSocketInfo} {held : List Nat} {filled freed : Nat}
    (frames : List.Perm (located x held filled freed) (List.range NUM_FRAMES))
    (some_free : 0 < x.umemFrameFree.toNat) : InUmem (xskAllocUmemFrame x).1 := by
  have nonempty : x.umemFrameFree ≠ 0 := by
    intro empty
    rw [empty] at some_free
    exact absurd some_free (by decide)
  apply free_valid frames
  rw [alloc_pops nonempty]
  simp

theorem fillOne_valid {x : XskSocketInfo} {held : List Nat} {i freed : Nat}
    (ok : x.fq.Producing) (reserved : i < x.fq.pending) (some_free : 0 < x.umemFrameFree.toNat)
    (frames : List.Perm (located x held i freed) (List.range NUM_FRAMES))
    (valid : ∀ a ∈ written x.fq i, InUmem a) :
    ∀ a ∈ written (fillOne (x.fq.producer + UInt32.ofNat i) x).fq (i + 1), InUmem a := by
  rw [fillOne_written ok reserved]
  intro a member
  rcases List.mem_append.mp member with old | new
  · exact valid a old
  · rw [List.mem_singleton.mp new]
    exact alloc_valid frames some_free

theorem fillOne_free_count (idx : UInt32) (x : XskSocketInfo) :
    (fillOne idx x).umemFrameFree.toNat = x.umemFrameFree.toNat - 1 :=
  alloc_free_count x

theorem fillMany_keeps {held : List Nat} {freed : Nat} (k i : Nat) (x : XskSocketInfo)
    (ok : x.fq.Producing) (all : i + k = x.fq.pending) (enough : k ≤ x.umemFrameFree.toNat)
    (tail : TailInvalid x)
    (frames : List.Perm (located x held i freed) (List.range NUM_FRAMES))
    (valid : ∀ a ∈ written x.fq i, InUmem a) :
    ∃ y slot, fillMany k (x.fq.producer + UInt32.ofNat i) x = y ∧
      y.fq = { x.fq with slot := slot } ∧ y.rx = x.rx ∧ y.outstandingTx = x.outstandingTx ∧
      TailInvalid y ∧ List.Perm (located y held (i + k) freed) (List.range NUM_FRAMES) ∧
      ∀ a ∈ written y.fq (i + k), InUmem a := by
  induction k generalizing i x with
  | zero => exact ⟨x, x.fq.slot, rfl, rfl, rfl, rfl, tail, frames, valid⟩
  | succ k ih =>
    have reserved : i < x.fq.pending := by omega
    obtain ⟨fq, rx, tx⟩ := fillOne_frame (x.fq.producer + UInt32.ofNat i) x
    obtain ⟨frames', tail'⟩ := fillOne_keeps ok reserved tail frames
    have valid' := fillOne_valid ok reserved (by omega) frames valid
    have left := fillOne_free_count (x.fq.producer + UInt32.ofNat i) x
    simp only [fillMany, counter_next]
    generalize fillOne (x.fq.producer + UInt32.ofNat i) x = z at fq rx tx frames' tail' valid' left ⊢
    have ok' : z.fq.Producing := by
      rw [fq]
      exact ok
    have all' : i + 1 + k = z.fq.pending := by
      rw [fq]
      change _ = x.fq.pending
      omega
    obtain ⟨y, slot, run, fq', rx', tx', rest, kept, all_valid⟩ :=
      ih (i + 1) z ok' all' (by omega) tail' frames' valid'
    have producer : z.fq.producer = x.fq.producer := by
      rw [fq]
      rfl
    have total : i + 1 + k = i + (k + 1) := by omega
    rw [producer] at run
    rw [total] at kept all_valid
    refine ⟨y, slot, run, ?_, rx'.trans rx, tx'.trans tx, rest, kept, all_valid⟩
    rw [fq', fq]
    rfl

def reservedSocket (mem : UmemArea) : XskSocketInfo :=
  let x := initFrames (freshSocket mem)
  { x with fq := { x.fq with cachedProd := UInt32.ofNat NUM_DESCS } }

theorem configured_eq {calls : SetupCalls} {mem : UmemArea} {x : XskSocketInfo}
    (configured : xskConfigureSocket calls mem = some x) :
    x = { fillMany NUM_DESCS 0 (reservedSocket mem) with
      fq := (fillMany NUM_DESCS 0 (reservedSocket mem)).fq.prodSubmit
        (UInt32.ofNat NUM_DESCS) } := by
  have enough : UInt32.ofNat NUM_DESCS ≤ (initFrames (freshSocket mem)).fq.room := by
    change UInt32.ofNat NUM_DESCS ≤ UInt32.ofNat NUM_DESCS - 0
    decide
  unfold xskConfigureSocket at configured
  simp only [Ring.prodReserve_of_room _ _ _ enough, ne_eq, not_true, if_false] at configured
  split at configured
  · cases configured
  · split at configured
    · cases configured
    · split at configured
      · cases configured
      · exact (Option.some.inj configured).symm

theorem reserved_located (mem : UmemArea) :
    located (reservedSocket mem) [] 0 0 = List.range NUM_FRAMES := by
  have stack : freeFrames (reservedSocket mem) = List.range NUM_FRAMES := by
    rw [freeFrames, freeStack, List.map_map]
    refine (List.map_congr_left ?_).trans (List.map_id _)
    intro i member
    have inside : i < NUM_FRAMES := List.mem_range.mp member
    change frameOf (if i < NUM_FRAMES then UInt64.ofNat (i * FRAME_SIZE) else _) = i
    rw [if_pos inside, frameOf, UInt64.toNat_ofNat']
    unfold NUM_FRAMES at inside
    unfold FRAME_SIZE
    omega
  rw [located, stack]
  simp [fillFrames, written, rxFrames, Ring.entries, Ring.used, reservedSocket, initFrames, freshSocket,
    window, framesIn]

theorem reserved_counters (mem : UmemArea) :
    (reservedSocket mem).fq.used = 0 ∧ (reservedSocket mem).fq.pending = NUM_DESCS ∧
      (reservedSocket mem).fq.room = 0 ∧ (reservedSocket mem).rx.used = 0 ∧
      (reservedSocket mem).rx.peeked = 0 ∧ (reservedSocket mem).rx.seen = 0 := by
  refine ⟨?_, ?_, ?_, ?_, ?_, ?_⟩
  · change (0 - 0 : UInt32).toNat = 0
    decide
  · change (UInt32.ofNat NUM_DESCS - 0).toNat = NUM_DESCS
    decide
  · change UInt32.ofNat NUM_DESCS - UInt32.ofNat NUM_DESCS = 0
    decide
  · change (0 - 0 : UInt32).toNat = 0
    decide
  · change (0 - 0 : UInt32).toNat = 0
    decide
  · change (0 - 0 : UInt32) = 0
    decide

theorem configured_setup {s : System} (configured : Configured s) :
    ∃ y, s.xsk = { y with fq := y.fq.prodSubmit (UInt32.ofNat y.fq.pending) } ∧
      y.fq.Producing ∧ y.fq.pending = NUM_DESCS ∧ y.fq.used = 0 ∧ y.fq.room = 0 ∧
      y.rx.used = 0 ∧ y.rx.peeked = 0 ∧ y.rx.Consuming ∧ y.outstandingTx = 0 ∧ TailInvalid y ∧
      List.Perm (located y [] y.fq.pending 0) (List.range NUM_FRAMES) ∧
      ∀ a ∈ written y.fq y.fq.pending, InUmem a := by
  obtain ⟨⟨calls, mem, setup⟩, -, -⟩ := configured
  obtain ⟨used, pending, room, unused, unpeeked, unseen⟩ := reserved_counters mem
  have producing : (reservedSocket mem).fq.Producing := by
    rw [Ring.Producing, used, pending, room]
    decide
  have tail : TailInvalid (reservedSocket mem) := by
    intro i above inside
    change NUM_FRAMES ≤ i at above
    omega
  have enough : NUM_DESCS ≤ (reservedSocket mem).umemFrameFree.toNat := by
    change NUM_DESCS ≤ (UInt32.ofNat NUM_FRAMES).toNat
    decide
  have none_written : ∀ a ∈ written (reservedSocket mem).fq 0, InUmem a := by
    intro a member
    simp [written, window, Ring.entries, used] at member
  obtain ⟨y, slot, run, fq, rx, tx, tail', frames, valid⟩ := fillMany_keeps NUM_DESCS 0
    (reservedSocket mem) producing (by rw [pending, Nat.zero_add]) enough tail
    (List.Perm.of_eq (reserved_located mem)) none_written
  have state := configured_eq setup
  change fillMany NUM_DESCS 0 (reservedSocket mem) = y at run
  rw [run] at state
  rw [Nat.zero_add] at frames valid
  have pending' : y.fq.pending = NUM_DESCS := by
    rw [fq]
    exact pending
  refine ⟨y, ?_, ?_, pending', ?_, ?_, ?_, ?_, ?_, tx, tail', ?_, ?_⟩
  · rw [state, pending']
  · rw [fq]
    exact producing
  · rw [fq]
    exact used
  · rw [fq]
    exact room
  · rw [rx, unused]
  · rw [rx, unpeeked]
  · rw [rx, Ring.Consuming, unused, unpeeked, unseen]
    exact ⟨Nat.le_refl 0, Nat.zero_le _⟩
  · rwa [pending']
  · rwa [pending']

theorem configured_conserved {s : System} (configured : Configured s) : Conserved s := by
  obtain ⟨y, state, producing, -, -, -, -, unpeeked, consuming, noTx, tail, frames, -⟩ :=
    configured_setup configured
  obtain ⟨-, at_idle, no_held⟩ := configured
  refine ⟨?_, ?_, ?_, ?_, ?_, ?_⟩
  · rw [state, at_idle, no_held]
    change List.Perm (located _ [] 0 0) _
    rwa [submit_located [] 0 producing]
  · rw [state]
    intro i above inside
    exact tail i above inside
  · rw [state]
    exact noTx
  · rw [state]
    exact Ring.submit_producing y.fq producing
  · rw [state]
    exact consuming
  · rw [at_idle, state]
    exact ⟨Ring.submit_pending y.fq, unpeeked⟩

/- One step of the user. -/

theorem located_rx {x : XskSocketInfo} {rx : Ring NUM_DESCS XdpDesc} (held : List Nat)
    (filled freed : Nat) (same : rx.entries = x.rx.entries) :
    located { x with rx := rx } held filled freed = located x held filled freed := by
  simp only [located, rxFrames, same]
  rfl

theorem located_fq {x : XskSocketInfo} {fq : Ring NUM_DESCS UInt64} (held : List Nat)
    (filled freed : Nat) (same : fq.entries = x.fq.entries) (slot : fq.slot = x.fq.slot)
    (producer : fq.producer = x.fq.producer) :
    located { x with fq := fq } held filled freed = located x held filled freed := by
  simp only [located, fillFrames, written, same, slot, producer]
  rfl

theorem producer_of_unpending {fq : Ring NUM_DESCS UInt64} (none : fq.pending = 0) :
    fq.cachedProd = fq.producer + UInt32.ofNat 0 := by
  rw [Ring.cachedProd_eq fq, none]

theorem consumer_of_unpeeked {rx : Ring NUM_DESCS XdpDesc} (none : rx.peeked = 0) :
    rx.cachedCons = rx.consumer + UInt32.ofNat 0 := by
  rw [Ring.cachedCons_eq rx, none]

theorem idle_conserved (sendOk : Bool) {s : System} (inv : Conserved s)
    (at_idle : s.pc = .idle) : Conserved (userStep sendOk s) := by
  obtain ⟨frames, tail, noTx, producing, consuming, atPc⟩ := inv
  rw [at_idle] at frames atPc
  obtain ⟨unpending, unpeeked⟩ := atPc
  rcases idle_step sendOk at_idle with ⟨-, step⟩ | ⟨-, step⟩
  · rw [step]
    refine ⟨?_, tail, noTx, producing,
      Ring.consNbAvail_consuming RX_BATCH_SIZE _ consuming, ?_⟩
    · have same := located_rx s.held 0 0 (Ring.consNbAvail_entries RX_BATCH_SIZE s.xsk.rx)
      rw [at_idle]
      change List.Perm (located _ s.held 0 0) _
      rw [same]
      exact frames
    · rw [at_idle]
      refine ⟨unpending, ?_⟩
      rw [Ring.consNbAvail_peeked]
      exact unpeeked
  · rw [step]
    refine ⟨?_, tail, noTx, producing, Ring.peek_consuming _ _ consuming, ?_⟩
    · have same : located { s.xsk with rx := { (s.xsk.rx.consNbAvail RX_BATCH_SIZE).2 with
            cachedCons := s.xsk.rx.cachedCons + (s.xsk.rx.consNbAvail RX_BATCH_SIZE).1 } }
          s.held 0 0 = located s.xsk s.held 0 0 :=
        located_rx s.held 0 0 (Ring.consNbAvail_entries RX_BATCH_SIZE s.xsk.rx)
      change List.Perm (located _ s.held 0 0) _
      rw [same]
      exact frames
    · have count := Ring.peek_peeked RX_BATCH_SIZE s.xsk.rx consuming
      rw [unpeeked, Nat.zero_add] at count
      refine ⟨unpending, count, ?_⟩
      change _ = (s.xsk.rx.consNbAvail RX_BATCH_SIZE).2.consumer + _
      rw [Ring.consNbAvail_consumer]
      exact consumer_of_unpeeked unpeeked

theorem peeked_conserved (sendOk : Bool) {s : System} {rcvd idxRx : UInt32}
    (inv : Conserved s) (at_peeked : s.pc = .peeked rcvd idxRx) :
    Conserved (userStep sendOk s) := by
  obtain ⟨frames, tail, noTx, producing, consuming, atPc⟩ := inv
  rw [at_peeked] at frames atPc
  obtain ⟨unpending, batch⟩ := atPc
  have unpending' : (s.xsk.fq.prodNbFree s.xsk.umemFrameFree).2.pending = 0 := by
    rwa [Ring.prodNbFree_pending]
  have same : located { s.xsk with fq := (s.xsk.fq.prodNbFree s.xsk.umemFrameFree).2 } s.held 0 0 =
      located s.xsk s.held 0 0 :=
    located_fq _ _ _ (Ring.prodNbFree_entries _ _) (Ring.prodNbFree_slot _ _)
      (Ring.prodNbFree_producer _ _)
  rw [peeked_step sendOk at_peeked]
  split
  · refine ⟨?_, tail, noTx, Ring.prodNbFree_producing _ _ producing, consuming, ?_⟩
    · change List.Perm (located _ s.held 0 0) _
      rwa [same]
    · exact ⟨unpending', (Ring.prodNbFree_room _ _).symm, batch⟩
  · refine ⟨?_, tail, noTx, Ring.prodNbFree_producing _ _ producing, consuming, ?_⟩
    · change List.Perm (located _ s.held 0 0) _
      rwa [same]
    · exact ⟨unpending', Nat.zero_le _, batch⟩

theorem stocking_conserved (sendOk : Bool) {s : System} {rcvd idxRx stockFrames : UInt32}
    (inv : Conserved s) (at_stocking : s.pc = .stocking rcvd idxRx stockFrames) :
    Conserved (userStep sendOk s) := by
  obtain ⟨frames, tail, noTx, producing, consuming, atPc⟩ := inv
  rw [at_stocking] at frames atPc
  obtain ⟨unpending, room, batch⟩ := atPc
  have enough : stockFrames ≤ s.xsk.fq.room := UInt32.le_of_eq room
  rw [stocking_step sendOk at_stocking enough]
  refine ⟨?_, tail, noTx, Ring.reserved_producing _ _ producing enough, consuming, ?_⟩
  · exact frames
  · have count := Ring.reserved_pending stockFrames s.xsk.fq producing enough
    rw [unpending, Nat.zero_add] at count
    refine ⟨count, rfl, ?_, batch⟩
    rw [producer_of_unpending unpending]
    exact UInt32.add_zero _

theorem retrying_conserved (sendOk : Bool) {s : System}
    {rcvd idxRx stockFrames idxFq ret : UInt32} (inv : Conserved s)
    (at_retrying : s.pc = .retrying rcvd idxRx stockFrames idxFq ret) :
    Conserved (userStep sendOk s) := by
  obtain ⟨frames, tail, noTx, producing, consuming, atPc⟩ := inv
  rw [at_retrying] at frames atPc
  obtain ⟨pending, rfl, rfl, batch⟩ := atPc
  rw [retrying_step sendOk at_retrying]
  refine ⟨frames, tail, noTx, producing, consuming, pending, Nat.zero_le _, ?_, batch⟩
  exact (UInt32.add_zero _).symm

theorem filling_conserved (sendOk : Bool) {s : System}
    {rcvd idxRx stockFrames idxFq : UInt32} {i : Nat} (inv : Conserved s)
    (at_filling : s.pc = .filling rcvd idxRx stockFrames idxFq i) :
    Conserved (userStep sendOk s) := by
  obtain ⟨frames, tail, noTx, producing, consuming, atPc⟩ := inv
  rw [at_filling] at frames atPc
  obtain ⟨pending, bound, rfl, batch⟩ := atPc
  by_cases more : i < stockFrames.toNat
  · rw [filling_step sendOk at_filling more]
    obtain ⟨fq, rx, tx⟩ := fillOne_frame (s.xsk.fq.producer + UInt32.ofNat i) s.xsk
    have reserved : i < s.xsk.fq.pending := by omega
    obtain ⟨frames', tail'⟩ := fillOne_keeps producing reserved tail frames
    refine ⟨frames', tail', ?_, ?_, ?_, ?_⟩
    · exact tx.trans noTx
    · rw [fq]
      exact producing
    · rw [rx]
      exact consuming
    · refine ⟨?_, more, ?_, ?_⟩
      · rw [fq]
        exact pending
      · rw [fq, counter_next]
        rfl
      · unfold Batch
        rw [rx]
        exact batch
  · have done : i = stockFrames.toNat := by omega
    have amount : stockFrames = UInt32.ofNat s.xsk.fq.pending := ofNat_of_toNat pending
    rw [submit_step sendOk at_filling more, amount]
    refine ⟨?_, tail, noTx, Ring.submit_producing _ producing, consuming, ?_⟩
    · change List.Perm (located _ s.held 0 0) _
      rw [submit_located s.held 0 producing, pending, ← done]
      exact frames
    · exact ⟨Ring.submit_pending _, Nat.zero_le _, batch⟩

/-- The frame being freed is still counted in the rx ring, so the stack is not full. -/
theorem receiving_room {s : System} {rcvd idxRx : UInt32} {i : Nat} (inv : Conserved s)
    (at_receiving : s.pc = .receiving rcvd idxRx i) (more : i < rcvd.toNat) :
    s.xsk.umemFrameFree.toNat < NUM_FRAMES := by
  have total := located_length inv.frames
  have visible := inv.consuming.1
  have atPc := inv.atPc
  rw [at_receiving] at total atPc
  obtain ⟨-, -, peeked, -⟩ := atPc
  change _ + _ + _ + (_ - i) = _ at total
  omega

theorem receiving_conserved (sendOk : Bool) {s : System} {rcvd idxRx : UInt32} {i : Nat}
    (inv : Conserved s) (at_receiving : s.pc = .receiving rcvd idxRx i) :
    Conserved (userStep sendOk s) := by
  have room := receiving_room inv at_receiving
  obtain ⟨frames, tail, noTx, producing, consuming, atPc⟩ := inv
  rw [at_receiving] at frames atPc
  obtain ⟨unpending, bound, peeked, rfl⟩ := atPc
  have visible : rcvd.toNat ≤ s.xsk.rx.used := by
    have := consuming.1
    omega
  by_cases more : i < rcvd.toNat
  · obtain ⟨x, sent, step, pushed, tail', fq, rx, tx⟩ :=
      receiving_step sendOk at_receiving more (room more) tail
    have moved : List.Perm (located x s.held 0 (i + 1)) (located s.xsk s.held 0 i) :=
      free_located (by omega) rfl pushed fq rx
    rw [step]
    refine ⟨moved.trans frames, tail', tx.trans noTx, ?_, ?_, ?_⟩
    · change x.fq.Producing
      rwa [fq]
    · change x.rx.Consuming
      rwa [rx]
    · refine ⟨?_, more, ?_, ?_⟩
      · change x.fq.pending = 0
        rwa [fq]
      · change x.rx.peeked = _
        rwa [rx]
      · change _ = x.rx.consumer + _
        rw [rx, counter_next]
  · have done : i = s.xsk.rx.peeked := by omega
    have amount : rcvd = UInt32.ofNat s.xsk.rx.peeked := ofNat_of_toNat peeked
    rw [release_step sendOk at_receiving more, amount]
    refine ⟨?_, tail, noTx, producing, Ring.release_consuming _ consuming, ?_⟩
    · change List.Perm (located
        { s.xsk with rx := s.xsk.rx.consRelease (UInt32.ofNat s.xsk.rx.peeked) } s.held 0 0) _
      rw [release_located s.held consuming, ← done]
      exact frames
    · exact ⟨unpending, Ring.release_peeked _⟩

theorem user_conserved (sendOk : Bool) {s : System} (inv : Conserved s) :
    Conserved (userStep sendOk s) := by
  cases at_pc : s.pc with
  | idle => exact idle_conserved sendOk inv at_pc
  | peeked rcvd idxRx => exact peeked_conserved sendOk inv at_pc
  | stocking rcvd idxRx stockFrames => exact stocking_conserved sendOk inv at_pc
  | retrying rcvd idxRx stockFrames idxFq ret => exact retrying_conserved sendOk inv at_pc
  | filling rcvd idxRx stockFrames idxFq i => exact filling_conserved sendOk inv at_pc
  | receiving rcvd idxRx i => exact receiving_conserved sendOk inv at_pc
  | completing =>
    rw [completing_step sendOk at_pc inv.noTx]
    obtain ⟨frames, tail, noTx, producing, consuming, atPc⟩ := inv
    rw [at_pc] at frames atPc
    exact ⟨frames, tail, noTx, producing, consuming, atPc⟩
  | aborted =>
    have impossible := inv.atPc
    rw [at_pc] at impossible
    exact False.elim impossible

/- One step of the kernel. -/

theorem atPc_kernel (x y : XskSocketInfo) (pc : Pc) (pending : y.fq.pending = x.fq.pending)
    (room : y.fq.room = x.fq.room) (producer : y.fq.producer = x.fq.producer)
    (peeked : y.rx.peeked = x.rx.peeked) (consumer : y.rx.consumer = x.rx.consumer)
    (atPc : AtPc x pc) : AtPc y pc := by
  cases pc with
  | aborted => exact atPc
  | _ => simpa only [AtPc, Batch, pending, room, producer, peeked, consumer] using atPc

theorem freed_le_used {s : System} (inv : Conserved s) : Pc.freed s.pc ≤ s.xsk.rx.used := by
  obtain ⟨-, -, -, -, consuming, atPc⟩ := inv
  cases at_pc : s.pc with
  | receiving rcvd idxRx i =>
    rw [at_pc] at atPc
    obtain ⟨-, bound, peeked, -⟩ := atPc
    have visible := consuming.1
    change i ≤ _
    omega
  | _ => exact Nat.zero_le _

theorem take_conserved {s : System} {v : UInt64} {fq : Ring NUM_DESCS UInt64}
    (inv : Conserved s) (taken : s.xsk.fq.peerTake = some (v, fq)) :
    Conserved (kernelTake v fq s) := by
  obtain ⟨frames, tail, noTx, producing, consuming, atPc⟩ := inv
  obtain ⟨-, pending, room, -, -, producer, -, producing'⟩ := Ring.peerTake_spec producing taken
  refine ⟨?_, tail, noTx, producing', consuming, ?_⟩
  · exact (take_located producing taken).trans frames
  · exact atPc_kernel s.xsk _ s.pc pending room producer rfl rfl atPc

theorem publish_conserved {s : System} {d : XdpDesc} {rx : Ring NUM_DESCS XdpDesc}
    {buffer : Nat → UInt8} (inv : Conserved s) (member : frameOf d.addr ∈ s.held)
    (put : s.xsk.rx.peerPut d = some rx) : Conserved (kernelPublish d rx buffer s) := by
  have bound := freed_le_used inv
  obtain ⟨frames, tail, noTx, producing, consuming, atPc⟩ := inv
  obtain ⟨-, peeked, consumer, -, consuming'⟩ := Ring.peerPut_spec consuming put
  refine ⟨?_, tail, noTx, producing, consuming', ?_⟩
  · exact (publish_located consuming bound member put).trans frames
  · exact atPc_kernel s.xsk _ s.pc rfl rfl rfl peeked consumer atPc

theorem step_conserved (s t : System) (inv : Conserved s) (step : Step s t) : Conserved t := by
  cases step with
  | user sendOk => exact user_conserved sendOk inv
  | take taken => exact take_conserved inv taken
  | publish member put => exact publish_conserved inv member put

theorem reached_conserved {s : System} (run : Reached Configured Step s) : Conserved s :=
  reached_invariant Conserved (fun _ => configured_conserved) step_conserved run

/-- Frame conservation: the assert never fails, and between calls each frame is in exactly
    one of the four places and every entry above the free stack is marked invalid. -/
theorem umem_frames_conserved {s : System} (run : Reached Configured Step s) :
    s.pc ≠ .aborted ∧
      (s.pc = .idle →
        (∀ f, f < NUM_FRAMES →
          (freeFrames s.xsk).count f + (fillFrames s.xsk.fq 0).count f + s.held.count f +
            (rxFrames s.xsk.rx 0).count f = 1) ∧
        TailInvalid s.xsk) := by
  have inv := reached_conserved run
  constructor
  · intro at_aborted
    have impossible := inv.atPc
    rwa [at_aborted] at impossible
  · intro at_idle
    refine ⟨?_, inv.tail⟩
    intro f frame
    have once := inv.frames.count_eq f
    rw [located_count, range_count frame, at_idle] at once
    exact once

def bootMemory : UmemArea := ⟨fun _ => 0, fun _ => 0, fun _ => 0, fun _ => ⟨0, 0⟩⟩

def boot : System where
  xsk := (xskConfigureSocket ⟨true, true, true⟩ bootMemory).getD (freshSocket bootMemory)
  pc := .idle
  sent := []
  held := []

theorem configure_succeeds (mem : UmemArea) :
    (xskConfigureSocket ⟨true, true, true⟩ mem).isSome := by
  have enough : UInt32.ofNat NUM_DESCS ≤ (initFrames (freshSocket mem)).fq.room := by
    change UInt32.ofNat NUM_DESCS ≤ UInt32.ofNat NUM_DESCS - 0
    decide
  unfold xskConfigureSocket
  simp only [Ring.prodReserve_of_room _ _ _ enough, ne_eq, not_true, if_false, Bool.not_true,
    Bool.false_eq_true, Option.isSome_some]

theorem boot_configured : Configured boot := by
  refine ⟨⟨⟨true, true, true⟩, bootMemory, ?_⟩, rfl, rfl⟩
  obtain ⟨x, setup⟩ := Option.isSome_iff_exists.mp (configure_succeeds bootMemory)
  simp [boot, setup]

end XSKConservation
