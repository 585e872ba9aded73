import XSKNet.FillRing
import XSKNet.RingHistory

/- The fill ring during one call of handle_receive_packets, from the call of
   xsk_prod_nb_free to the submit, whatever the counters are when it begins and whatever
   the kernel takes meanwhile. -/
namespace XSKSubmission
open XSKPacket SharedRing XSKSocket XSKReceive XSKConservation XSKFillRing Runs

inductive FqCall where
  | nbFree (free : UInt32)
  | reserve (asked returned : UInt32)
  | retry (asked returned : UInt32)
  | fillAddr (idxFq : UInt32)
  | submit (nb : UInt32)
  deriving DecidableEq

def fqCalls (s : System) : List FqCall :=
  match s.pc with
  | .peeked _ _ => [.nbFree (stockFrames s.xsk)]
  | .stocking _ _ stock => [.reserve stock (s.xsk.fq.prodReserve stock 0).1]
  | .retrying rcvd _ stock idxFq ret =>
    if ret ≠ stock then [.retry rcvd (s.xsk.fq.prodReserve rcvd idxFq).1] else []
  | .filling _ _ stock idxFq i => if i < stock.toNat then [.fillAddr idxFq] else [.submit stock]
  | _ => []

def InStocking : Pc → Prop
  | .peeked _ _ => True
  | .stocking _ _ _ => True
  | .retrying _ _ _ _ _ => True
  | .filling _ _ _ _ _ => True
  | _ => False

/-- A system with the uses of its fill ring so far and the number of steps of the user. -/
structure Watched where
  sys : System
  calls : List FqCall
  turns : Nat

inductive WatchedStep : Watched → Watched → Prop where
  | user (sendOk : Bool) {w : Watched} (stocking : InStocking w.sys.pc) :
      WatchedStep w ⟨userStep sendOk w.sys, w.calls ++ fqCalls w.sys, w.turns + 1⟩
  | take {w : Watched} {v : UInt64} {fq : Ring NUM_DESCS UInt64}
      (taken : w.sys.xsk.fq.peerTake = some (v, fq)) :
      WatchedStep w { w with sys := kernelTake v fq w.sys }
  | publish {w : Watched} {d : XdpDesc} {rx : Ring NUM_DESCS XdpDesc} {buffer : Nat → UInt8}
      (held : frameOf d.addr ∈ w.sys.held) (put : w.sys.xsk.rx.peerPut d = some rx)
      (elsewhere : ∀ a, a / FRAME_SIZE ≠ frameOf d.addr → buffer a = w.sys.xsk.buffer a) :
      WatchedStep w { w with sys := kernelPublish d rx buffer w.sys }

def fills (p : UInt32) (k : Nat) : List FqCall :=
  (List.range k).map fun i => .fillAddr (p + UInt32.ofNat i)

/-- One successful reserve for what xsk_prod_nb_free answered, one slot after the other
    from p on, and one submit; nothing after the answer 0. -/
def stockCalls (p : UInt32) (k : Nat) : List FqCall :=
  if k = 0 then [.nbFree 0]
  else [.nbFree (UInt32.ofNat k), .reserve (UInt32.ofNat k) (UInt32.ofNat k)] ++ fills p k ++
    [.submit (UInt32.ofNat k)]

def FqCall.Granted : FqCall → Prop
  | .reserve asked returned => returned = asked
  | .retry _ _ => False
  | _ => True

def allocated : Nat → XskSocketInfo → List UInt64
  | 0, _ => []
  | k + 1, x => (xskAllocUmemFrame x).1 :: allocated k (xskAllocUmemFrame x).2

def allocMany : Nat → XskSocketInfo → XskSocketInfo
  | 0, x => x
  | k + 1, x => allocMany k (xskAllocUmemFrame x).2

/-- What a call that begins in s owes at every moment: no failed reserve and no retry; no write
    over an entry the kernel has not consumed, nor into any slot that was not handed out;
    nothing visible to the kernel before the submit. And at the end exactly the slots reserved
    have been written, once each and with the frames taken from the stack in order, and exactly
    they are submitted behind the entries that the kernel has not consumed. -/
structure StocksExactly (s : System) (w : Watched) : Prop where
  granted : ∀ c ∈ w.calls, c.Granted
  unconsumed : ∀ rcvd idxRx stock idxFq i, w.sys.pc = .filling rcvd idxRx stock idxFq i →
    i < stock.toNat → ∀ j, j < w.sys.xsk.fq.used →
      index NUM_DESCS (w.sys.xsk.fq.consumer + UInt32.ofNat j) ≠ index NUM_DESCS idxFq
  others : ∀ m, (∀ c, .fillAddr c ∈ w.calls → m ≠ index NUM_DESCS c) →
    w.sys.xsk.fq.slot m = s.xsk.fq.slot m
  hidden : InStocking w.sys.pc → w.sys.xsk.fq.producer = s.xsk.fq.producer ∧
    w.sys.xsk.fq.entries <:+ s.xsk.fq.entries
  finished : ¬ InStocking w.sys.pc → ∃ k, k ≤ NUM_DESCS ∧
    w.calls = stockCalls s.xsk.fq.producer k ∧
    ((List.range k).map fun i =>
      index NUM_DESCS (s.xsk.fq.producer + UInt32.ofNat i)).Nodup ∧
    window NUM_DESCS w.sys.xsk.fq.slot s.xsk.fq.producer k = allocated k s.xsk ∧
    w.sys.xsk.fq.producer = s.xsk.fq.producer + UInt32.ofNat k ∧
    w.sys.xsk.fq.pending = 0 ∧
    w.sys.xsk.fq.entries <:+ s.xsk.fq.entries ++ allocated k s.xsk
  bounded : w.turns ≤ NUM_DESCS + 4

/- The stack of free frames through a row of allocations. -/

def SameStack (x y : XskSocketInfo) : Prop :=
  x.umemFrameAddr = y.umemFrameAddr ∧ x.umemFrameFree = y.umemFrameFree

theorem alloc_sameStack {x y : XskSocketInfo} (same : SameStack x y) :
    (xskAllocUmemFrame x).1 = (xskAllocUmemFrame y).1 ∧
      SameStack (xskAllocUmemFrame x).2 (xskAllocUmemFrame y).2 := by
  obtain ⟨addr, free⟩ := same
  unfold xskAllocUmemFrame SameStack
  rw [addr, free]
  split
  · exact ⟨rfl, addr, free⟩
  · exact ⟨rfl, rfl, rfl⟩

theorem allocMany_succ (k : Nat) (x : XskSocketInfo) :
    allocMany (k + 1) x = (xskAllocUmemFrame (allocMany k x)).2 := by
  induction k generalizing x with
  | zero => rfl
  | succ k ih => rw [allocMany, ih, allocMany]

theorem allocated_succ (k : Nat) (x : XskSocketInfo) :
    allocated (k + 1) x = allocated k x ++ [(xskAllocUmemFrame (allocMany k x)).1] := by
  induction k generalizing x with
  | zero => rfl
  | succ k ih =>
    rw [allocated, ih, allocated, allocMany, List.cons_append]

/- The invariant of a call that begins in s. -/

structure Filled (s : System) (x : XskSocketInfo) (i : Nat) : Prop where
  slots : window NUM_DESCS x.fq.slot s.xsk.fq.producer i = allocated i s.xsk
  others : ∀ m, (∀ j, j < i → m ≠ index NUM_DESCS (s.xsk.fq.producer + UInt32.ofNat j)) →
    x.fq.slot m = s.xsk.fq.slot m
  stack : SameStack x (allocMany i s.xsk)

structure Unsubmitted (s : System) (x : XskSocketInfo) (i : Nat) : Prop where
  producer : x.fq.producer = s.xsk.fq.producer
  entries : x.fq.entries <:+ s.xsk.fq.entries
  filled : Filled s x i

structure Submitted (s : System) (x : XskSocketInfo) (k : Nat) : Prop where
  producer : x.fq.producer = s.xsk.fq.producer + UInt32.ofNat k
  entries : x.fq.entries <:+ s.xsk.fq.entries ++ allocated k s.xsk
  pending : x.fq.pending = 0
  filled : Filled s x k

def StockAt (s : System) (x : XskSocketInfo) (calls : List FqCall) (turns : Nat) : Pc → Prop
  | .peeked _ _ => Unsubmitted s x 0 ∧ x.fq.pending = 0 ∧ calls = [] ∧ turns = 0
  | .stocking _ _ stock =>
    Unsubmitted s x 0 ∧ x.fq.pending = 0 ∧ stock = x.fq.room ∧ 0 < stock ∧
      calls = [.nbFree stock] ∧ turns = 1
  | .retrying _ _ stock idxFq ret =>
    Unsubmitted s x 0 ∧ x.fq.pending = stock.toNat ∧ 0 < stock ∧ ret = stock ∧
      idxFq = s.xsk.fq.producer ∧ calls = [.nbFree stock, .reserve stock stock] ∧ turns = 2
  | .filling _ _ stock idxFq i =>
    Unsubmitted s x i ∧ x.fq.pending = stock.toNat ∧ 0 < stock ∧ i ≤ stock.toNat ∧
      idxFq = s.xsk.fq.producer + UInt32.ofNat i ∧
      calls = [.nbFree stock, .reserve stock stock] ++ fills s.xsk.fq.producer i ∧
      turns = i + 3
  | .receiving _ _ _ => ∃ k, k ≤ NUM_DESCS ∧ calls = stockCalls s.xsk.fq.producer k ∧
      Submitted s x k ∧ turns ≤ k + 4
  | _ => False

structure Stocking (s : System) (w : Watched) : Prop where
  producing : w.sys.xsk.fq.Producing
  atPc : StockAt s w.sys.xsk w.calls w.turns w.sys.pc

theorem filled_same {s : System} {x y : XskSocketInfo} {i : Nat} (filled : Filled s x i)
    (slot : y.fq.slot = x.fq.slot) (addr : y.umemFrameAddr = x.umemFrameAddr)
    (free : y.umemFrameFree = x.umemFrameFree) : Filled s y i := by
  obtain ⟨slots, others, stack⟩ := filled
  refine ⟨?_, ?_, addr.trans stack.1, free.trans stack.2⟩
  · rw [slot]
    exact slots
  · rw [slot]
    exact others

theorem unsubmitted_same {s : System} {x y : XskSocketInfo} {i : Nat}
    (before : Unsubmitted s x i) (producer : y.fq.producer = x.fq.producer)
    (entries : y.fq.entries <:+ x.fq.entries) (slot : y.fq.slot = x.fq.slot)
    (addr : y.umemFrameAddr = x.umemFrameAddr) (free : y.umemFrameFree = x.umemFrameFree) :
    Unsubmitted s y i :=
  ⟨producer.trans before.producer, entries.trans before.entries,
    filled_same before.filled slot addr free⟩

theorem fillOne_unsubmitted {s : System} {x : XskSocketInfo} {i : Nat}
    (before : Unsubmitted s x i) (ok : x.fq.Producing) (reserved : i < x.fq.pending) :
    Unsubmitted s (fillOne (s.xsk.fq.producer + UInt32.ofNat i) x) (i + 1) := by
  obtain ⟨producer, entries, slots, others, stack⟩ := before
  have fits : i < NUM_DESCS := by
    unfold Ring.Producing at ok
    omega
  obtain ⟨value, stack'⟩ := alloc_sameStack stack
  obtain ⟨fq, -⟩ := fillOne_frame (s.xsk.fq.producer + UInt32.ofNat i) x
  refine ⟨?_, ?_, ?_, ?_, ?_⟩
  · rw [fq]
    exact producer
  · rw [fq, ← producer, Ring.write_pending_entries x.fq _ ok reserved]
    exact entries
  · have grown := Ring.write_pending_window x.fq (xskAllocUmemFrame x).1 fits
    rw [producer] at grown
    rw [fq, grown, slots, allocated_succ, value]
  · intro m outside
    rw [fq]
    change (if m = _ then _ else _) = _
    rw [if_neg (outside i (Nat.lt_succ_self i))]
    exact others m fun j below => outside j (Nat.lt_succ_of_lt below)
  · rw [allocMany_succ]
    exact stack'

theorem submit_submitted {s : System} {x : XskSocketInfo} {k : Nat}
    (before : Unsubmitted s x k) (ok : x.fq.Producing) (all : x.fq.pending = k) :
    Submitted s { x with fq := x.fq.prodSubmit (UInt32.ofNat k) } k := by
  obtain ⟨producer, ⟨consumed, entries⟩, filled⟩ := before
  have visible := Ring.submit_entries x.fq ok
  have written : x.fq.pendingEntries = allocated k s.xsk := by
    rw [Ring.pendingEntries, producer, all, filled.slots]
  have released := Ring.submit_pending x.fq
  rw [all] at visible released
  refine ⟨?_, ?_, released, filled_same filled rfl rfl rfl⟩
  · change x.fq.producer + UInt32.ofNat k = _
    rw [producer]
  · refine ⟨consumed, ?_⟩
    change consumed ++ (x.fq.prodSubmit (UInt32.ofNat k)).entries = _
    rw [visible, written, ← entries, List.append_assoc]

theorem take_suffix {fq fq' : Ring NUM_DESCS UInt64} {v : UInt64} (ok : fq.Producing)
    (taken : fq.peerTake = some (v, fq')) : fq'.entries <:+ fq.entries := by
  obtain ⟨head, -⟩ := Ring.peerTake_spec ok taken
  rw [head]
  exact List.suffix_cons v fq'.entries

theorem fills_succ (p : UInt32) (i : Nat) :
    fills p (i + 1) = fills p i ++ [.fillAddr (p + UInt32.ofNat i)] := by
  simp [fills, List.range_succ]

theorem begun_granted (stock p : UInt32) (i : Nat) :
    ∀ c ∈ [.nbFree stock, .reserve stock stock] ++ fills p i, FqCall.Granted c := by
  intro c member
  rcases List.mem_append.mp member with first | filled
  · rcases List.mem_cons.mp first with rfl | second
    · exact trivial
    · rw [List.mem_singleton.mp second]
      exact rfl
  · obtain ⟨j, -, rfl⟩ := List.mem_map.mp filled
    exact trivial

theorem stockCalls_granted (p : UInt32) (k : Nat) : ∀ c ∈ stockCalls p k, FqCall.Granted c := by
  intro c member
  unfold stockCalls at member
  split at member
  · rw [List.mem_singleton.mp member]
    exact trivial
  · rcases List.mem_append.mp member with begun | last
    · exact begun_granted _ p k c begun
    · rw [List.mem_singleton.mp last]
      exact trivial

theorem slots_nodup (p : UInt32) {k : Nat} (fits : k ≤ NUM_DESCS) :
    ((List.range k).map fun i => index NUM_DESCS (p + UInt32.ofNat i)).Nodup := by
  refine List.Nodup.map_on ?_ List.nodup_range
  intro i hi j hj same
  have below_i := List.mem_range.mp hi
  have below_j := List.mem_range.mp hj
  exact index_add_inj p (by omega) (by omega) same

/-- A slot reserved and not yet submitted holds no entry the kernel can still take. -/
theorem pending_slot_unconsumed {r : Ring NUM_DESCS UInt64} (ok : r.Producing) {i j : Nat}
    (reserved : i < r.pending) (entry : j < r.used) :
    index NUM_DESCS (r.consumer + UInt32.ofNat j) ≠
      index NUM_DESCS (r.producer + UInt32.ofNat i) := by
  unfold Ring.Producing at ok
  intro same
  rw [Ring.producer_eq, UInt32.add_assoc, ← UInt32.ofNat_add] at same
  have := index_add_inj r.consumer (by omega) (by omega) same
  omega

theorem peeked_stocking (sendOk : Bool) {s : System} {w : Watched} {rcvd idxRx : UInt32}
    (inv : Stocking s w) (at_peeked : w.sys.pc = .peeked rcvd idxRx) :
    Stocking s ⟨userStep sendOk w.sys, w.calls ++ fqCalls w.sys, w.turns + 1⟩ := by
  obtain ⟨producing, atPc⟩ := inv
  rw [at_peeked] at atPc
  obtain ⟨before, pending, calls, turns⟩ := atPc
  have made : fqCalls w.sys = [.nbFree (w.sys.xsk.fq.prodNbFree w.sys.xsk.umemFrameFree).1] := by
    unfold fqCalls
    rw [at_peeked]
    simp only [stockFrames_eq]
  have asked : Unsubmitted s { w.sys.xsk with
      fq := (w.sys.xsk.fq.prodNbFree w.sys.xsk.umemFrameFree).2 } 0 :=
    unsubmitted_same before (Ring.prodNbFree_producer _ _)
      (by simp) (Ring.prodNbFree_slot _ _) rfl rfl
  rw [peeked_step sendOk at_peeked, made, calls, turns]
  constructor
  · exact Ring.prodNbFree_producing _ _ producing
  · by_cases positive : 0 < (w.sys.xsk.fq.prodNbFree w.sys.xsk.umemFrameFree).1
    · simp only [positive, if_true]
      exact ⟨asked, by rw [Ring.prodNbFree_pending, pending], (Ring.prodNbFree_room _ _).symm,
        positive, rfl, rfl⟩
    · have none : (w.sys.xsk.fq.prodNbFree w.sys.xsk.umemFrameFree).1 = 0 :=
        UInt32.le_zero_iff.mp (UInt32.not_lt.mp positive)
      simp only [positive, if_false]
      refine ⟨0, Nat.zero_le _, by rw [none]; rfl, ?_, Nat.le_add_left 1 3⟩
      refine ⟨asked.producer.trans (UInt32.add_zero _).symm, ?_, ?_, asked.filled⟩
      · rw [allocated, List.append_nil]
        exact asked.entries
      · exact (Ring.prodNbFree_pending _ _).trans pending

theorem stocking_stocking (sendOk : Bool) {s : System} {w : Watched}
    {rcvd idxRx stock : UInt32} (inv : Stocking s w)
    (at_stocking : w.sys.pc = .stocking rcvd idxRx stock) :
    Stocking s ⟨userStep sendOk w.sys, w.calls ++ fqCalls w.sys, w.turns + 1⟩ := by
  obtain ⟨producing, atPc⟩ := inv
  rw [at_stocking] at atPc
  obtain ⟨before, pending, cached, positive, calls, turns⟩ := atPc
  have enough : stock ≤ w.sys.xsk.fq.room := UInt32.le_of_eq cached
  have made : fqCalls w.sys = [.reserve stock stock] := by
    unfold fqCalls
    rw [at_stocking]
    simp only [Ring.prodReserve_of_room _ _ _ enough]
  have first : w.sys.xsk.fq.cachedProd = s.xsk.fq.producer := by
    rw [Ring.cachedProd_eq, pending, before.producer]
    exact UInt32.add_zero _
  rw [stocking_step sendOk at_stocking enough, made, calls, turns]
  constructor
  · exact Ring.reserved_producing stock _ producing enough
  · refine ⟨?_, ?_, positive, rfl, first, rfl, rfl⟩
    · exact unsubmitted_same before rfl (List.suffix_refl _) rfl rfl rfl
    · exact (Ring.reserved_pending stock _ producing enough).trans
        (by rw [pending, Nat.zero_add])

theorem retrying_stocking (sendOk : Bool) {s : System} {w : Watched}
    {rcvd idxRx stock idxFq ret : UInt32} (inv : Stocking s w)
    (at_retrying : w.sys.pc = .retrying rcvd idxRx stock idxFq ret) :
    Stocking s ⟨userStep sendOk w.sys, w.calls ++ fqCalls w.sys, w.turns + 1⟩ := by
  obtain ⟨producing, atPc⟩ := inv
  rw [at_retrying] at atPc
  obtain ⟨before, pending, positive, rfl, rfl, calls, turns⟩ := atPc
  have made : fqCalls w.sys = [] := by
    unfold fqCalls
    rw [at_retrying]
    simp
  rw [retrying_step sendOk at_retrying, made, calls, turns]
  exact ⟨producing, before, pending, positive, Nat.zero_le _, (UInt32.add_zero _).symm, rfl, rfl⟩

theorem filling_stocking (sendOk : Bool) {s : System} {w : Watched}
    {rcvd idxRx stock idxFq : UInt32} {i : Nat} (inv : Stocking s w)
    (at_filling : w.sys.pc = .filling rcvd idxRx stock idxFq i) :
    Stocking s ⟨userStep sendOk w.sys, w.calls ++ fqCalls w.sys, w.turns + 1⟩ := by
  obtain ⟨producing, atPc⟩ := inv
  rw [at_filling] at atPc
  obtain ⟨before, pending, positive, bound, rfl, calls, turns⟩ := atPc
  by_cases more : i < stock.toNat
  · have made : fqCalls w.sys = [.fillAddr (s.xsk.fq.producer + UInt32.ofNat i)] := by
      unfold fqCalls
      rw [at_filling]
      simp only [more, if_true]
    have next := fillOne_unsubmitted before producing (by omega)
    obtain ⟨fq, -⟩ := fillOne_frame (s.xsk.fq.producer + UInt32.ofNat i) w.sys.xsk
    rw [filling_step sendOk at_filling more, made, calls, turns]
    constructor
    · change (fillOne _ w.sys.xsk).fq.Producing
      rw [fq]
      exact producing
    · refine ⟨next, ?_, positive, more, counter_next _ i, ?_, Nat.add_right_comm i 3 1⟩
      · change (fillOne _ w.sys.xsk).fq.pending = _
        rw [fq]
        exact pending
      · rw [fills_succ, List.append_assoc]
  · have made : fqCalls w.sys = [.submit stock] := by
      unfold fqCalls
      rw [at_filling]
      simp only [more, if_false]
    have amount : stock = UInt32.ofNat w.sys.xsk.fq.pending := ofNat_of_toNat pending
    have done : i = stock.toNat := by omega
    have some_stock : stock.toNat ≠ 0 := by
      rw [UInt32.lt_iff_toNat_lt, UInt32.toNat_zero] at positive
      omega
    have submitted := submit_submitted (done ▸ before) producing pending
    rw [UInt32.ofNat_toNat] at submitted
    rw [submit_step sendOk at_filling more, made, calls, turns]
    constructor
    · change (w.sys.xsk.fq.prodSubmit stock).Producing
      rw [amount]
      exact Ring.submit_producing _ producing
    · refine ⟨stock.toNat, ?_, ?_, submitted, ?_⟩
      · unfold Ring.Producing at producing
        omega
      · rw [done, stockCalls, if_neg some_stock, UInt32.ofNat_toNat]
      · change i + 3 + 1 ≤ stock.toNat + 4
        omega

theorem user_stocking (sendOk : Bool) {s : System} {w : Watched} (inv : Stocking s w)
    (stocking : InStocking w.sys.pc) :
    Stocking s ⟨userStep sendOk w.sys, w.calls ++ fqCalls w.sys, w.turns + 1⟩ := by
  cases at_pc : w.sys.pc with
  | peeked rcvd idxRx => exact peeked_stocking sendOk inv at_pc
  | stocking rcvd idxRx stock => exact stocking_stocking sendOk inv at_pc
  | retrying rcvd idxRx stock idxFq ret => exact retrying_stocking sendOk inv at_pc
  | filling rcvd idxRx stock idxFq i => exact filling_stocking sendOk inv at_pc
  | idle => exact absurd stocking (by simp [at_pc, InStocking])
  | receiving rcvd idxRx i => exact absurd stocking (by simp [at_pc, InStocking])
  | completing => exact absurd stocking (by simp [at_pc, InStocking])
  | aborted => exact absurd stocking (by simp [at_pc, InStocking])

theorem kernel_stockAt {s : System} {x y : XskSocketInfo} {calls : List FqCall}
    {turns : Nat} {pc : Pc} (producer : y.fq.producer = x.fq.producer)
    (entries : y.fq.entries <:+ x.fq.entries) (slot : y.fq.slot = x.fq.slot)
    (pending : y.fq.pending = x.fq.pending) (room : y.fq.room = x.fq.room)
    (addr : y.umemFrameAddr = x.umemFrameAddr) (free : y.umemFrameFree = x.umemFrameFree)
    (at_pc : StockAt s x calls turns pc) : StockAt s y calls turns pc := by
  have kept : ∀ i, Unsubmitted s x i → Unsubmitted s y i := fun i before =>
    unsubmitted_same before producer entries slot addr free
  cases pc with
  | peeked | stocking | retrying | filling =>
    obtain ⟨before, rest⟩ := at_pc
    simp only [StockAt, pending, room]
    exact ⟨kept _ before, rest⟩
  | receiving =>
    obtain ⟨k, fits, made, after, bounded⟩ := at_pc
    exact ⟨k, fits, made, ⟨producer.trans after.producer, entries.trans after.entries,
      pending.trans after.pending, filled_same after.filled slot addr free⟩, bounded⟩
  | idle | completing | aborted => exact False.elim at_pc

theorem step_stocking {s : System} (w w' : Watched) (inv : Stocking s w)
    (step : WatchedStep w w') : Stocking s w' := by
  cases step with
  | user sendOk stocking => exact user_stocking sendOk inv stocking
  | take taken =>
    obtain ⟨-, pending, room, -, -, producer, slot, producing⟩ :=
      Ring.peerTake_spec inv.producing taken
    exact ⟨producing, kernel_stockAt producer (take_suffix inv.producing taken) slot pending room
      rfl rfl inv.atPc⟩
  | publish =>
    refine ⟨inv.producing, ?_⟩
    exact kernel_stockAt (x := w.sys.xsk) rfl (List.suffix_refl _) rfl rfl rfl rfl rfl inv.atPc

theorem filled_others {s : System} {x : XskSocketInfo} {i : Nat} {calls : List FqCall}
    (filled : Filled s x i) (listed : ∀ c ∈ fills s.xsk.fq.producer i, c ∈ calls) (m : Nat)
    (outside : ∀ c, .fillAddr c ∈ calls → m ≠ index NUM_DESCS c) :
    x.fq.slot m = s.xsk.fq.slot m := by
  refine filled.others m fun j below => outside _ (listed _ ?_)
  exact List.mem_map.mpr ⟨j, List.mem_range.mpr below, rfl⟩

theorem fills_stockCalls (p : UInt32) (k : Nat) : ∀ c ∈ fills p k, c ∈ stockCalls p k := by
  intro c member
  unfold stockCalls
  split
  · rename_i none
    rw [none] at member
    cases member
  · exact List.mem_append_left _ (List.mem_append_right _ member)

theorem stocks_of_stocking {s : System} {w : Watched} (inv : Stocking s w) :
    StocksExactly s w := by
  obtain ⟨producing, atPc⟩ := inv
  have bound := producing
  unfold Ring.Producing at bound
  cases at_pc : w.sys.pc with
  | peeked rcvd idxRx =>
    rw [at_pc] at atPc
    obtain ⟨before, -, calls, turns⟩ := atPc
    exact ⟨by simp [calls], by simp [at_pc], filled_others before.filled nofun,
      fun _ => ⟨before.producer, before.entries⟩, by simp [at_pc, InStocking], by omega⟩
  | stocking rcvd idxRx stock =>
    rw [at_pc] at atPc
    obtain ⟨before, -, -, -, calls, turns⟩ := atPc
    exact ⟨by simp [calls, FqCall.Granted], by simp [at_pc], filled_others before.filled nofun,
      fun _ => ⟨before.producer, before.entries⟩, by simp [at_pc, InStocking], by omega⟩
  | retrying rcvd idxRx stock idxFq ret =>
    rw [at_pc] at atPc
    obtain ⟨before, -, -, -, -, calls, turns⟩ := atPc
    exact ⟨by simp [calls, FqCall.Granted], by simp [at_pc], filled_others before.filled nofun,
      fun _ => ⟨before.producer, before.entries⟩, by simp [at_pc, InStocking], by omega⟩
  | filling rcvd idxRx stock idxFq i =>
    rw [at_pc] at atPc
    obtain ⟨before, pending, -, bounded, slot, calls, turns⟩ := atPc
    refine ⟨?_, ?_, ?_, fun _ => ⟨before.producer, before.entries⟩,
      by simp [at_pc, InStocking], by omega⟩
    · rw [calls]
      exact begun_granted stock _ i
    · intro rcvd' idxRx' stock' idxFq' i' at_filling more j entry
      rw [at_pc] at at_filling
      obtain ⟨-, -, rfl, rfl, rfl⟩ := Pc.filling.inj at_filling
      rw [slot, ← before.producer]
      exact pending_slot_unconsumed producing (by omega) entry
    · refine filled_others before.filled ?_
      rw [calls]
      exact fun c member => List.mem_append_right _ member
  | receiving rcvd idxRx i =>
    rw [at_pc] at atPc
    obtain ⟨k, fits, calls, after, turns⟩ := atPc
    refine ⟨?_, by simp [at_pc], ?_, by simp [at_pc, InStocking], fun _ => ⟨k, fits, calls,
      slots_nodup _ fits, after.filled.slots, after.producer, after.pending, after.entries⟩,
      by omega⟩
    · rw [calls]
      exact stockCalls_granted _ k
    · refine filled_others after.filled ?_
      rw [calls]
      exact fills_stockCalls _ k
  | idle | completing | aborted =>
    rw [at_pc] at atPc
    exact False.elim atPc

theorem begun_stocking {s : System} {rcvd idxRx : UInt32} (producing : s.xsk.fq.Producing)
    (submitted : s.xsk.fq.pending = 0) (at_peeked : s.pc = .peeked rcvd idxRx) {w : Watched}
    (run : Reached (fun v => v = ⟨s, [], 0⟩) WatchedStep w) : Stocking s w := by
  refine reached_invariant (Stocking s) ?_ step_stocking run
  rintro v rfl
  constructor
  · exact producing
  · rw [at_peeked]
    exact ⟨⟨rfl, List.suffix_refl _, rfl, fun _ _ => rfl, rfl, rfl⟩, submitted, rfl, rfl⟩

/-- After any history of the fill ring in which all that was reserved is submitted, a call
    stocks exactly, with the kernel consuming at any moment. -/
theorem stocking_exact {s : System} {rcvd idxRx : UInt32}
    (history : Reached Ring.Fresh ProducerMove s.xsk.fq) (submitted : s.xsk.fq.pending = 0)
    (at_peeked : s.pc = .peeked rcvd idxRx) {w : Watched}
    (run : Reached (fun v => v = ⟨s, [], 0⟩) WatchedStep w) : StocksExactly s w :=
  stocks_of_stocking (begun_stocking (history_producing history) submitted at_peeked run)

theorem stocking_finishes {s : System} {rcvd idxRx : UInt32} (producing : s.xsk.fq.Producing)
    (submitted : s.xsk.fq.pending = 0) (at_peeked : s.pc = .peeked rcvd idxRx) {w₀ : Watched}
    (begun : Reached (fun v => v = ⟨s, [], 0⟩) WatchedStep w₀) :
    ∃ w, Reached (fun v => v = ⟨s, [], 0⟩) WatchedStep w ∧ ¬ InStocking w.sys.pc ∧
      w₀.calls <+: w.calls := by
  by_contra endless
  have later : ∀ k, ∃ w, Reached (fun v => v = ⟨s, [], 0⟩) WatchedStep w ∧
      w₀.calls <+: w.calls ∧ w.turns = w₀.turns + k := by
    intro k
    induction k with
    | zero => exact ⟨w₀, begun, List.prefix_refl _, rfl⟩
    | succ k ih =>
      obtain ⟨w, run, grown, turns⟩ := ih
      have stocking : InStocking w.sys.pc := by
        by_contra ended
        exact endless ⟨w, run, ended, grown⟩
      refine ⟨_, Reached.step run (WatchedStep.user true stocking),
        grown.trans (List.prefix_append _ _), ?_⟩
      change w.turns + 1 = _
      omega
  obtain ⟨w, run, -, turns⟩ := later (NUM_DESCS + 5)
  have bounded := (stocks_of_stocking (begun_stocking producing submitted at_peeked run)).bounded
  omega

/- The fill ring of the running daemon has such a history. -/

theorem fillMany_history (k : Nat) {x : XskSocketInfo} {i : Nat} (reserved : i + k ≤ x.fq.pending)
    (history : Reached Ring.Fresh ProducerMove x.fq) :
    Reached Ring.Fresh ProducerMove (fillMany k (x.fq.producer + UInt32.ofNat i) x).fq ∧
      (fillMany k (x.fq.producer + UInt32.ofNat i) x).fq.pending = x.fq.pending := by
  induction k generalizing i x with
  | zero => exact ⟨history, rfl⟩
  | succ k ih =>
    obtain ⟨fq, -⟩ := fillOne_frame (x.fq.producer + UInt32.ofNat i) x
    have next : Reached Ring.Fresh ProducerMove
        (fillOne (x.fq.producer + UInt32.ofNat i) x).fq := by
      rw [fq]
      exact Reached.step history (ProducerMove.write x.fq _ (by omega))
    have producer : (fillOne (x.fq.producer + UInt32.ofNat i) x).fq.producer = x.fq.producer := by
      rw [fq]
      rfl
    have pending : (fillOne (x.fq.producer + UInt32.ofNat i) x).fq.pending = x.fq.pending := by
      rw [fq]
      rfl
    obtain ⟨whole, kept⟩ := ih (x := fillOne _ x) (i := i + 1) (by omega) next
    rw [fillMany, counter_next]
    rw [producer] at whole kept
    exact ⟨whole, kept.trans pending⟩

theorem configured_history {s : System} (configured : Configured s) :
    Reached Ring.Fresh ProducerMove s.xsk.fq := by
  obtain ⟨⟨calls, mem, setup⟩, -, -⟩ := configured
  have fresh : (freshSocket mem).fq.Fresh := ⟨_, rfl⟩
  have enough : UInt32.ofNat NUM_DESCS ≤ (freshSocket mem).fq.room := by
    change UInt32.ofNat NUM_DESCS ≤ UInt32.ofNat NUM_DESCS - 0
    decide
  have reserved := Reached.step (Reached.start fresh)
    (ProducerMove.reserve (UInt32.ofNat NUM_DESCS) 0 _)
  rw [Ring.prodReserve_of_room _ _ _ enough] at reserved
  have all : (reservedSocket mem).fq.pending = NUM_DESCS := (reserved_counters mem).2.1
  obtain ⟨filled, pending⟩ := fillMany_history NUM_DESCS (x := reservedSocket mem) (i := 0)
    (by omega) reserved
  have first : (reservedSocket mem).fq.producer + UInt32.ofNat 0 = 0 := rfl
  rw [first] at filled pending
  rw [configured_eq setup]
  generalize fillMany NUM_DESCS 0 (reservedSocket mem) = y at filled pending ⊢
  have whole : NUM_DESCS ≤ y.fq.pending := by omega
  exact Reached.step filled (ProducerMove.submit y.fq whole)

theorem user_history (sendOk : Bool) {s : System} (inv : Conserved s)
    (history : Reached Ring.Fresh ProducerMove s.xsk.fq) :
    Reached Ring.Fresh ProducerMove (userStep sendOk s).xsk.fq := by
  have atPc := inv.atPc
  cases at_pc : s.pc with
  | idle =>
    rcases idle_step sendOk at_pc with ⟨-, step⟩ | ⟨-, step⟩
    · rw [step]
      exact history
    · rw [step]
      exact history
  | peeked rcvd idxRx =>
    rw [peeked_step sendOk at_pc]
    exact Reached.step history (ProducerMove.nbFree _ _)
  | stocking rcvd idxRx stock =>
    rw [at_pc] at atPc
    have enough : stock ≤ s.xsk.fq.room := UInt32.le_of_eq atPc.2.1
    have reserved := Reached.step history (ProducerMove.reserve stock 0 _)
    rw [Ring.prodReserve_of_room _ _ _ enough] at reserved
    rw [stocking_step sendOk at_pc enough]
    exact reserved
  | retrying rcvd idxRx stock idxFq ret =>
    rw [at_pc] at atPc
    obtain ⟨-, rfl, -⟩ := atPc
    rw [retrying_step sendOk at_pc]
    exact history
  | filling rcvd idxRx stock idxFq i =>
    rw [at_pc] at atPc
    obtain ⟨pending, bound, rfl, -⟩ := atPc
    by_cases more : i < stock.toNat
    · obtain ⟨fq, -⟩ := fillOne_frame (s.xsk.fq.producer + UInt32.ofNat i) s.xsk
      rw [filling_step sendOk at_pc more]
      change Reached Ring.Fresh ProducerMove (fillOne _ s.xsk).fq
      rw [fq]
      exact Reached.step history (ProducerMove.write s.xsk.fq _ (by omega))
    · have submitted := Reached.step history
        (ProducerMove.submit s.xsk.fq (Nat.le_of_eq pending.symm))
      rw [UInt32.ofNat_toNat] at submitted
      rw [submit_step sendOk at_pc more]
      exact submitted
  | receiving rcvd idxRx i =>
    by_cases more : i < rcvd.toNat
    · obtain ⟨x, sent, step, -, -, fq, -, -⟩ :=
        receiving_step sendOk at_pc more (receiving_room inv at_pc more) inv.tail
      rw [step]
      change Reached Ring.Fresh ProducerMove x.fq
      rwa [fq]
    · rw [release_step sendOk at_pc more]
      exact history
  | completing =>
    rw [completing_step sendOk at_pc inv.noTx]
    exact history
  | aborted =>
    rw [at_pc] at atPc
    exact False.elim atPc

theorem daemon_history {s : System} (run : Reached Configured Step s) :
    Reached Ring.Fresh ProducerMove s.xsk.fq := by
  induction run with
  | start configured => exact configured_history configured
  | step before next ih =>
    cases next with
    | user sendOk => exact user_history sendOk (reached_conserved before) ih
    | take taken => exact Reached.step ih (ProducerMove.take taken)
    | publish => exact ih

/-- A packet has come, so that one slot is free when the loop polls: it stocks that one. -/
theorem stocking_exact_in_call :
    ∃ s w, StocksExactly s w ∧ ¬ InStocking w.sys.pc ∧
      w.calls = stockCalls s.xsk.fq.producer 1 ∧
      window NUM_DESCS w.sys.xsk.fq.slot s.xsk.fq.producer 1 = [(xskAllocUmemFrame s.xsk).1] := by
  obtain ⟨s₁, rest⟩ := pump_resting 1 boot_resting (by decide)
  have total := resting_free rest
  obtain ⟨s, rcvd, idxRx, before, at_peeked, -, -, fq, -, -, free⟩ :=
    peek_resting rest (by decide)
  have run : Reached Configured Step s := reached_mono (fun _ _ step => step.2.1) before
  have inv := reached_conserved run
  have submitted := inv.atPc
  rw [at_peeked] at submitted
  have uncached : s.xsk.fq.room = 0 := by rw [fq, rest.fqRoom]
  have some_free : 0 < s.xsk.umemFrameFree.toNat := by
    rw [free]
    unfold NUM_FRAMES at total
    omega
  have offer := uncached_offer inv submitted.1 uncached some_free
  rw [fq, rest.fqUsed] at offer
  have one : stockFrames s.xsk = 1 := UInt32.toNat_inj.mp offer
  have stocking : InStocking s.pc := by
    rw [at_peeked]
    trivial
  have begun : Reached (fun v => v = ⟨s, [], 0⟩) WatchedStep _ :=
    Reached.step (Reached.start rfl) (WatchedStep.user true stocking)
  obtain ⟨w, later, ended, grown⟩ :=
    stocking_finishes inv.producing submitted.1 at_peeked begun
  have exact_run := stocking_exact (daemon_history run) submitted.1 at_peeked later
  obtain ⟨k, fits, calls, -, slots, -⟩ := exact_run.finished ended
  have answered : [FqCall.nbFree 1] <+: stockCalls s.xsk.fq.producer k := by
    rw [← calls, ← one]
    simpa [fqCalls, at_peeked] using grown
  have k_one : k = 1 := by
    have amount : FqCall.nbFree 1 = .nbFree (UInt32.ofNat k) := by
      unfold stockCalls at answered
      split at answered
      · rename_i none
        rw [none]
        exact (List.cons_prefix_cons.mp answered).1
      · exact (List.cons_prefix_cons.mp answered).1
    have value := congrArg UInt32.toNat (FqCall.nbFree.inj amount)
    rw [UInt32.toNat_ofNat', UInt32.toNat_one] at value
    unfold NUM_DESCS at fits
    omega
  subst k_one
  exact ⟨s, w, exact_run, ended, calls, slots⟩

end XSKSubmission
