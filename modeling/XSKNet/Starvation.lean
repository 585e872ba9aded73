import XSKNet.FillRing

/- Why packets keep arriving. Restocking happens only in a call that has received something,
   so some frame must always be out of the free stack; the frames beyond the batch in hand
   are counted through every step. -/
namespace XSKStarvation
open XSKPacket SharedRing XSKSocket XSKReceive XSKConservation XSKFillRing Runs

def SingleStep (s t : System) : Prop := Step s t ∧ t.held.length ≤ 1

/-- The frames in the fill ring and in the reserved slots filled so far. -/
def valid (s : System) : Nat := (fillFrames s.xsk.fq (Pc.filled s.pc)).length

/-- The same with the kernel's frame and the unreleased rx entries. -/
def out (s : System) : Nat := valid s + s.held.length + s.xsk.rx.used

def SmallBatch (rcvd : UInt32) : Prop := 0 < rcvd.toNat ∧ rcvd.toNat ≤ 64

/-- What the counts promise at each point of the loop. Until the fill loop has put a frame
    into the ring the batch itself is out; from then on one more frame than the batch is. -/
def Promise (used valid free out : Nat) : Pc → Prop
  | .idle => 1 ≤ out
  | .peeked rcvd _ => SmallBatch rcvd
  | .stocking rcvd _ stock =>
    SmallBatch rcvd ∧ 0 < stock.toNat ∧ used + stock.toNat ≤ valid + free + 1
  | .retrying rcvd _ stock _ _ =>
    SmallBatch rcvd ∧ 0 < stock.toNat ∧ used + stock.toNat ≤ valid + free + 1
  | .filling rcvd _ stock _ i =>
    SmallBatch rcvd ∧ 0 < stock.toNat ∧ used + stock.toNat ≤ valid + free + 1 ∧
      (i = 0 ∨ rcvd.toNat + 1 ≤ out)
  | .receiving rcvd _ _ => rcvd.toNat + 1 ≤ out
  | .completing => 1 ≤ out
  | .aborted => True

/-- At most one entry of the fill ring is no frame, and the promise holds. -/
structure Fed (s : System) : Prop where
  single : s.held.length ≤ 1
  fewInvalid : s.xsk.fq.used + Pc.filled s.pc ≤ valid s + 1
  promise : Promise s.xsk.fq.used (valid s) s.xsk.umemFrameFree.toNat (out s) s.pc

theorem promise_mono {used used' v v' free o o' : Nat} {pc : Pc}
    (entries : used' + v ≤ used + v') (more : o ≤ o')
    (before : Promise used v free o pc) : Promise used' v' free o' pc := by
  cases pc with
  | idle => exact Nat.le_trans before more
  | peeked rcvd idxRx => exact before
  | stocking rcvd idxRx stock =>
    obtain ⟨small, some_stock, bound⟩ := before
    exact ⟨small, some_stock, by omega⟩
  | retrying rcvd idxRx stock idxFq ret =>
    obtain ⟨small, some_stock, bound⟩ := before
    exact ⟨small, some_stock, by omega⟩
  | filling rcvd idxRx stock idxFq i =>
    obtain ⟨small, some_stock, bound, filled⟩ := before
    exact ⟨small, some_stock, by omega, by omega⟩
  | receiving rcvd idxRx i => exact Nat.le_trans before more
  | completing => exact Nat.le_trans before more
  | aborted => trivial

/- Frames are either free or out. -/

theorem free_and_out {s : System} (inv : Conserved s) (none_freed : Pc.freed s.pc = 0) :
    s.xsk.umemFrameFree.toNat + out s = NUM_FRAMES := by
  have total := located_length inv.frames
  rw [none_freed, Nat.sub_zero] at total
  unfold out valid
  omega

theorem batch_unreleased {s : System} (inv : Conserved s) : s.xsk.rx.peeked ≤ s.xsk.rx.used ∧
    s.xsk.rx.used ≤ NUM_DESCS := by
  have visible := inv.consuming
  unfold Ring.Consuming at visible
  omega

/- One step of the user. -/

theorem idle_fed (sendOk : Bool) {s : System} (fed : Fed s) (at_idle : s.pc = .idle) :
    Fed (userStep sendOk s) := by
  obtain ⟨single, fewInvalid, promise⟩ := fed
  rcases idle_step sendOk at_idle with ⟨-, step⟩ | ⟨some_rcvd, step⟩
  · have used := Ring.consNbAvail_used RX_BATCH_SIZE s.xsk.rx
    rw [step]
    refine ⟨single, fewInvalid, ?_⟩
    unfold out at promise ⊢
    rw [← used] at promise
    exact promise
  · have few := (Ring.consNbAvail_le RX_BATCH_SIZE s.xsk.rx).1
    rw [UInt32.lt_iff_toNat_lt] at some_rcvd
    unfold valid at fewInvalid
    rw [at_idle] at fewInvalid
    rw [step]
    exact ⟨single, fewInvalid, some_rcvd, few⟩

theorem prodNbFree_fillFrames (nb : UInt32) (fq : Ring NUM_DESCS UInt64) :
    fillFrames (fq.prodNbFree nb).2 0 = fillFrames fq 0 := by
  simp only [fillFrames, written, Ring.prodNbFree_entries, Ring.prodNbFree_slot,
    Ring.prodNbFree_producer]

theorem peeked_fed (sendOk : Bool) {s : System} {rcvd idxRx : UInt32} (inv : Conserved s)
    (fed : Fed s) (at_peeked : s.pc = .peeked rcvd idxRx) : Fed (userStep sendOk s) := by
  have total := free_and_out inv (by rw [at_peeked]; rfl)
  have batch := batch_unreleased inv
  have atPc := inv.atPc
  obtain ⟨single, fewInvalid, promise⟩ := fed
  unfold out valid at total
  unfold valid at fewInvalid
  rw [at_peeked] at total fewInvalid promise atPc
  obtain ⟨unpending, -⟩ := atPc
  obtain ⟨some_rcvd, few⟩ := promise
  have ok := inv.producing
  have value := Ring.prodNbFree_value s.xsk.umemFrameFree s.xsk.fq ok
  rw [unpending] at value
  unfold Ring.Producing at ok
  change _ + ((fillFrames s.xsk.fq 0).length + _ + _) = _ at total
  change s.xsk.fq.used + 0 ≤ (fillFrames s.xsk.fq 0).length + 1 at fewInvalid
  rw [peeked_step sendOk at_peeked]
  generalize stocked : (s.xsk.fq.prodNbFree s.xsk.umemFrameFree).1 = stock at value ⊢
  by_cases some_stock : 0 < stock
  · rw [if_pos some_stock]
    rw [UInt32.lt_iff_toNat_lt] at some_stock
    refine ⟨single, ?_, ⟨some_rcvd, few⟩, some_stock, ?_⟩
    · change (s.xsk.fq.prodNbFree s.xsk.umemFrameFree).2.used + 0 ≤ (fillFrames _ 0).length + 1
      rw [prodNbFree_fillFrames, Ring.prodNbFree_used]
      exact fewInvalid
    · change (s.xsk.fq.prodNbFree s.xsk.umemFrameFree).2.used + stock.toNat ≤
        (fillFrames _ 0).length + s.xsk.umemFrameFree.toNat + 1
      -- cached or refreshed, the room never exceeds what the entries leave
      rw [prodNbFree_fillFrames, Ring.prodNbFree_used]
      unfold NUM_FRAMES NUM_DESCS at *
      split at value
      · omega
      · omega
  · rw [if_neg some_stock]
    rw [UInt32.lt_iff_toNat_lt] at some_stock
    change ¬ 0 < stock.toNat at some_stock
    refine ⟨single, ?_, ?_⟩
    · change (s.xsk.fq.prodNbFree s.xsk.umemFrameFree).2.used + 0 ≤ (fillFrames _ 0).length + 1
      rw [prodNbFree_fillFrames, Ring.prodNbFree_used]
      exact fewInvalid
    · change rcvd.toNat + 1 ≤ (fillFrames _ 0).length + s.held.length + s.xsk.rx.used
      -- no stocking: nothing is free, or the ring is full
      rw [prodNbFree_fillFrames]
      unfold NUM_FRAMES NUM_DESCS at *
      split at value
      · rename_i cached
        rw [UInt32.le_iff_toNat_le] at cached
        omega
      · omega

theorem fillOne_valid_count {s : System} {i : Nat} (inv : Conserved s)
    (reserved : i < s.xsk.fq.pending) (filled : Pc.filled s.pc = i) :
    (fillFrames (fillOne (s.xsk.fq.producer + UInt32.ofNat i) s.xsk).fq (i + 1)).length =
      (fillFrames s.xsk.fq i).length + (if s.xsk.umemFrameFree.toNat = 0 then 0 else 1) := by
  have frames := inv.frames
  rw [filled] at frames
  rw [fillFrames, fillOne_written inv.producing reserved, framesIn_append, List.length_append]
  change (fillFrames s.xsk.fq i).length + _ = _
  congr 1
  by_cases empty : s.xsk.umemFrameFree.toNat = 0
  · have none_free : s.xsk.umemFrameFree = 0 := UInt32.toNat_inj.mp empty
    rw [alloc_empty none_free, framesIn_invalid invalid_outside, if_pos empty]
    rfl
  · rw [framesIn_valid (alloc_valid frames (Nat.pos_of_ne_zero empty)), if_neg empty]
    rfl

/-- One more slot filled. With the stack not empty one more frame is out; with it empty all of
    them are, which is more than any batch. -/
theorem slot_fed (sendOk : Bool) {s : System} {rcvd idxRx stock idxFq : UInt32} {i : Nat}
    (inv : Conserved s) (fed : Fed s) (at_filling : s.pc = .filling rcvd idxRx stock idxFq i)
    (more : i < stock.toNat) : Fed (userStep sendOk s) := by
  have total := free_and_out inv (by rw [at_filling]; rfl)
  have batch := batch_unreleased inv
  have filled : Pc.filled s.pc = i := by rw [at_filling]; rfl
  have atPc := inv.atPc
  obtain ⟨single, fewInvalid, promise⟩ := fed
  unfold out valid at total promise
  unfold valid at fewInvalid
  rw [filled] at total fewInvalid promise
  rw [at_filling] at promise atPc
  obtain ⟨pending, bound, rfl, peeked, -⟩ := atPc
  obtain ⟨⟨some_rcvd, few⟩, some_stock, enough, some_out⟩ := promise
  have count := fillOne_valid_count inv (by omega : i < s.xsk.fq.pending) filled
  have left := fillOne_free_count (s.xsk.fq.producer + UInt32.ofNat i) s.xsk
  obtain ⟨fq, rx, -⟩ := fillOne_frame (s.xsk.fq.producer + UInt32.ofNat i) s.xsk
  have used : (fillOne (s.xsk.fq.producer + UInt32.ofNat i) s.xsk).fq.used = s.xsk.fq.used := by
    rw [fq]
    rfl
  rw [filling_step sendOk at_filling more]
  generalize fillOne (s.xsk.fq.producer + UInt32.ofNat i) s.xsk = x at count left rx used ⊢
  have full : s.xsk.umemFrameFree.toNat = 0 →
      (fillFrames s.xsk.fq i).length + s.held.length + s.xsk.rx.used = 4096 := by
    intro empty
    rw [empty, Nat.zero_add] at total
    exact total
  refine ⟨single, ?_, ⟨some_rcvd, few⟩, some_stock, ?_, Or.inr ?_⟩
  · change x.fq.used + (i + 1) ≤ (fillFrames x.fq (i + 1)).length + 1
    rw [used, count]
    split
    · omega
    · omega
  · change x.fq.used + stock.toNat ≤
      (fillFrames x.fq (i + 1)).length + x.umemFrameFree.toNat + 1
    rw [used, count, left]
    split
    · omega
    · omega
  · change rcvd.toNat + 1 ≤ (fillFrames x.fq (i + 1)).length + s.held.length + x.rx.used
    rw [count, rx]
    split
    · rename_i empty
      have all := full empty
      omega
    · omega

theorem submitted_fed (sendOk : Bool) {s : System} {rcvd idxRx stock idxFq : UInt32} {i : Nat}
    (inv : Conserved s) (fed : Fed s) (at_filling : s.pc = .filling rcvd idxRx stock idxFq i)
    (full : ¬ i < stock.toNat) : Fed (userStep sendOk s) := by
  have filled : Pc.filled s.pc = i := by rw [at_filling]; rfl
  have atPc := inv.atPc
  obtain ⟨single, fewInvalid, promise⟩ := fed
  unfold out valid at promise
  unfold valid at fewInvalid
  rw [filled] at fewInvalid promise
  rw [at_filling] at promise atPc
  obtain ⟨pending, bound, rfl, -⟩ := atPc
  obtain ⟨-, some_stock, enough, some_out⟩ := promise
  have done : i = s.xsk.fq.pending := by omega
  have amount : stock = UInt32.ofNat s.xsk.fq.pending := ofNat_of_toNat pending
  have entries : fillFrames (s.xsk.fq.prodSubmit (UInt32.ofNat s.xsk.fq.pending)) 0 =
      fillFrames s.xsk.fq i := by
    rw [fillFrames, submit_written inv.producing, done, fillFrames]
  have used := Ring.submit_used s.xsk.fq inv.producing
  rw [submit_step sendOk at_filling full, amount]
  refine ⟨single, ?_, ?_⟩
  · change (s.xsk.fq.prodSubmit _).used + 0 ≤ (fillFrames (s.xsk.fq.prodSubmit _) 0).length + 1
    rw [entries, used]
    omega
  · change rcvd.toNat + 1 ≤
      (fillFrames (s.xsk.fq.prodSubmit _) 0).length + s.held.length + s.xsk.rx.used
    rw [entries]
    omega

theorem receiving_fed (sendOk : Bool) {s : System} {rcvd idxRx : UInt32} {i : Nat}
    (inv : Conserved s) (fed : Fed s) (at_receiving : s.pc = .receiving rcvd idxRx i) :
    Fed (userStep sendOk s) := by
  have atPc := inv.atPc
  obtain ⟨single, fewInvalid, promise⟩ := fed
  unfold out valid at promise
  unfold valid at fewInvalid
  rw [at_receiving] at fewInvalid promise atPc
  obtain ⟨-, -, peeked, -⟩ := atPc
  by_cases more : i < rcvd.toNat
  · obtain ⟨x, sent, step, -, -, fq, rx, -⟩ :=
      receiving_step sendOk at_receiving more (receiving_room inv at_receiving more) inv.tail
    rw [step]
    refine ⟨single, ?_, ?_⟩
    · change x.fq.used + 0 ≤ (fillFrames x.fq 0).length + 1
      rw [fq]
      exact fewInvalid
    · change rcvd.toNat + 1 ≤ (fillFrames x.fq 0).length + s.held.length + x.rx.used
      rw [fq, rx]
      exact promise
  · have amount : rcvd = UInt32.ofNat s.xsk.rx.peeked := ofNat_of_toNat peeked
    have released := Ring.release_used s.xsk.rx inv.consuming
    rw [← amount] at released
    rw [release_step sendOk at_receiving more]
    refine ⟨single, fewInvalid, ?_⟩
    change rcvd.toNat + 1 ≤ (fillFrames s.xsk.fq 0).length + _ + _ at promise
    change 1 ≤ (fillFrames s.xsk.fq 0).length + s.held.length + (s.xsk.rx.consRelease rcvd).used
    omega

theorem user_fed (sendOk : Bool) {s : System} (inv : Conserved s) (fed : Fed s) :
    Fed (userStep sendOk s) := by
  cases at_pc : s.pc with
  | idle => exact idle_fed sendOk fed at_pc
  | peeked rcvd idxRx => exact peeked_fed sendOk inv fed at_pc
  | stocking rcvd idxRx stock =>
    have atPc := inv.atPc
    obtain ⟨single, fewInvalid, promise⟩ := fed
    unfold out at promise
    unfold valid at fewInvalid promise
    rw [at_pc] at fewInvalid promise atPc
    rw [stocking_step sendOk at_pc (UInt32.le_of_eq atPc.2.1)]
    exact ⟨single, fewInvalid, promise⟩
  | retrying rcvd idxRx stock idxFq ret =>
    have atPc := inv.atPc
    obtain ⟨single, fewInvalid, promise⟩ := fed
    unfold out at promise
    unfold valid at fewInvalid promise
    rw [at_pc] at fewInvalid promise atPc
    obtain ⟨-, rfl, -⟩ := atPc
    obtain ⟨small, some_stock, enough⟩ := promise
    rw [retrying_step sendOk at_pc]
    exact ⟨single, fewInvalid, small, some_stock, enough, Or.inl rfl⟩
  | filling rcvd idxRx stock idxFq i =>
    by_cases more : i < stock.toNat
    · exact slot_fed sendOk inv fed at_pc more
    · exact submitted_fed sendOk inv fed at_pc more
  | receiving rcvd idxRx i => exact receiving_fed sendOk inv fed at_pc
  | completing =>
    obtain ⟨single, fewInvalid, promise⟩ := fed
    unfold out at promise
    unfold valid at fewInvalid promise
    rw [at_pc] at fewInvalid promise
    rw [completing_step sendOk at_pc inv.noTx]
    exact ⟨single, fewInvalid, promise⟩
  | aborted =>
    have impossible := inv.atPc
    rw [at_pc] at impossible
    exact False.elim impossible

/- One step of the kernel. -/

theorem take_fed {s : System} {v : UInt64} {fq : Ring NUM_DESCS UInt64} (inv : Conserved s)
    (fed : Fed s) (taken : s.xsk.fq.peerTake = some (v, fq))
    (single : (kernelTake v fq s).held.length ≤ 1) : Fed (kernelTake v fq s) := by
  obtain ⟨-, fewInvalid, promise⟩ := fed
  obtain ⟨entries, -, -, -, -, producer, slot, -⟩ := Ring.peerTake_spec inv.producing taken
  have used : s.xsk.fq.used = fq.used + 1 := by
    rw [← Ring.entries_length, entries, List.length_cons, Ring.entries_length]
  have before : written s.xsk.fq (Pc.filled s.pc) = v :: written fq (Pc.filled s.pc) := by
    simp only [written, entries, producer, slot, List.cons_append]
  have same : out (kernelTake v fq s) = out s := by
    change (fillFrames fq _).length + (kernelTake v fq s).held.length + s.xsk.rx.used = _
    unfold out valid fillFrames kernelTake
    rw [before]
    by_cases frame : InUmem v
    · rw [framesIn_valid frame, if_pos frame]
      simp only [List.length_cons]
      omega
    · rw [framesIn_invalid frame, if_neg frame]
  have shrink : valid s ≤ valid (kernelTake v fq s) + 1 := by
    change _ ≤ (fillFrames fq _).length + 1
    unfold valid fillFrames
    rw [before]
    by_cases frame : InUmem v
    · rw [framesIn_valid frame]
      exact Nat.le_refl _
    · rw [framesIn_invalid frame]
      exact Nat.le_succ _
  have fewer : fq.used + valid s ≤ s.xsk.fq.used + valid (kernelTake v fq s) := by omega
  refine ⟨single, ?_, ?_⟩
  · change fq.used + Pc.filled s.pc ≤ valid (kernelTake v fq s) + 1
    omega
  · exact promise_mono fewer (Nat.le_of_eq same.symm) promise

theorem publish_fed {s : System} {d : XdpDesc} {rx : Ring NUM_DESCS XdpDesc}
    {buffer : Nat → UInt8} (inv : Conserved s) (fed : Fed s) (member : frameOf d.addr ∈ s.held)
    (put : s.xsk.rx.peerPut d = some rx) : Fed (kernelPublish d rx buffer s) := by
  obtain ⟨single, fewInvalid, promise⟩ := fed
  obtain ⟨entries, -⟩ := Ring.peerPut_spec inv.consuming put
  have grow : rx.used = s.xsk.rx.used + 1 := by
    rw [← Ring.entries_length, entries, List.length_append, Ring.entries_length]
    rfl
  have passed : (s.held.erase (frameOf d.addr)).length + 1 = s.held.length :=
    List.length_erase_add_one member
  have same : out (kernelPublish d rx buffer s) = out s := by
    change valid s + (s.held.erase (frameOf d.addr)).length + rx.used = _
    unfold out
    omega
  refine ⟨?_, fewInvalid, ?_⟩
  · change (s.held.erase (frameOf d.addr)).length ≤ 1
    omega
  · exact promise_mono (Nat.le_refl _) (Nat.le_of_eq same.symm) promise

/- Runs. -/

theorem configured_fed {s : System} (configured : Configured s) : Fed s := by
  obtain ⟨y, state, producing, pending, used, -, -, -, -, -, -, -, all_valid⟩ :=
    configured_setup configured
  obtain ⟨-, at_idle, no_held⟩ := configured
  have entries : written s.xsk.fq 0 = written y.fq y.fq.pending := by
    rw [state]
    exact submit_written producing
  have submitted : s.xsk.fq.used = NUM_DESCS := by
    rw [state]
    change (y.fq.prodSubmit _).used = _
    rw [Ring.submit_used y.fq producing, used, pending, Nat.zero_add]
  have frames : valid s = NUM_DESCS := by
    unfold valid fillFrames
    rw [at_idle]
    change (framesIn (written s.xsk.fq 0)).length = _
    rw [entries, framesIn_length_of_valid all_valid, ← entries]
    simp [written, submitted, window]
  refine ⟨?_, ?_, ?_⟩
  · rw [no_held]
    exact Nat.zero_le 1
  · rw [frames, submitted, at_idle]
    exact Nat.le_succ _
  · rw [at_idle]
    change 1 ≤ valid s + _ + _
    rw [frames]
    unfold NUM_DESCS
    omega

theorem step_fed {s t : System} (inv : Conserved s) (fed : Fed s) (step : SingleStep s t) :
    Fed t := by
  obtain ⟨step, single⟩ := step
  cases step with
  | user sendOk => exact user_fed sendOk inv fed
  | take taken => exact take_fed inv fed taken single
  | publish member put => exact publish_fed inv fed member put

theorem reached_fed {s : System} (run : Reached Configured SingleStep s) :
    Conserved s ∧ Fed s := by
  induction run with
  | start configured => exact ⟨configured_conserved configured, configured_fed configured⟩
  | step before next ih =>
    obtain ⟨inv, fed⟩ := ih
    exact ⟨step_conserved _ _ inv next.1, step_fed inv fed next⟩

/-- The frames a packet can still come from, or has come from: in the fill ring, with the
    kernel, or in an rx entry that is not yet processed. -/
def circulating (s : System) : List Nat :=
  framesIn s.xsk.fq.entries ++ s.held ++ rxFrames s.xsk.rx (Pc.freed s.pc)

theorem circulating_length (s : System) : (circulating s).length =
    (framesIn s.xsk.fq.entries).length + s.held.length +
      (s.xsk.rx.used - Pc.freed s.pc) := by
  simp only [circulating, rxFrames, List.length_append, List.length_map, List.length_drop,
    Ring.entries_length]

theorem fillFrames_zero (fq : Ring NUM_DESCS UInt64) : fillFrames fq 0 = framesIn fq.entries := by
  simp [fillFrames, written, window]

theorem circulating_of_batch {s : System} (unprocessed : Pc.freed s.pc < s.xsk.rx.used) :
    0 < (circulating s).length := by
  rw [circulating_length]
  omega

theorem circulating_of_out {s : System} (unfilled : Pc.filled s.pc = 0)
    (more : Pc.freed s.pc + 1 ≤ out s) : 0 < (circulating s).length := by
  unfold out valid at more
  rw [unfilled, fillFrames_zero] at more
  rw [circulating_length]
  omega

theorem batch_present {s : System} {rcvd : UInt32} (inv : Conserved s) (batch : SmallBatch rcvd)
    (peeked : s.xsk.rx.peeked = rcvd.toNat) : 0 < s.xsk.rx.used := by
  have unreleased := (batch_unreleased inv).1
  have some_rcvd := batch.1
  omega

theorem circulating_pos {s : System} (inv : Conserved s) (fed : Fed s) :
    0 < (circulating s).length := by
  have atPc := inv.atPc
  have promise := fed.promise
  cases at_pc : s.pc with
  | idle =>
    rw [at_pc] at promise
    exact circulating_of_out (by rw [at_pc]; rfl) (by rw [at_pc]; exact promise)
  | peeked rcvd idxRx =>
    rw [at_pc] at promise atPc
    have used := batch_present inv promise atPc.2.1
    exact circulating_of_batch (by rw [at_pc]; exact used)
  | stocking rcvd idxRx stock =>
    rw [at_pc] at promise atPc
    have used := batch_present inv promise.1 atPc.2.2.1
    exact circulating_of_batch (by rw [at_pc]; exact used)
  | retrying rcvd idxRx stock idxFq ret =>
    rw [at_pc] at promise atPc
    have used := batch_present inv promise.1 atPc.2.2.2.1
    exact circulating_of_batch (by rw [at_pc]; exact used)
  | filling rcvd idxRx stock idxFq i =>
    rw [at_pc] at promise atPc
    have used := batch_present inv promise.1 atPc.2.2.2.1
    exact circulating_of_batch (by rw [at_pc]; exact used)
  | receiving rcvd idxRx i =>
    -- the promise leaves one more frame than the batch, whose first i are freed
    rw [at_pc] at promise atPc
    have freed : i + 1 ≤ rcvd.toNat + 1 := Nat.succ_le_succ atPc.2.1
    exact circulating_of_out (by rw [at_pc]; rfl)
      (by rw [at_pc]; exact Nat.le_trans freed promise)
  | completing =>
    rw [at_pc] at promise
    exact circulating_of_out (by rw [at_pc]; rfl) (by rw [at_pc]; exact promise)
  | aborted =>
    rw [at_pc] at atPc
    exact False.elim atPc

/-- In every state, inside a call or between calls, some frame of the UMEM is in the fill
    ring, with the kernel or in the rx ring, and so the free stack is never full. -/
theorem receive_path_never_starves {s : System} (run : Reached Configured SingleStep s) :
    (∃ f, f < NUM_FRAMES ∧ (f ∈ framesIn s.xsk.fq.entries ∨ f ∈ s.held ∨
      f ∈ rxFrames s.xsk.rx (Pc.freed s.pc))) ∧
    s.xsk.umemFrameFree.toNat < NUM_FRAMES := by
  obtain ⟨inv, fed⟩ := reached_fed run
  have some_out := circulating_pos inv fed
  have total := located_length inv.frames
  obtain ⟨f, member⟩ := List.exists_mem_of_length_pos some_out
  have places : f ∈ framesIn s.xsk.fq.entries ∨ f ∈ s.held ∨
      f ∈ rxFrames s.xsk.rx (Pc.freed s.pc) := by
    simpa [circulating, or_assoc] using member
  have filled : framesIn s.xsk.fq.entries ⊆ fillFrames s.xsk.fq (Pc.filled s.pc) := by
    intro g inside
    rw [fillFrames, written, framesIn_append]
    exact List.mem_append_left _ inside
  constructor
  · refine ⟨f, located_lt inv.frames ?_, places⟩
    simp only [located, List.mem_append]
    rcases places with fill | held | rx
    · exact Or.inl (Or.inl (Or.inr (filled fill)))
    · exact Or.inl (Or.inr held)
    · exact Or.inr rx
  · have more : (framesIn s.xsk.fq.entries).length ≤
        (fillFrames s.xsk.fq (Pc.filled s.pc)).length := by
      rw [fillFrames, written, framesIn_append, List.length_append]
      exact Nat.le_add_right _ _
    rw [circulating_length] at some_out
    omega

/-- Packets come one by one, a call handles a batch of them and restocks, and the kernel takes
    the next entry. -/
theorem never_starves_after_call :
    ∃ s : System, s.held.length = 1 ∧ 0 < s.xsk.rx.used ∧
      s.xsk.umemFrameFree.toNat < NUM_FRAMES ∧
      ∃ f, f < NUM_FRAMES ∧ (f ∈ framesIn s.xsk.fq.entries ∨ f ∈ s.held ∨
        f ∈ rxFrames s.xsk.rx (Pc.freed s.pc)) := by
  obtain ⟨s₁, rest₁⟩ := pump_resting 65 boot_resting (by decide)
  obtain ⟨s₂, q, -, few, -, rest₂⟩ := call_resting rest₁ (by decide) (by decide) (by decide)
  obtain ⟨s₃, rest₃⟩ := take_resting rest₂
  have run : Reached Configured SingleStep s₃ :=
    reached_mono (fun _ _ step => ⟨step.2.1, step.2.2⟩) rest₃.run
  obtain ⟨places, free⟩ := receive_path_never_starves run
  refine ⟨s₃, rest₃.heldCount, ?_, free, places⟩
  rw [rest₃.rxUsed]
  omega

end XSKStarvation
