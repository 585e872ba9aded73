import XSKNet.FrameConservation

/- What handle_receive_packets writes into the fill ring. The free-frame count is given to
   xsk_prod_nb_free as if it were a cap; it is not one, so the answer can exceed it. -/
namespace XSKFillRing
open XSKPacket SharedRing XSKSocket XSKReceive XSKConservation Runs

def stockFrames (x : XskSocketInfo) : UInt32 :=
  (x.fq.prodNbFree (xskUmemFreeFrames x).toUInt32).1

/-- The kernel's frames and the unreleased rx entries fit one ring, or the cached room is
    exactly the number of free frames. -/
def Fits (s : System) : Prop :=
  s.held.length + s.xsk.rx.used ≤ NUM_DESCS ∨ s.xsk.fq.room = s.xsk.umemFrameFree

def StockingFits (s : System) : Prop := ∀ rcvd idxRx, s.pc = .peeked rcvd idxRx → Fits s

def StockCovered (free : Nat) : Pc → Prop
  | .stocking _ _ stock => stock.toNat ≤ free
  | .retrying _ _ stock _ _ => stock.toNat ≤ free
  | .filling _ _ stock _ i => stock.toNat ≤ i + free
  | _ => True

structure Valid (s : System) : Prop where
  entries : ∀ a ∈ written s.xsk.fq (Pc.filled s.pc), InUmem a
  stock : StockCovered s.xsk.umemFrameFree.toNat s.pc

theorem stockFrames_eq (x : XskSocketInfo) :
    stockFrames x = (x.fq.prodNbFree x.umemFrameFree).1 := by
  simp [stockFrames, xskUmemFreeFrames]

theorem free_count {s : System} (inv : Conserved s) (valid : Valid s) :
    s.xsk.umemFrameFree.toNat + (s.xsk.fq.used + Pc.filled s.pc) + s.held.length +
      (s.xsk.rx.used - Pc.freed s.pc) = NUM_FRAMES := by
  have total := located_length inv.frames
  have all : (fillFrames s.xsk.fq (Pc.filled s.pc)).length = s.xsk.fq.used + Pc.filled s.pc := by
    rw [fillFrames, framesIn_length_of_valid valid.entries]
    simp [written]
  rwa [all] at total

theorem stockFrames_le_iff {s : System} {rcvd idxRx : UInt32} (inv : Conserved s)
    (valid : Valid s) (at_peeked : s.pc = .peeked rcvd idxRx) :
    (stockFrames s.xsk).toNat ≤ s.xsk.umemFrameFree.toNat ↔ Fits s := by
  have total := free_count inv valid
  have atPc := inv.atPc
  rw [at_peeked] at total atPc
  obtain ⟨unpending, -⟩ := atPc
  have ok := inv.producing
  unfold Ring.Producing at ok
  change _ + (_ + 0) + _ + (_ - 0) = 4096 at total
  rw [stockFrames_eq, Ring.prodNbFree_value _ _ inv.producing, unpending]
  rw [unpending] at ok
  unfold Fits
  rw [← UInt32.toNat_inj]
  unfold NUM_DESCS at ok ⊢
  split
  · rename_i cached
    rw [UInt32.le_iff_toNat_le] at cached
    omega
  · rename_i uncached
    rw [UInt32.le_iff_toNat_le] at uncached
    omega

/- Valid entries along a run. -/

theorem configured_valid {s : System} (configured : Configured s) : Valid s := by
  obtain ⟨y, state, producing, -, -, -, -, -, -, -, -, -, valid⟩ := configured_setup configured
  obtain ⟨-, at_idle, -⟩ := configured
  constructor
  · rw [state, at_idle]
    change ∀ a ∈ written (y.fq.prodSubmit _) 0, InUmem a
    rwa [submit_written producing]
  · rw [at_idle]
    exact trivial

theorem idle_valid (sendOk : Bool) {s : System} (valid : Valid s) (at_idle : s.pc = .idle) :
    Valid (userStep sendOk s) := by
  obtain ⟨entries, -⟩ := valid
  rw [at_idle] at entries
  rcases idle_step sendOk at_idle with ⟨-, step⟩ | ⟨-, step⟩
  · rw [step]
    constructor
    · rw [at_idle]
      exact entries
    · rw [at_idle]
      exact trivial
  · rw [step]
    exact ⟨entries, trivial⟩

theorem peeked_valid (sendOk : Bool) {s : System} {rcvd idxRx : UInt32} (inv : Conserved s)
    (valid : Valid s) (at_peeked : s.pc = .peeked rcvd idxRx) (fits : Fits s) :
    Valid (userStep sendOk s) := by
  have covered := (stockFrames_le_iff inv valid at_peeked).mpr fits
  rw [stockFrames_eq] at covered
  obtain ⟨entries, -⟩ := valid
  rw [at_peeked] at entries
  have same : written (s.xsk.fq.prodNbFree s.xsk.umemFrameFree).2 0 = written s.xsk.fq 0 := by
    simp only [written, Ring.prodNbFree_entries, Ring.prodNbFree_slot, Ring.prodNbFree_producer]
  rw [peeked_step sendOk at_peeked]
  split
  · constructor
    · change ∀ a ∈ written _ 0, InUmem a
      rwa [same]
    · exact covered
  · constructor
    · change ∀ a ∈ written _ 0, InUmem a
      rwa [same]
    · exact trivial

theorem filling_valid (sendOk : Bool) {s : System} {rcvd idxRx stock idxFq : UInt32} {i : Nat}
    (inv : Conserved s) (valid : Valid s) (at_filling : s.pc = .filling rcvd idxRx stock idxFq i) :
    Valid (userStep sendOk s) := by
  obtain ⟨frames, -, -, producing, -, atPc⟩ := inv
  obtain ⟨entries, covered⟩ := valid
  rw [at_filling] at frames atPc entries covered
  obtain ⟨pending, bound, rfl, -⟩ := atPc
  change stock.toNat ≤ i + _ at covered
  by_cases more : i < stock.toNat
  · rw [filling_step sendOk at_filling more]
    have reserved : i < s.xsk.fq.pending := by omega
    constructor
    · exact fillOne_valid producing reserved (by omega) frames entries
    · change stock.toNat ≤ i + 1 + (fillOne _ s.xsk).umemFrameFree.toNat
      rw [fillOne_free_count]
      omega
  · have done : i = s.xsk.fq.pending := by omega
    have amount : stock = UInt32.ofNat s.xsk.fq.pending := ofNat_of_toNat pending
    rw [submit_step sendOk at_filling more, amount]
    constructor
    · change ∀ a ∈ written (s.xsk.fq.prodSubmit _) 0, InUmem a
      rw [submit_written producing, ← done]
      exact entries
    · exact trivial

theorem receiving_valid (sendOk : Bool) {s : System} {rcvd idxRx : UInt32} {i : Nat}
    (inv : Conserved s) (valid : Valid s) (at_receiving : s.pc = .receiving rcvd idxRx i) :
    Valid (userStep sendOk s) := by
  have entries := valid.entries
  rw [at_receiving] at entries
  by_cases more : i < rcvd.toNat
  · obtain ⟨x, sent, step, -, -, fq, -, -⟩ :=
      receiving_step sendOk at_receiving more (receiving_room inv at_receiving more) inv.tail
    rw [step]
    constructor
    · change ∀ a ∈ written x.fq 0, InUmem a
      rw [fq]
      exact entries
    · exact trivial
  · rw [release_step sendOk at_receiving more]
    exact ⟨entries, trivial⟩

theorem user_valid (sendOk : Bool) {s : System} (inv : Conserved s) (valid : Valid s)
    (fits : StockingFits s) : Valid (userStep sendOk s) := by
  cases at_pc : s.pc with
  | idle => exact idle_valid sendOk valid at_pc
  | peeked rcvd idxRx => exact peeked_valid sendOk inv valid at_pc (fits rcvd idxRx at_pc)
  | stocking rcvd idxRx stock =>
    have atPc := inv.atPc
    obtain ⟨entries, covered⟩ := valid
    rw [at_pc] at entries covered atPc
    rw [stocking_step sendOk at_pc (UInt32.le_of_eq atPc.2.1)]
    exact ⟨entries, covered⟩
  | retrying rcvd idxRx stock idxFq ret =>
    have atPc := inv.atPc
    obtain ⟨entries, covered⟩ := valid
    rw [at_pc] at entries covered atPc
    obtain ⟨-, rfl, -⟩ := atPc
    rw [retrying_step sendOk at_pc]
    exact ⟨entries, by simpa [StockCovered] using covered⟩
  | filling rcvd idxRx stock idxFq i => exact filling_valid sendOk inv valid at_pc
  | receiving rcvd idxRx i => exact receiving_valid sendOk inv valid at_pc
  | completing =>
    obtain ⟨entries, covered⟩ := valid
    rw [at_pc] at entries
    rw [completing_step sendOk at_pc inv.noTx]
    exact ⟨entries, trivial⟩
  | aborted =>
    have impossible := inv.atPc
    rw [at_pc] at impossible
    exact False.elim impossible

theorem stockingFits_elsewhere {s : System} (other : ∀ rcvd idxRx, s.pc ≠ .peeked rcvd idxRx) :
    StockingFits s := fun rcvd idxRx at_peeked => absurd at_peeked (other rcvd idxRx)

theorem take_valid {s : System} {v : UInt64} {fq : Ring NUM_DESCS UInt64} (inv : Conserved s)
    (valid : Valid s) (taken : s.xsk.fq.peerTake = some (v, fq)) :
    Valid (kernelTake v fq s) := by
  obtain ⟨entries, covered⟩ := valid
  obtain ⟨head, -, -, -, -, producer, slot, -⟩ := Ring.peerTake_spec inv.producing taken
  refine ⟨?_, covered⟩
  intro a member
  apply entries
  simp only [kernelTake, written, producer, slot] at member
  simp only [written, head, List.cons_append]
  exact List.mem_cons_of_mem v member

theorem guarded_valid {s : System} (run : Reached Configured (Guarded StockingFits Step) s) :
    Conserved s ∧ Valid s := by
  refine reached_invariant (fun s => Conserved s ∧ Valid s) ?_ ?_ run
  · intro s configured
    exact ⟨configured_conserved configured, configured_valid configured⟩
  · rintro s t ⟨inv, valid⟩ ⟨fits, step⟩
    refine ⟨step_conserved s t inv step, ?_⟩
    cases step with
    | user sendOk => exact user_valid sendOk inv valid fits
    | take taken => exact take_valid inv valid taken
    | publish => exact ⟨valid.entries, valid.stock⟩

/-- In a run that stocks only where the condition holds, the condition decides at every
    stocking whether stock_frames is covered, every value written is the address of a
    frame, and so is every entry of the fill ring. -/
theorem fill_ring_valid {s : System}
    (run : Reached Configured (Guarded StockingFits Step) s) :
    (∀ rcvd idxRx, s.pc = .peeked rcvd idxRx →
      ((stockFrames s.xsk).toNat ≤ s.xsk.umemFrameFree.toNat ↔ Fits s)) ∧
    (∀ rcvd idxRx stock idxFq i, s.pc = .filling rcvd idxRx stock idxFq i → i < stock.toNat →
      InUmem (xskAllocUmemFrame s.xsk).1 ∧ (xskAllocUmemFrame s.xsk).1 ≠ INVALID_UMEM_FRAME) ∧
    ∀ a ∈ s.xsk.fq.entries, InUmem a := by
  obtain ⟨inv, valid⟩ := guarded_valid run
  refine ⟨?_, ?_, ?_⟩
  · intro rcvd idxRx at_peeked
    exact stockFrames_le_iff inv valid at_peeked
  · intro rcvd idxRx stock idxFq i at_filling more
    have covered := valid.stock
    rw [at_filling] at covered
    change stock.toNat ≤ i + _ at covered
    have frame := alloc_valid inv.frames (by omega)
    refine ⟨frame, ?_⟩
    intro invalid
    exact invalid_outside (invalid ▸ frame)
  · intro a member
    exact valid.entries a (List.mem_append_left _ member)

/- Undisturbed calls. -/

def Onward (s t : System) : Prop :=
  (∀ rcvd idxRx, s.pc ≠ .peeked rcvd idxRx) ∧ t = userStep true s

/-- A step that stocks only where the condition holds, with a kernel that has at most one frame
    in hand. -/
def Orderly (s t : System) : Prop := StockingFits s ∧ Step s t ∧ t.held.length ≤ 1

theorem onward_step {s t : System} (onward : Onward s t) : Step s t := by
  rw [onward.2]
  exact Step.user true s

theorem orderly_guarded {s : System} (run : Reached Configured Orderly s) :
    Reached Configured (Guarded StockingFits Step) s :=
  reached_mono (fun _ _ step => ⟨step.1, step.2.1⟩) run

theorem orderly_valid {s : System} (run : Reached Configured Orderly s) :
    Conserved s ∧ Valid s := guarded_valid (orderly_guarded run)

theorem orderly_held {s : System} (run : Reached Configured Orderly s) : s.held.length ≤ 1 := by
  cases run with
  | start configured =>
    rw [configured.2.2]
    exact Nat.zero_le 1
  | step before next => exact next.2.2

theorem user_held (sendOk : Bool) (s : System) : (userStep sendOk s).held = s.held := by
  unfold userStep
  cases s.pc with
  | retrying rcvd idxRx stock idxFq ret =>
    dsimp only
    split
    · rfl
    · rfl
  | filling rcvd idxRx stock idxFq i =>
    dsimp only
    split
    · rfl
    · rfl
  | receiving rcvd idxRx i =>
    dsimp only
    obtain ⟨y, sent, received, -⟩ := receiveOne_eq sendOk (s.xsk.rx.read idxRx) s
    rw [received]
    cases xskFreeUmemFrame y (s.xsk.rx.read idxRx).addr with
    | none =>
      split
      · rfl
      · rfl
    | some x =>
      split
      · rfl
      · rfl
  | completing =>
    dsimp only
    split
    · rfl
    · rfl
  | _ => rfl

theorem orderly_user {s : System} (run : Reached Configured Orderly s) (fits : StockingFits s) :
    Reached Configured Orderly (userStep true s) := by
  refine Reached.step run ⟨fits, Step.user true s, ?_⟩
  rw [user_held]
  exact orderly_held run

theorem path_conserved {s t : System} (inv : Conserved s)
    (path : Relation.ReflTransGen Onward s t) : Conserved t := by
  induction path with
  | refl => exact inv
  | tail before next ih => exact step_conserved _ _ ih (onward_step next)

theorem path_orderly {s t : System} (run : Reached Configured Orderly s)
    (path : Relation.ReflTransGen Onward s t) :
    Reached Configured Orderly t ∧ t.held = s.held := by
  induction path with
  | refl => exact ⟨run, rfl⟩
  | tail before next ih =>
    obtain ⟨reached, held⟩ := ih
    obtain ⟨elsewhere, rfl⟩ := next
    exact ⟨orderly_user reached (stockingFits_elsewhere elsewhere), (user_held _ _).trans held⟩

theorem fill_loop (k : Nat) {s : System} {rcvd idxRx stock idxFq : UInt32} {i : Nat}
    (at_filling : s.pc = .filling rcvd idxRx stock idxFq i) (more : i + k ≤ stock.toNat) :
    ∃ t idxFq' slot, Relation.ReflTransGen Onward s t ∧
      t.pc = .filling rcvd idxRx stock idxFq' (i + k) ∧
      t.xsk.umemFrameFree.toNat = s.xsk.umemFrameFree.toNat - k ∧
      t.xsk.fq = { s.xsk.fq with slot := slot } ∧ t.xsk.rx = s.xsk.rx := by
  induction k generalizing s idxFq i with
  | zero => exact ⟨s, idxFq, _, Relation.ReflTransGen.refl, at_filling, rfl, rfl, rfl⟩
  | succ k ih =>
    have step := filling_step true at_filling (by omega)
    obtain ⟨fq, rx, -⟩ := fillOne_frame idxFq s.xsk
    have onward : Onward s (userStep true s) := ⟨by simp [at_filling], rfl⟩
    have at_next : (userStep true s).pc = .filling rcvd idxRx stock (idxFq + 1) (i + 1) := by
      rw [step]
    obtain ⟨t, idxFq', slot, path, pc, free, fq', rx'⟩ := ih at_next (by omega)
    have total : i + 1 + k = i + (k + 1) := by omega
    rw [total] at pc
    refine ⟨t, idxFq', slot, path.head onward, pc, ?_, ?_, ?_⟩
    · rw [free, step]
      change (fillOne idxFq s.xsk).umemFrameFree.toNat - k = _
      rw [fillOne_free_count]
      omega
    · rw [fq', step]
      change { (fillOne idxFq s.xsk).fq with slot := slot } = _
      rw [fq]
      rfl
    · rw [rx', step]
      exact rx

theorem receive_loop (k : Nat) {s : System} {rcvd idxRx : UInt32} {i : Nat} (inv : Conserved s)
    (at_receiving : s.pc = .receiving rcvd idxRx i) (more : i + k ≤ rcvd.toNat) :
    ∃ t idxRx', Relation.ReflTransGen Onward s t ∧ t.pc = .receiving rcvd idxRx' (i + k) ∧
      t.xsk.fq = s.xsk.fq ∧ t.xsk.rx = s.xsk.rx := by
  induction k generalizing s idxRx i with
  | zero => exact ⟨s, idxRx, Relation.ReflTransGen.refl, at_receiving, rfl, rfl⟩
  | succ k ih =>
    have turn : i < rcvd.toNat := by omega
    obtain ⟨x, sent, step, -, -, fq, rx, -⟩ :=
      receiving_step true at_receiving turn (receiving_room inv at_receiving turn) inv.tail
    have onward : Onward s (userStep true s) := ⟨by simp [at_receiving], rfl⟩
    have at_next : (userStep true s).pc = .receiving rcvd (idxRx + 1) (i + 1) := by
      rw [step]
    obtain ⟨t, idxRx', path, pc, fq', rx'⟩ := ih (user_conserved true inv) at_next (by omega)
    have total : i + 1 + k = i + (k + 1) := by omega
    rw [total] at pc
    refine ⟨t, idxRx', path.head onward, pc, ?_, ?_⟩
    · rw [fq', step]
      exact fq
    · rw [rx', step]
      exact rx

structure Resting (s : System) (used held rx : Nat) : Prop where
  run : Reached Configured Orderly s
  at_idle : s.pc = .idle
  fqUsed : s.xsk.fq.used = used
  fqRoom : s.xsk.fq.room = 0
  heldCount : s.held.length = held
  rxUsed : s.xsk.rx.used = rx

theorem resting_fits {s : System} {used held rx : Nat} (rest : Resting s used held rx) :
    StockingFits s := stockingFits_elsewhere (by simp [rest.at_idle])

theorem resting_free {s : System} {used held rx : Nat} (rest : Resting s used held rx) :
    s.xsk.umemFrameFree.toNat + used + held + rx = NUM_FRAMES := by
  obtain ⟨inv, valid⟩ := orderly_valid rest.run
  have total := free_count inv valid
  rw [rest.at_idle, rest.fqUsed, rest.heldCount, rest.rxUsed] at total
  exact total

theorem boot_resting : Resting boot NUM_DESCS 0 0 := by
  obtain ⟨y, state, producing, pending, used, room, unused, -⟩ :=
    configured_setup boot_configured
  refine ⟨Reached.start boot_configured, rfl, ?_, ?_, rfl, ?_⟩
  · rw [state]
    change (y.fq.prodSubmit _).used = _
    rw [Ring.submit_used y.fq producing, used, pending, Nat.zero_add]
  · rw [state]
    exact room
  · rw [state]
    exact unused

theorem take_resting {s : System} {used rx : Nat} (rest : Resting s (used + 1) 0 rx) :
    ∃ t, Resting t used 1 rx := by
  have fits := resting_fits rest
  obtain ⟨inv, valid⟩ := orderly_valid rest.run
  obtain ⟨run, at_idle, fqUsed, fqRoom, heldCount, rxUsed⟩ := rest
  obtain ⟨fq, taken, shrink⟩ := Ring.peerTake_of_used s.xsk.fq (by omega)
  obtain ⟨head, -, room, -⟩ := Ring.peerTake_spec inv.producing taken
  have frame : InUmem (s.xsk.fq.read s.xsk.fq.consumer) := by
    apply valid.entries
    rw [written, head]
    exact List.mem_cons_self
  have held : (kernelTake (s.xsk.fq.read s.xsk.fq.consumer) fq s).held.length = 1 := by
    rw [kernelTake, if_pos frame, List.length_cons, heldCount]
  refine ⟨_, Reached.step run ⟨fits, Step.take taken, Nat.le_of_eq held⟩, at_idle, ?_,
    room.trans fqRoom, held, rxUsed⟩
  change fq.used = used
  omega

theorem publish_resting {s : System} {used rx : Nat} (rest : Resting s used 1 rx)
    (room : rx < NUM_DESCS) : ∃ t, Resting t used 0 (rx + 1) := by
  have fits := resting_fits rest
  obtain ⟨inv, -⟩ := orderly_valid rest.run
  obtain ⟨run, at_idle, fqUsed, fqRoom, heldCount, rxUsed⟩ := rest
  obtain ⟨f, others, split⟩ := List.exists_cons_of_length_eq_add_one heldCount
  have below : f < NUM_FRAMES := by
    apply located_lt inv.frames
    simp only [located, split, List.mem_append, List.mem_cons, true_or, or_true]
  let d : XdpDesc := ⟨UInt64.ofNat (f * FRAME_SIZE), 60⟩
  have inside : frameOf d.addr = f := by
    change (UInt64.ofNat (f * FRAME_SIZE)).toNat / FRAME_SIZE = f
    rw [UInt64.toNat_ofNat']
    unfold NUM_FRAMES at below
    unfold FRAME_SIZE
    omega
  have member : frameOf d.addr ∈ s.held := by
    rw [inside, split]
    exact List.mem_cons_self
  obtain ⟨rx', put⟩ := Ring.peerPut_of_room s.xsk.rx d (by omega)
  obtain ⟨entries, -⟩ := Ring.peerPut_spec inv.consuming put
  have grown := congrArg List.length entries
  simp only [Ring.entries_length, List.length_append, List.length_singleton] at grown
  have held : (s.held.erase (frameOf d.addr)).length = 0 := by
    rw [List.length_erase_of_mem member, heldCount]
  have step : Step s (kernelPublish d rx' s.xsk.buffer s) :=
    Step.publish member put fun _ _ => rfl
  refine ⟨_, Reached.step run ⟨fits, step, by rw [kernelPublish, held]; exact Nat.zero_le 1⟩,
    at_idle, fqUsed, fqRoom, held, ?_⟩
  change rx'.used = rx + 1
  omega

theorem pump_resting (k : Nat) {s : System} {used rx : Nat} (rest : Resting s (used + k) 0 rx)
    (room : rx + k ≤ NUM_DESCS) : ∃ t, Resting t used 0 (rx + k) := by
  induction k generalizing s rx with
  | zero => exact ⟨s, rest⟩
  | succ k ih =>
    obtain ⟨t, taken⟩ := take_resting rest
    obtain ⟨u, published⟩ := publish_resting taken (by omega)
    have total : rx + 1 + k = rx + (k + 1) := by omega
    rw [← total]
    exact ih published (by omega)

theorem peek_resting {s : System} {used held rx : Nat} (rest : Resting s used held rx)
    (packets : 0 < rx) :
    ∃ t rcvd idxRx, Reached Configured Orderly t ∧ t.pc = .peeked rcvd idxRx ∧
      0 < rcvd.toNat ∧ rcvd.toNat ≤ 64 ∧ t.xsk.fq = s.xsk.fq ∧ t.held = s.held ∧
      t.xsk.rx.used = rx ∧ t.xsk.umemFrameFree = s.xsk.umemFrameFree := by
  have next := orderly_user rest.run (resting_fits rest)
  have inv := (orderly_valid rest.run).1
  obtain ⟨-, at_idle, -, -, -, rxUsed⟩ := rest
  have released := inv.atPc
  rw [at_idle] at released
  have found := Ring.consNbAvail_pos RX_BATCH_SIZE s.xsk.rx (by decide) released.2 (by omega)
  have few := (Ring.consNbAvail_le RX_BATCH_SIZE s.xsk.rx).1
  rcases idle_step true at_idle with ⟨none, -⟩ | ⟨-, step⟩
  · rw [none] at found
    exact absurd found (by decide)
  · refine ⟨userStep true s, (s.xsk.rx.consNbAvail RX_BATCH_SIZE).1, s.xsk.rx.cachedCons,
      next, ?_, ?_, few, ?_, ?_, ?_, ?_⟩
    · rw [step]
    · rwa [UInt32.lt_iff_toNat_lt] at found
    · rw [step]
    · rw [step]
    · rw [step]
      exact (Ring.consNbAvail_used _ _).trans rxUsed
    · rw [step]

theorem uncached_offer {s : System} (inv : Conserved s) (unpending : s.xsk.fq.pending = 0)
    (uncached : s.xsk.fq.room = 0) (some_free : 0 < s.xsk.umemFrameFree.toNat) :
    (stockFrames s.xsk).toNat = NUM_DESCS - s.xsk.fq.used := by
  rw [stockFrames_eq, Ring.prodNbFree_value _ _ inv.producing, uncached, unpending, if_neg]
  · rfl
  · rw [UInt32.le_iff_toNat_le, UInt32.toNat_zero]
    omega

theorem start_filling {s : System} {rcvd idxRx : UInt32} (inv : Conserved s)
    (at_peeked : s.pc = .peeked rcvd idxRx) (uncached : s.xsk.fq.room = 0)
    (some_free : 0 < s.xsk.umemFrameFree.toNat) (partly : s.xsk.fq.used < NUM_DESCS) :
    ∃ t stock idxFq, Relation.ReflTransGen Onward (userStep true s) t ∧
      t.pc = .filling rcvd idxRx stock idxFq 0 ∧ stock = stockFrames s.xsk ∧
      stock.toNat = NUM_DESCS - s.xsk.fq.used ∧ t.xsk.fq.used = s.xsk.fq.used ∧
      t.xsk.fq.room = 0 ∧ t.xsk.rx = s.xsk.rx ∧
      t.xsk.umemFrameFree = s.xsk.umemFrameFree := by
  have atPc := inv.atPc
  rw [at_peeked] at atPc
  obtain ⟨unpending, -⟩ := atPc
  have amount := uncached_offer inv unpending uncached some_free
  have positive : 0 < (s.xsk.fq.prodNbFree s.xsk.umemFrameFree).1 := by
    rw [stockFrames_eq] at amount
    rw [UInt32.lt_iff_toNat_lt, UInt32.toNat_zero]
    omega
  obtain ⟨t₁, first⟩ : ∃ t, userStep true s = t := ⟨_, rfl⟩
  obtain ⟨t₂, second⟩ : ∃ t, userStep true t₁ = t := ⟨_, rfl⟩
  obtain ⟨t₃, third⟩ : ∃ t, userStep true t₂ = t := ⟨_, rfl⟩
  have step₁ := peeked_step true at_peeked
  rw [if_pos positive, first] at step₁
  rw [← stockFrames_eq] at step₁
  have room₁ : t₁.xsk.fq.room = stockFrames s.xsk := by
    rw [step₁, stockFrames_eq]
    exact Ring.prodNbFree_room _ _
  have pc₁ : t₁.pc = .stocking rcvd idxRx (stockFrames s.xsk) := by rw [step₁]
  have step₂ := stocking_step true pc₁ (UInt32.le_of_eq room₁.symm)
  rw [second] at step₂
  have pc₂ : t₂.pc = .retrying rcvd idxRx (stockFrames s.xsk) t₁.xsk.fq.cachedProd
      (stockFrames s.xsk) := by rw [step₂]
  have step₃ := retrying_step true pc₂
  rw [third] at step₃
  have onward₂ : Onward t₁ t₂ := ⟨by simp [pc₁], second.symm⟩
  have onward₃ : Onward t₂ t₃ := ⟨by simp [pc₂], third.symm⟩
  rw [first]
  refine ⟨t₃, stockFrames s.xsk, t₁.xsk.fq.cachedProd,
    Relation.ReflTransGen.head onward₂ (Relation.ReflTransGen.single onward₃), ?_, rfl, amount,
    ?_, ?_, ?_, ?_⟩
  · rw [step₃]
  · rw [step₃, step₂, step₁]
    exact Ring.prodNbFree_used _ _
  · rw [step₃, step₂, Ring.reserved_room, room₁, UInt32.sub_self]
  · rw [step₃, step₂, step₁]
  · rw [step₃, step₂, step₁]

theorem finish_filling {s : System} {rcvd idxRx stock idxFq : UInt32} (inv : Conserved s)
    (at_filling : s.pc = .filling rcvd idxRx stock idxFq 0) :
    ∃ t, Relation.ReflTransGen Onward s t ∧ t.pc = .receiving rcvd idxRx 0 ∧
      t.xsk.fq.used = s.xsk.fq.used + stock.toNat ∧ t.xsk.fq.room = s.xsk.fq.room ∧
      t.xsk.rx = s.xsk.rx := by
  obtain ⟨u, idxFq', slot, path, pc, -, fq, rx⟩ := fill_loop stock.toNat at_filling (by omega)
  have inv' := path_conserved inv path
  have atPc := inv'.atPc
  rw [pc] at atPc
  obtain ⟨pending, -⟩ := atPc
  have amount : stock = UInt32.ofNat u.xsk.fq.pending := ofNat_of_toNat pending
  have step := submit_step true pc (by omega)
  refine ⟨userStep true u, path.tail ⟨by simp [pc], rfl⟩, ?_, ?_, ?_, ?_⟩
  · rw [step]
  · rw [step]
    change (u.xsk.fq.prodSubmit stock).used = _
    rw [amount, Ring.submit_used _ inv'.producing, pending, fq]
    simp only [UInt32.toNat_ofNat', Nat.mod_eq_of_lt stock.toNat_lt]
    rfl
  · rw [step]
    change u.xsk.fq.room = _
    rw [fq]
    rfl
  · rw [step]
    exact rx

theorem finish_receiving {s : System} {rcvd idxRx : UInt32} (inv : Conserved s)
    (at_receiving : s.pc = .receiving rcvd idxRx 0) :
    ∃ t, Relation.ReflTransGen Onward s t ∧ t.pc = .idle ∧ t.xsk.fq = s.xsk.fq ∧
      rcvd.toNat ≤ s.xsk.rx.used ∧ t.xsk.rx.used = s.xsk.rx.used - rcvd.toNat := by
  obtain ⟨u, idxRx', path, pc, fq, rx⟩ :=
    receive_loop rcvd.toNat inv at_receiving (by omega)
  have inv' := path_conserved inv path
  have atPc := inv'.atPc
  have visible := inv'.consuming.1
  rw [pc] at atPc
  obtain ⟨-, -, peeked, -⟩ := atPc
  have amount : rcvd = UInt32.ofNat u.xsk.rx.peeked := ofNat_of_toNat peeked
  obtain ⟨v, third⟩ : ∃ v, userStep true u = v := ⟨_, rfl⟩
  have step := release_step true pc (by omega)
  rw [third] at step
  have pc₁ : v.pc = .completing := by rw [step]
  have path₁ : Relation.ReflTransGen Onward s v := path.tail ⟨by simp [pc], third.symm⟩
  have step₁ := completing_step true pc₁ (path_conserved inv path₁).noTx
  refine ⟨userStep true v, path₁.tail ⟨by simp [pc₁], rfl⟩, ?_, ?_, ?_, ?_⟩
  · rw [step₁]
  · rw [step₁, step]
    exact fq
  · rw [← rx]
    omega
  · rw [step₁, step]
    change (u.xsk.rx.consRelease rcvd).used = _
    rw [amount, Ring.release_used _ inv'.consuming, ← amount, peeked, rx]

theorem stock_resting {s : System} {used held rx : Nat} (rest : Resting s used held rx)
    (packets : 0 < rx) (fits : held + rx ≤ NUM_DESCS) (partly : used < NUM_DESCS) :
    ∃ t u rcvd idxRx stock idxFq, Reached Configured Orderly t ∧ t.pc = .peeked rcvd idxRx ∧
      Fits t ∧ Reached Configured Orderly u ∧ u.pc = .filling rcvd idxRx stock idxFq 0 ∧
      stock = stockFrames t.xsk ∧ 0 < rcvd.toNat ∧ rcvd.toNat ≤ 64 ∧
      stock.toNat = NUM_DESCS - used ∧ u.xsk.fq.used = used ∧ u.xsk.fq.room = 0 ∧
      u.xsk.rx.used = rx ∧ u.held = s.held := by
  have free := resting_free rest
  obtain ⟨t, rcvd, idxRx, run, at_peeked, some_rcvd, few, fq, heldSame, rxUsed, freeSame⟩ :=
    peek_resting rest packets
  have fits' : Fits t := by
    left
    rw [heldSame, rest.heldCount, rxUsed]
    exact fits
  have room : t.xsk.fq.room = 0 := by rw [fq, rest.fqRoom]
  have usedSame : t.xsk.fq.used = used := by rw [fq, rest.fqUsed]
  have some_free : 0 < t.xsk.umemFrameFree.toNat := by
    rw [freeSame]
    unfold NUM_FRAMES at free
    unfold NUM_DESCS at fits partly
    omega
  obtain ⟨u, stock, idxFq, path, at_filling, offer, amount, used', room', rx', -⟩ :=
    start_filling (orderly_valid run).1 at_peeked room some_free (by omega)
  have stocks : StockingFits t := fun _ _ _ => fits'
  obtain ⟨run', held'⟩ := path_orderly (orderly_user run stocks) path
  refine ⟨t, u, rcvd, idxRx, stock, idxFq, run, at_peeked, fits', run', at_filling, offer,
    some_rcvd, few, ?_, used'.trans usedSame, room', ?_, ?_⟩
  · rw [amount, usedSame]
  · rw [rx', rxUsed]
  · rw [held', user_held, heldSame]

theorem call_resting {s : System} {used held rx : Nat} (rest : Resting s used held rx)
    (packets : 0 < rx) (fits : held + rx ≤ NUM_DESCS) (partly : used < NUM_DESCS) :
    ∃ t q, 0 < q ∧ q ≤ 64 ∧ q ≤ rx ∧ Resting t NUM_DESCS held (rx - q) := by
  obtain ⟨-, u, rcvd, idxRx, stock, idxFq, -, -, -, run, at_filling, -, some_rcvd, few, amount,
    used', room', rx', held'⟩ := stock_resting rest packets fits partly
  have inv := (orderly_valid run).1
  obtain ⟨v, path₁, at_receiving, used₁, room₁, rx₁⟩ := finish_filling inv at_filling
  obtain ⟨w, path₂, at_idle, fq₂, batch, rx₂⟩ :=
    finish_receiving (path_conserved inv path₁) at_receiving
  obtain ⟨run₂, held₂⟩ := path_orderly run (path₁.trans path₂)
  rw [rx₁, rx'] at batch rx₂
  refine ⟨w, rcvd.toNat, some_rcvd, few, batch, run₂, at_idle, ?_, ?_, ?_, rx₂⟩
  · rw [fq₂, used₁, used', amount]
    omega
  · rw [fq₂, room₁, room']
  · rw [held₂, held', rest.heldCount]

/-- Some packets come, a call handles a batch of them, and the kernel takes one more entry:
    then there are frames in all four places. -/
theorem umem_frames_conserved_after_call :
    ∃ s : System, 0 < s.xsk.umemFrameFree.toNat ∧ 0 < s.xsk.fq.used ∧ s.held.length = 1 ∧
      0 < s.xsk.rx.used ∧ ∀ f, f < NUM_FRAMES →
        (freeFrames s.xsk).count f + (fillFrames s.xsk.fq 0).count f + s.held.count f +
          (rxFrames s.xsk.rx 0).count f = 1 := by
  obtain ⟨s₁, rest₁⟩ := pump_resting 65 boot_resting (by decide)
  obtain ⟨s₂, q, some_q, few, -, rest₂⟩ := call_resting rest₁ (by decide) (by decide) (by decide)
  obtain ⟨s₃, rest₃⟩ := take_resting rest₂
  have free := resting_free rest₃
  have run : Reached Configured Step s₃ := reached_mono (fun _ _ step => step.2.1) rest₃.run
  refine ⟨s₃, ?_, ?_, rest₃.heldCount, ?_, ((umem_frames_conserved run).2 rest₃.at_idle).1⟩
  · unfold NUM_FRAMES at free
    omega
  · rw [rest₃.fqUsed]
    decide
  · rw [rest₃.rxUsed]
    omega

/-- One packet comes, and the call that finds it stocks one slot. -/
theorem fill_ring_valid_in_call :
    ∃ (s t : System) (rcvd idxRx stock idxFq : UInt32), s.pc = .peeked rcvd idxRx ∧ Fits s ∧
      stock = stockFrames s.xsk ∧ stock.toNat ≤ s.xsk.umemFrameFree.toNat ∧
      t.pc = .filling rcvd idxRx stock idxFq 0 ∧ stock.toNat = 1 ∧
      InUmem (xskAllocUmemFrame t.xsk).1 ∧
      (xskAllocUmemFrame t.xsk).1 ≠ INVALID_UMEM_FRAME ∧
      ∀ a ∈ t.xsk.fq.entries, InUmem a := by
  obtain ⟨s₁, rest₁⟩ := pump_resting 1 boot_resting (by decide)
  obtain ⟨s, t, rcvd, idxRx, stock, idxFq, run, at_peeked, fits, run', at_filling, offer, -, -,
    amount, -⟩ := stock_resting rest₁ (by decide) (by decide) (by decide)
  obtain ⟨bounded, -, -⟩ := fill_ring_valid (orderly_guarded run)
  obtain ⟨-, frames, entries⟩ := fill_ring_valid (orderly_guarded run')
  have one : stock.toNat = 1 := amount
  obtain ⟨frame, real⟩ := frames rcvd idxRx stock idxFq 0 at_filling (by omega)
  refine ⟨s, t, rcvd, idxRx, stock, idxFq, at_peeked, fits, offer, ?_, at_filling, one, frame,
    real, entries⟩
  rw [offer]
  exact (bounded rcvd idxRx at_peeked).mpr fits

/-- The rx ring is full, the kernel holds one more frame, and the user is about to stock:
    the fill ring then has one more free slot than there are free frames. -/
theorem overload_reached :
    ∃ s rcvd idxRx, Reached Configured Step s ∧ s.pc = .peeked rcvd idxRx ∧
      s.xsk.fq.room = 0 ∧ 0 < s.xsk.umemFrameFree.toNat ∧ s.held.length = 1 ∧
      s.xsk.umemFrameFree.toNat + s.xsk.fq.used + 1 = NUM_DESCS := by
  have full : Resting boot (0 + NUM_DESCS) 0 0 := boot_resting
  obtain ⟨s₁, rest₁⟩ := pump_resting NUM_DESCS full (by omega)
  obtain ⟨s₂, q, some_q, few, -, rest₂⟩ := call_resting rest₁ (by decide) (by omega) (by decide)
  rw [Nat.zero_add] at rest₂
  have whole : NUM_DESCS - q + q = NUM_DESCS := by
    unfold NUM_DESCS
    omega
  have refilled : Resting s₂ (NUM_DESCS - q + q) 0 (NUM_DESCS - q) := by rwa [whole]
  obtain ⟨s₃, rest₃⟩ := pump_resting q refilled (by omega)
  rw [whole] at rest₃
  have one_more : NUM_DESCS - q = NUM_DESCS - q - 1 + 1 := by
    unfold NUM_DESCS
    omega
  rw [one_more] at rest₃
  obtain ⟨s₄, rest₄⟩ := take_resting rest₃
  have free := resting_free rest₄
  obtain ⟨t, rcvd, idxRx, run, at_peeked, -, -, fq, held, -, freeSame⟩ :=
    peek_resting rest₄ (by decide)
  refine ⟨t, rcvd, idxRx, reached_mono (fun _ _ step => step.2.1) run, at_peeked, ?_, ?_, ?_, ?_⟩
  · rw [fq, rest₄.fqRoom]
  · rw [freeSame]
    unfold NUM_FRAMES NUM_DESCS at free
    omega
  · rw [held, rest₄.heldCount]
  · rw [freeSame, fq, rest₄.fqUsed]
    unfold NUM_FRAMES at free
    unfold NUM_DESCS at free ⊢
    omega

/-- In that state stock_frames exceeds the free frames, and filling goes on to write
    INVALID_UMEM_FRAME into the ring. -/
theorem overload_writes_invalid :
    (∃ s rcvd idxRx, Reached Configured Step s ∧ s.pc = .peeked rcvd idxRx ∧
      s.xsk.umemFrameFree.toNat < (stockFrames s.xsk).toNat) ∧
    ∃ s rcvd idxRx stock idxFq i, Reached Configured Step s ∧
      s.pc = .filling rcvd idxRx stock idxFq i ∧ i < stock.toNat ∧
      (xskAllocUmemFrame s.xsk).1 = INVALID_UMEM_FRAME := by
  obtain ⟨s, rcvd, idxRx, run, at_peeked, uncached, some_free, -, short⟩ := overload_reached
  obtain ⟨t, stock, idxFq, path, at_filling, rfl, amount, -, -, -, free⟩ :=
    start_filling (reached_conserved run) at_peeked uncached some_free (by omega)
  constructor
  · exact ⟨s, rcvd, idxRx, run, at_peeked, by omega⟩
  · obtain ⟨u, idxFq', slot, path', pc, emptied, -⟩ :=
      fill_loop s.xsk.umemFrameFree.toNat at_filling (by omega)
    rw [free, Nat.sub_self] at emptied
    have stocked : Reached Configured Step (userStep true s) :=
      Reached.step run (Step.user true s)
    have run' := reached_path (fun _ _ => onward_step) stocked (path.trans path')
    refine ⟨u, rcvd, idxRx, stockFrames s.xsk, idxFq', _, run', pc, by omega, ?_⟩
    have empty : u.xsk.umemFrameFree = 0 := by
      rw [← UInt32.toNat_inj, emptied, UInt32.toNat_zero]
    rw [alloc_empty empty]

end XSKFillRing
