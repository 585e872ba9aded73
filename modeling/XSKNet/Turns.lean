import XSKNet.FrameConservation

/- A call of handle_receive_packets step by step: how many steps it still takes, and how many
   packets of its batch it still handles. -/
namespace XSKTurns
open XSKPacket SharedRing XSKSocket XSKReceive XSKConservation

def handling : Pc → Bool
  | .receiving rcvd _ i => decide (i < rcvd.toNat)
  | _ => false

/-- A full fill ring to stock, a full batch to handle, and what lies around them. -/
def callSteps : Nat := NUM_DESCS + RX_BATCH_SIZE.toNat + 7

def left : Pc → Nat
  | .idle => 0
  | .peeked rcvd _ => NUM_DESCS + rcvd.toNat + 6
  | .stocking rcvd _ stockFrames => stockFrames.toNat + rcvd.toNat + 5
  | .retrying rcvd _ stockFrames _ _ => stockFrames.toNat + rcvd.toNat + 4
  | .filling rcvd _ stockFrames _ i => stockFrames.toNat - i + rcvd.toNat + 3
  | .receiving rcvd _ i => rcvd.toNat - i + 2
  | .completing => 1
  | .aborted => 0

def batchLeft : Pc → Nat
  | .peeked rcvd _ => rcvd.toNat
  | .stocking rcvd _ _ => rcvd.toNat
  | .retrying rcvd _ _ _ _ => rcvd.toNat
  | .filling rcvd _ _ _ _ => rcvd.toNat
  | .receiving rcvd _ i => rcvd.toNat - i
  | _ => 0

/- What a step does to the call it belongs to. -/

/-- The entries a peek chooses from: the cached ones, or all of them when none is cached. -/
def offered (s : System) : Nat :=
  if s.xsk.rx.seen = 0 then s.xsk.rx.used else s.xsk.rx.seen.toNat

/-- The call has peeked a batch of at most 64 of the entries offered. -/
structure Begins (s t : System) : Prop where
  some_offered : 0 < offered s
  batch : batchLeft t.pc = min 64 (offered s)
  seen : t.xsk.rx.seen.toNat = offered s - min 64 (offered s)
  left : left t.pc = NUM_DESCS + batchLeft t.pc + 6
  inside : t.pc ≠ .idle

/-- The call has one step less to go, and handles a packet when it is at one. -/
structure Continues (s t : System) : Prop where
  left : left t.pc + 1 ≤ left s.pc
  batch : batchLeft t.pc + (if handling s.pc then 1 else 0) = batchLeft s.pc
  seen : t.xsk.rx.seen = s.xsk.rx.seen

theorem seen_refreshed {r : Ring NUM_DESCS XdpDesc} (released : r.peeked = 0) :
    (r.consNbAvail RX_BATCH_SIZE).2.seen.toNat =
      if r.seen = 0 then r.used else r.seen.toNat := by
  have same : r.cachedCons = r.consumer := by
    rw [Ring.cachedCons_eq, released]
    exact UInt32.add_zero _
  unfold Ring.consNbAvail
  dsimp only
  split
  · simp [Ring.seen, Ring.used, same]
  · rfl

theorem batch_of_offered {s : System} (released : s.xsk.rx.peeked = 0) :
    (s.xsk.rx.consNbAvail RX_BATCH_SIZE).1.toNat = min 64 (offered s) := by
  have shown : (s.xsk.rx.consNbAvail RX_BATCH_SIZE).2.seen.toNat = offered s :=
    seen_refreshed released
  change (if RX_BATCH_SIZE < (s.xsk.rx.consNbAvail RX_BATCH_SIZE).2.seen then RX_BATCH_SIZE
    else (s.xsk.rx.consNbAvail RX_BATCH_SIZE).2.seen).toNat = _
  have size : RX_BATCH_SIZE.toNat = 64 := rfl
  split
  · rename_i more
    rw [UInt32.lt_iff_toNat_lt] at more
    omega
  · rename_i all
    rw [UInt32.lt_iff_toNat_lt] at all
    omega

theorem idle_turn (sendOk : Bool) {s : System} (inv : Conserved s) (at_idle : s.pc = .idle) :
    ((userStep sendOk s).pc = .idle ∧ offered s = 0) ∨ Begins s (userStep sendOk s) := by
  have atPc := inv.atPc
  rw [at_idle] at atPc
  have released : s.xsk.rx.peeked = 0 := atPc.2
  have shown : (s.xsk.rx.consNbAvail RX_BATCH_SIZE).2.seen.toNat = offered s :=
    seen_refreshed released
  have batch := batch_of_offered released
  rcases idle_step sendOk at_idle with ⟨none_avail, step⟩ | ⟨some_avail, step⟩
  · left
    rw [none_avail] at batch
    change 0 = min 64 (offered s) at batch
    refine ⟨?_, by omega⟩
    rw [step]
    exact at_idle
  · right
    rw [UInt32.lt_iff_toNat_lt, batch] at some_avail
    change 0 < min 64 (offered s) at some_avail
    rw [step]
    refine ⟨by omega, batch, ?_, rfl, nofun⟩
    have hc := s.xsk.rx.cachedCons.toNat_lt
    have hp := (s.xsk.rx.consNbAvail RX_BATCH_SIZE).2.cachedProd.toNat_lt
    simp only [Ring.seen, Ring.consNbAvail_cachedCons, UInt32.toNat_sub,
      UInt32.toNat_add] at shown ⊢
    omega

theorem stock_bounded {s : System} (inv : Conserved s) :
    (s.xsk.fq.prodNbFree s.xsk.umemFrameFree).1.toNat ≤ NUM_DESCS := by
  have ok := Ring.prodNbFree_producing s.xsk.umemFrameFree s.xsk.fq inv.producing
  unfold Ring.Producing at ok
  rw [Ring.prodNbFree_room] at ok
  omega

theorem peeked_turn (sendOk : Bool) {s : System} {rcvd idxRx : UInt32} (inv : Conserved s)
    (at_peeked : s.pc = .peeked rcvd idxRx) : Continues s (userStep sendOk s) := by
  have bounded := stock_bounded inv
  rw [peeked_step sendOk at_peeked]
  split
  · refine ⟨?_, by rw [at_peeked]; rfl, rfl⟩
    rw [at_peeked]
    change _ + rcvd.toNat + 5 + 1 ≤ NUM_DESCS + rcvd.toNat + 6
    omega
  · refine ⟨?_, by rw [at_peeked]; rfl, rfl⟩
    rw [at_peeked]
    change rcvd.toNat - 0 + 2 + 1 ≤ NUM_DESCS + rcvd.toNat + 6
    omega

theorem filling_turn (sendOk : Bool) {s : System} {rcvd idxRx stock idxFq : UInt32} {i : Nat}
    (at_filling : s.pc = .filling rcvd idxRx stock idxFq i) :
    Continues s (userStep sendOk s) := by
  by_cases more : i < stock.toNat
  · have rx := (fillOne_frame idxFq s.xsk).2.1
    rw [filling_step sendOk at_filling more]
    refine ⟨?_, by rw [at_filling]; rfl, congrArg Ring.seen rx⟩
    rw [at_filling]
    change stock.toNat - (i + 1) + rcvd.toNat + 3 + 1 ≤ stock.toNat - i + rcvd.toNat + 3
    omega
  · rw [submit_step sendOk at_filling more]
    refine ⟨?_, by rw [at_filling]; rfl, rfl⟩
    rw [at_filling]
    change rcvd.toNat - 0 + 2 + 1 ≤ stock.toNat - i + rcvd.toNat + 3
    omega

theorem receiving_turn (sendOk : Bool) {s : System} {rcvd idxRx : UInt32} {i : Nat}
    (inv : Conserved s) (at_receiving : s.pc = .receiving rcvd idxRx i) :
    Continues s (userStep sendOk s) := by
  by_cases more : i < rcvd.toNat
  · obtain ⟨x, sent, step, -, -, -, rx, -⟩ :=
      receiving_step sendOk at_receiving more (receiving_room inv at_receiving more) inv.tail
    rw [step]
    refine ⟨?_, ?_, congrArg Ring.seen rx⟩
    · rw [at_receiving]
      change rcvd.toNat - (i + 1) + 2 + 1 ≤ rcvd.toNat - i + 2
      omega
    · have busy : handling s.pc = true := by
        rw [at_receiving]
        exact decide_eq_true more
      rw [if_pos busy, at_receiving]
      change rcvd.toNat - (i + 1) + 1 = rcvd.toNat - i
      omega
  · rw [release_step sendOk at_receiving more]
    refine ⟨?_, ?_, rfl⟩
    · rw [at_receiving]
      change 1 + 1 ≤ rcvd.toNat - i + 2
      omega
    · have quiet : handling s.pc = false := by
        rw [at_receiving]
        exact decide_eq_false more
      rw [quiet, at_receiving]
      change 0 = rcvd.toNat - i
      omega

theorem call_turn (sendOk : Bool) {s : System} (inv : Conserved s) (inside : s.pc ≠ .idle) :
    Continues s (userStep sendOk s) := by
  have atPc := inv.atPc
  cases at_pc : s.pc with
  | idle => exact absurd at_pc inside
  | peeked rcvd idxRx => exact peeked_turn sendOk inv at_pc
  | stocking rcvd idxRx stock =>
    rw [at_pc] at atPc
    rw [stocking_step sendOk at_pc (UInt32.le_of_eq atPc.2.1)]
    exact ⟨by rw [at_pc]; rfl, by rw [at_pc]; rfl, rfl⟩
  | retrying rcvd idxRx stock idxFq ret =>
    rw [at_pc] at atPc
    obtain ⟨-, rfl, -⟩ := atPc
    rw [retrying_step sendOk at_pc]
    exact ⟨by rw [at_pc]; rfl, by rw [at_pc]; rfl, rfl⟩
  | filling rcvd idxRx stock idxFq i => exact filling_turn sendOk at_pc
  | receiving rcvd idxRx i => exact receiving_turn sendOk inv at_pc
  | completing =>
    rw [completing_step sendOk at_pc inv.noTx]
    exact ⟨by rw [at_pc]; rfl, by rw [at_pc]; rfl, rfl⟩
  | aborted =>
    rw [at_pc] at atPc
    exact False.elim atPc

end XSKTurns
