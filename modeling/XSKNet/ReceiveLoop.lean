import XSKNet.XskSocket
import XSKNet.Runs

/- handle_receive_packets as a machine that can be interrupted between any two accesses to
   the shared rings, together with the kernel's half of the fill and rx rings. -/
namespace XSKReceive
open XSKPacket SharedRing XSKSocket

/-- Where the user is in handle_receive_packets, with the locals that are live there. -/
inductive Pc where
  | idle
  | peeked (rcvd idxRx : UInt32)
  | stocking (rcvd idxRx stockFrames : UInt32)
  | retrying (rcvd idxRx stockFrames idxFq ret : UInt32)
  | filling (rcvd idxRx stockFrames idxFq : UInt32) (i : Nat)
  | receiving (rcvd idxRx : UInt32) (i : Nat)
  | completing
  | aborted
  deriving DecidableEq

/-- held lists the frames the kernel took from the fill ring and has not published. -/
structure System where
  xsk : XskSocketInfo
  pc : Pc
  sent : List (List UInt8)
  held : List Nat

/- The user. -/

def processAt (sendOk : Bool) (d : XdpDesc) (s : System) : Bool × System :=
  let pkt : PacketState :=
    ⟨fun off => s.xsk.buffer (d.addr.toNat + off), [], s.xsk.stats, s.sent⟩
  let (queued, after) := processPacket sendOk d.len pkt
  (queued, { s with
    xsk := { s.xsk with
      buffer := fun a =>
        if d.addr.toNat ≤ a then after.byte (a - d.addr.toNat) else s.xsk.buffer a
      stats := after.stats }
    sent := after.sent })

def countRxBytes (len : UInt32) (x : XskSocketInfo) : XskSocketInfo :=
  { x with stats := { x.stats with rxBytes := x.stats.rxBytes + len.toUInt64 } }

def countRxPackets (rcvd : UInt32) (x : XskSocketInfo) : XskSocketInfo :=
  { x with stats := { x.stats with rxPackets := x.stats.rxPackets + rcvd.toUInt64 } }

/-- One turn of the receive loop, or none when the assert fails. -/
def receiveOne (sendOk : Bool) (d : XdpDesc) (s : System) : Option System :=
  let (queued, after) := processAt sendOk d s
  let freed := if !queued then xskFreeUmemFrame after.xsk d.addr else some after.xsk
  freed.map fun x => { after with xsk := countRxBytes d.len x }

def freeCompleted : Nat → UInt32 → XskSocketInfo → Option XskSocketInfo
  | 0, _, x => some x
  | k + 1, idx, x => (xskFreeUmemFrame x (x.cq.read idx)).bind (freeCompleted k (idx + 1))

def completeTx (x : XskSocketInfo) : Option XskSocketInfo :=
  if x.outstandingTx = 0 then some x
  else
    let (completed, idx, cq) := x.cq.consPeek (UInt32.ofNat NUM_DESCS) 0
    if completed = 0 then some { x with cq := cq }
    else
      (freeCompleted completed.toNat idx { x with cq := cq }).map fun y => { y with
        cq := y.cq.consRelease completed
        outstandingTx := y.outstandingTx -
          (if completed < y.outstandingTx then completed else y.outstandingTx) }

def userStep (sendOk : Bool) (s : System) : System :=
  match s.pc with
  | .idle =>
    let (rcvd, idxRx, rx) := s.xsk.rx.consPeek RX_BATCH_SIZE 0
    { s with
      xsk := { s.xsk with rx := rx }
      pc := if rcvd = 0 then .idle else .peeked rcvd idxRx }
  | .peeked rcvd idxRx =>
    let (stockFrames, fq) := s.xsk.fq.prodNbFree (xskUmemFreeFrames s.xsk).toUInt32
    { s with
      xsk := { s.xsk with fq := fq }
      pc := if 0 < stockFrames then .stocking rcvd idxRx stockFrames
        else .receiving rcvd idxRx 0 }
  | .stocking rcvd idxRx stockFrames =>
    let (ret, idxFq, fq) := s.xsk.fq.prodReserve stockFrames 0
    { s with
      xsk := { s.xsk with fq := fq }
      pc := .retrying rcvd idxRx stockFrames idxFq ret }
  | .retrying rcvd idxRx stockFrames idxFq ret =>
    if ret ≠ stockFrames then
      -- the retry asks for rcvd entries, not for stockFrames
      let (ret, idxFq, fq) := s.xsk.fq.prodReserve rcvd idxFq
      { s with
        xsk := { s.xsk with fq := fq }
        pc := .retrying rcvd idxRx stockFrames idxFq ret }
    else { s with pc := .filling rcvd idxRx stockFrames idxFq 0 }
  | .filling rcvd idxRx stockFrames idxFq i =>
    if i < stockFrames.toNat then
      { s with
        xsk := fillOne idxFq s.xsk
        pc := .filling rcvd idxRx stockFrames (idxFq + 1) (i + 1) }
    else
      { s with
        xsk := { s.xsk with fq := s.xsk.fq.prodSubmit stockFrames }
        pc := .receiving rcvd idxRx 0 }
  | .receiving rcvd idxRx i =>
    if i < rcvd.toNat then
      match receiveOne sendOk (s.xsk.rx.read idxRx) s with
      | some after => { after with pc := .receiving rcvd (idxRx + 1) (i + 1) }
      | none => { s with pc := .aborted }
    else
      { s with
        xsk := countRxPackets rcvd { s.xsk with rx := s.xsk.rx.consRelease rcvd }
        pc := .completing }
  | .completing =>
    match completeTx s.xsk with
    | some x => { s with xsk := x, pc := .idle }
    | none => { s with pc := .aborted }
  | .aborted => s

/- The kernel. -/

/-- An address outside the UMEM is skipped, any other is masked to its chunk and held. -/
def kernelTake (v : UInt64) (fq : Ring NUM_DESCS UInt64) (s : System) : System :=
  { s with
    xsk := { s.xsk with fq := fq }
    held := if InUmem v then frameOf v :: s.held else s.held }

def kernelPublish (d : XdpDesc) (rx : Ring NUM_DESCS XdpDesc) (buffer : Nat → UInt8)
    (s : System) : System :=
  { s with
    xsk := { s.xsk with rx := rx, buffer := buffer }
    held := s.held.erase (frameOf d.addr) }

/-- The kernel moves between any two steps of the user; it writes packet data only into
    the frame it publishes. -/
inductive Step : System → System → Prop where
  | user (sendOk : Bool) (s : System) : Step s (userStep sendOk s)
  | take {s : System} {v : UInt64} {fq : Ring NUM_DESCS UInt64}
      (taken : s.xsk.fq.peerTake = some (v, fq)) : Step s (kernelTake v fq s)
  | publish {s : System} {d : XdpDesc} {rx : Ring NUM_DESCS XdpDesc} {buffer : Nat → UInt8}
      (held : frameOf d.addr ∈ s.held) (put : s.xsk.rx.peerPut d = some rx)
      (elsewhere : ∀ a, a / FRAME_SIZE ≠ frameOf d.addr → buffer a = s.xsk.buffer a) :
      Step s (kernelPublish d rx buffer s)

def Configured (s : System) : Prop :=
  (∃ calls mem, xskConfigureSocket calls mem = some s.xsk) ∧ s.pc = .idle ∧ s.held = []

/- What one step of the user does at each point of the loop. -/

theorem idle_step (sendOk : Bool) {s : System} (at_idle : s.pc = .idle) :
    ((s.xsk.rx.consNbAvail RX_BATCH_SIZE).1 = 0 ∧ userStep sendOk s =
      { s with xsk := { s.xsk with rx := (s.xsk.rx.consNbAvail RX_BATCH_SIZE).2 } }) ∨
    (0 < (s.xsk.rx.consNbAvail RX_BATCH_SIZE).1 ∧ userStep sendOk s =
      { s with
        xsk := { s.xsk with rx := { (s.xsk.rx.consNbAvail RX_BATCH_SIZE).2 with
          cachedCons := s.xsk.rx.cachedCons + (s.xsk.rx.consNbAvail RX_BATCH_SIZE).1 } }
        pc := .peeked (s.xsk.rx.consNbAvail RX_BATCH_SIZE).1 s.xsk.rx.cachedCons }) := by
  by_cases empty : (s.xsk.rx.consNbAvail RX_BATCH_SIZE).1 = 0
  · left
    refine ⟨empty, ?_⟩
    unfold userStep
    rw [at_idle]
    simp [Ring.consPeek, empty]
  · right
    have positive : 0 < (s.xsk.rx.consNbAvail RX_BATCH_SIZE).1 :=
      UInt32.pos_iff_ne_zero.mpr empty
    refine ⟨positive, ?_⟩
    unfold userStep
    rw [at_idle]
    simp only [Ring.consPeek_eq _ _ _ positive, empty, if_false]

theorem peeked_step (sendOk : Bool) {s : System} {rcvd idxRx : UInt32}
    (at_peeked : s.pc = .peeked rcvd idxRx) :
    userStep sendOk s =
      { s with
        xsk := { s.xsk with fq := (s.xsk.fq.prodNbFree s.xsk.umemFrameFree).2 }
        pc := if 0 < (s.xsk.fq.prodNbFree s.xsk.umemFrameFree).1 then
            .stocking rcvd idxRx (s.xsk.fq.prodNbFree s.xsk.umemFrameFree).1
          else .receiving rcvd idxRx 0 } := by
  have request : (xskUmemFreeFrames s.xsk).toUInt32 = s.xsk.umemFrameFree := by
    simp [xskUmemFreeFrames]
  unfold userStep
  rw [at_peeked]
  simp only [request]

theorem stocking_step (sendOk : Bool) {s : System} {rcvd idxRx stockFrames : UInt32}
    (at_stocking : s.pc = .stocking rcvd idxRx stockFrames)
    (enough : stockFrames ≤ s.xsk.fq.room) :
    userStep sendOk s =
      { s with
        xsk := { s.xsk with
          fq := { s.xsk.fq with cachedProd := s.xsk.fq.cachedProd + stockFrames } }
        pc := .retrying rcvd idxRx stockFrames s.xsk.fq.cachedProd stockFrames } := by
  unfold userStep
  rw [at_stocking]
  simp only [Ring.prodReserve_of_room _ _ _ enough]

theorem retrying_step (sendOk : Bool) {s : System} {rcvd idxRx stockFrames idxFq : UInt32}
    (at_retrying : s.pc = .retrying rcvd idxRx stockFrames idxFq stockFrames) :
    userStep sendOk s = { s with pc := .filling rcvd idxRx stockFrames idxFq 0 } := by
  unfold userStep
  rw [at_retrying]
  simp

theorem filling_step (sendOk : Bool) {s : System} {rcvd idxRx stockFrames idxFq : UInt32}
    {i : Nat} (at_filling : s.pc = .filling rcvd idxRx stockFrames idxFq i)
    (more : i < stockFrames.toNat) :
    userStep sendOk s =
      { s with
        xsk := fillOne idxFq s.xsk
        pc := .filling rcvd idxRx stockFrames (idxFq + 1) (i + 1) } := by
  unfold userStep
  rw [at_filling]
  simp only [more, if_true]

theorem submit_step (sendOk : Bool) {s : System} {rcvd idxRx stockFrames idxFq : UInt32}
    {i : Nat} (at_filling : s.pc = .filling rcvd idxRx stockFrames idxFq i)
    (filled : ¬ i < stockFrames.toNat) :
    userStep sendOk s =
      { s with
        xsk := { s.xsk with fq := s.xsk.fq.prodSubmit stockFrames }
        pc := .receiving rcvd idxRx 0 } := by
  unfold userStep
  rw [at_filling]
  simp only [filled, if_false]

theorem release_step (sendOk : Bool) {s : System} {rcvd idxRx : UInt32} {i : Nat}
    (at_receiving : s.pc = .receiving rcvd idxRx i) (processed : ¬ i < rcvd.toNat) :
    userStep sendOk s =
      { s with
        xsk := countRxPackets rcvd { s.xsk with rx := s.xsk.rx.consRelease rcvd }
        pc := .completing } := by
  unfold userStep
  rw [at_receiving]
  simp only [processed, if_false]

/-- Nothing is ever queued for transmission, so there is nothing to complete. -/
theorem completing_step (sendOk : Bool) {s : System} (at_completing : s.pc = .completing)
    (noTx : s.xsk.outstandingTx = 0) : userStep sendOk s = { s with pc := .idle } := by
  unfold userStep
  rw [at_completing]
  simp only [completeTx, noTx, if_true]

/-- A received packet is always freed: process_packet never queues it. -/
theorem receiveOne_eq (sendOk : Bool) (d : XdpDesc) (s : System) :
    ∃ y : XskSocketInfo, ∃ sent, receiveOne sendOk d s =
        (xskFreeUmemFrame y d.addr).map (fun x =>
          { s with xsk := countRxBytes d.len x, sent := sent }) ∧
      y.fq = s.xsk.fq ∧ y.rx = s.xsk.rx ∧ y.outstandingTx = s.xsk.outstandingTx ∧
      y.umemFrameAddr = s.xsk.umemFrameAddr ∧ y.umemFrameFree = s.xsk.umemFrameFree := by
  refine ⟨(processAt sendOk d s).2.xsk, (processAt sendOk d s).2.sent, ?_, rfl, rfl, rfl, rfl,
    rfl⟩
  have never : (processAt sendOk d s).1 = false := processPacket_false _ _ _
  unfold receiveOne
  simp only [never, Bool.not_false, if_true]
  rfl

theorem receiving_step (sendOk : Bool) {s : System} {rcvd idxRx : UInt32} {i : Nat}
    (at_receiving : s.pc = .receiving rcvd idxRx i) (more : i < rcvd.toNat)
    (room : s.xsk.umemFrameFree.toNat < NUM_FRAMES) (tail : TailInvalid s.xsk) :
    ∃ x sent, userStep sendOk s =
        { s with xsk := x, sent := sent, pc := .receiving rcvd (idxRx + 1) (i + 1) } ∧
      freeStack x = freeStack s.xsk ++ [(s.xsk.rx.read idxRx).addr] ∧ TailInvalid x ∧
      x.fq = s.xsk.fq ∧ x.rx = s.xsk.rx ∧ x.outstandingTx = s.xsk.outstandingTx := by
  obtain ⟨y, sent, received, fq, rx, tx, stack, free⟩ :=
    receiveOne_eq sendOk (s.xsk.rx.read idxRx) s
  obtain ⟨x, freed, pushed, fq', rx', -, -, tx', -⟩ :=
    free_pushes y (s.xsk.rx.read idxRx).addr (by rwa [free])
  have tail' : TailInvalid y := by
    intro j above inside
    rw [stack]
    exact tail j (by rwa [free] at above) inside
  have kept := free_tail tail' freed
  refine ⟨countRxBytes (s.xsk.rx.read idxRx).len x, sent, ?_, ?_,
    fun j above inside => kept j above inside, fq'.trans fq, rx'.trans rx, tx'.trans tx⟩
  · unfold userStep
    rw [at_receiving]
    simp only [more, if_true, received, freed, Option.map_some]
  · change freeStack x = _
    rw [pushed]
    unfold freeStack
    rw [stack, free]

end XSKReceive
