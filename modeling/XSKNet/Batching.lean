import XSKNet.Turns
import XSKNet.Ledger
import Mathlib.Data.List.Forall2

/- The receive loop beside the one-by-one reading of the packets it handles. The packets
   are those the kernel published, in that order; the outcomes are those of sendto, one for
   each packet handled. -/
namespace XSKBatching
open XSKPacket XSKKernel XSKBounds SharedRing XSKSocket XSKReceive XSKConservation XSKTurns
  XSKLedger Runs

structure Observed where
  sys : System
  arrived : List Packet
  outcomes : List Bool

/-- The descriptor stands for the packet: its length, and its bytes inside one chunk. -/
structure Holds (buffer : Nat → UInt8) (d : XdpDesc) (p : Packet) : Prop where
  length : d.len = p.len
  long : 42 ≤ p.bytes.length
  inChunk : d.addr.toNat % FRAME_SIZE + p.bytes.length ≤ FRAME_SIZE
  data : ∀ i, i < p.bytes.length → buffer (d.addr.toNat + i) = byteAt p i

/-- Steps of the receive loop and the kernel, with what they add to the record. The kernel
    publishes packets of at least 42 bytes, each in a frame it took from the fill ring. -/
inductive Observes : Observed → Observed → Prop where
  | user (sendOk : Bool) (o : Observed) : Observes o
      ⟨userStep sendOk o.sys, o.arrived,
        if handling o.sys.pc then o.outcomes ++ [sendOk] else o.outcomes⟩
  | take {o : Observed} {v : UInt64} {fq : Ring NUM_DESCS UInt64}
      (taken : o.sys.xsk.fq.peerTake = some (v, fq)) :
      Observes o ⟨kernelTake v fq o.sys, o.arrived, o.outcomes⟩
  | publish {o : Observed} {d : XdpDesc} {rx : Ring NUM_DESCS XdpDesc}
      {buffer : Nat → UInt8} {p : Packet} (held : frameOf d.addr ∈ o.sys.held)
      (put : o.sys.xsk.rx.peerPut d = some rx) (holds : Holds buffer d p)
      (elsewhere : ∀ a, a / FRAME_SIZE ≠ frameOf d.addr → buffer a = o.sys.xsk.buffer a) :
      Observes o ⟨kernelPublish d rx buffer o.sys, o.arrived ++ [p], o.outcomes⟩

def Opened (o : Observed) : Prop :=
  Configured o.sys ∧ o.sys.sent = [] ∧ o.arrived = [] ∧ o.outcomes = []

def opening : Account := ⟨[], ⟨0, 0, 0, 0, 0⟩⟩

/-- What was handled so far: the packets in arrival order, each with its outcome. -/
def handled (o : Observed) : List Receipt := o.arrived.zip o.outcomes

def waiting (s : System) : List XdpDesc := s.xsk.rx.entries.drop (Pc.freed s.pc)

/-- The counters with the handled part of the batch, which rx_packets gets at its end. -/
def settled (s : System) : Account :=
  ⟨s.sent, { s.xsk.stats with
    rxPackets := s.xsk.stats.rxPackets + UInt64.ofNat (Pc.freed s.pc) }⟩

/-- pending are the packets behind the waiting descriptors, done those before them. -/
structure Ledgered (o : Observed) (done pending : List Packet) : Prop where
  arrived : o.arrived = done ++ pending
  count : done.length = o.outcomes.length
  contents : List.Forall₂ (Holds o.sys.xsk.buffer) (waiting o.sys) pending
  account : settled o.sys = oneByOne (done.zip o.outcomes) opening

theorem observes_step {o o' : Observed} (step : Observes o o') : Step o.sys o'.sys := by
  cases step with
  | user sendOk => exact Step.user sendOk o.sys
  | take taken => exact Step.take taken
  | publish held put holds elsewhere => exact Step.publish held put elsewhere

/- Data in one chunk is safe from writes to another. -/

theorem holds_elsewhere {buffer buffer' : Nat → UInt8} {d : XdpDesc} {p : Packet} {f : Nat}
    (holds : Holds buffer d p) (other : frameOf d.addr ≠ f)
    (elsewhere : ∀ a, a / FRAME_SIZE ≠ f → buffer' a = buffer a) : Holds buffer' d p := by
  obtain ⟨length, long, inChunk, data⟩ := holds
  refine ⟨length, long, inChunk, ?_⟩
  intro i inside
  have same : (d.addr.toNat + i) / FRAME_SIZE = frameOf d.addr := by
    unfold frameOf FRAME_SIZE
    unfold FRAME_SIZE at inChunk
    omega
  rw [elsewhere _ (by rwa [same])]
  exact data i inside

theorem contents_elsewhere {buffer buffer' : Nat → UInt8} {ds : List XdpDesc}
    {ps : List Packet} {f : Nat} (contents : List.Forall₂ (Holds buffer) ds ps)
    (other : f ∉ ds.map fun d => frameOf d.addr)
    (elsewhere : ∀ a, a / FRAME_SIZE ≠ f → buffer' a = buffer a) :
    List.Forall₂ (Holds buffer') ds ps := by
  induction contents with
  | nil => exact List.Forall₂.nil
  | cons head tail ih =>
    simp only [List.map_cons, List.mem_cons, not_or] at other
    obtain ⟨first, rest⟩ := other
    exact List.Forall₂.cons (holds_elsewhere head (Ne.symm first) elsewhere) (ih rest)

theorem waiting_frames (s : System) :
    (waiting s).map (fun d => frameOf d.addr) = rxFrames s.xsk.rx (Pc.freed s.pc) := rfl

theorem located_nodup {s : System} (inv : Conserved s) :
    (located s.xsk s.held (Pc.filled s.pc) (Pc.freed s.pc)).Nodup :=
  inv.frames.nodup_iff.mpr List.nodup_range

theorem waiting_nodup {s : System} (inv : Conserved s) :
    ((waiting s).map fun d => frameOf d.addr).Nodup := by
  rw [waiting_frames]
  exact (List.nodup_append.mp (located_nodup inv)).2.1

theorem held_not_waiting {s : System} (inv : Conserved s) {f : Nat} (member : f ∈ s.held) :
    f ∉ (waiting s).map fun d => frameOf d.addr := by
  intro other
  rw [waiting_frames] at other
  have apart := (List.nodup_append.mp (located_nodup inv)).2.2
  exact apart f (List.mem_append_right _ member) f other rfl

/- Steps that handle no packet. -/

structure Quiet (s t : System) : Prop where
  buffer : t.xsk.buffer = s.xsk.buffer
  waiting : waiting t = waiting s
  settled : settled t = settled s

theorem quiet_of_same {s t : System} (buffer : t.xsk.buffer = s.xsk.buffer)
    (rx : t.xsk.rx = s.xsk.rx) (stats : t.xsk.stats = s.xsk.stats) (sent : t.sent = s.sent)
    (freed : Pc.freed t.pc = Pc.freed s.pc) : Quiet s t := by
  refine ⟨buffer, ?_, ?_⟩
  · unfold waiting
    rw [rx, freed]
  · unfold settled
    rw [sent, stats, freed]

theorem idle_quiet (sendOk : Bool) {s : System} (at_idle : s.pc = .idle) :
    Quiet s (userStep sendOk s) := by
  have entries := Ring.consNbAvail_entries RX_BATCH_SIZE s.xsk.rx
  rcases idle_step sendOk at_idle with ⟨-, step⟩ | ⟨-, step⟩
  · rw [step]
    refine ⟨rfl, ?_, rfl⟩
    exact congrArg (List.drop (Pc.freed s.pc)) entries
  · rw [step]
    refine ⟨rfl, ?_, ?_⟩
    · unfold waiting
      rw [at_idle]
      exact congrArg (List.drop 0) entries
    · unfold settled
      rw [at_idle]
      rfl

theorem filling_quiet (sendOk : Bool) {s : System} {rcvd idxRx stock idxFq : UInt32} {i : Nat}
    (at_filling : s.pc = .filling rcvd idxRx stock idxFq i) :
    Quiet s (userStep sendOk s) := by
  have unfreed : Pc.freed s.pc = 0 := by rw [at_filling]; rfl
  by_cases more : i < stock.toNat
  · rw [filling_step sendOk at_filling more]
    obtain ⟨-, -, -, buffer, -, stats⟩ := alloc_frame s.xsk
    exact quiet_of_same buffer (fillOne_frame idxFq s.xsk).2.1 stats rfl unfreed.symm
  · rw [submit_step sendOk at_filling more]
    exact quiet_of_same rfl rfl rfl rfl unfreed.symm

theorem release_quiet (sendOk : Bool) {s : System} {rcvd idxRx : UInt32} {i : Nat}
    (inv : Conserved s) (at_receiving : s.pc = .receiving rcvd idxRx i)
    (processed : ¬ i < rcvd.toNat) : Quiet s (userStep sendOk s) := by
  have atPc := inv.atPc
  rw [at_receiving] at atPc
  obtain ⟨-, bound, peeked, -⟩ := atPc
  have amount : rcvd = UInt32.ofNat s.xsk.rx.peeked := ofNat_of_toNat peeked
  have all : i = s.xsk.rx.peeked := by omega
  rw [release_step sendOk at_receiving processed]
  refine ⟨rfl, ?_, ?_⟩
  · change (s.xsk.rx.consRelease rcvd).entries.drop 0 = _
    unfold waiting
    rw [at_receiving, List.drop_zero, amount, Ring.release_entries _ inv.consuming, ← all]
    rfl
  · have widened : rcvd.toUInt64 = UInt64.ofNat i := by
      rw [← UInt64.ofNat_uInt32ToNat, all, peeked]
    unfold settled
    rw [at_receiving]
    change Account.mk s.sent { s.xsk.stats with
      rxPackets := s.xsk.stats.rxPackets + rcvd.toUInt64 + UInt64.ofNat 0 } = _
    rw [widened, ofNat_add_assoc]
    rfl

theorem user_quiet (sendOk : Bool) {s : System} (inv : Conserved s)
    (none_handled : handling s.pc = false) : Quiet s (userStep sendOk s) := by
  have atPc := inv.atPc
  cases at_pc : s.pc with
  | idle => exact idle_quiet sendOk at_pc
  | peeked rcvd idxRx =>
    have unfreed : Pc.freed s.pc = 0 := by rw [at_pc]; rfl
    rw [peeked_step sendOk at_pc]
    split
    · exact quiet_of_same rfl rfl rfl rfl unfreed.symm
    · exact quiet_of_same rfl rfl rfl rfl unfreed.symm
  | stocking rcvd idxRx stock =>
    have unfreed : Pc.freed s.pc = 0 := by rw [at_pc]; rfl
    rw [at_pc] at atPc
    rw [stocking_step sendOk at_pc (UInt32.le_of_eq atPc.2.1)]
    exact quiet_of_same rfl rfl rfl rfl unfreed.symm
  | retrying rcvd idxRx stock idxFq ret =>
    have unfreed : Pc.freed s.pc = 0 := by rw [at_pc]; rfl
    rw [at_pc] at atPc
    obtain ⟨-, rfl, -⟩ := atPc
    rw [retrying_step sendOk at_pc]
    exact quiet_of_same rfl rfl rfl rfl unfreed.symm
  | filling rcvd idxRx stock idxFq i => exact filling_quiet sendOk at_pc
  | receiving rcvd idxRx i =>
    rw [at_pc] at none_handled
    exact release_quiet sendOk inv at_pc (of_decide_eq_false none_handled)
  | completing =>
    have unfreed : Pc.freed s.pc = 0 := by rw [at_pc]; rfl
    rw [completing_step sendOk at_pc inv.noTx]
    exact quiet_of_same rfl rfl rfl rfl unfreed.symm
  | aborted =>
    rw [at_pc] at atPc
    exact False.elim atPc

theorem take_quiet (s : System) (v : UInt64) (fq : Ring NUM_DESCS UInt64) :
    Quiet s (kernelTake v fq s) := ⟨rfl, rfl, rfl⟩

/- The step that handles a packet. -/

theorem receiving_effect (sendOk : Bool) {s : System} {rcvd idxRx : UInt32} {i : Nat}
    (inv : Conserved s) (at_receiving : s.pc = .receiving rcvd idxRx i)
    (more : i < rcvd.toNat) :
    ∃ x, userStep sendOk s =
        { s with
          xsk := countRxBytes (s.xsk.rx.read idxRx).len x
          sent := (processAt sendOk (s.xsk.rx.read idxRx) s).2.sent
          pc := .receiving rcvd (idxRx + 1) (i + 1) } ∧
      x.buffer = (processAt sendOk (s.xsk.rx.read idxRx) s).2.xsk.buffer ∧
      x.stats = (processAt sendOk (s.xsk.rx.read idxRx) s).2.xsk.stats ∧
      x.rx = s.xsk.rx := by
  have never : (processAt sendOk (s.xsk.rx.read idxRx) s).1 = false := processPacket_false _ _ _
  have room : s.xsk.umemFrameFree.toNat < NUM_FRAMES := receiving_room inv at_receiving more
  obtain ⟨x, freed, -, -, rx, -, buffer, -, stats⟩ :=
    free_pushes (processAt sendOk (s.xsk.rx.read idxRx) s).2.xsk (s.xsk.rx.read idxRx).addr room
  refine ⟨x, ?_, buffer, stats, rx⟩
  unfold userStep
  rw [at_receiving]
  simp only [more, if_true, receiveOne, never, Bool.not_false, freed, Option.map_some]
  rfl

theorem receiving_waiting {s : System} {rcvd idxRx : UInt32} {i : Nat} (inv : Conserved s)
    (at_receiving : s.pc = .receiving rcvd idxRx i) (more : i < rcvd.toNat) :
    waiting s = s.xsk.rx.read idxRx :: s.xsk.rx.entries.drop (i + 1) := by
  have visible := inv.consuming.1
  have atPc := inv.atPc
  rw [at_receiving] at atPc
  obtain ⟨-, -, peeked, position⟩ := atPc
  have inside : i < s.xsk.rx.used := by omega
  have found := Ring.read_consumer_add s.xsk.rx inside
  have length : i < s.xsk.rx.entries.length := by simpa using inside
  rw [List.getElem?_eq_getElem length, ← position] at found
  unfold waiting
  rw [at_receiving]
  change s.xsk.rx.entries.drop i = _
  rw [List.drop_eq_getElem_cons length, Option.some.inj found]

theorem processAt_elsewhere (sendOk : Bool) {d : XdpDesc} {s : System} {p : Packet}
    (holds : Holds s.xsk.buffer d p) {a : Nat} (other : a / FRAME_SIZE ≠ frameOf d.addr) :
    (processAt sendOk d s).2.xsk.buffer a = s.xsk.buffer a := by
  have inChunk := holds.inChunk
  have long := holds.long
  change (if d.addr.toNat ≤ a then _ else _) = _
  by_cases above : d.addr.toNat ≤ a
  · have behind : 38 ≤ a - d.addr.toNat := by
      unfold frameOf at other
      unfold FRAME_SIZE at other inChunk
      omega
    rw [if_pos above]
    have kept := processPacket_behind sendOk d.len
      ⟨fun off => s.xsk.buffer (d.addr.toNat + off), [], s.xsk.stats, s.sent⟩ behind
    refine kept.trans ?_
    change s.xsk.buffer (d.addr.toNat + (a - d.addr.toNat)) = _
    rw [Nat.add_sub_cancel' above]
  · rw [if_neg above]

theorem processAt_alone (sendOk : Bool) {d : XdpDesc} {s : System} {p : Packet}
    (holds : Holds s.xsk.buffer d p) :
    Account.mk (processAt sendOk d s).2.sent
        { (processAt sendOk d s).2.xsk.stats with
          rxBytes := (processAt sendOk d s).2.xsk.stats.rxBytes + d.len.toUInt64
          rxPackets := (processAt sendOk d s).2.xsk.stats.rxPackets + 1 } =
      handleOne ⟨s.sent, s.xsk.stats⟩ (p, sendOk) := by
  obtain ⟨length, long, -, data⟩ := holds
  have size : d.len.toNat = p.bytes.length := by rw [length, p.len_toNat]
  have enough : 42 ≤ d.len.toNat := by omega
  rw [← size] at data
  obtain ⟨sent, stats⟩ := processPacket_agree enough data sendOk s.xsk.stats s.sent
  have sent' : (processAt sendOk d s).2.sent = _ := sent
  have stats' : (processAt sendOk d s).2.xsk.stats = _ := stats
  rw [sent', stats', length]
  rfl

theorem handleOne_prepaid (n : UInt64) (a : Account) (r : Receipt) :
    handleOne { a with stats := { a.stats with rxPackets := a.stats.rxPackets + n } } r =
      { handleOne a r with stats := { (handleOne a r).stats with
        rxPackets := (handleOne a r).stats.rxPackets + n } } := by
  have swap : a.stats.rxPackets + n + 1 = a.stats.rxPackets + 1 + n := by
    rw [UInt64.add_assoc, UInt64.add_comm n, UInt64.add_assoc]
  simp only [handleOne_eq, swap]

theorem oneByOne_concat (rs : List Receipt) (r : Receipt) (a : Account) :
    oneByOne (rs ++ [r]) a = handleOne (oneByOne rs a) r := by
  simp [oneByOne]

theorem handling_settled (sendOk : Bool) {s : System} {rcvd idxRx : UInt32} {i : Nat}
    {p : Packet} (inv : Conserved s) (at_receiving : s.pc = .receiving rcvd idxRx i)
    (more : i < rcvd.toNat) (holds : Holds s.xsk.buffer (s.xsk.rx.read idxRx) p) :
    settled (userStep sendOk s) = handleOne (settled s) (p, sendOk) := by
  obtain ⟨x, step, -, stats, -⟩ := receiving_effect sendOk inv at_receiving more
  have alone := processAt_alone sendOk holds
  have prepaid := handleOne_prepaid (UInt64.ofNat i) ⟨s.sent, s.xsk.stats⟩ (p, sendOk)
  have before : settled s = ⟨s.sent, { s.xsk.stats with
      rxPackets := s.xsk.stats.rxPackets + UInt64.ofNat i }⟩ := by
    unfold settled
    rw [at_receiving]
    rfl
  have next : UInt64.ofNat (i + 1) = 1 + UInt64.ofNat i := by
    rw [Nat.add_comm, UInt64.ofNat_add]
    rfl
  rw [before, prepaid, ← alone, step]
  change Account.mk _ { x.stats with
    rxBytes := x.stats.rxBytes + (s.xsk.rx.read idxRx).len.toUInt64
    rxPackets := x.stats.rxPackets + UInt64.ofNat (i + 1) } = _
  rw [stats, next, ← UInt64.add_assoc]

/- The record under one step. -/

theorem quiet_ledgered {o : Observed} {t : System} {done pending : List Packet}
    (led : Ledgered o done pending) (quiet : Quiet o.sys t) :
    Ledgered ⟨t, o.arrived, o.outcomes⟩ done pending := by
  obtain ⟨arrived, count, contents, account⟩ := led
  refine ⟨arrived, count, ?_, quiet.settled.trans account⟩
  rw [quiet.waiting, quiet.buffer]
  exact contents

theorem handling_ledgered (sendOk : Bool) {o : Observed} {rcvd idxRx : UInt32} {i : Nat}
    {done pending : List Packet} (inv : Conserved o.sys) (led : Ledgered o done pending)
    (at_receiving : o.sys.pc = .receiving rcvd idxRx i) (more : i < rcvd.toNat) :
    ∃ p rest, pending = p :: rest ∧
      Ledgered ⟨userStep sendOk o.sys, o.arrived, o.outcomes ++ [sendOk]⟩ (done ++ [p]) rest := by
  obtain ⟨arrived, count, contents, account⟩ := led
  have apart := waiting_nodup inv
  rw [receiving_waiting inv at_receiving more] at contents apart
  cases contents with
  | @cons _ p _ rest holds others =>
    obtain ⟨x, step, buffer, -, rx⟩ := receiving_effect sendOk inv at_receiving more
    have next := handling_settled sendOk inv at_receiving more holds
    have safe := contents_elsewhere others (List.nodup_cons.mp apart).1
      (fun a other => processAt_elsewhere sendOk holds other)
    refine ⟨p, rest, rfl, ?_, ?_, ?_, ?_⟩
    · change o.arrived = _
      rw [arrived, List.append_assoc]
      rfl
    · simp [count]
    · rw [step]
      change List.Forall₂ (Holds x.buffer) (x.rx.entries.drop (i + 1)) rest
      rw [buffer, rx]
      exact safe
    · change settled (userStep sendOk o.sys) = _
      rw [next, account, List.zip_append count, List.zip_cons_cons, List.zip_nil_left,
        oneByOne_concat]

theorem publish_ledgered {o : Observed} {d : XdpDesc} {rx : Ring NUM_DESCS XdpDesc}
    {buffer : Nat → UInt8} {p : Packet} {done pending : List Packet} (inv : Conserved o.sys)
    (led : Ledgered o done pending) (held : frameOf d.addr ∈ o.sys.held)
    (put : o.sys.xsk.rx.peerPut d = some rx) (holds : Holds buffer d p)
    (elsewhere : ∀ a, a / FRAME_SIZE ≠ frameOf d.addr → buffer a = o.sys.xsk.buffer a) :
    Ledgered ⟨kernelPublish d rx buffer o.sys, o.arrived ++ [p], o.outcomes⟩ done
      (pending ++ [p]) := by
  obtain ⟨arrived, count, contents, account⟩ := led
  obtain ⟨entries, -⟩ := Ring.peerPut_spec inv.consuming put
  have bound := freed_le_used inv
  have kept := contents_elsewhere contents (held_not_waiting inv held) elsewhere
  have grown : waiting (kernelPublish d rx buffer o.sys) = waiting o.sys ++ [d] := by
    change rx.entries.drop (Pc.freed o.sys.pc) = _
    rw [entries, List.drop_append_of_le_length (by simpa using bound)]
    rfl
  refine ⟨?_, count, ?_, account⟩
  · change o.arrived ++ [p] = _
    rw [arrived, List.append_assoc]
  · rw [grown]
    exact List.rel_append kept (List.Forall₂.cons holds List.Forall₂.nil)

/- Runs. -/

theorem fillMany_stats (k : Nat) (idx : UInt32) (x : XskSocketInfo) :
    (fillMany k idx x).stats = x.stats := by
  induction k generalizing idx x with
  | zero => rfl
  | succ k ih =>
    obtain ⟨-, -, -, -, -, stats⟩ := alloc_frame x
    rw [fillMany, ih]
    exact stats

theorem with_fq_stats {x : XskSocketInfo} (y : XskSocketInfo) {fq : Ring NUM_DESCS UInt64}
    (state : x = { y with fq := fq }) : x.stats = y.stats := by
  rw [state]

theorem configured_stats {calls : SetupCalls} {mem : UmemArea} {x : XskSocketInfo}
    (configured : xskConfigureSocket calls mem = some x) : x.stats = ⟨0, 0, 0, 0, 0⟩ := by
  have fresh : (reservedSocket mem).stats = ⟨0, 0, 0, 0, 0⟩ := rfl
  have state :=
    with_fq_stats (fillMany NUM_DESCS 0 (reservedSocket mem)) (configured_eq configured)
  rw [state, fillMany_stats, fresh]

theorem configured_waiting {s : System} (configured : Configured s) : waiting s = [] := by
  obtain ⟨y, state, -, -, -, -, unused, -⟩ := configured_setup configured
  have empty : s.xsk.rx.used = 0 := by
    rw [state]
    exact unused
  simp [waiting, Ring.entries, empty, window]

theorem opened_ledgered {o : Observed} (opened : Opened o) : Ledgered o [] [] := by
  obtain ⟨configured, no_sent, no_arrived, no_outcomes⟩ := opened
  have none_waiting := configured_waiting configured
  obtain ⟨⟨calls, mem, setup⟩, at_idle, -⟩ := configured
  refine ⟨no_arrived, by rw [no_outcomes]; rfl, ?_, ?_⟩
  · rw [none_waiting]
    exact List.Forall₂.nil
  · unfold settled
    rw [no_sent, configured_stats setup, at_idle]
    rfl

/-- Handling removes the oldest packet from the pending ones, a publication adds one behind
    them, and every other step leaves the record as it is. -/
theorem step_ledgered {o o' : Observed} {done pending : List Packet} (inv : Conserved o.sys)
    (led : Ledgered o done pending) (step : Observes o o') :
    ∃ done' pending', Ledgered o' done' pending' := by
  cases step with
  | user sendOk =>
    cases decision : handling o.sys.pc with
    | false => exact ⟨done, pending, quiet_ledgered led (user_quiet sendOk inv decision)⟩
    | true =>
      cases at_pc : o.sys.pc with
      | receiving rcvd idxRx i =>
        rw [at_pc] at decision
        obtain ⟨p, rest, -, led'⟩ :=
          handling_ledgered sendOk inv led at_pc (of_decide_eq_true decision)
        exact ⟨done ++ [p], rest, led'⟩
      | _ =>
        rw [at_pc] at decision
        cases decision
  | take taken => exact ⟨done, pending, quiet_ledgered led (take_quiet _ _ _)⟩
  | publish held put holds elsewhere =>
    exact ⟨done, _, publish_ledgered inv led held put holds elsewhere⟩

theorem reached_ledgered {o : Observed} (run : Reached Opened Observes o) :
    Conserved o.sys ∧ ∃ done pending, Ledgered o done pending := by
  induction run with
  | start opened =>
    exact ⟨configured_conserved opened.1, [], [], opened_ledgered opened⟩
  | step before next ih =>
    obtain ⟨inv, done, pending, led⟩ := ih
    exact ⟨step_conserved _ _ inv (observes_step next), step_ledgered inv led next⟩

theorem ledgered_handled {o : Observed} {done pending : List Packet}
    (led : Ledgered o done pending) : handled o = done.zip o.outcomes := by
  have paired : (done ++ pending).zip (o.outcomes ++ []) =
      done.zip o.outcomes ++ pending.zip [] := List.zip_append led.count
  rw [List.append_nil, List.zip_nil_right, List.append_nil] at paired
  rw [handled, led.arrived, paired]

theorem observed_account {o : Observed} (run : Reached Opened Observes o)
    (between : o.sys.pc = .idle) :
    Account.mk o.sys.sent o.sys.xsk.stats = oneByOne (handled o) opening := by
  obtain ⟨-, done, pending, led⟩ := reached_ledgered run
  have account := led.account
  have plain : settled o.sys = ⟨o.sys.sent, o.sys.xsk.stats⟩ := by
    unfold settled
    rw [between]
    change Account.mk o.sys.sent
      { o.sys.xsk.stats with rxPackets := o.sys.xsk.stats.rxPackets + 0 } = _
    rw [UInt64.add_zero]
  rw [plain] at account
  rw [account, ledgered_handled led]

theorem observed_waiting {o : Observed} (run : Reached Opened Observes o)
    (between : o.sys.pc = .idle) :
    o.outcomes.length + o.sys.xsk.rx.used = o.arrived.length := by
  obtain ⟨-, done, pending, led⟩ := reached_ledgered run
  have behind := led.contents.length_eq
  unfold waiting at behind
  rw [between, List.length_drop, Ring.entries_length] at behind
  change o.sys.xsk.rx.used - 0 = _ at behind
  rw [led.arrived, List.length_append, led.count]
  omega

/-- However the packets were batched and placed: the frames sent and the statistics depend
    on the packets and the outcomes only. -/
theorem batches_irrelevant {o o' : Observed} (run : Reached Opened Observes o)
    (run' : Reached Opened Observes o') (between : o.sys.pc = .idle)
    (between' : o'.sys.pc = .idle) (same : handled o = handled o') :
    o.sys.sent = o'.sys.sent ∧ o.sys.xsk.stats = o'.sys.xsk.stats := by
  have account := observed_account run between
  rw [same, ← observed_account run' between'] at account
  exact Account.mk.inj account

def bootRecord : Observed := ⟨boot, [], []⟩

theorem bootRecord_opened : Opened bootRecord := ⟨boot_configured, rfl, rfl, rfl⟩

end XSKBatching
