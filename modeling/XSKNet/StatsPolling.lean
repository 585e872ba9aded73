import XSKNet.Ledger

/- stats_poll beside the receive loop. The two threads share xsk->stats without a lock; each
   batch's updates, the reading of stats_print and the copy into previous_stats are taken as
   one step each, in any order. -/
namespace XSKStatsPolling
open XSKPacket XSKKernel XSKBounds XSKLedger

inductive Counter where
  | rxPackets
  | rxBytes
  | txPackets
  | txBytes
  deriving DecidableEq, Repr

def Counter.read (s : StatsRecord) : Counter → UInt64
  | .rxPackets => s.rxPackets
  | .rxBytes => s.rxBytes
  | .txPackets => s.txPackets
  | .txBytes => s.txBytes

/- The receive loop. -/

abbrev Handled := UInt32 × Bool

def countPacket (s : StatsRecord) (h : Handled) : StatsRecord :=
  let s := if h.2 then
      { s with txBytes := s.txBytes + h.1.toUInt64, txPackets := s.txPackets + 1 } else s
  { s with rxBytes := s.rxBytes + h.1.toUInt64 }

def receiveBatch (batch : List Handled) (s : StatsRecord) : StatsRecord :=
  let s := batch.foldl countPacket s
  { s with rxPackets := s.rxPackets + UInt64.ofNat batch.length }

/- The polling thread. -/

structure Interval where
  rxPackets : UInt64
  rxBytes : UInt64
  txPackets : UInt64
  txBytes : UInt64
  deriving DecidableEq, Repr

def statsPrint (statsRec statsPrev : StatsRecord) : Interval where
  rxPackets := statsRec.rxPackets - statsPrev.rxPackets
  rxBytes := statsRec.rxBytes - statsPrev.rxBytes
  txPackets := statsRec.txPackets - statsPrev.txPackets
  txBytes := statsRec.txBytes - statsPrev.txBytes

def Counter.delta (d : Interval) : Counter → UInt64
  | .rxPackets => d.rxPackets
  | .rxBytes => d.rxBytes
  | .txPackets => d.txPackets
  | .txBytes => d.txBytes

inductive PollPc where
  | sleeping
  | stamped
  | printed
  deriving DecidableEq, Repr

/-- The shared record and the polling thread, with the intervals printed so far and the
    packets handled since the last of them. -/
structure Watch where
  stats : StatsRecord
  previousStats : StatsRecord
  pc : PollPc
  intervals : List Interval
  late : List Handled

inductive Event where
  | batch (handled : List Handled)
  | poll (time : UInt64)
  deriving DecidableEq

def pollStep (time : UInt64) (w : Watch) : Watch :=
  match w.pc with
  | .sleeping => { w with stats := { w.stats with timestamp := time }, pc := .stamped }
  | .stamped => { w with
      intervals := w.intervals ++ [statsPrint w.stats w.previousStats]
      late := []
      pc := .printed }
  | .printed => { w with previousStats := w.stats, pc := .sleeping }

def Watch.step (w : Watch) : Event → Watch
  | .batch handled => { w with
      stats := receiveBatch handled w.stats
      late := w.late ++ handled }
  | .poll time => pollStep time w

def opened (time : UInt64) : Watch where
  stats := ⟨0, 0, 0, 0, 0⟩
  previousStats := ⟨time, 0, 0, 0, 0⟩
  pc := .sleeping
  intervals := []
  late := []

def total (c : Counter) : List Interval → UInt64
  | [] => 0
  | d :: rest => c.delta d + total c rest

def endsRound (w : Watch) : Event → Bool
  | .batch _ => false
  | .poll _ => decide (w.pc = .printed)

/-- At each copy of the run, what holds before it and of it. -/
def AtRoundEnds (holds : Watch → Event → Prop) : Watch → List Event → Prop
  | _, [] => True
  | w, e :: rest => (endsRound w e = true → holds w e) ∧ AtRoundEnds holds (w.step e) rest

/-- After the copy the intervals printed so far add up to the counter copied. -/
def Exact (c : Counter) (w : Watch) (e : Event) : Prop :=
  total c (w.step e).intervals = c.read (w.step e).previousStats

def totalLength : List Handled → Nat
  | [] => 0
  | h :: rest => h.1.toNat + totalLength rest

def Counter.gain (handled : List Handled) : Counter → UInt64
  | .rxPackets => UInt64.ofNat handled.length
  | .rxBytes => UInt64.ofNat (totalLength handled)
  | .txPackets => UInt64.ofNat (handled.filter Prod.snd).length
  | .txBytes => UInt64.ofNat (totalLength (handled.filter Prod.snd))

def NothingLate (c : Counter) (w : Watch) (_ : Event) : Prop := c.gain w.late = 0

/- What a batch adds. -/

theorem totalLength_append (hs ks : List Handled) :
    totalLength (hs ++ ks) = totalLength hs + totalLength ks := by
  induction hs with
  | nil => exact (Nat.zero_add _).symm
  | cons h rest ih =>
    simp only [List.cons_append, totalLength, ih]
    omega

theorem gain_append (c : Counter) (hs ks : List Handled) :
    c.gain (hs ++ ks) = c.gain hs + c.gain ks := by
  cases c with
  | rxPackets => simp [Counter.gain, UInt64.ofNat_add]
  | rxBytes => simp [Counter.gain, totalLength_append, UInt64.ofNat_add]
  | txPackets => simp [Counter.gain, UInt64.ofNat_add]
  | txBytes => simp [Counter.gain, totalLength_append, UInt64.ofNat_add]

theorem foldl_countPacket (batch : List Handled) (s : StatsRecord) :
    batch.foldl countPacket s = { s with
      rxBytes := s.rxBytes + Counter.gain batch .rxBytes
      txPackets := s.txPackets + Counter.gain batch .txPackets
      txBytes := s.txBytes + Counter.gain batch .txBytes } := by
  induction batch generalizing s with
  | nil => simp [Counter.gain, totalLength]
  | cons h rest ih =>
    have widened : h.1.toUInt64 = UInt64.ofNat h.1.toNat := (UInt64.ofNat_uInt32ToNat h.1).symm
    have one : s.txPackets + 1 = s.txPackets + UInt64.ofNat 1 := rfl
    rw [List.foldl_cons, ih]
    unfold countPacket
    cases sent : h.2 with
    | false =>
      simp only [Counter.gain, totalLength, widened, sent, Bool.false_eq_true, if_false,
        List.filter_cons_of_neg, not_false_eq_true, ofNat_add_assoc]
    | true =>
      simp only [Counter.gain, totalLength, widened, sent, if_true, List.filter_cons_of_pos, one,
        ofNat_add_assoc, List.length_cons, Nat.add_comm 1]

theorem read_receiveBatch (c : Counter) (batch : List Handled) (s : StatsRecord) :
    c.read (receiveBatch batch s) = c.read s + c.gain batch := by
  unfold receiveBatch
  rw [foldl_countPacket]
  cases c with
  | rxPackets => rfl
  | rxBytes => rfl
  | txPackets => rfl
  | txBytes => rfl

theorem oneByOne_totalBytes (rs : List Receipt) :
    totalLength (rs.map fun r => (r.1.len, answered r)) = totalBytes rs := by
  induction rs with
  | nil => rfl
  | cons r rest ih =>
    simp only [List.map_cons, totalLength, totalBytes, ih, r.1.len_toNat]

theorem receiveBatch_oneByOne (rs : List Receipt) (a : Account) :
    (oneByOne rs a).stats = receiveBatch (rs.map fun r => (r.1.len, answered r)) a.stats := by
  have sent : (rs.map fun r => (r.1.len, answered r)).filter Prod.snd =
      (rs.filter answered).map fun r => (r.1.len, answered r) := by
    rw [List.filter_map]
    rfl
  rw [oneByOne_eq]
  unfold receiveBatch
  rw [foldl_countPacket]
  simp only [Counter.gain, sent, oneByOne_totalBytes, List.length_map]

/- One step of either thread. -/

theorem total_concat (c : Counter) (ds : List Interval) (d : Interval) :
    total c (ds ++ [d]) = total c ds + c.delta d := by
  induction ds with
  | nil => simp [total]
  | cons first rest ih =>
    simp only [List.cons_append, total, ih, UInt64.add_assoc]

theorem delta_statsPrint (c : Counter) (statsRec statsPrev : StatsRecord) :
    c.delta (statsPrint statsRec statsPrev) = c.read statsRec - c.read statsPrev := by
  cases c with
  | rxPackets => rfl
  | rxBytes => rfl
  | txPackets => rfl
  | txBytes => rfl

/-- Between a reading and the copy the intervals lack only the late packets, else they add up
    to the snapshot. -/
def Balanced (c : Counter) (w : Watch) : Prop :=
  match w.pc with
  | .printed => total c w.intervals + c.gain w.late = c.read w.stats
  | _ => total c w.intervals = c.read w.previousStats

theorem batch_balanced {c : Counter} {w : Watch} (handled : List Handled)
    (balanced : Balanced c w) : Balanced c (w.step (.batch handled)) := by
  unfold Balanced at balanced ⊢
  cases at_pc : w.pc with
  | sleeping =>
    rw [at_pc] at balanced
    simp only [Watch.step, at_pc]
    exact balanced
  | stamped =>
    rw [at_pc] at balanced
    simp only [Watch.step, at_pc]
    exact balanced
  | printed =>
    rw [at_pc] at balanced
    simp only [Watch.step, at_pc, gain_append, read_receiveBatch]
    rw [← UInt64.add_assoc, balanced]

theorem stamp_balanced {c : Counter} {w : Watch} (time : UInt64) (at_pc : w.pc = .sleeping)
    (balanced : Balanced c w) : Balanced c (w.step (.poll time)) := by
  unfold Balanced at balanced ⊢
  rw [at_pc] at balanced
  simp only [Watch.step, pollStep, at_pc]
  exact balanced

theorem print_balanced {c : Counter} {w : Watch} (time : UInt64) (at_pc : w.pc = .stamped)
    (balanced : Balanced c w) : Balanced c (w.step (.poll time)) := by
  have none_late : c.gain [] = 0 := by cases c <;> rfl
  unfold Balanced at balanced ⊢
  rw [at_pc] at balanced
  simp only [Watch.step, pollStep, at_pc, total_concat, delta_statsPrint, none_late,
    UInt64.add_zero]
  rw [balanced, UInt64.add_comm, UInt64.sub_add_cancel]

/-- The copy takes the late packets into the snapshot, and no interval has them. -/
theorem copy_exact_iff {c : Counter} {w : Watch} (time : UInt64) (at_pc : w.pc = .printed)
    (balanced : Balanced c w) : Exact c w (.poll time) ↔ c.gain w.late = 0 := by
  unfold Balanced at balanced
  rw [at_pc] at balanced
  unfold Exact
  simp only [Watch.step, pollStep, at_pc]
  rw [← balanced]
  constructor
  · intro same
    have cancelled : total c w.intervals + 0 = total c w.intervals + c.gain w.late := by
      rw [UInt64.add_zero]
      exact same
    exact (UInt64.add_right_inj _).mp cancelled.symm
  · intro nothing
    rw [nothing, UInt64.add_zero]

theorem copy_balanced {c : Counter} {w : Watch} (time : UInt64) (at_pc : w.pc = .printed)
    (exact_now : Exact c w (.poll time)) : Balanced c (w.step (.poll time)) := by
  unfold Balanced
  unfold Exact at exact_now
  simp only [Watch.step, pollStep, at_pc] at exact_now ⊢
  exact exact_now

theorem opened_balanced (c : Counter) (time : UInt64) : Balanced c (opened time) := by
  cases c with
  | rxPackets => rfl
  | rxBytes => rfl
  | txPackets => rfl
  | txBytes => rfl

/- Runs. -/

theorem run_exact_iff {c : Counter} (events : List Event) {w : Watch} (balanced : Balanced c w) :
    AtRoundEnds (Exact c) w events ↔ AtRoundEnds (NothingLate c) w events := by
  induction events generalizing w with
  | nil => exact Iff.rfl
  | cons e rest ih =>
    cases e with
    | batch handled =>
      have later := ih (batch_balanced handled balanced)
      simp only [AtRoundEnds, endsRound, Bool.false_eq_true, false_implies, true_and]
      exact later
    | poll time =>
      cases at_pc : w.pc with
      | sleeping =>
        have later := ih (stamp_balanced time at_pc balanced)
        simp only [AtRoundEnds, endsRound, at_pc, reduceCtorEq, decide_false, Bool.false_eq_true,
          false_implies, true_and]
        exact later
      | stamped =>
        have later := ih (print_balanced time at_pc balanced)
        simp only [AtRoundEnds, endsRound, at_pc, reduceCtorEq, decide_false, Bool.false_eq_true,
          false_implies, true_and]
        exact later
      | printed =>
        have here := copy_exact_iff time at_pc balanced
        simp only [AtRoundEnds, endsRound, at_pc, decide_true, true_implies]
        constructor
        · intro ⟨exact_now, others⟩
          exact ⟨here.mp exact_now, (ih (copy_balanced time at_pc exact_now)).mp others⟩
        · intro ⟨nothing, others⟩
          have exact_now := here.mpr nothing
          exact ⟨exact_now, (ih (copy_balanced time at_pc exact_now)).mpr others⟩

/-- Whatever the interleaving: at the end of every round the intervals printed add up to the
    snapshot just when in every round the packets handled between the reading and the copy
    add nothing. -/
theorem intervals_lose_nothing_iff (c : Counter) (time : UInt64) (events : List Event) :
    AtRoundEnds (Exact c) (opened time) events ↔
      AtRoundEnds (NothingLate c) (opened time) events :=
  run_exact_iff events (opened_balanced c time)

/-- One batch of one packet, between the first reading and the copy, is in no interval. -/
theorem late_batch_lost :
    let events : List Event := [.poll 1, .poll 2, .batch [(98, true)], .poll 3]
    let w := events.foldl Watch.step (opened 0)
    total .rxPackets w.intervals = 0 ∧ w.previousStats.rxPackets = 1 ∧
      ¬ AtRoundEnds (Exact .rxPackets) (opened 0) events := by
  refine ⟨by decide, by decide, ?_⟩
  intro always
  have first := always.2.2.2.1 rfl
  exact absurd first (by unfold Exact; decide)

end XSKStatsPolling
