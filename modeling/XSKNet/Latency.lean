import XSKNet.Calls

/- How long a packet waits. A call of handle_receive_packets has a bounded number of steps,
   whatever the kernel does between them and whatever packets it publishes, and the packets in
   the rx ring are all handled after a number of calls that depends on nothing but how many
   they are. -/
namespace XSKLatency
open XSKPacket SharedRing XSKSocket XSKReceive XSKConservation XSKTurns XSKBatching XSKCalls
  XSKEcho Runs

structure Counted where
  sys : System
  arrived : Nat
  handled : Nat

inductive Counts : Counted → Counted → Prop where
  | user (sendOk : Bool) (c : Counted) : Counts c
      ⟨userStep sendOk c.sys, c.arrived,
        if handling c.sys.pc then c.handled + 1 else c.handled⟩
  | take {c : Counted} {v : UInt64} {fq : Ring NUM_DESCS UInt64}
      (taken : c.sys.xsk.fq.peerTake = some (v, fq)) :
      Counts c ⟨kernelTake v fq c.sys, c.arrived, c.handled⟩
  | publish {c : Counted} {d : XdpDesc} {rx : Ring NUM_DESCS XdpDesc} {buffer : Nat → UInt8}
      (held : frameOf d.addr ∈ c.sys.held) (put : c.sys.xsk.rx.peerPut d = some rx)
      (elsewhere : ∀ a, a / FRAME_SIZE ≠ frameOf d.addr → buffer a = c.sys.xsk.buffer a) :
      Counts c ⟨kernelPublish d rx buffer c.sys, c.arrived + 1, c.handled⟩

def Uncounted (c : Counted) : Prop := Configured c.sys ∧ c.arrived = 0 ∧ c.handled = 0

/-- A count with what the loop has spent since a mark: its own steps, those of the call it
    is in, and the calls that have returned, empty ones included. -/
structure Watch where
  count : Counted
  steps : Nat
  spent : Nat
  calls : Nat

def tick (sendOk : Bool) (w : Watch) : Watch :=
  let sys := userStep sendOk w.count.sys
  { count := ⟨sys, w.count.arrived,
      if handling w.count.sys.pc then w.count.handled + 1 else w.count.handled⟩
    steps := w.steps + 1
    spent := if sys.pc = .idle then 0 else w.spent + 1
    calls := if sys.pc = .idle then w.calls + 1 else w.calls }

inductive Ticks : Watch → Watch → Prop where
  | user (sendOk : Bool) (w : Watch) : Ticks w (tick sendOk w)
  | take {w : Watch} {v : UInt64} {fq : Ring NUM_DESCS UInt64}
      (taken : w.count.sys.xsk.fq.peerTake = some (v, fq)) :
      Ticks w { w with
        count := ⟨kernelTake v fq w.count.sys, w.count.arrived, w.count.handled⟩ }
  | publish {w : Watch} {d : XdpDesc} {rx : Ring NUM_DESCS XdpDesc} {buffer : Nat → UInt8}
      (held : frameOf d.addr ∈ w.count.sys.held)
      (put : w.count.sys.xsk.rx.peerPut d = some rx)
      (elsewhere : ∀ a, a / FRAME_SIZE ≠ frameOf d.addr →
        buffer a = w.count.sys.xsk.buffer a) :
      Ticks w { w with
        count := ⟨kernelPublish d rx buffer w.count.sys, w.count.arrived + 1,
          w.count.handled⟩ }

structure Marked (mark n : Nat) (w : Watch) : Prop where
  run : Reached Uncounted Counts w.count
  between : w.count.sys.pc = .idle
  arrived : w.count.arrived = mark
  inRing : w.count.sys.xsk.rx.used = n
  fresh : w.steps = 0 ∧ w.spent = 0 ∧ w.calls = 0

/-- Batches of up to 64, one of which may be cut short by the cached counter. -/
def rounds (n : Nat) : Nat := (n + 63) / 64 + 1

def inCall (pc : Pc) : Nat := if pc = .idle then 0 else 1

def turns (a c : Nat) : Nat := (min a c + 63) / 64 + (a - c + 63) / 64

def ahead (mark : Nat) (c : Counted) : Nat := mark - c.handled

def beyond (mark : Nat) (c : Counted) : Nat := ahead mark c - batchLeft c.sys.pc

theorem counts_step {c c' : Counted} (step : Counts c c') : Step c.sys c'.sys := by
  cases step with
  | user sendOk => exact Step.user sendOk c.sys
  | take taken => exact Step.take taken
  | publish held put elsewhere => exact Step.publish held put elsewhere

theorem ticks_counts {w w' : Watch} (step : Ticks w w') : Counts w.count w'.count := by
  cases step with
  | user sendOk => exact Counts.user sendOk w.count
  | take taken => exact Counts.take taken
  | publish held put elsewhere => exact Counts.publish held put elsewhere

/- Nothing is handled that has not arrived, and nothing is lost in between. -/

theorem counts_waiting {c c' : Counted} (inv : Conserved c.sys)
    (all : c.handled + (waiting c.sys).length = c.arrived) (step : Counts c c') :
    c'.handled + (waiting c'.sys).length = c'.arrived := by
  cases step with
  | user sendOk =>
    dsimp only
    cases decision : handling c.sys.pc with
    | false =>
      rw [(user_quiet sendOk inv decision).waiting]
      exact all
    | true =>
      cases at_pc : c.sys.pc with
      | receiving rcvd idxRx i =>
        rw [at_pc] at decision
        have more : i < rcvd.toNat := of_decide_eq_true decision
        obtain ⟨x, step, -, -, rx⟩ := receiving_effect sendOk inv at_pc more
        rw [receiving_waiting inv at_pc more, List.length_cons, ← rx] at all
        rw [step, if_pos rfl]
        change c.handled + 1 + (x.rx.entries.drop (i + 1)).length = _
        omega
      | _ =>
        rw [at_pc] at decision
        cases decision
  | take taken => exact all
  | @publish _ d rx buffer held put elsewhere =>
    obtain ⟨entries, -⟩ := Ring.peerPut_spec inv.consuming put
    have bound := freed_le_used inv
    change c.handled + (rx.entries.drop (Pc.freed c.sys.pc)).length = c.arrived + 1
    rw [entries, List.drop_append_of_le_length (by simpa using bound), List.length_append,
      List.length_singleton]
    change c.handled + (waiting c.sys).length = _ at all
    unfold waiting at all
    omega

theorem counted_run {c : Counted} (run : Reached Uncounted Counts c) :
    Conserved c.sys ∧ c.handled + (waiting c.sys).length = c.arrived := by
  refine reached_invariant
    (fun c => Conserved c.sys ∧ c.handled + (waiting c.sys).length = c.arrived) ?_ ?_ run
  · rintro c ⟨configured, none_arrived, none_handled⟩
    refine ⟨configured_conserved configured, ?_⟩
    rw [configured_waiting configured, none_arrived, none_handled]
    rfl
  · rintro c c' ⟨inv, all⟩ step
    exact ⟨step_conserved _ _ inv (counts_step step), counts_waiting inv all step⟩

theorem counted_ring {c : Counted} (run : Reached Uncounted Counts c)
    (between : c.sys.pc = .idle) : c.handled + c.sys.xsk.rx.used = c.arrived := by
  have all := (counted_run run).2
  rw [waiting, between, List.length_drop, Ring.entries_length] at all
  exact all

/- Counting turns. -/

theorem turns_start {n c : Nat} (cached : c ≤ n) : turns n c ≤ rounds n := by
  unfold turns rounds
  omega

theorem turns_cached {a c : Nat} (some_left : 0 < a) (some_cached : 0 < c) :
    turns (a - min 64 c) (c - min 64 c) + 1 ≤ turns a c := by
  unfold turns
  omega

theorem turns_refreshed {a u : Nat} (some_left : 0 < a) (shown : a ≤ u) :
    turns (a - min 64 u) (u - min 64 u) + 1 ≤ turns a 0 := by
  unfold turns
  omega

theorem turns_pos {a c : Nat} (some_left : 0 < a) : 0 < turns a c := by
  unfold turns
  omega

/- The bounds over runs. -/

/-- What is left of the call fits its bound, and the calls already made, the one in hand and
    those still needed fit theirs. -/
structure Paced (mark n : Nat) (w : Watch) : Prop where
  run : Reached Uncounted Counts w.count
  known : mark ≤ w.count.arrived
  paid : w.steps ≤ callSteps * w.calls + w.spent
  call : w.spent + left w.count.sys.pc ≤ callSteps
  between : w.count.sys.pc = .idle → w.spent = 0
  turn : ahead mark w.count = 0 ∨
    w.calls + inCall w.count.sys.pc +
      turns (beyond mark w.count) w.count.sys.xsk.rx.seen.toNat ≤ rounds n

theorem ahead_in_ring {mark : Nat} {c : Counted} (run : Reached Uncounted Counts c)
    (known : mark ≤ c.arrived) (between : c.sys.pc = .idle) :
    ahead mark c ≤ c.sys.xsk.rx.used := by
  have all := counted_ring run between
  unfold ahead
  omega

theorem inCall_inside {pc : Pc} (inside : pc ≠ .idle) : inCall pc = 1 := if_neg inside

theorem left_pos {pc : Pc} (inside : pc ≠ .idle) (going : pc ≠ .aborted) : 0 < left pc := by
  cases pc with
  | idle => exact absurd rfl inside
  | aborted => exact absurd rfl going
  | _ => exact Nat.succ_pos _

theorem marked_paced {mark n : Nat} {w : Watch} (marked : Marked mark n w) :
    Paced mark n w := by
  obtain ⟨run, between, arrived, inRing, steps, spent, calls⟩ := marked
  have visible := (counted_run run).1.consuming.1
  have all := counted_ring run between
  have waits : ahead mark w.count = n := by
    unfold ahead
    omega
  refine ⟨run, Nat.le_of_eq arrived.symm, by omega, ?_, fun _ => spent, Or.inr ?_⟩
  · rw [spent, between]
    exact Nat.zero_le _
  · have start : turns n w.count.sys.xsk.rx.seen.toNat ≤ rounds n := turns_start (by omega)
    unfold beyond
    rw [calls, between, waits]
    change 0 + 0 + turns (n - 0) _ ≤ _
    rwa [Nat.sub_zero, Nat.add_zero, Nat.zero_add]

theorem kernel_paced {mark n : Nat} {w : Watch} {c : Counted} (paced : Paced mark n w)
    (step : Counts w.count c) (arrived : w.count.arrived ≤ c.arrived)
    (handled : c.handled = w.count.handled) (pc : c.sys.pc = w.count.sys.pc)
    (seen : c.sys.xsk.rx.seen = w.count.sys.xsk.rx.seen) :
    Paced mark n { w with count := c } := by
  obtain ⟨run, known, paid, call, between, turn⟩ := paced
  refine ⟨Reached.step run step, Nat.le_trans known arrived, paid, ?_, ?_, ?_⟩
  · rw [pc]
    exact call
  · rw [pc]
    exact between
  · unfold beyond ahead at turn ⊢
    rw [handled, pc, seen]
    exact turn

theorem put_seen {rx rx' : Ring NUM_DESCS XdpDesc} {d : XdpDesc}
    (put : rx.peerPut d = some rx') : rx'.seen = rx.seen := by
  unfold Ring.peerPut at put
  split at put
  · cases put
  · rw [← Option.some.inj put]
    rfl

theorem begins_turns {s t : System} (begins : Begins s t) {a : Nat} (some_left : 0 < a)
    (waits : a ≤ s.xsk.rx.used) :
    turns (a - batchLeft t.pc) t.xsk.rx.seen.toNat + 1 ≤ turns a s.xsk.rx.seen.toNat := by
  obtain ⟨some_offered, batch, seen, -, -⟩ := begins
  rw [batch, seen]
  unfold offered at some_offered ⊢
  by_cases cached : s.xsk.rx.seen = 0
  · rw [if_pos cached, cached]
    exact turns_refreshed some_left waits
  · rw [if_neg cached] at some_offered ⊢
    exact turns_cached some_left some_offered

theorem poll_paced (sendOk : Bool) {mark n : Nat} {w : Watch} (paced : Paced mark n w)
    (at_idle : w.count.sys.pc = .idle) (stays : (userStep sendOk w.count.sys).pc = .idle)
    (none_offered : offered w.count.sys = 0) : Paced mark n (tick sendOk w) := by
  obtain ⟨run, known, paid, call, between, turn⟩ := paced
  have unspent := between at_idle
  have some_steps : 1 ≤ callSteps := by decide
  have drained : w.count.sys.xsk.rx.used = 0 := by
    unfold offered at none_offered
    split at none_offered
    · exact none_offered
    · rename_i cached
      exact absurd (UInt32.toNat_inj.mp none_offered) cached
  have quiet : handling w.count.sys.pc = false := by
    rw [at_idle]
    rfl
  refine ⟨Reached.step run (Counts.user sendOk w.count), known, ?_, ?_, ?_, Or.inl ?_⟩
  · simp only [tick, stays, if_true, Nat.mul_succ]
    omega
  · simp only [tick, stays, if_true]
    exact Nat.zero_le _
  · intro _
    simp only [tick, stays, if_true]
  · have waits := ahead_in_ring run known at_idle
    unfold ahead at waits ⊢
    simp only [tick, quiet, Bool.false_eq_true, if_false]
    omega

theorem begin_paced (sendOk : Bool) {mark n : Nat} {w : Watch} (paced : Paced mark n w)
    (at_idle : w.count.sys.pc = .idle) (begins : Begins w.count.sys (userStep sendOk w.count.sys)) :
    Paced mark n (tick sendOk w) := by
  obtain ⟨run, known, paid, call, between, turn⟩ := paced
  have unspent := between at_idle
  have inside := begins.inside
  have batch := begins.batch
  have quiet : handling w.count.sys.pc = false := by
    rw [at_idle]
    rfl
  have same : ahead mark (tick sendOk w).count = ahead mark w.count := by
    simp only [ahead, tick, quiet, Bool.false_eq_true, if_false]
  refine ⟨Reached.step run (Counts.user sendOk w.count), known, ?_, ?_, ?_, ?_⟩
  · simp only [tick, inside, if_false]
    omega
  · simp only [tick, inside, if_false, begins.left, batch, callSteps]
    change _ ≤ NUM_DESCS + 64 + 7
    omega
  · intro ended
    exact absurd ended inside
  · rcases turn with done | needed
    · exact Or.inl (same.trans done)
    · by_cases done : ahead mark w.count = 0
      · exact Or.inl (same.trans done)
      · right
        have one := begins_turns begins (Nat.pos_of_ne_zero done)
          (ahead_in_ring run known at_idle)
        unfold beyond at needed ⊢
        rw [at_idle] at needed
        change w.calls + 0 + turns (ahead mark w.count - 0) _ ≤ _ at needed
        rw [Nat.sub_zero] at needed
        rw [same]
        simp only [tick, inside, if_false, inCall_inside inside]
        omega

/-- Inside a call: a packet handled is one marked packet less, if any was left, and the end
    of the call trades the call in hand for one that has returned. -/
theorem call_paced (sendOk : Bool) {mark n : Nat} {w : Watch} (paced : Paced mark n w)
    (inside : w.count.sys.pc ≠ .idle) : Paced mark n (tick sendOk w) := by
  obtain ⟨run, known, paid, call, -, turn⟩ := paced
  obtain ⟨less, batch, seen⟩ := call_turn sendOk (counted_run run).1 inside
  refine ⟨Reached.step run (Counts.user sendOk w.count), known, ?_, ?_, ?_, ?_⟩
  · by_cases ended : (userStep sendOk w.count.sys).pc = .idle
    · simp only [tick, ended, if_true, Nat.mul_succ]
      omega
    · simp only [tick, ended, if_false]
      omega
  · by_cases ended : (userStep sendOk w.count.sys).pc = .idle
    · simp only [tick, ended, if_true]
      exact Nat.zero_le _
    · simp only [tick, ended, if_false]
      omega
  · intro ended
    exact if_pos ended
  · rcases turn with done | needed
    · left
      unfold ahead at done ⊢
      simp only [tick]
      split
      · omega
      · exact done
    · right
      have fewer : beyond mark (tick sendOk w).count = beyond mark w.count := by
        unfold beyond ahead
        simp only [tick]
        split
        · rename_i busy
          rw [if_pos busy] at batch
          omega
        · rename_i quiet
          rw [if_neg quiet] at batch
          omega
      have counted : (tick sendOk w).calls + inCall (tick sendOk w).count.sys.pc =
          w.calls + inCall w.count.sys.pc := by
        rw [inCall_inside inside]
        by_cases ended : (userStep sendOk w.count.sys).pc = .idle
        · simp only [tick, ended, if_true, inCall]
        · simp only [tick, ended, if_false, inCall]
      rw [fewer, counted]
      change _ + turns _ (userStep sendOk w.count.sys).xsk.rx.seen.toNat ≤ _
      rw [seen]
      exact needed

theorem ticks_paced {mark n : Nat} {w w' : Watch} (paced : Paced mark n w)
    (step : Ticks w w') : Paced mark n w' := by
  have counted := ticks_counts step
  cases step with
  | user sendOk =>
    by_cases at_idle : w.count.sys.pc = .idle
    · rcases idle_turn sendOk (counted_run paced.run).1 at_idle with
        ⟨stays, none_offered⟩ | begins
      · exact poll_paced sendOk paced at_idle stays none_offered
      · exact begin_paced sendOk paced at_idle begins
    · exact call_paced sendOk paced at_idle
  | take taken => exact kernel_paced paced counted (Nat.le_refl _) rfl rfl rfl
  | publish held put elsewhere =>
    exact kernel_paced paced counted (Nat.le_succ _) rfl rfl (put_seen put)

theorem reached_paced {mark n : Nat} {w : Watch} (run : Reached (Marked mark n) Ticks w) :
    Paced mark n w :=
  reached_invariant (Paced mark n) (fun _ => marked_paced) (fun _ _ => ticks_paced) run

theorem paced_handled {mark n : Nat} {w : Watch} (paced : Paced mark n w)
    (enough : rounds n ≤ w.calls) : mark ≤ w.count.handled := by
  rcases paced.turn with done | needed
  · unfold ahead at done
    omega
  · by_cases at_idle : w.count.sys.pc = .idle
    · by_contra waits
      have some_left : 0 < beyond mark w.count := by
        unfold beyond ahead
        rw [at_idle]
        change 0 < mark - w.count.handled - 0
        omega
      have one : 0 < turns _ w.count.sys.xsk.rx.seen.toNat := turns_pos some_left
      omega
    · rw [inCall_inside at_idle] at needed
      omega

theorem enough_calls {mark n r : Nat} {w : Watch} (paced : Paced mark n w)
    (going : w.count.sys.pc ≠ .aborted) (enough : callSteps * r ≤ w.steps) : r ≤ w.calls := by
  have paid := paced.paid
  have short : w.spent < callSteps := by
    have call := paced.call
    by_cases at_idle : w.count.sys.pc = .idle
    · rw [paced.between at_idle]
      decide
    · have more := left_pos at_idle going
      omega
  by_contra few
  have next : callSteps * (w.calls + 1) ≤ callSteps * r :=
    Nat.mul_le_mul_left callSteps (by omega)
  rw [Nat.mul_succ] at next
  omega

/-- However the kernel moves in between: a call never takes more than callSteps steps, and the
    n packets in the ring at the mark are all handled once rounds n calls have returned, which
    is so after callSteps times as many steps of the loop. -/
theorem waiting_bounded {mark n : Nat} {w : Watch} (run : Reached (Marked mark n) Ticks w) :
    w.count.sys.pc ≠ .aborted ∧ w.spent ≤ callSteps ∧
      (rounds n ≤ w.calls → mark ≤ w.count.handled) ∧
      (callSteps * rounds n ≤ w.steps → mark ≤ w.count.handled) := by
  have paced := reached_paced run
  have going : w.count.sys.pc ≠ .aborted := by
    intro stuck
    have atPc := (counted_run paced.run).1.atPc
    rw [stuck] at atPc
    exact atPc
  have call := paced.call
  refine ⟨going, by omega, paced_handled paced, ?_⟩
  intro enough
  exact paced_handled paced (enough_calls paced going enough)

/- The calls do return, and the count is that of the record. -/

theorem tick_counted {w : Watch} (run : Reached Uncounted Counts w.count) :
    Reached Uncounted Counts (tick true w).count := Reached.step run (Counts.user true w.count)

theorem returning_tick {w : Watch} (run : Reached Uncounted Counts w.count)
    (returned : (tick true w).count.sys.pc = .idle) :
    ∃ w', Relation.ReflTransGen Ticks w w' ∧ Reached Uncounted Counts w'.count ∧
      w'.calls = w.calls + 1 :=
  ⟨tick true w, Relation.ReflTransGen.single (Ticks.user true w), tick_counted run,
    if_pos returned⟩

theorem ticks_finish (steps : Nat) {w : Watch} (run : Reached Uncounted Counts w.count)
    (enough : left (tick true w).count.sys.pc ≤ steps) :
    ∃ w', Relation.ReflTransGen Ticks w w' ∧ Reached Uncounted Counts w'.count ∧
      w'.calls = w.calls + 1 := by
  induction steps generalizing w with
  | zero =>
    by_cases returned : (tick true w).count.sys.pc = .idle
    · exact returning_tick run returned
    · have less := (call_turn true (counted_run (tick_counted run)).1 returned).left
      omega
  | succ steps ih =>
    by_cases returned : (tick true w).count.sys.pc = .idle
    · exact returning_tick run returned
    · have less := (call_turn true (counted_run (tick_counted run)).1 returned).left
      have fewer : left (tick true (tick true w)).count.sys.pc ≤ steps := by
        change left (userStep true (tick true w).count.sys).pc ≤ steps
        omega
      have going : (tick true w).calls = w.calls := if_neg returned
      obtain ⟨w', path, run', more⟩ := ih (tick_counted run) fewer
      exact ⟨w', path.head (Ticks.user true w), run', by rw [more, going]⟩

theorem call_ticks {w : Watch} (run : Reached Uncounted Counts w.count) :
    ∃ w', Relation.ReflTransGen Ticks w w' ∧ Reached Uncounted Counts w'.count ∧
      w'.calls = w.calls + 1 := ticks_finish _ run (Nat.le_refl _)

def counted (o : Observed) : Counted := ⟨o.sys, o.arrived.length, o.outcomes.length⟩

theorem observes_counts {o u : Observed} (step : Observes o u) :
    Counts (counted o) (counted u) := by
  cases step with
  | user sendOk =>
    have same : counted (worked sendOk o) = ⟨userStep sendOk o.sys, o.arrived.length,
        if handling o.sys.pc then o.outcomes.length + 1 else o.outcomes.length⟩ := by
      unfold counted worked
      split
      · rw [List.length_append, List.length_singleton]
      · rfl
    change Counts (counted o) (counted (worked sendOk o))
    rw [same]
    exact Counts.user sendOk (counted o)
  | take taken => exact Counts.take (c := counted o) taken
  | @publish _ d rx buffer p held put holds elsewhere =>
    have more : (o.arrived ++ [p]).length = o.arrived.length + 1 := List.length_append
    unfold counted
    dsimp only
    rw [more]
    exact Counts.publish (c := counted o) held put elsewhere

theorem observed_counted {o : Observed} (run : Reached Opened Observes o) :
    Reached Uncounted Counts (counted o) := by
  induction run with
  | start opened =>
    obtain ⟨configured, -, no_arrived, no_outcomes⟩ := opened
    refine Reached.start ⟨configured, ?_, ?_⟩
    · exact congrArg List.length no_arrived
    · exact congrArg List.length no_outcomes
  | step before next ih => exact Reached.step ih (observes_counts next)

def watchAt (o : Observed) : Watch := ⟨counted o, 0, 0, 0⟩

/-- A packet waits between two calls; two more calls, and it is handled. -/
theorem waiting_bounded_for_ping :
    ∃ w w', Marked 1 1 w ∧ w.count.handled = 0 ∧ Relation.ReflTransGen Ticks w w' ∧
      w'.calls = 2 ∧ 1 ≤ w'.count.handled := by
  obtain ⟨t, takes, arrived, outcomes, at_idle, empty, f, below, held⟩ :=
    opened_takes bootRecord_opened
  have size : ping.bytes.length = 42 := rfl
  obtain ⟨u, publishes, next, unhandled, same⟩ :=
    held_publishes ping below held empty (by decide) (by rw [size]; decide)
  have run : Reached Uncounted Counts (watchAt u).count := observed_counted
    (Reached.step (Reached.step (Reached.start bootRecord_opened) takes) publishes)
  have between : (watchAt u).count.sys.pc = .idle := same.trans at_idle
  have one : (watchAt u).count.arrived = 1 := by
    change u.arrived.length = 1
    rw [next, arrived]
    rfl
  have none_handled : (watchAt u).count.handled = 0 := by
    change u.outcomes.length = 0
    rw [unhandled, outcomes]
    rfl
  have inRing := counted_ring run between
  rw [one, none_handled, Nat.zero_add] at inRing
  have marked : Marked 1 1 (watchAt u) := ⟨run, between, one, inRing, rfl, rfl, rfl⟩
  obtain ⟨v, path, run', first⟩ := call_ticks (w := watchAt u) run
  obtain ⟨w', path', -, second⟩ := call_ticks run'
  have calls : w'.calls = 2 := by
    rw [second, first]
    rfl
  have whole := path.trans path'
  have reached := reached_path (fun _ _ step => step) (Reached.start marked) whole
  obtain ⟨-, -, handled, -⟩ := waiting_bounded reached
  exact ⟨watchAt u, w', marked, none_handled, whole, calls, handled (by rw [calls]; decide)⟩

end XSKLatency
