import XSKNet.Batching
import XSKNet.FillRing
import XSKNet.EchoReply

/- Whole calls of handle_receive_packets in the record. With the kernel moving between any two
   of its steps, a call comes to its end and handles the packets it found, up to a batch of
   them; so what arrives is handled, and no division into batches shows in the result. -/
namespace XSKCalls
open XSKPacket XSKKernel SharedRing XSKSocket XSKReceive XSKConservation XSKTurns XSKLedger
  XSKBatching XSKFillRing XSKEcho Runs

def worked (sendOk : Bool) (o : Observed) : Observed :=
  ⟨userStep sendOk o.sys, o.arrived,
    if handling o.sys.pc then o.outcomes ++ [sendOk] else o.outcomes⟩

def Works (o u : Observed) : Prop := ∃ sendOk, u = worked sendOk o

/-- n steps of the user into a call that began at o, the kernel moving in between. -/
inductive InCall (o : Observed) : Nat → Observed → Prop where
  | begins (sendOk : Bool) : InCall o 1 (worked sendOk o)
  | user {n : Nat} {u : Observed} (before : InCall o n u) (inside : u.sys.pc ≠ .idle)
      (sendOk : Bool) : InCall o (n + 1) (worked sendOk u)
  | kernel {n : Nat} {u v : Observed} (before : InCall o n u) (inside : u.sys.pc ≠ .idle)
      (step : Observes u v) (same : v.sys.pc = u.sys.pc) : InCall o n v

theorem worked_observes (sendOk : Bool) (o : Observed) : Observes o (worked sendOk o) :=
  Observes.user sendOk o

theorem works_observes {o u : Observed} (works : Works o u) : Observes o u := by
  obtain ⟨sendOk, rfl⟩ := works
  exact worked_observes sendOk o

theorem reached_inv {o : Observed} (run : Reached Opened Observes o) : Conserved o.sys :=
  (reached_ledgered run).1

theorem staying_kernel {u v : Observed} (run : Reached Opened Observes u)
    (inside : u.sys.pc ≠ .idle) (step : Observes u v) (same : v.sys.pc = u.sys.pc) :
    v.outcomes = u.outcomes := by
  cases step with
  | user sendOk =>
    have less := (call_turn sendOk (reached_inv run) inside).left
    rw [same] at less
    omega
  | take taken => rfl
  | publish held put holds elsewhere => rfl

/- Along a call. -/

structure Progress (o : Observed) (n : Nat) (u : Observed) : Prop where
  run : Reached Opened Observes u
  steps : n + left u.sys.pc ≤ callSteps
  batch : u.outcomes.length + batchLeft u.sys.pc =
    o.outcomes.length + min 64 (offered o.sys)

theorem begins_progress (sendOk : Bool) {o : Observed} (run : Reached Opened Observes o)
    (between : o.sys.pc = .idle) : Progress o 1 (worked sendOk o) := by
  have next := Reached.step run (worked_observes sendOk o)
  have quiet : (worked sendOk o).outcomes = o.outcomes := by
    simp [worked, between, handling]
  have size : RX_BATCH_SIZE.toNat = 64 := rfl
  rcases idle_turn sendOk (reached_inv run) between with ⟨stays, none_offered⟩ | begun
  · have ended : (worked sendOk o).sys.pc = .idle := stays
    refine ⟨next, ?_, ?_⟩
    · rw [ended]
      decide
    · rw [ended, quiet, none_offered]
      rfl
  · obtain ⟨-, batch, -, steps, -⟩ := begun
    refine ⟨next, ?_, ?_⟩
    · change 1 + left (userStep sendOk o.sys).pc ≤ NUM_DESCS + RX_BATCH_SIZE.toNat + 7
      omega
    · rw [quiet]
      change _ + batchLeft (userStep sendOk o.sys).pc = _
      rw [batch]

theorem user_progress (sendOk : Bool) {o u : Observed} {n : Nat} (progress : Progress o n u)
    (inside : u.sys.pc ≠ .idle) : Progress o (n + 1) (worked sendOk u) := by
  obtain ⟨run, steps, batch⟩ := progress
  obtain ⟨less, fewer, -⟩ := call_turn sendOk (reached_inv run) inside
  refine ⟨Reached.step run (worked_observes sendOk u), ?_, ?_⟩
  · change n + 1 + left (userStep sendOk u.sys).pc ≤ callSteps
    omega
  · rw [← batch, ← fewer]
    change (if handling u.sys.pc then _ else _ : List Bool).length +
      batchLeft (userStep sendOk u.sys).pc = _
    split
    · rw [List.length_append, List.length_singleton]
      omega
    · rfl

theorem kernel_progress {o u v : Observed} {n : Nat} (progress : Progress o n u)
    (inside : u.sys.pc ≠ .idle) (step : Observes u v) (same : v.sys.pc = u.sys.pc) :
    Progress o n v := by
  obtain ⟨run, steps, batch⟩ := progress
  have kept := staying_kernel run inside step same
  refine ⟨Reached.step run step, ?_, ?_⟩
  · rwa [same]
  · rwa [same, kept]

theorem inCall_progress {o u : Observed} {n : Nat} (run : Reached Opened Observes o)
    (between : o.sys.pc = .idle) (call : InCall o n u) : Progress o n u := by
  induction call with
  | begins sendOk => exact begins_progress sendOk run between
  | user before inside sendOk ih => exact user_progress sendOk ih inside
  | kernel before inside step same ih => exact kernel_progress ih inside step same

theorem returned_handled {o u : Observed} {n : Nat} (run : Reached Opened Observes o)
    (between : o.sys.pc = .idle) (call : InCall o n u) (returned : u.sys.pc = .idle) :
    u.outcomes.length = o.outcomes.length + min 64 (offered o.sys) := by
  have batch := (inCall_progress run between call).batch
  rw [returned] at batch
  exact batch

theorem offered_pos {s : System} (waits : 0 < s.xsk.rx.used) : 0 < offered s := by
  unfold offered
  split
  · exact waits
  · rename_i cached
    by_contra none_cached
    exact cached (UInt32.toNat_inj.mp (Nat.eq_zero_of_not_pos none_cached))

/- Calls come to their end. -/

theorem call_finishes (steps : Nat) {o u : Observed} {n : Nat} (run : Reached Opened Observes o)
    (between : o.sys.pc = .idle) (call : InCall o n u) (enough : left u.sys.pc ≤ steps) :
    ∃ m v, InCall o m v ∧ Relation.ReflTransGen Works u v ∧ v.sys.pc = .idle ∧
      v.arrived = u.arrived := by
  induction steps generalizing n u with
  | zero =>
    by_cases returned : u.sys.pc = .idle
    · exact ⟨n, u, call, Relation.ReflTransGen.refl, returned, rfl⟩
    · have inv := reached_inv (inCall_progress run between call).run
      have less := (call_turn true inv returned).left
      omega
  | succ steps ih =>
    by_cases returned : u.sys.pc = .idle
    · exact ⟨n, u, call, Relation.ReflTransGen.refl, returned, rfl⟩
    · have inv := reached_inv (inCall_progress run between call).run
      have less := (call_turn true inv returned).left
      have fewer : left (worked true u).sys.pc ≤ steps := by
        change left (userStep true u.sys).pc ≤ steps
        omega
      obtain ⟨m, v, call', path, ended, same⟩ := ih (InCall.user call returned true) fewer
      exact ⟨m, v, call', path.head ⟨true, rfl⟩, ended, same⟩

theorem call_returns {o : Observed} (run : Reached Opened Observes o)
    (between : o.sys.pc = .idle) :
    ∃ n u, InCall o n u ∧ Relation.ReflTransGen Works o u ∧ u.sys.pc = .idle ∧
      u.arrived = o.arrived := by
  have call : InCall o 1 (worked true o) := InCall.begins true
  obtain ⟨n, u, call', path, ended, same⟩ := call_finishes _ run between call (Nat.le_refl _)
  exact ⟨n, u, call', path.head ⟨true, rfl⟩, ended, same⟩

/-- From here on a call comes to its end and is bounded, and whenever it returns it has handled
    a batch of 1 to 64 packets if there were any. -/
structure Serves (o : Observed) : Prop where
  returns : ∃ n u, InCall o n u ∧ Relation.ReflTransGen Works o u ∧ u.sys.pc = .idle
  bounded : ∀ n u, InCall o n u → n ≤ callSteps
  handles : ∀ n u, InCall o n u → u.sys.pc = .idle → ∃ batch, batch ≤ 64 ∧
    (0 < o.sys.xsk.rx.used → 0 < batch) ∧ u.outcomes.length = o.outcomes.length + batch

theorem idle_serves {o : Observed} (run : Reached Opened Observes o)
    (between : o.sys.pc = .idle) : Serves o := by
  refine ⟨?_, ?_, ?_⟩
  · obtain ⟨n, u, call, path, ended, -⟩ := call_returns run between
    exact ⟨n, u, call, path, ended⟩
  · intro n u call
    have steps := (inCall_progress run between call).steps
    omega
  · intro n u call returned
    refine ⟨min 64 (offered o.sys), by omega, ?_, returned_handled run between call returned⟩
    intro waits
    have found := offered_pos waits
    omega

theorem drained_handled {o : Observed} (run : Reached Opened Observes o)
    (between : o.sys.pc = .idle) (drained : o.sys.xsk.rx.used = 0) :
    (handled o).map Prod.fst = o.arrived := by
  have all := observed_waiting run between
  exact List.map_fst_zip (by omega)

/- A packet from its arrival to its reply. -/

theorem opened_takes {o : Observed} (opened : Opened o) :
    ∃ u, Observes o u ∧ u.arrived = [] ∧ u.outcomes = [] ∧ u.sys.pc = .idle ∧
      u.sys.xsk.rx.used = 0 ∧ ∃ f, f < NUM_FRAMES ∧ u.sys.held = [f] := by
  obtain ⟨configured, -, no_arrived, no_outcomes⟩ := opened
  obtain ⟨y, state, producing, pending, used, -, unused, -⟩ := configured_setup configured
  have valid := configured_valid configured
  have inv := configured_conserved configured
  obtain ⟨-, at_idle, no_held⟩ := configured
  have full : o.sys.xsk.fq.used = NUM_DESCS := by
    rw [state]
    change (y.fq.prodSubmit _).used = _
    rw [Ring.submit_used y.fq producing, used, pending, Nat.zero_add]
  have empty : o.sys.xsk.rx.used = 0 := by
    rw [state]
    exact unused
  obtain ⟨fq, taken, -⟩ := Ring.peerTake_of_used o.sys.xsk.fq (by rw [full]; decide)
  obtain ⟨head, -⟩ := Ring.peerTake_spec inv.producing taken
  have frame : InUmem (o.sys.xsk.fq.read o.sys.xsk.fq.consumer) := by
    apply valid.entries
    rw [written, head]
    exact List.mem_cons_self
  refine ⟨_, Observes.take taken, no_arrived, no_outcomes, at_idle, empty,
    frameOf (o.sys.xsk.fq.read o.sys.xsk.fq.consumer), (inUmem_iff _).mp frame, ?_⟩
  rw [kernelTake, if_pos frame, no_held]

def placed (buffer : Nat → UInt8) (a : Nat) (p : Packet) : Nat → UInt8 := fun b =>
  if a ≤ b ∧ b < a + p.bytes.length then byteAt p (b - a) else buffer b

theorem held_publishes {o : Observed} {f : Nat} (p : Packet) (below : f < NUM_FRAMES)
    (held : o.sys.held = [f]) (empty : o.sys.xsk.rx.used = 0) (long : 42 ≤ p.bytes.length)
    (short : p.bytes.length ≤ FRAME_SIZE) :
    ∃ u, Observes o u ∧ u.arrived = o.arrived ++ [p] ∧ u.outcomes = o.outcomes ∧
      u.sys.pc = o.sys.pc := by
  let d : XdpDesc := ⟨UInt64.ofNat (f * FRAME_SIZE), p.len⟩
  have address : d.addr.toNat = f * FRAME_SIZE := by
    change (UInt64.ofNat (f * FRAME_SIZE)).toNat = _
    rw [UInt64.toNat_ofNat']
    unfold NUM_FRAMES at below
    unfold FRAME_SIZE
    omega
  have inside : frameOf d.addr = f := by
    rw [frameOf, address]
    exact Nat.mul_div_cancel f (by decide)
  have member : frameOf d.addr ∈ o.sys.held := by
    rw [inside, held]
    exact List.mem_cons_self
  have room : o.sys.xsk.rx.used < NUM_DESCS := by
    rw [empty]
    decide
  obtain ⟨rx, put⟩ := Ring.peerPut_of_room o.sys.xsk.rx d room
  have holds : Holds (placed o.sys.xsk.buffer d.addr.toNat p) d p := by
    refine ⟨rfl, long, ?_, ?_⟩
    · rw [address, Nat.mul_mod_left, Nat.zero_add]
      exact short
    · intro i before
      rw [placed, if_pos (by omega), Nat.add_sub_cancel_left]
  have elsewhere : ∀ a, a / FRAME_SIZE ≠ frameOf d.addr →
      placed o.sys.xsk.buffer d.addr.toNat p a = o.sys.xsk.buffer a := by
    intro a other
    refine if_neg ?_
    rintro ⟨above, before⟩
    rw [inside] at other
    rw [address] at above before
    unfold FRAME_SIZE at other above before short
    omega
  exact ⟨_, Observes.publish member put holds elsewhere, rfl, rfl, rfl⟩

/-- The only packet that has arrived waits between two calls: the next call answers it. -/
theorem waiting_answered {o : Observed} {p : Packet} (run : Reached Opened Observes o)
    (between : o.sys.pc = .idle) (arrived : o.arrived = [p]) (unhandled : o.outcomes = []) :
    ∃ u, Relation.ReflTransGen Works o u ∧ u.sys.pc = .idle ∧ u.arrived = [p] ∧
      u.outcomes.length = 1 := by
  have all := observed_waiting run between
  rw [arrived, unhandled] at all
  change 0 + o.sys.xsk.rx.used = 1 at all
  obtain ⟨n, u, call, path, ended, same⟩ := call_returns run between
  have found := returned_handled run between call ended
  have more := offered_pos (s := o.sys) (by omega)
  have whole := observed_waiting (inCall_progress run between call).run ended
  rw [same, arrived] at whole
  change _ + _ = 1 at whole
  refine ⟨u, path, ended, same.trans arrived, ?_⟩
  rw [unhandled] at found
  change u.outcomes.length = 0 + min 64 (offered o.sys) at found
  omega

theorem opened_answers {o : Observed} (opened : Opened o) (p : Packet)
    (long : 42 ≤ p.bytes.length) (short : p.bytes.length ≤ FRAME_SIZE) :
    ∃ t u v, Observes o t ∧ t.arrived = o.arrived ∧ Observes t u ∧
      u.arrived = t.arrived ++ [p] ∧ Relation.ReflTransGen Works u v ∧ v.sys.pc = .idle ∧
      v.arrived = [p] ∧ v.outcomes.length = 1 := by
  have no_arrived := opened.2.2.1
  obtain ⟨t, takes, arrived, outcomes, at_idle, empty, f, below, held⟩ := opened_takes opened
  obtain ⟨u, publishes, next, unhandled, same⟩ := held_publishes p below held empty long short
  have run : Reached Opened Observes u :=
    Reached.step (Reached.step (Reached.start opened) takes) publishes
  rw [arrived, List.nil_append] at next
  obtain ⟨v, path, ended, all, one⟩ :=
    waiting_answered run (same.trans at_idle) next (unhandled.trans outcomes)
  refine ⟨t, u, v, takes, arrived.trans no_arrived.symm, publishes, ?_, path, ended, all, one⟩
  rw [next, arrived, List.nil_append]

theorem ofNat_le {a b : Nat} (le : a ≤ b) (bound : b < 2 ^ 64) :
    UInt64.ofNat a ≤ UInt64.ofNat b := by
  rw [UInt64.le_iff_toNat_le, UInt64.toNat_ofNat', UInt64.toNat_ofNat']
  omega

/-- Batching is invisible: between two calls every packet published is handled or still in
    the rx ring, and the frames sent and the statistics are those of handling the packets
    one by one; every call that begins there returns after a bounded number of steps, with a
    batch of the waiting packets handled; and with the ring empty all of them are. -/
theorem batching_invisible {o : Observed} (run : Reached Opened Observes o)
    (between : o.sys.pc = .idle) :
    o.outcomes.length + o.sys.xsk.rx.used = o.arrived.length ∧
    Account.mk o.sys.sent o.sys.xsk.stats = oneByOne (handled o) opening ∧
    o.sys.sent = (handled o).filterMap (fun r => replyTo r.1) ∧
    o.sys.xsk.stats.rxPackets = UInt64.ofNat (handled o).length ∧
    o.sys.xsk.stats.rxBytes = UInt64.ofNat (totalBytes (handled o)) ∧
    o.sys.xsk.stats.txPackets = UInt64.ofNat ((handled o).filter answered).length ∧
    o.sys.xsk.stats.txBytes = UInt64.ofNat (totalBytes ((handled o).filter answered)) ∧
    ((handled o).length < 2 ^ 64 → o.sys.xsk.stats.txPackets ≤ o.sys.xsk.stats.rxPackets) ∧
    (totalBytes (handled o) < 2 ^ 64 → o.sys.xsk.stats.txBytes ≤ o.sys.xsk.stats.rxBytes) ∧
    (o.sys.xsk.rx.used = 0 → (handled o).map Prod.fst = o.arrived) ∧ Serves o := by
  have account := observed_account run between
  obtain ⟨sent, stats⟩ := Account.mk.inj (account.trans (oneByOne_eq (handled o) opening))
  refine ⟨observed_waiting run between, account, sent, ?_⟩
  rw [stats]
  simp only [opening, UInt64.zero_add, true_and]
  refine ⟨?_, ?_, drained_handled run between, idle_serves run between⟩
  · intro bound
    exact ofNat_le (List.length_filter_le _ _) bound
  · intro bound
    exact ofNat_le (totalBytes_filter_le answered (handled o)) bound

/-- A request arrives, and the next call sends its reply. -/
theorem batching_invisible_for_ping :
    ∃ o, Reached Opened Observes o ∧ o.arrived = [ping] ∧ o.sys.pc = .idle ∧
      o.sys.xsk.rx.used = 0 ∧ (handled o).map Prod.fst = [ping] ∧
      o.sys.sent = (replyTo ping).toList ∧ o.sys.sent.length = 1 ∧
      o.sys.xsk.stats.rxPackets = 1 := by
  have size : ping.bytes.length = 42 := rfl
  obtain ⟨t, u, o, takes, -, publishes, -, path, between, arrived, one⟩ :=
    opened_answers bootRecord_opened ping (by decide) (by rw [size]; decide)
  have waiting : Reached Opened Observes u :=
    Reached.step (Reached.step (Reached.start bootRecord_opened) takes) publishes
  have run : Reached Opened Observes o := reached_path (fun _ _ => works_observes) waiting path
  obtain ⟨all, -, sent, received, -, -, -, -, -, drained, -⟩ := batching_invisible run between
  rw [one, arrived] at all
  change 1 + _ = 1 at all
  have empty : o.sys.xsk.rx.used = 0 := by omega
  have packets := (drained empty).trans arrived
  have count := congrArg List.length packets
  rw [List.length_map] at count
  have replies : o.sys.sent = (replyTo ping).toList := by
    change _ = List.filterMap (replyTo ∘ Prod.fst) _ at sent
    rw [sent, ← List.filterMap_map, packets]
    rfl
  refine ⟨o, run, arrived, between, empty, packets, replies, ?_, ?_⟩
  · rw [replies]
    decide
  · rw [received, count]
    rfl

end XSKCalls
