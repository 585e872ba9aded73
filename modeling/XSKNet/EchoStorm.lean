import XSKNet.WireToWire

/- Clients on a shared medium. What one of them has sent may come back to it or reach another
   one, any number of times and in any order, beside packets from outside. All have at least
   42 bytes: a shorter one would be answered from what its frame held before. -/
namespace XSKStorm
open XSKPacket XSKKernel XSKBounds XSKSocket XSKReceive XSKLedger XSKBatching XSKWire
  XSKCalls XSKEcho Runs

/-- outside lists, for every client, the packets published to it that no client had sent. -/
structure Medium where
  client : Nat → Observed
  outside : Nat → List Packet

def Medium.become (m : Medium) (i : Nat) (o : Observed) : Medium :=
  { m with client := Function.update m.client i o }

inductive Relays : Medium → Medium → Prop where
  | worked {m : Medium} {i : Nat} {o : Observed} (step : Observes (m.client i) o)
      (nothing : o.arrived = (m.client i).arrived) : Relays m (m.become i o)
  | entered {m : Medium} {i : Nat} {o : Observed} {p : Packet}
      (step : Observes (m.client i) o) (next : o.arrived = (m.client i).arrived ++ [p]) :
      Relays m { m.become i o with
        outside := Function.update m.outside i (m.outside i ++ [p]) }
  | relayed {m : Medium} {i j : Nat} {o : Observed} {p : Packet}
      (step : Observes (m.client i) o) (next : o.arrived = (m.client i).arrived ++ [p])
      (frame : p.bytes ∈ (m.client j).sys.sent) : Relays m (m.become i o)

def Silent (m : Medium) : Prop := (∀ i, Opened (m.client i)) ∧ ∀ i, m.outside i = []

/- One packet. -/

theorem request_type {p : Packet} (accepts : Accepts (byteAt p) p.len) :
    byteAt p 34 = ICMP_ECHO ∧ 34 < p.bytes.length := by
  have type : byteAt p 34 = ICMP_ECHO := accepts.2.2.2.2
  refine ⟨type, ?_⟩
  by_contra short
  have beyond : byteAt p 34 = 0 := by
    simp [byteAt, List.getElem?_eq_none (Nat.le_of_not_lt short)]
  rw [beyond] at type
  exact absurd type (by decide)

/-- A reply has type ICMP_ECHOREPLY where a request has ICMP_ECHO. -/
theorem reply_unanswered {p q : Packet} (reply : replyTo p = some q.bytes) :
    replyTo q = none := by
  unfold replyTo at reply ⊢
  by_cases accepts : Accepts (byteAt p) p.len
  · rw [if_pos accepts] at reply
    have inside := (request_type accepts).2
    have type : byteAt q 34 = ICMP_ECHOREPLY := by
      unfold byteAt
      rw [← Option.some.inj reply]
      simp [inside]
      rfl
    refine if_neg fun again => ?_
    rw [(request_type again).1] at type
    exact absurd type (by decide)
  · rw [if_neg accepts] at reply
    cases reply

/- One client. -/

theorem sent_replies {o : Observed} (run : Reached Opened Observes o) :
    ∃ done pending, o.arrived = done ++ pending ∧ o.sys.sent = done.filterMap replyTo ∧
      (o.sys.pc = .idle → pending.length = o.sys.xsk.rx.used) := by
  obtain ⟨-, done, pending, led⟩ := reached_ledgered run
  have account := led.account
  rw [oneByOne_eq] at account
  have sent := congrArg Account.sent account
  change o.sys.sent = [] ++ (done.zip o.outcomes).filterMap _ at sent
  rw [List.nil_append, replies_zip, ← led.count, List.take_length] at sent
  refine ⟨done, pending, led.arrived, sent, ?_⟩
  intro between
  have all := observed_waiting run between
  rw [led.arrived, List.length_append, led.count] at all
  omega

theorem sent_unanswered {o : Observed} (run : Reached Opened Observes o) {p : Packet}
    (frame : p.bytes ∈ o.sys.sent) : replyTo p = none := by
  obtain ⟨done, pending, -, sent, -⟩ := sent_replies run
  rw [sent] at frame
  obtain ⟨q, -, reply⟩ := List.mem_filterMap.mp frame
  exact reply_unanswered reply

/- The medium. -/

/-- Every client is a run of its own, and has received the same requests as from outside. -/
structure Calm (m : Medium) : Prop where
  runs : ∀ i, Reached Opened Observes (m.client i)
  requests : ∀ i, (m.client i).arrived.filterMap replyTo = (m.outside i).filterMap replyTo

theorem become_same (m : Medium) (i : Nat) (o : Observed) : (m.become i o).client i = o :=
  Function.update_self ..

theorem become_other (m : Medium) {i j : Nat} (o : Observed) (other : j ≠ i) :
    (m.become i o).client j = m.client j := Function.update_of_ne other ..

theorem become_runs {m : Medium} {i : Nat} {o : Observed}
    (runs : ∀ j, Reached Opened Observes (m.client j)) (step : Observes (m.client i) o)
    (j : Nat) : Reached Opened Observes ((m.become i o).client j) := by
  by_cases same : j = i
  · rw [same, become_same]
    exact Reached.step (runs i) step
  · rw [become_other m o same]
    exact runs j

theorem silent_calm {m : Medium} (silent : Silent m) : Calm m := by
  obtain ⟨opened, nothing⟩ := silent
  refine ⟨fun i => Reached.start (opened i), ?_⟩
  intro i
  rw [(opened i).2.2.1, nothing i]

theorem become_calm {m : Medium} {i : Nat} {o : Observed} (inv : Calm m)
    (step : Observes (m.client i) o)
    (same_requests : o.arrived.filterMap replyTo = (m.client i).arrived.filterMap replyTo) :
    Calm (m.become i o) := by
  refine ⟨become_runs inv.runs step, ?_⟩
  intro j
  by_cases same : j = i
  · rw [same, become_same, same_requests]
    exact inv.requests i
  · rw [become_other m o same]
    exact inv.requests j

theorem relays_calm {m m' : Medium} (inv : Calm m) (step : Relays m m') : Calm m' := by
  cases step with
  | worked step nothing => exact become_calm inv step (by rw [nothing])
  | @entered i o p step next =>
    refine ⟨become_runs inv.runs step, ?_⟩
    intro j
    change ((m.become i o).client j).arrived.filterMap replyTo =
      (Function.update m.outside i (m.outside i ++ [p]) j).filterMap replyTo
    by_cases same : j = i
    · rw [same, become_same, Function.update_self, next, List.filterMap_append,
        List.filterMap_append, inv.requests i]
    · rw [become_other m o same, Function.update_of_ne same]
      exact inv.requests j
  | @relayed i j o p step next frame =>
    have ignored : replyTo p = none := sent_unanswered (inv.runs j) frame
    refine become_calm inv step ?_
    rw [next, List.filterMap_append]
    simp [ignored]

theorem medium_run {m : Medium} (run : Reached Silent Relays m) : Calm m :=
  reached_invariant Calm (fun _ => silent_calm) (fun _ _ => relays_calm) run

/-- No storm: in any topology a client sends the replies to the requests that came from outside,
    in their order and each once, and has sent all of them when its ring is empty. Frames that
    clients sent are never answered, however often they are delivered. -/
theorem replies_never_answered {m : Medium} (run : Reached Silent Relays m) (i : Nat) :
    (m.client i).sys.sent <+: (m.outside i).filterMap replyTo ∧
    ((m.client i).sys.pc = .idle → (m.client i).sys.xsk.rx.used = 0 →
      (m.client i).sys.sent = (m.outside i).filterMap replyTo) := by
  obtain ⟨runs, requests⟩ := medium_run run
  obtain ⟨done, pending, arrived, sent, waiting⟩ := sent_replies (runs i)
  rw [← requests i, arrived, List.filterMap_append, ← sent]
  refine ⟨List.prefix_append _ _, ?_⟩
  intro between drained
  have none_pending : pending = [] :=
    List.eq_nil_of_length_eq_zero ((waiting between).trans drained)
  rw [none_pending]
  simp

def bootMedium : Medium := ⟨fun _ => bootRecord, fun _ => []⟩

theorem bootMedium_silent : Silent bootMedium := ⟨fun _ => bootRecord_opened, fun _ => rfl⟩

theorem become_twice (m : Medium) (i : Nat) (o u : Observed) :
    (m.become i o).become i u = m.become i u := by
  simp [Medium.become]

theorem works_relays {m : Medium} {i : Nat} {o u : Observed}
    (run : Reached Silent Relays (m.become i o)) (path : Relation.ReflTransGen Works o u) :
    Reached Silent Relays (m.become i u) := by
  induction path with
  | refl => exact run
  | @tail v w before next ih =>
    obtain ⟨sendOk, rfl⟩ := next
    have step : Observes ((m.become i v).client i) (worked sendOk v) := by
      rw [become_same]
      exact worked_observes sendOk v
    have same : (worked sendOk v).arrived = ((m.become i v).client i).arrived := by
      rw [become_same]
      rfl
    rw [← become_twice m i v]
    exact Reached.step ih (Relays.worked step same)

def Medium.noting (m : Medium) (i : Nat) (p : Packet) : Medium :=
  ⟨m.client, Function.update m.outside i (m.outside i ++ [p])⟩

structure Handled (m m' : Medium) (i : Nat) (p : Packet) : Prop where
  run : Reached Silent Relays m'
  between : (m'.client i).sys.pc = .idle
  arrived : (m'.client i).arrived = [p]
  one : (m'.client i).outcomes.length = 1
  others : ∀ j, j ≠ i → m'.client j = m.client j

theorem handled_drained {m m' : Medium} {i : Nat} {p : Packet} (handled : Handled m m' i p) :
    (m'.client i).sys.xsk.rx.used = 0 := by
  obtain ⟨run, between, arrived, one, -⟩ := handled
  have all := observed_waiting ((medium_run run).runs i) between
  rw [arrived, one, List.length_singleton] at all
  omega

theorem entered_handled {m : Medium} {i : Nat} (run : Reached Silent Relays m)
    (opened : Opened (m.client i)) (p : Packet) (long : 42 ≤ p.bytes.length)
    (short : p.bytes.length ≤ FRAME_SIZE) :
    ∃ m', Handled m m' i p ∧ m'.outside = Function.update m.outside i (m.outside i ++ [p]) := by
  obtain ⟨t, u, o, takes, nothing, publishes, next, path, between, arrived, one⟩ :=
    opened_answers opened p long short
  have taken := Reached.step run (Relays.worked takes nothing)
  rw [← become_same m i t] at publishes next
  have entered := Reached.step taken (Relays.entered publishes next)
  rw [become_twice] at entered
  have reached : Reached Silent Relays ((m.noting i p).become i o) := works_relays entered path
  refine ⟨(m.noting i p).become i o,
    ⟨reached, ?_, ?_, ?_, fun j other => become_other _ o other⟩, rfl⟩
  · rwa [become_same]
  · rwa [become_same]
  · rwa [become_same]

theorem relayed_handled {m : Medium} {i j : Nat} (run : Reached Silent Relays m)
    (opened : Opened (m.client i)) (other : j ≠ i) (p : Packet) (long : 42 ≤ p.bytes.length)
    (short : p.bytes.length ≤ FRAME_SIZE) (frame : p.bytes ∈ (m.client j).sys.sent) :
    ∃ m', Handled m m' i p ∧ m'.outside = m.outside := by
  obtain ⟨t, u, o, takes, nothing, publishes, next, path, between, arrived, one⟩ :=
    opened_answers opened p long short
  have taken := Reached.step run (Relays.worked takes nothing)
  rw [← become_same m i t] at publishes next
  rw [← become_other m t other] at frame
  have relayed := Reached.step taken (Relays.relayed publishes next frame)
  rw [become_twice] at relayed
  refine ⟨m.become i o, ⟨works_relays relayed path, ?_, ?_, ?_,
    fun j other => become_other m o other⟩, rfl⟩
  · rwa [become_same]
  · rwa [become_same]
  · rwa [become_same]

def pong : Packet := ⟨(replyTo ping).getD [], by decide⟩

theorem replyTo_ping : [ping].filterMap replyTo = [pong.bytes] := by decide

/-- A request comes to client 0 from outside and is answered; the reply is relayed to client 1,
    whose loop handles it and sends nothing. -/
theorem replies_never_answered_between_two :
    ∃ m, Reached Silent Relays m ∧ m.outside 0 = [ping] ∧ (m.client 0).sys.sent = [pong.bytes] ∧
      (m.client 1).arrived = [pong] ∧ (m.client 1).outcomes.length = 1 ∧
      (m.client 1).sys.sent = [] := by
  have pingSize : ping.bytes.length = 42 := rfl
  have pongSize : pong.bytes.length = 42 := by decide
  obtain ⟨m, asked, outside⟩ :=
    entered_handled (i := 0) (Reached.start bootMedium_silent) bootRecord_opened ping
      (by decide) (by rw [pingSize]; decide)
  have entered : m.outside 0 = [ping] := by
    rw [outside]
    exact Function.update_self ..
  have first := (replies_never_answered asked.run 0).2 asked.between (handled_drained asked)
  rw [entered, replyTo_ping] at first
  have opened : Opened (m.client 1) := by
    rw [asked.others 1 (by decide)]
    exact bootRecord_opened
  obtain ⟨m', relayed, same⟩ :=
    relayed_handled (j := 0) asked.run opened (by decide) pong (by decide)
      (by rw [pongSize]; decide) (by rw [first]; exact List.mem_singleton_self _)
  have second := (replies_never_answered relayed.run 1).2 relayed.between
    (handled_drained relayed)
  have nothing : m'.outside 1 = [] := by
    rw [same, outside]
    exact Function.update_of_ne (by decide) ..
  rw [nothing] at second
  refine ⟨m', relayed.run, by rw [same, entered], ?_, relayed.arrived, relayed.one, second⟩
  rw [relayed.others 0 (by decide), first]

end XSKStorm
