import XSKNet.CommandSocket
import XSKNet.Sessions
import XSKNet.Runs

/- socket_server_thread_func over any number of connections. The thread takes them from the
   queue of the kernel one after the other, and handle_client reads from each until the client
   closes it or a read fails. Clients connect, send and close, and the exit flag is raised, at
   any time. -/
namespace XSKServer
open CStrings XSKInterfaces XSKPorts XSKCommandSocket Sessions Runs

abbrev MAX_CLIENTS : Nat := 10

inductive Pc where
  | testing
  | accepting
  | serving (i : Nat)
  | returned
  | ended
  deriving DecidableEq

/-- raised says how many connections were accepted when the flag was raised. connected,
    accepted and log are records: of the connections, in order, and of all reads. -/
structure Server where
  pc : Pc
  raised : Option Nat
  backlog : List Nat
  sent : Nat → List UInt8
  unread : Nat → List UInt8
  closed : Nat → Bool
  replies : Nat → List UInt8
  daemon : Daemon
  connected : List Nat
  accepted : List Nat
  log : List (Nat × Outcomes × List UInt8)

inductive Event where
  | connect (i : Nat)
  | send (i : Nat) (bytes : List UInt8)
  | close (i : Nat)
  | raise
  | test
  | accept
  | timeout
  | acceptFails
  | read (o : Outcomes) (n : Nat)
  | hangUp

def Server.connect (s : Server) (i : Nat) : Option Server :=
  if i ∈ s.connected ∨ MAX_CLIENTS < s.backlog.length ∨ s.pc = .returned ∨ s.pc = .ended then none
  else some { s with connected := s.connected ++ [i], backlog := s.backlog ++ [i] }

def Server.send (s : Server) (i : Nat) (bytes : List UInt8) : Option Server :=
  if i ∈ s.connected ∧ s.closed i = false then
    some { s with
      sent := Function.update s.sent i (s.sent i ++ bytes)
      unread := Function.update s.unread i (s.unread i ++ bytes) }
  else none

def Server.raise (s : Server) : Server :=
  match s.raised with
  | none => { s with raised := some s.accepted.length }
  | some _ => s

def Server.accept (s : Server) : Option Server :=
  match s.pc, s.backlog with
  | .accepting, i :: rest =>
    some { s with pc := .serving i, backlog := rest, accepted := s.accepted ++ [i] }
  | _, _ => none

/-- A read of n bytes by handle_client, and what it does with them. One that fills the buffer,
    behind which the terminator then goes, is taken as parsed like the others. -/
def Server.read (dev : CString) (o : Outcomes) (n : Nat) (s : Server) : Option Server :=
  match s.pc with
  | .serving i =>
    if 0 < n ∧ n ≤ CMD_SIZE ∧ n ≤ (s.unread i).length then
      let bytes := (s.unread i).take n
      let s := { s with
        unread := Function.update s.unread i ((s.unread i).drop n)
        log := s.log ++ [(i, o, bytes)] }
      match handleRead dev o bytes s.daemon with
      | .error d => some { s with pc := .ended, daemon := d }
      | .ok (reply, d) => some { s with
          daemon := d
          replies := Function.update s.replies i (s.replies i ++ reply) }
    else none
  | _ => none

def Server.hangUp (s : Server) : Option Server :=
  match s.pc with
  | .serving _ => some { s with pc := .testing }
  | _ => none

def Server.step (dev : CString) (s : Server) : Event → Option Server
  | .connect i => s.connect i
  | .send i bytes => s.send i bytes
  | .close i => some { s with closed := Function.update s.closed i true }
  | .raise => some s.raise
  | .test =>
    if s.pc = .testing then
      some { s with pc := if s.raised.isSome then .returned else .accepting }
    else none
  | .accept => s.accept
  | .timeout => if s.pc = .accepting then some { s with pc := .testing } else none
  | .acceptFails => if s.pc = .accepting then some { s with pc := .returned } else none
  | .read o n => Server.read dev o n s
  | .hangUp => s.hangUp

structure Idle (s t : Server) : Prop where
  daemon : t.daemon = s.daemon
  replies : t.replies = s.replies
  log : t.log = s.log
  running : s.pc ≠ .ended → t.pc ≠ .ended

theorem step_idle {dev : CString} {s t : Server} {e : Event} (idle : ∀ o n, e ≠ .read o n)
    (next : s.step dev e = some t) :
    Idle s t ∧ (e ≠ .accept →
      t.accepted = s.accepted ∧ ∀ i, t.pc = .serving i → s.pc = .serving i) := by
  unfold Server.step at next
  cases e with
  | connect i =>
    dsimp only at next
    unfold Server.connect at next
    split at next
    · cases next
    · obtain rfl := Option.some.inj next
      exact ⟨⟨rfl, rfl, rfl, id⟩, fun _ => ⟨rfl, fun _ same => same⟩⟩
  | send i bytes =>
    dsimp only at next
    unfold Server.send at next
    split at next
    · obtain rfl := Option.some.inj next
      exact ⟨⟨rfl, rfl, rfl, id⟩, fun _ => ⟨rfl, fun _ same => same⟩⟩
    · cases next
  | close i =>
    obtain rfl := Option.some.inj next
    exact ⟨⟨rfl, rfl, rfl, id⟩, fun _ => ⟨rfl, fun _ same => same⟩⟩
  | raise =>
    obtain rfl := Option.some.inj next
    unfold Server.raise
    split
    · exact ⟨⟨rfl, rfl, rfl, id⟩, fun _ => ⟨rfl, fun _ same => same⟩⟩
    · exact ⟨⟨rfl, rfl, rfl, id⟩, fun _ => ⟨rfl, fun _ same => same⟩⟩
  | test =>
    dsimp only at next
    split at next
    · obtain rfl := Option.some.inj next
      cases raised : s.raised with
      | none => exact ⟨⟨rfl, rfl, rfl, nofun⟩, fun _ => ⟨rfl, nofun⟩⟩
      | some k => exact ⟨⟨rfl, rfl, rfl, nofun⟩, fun _ => ⟨rfl, nofun⟩⟩
    · cases next
  | accept =>
    dsimp only at next
    unfold Server.accept at next
    split at next
    · obtain rfl := Option.some.inj next
      exact ⟨⟨rfl, rfl, rfl, nofun⟩, fun other => absurd rfl other⟩
    · cases next
  | timeout =>
    dsimp only at next
    split at next
    · obtain rfl := Option.some.inj next
      exact ⟨⟨rfl, rfl, rfl, nofun⟩, fun _ => ⟨rfl, nofun⟩⟩
    · cases next
  | acceptFails =>
    dsimp only at next
    split at next
    · obtain rfl := Option.some.inj next
      exact ⟨⟨rfl, rfl, rfl, nofun⟩, fun _ => ⟨rfl, nofun⟩⟩
    · cases next
  | read o n => exact absurd rfl (idle o n)
  | hangUp =>
    dsimp only at next
    unfold Server.hangUp at next
    split at next
    · obtain rfl := Option.some.inj next
      exact ⟨⟨rfl, rfl, rfl, nofun⟩, fun _ => ⟨rfl, nofun⟩⟩
    · cases next

def ServerStep (dev : CString) (s t : Server) : Prop := ∃ e, s.step dev e = some t

def Listening (d : Daemon) (s : Server) : Prop :=
  s = ⟨.testing, none, [], fun _ => [], fun _ => [], fun _ => false, fun _ => [], d, [], [], []⟩

def turn (dev : CString) (t : Outcomes × List UInt8) (d : Daemon) :
    Except Daemon (List UInt8 × Daemon) := handleRead dev t.1 t.2 d

/-- Whole connections one after the other, in the order of accept: what they are answered, and
    the daemon behind them, running or not. -/
def Server.outcome (s : Server) : Except Daemon (List (List UInt8) × Daemon) :=
  if s.pc = .ended then .error s.daemon else .ok (s.accepted.map s.replies, s.daemon)

structure Serial (dev : CString) (d : Daemon) (s : Server) : Prop where
  fifo : s.accepted ++ s.backlog = s.connected
  once : s.connected.Nodup
  known : ∀ k ∈ s.log.map Prod.fst, k ∈ s.accepted
  current : ∀ i, s.pc = .serving i → ∃ front, s.accepted = front ++ [i]
  streams : ∀ i, (turnsOf s.log i).flatMap Prod.snd ++ s.unread i = s.sent i
  silent : ∀ i, i ∉ s.accepted → s.replies i = []
  grouped : Grouped s.accepted s.log
  result : sessions (turn dev) (s.accepted.map (turnsOf s.log)) d = s.outcome
  late : ∀ k, s.raised = some k →
    s.accepted.length ≤ k + 1 ∧ (s.pc = .accepting → s.accepted.length ≤ k)

theorem listening_serial (dev : CString) {d : Daemon} {s : Server} (listening : Listening d s) :
    Serial dev d s := by
  obtain rfl := listening
  refine ⟨rfl, List.nodup_nil, nofun, nofun, fun _ => rfl, fun _ _ => rfl, rfl, rfl, nofun⟩

section step
variable {dev : CString} {d : Daemon} {s t : Server} (inv : Serial dev d s)
include inv

theorem connect_serial {i : Nat} (done : s.connect i = some t) : Serial dev d t := by
  unfold Server.connect at done
  split at done
  · cases done
  · rename_i free
    obtain rfl := Option.some.inj done
    rw [not_or] at free
    refine ⟨?_, ?_, inv.known, inv.current, inv.streams, inv.silent, inv.grouped, inv.result,
      inv.late⟩
    · change s.accepted ++ (s.backlog ++ [i]) = s.connected ++ [i]
      rw [← List.append_assoc, inv.fifo]
    · exact List.nodup_append.mpr ⟨inv.once, List.nodup_singleton i, fun a old b new => by
        rw [List.mem_singleton.mp new]
        rintro rfl
        exact free.1 old⟩

theorem send_serial {i : Nat} {bytes : List UInt8} (done : s.send i bytes = some t) :
    Serial dev d t := by
  unfold Server.send at done
  split at done
  · obtain rfl := Option.some.inj done
    refine ⟨inv.fifo, inv.once, inv.known, inv.current, ?_, inv.silent, inv.grouped, inv.result,
      inv.late⟩
    intro j
    dsimp only
    by_cases same : j = i
    · subst same
      rw [Function.update_self, Function.update_self, ← List.append_assoc, inv.streams]
    · rw [Function.update_of_ne same, Function.update_of_ne same]
      exact inv.streams j
  · cases done

theorem raise_serial : Serial dev d s.raise := by
  unfold Server.raise
  split
  · refine ⟨inv.fifo, inv.once, inv.known, inv.current, inv.streams, inv.silent, inv.grouped,
      inv.result, ?_⟩
    intro k raised
    obtain rfl := Option.some.inj raised
    exact ⟨Nat.le_succ _, fun _ => Nat.le_refl _⟩
  · exact inv

theorem accept_serial (done : s.accept = some t) : Serial dev d t := by
  unfold Server.accept at done
  split at done
  · rename_i i rest at_pc queued
    obtain rfl := Option.some.inj done
    have fifo := inv.fifo
    rw [queued] at fifo
    have fresh : i ∉ s.accepted := by
      have once := inv.once
      rw [← fifo] at once
      intro old
      exact (List.nodup_append.mp once).2.2 i old i List.mem_cons_self rfl
    have absent : i ∉ s.log.map Prod.fst := fun logged => fresh (inv.known i logged)
    refine ⟨?_, inv.once, ?_, ?_, inv.streams, ?_, grouped_open inv.grouped absent, ?_, ?_⟩
    · rw [← fifo]
      simp
    · intro k logged
      exact List.mem_append_left _ (inv.known k logged)
    · intro j at_j
      cases at_j
      exact ⟨s.accepted, rfl⟩
    · intro j other
      exact inv.silent j fun old => other (List.mem_append_left _ old)
    · have before := inv.result
      unfold Server.outcome at before ⊢
      rw [at_pc, if_neg (by decide)] at before
      rw [if_neg nofun, List.map_append, List.map_append, List.map_singleton, List.map_singleton,
        turnsOf_absent absent, inv.silent i fresh]
      exact sessions_open (turn dev) before
    · intro k raised
      have early := (inv.late k raised).2 at_pc
      refine ⟨?_, nofun⟩
      simp only [List.length_append, List.length_singleton]
      omega
  · cases done

theorem moved_serial {pc : Pc} (running : s.pc ≠ .ended) (still : pc ≠ .ended)
    (elsewhere : ∀ i, pc ≠ .serving i) (late : pc = .accepting → s.raised = none) :
    Serial dev d { s with pc := pc } := by
  refine ⟨inv.fifo, inv.once, inv.known, fun i at_i => absurd at_i (elsewhere i), inv.streams,
    inv.silent, inv.grouped, ?_, ?_⟩
  · have before := inv.result
    unfold Server.outcome at before ⊢
    rw [if_neg running] at before
    rw [if_neg still]
    exact before
  · intro k raised
    refine ⟨(inv.late k raised).1, ?_⟩
    intro at_accept
    have none_raised := late at_accept
    change s.raised = some k at raised
    rw [none_raised] at raised
    cases raised

theorem read_records {o : Outcomes} {n i : Nat} (at_i : s.pc = .serving i) :
    ∃ front, s.accepted = front ++ [i] ∧ i ∉ front ∧
      Grouped s.accepted (s.log ++ [(i, o, (s.unread i).take n)]) ∧
      (∀ k ∈ (s.log ++ [(i, o, (s.unread i).take n)]).map Prod.fst, k ∈ s.accepted) ∧
      (∀ j, (turnsOf (s.log ++ [(i, o, (s.unread i).take n)]) j).flatMap Prod.snd ++
        Function.update s.unread i ((s.unread i).drop n) j = s.sent j) ∧
      sessions (turn dev) (s.accepted.map (turnsOf (s.log ++ [(i, o, (s.unread i).take n)]))) d =
        (handleRead dev o ((s.unread i).take n) s.daemon).map fun (reply, d) =>
          (front.map s.replies ++ [s.replies i ++ reply], d) := by
  obtain ⟨front, accepted⟩ := inv.current i at_i
  have last : i ∉ front := by
    have once := inv.once
    rw [← inv.fifo, accepted] at once
    have inner := (List.nodup_append.mp once).1
    intro old
    exact (List.nodup_append.mp inner).2.2 i old i (List.mem_singleton_self i) rfl
  refine ⟨front, accepted, last, ?_, ?_, ?_, ?_⟩
  · have old := inv.grouped
    rw [accepted] at old ⊢
    exact grouped_turn old last _
  · intro k logged
    rw [List.map_append, List.mem_append] at logged
    rcases logged with old | new
    · exact inv.known k old
    · rw [List.mem_singleton.mp new, accepted]
      exact List.mem_append_right _ (List.mem_singleton_self i)
  · intro j
    have stream := inv.streams j
    by_cases same : j = i
    · subst same
      rw [turnsOf_same, Function.update_self, List.flatMap_append, List.append_assoc,
        List.flatMap_singleton, List.take_append_drop]
      exact stream
    · rw [turnsOf_other s.log _ same, Function.update_of_ne same]
      exact stream
  · have before := inv.result
    unfold Server.outcome at before
    rw [at_i, if_neg nofun, accepted, List.map_append, List.map_append, List.map_singleton,
      List.map_singleton] at before
    have turns : s.accepted.map (turnsOf (s.log ++ [(i, o, (s.unread i).take n)])) =
        front.map (turnsOf s.log) ++ [turnsOf s.log i ++ [(o, (s.unread i).take n)]] := by
      rw [accepted, List.map_append, List.map_singleton, turnsOf_same]
      congr 1
      apply List.map_congr_left
      intro j member
      exact turnsOf_other s.log _ fun same => last (same ▸ member)
    rw [turns]
    exact sessions_turn (turn dev) before (o, (s.unread i).take n)

theorem read_serial {o : Outcomes} {n : Nat} (done : Server.read dev o n s = some t) :
    Serial dev d t := by
  unfold Server.read at done
  split at done
  · rename_i i at_i
    split at done
    · obtain ⟨front, accepted, last, grouped, known, streams, result⟩ :=
        @read_records dev d s inv o n i at_i
      dsimp only at done
      cases handled : handleRead dev o ((s.unread i).take n) s.daemon with
      | error e =>
        rw [handled] at done result
        obtain rfl := Option.some.inj done
        refine ⟨inv.fifo, inv.once, known, nofun, streams, inv.silent, grouped, ?_, ?_⟩
        · unfold Server.outcome
          rw [if_pos rfl]
          exact result
        · intro k raised
          exact ⟨(inv.late k raised).1, nofun⟩
      | ok next =>
        obtain ⟨reply, d'⟩ := next
        rw [handled] at done result
        obtain rfl := Option.some.inj done
        have running : s.pc ≠ .ended := by
          rw [at_i]
          nofun
        refine ⟨inv.fifo, inv.once, known, inv.current, streams, ?_, grouped, ?_, inv.late⟩
        · intro j other
          have differ : j ≠ i := by
            rintro rfl
            apply other
            change j ∈ s.accepted
            rw [accepted]
            exact List.mem_append_right _ (List.mem_singleton_self j)
          change Function.update s.replies i _ j = []
          rw [Function.update_of_ne differ]
          exact inv.silent j other
        · unfold Server.outcome
          rw [if_neg running]
          have answers : s.accepted.map (Function.update s.replies i (s.replies i ++ reply)) =
              front.map s.replies ++ [s.replies i ++ reply] := by
            rw [accepted, List.map_append, List.map_singleton, Function.update_self]
            congr 1
            apply List.map_congr_left
            intro j member
            have differ : j ≠ i := by
              rintro rfl
              exact last member
            exact Function.update_of_ne differ _ _
          dsimp only
          rw [answers]
          exact result
    · cases done
  · cases done

theorem hangUp_serial (done : s.hangUp = some t) : Serial dev d t := by
  unfold Server.hangUp at done
  split at done
  · rename_i i at_i
    obtain rfl := Option.some.inj done
    have running : s.pc ≠ .ended := by
      rw [at_i]
      nofun
    exact moved_serial inv running nofun nofun nofun
  · cases done

theorem step_serial (step : ServerStep dev s t) : Serial dev d t := by
  obtain ⟨e, done⟩ := step
  cases e with
  | connect i => exact connect_serial inv done
  | send i bytes => exact send_serial inv done
  | close i =>
    obtain rfl := Option.some.inj done
    exact ⟨inv.fifo, inv.once, inv.known, inv.current, inv.streams, inv.silent, inv.grouped,
      inv.result, inv.late⟩
  | raise =>
    obtain rfl := Option.some.inj done
    exact raise_serial inv
  | test =>
    unfold Server.step at done
    dsimp only at done
    split at done
    · rename_i at_test
      obtain rfl := Option.some.inj done
      have running : s.pc ≠ .ended := by
        rw [at_test]
        nofun
      refine moved_serial inv running ?_ ?_ ?_
      · cases s.raised with
        | none => nofun
        | some k => nofun
      · intro i
        cases s.raised with
        | none => nofun
        | some k => nofun
      · intro at_accept
        cases raised : s.raised with
        | none => rfl
        | some k =>
          rw [raised] at at_accept
          cases at_accept
    · cases done
  | accept => exact accept_serial inv done
  | timeout =>
    unfold Server.step at done
    dsimp only at done
    split at done
    · rename_i at_accept
      obtain rfl := Option.some.inj done
      have running : s.pc ≠ .ended := by
        rw [at_accept]
        nofun
      exact moved_serial inv running nofun nofun nofun
    · cases done
  | acceptFails =>
    unfold Server.step at done
    dsimp only at done
    split at done
    · rename_i at_accept
      obtain rfl := Option.some.inj done
      have running : s.pc ≠ .ended := by
        rw [at_accept]
        nofun
      exact moved_serial inv running nofun nofun nofun
    · cases done
  | read o n => exact read_serial inv done
  | hangUp => exact hangUp_serial inv done

end step

theorem serial_run {dev : CString} {d : Daemon} {s : Server}
    (run : Reached (Listening d) (ServerStep dev) s) : Serial dev d s :=
  reached_invariant (Serial dev d) (fun _ => listening_serial dev) (fun _ _ => step_serial) run

/-- However clients connect, send, close and the flag is raised: connections are served in the
    order in which they came, one after the other without any mixing; each read belongs to the
    bytes its client sent, in order, none lost or read twice; the daemon and what each client
    is answered are those of whole connections served one by one; and after the flag is raised
    at most one more connection is accepted. -/
theorem connections_serial {dev : CString} {d : Daemon} {s : Server}
    (run : Reached (Listening d) (ServerStep dev) s) :
    s.accepted ++ s.backlog = s.connected ∧ Grouped s.accepted s.log ∧
      (∀ i, (turnsOf s.log i).flatMap Prod.snd ++ s.unread i = s.sent i) ∧
      sessions (turn dev) (s.accepted.map (turnsOf s.log)) d = s.outcome ∧
      ∀ k, s.raised = some k → s.accepted.length ≤ k + 1 := by
  have inv := serial_run run
  exact ⟨inv.fifo, inv.grouped, inv.streams, inv.result, fun k raised => (inv.late k raised).1⟩

def listening : Server :=
  ⟨.testing, none, [], fun _ => [], fun _ => [], fun _ => false, fun _ => [], bareDaemon, [], [], []⟩

/-- Client 1 sends before client 0, which connected first and sends in two parts. -/
def twoClients : List Event :=
  [.connect 0, .connect 1, .send 1 (ascii "get_phy_if q"), .test, .accept,
    .send 0 (ascii "get_phy"), .read (fun _ => true) 7, .raise, .send 0 (ascii "_if q"),
    .read (fun _ => true) 5, .close 0, .hangUp, .test]

theorem connections_serial_of_two :
    ∃ s, twoClients.foldlM (Server.step CString.empty) listening = some s ∧ s.pc = .returned ∧
      s.replies 0 = okReply ++ okReply ∧ s.unread 1 = ascii "get_phy_if q" ∧
      sessions (turn CString.empty) (s.accepted.map (turnsOf s.log)) bareDaemon = s.outcome := by
  obtain ⟨s, run, back, replies, unread⟩ : ∃ s,
      twoClients.foldlM (Server.step CString.empty) listening = some s ∧ s.pc = .returned ∧
        s.replies 0 = okReply ++ okReply ∧ s.unread 1 = ascii "get_phy_if q" :=
    ⟨_, rfl, by decide, by decide, by decide⟩
  have start : Reached (Listening bareDaemon) (ServerStep CString.empty) listening :=
    Reached.start rfl
  obtain ⟨-, -, -, serial, -⟩ := connections_serial (reached_events start run)
  exact ⟨s, run, back, replies, unread, serial⟩

end XSKServer
