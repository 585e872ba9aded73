import XSKNet.AcceptLoop
import XSKNet.DataPath
import XSKNet.PortOwnership

/- The network of ports behind the socket of the daemon. Clients send the requests of socket.c
   as bytes over connections; the thread reads one request at a time, and what it reads is what
   the network sees as a command. -/
namespace XSKSocketRouting
open CStrings XSKVeth XSKInterfaces XSKPorts XSKCommandSocket XSKServer XSKRouting XSKDataPath
open XSKPacketClass Sessions Runs
open XSKOwnership (requestPort requestPhyIfname removePort parse_request)

/-- The daemon with its server thread, and the rest of the network. -/
structure Wire where
  server : Server
  maps : Nat → Nat → Option Nat
  phy : PhyProgram

def Wire.network (x : Wire) : Network := ⟨x.server.daemon, x.maps, x.phy⟩

def Wire.change (x : Wire) (s : Network) : Wire :=
  ⟨{ x.server with daemon := s.daemon }, s.maps, s.phy⟩

def requestOf : PortCmd → CString
  | .create p => requestPort p
  | .delete p => removePort p

def reads : Event → Bool
  | .read _ _ => true
  | _ => false

def commands : NetEvent → Bool
  | .command _ _ => true
  | _ => false

def Wire.Receives (x : Wire) (n : Nat) (bytes : List UInt8) : Prop :=
  ∃ i, x.server.pc = .serving i ∧ (x.server.unread i).take n = bytes

/-- dev is the option of the daemon. The router follows the requests that are read. -/
inductive Wired (dev : CString) : Wire × Router → Wire × Router → Prop where
  | serve {x : Wire} {r : Router} {e : Event} {s : Server} (idle : reads e = false)
      (next : x.server.step dev e = some s) : Wired dev (x, r) ({ x with server := s }, r)
  | ask {x : Wire} {r : Router} {o : Outcomes} {n : Nat} {garbage : CString} {s : Server}
      (text : x.Receives n (requestPhyIfname garbage).bytes) (answers : o .writeReply = true)
      (next : x.server.step dev (.read o n) = some s) :
      Wired dev (x, r) ({ x with server := s }, r)
  | command {x : Wire} {r : Router} {o : Outcomes} {n : Nat} {c : PortCmd} {s : Server}
      (text : x.Receives n (requestOf c).bytes)
      (allowed : (NetEvent.command o c).Allowed x.network)
      (next : x.server.step dev (.read o n) = some s) :
      Wired dev (x, r) ({ x with server := s }, r.step (.command o c))
  | network {x : Wire} {r : Router} {e : NetEvent} {s : Network} (other : commands e = false)
      (allowed : e.Allowed x.network) (done : x.network.step e = some s) :
      Wired dev (x, r) (x.change s, r.step e)

def WireOpening (dev : CString) (x : Wire × Router) : Prop :=
  Opening dev (x.1.network, x.2) ∧ ∃ d, Listening d x.1.server

def answer (dev : CString) (bytes : List UInt8) : List UInt8 :=
  match parseRead bytes with
  | none => []
  | some (command, _) => if command = getPhyIfCommand then dev.bytes else okReply

/- The requests. -/

theorem prefix_word {p : CString} (hp : PortPrefix p) : (32 : UInt8) ∉ p.bytes := by
  intro member
  exact absurd (hp.plain 32 member).1 (by decide)

theorem parse_command {c : PortCmd} (hp : PortPrefix c.target) :
    ∃ command, parseRead (requestOf c).bytes = some (command, c.target) ∧
      command ≠ getPhyIfCommand ∧ ∀ o d, handleCommand o command c.target d =
        (c.exec o d).map fun d => (0, d) := by
  have short : c.target.length ≤ 15 := Nat.le_trans hp.short (by decide)
  cases c with
  | create p =>
    obtain ⟨data, parsed, whole⟩ :=
      parse_request createPortCommand p (by decide) (by decide) (by decide)
    rw [whole (prefix_word hp) short] at parsed
    exact ⟨createPortCommand, parsed, by decide, fun o d => handleCommand_create o p d⟩
  | delete p =>
    obtain ⟨data, parsed, whole⟩ :=
      parse_request deletePortCommand p (by decide) (by decide) (by decide)
    rw [whole (prefix_word hp) short] at parsed
    exact ⟨deletePortCommand, parsed, by decide, fun o d => handleCommand_delete o p d⟩

theorem handleRead_request {dev : CString} {o : Outcomes} {c : PortCmd} {d d' : Daemon}
    (hp : PortPrefix c.target) (done : c.exec o d = .ok d') (answers : o .writeReply = true) :
    handleRead dev o (requestOf c).bytes d = .ok (answer dev (requestOf c).bytes, d') := by
  obtain ⟨command, parsed, other, handled⟩ := parse_command hp
  unfold handleRead answer
  simp only [parsed, other, if_false, handled, done, Except.map, answers, if_true]

theorem handleRead_ask {dev : CString} {o : Outcomes} {d : Daemon} (garbage : CString)
    (answers : o .writeReply = true) :
    handleRead dev o (requestPhyIfname garbage).bytes d =
      .ok (answer dev (requestPhyIfname garbage).bytes, d) := by
  obtain ⟨data, parsed, -⟩ :=
    parse_request getPhyIfCommand garbage (by decide) (by decide) (by decide)
  have text : parseRead (requestPhyIfname garbage).bytes = some (getPhyIfCommand, data) := parsed
  unfold handleRead answer
  simp only [text, if_true, answers]

theorem command_runs {phy : PhyProgram} {o : Outcomes} (succeeds : Succeeds phy o) (c : PortCmd)
    (d : Daemon) : ∃ d', c.exec o d = .ok d' := by
  have loads : ∀ side, o (.load side) = true :=
    fun side => succeeds (.load side) nofun nofun (Or.inr rfl)
  cases c with
  | create p =>
    obtain ⟨d', created, -⟩ := create_runs (loads .outer) (loads .inner) p d
    exact ⟨d', created⟩
  | delete p => exact ⟨_, rfl⟩

/- The thread. -/

structure Answering (dev : CString) (s : Server) : Prop where
  running : s.pc ≠ .ended
  replies : ∀ i, s.replies i = (turnsOf s.log i).flatMap fun t => answer dev t.2

theorem idle_step {dev : CString} {s t : Server} {e : Event} (idle : reads e = false)
    (next : s.step dev e = some t) : Idle s t := by
  have no_read : ∀ o n, e ≠ .read o n := by
    rintro o n rfl
    cases idle
  exact (step_idle no_read next).1

theorem idle_answering {dev : CString} {s t : Server} (inv : Answering dev s)
    (idle : Idle s t) : Answering dev t := by
  refine ⟨idle.running inv.running, ?_⟩
  rw [idle.replies, idle.log]
  exact inv.replies

theorem read_answering {dev : CString} {x : Wire} {o : Outcomes} {n : Nat} {bytes : List UInt8}
    {d : Daemon} {s : Server} (inv : Answering dev x.server) (text : x.Receives n bytes)
    (handled : handleRead dev o bytes x.server.daemon = .ok (answer dev bytes, d))
    (next : x.server.step dev (.read o n) = some s) : Answering dev s ∧ s.daemon = d := by
  obtain ⟨i, at_i, same⟩ := text
  change Server.read dev o n x.server = some s at next
  unfold Server.read at next
  rw [at_i] at next
  dsimp only at next
  split at next
  · rw [same, handled] at next
    obtain rfl := Option.some.inj next
    refine ⟨⟨nofun, ?_⟩, rfl⟩
    intro j
    dsimp only
    by_cases here : j = i
    · subst here
      rw [Function.update_self, turnsOf_same, List.flatMap_append, inv.replies]
      simp
    · rw [Function.update_of_ne here, turnsOf_other _ _ here]
      exact inv.replies j
  · cases next

/- Both together. -/

theorem command_handled {dev : CString} {o : Outcomes} {c : PortCmd} {s : Network}
    (allowed : (NetEvent.command o c).Allowed s) :
    ∃ d, c.exec o s.daemon = .ok d ∧
      handleRead dev o (requestOf c).bytes s.daemon = .ok (answer dev (requestOf c).bytes, d) := by
  obtain ⟨succeeds, valid⟩ := allowed
  obtain ⟨d, done⟩ := command_runs succeeds c s.daemon
  have hp : PortPrefix c.target := by
    cases c with
    | create p => exact valid.1
    | delete p => exact valid.1
  have answers : o .writeReply = true := succeeds .writeReply nofun nofun (Or.inr rfl)
  exact ⟨d, done, handleRead_request hp done answers⟩

def Stands (dev : CString) (x : Wire × Router) (y : Network × Router) : Prop :=
  Answering dev x.1.server ∧ y = (x.1.network, x.2)

theorem wired_stands {dev : CString} {x x' : Wire × Router} {y : Network × Router}
    (stands : Stands dev x y) (step : Wired dev x x') :
    Stands dev x' y ∨ ∃ y', Routed y y' ∧ Stands dev x' y' := by
  obtain ⟨inv, rfl⟩ := stands
  cases step with
  | serve idle next =>
    left
    have same := idle_step idle next
    refine ⟨idle_answering inv same, ?_⟩
    unfold Wire.network
    rw [same.daemon]
  | ask text answers next =>
    left
    obtain ⟨answering, daemon⟩ := read_answering inv text (handleRead_ask _ answers) next
    refine ⟨answering, ?_⟩
    unfold Wire.network
    rw [daemon]
  | @command x r o n c s text allowed next =>
    right
    obtain ⟨d, done, handled⟩ := command_handled allowed
    obtain ⟨answering, daemon⟩ := read_answering inv text handled next
    have taken : x.network.step (.command o c) = some ⟨d, x.maps, x.phy⟩ := by
      unfold Network.step
      dsimp only
      rw [done]
      rfl
    refine ⟨_, Routed.event r allowed taken, answering, ?_⟩
    unfold Wire.network
    rw [daemon]
  | network other allowed done =>
    right
    exact ⟨_, Routed.event _ allowed done, ⟨inv.running, inv.replies⟩, rfl⟩

theorem wired_run {dev : CString} {x : Wire} {r : Router}
    (run : Reached (WireOpening dev) (Wired dev) (x, r)) :
    Answering dev x.server ∧ Reached (Opening dev) Routed (x.network, r) := by
  have opening : ∀ x, WireOpening dev x → ∃ y, Opening dev y ∧ Stands dev x y := by
    rintro x ⟨opening, d, listening⟩
    refine ⟨_, opening, ⟨?_, ?_⟩, rfl⟩
    · rw [listening]
      nofun
    · rw [listening]
      exact fun _ => rfl
  obtain ⟨y, routed, inv, rfl⟩ :=
    reached_simulated (Stands dev) opening (fun _ _ _ stands => wired_stands stands) run
  exact ⟨inv, routed⟩

/-- From the bytes that clients send to the packets they get: in whatever order they connect,
    send and hang up, and main attaches its program, the network is one that a run of commands
    leaves, with the router that follows the requests that were read; the packets go where it
    says, and every client has been answered, request by request. -/
theorem requests_route_packets {dev : CString} {x : Wire} {r : Router}
    (run : Reached (WireOpening dev) (Wired dev) (x, r)) :
    Reached (Opening dev) Routed (x.network, r) ∧
      (∀ ctx fate, Ends dev x.network dev ctx fate ↔ Delivers r dev ctx.packet fate) ∧
      (∀ q, r.target = some q → q ∈ keys x.server.daemon.veths) ∧
      x.server.pc ≠ .ended ∧
      ∀ i, x.server.replies i = (turnsOf x.server.log i).flatMap fun t => answer dev t.2 := by
  obtain ⟨answering, routed⟩ := wired_run run
  have inv := routed_run routed
  exact ⟨routed, ends_delivers inv, fun q target => target_registered inv target, answering.running,
    answering.replies⟩

def wlanWire : Wire where
  server := { listening with daemon := wlanNetwork.daemon }
  maps := wlanNetwork.maps
  phy := wlanNetwork.phy

theorem one_request : ∃ x r, Reached (WireOpening wlan0) (Wired wlan0) (x, r) ∧
    Delivers r wlan0 pingCtx.packet (.socket 7) ∧ x.server.replies 0 = okReply := by
  have start : Reached (WireOpening wlan0) (Wired wlan0) (wlanWire, idleRouter) :=
    Reached.start ⟨wlan_opening, _, rfl⟩
  have attached := Reached.step start (@Wired.network _ _ _ (.attachPhy true) _ rfl trivial rfl)
  have opened := Reached.step attached (@Wired.serve _ _ _ (.connect 0) _ rfl rfl)
  have tested := Reached.step opened (@Wired.serve _ _ _ .test _ rfl rfl)
  have accepted := Reached.step tested (@Wired.serve _ _ _ .accept _ rfl rfl)
  have sent := Reached.step accepted
    (@Wired.serve _ _ _ (.send 0 (requestPort portX).bytes) _ rfl rfl)
  have created := Reached.step sent (@Wired.command _ _ _ (fun _ => true) 13 (.create portX) _
    ⟨0, rfl, rfl⟩ ⟨fun _ _ _ _ => rfl, by decide, by decide⟩ rfl)
  have entered := Reached.step created (@Wired.network _ _ _ (.openSocket portX 7) _ rfl
    (by decide : PortPrefix portX) rfl)
  refine ⟨_, _, entered, ?_, rfl⟩
  have icmp : packetClass pingCtx.packet = .forwarded := by decide
  unfold Delivers
  rw [if_neg (by decide), icmp]
  exact ⟨0, by decide⟩

theorem requests_route_packets_of_one : ∃ x : Wire,
    Ends wlan0 x.network wlan0 pingCtx (.socket 7) ∧ x.server.replies 0 = okReply := by
  obtain ⟨x, r, run, delivers, reply⟩ := one_request
  exact ⟨x, ((requests_route_packets run).2.1 _ _).mpr delivers, reply⟩

end XSKSocketRouting
