import XSKNet.DataPath
import XSKNet.Calls

/- From the physical interface to the replies. The packets that the programs hand to the socket
   of one client are the ones its receive loop finds in the rx ring, but for those the kernel
   has no frame for. The daemon, the other clients, the kernel and the loop move in any order.
   What is published has at least 42 bytes: behind the end of a shorter packet the loop reads
   what the frame held before. -/
namespace XSKWire
open CStrings XSKVeth XSKPorts XSKKernel XSKPacketClass XSKRouting XSKDataPath SharedRing XSKSocket
  XSKReceive XSKConservation XSKLedger XSKBatching XSKCalls XSKEcho Runs

structure Arrival where
  packet : Packet
  router : Router
  fate : Fate

structure Wire where
  network : Network
  router : Router
  client : Observed
  arrivals : List Arrival
  lost : Nat

/-- fd is the socket of the client. Of the packets handed to it the kernel publishes some, and
    drops others for want of a frame or of room in the rx ring. -/
inductive Travels (phy : CString) (fd : Nat) : Wire → Wire → Prop where
  | reconfigured {w : Wire} {s : Network} {r : Router}
      (event : Routed (w.network, w.router) (s, r)) :
      Travels phy fd w { w with network := s, router := r }
  | worked {w : Wire} {o : Observed} (step : Observes w.client o)
      (nothing : o.arrived = w.client.arrived) : Travels phy fd w { w with client := o }
  | elsewhere {w : Wire} {ctx : XdpMd} {fate : Fate}
      (ends : Ends phy w.network phy ctx fate) (other : fate ≠ .socket fd) :
      Travels phy fd w
        { w with arrivals := w.arrivals ++ [⟨ctx.packet, w.router, fate⟩] }
  | published {w : Wire} {ctx : XdpMd} {o : Observed}
      (ends : Ends phy w.network phy ctx (.socket fd)) (step : Observes w.client o)
      (next : o.arrived = w.client.arrived ++ [ctx.packet]) :
      Travels phy fd w { w with
        client := o
        arrivals := w.arrivals ++ [⟨ctx.packet, w.router, .socket fd⟩] }
  | overrun {w : Wire} {ctx : XdpMd} (ends : Ends phy w.network phy ctx (.socket fd)) :
      Travels phy fd w { w with
        arrivals := w.arrivals ++ [⟨ctx.packet, w.router, .socket fd⟩]
        lost := w.lost + 1 }

def Unused (phy : CString) (w : Wire) : Prop :=
  Opening phy (w.network, w.router) ∧ Opened w.client ∧ w.arrivals = [] ∧ w.lost = 0

def handedTo (fd : Nat) (arrivals : List Arrival) : List Packet :=
  (arrivals.filter fun a => a.fate = .socket fd).map Arrival.packet

/-- The router sent it there: it was ICMP, and the socket the last one opened on the port
    created last. -/
def Directed (fd : Nat) (a : Arrival) : Prop :=
  packetClass a.packet = .forwarded ∧
    ∃ q, a.router.target = some q ∧ a.router.opened q = some fd

structure Accounted (fd : Nat) (w : Wire) : Prop where
  directed : ∀ a ∈ w.arrivals, a.fate = .socket fd → Directed fd a
  ordered : w.client.arrived.Sublist (handedTo fd w.arrivals)
  counted : w.client.arrived.length + w.lost = (handedTo fd w.arrivals).length

theorem socketOn_socket {r : Router} {q : CString} {queue fd : Nat}
    (ended : Fate.socket fd = socketOn r q queue) : r.opened q = some fd := by
  unfold socketOn at ended
  by_cases first : queue = 0
  · rw [if_pos first] at ended
    cases opened : r.opened q with
    | none =>
      rw [opened] at ended
      cases ended
    | some fd' =>
      rw [opened] at ended
      cases ended
      rfl
  · rw [if_neg first] at ended
    cases ended

theorem delivers_directed {phy : CString} {r : Router} {p : Packet} {fd : Nat}
    (delivers : Delivers r phy p (.socket fd)) :
    packetClass p = .forwarded ∧ ∃ q, r.target = some q ∧ r.opened q = some fd := by
  unfold Delivers at delivers
  split at delivers
  · cases delivers
  · cases parsed : packetClass p with
    | dropped =>
      rw [parsed] at delivers
      cases delivers
    | stack =>
      rw [parsed] at delivers
      cases delivers
    | forwarded =>
      rw [parsed] at delivers
      dsimp only at delivers
      cases target : r.target with
      | none =>
        rw [target] at delivers
        cases delivers
      | some q =>
        rw [target] at delivers
        obtain ⟨queue, ended⟩ := delivers
        exact ⟨rfl, q, rfl, socketOn_socket ended⟩

theorem handedTo_here (fd : Nat) (arrivals : List Arrival) (p : Packet) (r : Router) :
    handedTo fd (arrivals ++ [⟨p, r, .socket fd⟩]) = handedTo fd arrivals ++ [p] := by
  simp [handedTo]

theorem handedTo_elsewhere {fd : Nat} {fate : Fate} (arrivals : List Arrival) (p : Packet)
    (r : Router) (other : fate ≠ .socket fd) :
    handedTo fd (arrivals ++ [⟨p, r, fate⟩]) = handedTo fd arrivals := by
  simp [handedTo, other]

theorem directed_append {fd : Nat} {arrivals : List Arrival} {a : Arrival}
    (before : ∀ b ∈ arrivals, b.fate = .socket fd → Directed fd b)
    (last : a.fate = .socket fd → Directed fd a) :
    ∀ b ∈ arrivals ++ [a], b.fate = .socket fd → Directed fd b := by
  intro b member
  rcases List.mem_append.mp member with old | new
  · exact before b old
  · rw [List.mem_singleton.mp new]
    exact last

structure Followed (phy : CString) (fd : Nat) (w : Wire) : Prop where
  routes : Routes phy w.network w.router
  client : Reached Opened Observes w.client
  accounted : Accounted fd w

theorem unused_followed {phy : CString} {fd : Nat} {w : Wire} (unused : Unused phy w) :
    Followed phy fd w := by
  obtain ⟨opening, opened, none_yet, none_lost⟩ := unused
  have nothing : w.client.arrived = [] := opened.2.2.1
  refine ⟨opening_routes opening, Reached.start opened, ?_, ?_, ?_⟩
  · intro a member
    rw [none_yet] at member
    cases member
  · rw [nothing]
    exact List.nil_sublist _
  · rw [nothing, none_lost, none_yet]
    rfl

theorem travels_followed {phy : CString} {fd : Nat} {w w' : Wire} (inv : Followed phy fd w)
    (step : Travels phy fd w w') : Followed phy fd w' := by
  obtain ⟨routes, client, directed, ordered, counted⟩ := inv
  have lands : ∀ {ctx : XdpMd}, Ends phy w.network phy ctx (.socket fd) →
      Directed fd ⟨ctx.packet, w.router, .socket fd⟩ := fun ends =>
    delivers_directed ((ends_delivers routes _ _).mp ends)
  cases step with
  | reconfigured event =>
    exact ⟨event_routes routes event, client, directed, ordered, counted⟩
  | worked step nothing =>
    refine ⟨routes, Reached.step client step, directed, ?_, ?_⟩
    · rw [nothing]
      exact ordered
    · rw [nothing]
      exact counted
  | @elsewhere ctx fate ends other =>
    refine ⟨routes, client, directed_append directed (fun there => absurd there other), ?_, ?_⟩
    · rw [handedTo_elsewhere _ _ _ other]
      exact ordered
    · rw [handedTo_elsewhere _ _ _ other]
      exact counted
  | @published ctx o ends step next =>
    refine ⟨routes, Reached.step client step, directed_append directed (fun _ => lands ends),
      ?_, ?_⟩
    · rw [handedTo_here, next]
      exact ordered.append (List.Sublist.refl _)
    · rw [handedTo_here, next, List.length_append, List.length_append]
      simp only [List.length_singleton]
      omega
  | @overrun ctx ends =>
    refine ⟨routes, client, directed_append directed (fun _ => lands ends), ?_, ?_⟩
    · rw [handedTo_here]
      exact ordered.trans (List.sublist_append_left _ _)
    · rw [handedTo_here, List.length_append, List.length_singleton]
      change w.client.arrived.length + (w.lost + 1) = _
      omega

theorem wire_run {phy : CString} {fd : Nat} {w : Wire}
    (run : Reached (Unused phy) (Travels phy fd) w) : Followed phy fd w :=
  reached_invariant (Followed phy fd) (fun _ => unused_followed) (fun _ _ => travels_followed) run

theorem replies_zip (ps : List Packet) (outcomes : List Bool) :
    (ps.zip outcomes).filterMap (fun r => replyTo r.1) =
      (ps.take outcomes.length).filterMap replyTo := by
  induction ps generalizing outcomes with
  | nil => simp
  | cons p rest ih =>
    cases outcomes with
    | nil => rfl
    | cons ok more =>
      simp only [List.zip_cons_cons, List.length_cons, List.take_succ_cons, List.filterMap_cons, ih]

/-- Between two calls of the receive loop, whatever the daemon and the other clients did:
    the frames sent are the replies to packets that the physical interface received, in the
    order they came, each packet answered once; every packet handed to the socket is answered
    or ignored, waits in the ring, or found no frame; and none was handed to it but ICMP
    packets that came while its port was the target. -/
theorem replies_follow_arrivals {phy : CString} {fd : Nat} {w : Wire}
    (run : Reached (Unused phy) (Travels phy fd) w) (between : w.client.sys.pc = .idle) :
    (∃ answered : List Packet, answered.Sublist (handedTo fd w.arrivals) ∧
      w.client.sys.sent = answered.filterMap replyTo ∧
      answered.length + w.client.sys.xsk.rx.used + w.lost =
        (handedTo fd w.arrivals).length) ∧
    ∀ a ∈ w.arrivals, a.fate = .socket fd → Directed fd a := by
  obtain ⟨-, client, directed, ordered, counted⟩ := wire_run run
  have account := observed_account client between
  rw [oneByOne_eq] at account
  have sent := congrArg Account.sent account
  change w.client.sys.sent = [] ++ (handled w.client).filterMap _ at sent
  rw [List.nil_append, handled, replies_zip] at sent
  have waiting := observed_waiting client between
  refine ⟨⟨w.client.arrived.take w.client.outcomes.length,
    (List.take_sublist _ _).trans ordered, sent, ?_⟩, directed⟩
  rw [List.length_take]
  omega

theorem reconfigured_run {phy : CString} (fd : Nat) {x : Network × Router} {o : Observed}
    (opened : Opened o) (run : Reached (Opening phy) Routed x) :
    Reached (Unused phy) (Travels phy fd) ⟨x.1, x.2, o, [], 0⟩ := by
  induction run with
  | start opening => exact Reached.start ⟨opening, opened, rfl, rfl⟩
  | step before next ih => exact Reached.step ih (Travels.reconfigured next)

theorem works_travels {phy : CString} {fd : Nat} {w : Wire} {o : Observed}
    (run : Reached (Unused phy) (Travels phy fd) w)
    (path : Relation.ReflTransGen Works w.client o) :
    Reached (Unused phy) (Travels phy fd) { w with client := o } := by
  induction path with
  | refl => exact run
  | tail before next ih =>
    obtain ⟨sendOk, rfl⟩ := next
    exact Reached.step ih (Travels.worked (worked_observes sendOk _) rfl)

def requestCtx : XdpMd where
  memory a := byteAt ping (a - 1000)
  data := 1000
  dataEnd := 1042
  rxQueueIndex := 0
  ordered := by decide
  fits := by decide

theorem requestCtx_packet : requestCtx.packet = ping := by
  unfold ping icmpFrame XdpMd.packet
  rw [Packet.mk.injEq]
  decide

/-- A request comes in, is published to the client, and its loop answers it. -/
theorem replies_follow_arrivals_of_one :
    ∃ w, Reached (Unused wlan0) (Travels wlan0 7) w ∧ handedTo 7 w.arrivals = [ping] ∧
      w.client.sys.sent = (replyTo ping).toList ∧ w.client.sys.sent.length = 1 ∧
      ∀ a ∈ w.arrivals, Directed 7 a := by
  obtain ⟨s, r, run, delivers⟩ := one_port (p := requestCtx.packet) (by decide)
  have ends := (ends_delivers (routed_run run) _ _).mpr delivers
  have size : ping.bytes.length = 42 := rfl
  obtain ⟨t, u, o, takes, nothing, publishes, next, path, between, arrived, one⟩ :=
    opened_answers bootRecord_opened ping (by decide) (by rw [size]; decide)
  rw [← requestCtx_packet] at next
  have taken : Reached (Unused wlan0) (Travels wlan0 7) ⟨s, r, t, [], 0⟩ :=
    Reached.step (reconfigured_run 7 bootRecord_opened run) (Travels.worked takes nothing)
  have reached : Reached (Unused wlan0) (Travels wlan0 7)
      ⟨s, r, o, [⟨requestCtx.packet, r, .socket 7⟩], 0⟩ :=
    works_travels (Reached.step taken (Travels.published ends publishes next)) path
  have handed : handedTo 7 [⟨requestCtx.packet, r, .socket 7⟩] = [ping] := by
    rw [← requestCtx_packet]
    exact handedTo_here 7 [] _ r
  have waiting := observed_waiting (wire_run reached).client between
  rw [one, arrived] at waiting
  obtain ⟨⟨answered, part, sent, count⟩, directed⟩ := replies_follow_arrivals reached between
  dsimp only at part sent count waiting
  rw [handed] at part count
  change 1 + _ = 1 at waiting
  change answered.length + _ + 0 = 1 at count
  have all : answered = [ping] := part.eq_of_length (by rw [List.length_singleton]; omega)
  have replies : o.sys.sent = (replyTo ping).toList := by
    rw [sent, all]
    rfl
  refine ⟨_, reached, handed, replies, by rw [replies]; decide, ?_⟩
  intro a member
  refine directed a member ?_
  rw [List.mem_singleton.mp member]

end XSKWire
