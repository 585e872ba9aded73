import XSKNet.Routing
import XSKNet.PacketClass

/- The way of a packet from the physical interface through the XDP programs, over whatever
   interfaces and maps a run of the daemon and its clients has left. -/
namespace XSKDataPath
open CStrings XSKVeth XSKInterfaces XSKPorts XSKKernel XSKPacketClass XSKRouting Runs

/- Programs on interfaces. -/

def xsksMap (s : Network) (ifname : CString) : Nat → Option Nat :=
  match s.daemon.kernel.pinned ifname with
  | some m => s.maps m
  | none => fun _ => none

/-- The map of xdp_redirect itself. Only a pinned one is ever updated. -/
def xdpDevmap (s : Network) (slot : Nat) : Option Nat :=
  if s.phy = .pinned ∧ slot = 0 then s.daemon.kernel.devmap else none

def progsOn (s : Network) (ifname : CString) : List XdpProg :=
  match s.daemon.kernel.link ifname with
  | some l => l.progs
  | none => []

def runProg (xsksMap : Nat → Option Nat) (ctx : XdpMd) : XdpProg → XdpAction
  | .redirectDummy => xdpRedirectDummyProgCtx ctx
  | .sock => xdpSockProgCtx xsksMap ctx

def dispatch (run : XdpProg → XdpAction) : List XdpProg → XdpAction
  | [] => .pass
  | prog :: rest =>
    match run prog with
    | .pass => dispatch run rest
    | action => action

def receive (phy : CString) (s : Network) (ifname : CString) (ctx : XdpMd) : XdpAction :=
  if ifname = phy then
    if s.phy = .absent then .pass else xdpRedirectCtx (xdpDevmap s) ctx
  else dispatch (runProg (xsksMap s ifname) ctx) (progsOn s ifname)

inductive Fate where
  | dropped
  | stack (ifname : CString)
  | socket (fd : Nat)
  deriving DecidableEq

/-- How a packet received on an interface can end. Redirection to an interface hands it to
    the other end of its pair, in other memory and on a queue of the kernel's choice. -/
inductive Ends (phy : CString) (s : Network) : CString → XdpMd → Fate → Prop where
  | drop {ifname : CString} {ctx : XdpMd} (action : receive phy s ifname ctx = .drop) :
      Ends phy s ifname ctx .dropped
  | pass {ifname : CString} {ctx : XdpMd} (action : receive phy s ifname ctx = .pass) :
      Ends phy s ifname ctx (.stack ifname)
  | bound {ifname : CString} {ctx : XdpMd} {queue socket : Nat}
      (action : receive phy s ifname ctx = .redirectMap queue)
      (entry : xsksMap s ifname queue = some socket) : Ends phy s ifname ctx (.socket socket)
  | unbound {ifname : CString} {ctx : XdpMd} {queue : Nat}
      (action : receive phy s ifname ctx = .redirectMap queue)
      (entry : xsksMap s ifname queue = none) : Ends phy s ifname ctx .dropped
  | crossed {ifname target peer : CString} {ctx ctx' : XdpMd} {ifindex : Nat} {fate : Fate}
      (action : receive phy s ifname ctx = .redirect ifindex)
      (found : shape s.daemon.kernel.link target = some (ifindex, peer))
      (same : ctx'.packet = ctx.packet) (rest : Ends phy s peer ctx' fate) :
      Ends phy s ifname ctx fate
  | lost {ifname : CString} {ctx : XdpMd} {ifindex : Nat}
      (action : receive phy s ifname ctx = .redirect ifindex)
      (nobody : ∀ n i peer, shape s.daemon.kernel.link n = some (i, peer) → i ≠ ifindex) :
      Ends phy s ifname ctx .dropped

section actions
variable {phy ifname : CString} {s : Network} {ctx : XdpMd} {fate : Fate}

theorem ends_drop (action : receive phy s ifname ctx = .drop) :
    Ends phy s ifname ctx fate ↔ fate = .dropped := by
  constructor
  · intro ends
    cases ends with
    | drop _ => rfl
    | unbound _ _ => rfl
    | lost _ _ => rfl
    | pass action' => cases action.symm.trans action'
    | bound action' _ => cases action.symm.trans action'
    | crossed action' _ _ _ => cases action.symm.trans action'
  · rintro rfl
    exact Ends.drop action

theorem ends_pass (action : receive phy s ifname ctx = .pass) :
    Ends phy s ifname ctx fate ↔ fate = .stack ifname := by
  constructor
  · intro ends
    cases ends with
    | pass _ => rfl
    | drop action' => cases action.symm.trans action'
    | bound action' _ => cases action.symm.trans action'
    | unbound action' _ => cases action.symm.trans action'
    | crossed action' _ _ _ => cases action.symm.trans action'
    | lost action' _ => cases action.symm.trans action'
  · rintro rfl
    exact Ends.pass action

def Fate.ofEntry : Option Nat → Fate
  | some fd => .socket fd
  | none => .dropped

theorem ends_redirectMap {queue : Nat} (action : receive phy s ifname ctx = .redirectMap queue) :
    Ends phy s ifname ctx fate ↔ fate = Fate.ofEntry (xsksMap s ifname queue) := by
  constructor
  · intro ends
    cases ends with
    | drop action' => cases action.symm.trans action'
    | pass action' => cases action.symm.trans action'
    | bound action' entry =>
      cases action.symm.trans action'
      rw [entry]
      rfl
    | unbound action' entry =>
      cases action.symm.trans action'
      rw [entry]
      rfl
    | crossed action' _ _ _ => cases action.symm.trans action'
    | lost action' _ => cases action.symm.trans action'
  · rintro rfl
    cases entry : xsksMap s ifname queue with
    | some socket => exact Ends.bound action entry
    | none => exact Ends.unbound action entry

theorem ends_redirect {ifindex : Nat} (action : receive phy s ifname ctx = .redirect ifindex) :
    Ends phy s ifname ctx fate ↔
      (∃ target peer ctx', shape s.daemon.kernel.link target = some (ifindex, peer) ∧
        XdpMd.packet ctx' = ctx.packet ∧ Ends phy s peer ctx' fate) ∨
      ((∀ n i peer, shape s.daemon.kernel.link n = some (i, peer) → i ≠ ifindex) ∧
        fate = .dropped) := by
  constructor
  · intro ends
    cases ends with
    | drop action' => cases action.symm.trans action'
    | pass action' => cases action.symm.trans action'
    | bound action' _ => cases action.symm.trans action'
    | unbound action' _ => cases action.symm.trans action'
    | crossed action' found same rest =>
      cases action.symm.trans action'
      exact Or.inl ⟨_, _, _, found, same, rest⟩
    | lost action' nobody =>
      cases action.symm.trans action'
      exact Or.inr ⟨nobody, rfl⟩
  · rintro (⟨target, peer, ctx', found, same, rest⟩ | ⟨nobody, rfl⟩)
    · exact Ends.crossed action found same rest
    · exact Ends.lost action nobody

end actions

/- What the router makes of a packet. -/

/-- A packet on a queue of the port: only the first queue has a socket. -/
def socketOn (r : Router) (p : CString) (queue : Nat) : Fate :=
  Fate.ofEntry (if queue = 0 then r.opened p else none)

def Delivers (r : Router) (phy : CString) (p : Packet) (fate : Fate) : Prop :=
  if r.phy = .absent then fate = .stack phy
  else
    match packetClass p with
    | .dropped => fate = .dropped
    | .stack => fate = .stack phy
    | .forwarded =>
      match r.target with
      | none => fate = .dropped
      | some q => ∃ queue, fate = socketOn r q queue

/- The two hops. -/

theorem receive_phy (phy : CString) {s : Network} (attached : s.phy ≠ .absent) (ctx : XdpMd) :
    receive phy s phy ctx = act (redirectToPort (xdpDevmap s)) (packetClass ctx.packet) := by
  rw [receive, if_pos rfl, if_neg attached]
  exact xdpRedirectCtx_class (xdpDevmap s) ctx

def toIndex : Option Nat → XdpAction
  | some ifindex => .redirect ifindex
  | none => .drop

theorem receive_forwarded (phy : CString) {s : Network} {ctx : XdpMd} (attached : s.phy ≠ .absent)
    (forwarded : packetClass ctx.packet = .forwarded) :
    receive phy s phy ctx =
      toIndex (if s.phy = .pinned then s.daemon.kernel.devmap else none) := by
  have slot : xdpDevmap s 0 = if s.phy = .pinned then s.daemon.kernel.devmap else none := by
    simp [xdpDevmap]
  rw [receive_phy phy attached, forwarded]
  change redirectToPort (xdpDevmap s) = _
  unfold redirectToPort
  rw [slot]
  generalize (if s.phy = .pinned then s.daemon.kernel.devmap else none) = held
  cases held with
  | none => rfl
  | some ifindex => rfl

section invariant
variable {phy : CString} {s : Network} {r : Router} (inv : Routes phy s r)
include inv

theorem receive_inner {q : CString} (registered : q ∈ keys s.daemon.veths) {ctx : XdpMd}
    (forwarded : packetClass ctx.packet = .forwarded) :
    receive phy s (innerName q) ctx =
      redirectToSocket (xsksMap s (innerName q)) ctx.rxQueueIndex := by
  obtain ⟨l, found, progs⟩ := (inv.served q registered).program
  have notPhy := inv.notPort q (inv.inStep.prefixes q registered)
  have one : progsOn s (innerName q) = [.sock] := by
    simp only [progsOn, found, progs]
  have action : runProg (xsksMap s (innerName q)) ctx .sock =
      redirectToSocket (xsksMap s (innerName q)) ctx.rxQueueIndex := by
    rw [runProg, xdpSockProgCtx_class, forwarded]
    rfl
  rw [receive, if_neg (Ne.symm notPhy), one, dispatch, action]
  unfold redirectToSocket
  split
  · rename_i passed
    split at passed
    · cases passed
    · cases passed
  · rfl

theorem entries_inner {q : CString} (registered : q ∈ keys s.daemon.veths) (queue : Nat) :
    xsksMap s (innerName q) queue = if queue = 0 then r.opened q else none := by
  obtain ⟨m, pinned, entries⟩ := (inv.served q registered).entries
  simp only [xsksMap, pinned]
  exact entries queue

theorem ends_inner {q : CString} (registered : q ∈ keys s.daemon.veths) {ctx : XdpMd}
    (forwarded : packetClass ctx.packet = .forwarded) (fate : Fate) :
    Ends phy s (innerName q) ctx fate ↔ fate = socketOn r q ctx.rxQueueIndex := by
  have action := receive_inner inv registered forwarded
  unfold socketOn
  rw [← entries_inner inv registered]
  unfold redirectToSocket at action
  cases entry : xsksMap s (innerName q) ctx.rxQueueIndex with
  | none =>
    rw [entry] at action
    exact ends_drop action
  | some socket =>
    rw [entry] at action
    rw [← entry]
    exact ends_redirectMap action

/-- With no target the slot is empty or its interface is gone. -/
theorem ends_untargeted {ctx : XdpMd} (attached : s.phy ≠ .absent)
    (forwarded : packetClass ctx.packet = .forwarded) (untargeted : r.target = none)
    (fate : Fate) : Ends phy s phy ctx fate ↔ fate = .dropped := by
  have action := receive_forwarded phy attached forwarded
  by_cases pinned : s.phy = .pinned
  · have slot := inv.aimed pinned
    rw [untargeted] at slot
    rw [if_pos pinned] at action
    cases held : s.daemon.kernel.devmap with
    | none =>
      rw [held] at action
      exact ends_drop action
    | some i =>
      rw [held] at action
      obtain ⟨-, nobody⟩ := slot i held
      rw [ends_redirect action]
      constructor
      · rintro (⟨target, peer, -, found, -⟩ | ⟨-, lost⟩)
        · exact absurd rfl (nobody _ _ _ found)
        · exact lost
      · exact fun lost => Or.inr ⟨nobody, lost⟩
  · rw [if_neg pinned] at action
    exact ends_drop action

def onQueue (ctx : XdpMd) (queue : Nat) : XdpMd := { ctx with rxQueueIndex := queue }

theorem ends_targeted {ctx : XdpMd} (forwarded : packetClass ctx.packet = .forwarded)
    {q : CString} (target : r.target = some q) (fate : Fate) :
    Ends phy s phy ctx fate ↔ ∃ queue, fate = socketOn r q queue := by
  have pinned : s.phy = .pinned := by
    by_contra other
    rw [inv.unaimed other] at target
    cases target
  have attached : s.phy ≠ .absent := by
    rw [pinned]
    decide
  have action := receive_forwarded phy attached forwarded
  have slot := inv.aimed pinned
  rw [target] at slot
  obtain ⟨registered, i, outer, held⟩ := slot
  rw [if_pos pinned, held] at action
  rw [ends_redirect action]
  constructor
  · rintro (⟨n, peer, ctx', found, same, rest⟩ | ⟨nobody, -⟩)
    · have at_outer := inv.inStep.wired.distinct _ _ _ _ _ found outer
      rw [at_outer, outer] at found
      cases found
      rw [← same] at forwarded
      exact ⟨ctx'.rxQueueIndex, (ends_inner inv registered forwarded fate).mp rest⟩
    · exact absurd rfl (nobody _ _ _ outer)
  · rintro ⟨queue, ended⟩
    have inside : packetClass (onQueue ctx queue).packet = .forwarded := forwarded
    have rest := (ends_inner inv registered inside fate).mpr ended
    exact Or.inl ⟨_, _, onQueue ctx queue, outer, rfl, rest⟩

theorem ends_delivers (ctx : XdpMd) (fate : Fate) :
    Ends phy s phy ctx fate ↔ Delivers r phy ctx.packet fate := by
  unfold Delivers
  rw [inv.attached]
  by_cases absent : s.phy = .absent
  · rw [if_pos absent]
    apply ends_pass
    rw [receive, if_pos rfl, if_pos absent]
  · rw [if_neg absent]
    have action := receive_phy phy absent ctx
    cases parsed : packetClass ctx.packet with
    | dropped =>
      rw [parsed] at action
      exact ends_drop action
    | stack =>
      rw [parsed] at action
      exact ends_pass action
    | forwarded =>
      dsimp only
      cases target : r.target with
      | none => exact ends_untargeted inv absent parsed target fate
      | some q => exact ends_targeted inv parsed target fate

theorem target_registered {q : CString} (target : r.target = some q) :
    q ∈ keys s.daemon.veths := by
  have pinned : s.phy = .pinned := by
    by_contra other
    rw [inv.unaimed other] at target
    cases target
  have slot := inv.aimed pinned
  rw [target] at slot
  exact slot.1

end invariant

/-- Over every run of the daemon and its clients, the XDP programs and maps do with every
    packet exactly what the router says: ICMP packets go to the port created last since main
    attached its program, if it has not been deleted, and there to the socket opened last; and
    that port is registered. -/
theorem packets_routed {phy : CString} {s : Network} {r : Router}
    (run : Reached (Opening phy) Routed (s, r)) :
    (∀ q, r.target = some q → q ∈ keys s.daemon.veths) ∧
      ∀ ctx fate, Ends phy s phy ctx fate ↔ Delivers r phy ctx.packet fate := by
  have inv := routed_run run
  exact ⟨fun q target => target_registered inv target, ends_delivers inv⟩

/- One port behind an interface. -/

def wlan0 : CString := ⟨ascii "wlan0", by decide⟩
def portX : CString := ⟨ascii "x", by decide⟩

theorem marker_in_names {p : CString} (hp : PortPrefix p) :
    (95 : UInt8) ∈ (innerName p).bytes ∧ (95 : UInt8) ∈ (outerName p).bytes := by
  have short : p.bytes.length ≤ 13 := hp.short
  obtain ⟨k, room⟩ : ∃ k, 15 - p.bytes.length = k + 1 := ⟨14 - p.bytes.length, by omega⟩
  rw [innerName_bytes, outerName_bytes, List.take_append, List.take_append, room]
  simp

theorem wlan0_not_port {p : CString} (hp : PortPrefix p) :
    innerName p ≠ wlan0 ∧ outerName p ≠ wlan0 := by
  obtain ⟨inner, outer⟩ := marker_in_names hp
  constructor
  · intro same
    rw [same] at inner
    exact absurd inner (by decide)
  · intro same
    rw [same] at outer
    exact absurd outer (by decide)

def wlanNetwork : Network where
  daemon := ⟨[], ⟨fun n => if n = wlan0 then some ⟨1, CString.empty, []⟩ else none, 2,
    fun _ => none, 0, none⟩, []⟩
  maps := fun _ _ => none
  phy := .absent

theorem wlan_only {n : CString} {found : Nat × CString}
    (there : shape wlanNetwork.daemon.kernel.link n = some found) :
    n = wlan0 ∧ found = (1, CString.empty) := by
  change (if n = wlan0 then some _ else none).map _ = _ at there
  split at there
  · rename_i here
    exact ⟨here, (Option.some.inj there).symm⟩
  · cases there

theorem wlan_opening : Opening wlan0 (wlanNetwork, idleRouter) := by
  have absent : ∀ n, n ≠ wlan0 → shape wlanNetwork.daemon.kernel.link n = none := by
    intro n other
    change (if n = wlan0 then some _ else none).map _ = _
    rw [if_neg other]
    rfl
  refine ⟨⟨rfl, ⟨?_, by decide, ?_, ?_⟩, ?_⟩, ⟨_, rfl, rfl⟩, rfl, ⟨?_, ?_, ?_⟩, rfl⟩
  · intro p hp
    obtain ⟨inner, outer⟩ := wlan0_not_port hp
    exact Or.inl ⟨absent _ inner, absent _ outer⟩
  · intro n i peer found
    obtain ⟨-, same⟩ := wlan_only found
    cases same
    decide
  · intro n m i a b at_n at_m
    exact (wlan_only at_n).1.trans (wlan_only at_m).1.symm
  · intro p hp present
    rw [Present, absent _ (wlan0_not_port hp).1] at present
    cases present
  · intro n m pinned
    cases pinned
  · intro n n' m pinned
    cases pinned
  · intro m _ queue
    rfl

theorem one_port {p : Packet} (icmp : packetClass p = .forwarded) :
    ∃ s r, Reached (Opening wlan0) Routed (s, r) ∧ Delivers r wlan0 p (.socket 7) := by
  obtain ⟨s₁, attached⟩ : ∃ s, wlanNetwork.step (.attachPhy true) = some s := ⟨_, rfl⟩
  obtain ⟨s₂, created⟩ : ∃ s, s₁.step (.command (fun _ => true) (.create portX)) = some s := by
    cases attached
    exact ⟨_, rfl⟩
  obtain ⟨s₃, opened⟩ : ∃ s, s₂.step (.openSocket portX 7) = some s := by
    cases attached
    cases created
    exact ⟨_, rfl⟩
  have any : NetEvent.Allowed wlanNetwork (.attachPhy true) := trivial
  have valid : NetEvent.Allowed s₁ (.command (fun _ => true) (.create portX)) := by
    cases attached
    exact ⟨fun _ _ _ _ => rfl, by decide, by decide⟩
  have plain : NetEvent.Allowed s₂ (.openSocket portX 7) := by
    change PortPrefix portX
    decide
  have run := Reached.step (Reached.step (Reached.step (Reached.start wlan_opening)
    (Routed.event _ any attached)) (Routed.event _ valid created)) (Routed.event _ plain opened)
  refine ⟨_, _, run, ?_⟩
  unfold Delivers
  rw [if_neg (by decide), icmp]
  exact ⟨0, by decide⟩

theorem packets_routed_to_one :
    ∃ s, Ends wlan0 s wlan0 pingCtx (.socket 7) := by
  obtain ⟨s, r, run, delivers⟩ := one_port (p := pingCtx.packet) (by decide)
  exact ⟨s, ((packets_routed run).2 _ _).mpr delivers⟩

end XSKDataPath
