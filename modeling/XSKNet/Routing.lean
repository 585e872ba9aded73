import XSKNet.RedirectTarget

/- The network the daemon and the clients build up, and beside it a router that knows only
   where ICMP packets go: to the port created last, and there to the socket opened last. The
   commands are about new or registered ports; sockets come and go between them. main starts
   the server thread before it attaches xdp_redirect, so commands may come before that. -/
namespace XSKRouting
open CStrings XSKVeth XSKInterfaces XSKPorts Runs

/-- xdp_redirect on the physical interface: not there yet, attached with its xdp_devmap not
    pinned, or attached and pinned. -/
inductive PhyProgram where
  | absent
  | unpinned
  | pinned
  deriving DecidableEq

/-- maps gives the entries of every instance of xsks_map by queue. The slot in the kernel is
    that of the xdp_devmap pinned for the physical interface, by whomever. -/
structure Network where
  daemon : Daemon
  maps : Nat → Nat → Option Nat
  phy : PhyProgram

inductive NetEvent where
  | attachPhy (pins : Bool)
  | command (o : Outcomes) (c : PortCmd)
  | openSocket (p : CString) (socket : Nat)
  | closeSocket (socket : Nat)

def setSlot (slot : Option Nat) (d : Daemon) : Daemon :=
  { d with kernel := { d.kernel with devmap := slot } }

/-- load_xdp_and_attach_to_ifname as main calls it, once. Pinning replaces the map pinned by an
    earlier daemon with a new one. -/
def attachPhy (pins : Bool) (s : Network) : Option Network :=
  match s.phy with
  | .absent =>
    if pins then some { s with daemon := setSlot none s.daemon, phy := .pinned }
    else some { s with phy := .unpinned }
  | _ => none

/-- What xsk_configure_socket does outside of the client: a socket on queue 0 of the interface,
    entered into the map that is pinned in the directory of the interface. -/
def enterXsksMap (ifname : CString) (socket : Nat) (s : Network) : Option Network :=
  match s.daemon.kernel.link ifname, s.daemon.kernel.pinned ifname with
  | some _, some m => some { s with
      maps := fun m' queue => if m' = m ∧ queue = 0 then some socket else s.maps m' queue }
  | _, _ => none

def dropSocket (socket : Nat) (s : Network) : Network :=
  { s with
    maps := fun m queue => if s.maps m queue = some socket then none else s.maps m queue }

def Network.step (s : Network) : NetEvent → Option Network
  | .attachPhy pins => attachPhy pins s
  | .command o c =>
    match c.exec o s.daemon with
    | .ok d => some { s with daemon := d }
    | .error _ => none
  | .openSocket p socket => enterXsksMap (innerName p) socket s
  | .closeSocket socket => some (dropSocket socket s)

structure Router where
  phy : PhyProgram
  target : Option CString
  opened : CString → Option Nat

def Router.command (r : Router) : PortCmd → Router
  | .create p => { r with
      target := if r.phy = .pinned then some p else r.target
      opened := fun q => if q = p then none else r.opened q }
  | .delete p => { r with target := if r.target = some p then none else r.target }

def Router.step (r : Router) : NetEvent → Router
  | .attachPhy pins => { r with phy := if pins then .pinned else .unpinned }
  | .command _ c => r.command c
  | .openSocket p socket => { r with opened := fun q => if q = p then some socket else r.opened q }
  | .closeSocket socket =>
    { r with opened := fun q => if r.opened q = some socket then none else r.opened q }

def ofDevmap : Call → Bool
  | .openDevmap => true
  | .mapInfo => true
  | .updateDevmap => true
  | _ => false

/-- Every system step succeeds; the slot may be out of reach while no map is pinned for it. -/
def Succeeds (phy : PhyProgram) (o : Outcomes) : Prop :=
  ∀ call, call ≠ .clearSlot → call ≠ .descriptor40 → (phy = .pinned ∨ ofDevmap call = false) →
    o call = true

def NetEvent.Allowed (s : Network) : NetEvent → Prop
  | .command o c => Succeeds s.phy o ∧ ValidCmd s.daemon c
  | .openSocket p _ => PortPrefix p
  | _ => True

inductive Routed : Network × Router → Network × Router → Prop where
  | event {s t : Network} (r : Router) {e : NetEvent} (allowed : e.Allowed s)
      (done : s.step e = some t) : Routed (s, r) (t, r.step e)

structure MapsFresh (s : Network) : Prop where
  old : ∀ n m, s.daemon.kernel.pinned n = some m → m < s.daemon.kernel.nextMap
  apart : ∀ n n' m, s.daemon.kernel.pinned n = some m → s.daemon.kernel.pinned n' = some m → n = n'
  unused : ∀ m, s.daemon.kernel.nextMap ≤ m → ∀ queue, s.maps m queue = none

def idleRouter : Router := ⟨.absent, none, fun _ => none⟩

/-- The interface is there, and no program on it. -/
def Unprogrammed (link : CString → Option Link) (n : CString) : Prop :=
  ∃ l, link n = some l ∧ l.progs = []

/-- The daemon has started on a system without ports, and with no program of anyone on the
    physical interface. What earlier runs have pinned, the map of targets among it, may still
    be there. -/
def Opening (phy : CString) (x : Network × Router) : Prop :=
  Clean x.1.daemon ∧ Unprogrammed x.1.daemon.kernel.link phy ∧
    x.1.phy = .absent ∧ MapsFresh x.1 ∧ x.2 = idleRouter

/-- What slot 0 has to do with the target: it holds the index of its outer interface, or of
    no interface at all. -/
def SlotNames (k : Kernel) (ports : List CString) : Option CString → Prop
  | some q => q ∈ ports ∧ ∃ i, shape k.link (outerName q) = some (i, innerName q) ∧
      k.devmap = some i
  | none => ∀ i, k.devmap = some i → i < k.nextIndex ∧
      ∀ n j peer, shape k.link n = some (j, peer) → j ≠ i

/-- The inner interface runs the one program, whose map holds what was opened on the port. -/
structure Served (s : Network) (opened : Option Nat) (q : CString) : Prop where
  program : ∃ l, s.daemon.kernel.link (innerName q) = some l ∧ l.progs = [.sock]
  entries : ∃ m, s.daemon.kernel.pinned (innerName q) = some m ∧
    ∀ queue, s.maps m queue = if queue = 0 then opened else none

structure Routes (phy : CString) (s : Network) (r : Router) : Prop where
  inStep : InStep s.daemon
  notPort : ∀ p, PortPrefix p → phy ≠ innerName p
  attached : r.phy = s.phy
  aimed : s.phy = .pinned → SlotNames s.daemon.kernel (keys s.daemon.veths) r.target
  unaimed : s.phy ≠ .pinned → r.target = none
  served : ∀ q ∈ keys s.daemon.veths, Served s (r.opened q) q
  maps : MapsFresh s

/- Commands that cannot reach the slot. -/

def reaching (o : Outcomes) : Outcomes := fun call => if ofDevmap call then true else o call

theorem reaching_ok {phy : PhyProgram} {o : Outcomes} (succeeds : Succeeds phy o) :
    AllOk (reaching o) := by
  intro call not_clear not_descriptor
  unfold reaching
  cases reach : ofDevmap call with
  | true => rfl
  | false => exact succeeds call not_clear not_descriptor (Or.inr reach)

theorem pinned_ok {o : Outcomes} (succeeds : Succeeds .pinned o) : AllOk o :=
  fun call not_clear not_descriptor => succeeds call not_clear not_descriptor (Or.inl rfl)

theorem updateDevmap_slot (o : Outcomes) (ifindex : Nat) (k : Kernel) :
    ∃ slot, (updateDevmap o ifindex k).2 = { k with devmap := slot } := by
  unfold updateDevmap
  split
  · exact ⟨k.devmap, rfl⟩
  · split
    · exact ⟨k.devmap, rfl⟩
    · split
      · exact ⟨_, rfl⟩
      · exact ⟨k.devmap, rfl⟩

/-- The slot is the last thing that create_port touches. -/
theorem create_reaching {o : Outcomes} {p : CString} {d d' : Daemon}
    (done : createPort o p d = .ok d') :
    ∃ slot, createPort (reaching o) p d = .ok (setSlot slot d') := by
  have load : ∀ side n prog pin k, loadXdpAndAttachToIfname (reaching o) side n prog pin k =
      loadXdpAndAttachToIfname o side n prog pin k := fun _ _ _ _ _ => rfl
  have script : reaching o .createScript = o .createScript := rfl
  have malloc : reaching o .malloc = o .malloc := rfl
  unfold createPort at done ⊢
  dsimp only at done ⊢
  simp only [load, script, malloc]
  generalize createVeth (o .createScript) (innerName p) (outerName p) d.kernel = k at done ⊢
  cases load₁ : loadXdpAndAttachToIfname o .outer (outerName p) .redirectDummy false k with
  | none =>
    rw [load₁] at done
    cases done
  | some first =>
    obtain ⟨err₁, k₁⟩ := first
    rw [load₁] at done
    dsimp only at done ⊢
    cases load₂ : loadXdpAndAttachToIfname o .inner (innerName p) .sock true k₁ with
    | none =>
      rw [load₂] at done
      cases done
    | some second =>
      obtain ⟨err₂, k₂⟩ := second
      rw [load₂] at done
      obtain rfl := Except.ok.inj done
      obtain ⟨slot, kernel⟩ := updateDevmap_slot (reaching o) (ifNametoindex k₂ (outerName p)) k₂
      obtain ⟨slot', kernel'⟩ := updateDevmap_slot o (ifNametoindex k₂ (outerName p)) k₂
      refine ⟨slot, ?_⟩
      unfold setSlot
      dsimp only
      rw [kernel, kernel']

theorem setSlot_inStep {d : Daemon} {slot : Option Nat} (inStep : InStep (setSlot slot d)) :
    InStep d := by
  obtain ⟨⟨pair, started, bounded, distinct⟩, nodup, prefixes, present⟩ := inStep
  exact ⟨⟨pair, started, bounded, distinct⟩, nodup, prefixes, present⟩

/- Pinned maps through the commands. -/

theorem load_pinned {o : Outcomes} (ok : AllOk o) {side : Side} {ifname : CString}
    {prog : XdpProg} {pin : Bool} {k k' : Kernel} {l : Link} {err : Int}
    (found : k.link ifname = some l)
    (loaded : loadXdpAndAttachToIfname o side ifname prog pin k = some (err, k')) :
    k'.pinned = (if pin = true then fun n => if n = ifname then some k.nextMap else k.pinned n
        else k.pinned) ∧
      k'.nextMap = if pin = true then k.nextMap + 1 else k.nextMap := by
  have loads : o (.load side) = true := ok _ (by simp) (by simp)
  have attaches : o (.attach side) = true := ok _ (by simp) (by simp)
  have program : o (.programFd side) = true := ok _ (by simp) (by simp)
  have unpins : o .unpinMaps = true := ok _ (by simp) (by simp)
  have pins : o .pinMaps = true := ok _ (by simp) (by simp)
  unfold loadXdpAndAttachToIfname pinMapsInBpfObject at loaded
  simp only [loads, found, attaches, program, unpins, pins, Bool.true_eq_false, and_false, if_false]
    at loaded
  cases pin with
  | false =>
    obtain ⟨-, rfl⟩ := Prod.mk.inj (Option.some.inj loaded)
    exact ⟨rfl, rfl⟩
  | true =>
    obtain ⟨-, rfl⟩ := Prod.mk.inj (Option.some.inj loaded)
    refine ⟨?_, rfl⟩
    funext n
    by_cases here : n = ifname
    · simp only [here, if_true]
      rfl
    · simp only [here, if_false, if_true]
      rfl

theorem create_made {o : Outcomes} {p : CString} {d : Daemon} (ok : AllOk o)
    (inStep : InStep d) (hp : PortPrefix p) (new : p ∉ keys d.veths) :
    PairMade d.kernel (createVeth (o .createScript) (innerName p) (outerName p) d.kernel) p := by
  have absent : ¬ Present d.kernel p := fun present => new ((inStep.present p hp).mpr present)
  have script : o .createScript = true := ok _ (by decide) (by decide)
  rcases createVeth_cases (o .createScript) inStep.wired hp with ⟨-, present⟩ | ⟨-, made⟩
  · exact absurd (present script) absent
  · exact made

section create
variable {o : Outcomes} {p : CString} {d d' : Daemon} (ok : AllOk o)
  (done : createPort o p d = .ok d') (inStep : InStep d) (hp : PortPrefix p)
  (new : p ∉ keys d.veths)
include ok done inStep hp new

theorem create_programs :
    d'.kernel.link (innerName p) = some ⟨d.kernel.nextIndex + 1, outerName p, [.sock]⟩ ∧
      (∀ n, n ≠ innerName p → n ≠ outerName p → d'.kernel.link n = d.kernel.link n) := by
  obtain ⟨k, made_by, -, -, link, -, -⟩ := createPort_spec done
  have made := create_made ok inStep hp new
  rw [← made_by] at made
  have attach1 : o (.attach .inner) = true := ok _ (by decide) (by decide)
  have attach2 : o (.attach .outer) = true := ok _ (by decide) (by decide)
  rw [link, attach1, attach2]
  constructor
  · have apart := inner_ne_outer hp.short hp.short
    simp [attached, made.inner, apart]
  · intro n not1 not2
    simp [attached, not1, not2, made.others n not1 not2]

theorem create_pinned :
    (∀ n, d'.kernel.pinned n =
        if n = innerName p then some d.kernel.nextMap else d.kernel.pinned n) ∧
      d'.kernel.nextMap = d.kernel.nextMap + 1 := by
  have made := create_made ok inStep hp new
  have apart := inner_ne_outer hp.short hp.short
  obtain ⟨pinned₀, next₀⟩ :=
    createVeth_pinned (o .createScript) (innerName p) (outerName p) d.kernel
  unfold createPort at done
  dsimp only at done
  generalize createVeth (o .createScript) (innerName p) (outerName p) d.kernel = k
    at made pinned₀ next₀ done
  obtain ⟨err₁, k₁, load₁, link₁, -⟩ :=
    load_spec o .outer (outerName p) .redirectDummy false k (ok _ (by decide) (by decide))
  have inner : k₁.link (innerName p) = k.link (innerName p) := by
    rw [link₁, attached, if_neg (fun here => apart here.1)]
  obtain ⟨err₂, k₂, load₂, -⟩ :=
    load_spec o .inner (innerName p) .sock true k₁ (ok _ (by decide) (by decide))
  obtain ⟨pinned₁, next₁⟩ := load_pinned ok made.outer load₁
  obtain ⟨pinned₂, next₂⟩ := load_pinned ok (inner.trans made.inner) load₂
  obtain ⟨pinned₃, next₃⟩ := updateDevmap_pinned o (ifNametoindex k₂ (outerName p)) k₂
  rw [load₁] at done
  dsimp only at done
  rw [load₂] at done
  obtain rfl := Except.ok.inj done
  simp only [if_true, Bool.false_eq_true, if_false] at pinned₁ next₁ pinned₂ next₂
  constructor
  · intro n
    rw [pinned₃, pinned₂, next₁, pinned₁, next₀, pinned₀]
  · rw [next₃, next₂, next₁, next₀]

end create

theorem delete_link_other (o : Outcomes) {p : CString} {d : Daemon} (wired : Wired d.kernel)
    (hp : PortPrefix p) {n : CString} (not1 : n ≠ innerName p) (not2 : n ≠ outerName p) :
    (deletePort o p d).kernel.link n = d.kernel.link n := by
  obtain ⟨⟨link, -, -⟩ | ⟨link, -⟩, -⟩ := deletePort_cases o wired hp
  · rw [link]
    simp [unloaded, detached, not1, not2]
  · rw [link]
    simp [removed, unloaded, detached, not1, not2]

/- The slot. -/

theorem create_slot {o : Outcomes} {p : CString} {d d' : Daemon} (ok : AllOk o)
    (done : createPort o p d = .ok d') (inStep : InStep d) (hp : PortPrefix p)
    (new : p ∉ keys d.veths) : SlotNames d'.kernel (keys d'.veths) (some p) := by
  obtain ⟨-, outer, -, devmap⟩ := create_new ok done inStep hp new
  obtain ⟨k, -, table, -⟩ := createPort_spec done
  refine ⟨?_, _, outer, devmap⟩
  rw [table, mem_keys_vethListAdd _ hp.fits]
  exact Or.inr ⟨ok _ (by decide) (by decide), rfl⟩

section delete
variable {o : Outcomes} {p : CString} {d : Daemon} (ok : AllOk o) (inStep : InStep d)
  (hp : PortPrefix p) (registered : p ∈ keys d.veths)
include ok inStep hp registered

/-- Deleting the target leaves an index that no interface has, if it leaves one at all. -/
theorem delete_slot_target (before : SlotNames d.kernel (keys d.veths) (some p)) :
    SlotNames (deletePort o p d).kernel (keys (deletePort o p d).veths) none := by
  obtain ⟨i, j, inner, outer, gone, devmap⟩ := delete_registered ok inStep hp registered
  obtain ⟨-, i', outer', slot⟩ := before
  have index := (deletePort_cases o inStep.wired hp).2
  have same : i' = j := (Prod.mk.inj (Option.some.inj (outer'.symm.trans outer))).1
  rw [slot, same] at devmap
  dsimp only at devmap
  intro left_over holds
  have named : left_over = j := by
    rw [devmap] at holds
    split at holds
    · cases holds
    · exact (Option.some.inj holds).symm
  rw [named, index]
  refine ⟨(inStep.wired.bounded _ _ _ outer).2, ?_⟩
  intro n k peer found
  rw [gone] at found
  split at found
  · cases found
  · rename_i elsewhere
    rintro rfl
    exact elsewhere (Or.inr (inStep.wired.distinct _ _ _ _ _ found outer))

theorem delete_slot_other {q : CString} (other : q ≠ p)
    (before : SlotNames d.kernel (keys d.veths) (some q)) :
    SlotNames (deletePort o p d).kernel (keys (deletePort o p d).veths) (some q) := by
  obtain ⟨i, j, inner, outer, gone, devmap⟩ := delete_registered ok inStep hp registered
  obtain ⟨at_q, i', outer_q, slot⟩ := before
  obtain ⟨-, -, not1, not2⟩ := names_apart hp (inStep.prefixes q at_q) other
  refine ⟨(delete_keys o inStep.distinct q).mpr ⟨at_q, other⟩, i', ?_, ?_⟩
  · rw [gone, if_neg (by simp [not1, not2])]
    exact outer_q
  · rw [devmap, slot]
    dsimp only
    rw [if_neg]
    rintro ⟨-, either⟩
    rcases List.mem_cons.mp either with rfl | last
    · exact not1 (inStep.wired.distinct _ _ _ _ _ outer_q inner)
    · rw [List.mem_singleton] at last
      rw [last] at outer_q
      exact not2 (inStep.wired.distinct _ _ _ _ _ outer_q outer)

theorem delete_slot_none (before : SlotNames d.kernel (keys d.veths) none) :
    SlotNames (deletePort o p d).kernel (keys (deletePort o p d).veths) none := by
  obtain ⟨i, j, -, -, gone, devmap⟩ := delete_registered ok inStep hp registered
  have index := (deletePort_cases o inStep.wired hp).2
  intro slot holds
  have held : d.kernel.devmap = some slot := by
    rw [devmap] at holds
    split at holds
    · rename_i old found
      split at holds
      · cases holds
      · rw [found, holds]
    · cases holds
  obtain ⟨bound, nobody⟩ := before slot held
  refine ⟨by omega, ?_⟩
  intro n k peer found
  rw [gone] at found
  split at found
  · cases found
  · exact nobody n k peer found

theorem delete_slot {target : Option CString}
    (before : SlotNames d.kernel (keys d.veths) target) :
    SlotNames (deletePort o p d).kernel (keys (deletePort o p d).veths)
      (if target = some p then none else target) := by
  cases target with
  | none => exact delete_slot_none ok inStep hp registered before
  | some q =>
    by_cases same : q = p
    · subst same
      rw [if_pos rfl]
      exact delete_slot_target ok inStep hp registered before
    · rw [if_neg (fun named => same (Option.some.inj named))]
      exact delete_slot_other ok inStep hp registered same before

end delete

/- The maps. -/

theorem served_same {s t : Network} {opened : Option Nat} {q : CString}
    (link : t.daemon.kernel.link (innerName q) = s.daemon.kernel.link (innerName q))
    (pinned : t.daemon.kernel.pinned (innerName q) = s.daemon.kernel.pinned (innerName q))
    (maps : t.maps = s.maps) (before : Served s opened q) : Served t opened q := by
  obtain ⟨program, entries⟩ := before
  refine ⟨?_, ?_⟩
  · rw [link]
    exact program
  · rw [pinned, maps]
    exact entries

theorem create_maps {o : Outcomes} {p : CString} {s : Network} {d' : Daemon} (ok : AllOk o)
    (done : createPort o p s.daemon = .ok d') (inStep : InStep s.daemon) (hp : PortPrefix p)
    (new : p ∉ keys s.daemon.veths) (fresh : MapsFresh s) :
    MapsFresh { s with daemon := d' } := by
  obtain ⟨old, apart, unused⟩ := fresh
  obtain ⟨pinned, next⟩ := create_pinned ok done inStep hp new
  have below : ∀ n m, d'.kernel.pinned n = some m →
      (n = innerName p ∧ m = s.daemon.kernel.nextMap) ∨
        (s.daemon.kernel.pinned n = some m ∧ m < s.daemon.kernel.nextMap) := by
    intro n m found
    rw [pinned] at found
    by_cases here : n = innerName p
    · left
      rw [if_pos here] at found
      exact ⟨here, (Option.some.inj found).symm⟩
    · right
      rw [if_neg here] at found
      exact ⟨found, old n m found⟩
  refine ⟨?_, ?_, ?_⟩
  · intro n m found
    change m < d'.kernel.nextMap
    rcases below n m found with ⟨-, rfl⟩ | ⟨-, less⟩
    · omega
    · omega
  · intro n n' m at_n at_n'
    rcases below n m at_n with ⟨rfl, made⟩ | ⟨first, less⟩
    · rcases below n' m at_n' with ⟨rfl, -⟩ | ⟨-, less⟩
      · rfl
      · omega
    · rcases below n' m at_n' with ⟨rfl, made⟩ | ⟨second, -⟩
      · omega
      · exact apart n n' m first second
  · intro m above
    change d'.kernel.nextMap ≤ m at above
    exact unused m (by omega)

theorem create_served {o : Outcomes} {p : CString} {s : Network} {r : Router} {d' : Daemon}
    (ok : AllOk o) (done : createPort o p s.daemon = .ok d') (inStep : InStep s.daemon)
    (hp : PortPrefix p) (new : p ∉ keys s.daemon.veths) (fresh : MapsFresh s)
    (before : ∀ q ∈ keys s.daemon.veths, Served s (r.opened q) q) {q : CString}
    (registered : q ∈ keys d'.veths) :
    Served { s with daemon := d' } ((r.command (.create p)).opened q) q := by
  obtain ⟨inner, others⟩ := create_programs ok done inStep hp new
  obtain ⟨pinned, -⟩ := create_pinned ok done inStep hp new
  obtain ⟨k, -, table, -⟩ := createPort_spec done
  rw [table, mem_keys_vethListAdd _ hp.fits] at registered
  by_cases same : q = p
  · -- nothing has been opened in the new instance
    subst same
    refine ⟨⟨_, inner, rfl⟩, s.daemon.kernel.nextMap, ?_, ?_⟩
    · change d'.kernel.pinned (innerName q) = _
      rw [pinned, if_pos rfl]
    · intro queue
      simp [Router.command, fresh.unused _ (Nat.le_refl _)]
  · have at_q : q ∈ keys s.daemon.veths := registered.resolve_right fun new => same new.2
    obtain ⟨not1, not2, -⟩ := names_apart hp (inStep.prefixes q at_q) same
    have opened : (r.command (.create p)).opened q = r.opened q := if_neg same
    rw [opened]
    have directory : d'.kernel.pinned (innerName q) = s.daemon.kernel.pinned (innerName q) := by
      rw [pinned, if_neg not1]
    exact served_same (others _ not1 not2) directory rfl (before q at_q)

theorem delete_served {o : Outcomes} {p : CString} {s : Network} {r : Router}
    (inStep : InStep s.daemon) (hp : PortPrefix p)
    (before : ∀ q ∈ keys s.daemon.veths, Served s (r.opened q) q) {q : CString}
    (registered : q ∈ keys (deletePort o p s.daemon).veths) :
    Served { s with daemon := deletePort o p s.daemon } (r.opened q) q := by
  obtain ⟨at_q, other⟩ := (delete_keys o inStep.distinct q).mp registered
  obtain ⟨not1, not2, -⟩ := names_apart hp (inStep.prefixes q at_q) other
  have link := delete_link_other o inStep.wired hp not1 not2
  have pinned := (deletePort_pinned o p s.daemon).1
  exact served_same link (congrFun pinned _) rfl (before q at_q)

theorem delete_maps {o : Outcomes} {p : CString} {s : Network} (fresh : MapsFresh s) :
    MapsFresh { s with daemon := deletePort o p s.daemon } := by
  obtain ⟨pinned, next⟩ := deletePort_pinned o p s.daemon
  obtain ⟨old, apart, unused⟩ := fresh
  refine ⟨?_, ?_, ?_⟩
  · simp only [pinned, next]
    exact old
  · simp only [pinned]
    exact apart
  · simp only [next]
    exact unused

/- Events. -/

theorem create_routes {phy : CString} {o : Outcomes} {p : CString} {s : Network} {r : Router}
    {d' : Daemon} (inv : Routes phy s r) (succeeds : Succeeds s.phy o)
    (valid : ValidCmd s.daemon (.create p)) (done : createPort o p s.daemon = .ok d') :
    Routes phy { s with daemon := d' } (r.command (.create p)) := by
  obtain ⟨hp, new⟩ := valid
  obtain ⟨slot, replayed⟩ := create_reaching done
  have ok := reaching_ok succeeds
  have inStep := create_inStep ok replayed inv.inStep hp new
  have maps := create_maps ok replayed inv.inStep hp new inv.maps
  refine ⟨setSlot_inStep inStep, inv.notPort, inv.attached, ?_, ?_, ?_,
    ⟨maps.old, maps.apart, maps.unused⟩⟩
  · intro pinned
    have here : s.phy = .pinned := pinned
    have aimed : (r.command (.create p)).target = some p := if_pos (inv.attached.trans here)
    rw [here] at succeeds
    rw [aimed]
    exact create_slot (pinned_ok succeeds) done inv.inStep hp new
  · intro unpinned
    have away : s.phy ≠ .pinned := unpinned
    have same : (r.command (.create p)).target = r.target :=
      if_neg (fun pinned => away (inv.attached.symm.trans pinned))
    rw [same]
    exact inv.unaimed away
  · intro q registered
    have served := create_served ok replayed inv.inStep hp new inv.maps inv.served registered
    exact ⟨served.program, served.entries⟩

theorem delete_routes {phy : CString} {o : Outcomes} {p : CString} {s : Network} {r : Router}
    (inv : Routes phy s r) (succeeds : Succeeds s.phy o)
    (valid : ValidCmd s.daemon (.delete p)) :
    Routes phy { s with daemon := deletePort o p s.daemon } (r.command (.delete p)) := by
  obtain ⟨hp, registered⟩ := valid
  have ok := reaching_ok succeeds
  -- delete_port does not touch the slot
  have same : deletePort (reaching o) p s.daemon = deletePort o p s.daemon := rfl
  have inStep := delete_inStep ok inv.inStep hp registered
  rw [same] at inStep
  refine ⟨inStep, inv.notPort, inv.attached, ?_, ?_, ?_, delete_maps inv.maps⟩
  · intro pinned
    have slot := delete_slot ok inv.inStep hp registered (inv.aimed pinned)
    rwa [same] at slot
  · intro unpinned
    have untargeted : r.target = none := inv.unaimed unpinned
    simp [Router.command, untargeted]
  · intro q still
    exact delete_served inv.inStep hp inv.served still

theorem attach_routes {phy : CString} {pins : Bool} {s t : Network} {r : Router}
    (inv : Routes phy s r) (done : attachPhy pins s = some t) :
    Routes phy t (r.step (.attachPhy pins)) := by
  unfold attachPhy at done
  split at done
  · rename_i absent
    have untargeted : r.target = none := inv.unaimed (by simp [absent])
    cases pins with
    | true =>
      obtain rfl := Option.some.inj done
      have inStep := @setSlot_inStep (setSlot none s.daemon) s.daemon.kernel.devmap inv.inStep
      refine ⟨inStep, inv.notPort, rfl, ?_, fun other => absurd rfl other, ?_,
        ⟨inv.maps.old, inv.maps.apart, inv.maps.unused⟩⟩
      · intro _
        change SlotNames _ _ r.target
        rw [untargeted]
        intro i holds
        cases holds
      · intro q registered
        exact ⟨(inv.served q registered).program, (inv.served q registered).entries⟩
    | false =>
      obtain rfl := Option.some.inj done
      refine ⟨inv.inStep, inv.notPort, rfl, nofun, fun _ => untargeted, ?_,
        ⟨inv.maps.old, inv.maps.apart, inv.maps.unused⟩⟩
      intro q registered
      exact ⟨(inv.served q registered).program, (inv.served q registered).entries⟩
  · cases done

theorem open_routes {phy : CString} {p : CString} {socket : Nat} {s t : Network} {r : Router}
    (inv : Routes phy s r) (hp : PortPrefix p)
    (done : enterXsksMap (innerName p) socket s = some t) :
    Routes phy t (r.step (.openSocket p socket)) := by
  obtain ⟨inStep, notPort, attached, aimed, unaimed, served, maps⟩ := inv
  unfold enterXsksMap at done
  split at done
  · rename_i l m found pinned
    obtain rfl := Option.some.inj done
    refine ⟨inStep, notPort, attached, aimed, unaimed, ?_, ⟨maps.old, maps.apart, ?_⟩⟩
    · intro q registered
      obtain ⟨program, m', at_q, entries⟩ := served q registered
      refine ⟨program, m', at_q, ?_⟩
      intro queue
      by_cases same : q = p
      · have here : m' = m := by
          rw [same, pinned] at at_q
          exact (Option.some.inj at_q).symm
        by_cases first : queue = 0
        · simp [Router.step, same, here, first]
        · simp [first, entries]
      · have elsewhere : m' ≠ m := by
          rintro rfl
          have names := maps.apart _ _ _ at_q pinned
          exact same (innerName_inj (inStep.prefixes q registered).short hp.short names)
        simp [Router.step, same, elsewhere, entries]
    · intro m' above queue
      have less := maps.old _ _ pinned
      have later : m' ≠ m := by
        change s.daemon.kernel.nextMap ≤ m' at above
        omega
      simp only [later, false_and, if_false]
      exact maps.unused m' above queue
  · cases done

theorem close_routes {phy : CString} {socket : Nat} {s : Network} {r : Router}
    (inv : Routes phy s r) : Routes phy (dropSocket socket s) (r.step (.closeSocket socket)) := by
  obtain ⟨inStep, notPort, attached, aimed, unaimed, served, maps⟩ := inv
  refine ⟨inStep, notPort, attached, aimed, unaimed, ?_, ⟨maps.old, maps.apart, ?_⟩⟩
  · intro q registered
    obtain ⟨program, m, at_q, entries⟩ := served q registered
    refine ⟨program, m, at_q, ?_⟩
    intro queue
    change (if s.maps m queue = some socket then none else s.maps m queue) = _
    rw [entries queue]
    by_cases first : queue = 0
    · simp only [first, if_true]
      rfl
    · simp only [first, if_false]
      rfl
  · intro m above queue
    change (if s.maps m queue = some socket then none else s.maps m queue) = _
    rw [maps.unused m above queue]
    rfl

theorem opening_routes {phy : CString} {s : Network} {r : Router} (opening : Opening phy (s, r)) :
    Routes phy s r := by
  obtain ⟨⟨empty, wired, absent⟩, phy_there, not_yet, maps, start⟩ := opening
  change r = _ at start
  subst start
  change s.phy = .absent at not_yet
  have none_registered := not_mem_keys_of_empty empty
  refine ⟨⟨wired, ?_, ?_, ?_⟩, ?_, not_yet.symm, ?_, fun _ => rfl, ?_, maps⟩
  · rw [empty]
    exact List.nodup_nil
  · exact fun q member => absurd member (none_registered q)
  · intro q hq
    exact iff_of_false (none_registered q) (absent q hq)
  · intro p hp same
    apply absent p hp
    obtain ⟨l, found, -⟩ := phy_there
    rw [Present, ← same, shape, found]
    rfl
  · intro pinned
    rw [not_yet] at pinned
    cases pinned
  · exact fun q member => absurd member (none_registered q)

theorem event_routes {phy : CString} {x y : Network × Router} (inv : Routes phy x.1 x.2)
    (step : Routed x y) : Routes phy y.1 y.2 := by
  cases step with
  | @event s t r e allowed done =>
    cases e with
    | attachPhy pins => exact attach_routes inv done
    | command o c =>
      obtain ⟨succeeds, valid⟩ := allowed
      unfold Network.step at done
      dsimp only at done
      cases result : c.exec o s.daemon with
      | error d =>
        rw [result] at done
        cases done
      | ok d' =>
        rw [result] at done
        obtain rfl := Option.some.inj done
        cases c with
        | create p => exact create_routes inv succeeds valid result
        | delete p =>
          obtain rfl := Except.ok.inj result
          exact delete_routes inv succeeds valid
    | openSocket p socket => exact open_routes inv allowed done
    | closeSocket socket =>
      obtain rfl := Option.some.inj done
      exact close_routes inv

theorem routed_run {phy : CString} {s : Network} {r : Router}
    (run : Reached (Opening phy) Routed (s, r)) : Routes phy s r :=
  reached_invariant (fun x : Network × Router => Routes phy x.1 x.2)
    (fun _ opening => opening_routes opening) (fun _ _ inv step => event_routes inv step) run

end XSKRouting
