import XSKNet.DataPath

/- main attaches xdp_redirect while the server thread already executes commands. What the two
   share is xdp_devmap: main pins the instance of its program, update_devmap opens the instance
   that is pinned and writes to it later. The commands and main are shown to move as if each
   command and the attachment were one step. -/
namespace XSKStartup
open CStrings XSKVeth XSKInterfaces XSKPorts XSKRouting Runs

/-- Where main is in load_xdp_and_attach_to_ifname; own is the xdp_devmap of its program. -/
inductive MainPc where
  | starting
  | refused
  | attached (own : Nat)
  | unpinned (own : Nat)
  | done (own : Nat) (pins : Bool)
  deriving DecidableEq

/-- The thread is between two commands, or in update_devmap behind open_bpf_map_file. -/
inductive ThreadPc where
  | between
  | updating (handle : Option Nat) (ifindex : Nat) (ok : Bool)
  deriving DecidableEq

/-- pinned is the instance in the directory of the physical interface, slot what slot 0 of each
    instance holds; the slot in daemon is not used. served records the events. -/
structure Startup where
  daemon : Daemon
  maps : Nat → Nat → Option Nat
  pinned : Option Nat
  slot : Nat → Option Nat
  main : MainPc
  thread : ThreadPc
  served : List NetEvent

def entry (ifindex : Nat) : Option Nat := if ifindex = 0 then none else some ifindex

def written (handle : Option Nat) (ifindex : Nat) (ok : Bool) (slot : Nat → Option Nat) :
    Nat → Option Nat :=
  match handle, ok with
  | some m, true => Function.update slot m (entry ifindex)
  | _, _ => slot

/-- The instance behind the result of open_bpf_map_file, where it is a descriptor of one. -/
def openPinned (o : Outcomes) (pinned : Option Nat) : Option Nat :=
  if o .openDevmap = true ∧ o .mapInfo = true then pinned else none

def createToUpdate (o : Outcomes) (p : CString) (d : Daemon) : Except Daemon (Daemon × Nat) :=
  let d := { d with veths := (vethListAdd (o .malloc) d.veths p).2 }
  let inner := innerName p
  let outer := outerName p
  let d := { d with
    kernel := createVeth (o .createScript) inner outer d.kernel
    commands := d.commands ++ [createCmd inner outer] }
  match loadXdpAndAttachToIfname o .outer outer .redirectDummy false d.kernel with
  | none => .error d
  | some (_, k) =>
    let d := { d with kernel := k }
    match loadXdpAndAttachToIfname o .inner inner .sock true d.kernel with
    | none => .error d
    | some (_, k) => .ok ({ d with kernel := k }, ifNametoindex k outer)

/-- The steps of both threads between two accesses to what they share, and the clients opening
    and closing sockets. A removed interface leaves every instance of the map, or none. A failed
    query of the map does not happen to yield another descriptor of it. -/
inductive Races : Startup → Startup → Prop where
  | attach {f : Startup} {own : Nat} (at_start : f.main = .starting) (new : f.pinned ≠ some own)
      (unopened : ∀ i ok, f.thread ≠ .updating (some own) i ok) :
      Races f { f with main := .attached own, slot := Function.update f.slot own none }
  | refuse {f : Startup} (at_start : f.main = .starting) : Races f { f with main := .refused }
  | unpin {f : Startup} {own : Nat} (at_attached : f.main = .attached own) :
      Races f { f with main := .unpinned own, pinned := none }
  | fail {f : Startup} {own : Nat} (inside : f.main = .attached own ∨ f.main = .unpinned own) :
      Races f { f with main := .done own false }
  | pin {f : Startup} {own : Nat} (at_unpinned : f.main = .unpinned own) :
      Races f { f with main := .done own true, pinned := some own }
  | create {f : Startup} {o : Outcomes} {p : CString} {d : Daemon} {i : Nat}
      (idle : f.thread = .between) (own_handle : o .mapInfo = true ∨ o .descriptor40 = false)
      (loaded : createToUpdate o p f.daemon = .ok (d, i)) :
      Races f { f with
        daemon := d
        thread := .updating (openPinned o f.pinned) i (o .updateDevmap)
        served := f.served ++ [.command o (.create p)] }
  | update {f : Startup} {handle : Option Nat} {i : Nat} {ok : Bool}
      (at_update : f.thread = .updating handle i ok) :
      Races f { f with slot := written handle i ok f.slot, thread := .between }
  | delete {f : Startup} {o : Outcomes} {p : CString} (idle : f.thread = .between) :
      Races f { f with
        daemon := deletePort o p f.daemon
        slot := fun m => (deletePort o p (setSlot (f.slot m) f.daemon)).kernel.devmap
        served := f.served ++ [.command o (.delete p)] }
  | openSocket {f : Startup} {p : CString} {socket : Nat} {n : Network}
      (entered : enterXsksMap (innerName p) socket ⟨f.daemon, f.maps, .absent⟩ = some n) :
      Races f { f with maps := n.maps, served := f.served ++ [.openSocket p socket] }
  | closeSocket {f : Startup} (socket : Nat) :
      Races f { f with
        maps := (dropSocket socket ⟨f.daemon, f.maps, .absent⟩).maps
        served := f.served ++ [.closeSocket socket] }

structure Starting (s : Network) (f : Startup) : Prop where
  daemon : f.daemon = s.daemon
  maps : f.maps = s.maps
  absent : s.phy = .absent
  main : f.main = .starting
  thread : f.thread = .between
  served : f.served = []

def phase : MainPc → PhyProgram
  | .done _ true => .pinned
  | .done _ false => .unpinned
  | _ => .absent

/-- The instance of the attached program, as long as it is not pinned. -/
def unshared : MainPc → Option Nat
  | .attached own => some own
  | .unpinned own => some own
  | .done own false => some own
  | _ => none

def settled (slot : Nat → Option Nat) : ThreadPc → Nat → Option Nat
  | .between => slot
  | .updating handle i ok => written handle i ok slot

structure Tracks (f : Startup) (s : Network) : Prop where
  daemon : s.daemon = setSlot s.daemon.kernel.devmap f.daemon
  maps : s.maps = f.maps
  phy : s.phy = phase f.main
  shared : ∀ own, f.main = .done own true →
    f.pinned = some own ∧ s.daemon.kernel.devmap = settled f.slot f.thread own
  unshared : ∀ own, unshared f.main = some own →
    f.pinned ≠ some own ∧ f.slot own = none ∧ settled f.slot f.thread own = none

/- The slot is apart from everything else that a command touches. -/

theorem createPort_split (o : Outcomes) (p : CString) (d : Daemon) :
    createPort o p d = (createToUpdate o p d).map fun (d, i) =>
      { d with kernel := (updateDevmap o i d.kernel).2 } := by
  unfold createPort createToUpdate
  dsimp only
  generalize createVeth (o .createScript) (innerName p) (outerName p) d.kernel = k
  cases load₁ : loadXdpAndAttachToIfname o .outer (outerName p) .redirectDummy false k with
  | none => rfl
  | some first =>
    dsimp only
    cases load₂ : loadXdpAndAttachToIfname o .inner (innerName p) .sock true first.2 with
    | none => rfl
    | some second => rfl

def onSlot (v : Option Nat) (k : Kernel) : Kernel := { k with devmap := v }

theorem createVeth_slot (ok : Bool) (a b : CString) (k : Kernel) (v : Option Nat) :
    createVeth ok a b (onSlot v k) = onSlot v (createVeth ok a b k) := by
  unfold createVeth
  by_cases can : ok = true ∧ CanCreate k a b
  · rw [if_pos can]
    exact if_pos can
  · rw [if_neg can]
    exact if_neg can

theorem pinMaps_slot (o : Outcomes) (subdir : CString) (k : Kernel) (v : Option Nat) :
    pinMapsInBpfObject o subdir (onSlot v k) =
      ((pinMapsInBpfObject o subdir k).1, onSlot v (pinMapsInBpfObject o subdir k).2) := by
  unfold pinMapsInBpfObject onSlot
  dsimp only
  split
  · rfl
  · split
    · rfl
    · rfl

theorem setLink_slot (name : CString) (l : Option Link) (k : Kernel) (v : Option Nat) :
    (onSlot v k).setLink name l = onSlot v (k.setLink name l) := rfl

theorem load_slot (o : Outcomes) (side : Side) (ifname : CString) (prog : XdpProg) (pin : Bool)
    (k : Kernel) (v : Option Nat) :
    loadXdpAndAttachToIfname o side ifname prog pin (onSlot v k) =
      (loadXdpAndAttachToIfname o side ifname prog pin k).map fun r => (r.1, onSlot v r.2) := by
  have link : (onSlot v k).link = k.link := rfl
  unfold loadXdpAndAttachToIfname
  simp only [link, setLink_slot, pinMaps_slot]
  split
  · rfl
  · split
    · rfl
    · split
      · rfl
      · split
        · rfl
        · split
          · rfl
          · rfl

theorem createToUpdate_slot {o : Outcomes} {p : CString} {d d' : Daemon} {i : Nat}
    (loaded : createToUpdate o p d = .ok (d', i)) (v : Option Nat) :
    createToUpdate o p (setSlot v d) = .ok (setSlot v d', i) := by
  have kernel : (setSlot v d).kernel = onSlot v d.kernel := rfl
  unfold createToUpdate at loaded ⊢
  dsimp only at loaded
  simp only [kernel, createVeth_slot, load_slot]
  generalize createVeth (o .createScript) (innerName p) (outerName p) d.kernel = k at loaded ⊢
  cases load₁ : loadXdpAndAttachToIfname o .outer (outerName p) .redirectDummy false k with
  | none =>
    rw [load₁] at loaded
    cases loaded
  | some first =>
    rw [load₁] at loaded
    simp only [Option.map_some, load_slot] at loaded ⊢
    cases load₂ : loadXdpAndAttachToIfname o .inner (innerName p) .sock true first.2 with
    | none =>
      rw [load₂] at loaded
      cases loaded
    | some second =>
      rw [load₂] at loaded
      obtain ⟨rfl, rfl⟩ := Prod.mk.inj (Except.ok.inj loaded)
      rfl

theorem unload_slot (o : Outcomes) (side : Side) (ifname : CString) (k : Kernel)
    (v : Option Nat) :
    (unloadXdpFromIfname o side ifname (onSlot v k)).2 =
      onSlot v (unloadXdpFromIfname o side ifname k).2 := by
  have link : (onSlot v k).link = k.link := rfl
  unfold unloadXdpFromIfname
  simp only [link, setLink_slot]
  split
  · rfl
  · split
    · rfl
    · split
      · rfl
      · rfl

theorem deleteVeth_slot (ok clears : Bool) (veth : CString) (k : Kernel) (v : Option Nat) :
    ∃ w, deleteVeth ok clears veth (onSlot v k) = onSlot w (deleteVeth ok clears veth k) ∧
      (v = none → w = none) := by
  have link : (onSlot v k).link = k.link := rfl
  unfold deleteVeth
  simp only [link]
  cases found : k.link veth with
  | none => exact ⟨v, rfl, id⟩
  | some l =>
    cases ok with
    | false => exact ⟨v, rfl, id⟩
    | true =>
      refine ⟨_, rfl, ?_⟩
      rintro rfl
      rfl

theorem deletePort_slot (o : Outcomes) (p : CString) (d : Daemon) (v : Option Nat) :
    ∃ w, deletePort o p (setSlot v d) = setSlot w (deletePort o p d) ∧
      (v = none → w = none) := by
  have kernel : (setSlot v d).kernel = onSlot v d.kernel := rfl
  obtain ⟨w, deleted, emptied⟩ := deleteVeth_slot (o .deleteScript) (o .clearSlot) (innerName p)
    (unloadXdpFromIfname o .inner (innerName p)
      (unloadXdpFromIfname o .outer (outerName p) d.kernel).2).2 v
  refine ⟨w, ?_, emptied⟩
  unfold deletePort
  simp only [kernel, unload_slot, deleted]
  rfl

theorem deletePort_devmap (o : Outcomes) (p : CString) (d : Daemon) (v : Option Nat) :
    deletePort o p (setSlot v d) =
      setSlot (deletePort o p (setSlot v d)).kernel.devmap (deletePort o p d) := by
  obtain ⟨w, deleted, -⟩ := deletePort_slot o p d v
  rw [deleted]
  rfl

theorem written_other {handle : Option Nat} {own : Nat} (other : handle ≠ some own) (i : Nat)
    (ok : Bool) (slot : Nat → Option Nat) : written handle i ok slot own = slot own := by
  unfold written
  split
  · rename_i m
    have differ : own ≠ m := by
      rintro rfl
      exact other rfl
    exact Function.update_of_ne differ _ _
  · rfl

theorem updateDevmap_written {o : Outcomes} {k : Kernel} {slot : Nat → Option Nat} {own : Nat}
    (own_handle : o .mapInfo = true ∨ o .descriptor40 = false) (agree : k.devmap = slot own)
    (i : Nat) :
    (updateDevmap o i k).2.devmap =
      written (openPinned o (some own)) i (o .updateDevmap) slot own := by
  unfold updateDevmap openDevmapFile openPinned
  cases opens : o .openDevmap with
  | false => exact agree
  | true =>
    cases query : o .mapInfo with
    | false =>
      have strange : o .descriptor40 = false := by simpa [query] using own_handle
      cases updates : o .updateDevmap with
      | false => exact agree
      | true => simpa [strange, written] using agree
    | true =>
      cases updates : o .updateDevmap with
      | false => exact agree
      | true => exact (Function.update_self own (entry i) slot).symm

/- What the steps keep. -/

theorem starting_tracks {s : Network} {f : Startup} (starting : Starting s f) : Tracks f s := by
  obtain ⟨daemon, maps, absent, main, thread, -⟩ := starting
  refine ⟨?_, maps.symm, ?_, ?_, ?_⟩
  · rw [daemon]
    rfl
  · rw [absent, main]
    rfl
  · intro own there
    rw [main] at there
    cases there
  · intro own there
    rw [main] at there
    cases there

section main
variable {f : Startup} {s : Network} (inv : Tracks f s)
include inv

theorem attach_tracks {own : Nat} (at_start : f.main = .starting) (new : f.pinned ≠ some own)
    (unopened : ∀ i ok, f.thread ≠ .updating (some own) i ok) :
    Tracks { f with main := .attached own, slot := Function.update f.slot own none } s := by
  have same : phase f.main = .absent := by
    rw [at_start]
    rfl
  refine ⟨inv.daemon, inv.maps, inv.phy.trans same, nofun, ?_⟩
  intro own' there
  obtain rfl := Option.some.inj there
  have empty : Function.update f.slot own none own = none := Function.update_self ..
  refine ⟨new, empty, ?_⟩
  unfold settled
  cases at_thread : f.thread with
  | between => exact empty
  | updating handle i ok =>
    have other : handle ≠ some own := by
      rintro rfl
      exact unopened i ok at_thread
    exact (written_other other i ok _).trans empty

theorem refuse_tracks (at_start : f.main = .starting) :
    Tracks { f with main := .refused } s := by
  have same : phase f.main = .absent := by
    rw [at_start]
    rfl
  exact ⟨inv.daemon, inv.maps, inv.phy.trans same, nofun, nofun⟩

theorem unpin_tracks {own : Nat} (at_attached : f.main = .attached own) :
    Tracks { f with main := .unpinned own, pinned := none } s := by
  have same : phase f.main = .absent := by
    rw [at_attached]
    rfl
  refine ⟨inv.daemon, inv.maps, inv.phy.trans same, nofun, ?_⟩
  intro own' there
  obtain rfl := Option.some.inj there
  have before : unshared f.main = some own := by
    rw [at_attached]
    rfl
  exact ⟨nofun, (inv.unshared own before).2⟩

theorem fail_tracks {own : Nat} (inside : f.main = .attached own ∨ f.main = .unpinned own) :
    ∃ t, s.step (.attachPhy false) = some t ∧ Tracks { f with main := .done own false } t := by
  have absent : s.phy = .absent := by
    rw [inv.phy]
    rcases inside with at_main | at_main
    · rw [at_main]
      rfl
    · rw [at_main]
      rfl
  have before : unshared f.main = some own := by
    rcases inside with at_main | at_main
    · rw [at_main]
      rfl
    · rw [at_main]
      rfl
  refine ⟨{ s with phy := .unpinned }, ?_, inv.daemon, inv.maps, rfl, nofun, ?_⟩
  · unfold Network.step attachPhy
    rw [absent]
    rfl
  · intro own' there
    obtain rfl := Option.some.inj there
    exact inv.unshared own before

/-- Before it is pinned no update can have reached the map. -/
theorem pin_tracks {own : Nat} (at_unpinned : f.main = .unpinned own) :
    ∃ t, s.step (.attachPhy true) = some t ∧
      Tracks { f with main := .done own true, pinned := some own } t := by
  have absent : s.phy = .absent := by
    rw [inv.phy, at_unpinned]
    rfl
  have before : unshared f.main = some own := by
    rw [at_unpinned]
    rfl
  have empty := (inv.unshared own before).2.2
  refine ⟨{ s with daemon := setSlot none s.daemon, phy := .pinned }, ?_, ?_, inv.maps, rfl, ?_,
    nofun⟩
  · unfold Network.step attachPhy
    rw [absent]
    rfl
  · change setSlot none s.daemon = setSlot none f.daemon
    rw [inv.daemon]
    rfl
  · intro own' there
    cases there
    exact ⟨rfl, empty.symm⟩

end main

section thread
variable {f : Startup} {s : Network} (inv : Tracks f s)
include inv

/-- The command counts from when it opens the map: what it opens is what it writes to, also
    when main pins another instance in between. -/
theorem create_tracks {o : Outcomes} {p : CString} {d : Daemon} {i : Nat}
    (idle : f.thread = .between) (own_handle : o .mapInfo = true ∨ o .descriptor40 = false)
    (loaded : createToUpdate o p f.daemon = .ok (d, i)) :
    ∃ t, s.step (.command o (.create p)) = some t ∧ Tracks { f with
      daemon := d
      thread := .updating (openPinned o f.pinned) i (o .updateDevmap)
      served := f.served ++ [.command o (.create p)] } t := by
  have loaded' : createToUpdate o p s.daemon = .ok (setSlot s.daemon.kernel.devmap d, i) := by
    rw [inv.daemon]
    exact createToUpdate_slot loaded _
  have created : createPort o p s.daemon = .ok (setSlot
      (updateDevmap o i (onSlot s.daemon.kernel.devmap d.kernel)).2.devmap d) := by
    rw [createPort_split, loaded']
    obtain ⟨v, kernel⟩ := updateDevmap_slot o i (onSlot s.daemon.kernel.devmap d.kernel)
    change Except.ok { d with
      kernel := (updateDevmap o i (onSlot s.daemon.kernel.devmap d.kernel)).2 } = _
    rw [kernel]
    rfl
  have stepped : s.step (.command o (.create p)) = some ⟨setSlot
      (updateDevmap o i (onSlot s.daemon.kernel.devmap d.kernel)).2.devmap d, s.maps, s.phy⟩ := by
    unfold Network.step PortCmd.exec
    dsimp only
    rw [created]
  refine ⟨_, stepped, rfl, inv.maps, inv.phy, ?_, ?_⟩
  · intro own there
    obtain ⟨pinned, slot⟩ := inv.shared own there
    rw [idle] at slot
    change _ = f.slot own at slot
    refine ⟨pinned, ?_⟩
    change (updateDevmap o i (onSlot s.daemon.kernel.devmap d.kernel)).2.devmap =
      written (openPinned o f.pinned) i (o .updateDevmap) f.slot own
    rw [pinned]
    refine updateDevmap_written own_handle ?_ i
    exact slot
  · intro own there
    obtain ⟨other, empty, -⟩ := inv.unshared own there
    refine ⟨other, empty, ?_⟩
    have unopened : openPinned o f.pinned ≠ some own := by
      unfold openPinned
      split
      · exact other
      · nofun
    exact (written_other unopened i _ f.slot).trans empty

theorem update_tracks {handle : Option Nat} {i : Nat} {ok : Bool}
    (at_update : f.thread = .updating handle i ok) :
    Tracks { f with slot := written handle i ok f.slot, thread := .between } s := by
  have same : settled f.slot f.thread = written handle i ok f.slot := by
    rw [at_update]
    rfl
  refine ⟨inv.daemon, inv.maps, inv.phy, ?_, ?_⟩
  · intro own there
    obtain ⟨pinned, slot⟩ := inv.shared own there
    exact ⟨pinned, slot.trans (congrFun same own)⟩
  · intro own there
    obtain ⟨other, -, empty⟩ := inv.unshared own there
    rw [same] at empty
    exact ⟨other, empty, empty⟩

theorem delete_tracks {o : Outcomes} {p : CString} (idle : f.thread = .between) :
    ∃ t, s.step (.command o (.delete p)) = some t ∧ Tracks { f with
      daemon := deletePort o p f.daemon
      slot := fun m => (deletePort o p (setSlot (f.slot m) f.daemon)).kernel.devmap
      served := f.served ++ [.command o (.delete p)] } t := by
  refine ⟨{ s with daemon := deletePort o p s.daemon }, rfl, ?_, inv.maps, inv.phy, ?_, ?_⟩
  · change deletePort o p s.daemon = setSlot (deletePort o p s.daemon).kernel.devmap
      (deletePort o p f.daemon)
    rw [inv.daemon]
    exact deletePort_devmap o p f.daemon _
  · intro own there
    obtain ⟨pinned, slot⟩ := inv.shared own there
    rw [idle] at slot
    refine ⟨pinned, ?_⟩
    change (deletePort o p s.daemon).kernel.devmap = settled _ f.thread own
    rw [idle, inv.daemon, slot]
    rfl
  · intro own there
    obtain ⟨other, empty, -⟩ := inv.unshared own there
    have still : (deletePort o p (setSlot (f.slot own) f.daemon)).kernel.devmap = none := by
      obtain ⟨w, deleted, emptied⟩ := deletePort_slot o p f.daemon (f.slot own)
      rw [deleted]
      exact emptied empty
    refine ⟨other, still, ?_⟩
    change settled _ f.thread own = none
    rw [idle]
    exact still

theorem openSocket_tracks {p : CString} {socket : Nat} {n : Network}
    (entered : enterXsksMap (innerName p) socket ⟨f.daemon, f.maps, .absent⟩ = some n) :
    ∃ t, s.step (.openSocket p socket) = some t ∧
      Tracks { f with maps := n.maps, served := f.served ++ [.openSocket p socket] } t := by
  obtain ⟨daemon, maps, phy, shared, unshared⟩ := inv
  have link : s.daemon.kernel.link = f.daemon.kernel.link := by
    rw [daemon]
    rfl
  have pinned : s.daemon.kernel.pinned = f.daemon.kernel.pinned := by
    rw [daemon]
    rfl
  refine ⟨{ s with maps := n.maps }, ?_, daemon, rfl, phy, shared, unshared⟩
  unfold enterXsksMap at entered
  change enterXsksMap (innerName p) socket s = _
  unfold enterXsksMap
  rw [link, pinned, maps]
  split at entered
  · rename_i l m found at_p
    obtain rfl := Option.some.inj entered
    rw [found, at_p]
  · cases entered

theorem closeSocket_tracks (socket : Nat) :
    ∃ t, s.step (.closeSocket socket) = some t ∧ Tracks { f with
      maps := (dropSocket socket ⟨f.daemon, f.maps, .absent⟩).maps
      served := f.served ++ [.closeSocket socket] } t := by
  refine ⟨dropSocket socket s, rfl, inv.daemon, ?_, inv.phy, inv.shared, inv.unshared⟩
  change (fun m queue => if s.maps m queue = some socket then none else s.maps m queue) = _
  rw [inv.maps]
  rfl

end thread

/- Whole runs. -/

def serves : NetEvent → Bool
  | .attachPhy _ => false
  | _ => true

/-- The serial run in which each event that was served is one step, and the attachment by main
    another one. -/
structure Serial (s₀ : Network) (f : Startup) (events : List NetEvent) (s : Network) : Prop where
  run : events.foldlM Network.step s₀ = some s
  served : events.filter serves = f.served
  tracks : Tracks f s

theorem foldlM_concat {events : List NetEvent} {e : NetEvent} {s₀ s t : Network}
    (before : events.foldlM Network.step s₀ = some s) (next : s.step e = some t) :
    (events ++ [e]).foldlM Network.step s₀ = some t := by
  rw [List.foldlM_append, before]
  simpa using next

theorem serial_served {s₀ s t : Network} {f g : Startup} {events : List NetEvent} {e : NetEvent}
    (serial : Serial s₀ f events s) (serving : serves e = true)
    (record : g.served = f.served ++ [e]) (next : s.step e = some t) (tracks : Tracks g t) :
    Serial s₀ g (events ++ [e]) t := by
  refine ⟨foldlM_concat serial.run next, ?_, tracks⟩
  rw [List.filter_append, serial.served, record]
  simp [serving]

theorem serial_attached {s₀ s t : Network} {f g : Startup} {events : List NetEvent} {pins : Bool}
    (serial : Serial s₀ f events s) (record : g.served = f.served)
    (next : s.step (.attachPhy pins) = some t) (tracks : Tracks g t) :
    Serial s₀ g (events ++ [.attachPhy pins]) t := by
  refine ⟨foldlM_concat serial.run next, ?_, tracks⟩
  rw [List.filter_append, serial.served, record]
  simp [serves]

theorem races_serial {s₀ s : Network} {f g : Startup} {events : List NetEvent}
    (serial : Serial s₀ f events s) (step : Races f g) :
    ∃ events' t, Serial s₀ g events' t := by
  have inv := serial.tracks
  cases step with
  | attach at_start new unopened =>
    exact ⟨events, s, serial.run, serial.served, attach_tracks inv at_start new unopened⟩
  | refuse at_start => exact ⟨events, s, serial.run, serial.served, refuse_tracks inv at_start⟩
  | unpin at_attached =>
    exact ⟨events, s, serial.run, serial.served, unpin_tracks inv at_attached⟩
  | fail inside =>
    obtain ⟨t, next, tracks⟩ := fail_tracks inv inside
    exact ⟨_, t, serial_attached serial rfl next tracks⟩
  | pin at_unpinned =>
    obtain ⟨t, next, tracks⟩ := pin_tracks inv at_unpinned
    exact ⟨_, t, serial_attached serial rfl next tracks⟩
  | create idle own_handle loaded =>
    obtain ⟨t, next, tracks⟩ := create_tracks inv idle own_handle loaded
    exact ⟨_, t, serial_served serial rfl rfl next tracks⟩
  | update at_update =>
    exact ⟨events, s, serial.run, serial.served, update_tracks inv at_update⟩
  | delete idle =>
    obtain ⟨t, next, tracks⟩ := delete_tracks inv idle
    exact ⟨_, t, serial_served serial rfl rfl next tracks⟩
  | openSocket entered =>
    obtain ⟨t, next, tracks⟩ := openSocket_tracks inv entered
    exact ⟨_, t, serial_served serial rfl rfl next tracks⟩
  | closeSocket socket =>
    obtain ⟨t, next, tracks⟩ := closeSocket_tracks inv socket
    exact ⟨_, t, serial_served serial rfl rfl next tracks⟩

theorem races_run {s₀ : Network} {f : Startup} (run : Reached (Starting s₀) Races f) :
    ∃ events s, Serial s₀ f events s := by
  induction run with
  | start starting =>
    refine ⟨[], s₀, rfl, ?_, starting_tracks starting⟩
    rw [starting.served]
    rfl
  | step before next ih =>
    obtain ⟨events, s, serial⟩ := ih
    exact races_serial serial next

/-- However the steps of main and of the thread fall, what the daemon and its maps have become
    is what they become when every command and the attachment is one step, and the commands
    come in the order in which they were served. Between two commands the pinned map agrees
    too; a map that main has not pinned is empty all along. -/
theorem startup_linearizable {s₀ : Network} {f : Startup}
    (run : Reached (Starting s₀) Races f) :
    ∃ (events : List NetEvent) (s : Network), events.foldlM Network.step s₀ = some s ∧
      events.filter serves = f.served ∧ s.maps = f.maps ∧ s.phy = phase f.main ∧
      s.daemon = setSlot s.daemon.kernel.devmap f.daemon ∧
      (∀ own, f.main = .done own true → f.thread = .between →
        f.pinned = some own ∧ s.daemon.kernel.devmap = f.slot own) ∧
      (∀ own, unshared f.main = some own → f.slot own = none) := by
  obtain ⟨events, s, serial, served, inv⟩ := races_run run
  refine ⟨events, s, serial, served, inv.maps, inv.phy, inv.daemon, ?_, ?_⟩
  · intro own there idle
    obtain ⟨pinned, slot⟩ := inv.shared own there
    rw [idle] at slot
    exact ⟨pinned, slot⟩
  · intro own there
    exact (inv.unshared own there).2.1

def staleStartup : Startup where
  daemon := XSKDataPath.wlanNetwork.daemon
  maps := XSKDataPath.wlanNetwork.maps
  pinned := some 7
  slot := fun _ => none
  main := .starting
  thread := .between
  served := []

theorem stale_run : ∃ f o, Reached (Starting XSKDataPath.wlanNetwork) Races f ∧
    f.served = [.command o (.create XSKDataPath.portX)] ∧ f.main = .done 8 true ∧
    f.thread = .between ∧ f.slot 7 = some 2 ∧ f.slot 8 = none := by
  have loaded : ∃ d, createToUpdate (fun _ => true) XSKDataPath.portX staleStartup.daemon =
      .ok (d, 2) := ⟨_, rfl⟩
  obtain ⟨d, loaded⟩ := loaded
  have first : Starting XSKDataPath.wlanNetwork staleStartup := ⟨rfl, rfl, rfl, rfl, rfl, rfl⟩
  have attached := Reached.step (Reached.start first) (@Races.attach staleStartup 8 rfl nofun nofun)
  have created := Reached.step attached (Races.create rfl (Or.inl rfl) loaded)
  have unpinned := Reached.step created (Races.unpin rfl)
  have pinned := Reached.step unpinned (Races.pin rfl)
  have updated := Reached.step pinned (Races.update rfl)
  exact ⟨_, _, updated, rfl, rfl, rfl, rfl, rfl⟩

/-- In the serial run the attachment comes after the port, which gets no packets. -/
theorem startup_linearizable_stale : ∃ (o : Outcomes) (events : List NetEvent) (s : Network),
    events.foldlM Network.step XSKDataPath.wlanNetwork = some s ∧
      events.filter serves = [.command o (.create XSKDataPath.portX)] ∧
      s.phy = .pinned ∧ s.daemon.kernel.devmap = none := by
  obtain ⟨f, o, run, served, main, idle, -, empty⟩ := stale_run
  obtain ⟨events, s, serial, order, -, phy, -, agree, -⟩ := startup_linearizable run
  refine ⟨o, events, s, serial, order.trans served, ?_, ?_⟩
  · rw [phy, main]
    rfl
  · rw [(agree 8 main idle).2, empty]

end XSKStartup
