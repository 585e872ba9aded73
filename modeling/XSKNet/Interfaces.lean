import XSKNet.ShellWords

/- What the daemon acts on in the kernel: network interfaces with their XDP programs,
   the pinned maps, and slot 0 of xdp_devmap. The functions of xdp_utils.c and the two
   scripts are modelled by their effect on it, with the outcome of every call that can
   fail given by the environment. -/
namespace XSKInterfaces
open CStrings ShellWords

def EXIT_OK : Int := 0
def EXIT_FAIL_OPTION : Int := 2
def EXIT_FAIL_XDP : Int := 30
def EXIT_FAIL_BPF : Int := 40

inductive XdpProg where
  | redirectDummy
  | sock
  deriving DecidableEq

/-- One end of a veth pair; peer is the name of the other end. -/
structure Link where
  ifindex : Nat
  peer : CString
  progs : List XdpProg
  deriving DecidableEq

/-- pinned gives for each interface the instance of xsks_map pinned in its directory. -/
structure Kernel where
  link : CString → Option Link
  nextIndex : Nat
  pinned : CString → Option Nat
  nextMap : Nat
  devmap : Option Nat

inductive Side where
  | inner
  | outer
  deriving DecidableEq

/-- The calls of one command whose outcome the environment decides: true is success.
    clearSlot says whether the kernel empties slot 0 when the interface in it goes away, and
    descriptor40 whether descriptor 40 of the daemon is one of xdp_devmap. -/
inductive Call where
  | malloc
  | createScript
  | load (side : Side)
  | attach (side : Side)
  | programFd (side : Side)
  | unpinMaps
  | pinMaps
  | openDevmap
  | mapInfo
  | descriptor40
  | updateDevmap
  | getMultiprog (side : Side)
  | detach (side : Side)
  | deleteScript
  | clearSlot
  | writeReply
  deriving DecidableEq

abbrev Outcomes := Call → Bool

def Kernel.setLink (k : Kernel) (name : CString) (l : Option Link) : Kernel :=
  { k with link := fun n => if n = name then l else k.link n }

def ifNametoindex (k : Kernel) (name : CString) : Nat :=
  match k.link name with
  | some l => l.ifindex
  | none => 0

/- The scripts. -/

def dot : UInt8 := 46

def devValidName (name : List UInt8) : Bool :=
  name ≠ [] && name.length ≤ 15 && name ≠ [dot] && name ≠ [dot, dot] &&
    name.all fun b => b != 47 && b != 58 && !isSpace b

/-- A name that reaches ip unchanged through the shell and is legal for an interface. -/
def NameAccepted (name : CString) : Prop :=
  Plain name.bytes ∧ devValidName name.bytes = true

instance (name : CString) : Decidable (NameAccepted name) := inferInstanceAs (Decidable (_ ∧ _))

def CanCreate (k : Kernel) (veth1 veth2 : CString) : Prop :=
  NameAccepted veth1 ∧ NameAccepted veth2 ∧ veth1 ≠ veth2 ∧ k.link veth1 = none ∧
    k.link veth2 = none

instance (k : Kernel) (veth1 veth2 : CString) : Decidable (CanCreate k veth1 veth2) :=
  inferInstanceAs (Decidable (_ ∧ _ ∧ _ ∧ _ ∧ _))

/- Both scripts are given by what they do to the names of their line; what a shell makes of a
   name that is not plain is not modelled. -/

/-- create_veth.sh: ip link add of a pair, all or nothing. -/
def createVeth (ok : Bool) (veth1 veth2 : CString) (k : Kernel) : Kernel :=
  if ok = true ∧ CanCreate k veth1 veth2 then
    { (k.setLink veth2 (some ⟨k.nextIndex, veth1, []⟩)).setLink veth1
        (some ⟨k.nextIndex + 1, veth2, []⟩) with nextIndex := k.nextIndex + 2 }
  else k

/-- delete_veth.sh: ip li del takes the interface and its peer away. -/
def deleteVeth (ok clears : Bool) (veth : CString) (k : Kernel) : Kernel :=
  match k.link veth with
  | none => k
  | some l =>
    if ok then
      let gone := [l.ifindex, ifNametoindex k l.peer]
      { (k.setLink veth none).setLink l.peer none with
        devmap := match k.devmap with
          | some slot => if clears = true ∧ slot ∈ gone then none else some slot
          | none => none }
    else k

/- xdp_utils.c. -/

def pinMapsInBpfObject (o : Outcomes) (subdir : CString) (k : Kernel) : Int × Kernel :=
  if (k.pinned subdir).isSome = true ∧ o .unpinMaps = false then (EXIT_FAIL_BPF, k)
  else
    let k := { k with pinned := fun d => if d = subdir then none else k.pinned d }
    if o .pinMaps = false then (EXIT_FAIL_BPF, k)
    else (EXIT_OK, { k with
      pinned := fun d => if d = subdir then some k.nextMap else k.pinned d
      nextMap := k.nextMap + 1 })

/-- none is the exit of the process when the object cannot be loaded; pin says whether a
    map name is given. -/
def loadXdpAndAttachToIfname (o : Outcomes) (side : Side) (ifname : CString) (prog : XdpProg)
    (pin : Bool) (k : Kernel) : Option (Int × Kernel) :=
  if o (.load side) = false then none
  else
    match k.link ifname with
    | none => some (EXIT_FAIL_BPF, k)
    | some l =>
      if o (.attach side) = false then some (EXIT_FAIL_BPF, k)
      else
        let k := k.setLink ifname (some { l with progs := l.progs ++ [prog] })
        if o (.programFd side) = false then some (EXIT_FAIL_BPF, k)
        else if pin = false then some (EXIT_OK, k)
        else some (pinMapsInBpfObject o ifname k)

def unloadXdpFromIfname (o : Outcomes) (side : Side) (ifname : CString) (k : Kernel) :
    Int × Kernel :=
  match k.link ifname with
  | none => (EXIT_FAIL_OPTION, k)
  | some l =>
    if o (.getMultiprog side) = false ∨ l.progs = [] then (EXIT_FAIL_XDP, k)
    else if o (.detach side) = false then (EXIT_FAIL_XDP, k)
    else (EXIT_OK, k.setLink ifname (some { l with progs := [] }))

/-- open_bpf_map_file on xdp_devmap: none for a negative result, else whether the result is a
    descriptor of that map. A failed query returns EXIT_FAIL_BPF, which is not negative. -/
def openDevmapFile (o : Outcomes) : Option Bool :=
  if o .openDevmap = false then none
  else if o .mapInfo = false then some (o .descriptor40)
  else some true

/-- Index 0 empties the slot. -/
def updateDevmap (o : Outcomes) (ifindex : Nat) (k : Kernel) : Int × Kernel :=
  match openDevmapFile o with
  | none => (-1, k)
  | some ofDevmap =>
    if o .updateDevmap = false then (-1, k)
    else if ofDevmap then (0, { k with devmap := if ifindex = 0 then none else some ifindex })
    else (0, k)

/- What each of them does to the interfaces. -/

@[simp] theorem setLink_same (k : Kernel) (name : CString) (l : Option Link) :
    (k.setLink name l).link name = l := by
  simp [Kernel.setLink]

@[simp] theorem setLink_other (k : Kernel) {name n : CString} (l : Option Link)
    (other : n ≠ name) : (k.setLink name l).link n = k.link n := by
  simp [Kernel.setLink, other]

theorem createVeth_other (ok : Bool) (veth1 veth2 : CString) (k : Kernel) {n : CString}
    (not1 : n ≠ veth1) (not2 : n ≠ veth2) : (createVeth ok veth1 veth2 k).link n = k.link n := by
  unfold createVeth
  split
  · change ((k.setLink veth2 _).setLink veth1 _).link n = _
    rw [setLink_other _ _ not1, setLink_other _ _ not2]
  · rfl

theorem createVeth_skipped {ok : Bool} {veth1 veth2 : CString} {k : Kernel}
    (present : (k.link veth1).isSome = true) : createVeth ok veth1 veth2 k = k := by
  unfold createVeth
  rw [if_neg]
  rintro ⟨-, -, -, -, absent, -⟩
  simp [absent] at present

theorem createVeth_made {veth1 veth2 : CString} {k : Kernel} (can : CanCreate k veth1 veth2) :
    (createVeth true veth1 veth2 k).link veth1 = some ⟨k.nextIndex + 1, veth2, []⟩ ∧
      (createVeth true veth1 veth2 k).link veth2 = some ⟨k.nextIndex, veth1, []⟩ ∧
      (createVeth true veth1 veth2 k).nextIndex = k.nextIndex + 2 := by
  unfold createVeth
  rw [if_pos ⟨rfl, can⟩]
  refine ⟨setLink_same _ _ _, ?_, rfl⟩
  change ((k.setLink veth2 _).setLink veth1 _).link veth2 = _
  rw [setLink_other _ _ (Ne.symm can.2.2.1), setLink_same]

@[simp] theorem pinMaps_link (o : Outcomes) (subdir : CString) (k : Kernel) :
    (pinMapsInBpfObject o subdir k).2.link = k.link ∧
      (pinMapsInBpfObject o subdir k).2.devmap = k.devmap ∧
      (pinMapsInBpfObject o subdir k).2.nextIndex = k.nextIndex := by
  unfold pinMapsInBpfObject
  split
  · exact ⟨rfl, rfl, rfl⟩
  · dsimp only
    split
    · exact ⟨rfl, rfl, rfl⟩
    · exact ⟨rfl, rfl, rfl⟩

def attached (ok : Bool) (ifname : CString) (prog : XdpProg) (link : CString → Option Link)
    (n : CString) : Option Link :=
  if n = ifname ∧ ok = true then (link n).map fun l => { l with progs := l.progs ++ [prog] }
  else link n

theorem load_spec (o : Outcomes) (side : Side) (ifname : CString) (prog : XdpProg) (pin : Bool)
    (k : Kernel) (loads : o (.load side) = true) :
    ∃ err k', loadXdpAndAttachToIfname o side ifname prog pin k = some (err, k') ∧
      k'.link = attached (o (.attach side)) ifname prog k.link ∧ k'.devmap = k.devmap ∧
      k'.nextIndex = k.nextIndex := by
  unfold loadXdpAndAttachToIfname
  simp only [loads, Bool.true_eq_false, if_false]
  cases found : k.link ifname with
  | none =>
    refine ⟨_, _, rfl, ?_, rfl, rfl⟩
    funext n
    by_cases here : n = ifname
    · simp [attached, here, found]
    · simp [attached, here]
  | some l =>
    cases attach : o (.attach side) with
    | false =>
      refine ⟨_, _, rfl, ?_, rfl, rfl⟩
      funext n
      simp [attached]
    | true =>
      have linked : (k.setLink ifname (some { l with progs := l.progs ++ [prog] })).link =
          attached true ifname prog k.link := by
        funext n
        by_cases here : n = ifname
        · simp [attached, here, found]
        · simp [attached, here]
      simp only [Bool.true_eq_false, if_false]
      split
      · exact ⟨_, _, rfl, linked, rfl, rfl⟩
      · split
        · exact ⟨_, _, rfl, linked, rfl, rfl⟩
        · obtain ⟨link, devmap, nextIndex⟩ := pinMaps_link o ifname
            (k.setLink ifname (some { l with progs := l.progs ++ [prog] }))
          exact ⟨_, _, rfl, link.trans linked, devmap, nextIndex⟩

def detached (ok : Bool) (ifname : CString) (link : CString → Option Link) (n : CString) :
    Option Link :=
  if n = ifname ∧ ok = true then (link n).map fun l => { l with progs := [] } else link n

theorem unload_spec (o : Outcomes) (side : Side) (ifname : CString) (k : Kernel) :
    (unloadXdpFromIfname o side ifname k).2.link =
        detached (o (.getMultiprog side) && o (.detach side)) ifname k.link ∧
      (unloadXdpFromIfname o side ifname k).2.devmap = k.devmap ∧
      (unloadXdpFromIfname o side ifname k).2.nextIndex = k.nextIndex := by
  unfold unloadXdpFromIfname
  cases found : k.link ifname with
  | none =>
    dsimp only
    refine ⟨?_, rfl, rfl⟩
    funext n
    by_cases here : n = ifname
    · simp [detached, here, found]
    · simp [detached, here]
  | some l =>
    dsimp only
    by_cases nothing : o (.getMultiprog side) = false ∨ l.progs = []
    · rw [if_pos nothing]
      refine ⟨?_, rfl, rfl⟩
      funext n
      by_cases here : n = ifname
      · rcases nothing with unread | bare
        · simp [detached, here, unread]
        · cases l
          simp_all [detached]
      · simp [detached, here]
    · rw [if_neg nothing]
      rw [not_or, Bool.not_eq_false] at nothing
      cases detach : o (.detach side) with
      | false =>
        refine ⟨?_, rfl, rfl⟩
        funext n
        simp [detached]
      | true =>
        refine ⟨?_, rfl, rfl⟩
        funext n
        by_cases here : n = ifname
        · simp [detached, here, nothing.1, found]
        · simp [detached, here]

theorem updateDevmap_link (o : Outcomes) (ifindex : Nat) (k : Kernel) :
    (updateDevmap o ifindex k).2.link = k.link ∧
      (updateDevmap o ifindex k).2.nextIndex = k.nextIndex := by
  unfold updateDevmap
  split
  · exact ⟨rfl, rfl⟩
  · split
    · exact ⟨rfl, rfl⟩
    · split
      · exact ⟨rfl, rfl⟩
      · exact ⟨rfl, rfl⟩

theorem updateDevmap_devmap (o : Outcomes) (ifindex : Nat) (k : Kernel) :
    (updateDevmap o ifindex k).2.devmap =
      if openDevmapFile o = some true ∧ o .updateDevmap = true then
        if ifindex = 0 then none else some ifindex
      else k.devmap := by
  unfold updateDevmap
  cases openDevmapFile o with
  | none => rfl
  | some ofDevmap =>
    cases o .updateDevmap with
    | false => simp
    | true =>
      cases ofDevmap with
      | false => simp
      | true => simp

def removed (a b : CString) (link : CString → Option Link) (n : CString) : Option Link :=
  if n = a ∨ n = b then none else link n

theorem deleteVeth_done (clears : Bool) {veth : CString} {k : Kernel} {l : Link}
    (found : k.link veth = some l) :
    (deleteVeth true clears veth k).link = removed veth l.peer k.link ∧
      (deleteVeth true clears veth k).nextIndex = k.nextIndex ∧
      (deleteVeth true clears veth k).devmap = match k.devmap with
        | some slot =>
          if clears = true ∧ slot ∈ [l.ifindex, ifNametoindex k l.peer] then none else some slot
        | none => none := by
  unfold deleteVeth
  rw [found]
  refine ⟨?_, rfl, rfl⟩
  funext n
  unfold removed
  by_cases first : n = veth
  · by_cases second : n = l.peer
    · simp [Kernel.setLink, second]
    · simp [Kernel.setLink, first]
  · by_cases second : n = l.peer
    · simp [Kernel.setLink, second]
    · simp [Kernel.setLink, first, second]

theorem deleteVeth_absent (ok clears : Bool) {veth : CString} {k : Kernel}
    (absent : k.link veth = none) : deleteVeth ok clears veth k = k := by
  simp [deleteVeth, absent]

theorem deleteVeth_failed (clears : Bool) (veth : CString) (k : Kernel) :
    deleteVeth false clears veth k = k := by
  unfold deleteVeth
  cases k.link veth with
  | none => rfl
  | some l => rfl

/- Interfaces without their programs, and programs by interface. -/

def shape (link : CString → Option Link) (n : CString) : Option (Nat × CString) :=
  (link n).map fun l => (l.ifindex, l.peer)

def Carries (link : CString → Option Link) (n : CString) (prog : XdpProg) : Prop :=
  ∃ l, link n = some l ∧ prog ∈ l.progs

theorem ifNametoindex_shape (k : Kernel) (n : CString) :
    ifNametoindex k n = ((shape k.link n).map Prod.fst).getD 0 := by
  unfold ifNametoindex shape
  cases k.link n with
  | none => rfl
  | some l => rfl

theorem shape_attached (ok : Bool) (ifname : CString) (prog : XdpProg)
    (link : CString → Option Link) : shape (attached ok ifname prog link) = shape link := by
  funext n
  unfold shape attached
  split
  · rw [Option.map_map]
    rfl
  · rfl

theorem shape_detached (ok : Bool) (ifname : CString) (link : CString → Option Link) :
    shape (detached ok ifname link) = shape link := by
  funext n
  unfold shape detached
  split
  · rw [Option.map_map]
    rfl
  · rfl

theorem carries_attached (ok : Bool) (ifname : CString) (prog : XdpProg)
    (link : CString → Option Link) (n : CString) (q : XdpProg) :
    Carries (attached ok ifname prog link) n q ↔
      Carries link n q ∨ (n = ifname ∧ ok = true ∧ q = prog ∧ (shape link n).isSome = true) := by
  by_cases here : n = ifname ∧ ok = true
  · obtain ⟨rfl, rfl⟩ := here
    cases found : link n with
    | none => simp [Carries, attached, shape, found]
    | some l => simp [Carries, attached, shape, found]
  · constructor
    · rintro ⟨l, found, member⟩
      left
      rw [attached, if_neg here] at found
      exact ⟨l, found, member⟩
    · rintro (⟨l, found, member⟩ | ⟨same, yes, -⟩)
      · refine ⟨l, ?_, member⟩
        rw [attached, if_neg here]
        exact found
      · exact absurd ⟨same, yes⟩ here

theorem carries_detached (ok : Bool) (ifname : CString) (link : CString → Option Link)
    (n : CString) (q : XdpProg) :
    Carries (detached ok ifname link) n q ↔ Carries link n q ∧ ¬ (n = ifname ∧ ok = true) := by
  by_cases here : n = ifname ∧ ok = true
  · constructor
    · rintro ⟨l, found, member⟩
      rw [detached, if_pos here, Option.map_eq_some_iff] at found
      obtain ⟨_, -, rfl⟩ := found
      simp at member
    · rintro ⟨-, no⟩
      exact absurd here no
  · constructor
    · rintro ⟨l, found, member⟩
      rw [detached, if_neg here] at found
      exact ⟨⟨l, found, member⟩, here⟩
    · rintro ⟨⟨l, found, member⟩, -⟩
      refine ⟨l, ?_, member⟩
      rw [detached, if_neg here]
      exact found

theorem shape_isSome_of_carries {link : CString → Option Link} {n : CString} {q : XdpProg}
    (carries : Carries link n q) : (shape link n).isSome = true := by
  obtain ⟨l, found, -⟩ := carries
  simp [shape, found]

/- And to the pinned maps. -/

theorem updateDevmap_pinned (o : Outcomes) (ifindex : Nat) (k : Kernel) :
    (updateDevmap o ifindex k).2.pinned = k.pinned ∧
      (updateDevmap o ifindex k).2.nextMap = k.nextMap := by
  unfold updateDevmap
  split
  · exact ⟨rfl, rfl⟩
  · split
    · exact ⟨rfl, rfl⟩
    · split
      · exact ⟨rfl, rfl⟩
      · exact ⟨rfl, rfl⟩

theorem createVeth_pinned (ok : Bool) (veth1 veth2 : CString) (k : Kernel) :
    (createVeth ok veth1 veth2 k).pinned = k.pinned ∧
      (createVeth ok veth1 veth2 k).nextMap = k.nextMap := by
  unfold createVeth
  split
  · exact ⟨rfl, rfl⟩
  · exact ⟨rfl, rfl⟩

theorem unload_pinned (o : Outcomes) (side : Side) (ifname : CString) (k : Kernel) :
    (unloadXdpFromIfname o side ifname k).2.pinned = k.pinned ∧
      (unloadXdpFromIfname o side ifname k).2.nextMap = k.nextMap := by
  unfold unloadXdpFromIfname
  split
  · exact ⟨rfl, rfl⟩
  · split
    · exact ⟨rfl, rfl⟩
    · split
      · exact ⟨rfl, rfl⟩
      · exact ⟨rfl, rfl⟩

theorem deleteVeth_pinned (ok clears : Bool) (veth : CString) (k : Kernel) :
    (deleteVeth ok clears veth k).pinned = k.pinned ∧
      (deleteVeth ok clears veth k).nextMap = k.nextMap := by
  unfold deleteVeth
  split
  · exact ⟨rfl, rfl⟩
  · split
    · exact ⟨rfl, rfl⟩
    · exact ⟨rfl, rfl⟩

end XSKInterfaces
