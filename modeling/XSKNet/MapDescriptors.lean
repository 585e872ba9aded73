import XSKNet.Interfaces
import XSKNet.XskSocket

/- open_bpf_map_file and its two callers over the descriptor table of the process. The
   library calls are given by their outcomes; a path names at most one pinned object. -/
namespace XSKMaps
open CStrings
open XSKInterfaces (EXIT_FAIL_BPF)

abbrev PATH_MAX : Nat := 4096

def pinBasedir : CString := ⟨ascii "/sys/fs/bpf", by decide⟩
def slash : CString := ⟨ascii "/", by decide⟩
def xdpDevmap : CString := ⟨ascii "xdp_devmap", by decide⟩
def xsksMap : CString := ⟨ascii "xsks_map", by decide⟩

inductive Object where
  | map (id : Nat)
  | other (id : Nat)
  deriving DecidableEq

/-- The kernel takes no path of PATH_MAX bytes or more. -/
structure BpfFs where
  pinned : CString → Option Object
  short : ∀ path h, pinned path = some h → path.length < PATH_MAX

/-- The descriptors of the process, and by map and key the value in every slot. -/
structure Process where
  fs : BpfFs
  fds : Nat → Option Object
  slot : Nat → Nat → Nat

/-- objGet is the free descriptor that a successful bpf_obj_get would return. -/
structure MapCalls where
  objGet : Option Nat
  objInfo : Bool
  updateElem : Bool
  errno : Nat

def Process.object (p : Process) (fd : Int) : Option Object :=
  if fd < 0 then none else p.fds fd.toNat

/- libbpf and snprintf. -/

def failure (o : MapCalls) : Int := -(o.errno + 1 : Int)

/-- What snprintf returns: the length of the whole string, or a negative value where that is
    no int. -/
def snprintfLen (pieces : List CString) : Int :=
  if (pieces.map CString.length).sum < 2 ^ 31 then (pieces.map CString.length).sum else -1

def bpfObjGet (o : MapCalls) (path : CString) (p : Process) : Int × Process :=
  match o.objGet, p.fs.pinned path with
  | some fd, some h =>
    if p.fds fd = none then (fd, { p with fds := fun i => if i = fd then some h else p.fds i })
    else (failure o, p)
  | _, _ => (failure o, p)

def bpfObjGetInfoByFd (o : MapCalls) : Int := if o.objInfo then 0 else failure o

structure Updated where
  ret : Int
  written : Option Nat
  after : Process

def bpfMapUpdateElem (o : MapCalls) (fd : Int) (key value : Nat) (p : Process) : Updated :=
  match p.object fd with
  | some (.map m) =>
    if o.updateElem then
      ⟨0, some m, { p with slot := fun i k => if i = m ∧ k = key then value else p.slot i k }⟩
    else ⟨failure o, none, p⟩
  | _ => ⟨failure o, none, p⟩

/- xdp_utils.c and xsk_utils.c. -/

def mapFilename (pinDir mapname : CString) : CString :=
  CString.snprintf PATH_MAX [pinDir, slash, mapname]

def openBpfMapFile (o : MapCalls) (pinDir mapname : CString) (info : Bool) (p : Process) :
    Int × Process :=
  if snprintfLen [pinDir, slash, mapname] < 0 then (-1, p)
  else
    let (fd, p) := bpfObjGet o (mapFilename pinDir mapname) p
    if fd < 0 then (fd, p)
    else if info = true ∧ bpfObjGetInfoByFd o ≠ 0 then (EXIT_FAIL_BPF, p)
    else (fd, p)

def pinDir (subdir : CString) : CString := CString.snprintf PATH_MAX [pinBasedir, slash, subdir]

/-- dev is opts.dev; the argument ifname is only logged. -/
def updateDevmap (o : MapCalls) (dev : CString) (ifindex : Nat) (p : Process) : Updated :=
  let len := snprintfLen [pinBasedir, slash, dev]
  if len < 0 ∨ (PATH_MAX : Int) ≤ len then ⟨-1, none, p⟩
  else
    let (mapFd, p) := openBpfMapFile o (pinDir dev) xdpDevmap true p
    if mapFd < 0 then ⟨-1, none, p⟩
    else
      let u := bpfMapUpdateElem o mapFd 0 ifindex p
      if u.ret ≠ 0 then { u with ret := -1 } else { u with ret := 0 }

/-- The part of xsk_configure_socket that enters the socket into slot 0, for queue 0, of the
    map; a result other than 0 stands for the null pointer. -/
def xskConfigureSocketMap (o : MapCalls) (ifname : CString) (xsk : Nat) (p : Process) : Updated :=
  if snprintfLen [pinBasedir, slash, ifname] < 0 then ⟨-1, none, p⟩
  else
    let (xskMapFd, p) := openBpfMapFile o (pinDir ifname) xsksMap true p
    if xskMapFd < 0 then ⟨-1, none, p⟩
    else bpfMapUpdateElem o xskMapFd 0 xsk p

/- What the callers rely on. -/

def mapPath (dir mapname : CString) : CString := dir.append (slash.append mapname)

def subdirPath (subdir : CString) : CString := pinBasedir.append (slash.append subdir)

/-- A result that is not negative comes from two successful calls and is a descriptor of the
    object pinned under the path asked for. -/
def OpenRight (o : MapCalls) (dir mapname : CString) (info : Bool) (p : Process) : Prop :=
  0 ≤ (openBpfMapFile o dir mapname info p).1 →
    0 ≤ (bpfObjGet o (mapFilename dir mapname) p).1 ∧
    (info = true → bpfObjGetInfoByFd o = 0) ∧
    ∃ h, p.fs.pinned (mapPath dir mapname) = some h ∧
      (openBpfMapFile o dir mapname info p).2.object
        (openBpfMapFile o dir mapname info p).1 = some h

/-- An update reports success only when slot 0 of the map at the path holds the value, and
    whatever it writes is that map. -/
structure WritesOnly (path : CString) (value : Nat) (p : Process) (u : Updated) : Prop where
  holds : u.ret = 0 → ∃ m, p.fs.pinned path = some (.map m) ∧ u.after.slot m 0 = value
  nothingElse : ∀ m, u.written = some m → p.fs.pinned path = some (.map m)

structure DevmapRight (o : MapCalls) (dev : CString) (ifindex : Nat) (p : Process) : Prop where
  opens : (subdirPath dev).length < PATH_MAX → OpenRight o (pinDir dev) xdpDevmap true p
  writes : WritesOnly (mapPath (subdirPath dev) xdpDevmap) ifindex p (updateDevmap o dev ifindex p)

structure SocketRight (o : MapCalls) (ifname : CString) (xsk : Nat) (p : Process) : Prop where
  opens : 0 ≤ snprintfLen [pinBasedir, slash, ifname] → OpenRight o (pinDir ifname) xsksMap true p
  writes : WritesOnly (mapPath (subdirPath ifname) xsksMap) xsk p
    (xskConfigureSocketMap o ifname xsk p)

def CallsSound (o : MapCalls) (dir mapname : CString) (info : Bool) (p : Process) : Prop :=
  snprintfLen [dir, slash, mapname] < 0 ∨ (bpfObjGet o (mapFilename dir mapname) p).1 < 0 ∨
    ((info = true → o.objInfo = true) ∧ (mapPath dir mapname).length < PATH_MAX)

/- The names. -/

theorem mapPath_length (dir mapname : CString) :
    (mapPath dir mapname).length = ([dir, slash, mapname].map CString.length).sum := by
  simp only [mapPath, CString.length, CString.append_bytes, List.length_append, List.map_cons,
    List.map_nil, List.sum_cons, List.sum_nil, Nat.add_zero]

theorem mapFilename_eq {dir mapname : CString} (fits : (mapPath dir mapname).length < PATH_MAX) :
    mapFilename dir mapname = mapPath dir mapname := by
  have joined : (mapFilename dir mapname).bytes = (mapPath dir mapname).bytes.take (PATH_MAX - 1) := by
    simp [mapFilename, mapPath, CString.snprintf_bytes]
  ext1
  rw [joined]
  exact List.take_of_length_le (Nat.le_sub_one_of_lt fits)

theorem pinDir_eq {subdir : CString} (fits : (subdirPath subdir).length < PATH_MAX) :
    pinDir subdir = subdirPath subdir :=
  mapFilename_eq fits

theorem subdir_check (subdir : CString) :
    (snprintfLen [pinBasedir, slash, subdir] < 0 ∨
      (PATH_MAX : Int) ≤ snprintfLen [pinBasedir, slash, subdir]) ↔
        PATH_MAX ≤ (subdirPath subdir).length := by
  have length : (subdirPath subdir).length =
      ([pinBasedir, slash, subdir].map CString.length).sum := mapPath_length pinBasedir subdir
  rw [length]
  unfold snprintfLen PATH_MAX
  split
  · omega
  · omega

/-- A directory that was cut leaves no room for a file name in it. -/
theorem subdir_fits {subdir mapname : CString}
    (fits : (mapPath (pinDir subdir) mapname).length < PATH_MAX) :
    (subdirPath subdir).length < PATH_MAX := by
  by_contra long
  have cut : (pinDir subdir).length = PATH_MAX - 1 := by
    have joined : (pinDir subdir).bytes = (subdirPath subdir).bytes.take (PATH_MAX - 1) := by
      simp [pinDir, subdirPath, CString.snprintf_bytes]
    unfold CString.length at long ⊢
    rw [joined, List.length_take]
    omega
  rw [mapPath_length] at fits
  simp only [List.map_cons, List.sum_cons, cut] at fits
  have one : slash.length = 1 := rfl
  omega

/- The calls. -/

theorem minus_one_ne_zero : (-1 : Int) ≠ 0 := by decide

theorem failure_neg (o : MapCalls) : failure o < 0 := by
  unfold failure
  omega

theorem objInfo_iff (o : MapCalls) : bpfObjGetInfoByFd o = 0 ↔ o.objInfo = true := by
  have negative := failure_neg o
  unfold bpfObjGetInfoByFd
  cases o.objInfo with
  | true => simp
  | false =>
    have failed : failure o ≠ 0 := by omega
    simp [failed]

theorem objGet_cases (o : MapCalls) (path : CString) (p : Process) :
    bpfObjGet o path p = (failure o, p) ∨
      ∃ fd : Nat, ∃ h, p.fs.pinned path = some h ∧ bpfObjGet o path p =
        ((fd : Int), { p with fds := fun i => if i = fd then some h else p.fds i }) := by
  unfold bpfObjGet
  cases o.objGet with
  | none => exact Or.inl rfl
  | some fd =>
    cases pinned : p.fs.pinned path with
    | none => exact Or.inl rfl
    | some h =>
      dsimp only
      split
      · exact Or.inr ⟨fd, h, rfl, rfl⟩
      · exact Or.inl rfl

theorem object_new (p : Process) (fd : Nat) (h : Object) :
    ({ p with fds := fun i => if i = fd then some h else p.fds i } : Process).object fd = some h := by
  simp [Process.object]

theorem open_right_iff (o : MapCalls) (dir mapname : CString) (info : Bool) (p : Process) :
    OpenRight o dir mapname info p ↔ CallsSound o dir mapname info p := by
  have negative := failure_neg o
  unfold OpenRight CallsSound openBpfMapFile
  by_cases unformatted : snprintfLen [dir, slash, mapname] < 0
  · simp [unformatted]
  simp only [unformatted, if_false, false_or]
  rcases objGet_cases o (mapFilename dir mapname) p with failed | ⟨fd, h, pinned, got⟩
  · rw [failed]
    simp only [negative, if_true, true_or, iff_true]
    intro positive
    omega
  have descriptor : ¬ (fd : Int) < 0 := by omega
  rw [got]
  simp only [descriptor, if_false, false_or]
  by_cases unqueried : info = true ∧ bpfObjGetInfoByFd o ≠ 0
  · have failed : ¬ o.objInfo = true := fun queried => unqueried.2 ((objInfo_iff o).mpr queried)
    have positive : 0 ≤ EXIT_FAIL_BPF := by decide
    simp only [if_pos unqueried]
    constructor
    · intro right
      exact absurd ((right positive).2.1 unqueried.1) unqueried.2
    · intro sound
      exact absurd (sound.1 unqueried.1) failed
  · have queried : info = true → o.objInfo = true := by
      intro asked
      by_contra failed
      exact unqueried ⟨asked, fun zero => failed ((objInfo_iff o).mp zero)⟩
    simp only [unqueried, if_false, object_new]
    constructor
    · intro right
      obtain ⟨-, -, h', there, -⟩ := right (by omega)
      exact ⟨queried, p.fs.short _ h' there⟩
    · rintro ⟨-, fits⟩ -
      rw [mapFilename_eq fits] at pinned
      exact ⟨by omega, fun asked => (objInfo_iff o).mpr (queried asked), h, pinned, rfl⟩

theorem update_cases (o : MapCalls) (fd : Int) (key value : Nat) (p : Process) :
    bpfMapUpdateElem o fd key value p = ⟨failure o, none, p⟩ ∨
    ∃ m, p.object fd = some (.map m) ∧ bpfMapUpdateElem o fd key value p =
      ⟨0, some m, { p with slot := fun i k => if i = m ∧ k = key then value else p.slot i k }⟩ := by
  unfold bpfMapUpdateElem
  split
  · rename_i m found
    split
    · exact Or.inr ⟨m, found, rfl⟩
    · exact Or.inl rfl
  · exact Or.inl rfl

theorem writesOnly_nothing {path : CString} {value : Nat} {p : Process} {u : Updated}
    (failed : u.ret ≠ 0) (unwritten : u.written = none) : WritesOnly path value p u := by
  refine ⟨fun succeeded => absurd succeeded failed, ?_⟩
  intro m written
  rw [unwritten] at written
  cases written

theorem update_writesOnly (o : MapCalls) {path : CString} {fd : Int} (value : Nat) {h : Object}
    {p q : Process} (pinned : p.fs.pinned path = some h) (opened : q.object fd = some h) :
    WritesOnly path value p (bpfMapUpdateElem o fd 0 value q) := by
  rcases update_cases o fd 0 value q with failed | ⟨m, found, updated⟩
  · rw [failed]
    exact writesOnly_nothing (Int.ne_of_lt (failure_neg o)) rfl
  · rw [opened] at found
    obtain rfl := Option.some.inj found
    rw [updated]
    refine ⟨fun _ => ⟨m, pinned, by simp⟩, ?_⟩
    intro m' written
    rw [← Option.some.inj written]
    exact pinned

theorem open_subdir {o : MapCalls} {subdir mapname : CString} {p : Process}
    (right : OpenRight o (pinDir subdir) mapname true p)
    (opened : ¬ (openBpfMapFile o (pinDir subdir) mapname true p).1 < 0) :
    ∃ h, p.fs.pinned (mapPath (subdirPath subdir) mapname) = some h ∧
      (openBpfMapFile o (pinDir subdir) mapname true p).2.object
        (openBpfMapFile o (pinDir subdir) mapname true p).1 = some h := by
  obtain ⟨-, -, h, pinned, found⟩ := right (by omega)
  have fits := subdir_fits (p.fs.short _ h pinned)
  rw [pinDir_eq fits] at pinned
  exact ⟨h, pinned, found⟩

theorem devmap_right_iff (o : MapCalls) (dev : CString) (ifindex : Nat) (p : Process) :
    DevmapRight o dev ifindex p ↔
      PATH_MAX ≤ (subdirPath dev).length ∨ CallsSound o (pinDir dev) xdpDevmap true p := by
  rw [← open_right_iff]
  constructor
  · intro right
    by_cases fits : (subdirPath dev).length < PATH_MAX
    · exact Or.inr (right.opens fits)
    · exact Or.inl (Nat.le_of_not_lt fits)
  · intro sound
    have opens : (subdirPath dev).length < PATH_MAX → OpenRight o (pinDir dev) xdpDevmap true p :=
      fun fits => sound.resolve_left (Nat.not_le.mpr fits)
    refine ⟨opens, ?_⟩
    unfold updateDevmap
    dsimp only
    split
    · exact writesOnly_nothing minus_one_ne_zero rfl
    · rename_i checked
      rw [subdir_check, Nat.not_le] at checked
      split
      · exact writesOnly_nothing minus_one_ne_zero rfl
      · rename_i opened
        obtain ⟨h, pinned, found⟩ := open_subdir (opens checked) opened
        have writes := update_writesOnly o ifindex pinned found
        split
        · exact ⟨fun succeeded => absurd succeeded minus_one_ne_zero, writes.nothingElse⟩
        · rename_i succeeded
          exact ⟨fun _ => writes.holds (not_not.mp succeeded), writes.nothingElse⟩

theorem socket_right_iff (o : MapCalls) (ifname : CString) (xsk : Nat) (p : Process) :
    SocketRight o ifname xsk p ↔
      snprintfLen [pinBasedir, slash, ifname] < 0 ∨ CallsSound o (pinDir ifname) xsksMap true p := by
  rw [← open_right_iff]
  constructor
  · intro right
    by_cases unformatted : snprintfLen [pinBasedir, slash, ifname] < 0
    · exact Or.inl unformatted
    · exact Or.inr (right.opens (by omega))
  · intro sound
    have opens : 0 ≤ snprintfLen [pinBasedir, slash, ifname] →
        OpenRight o (pinDir ifname) xsksMap true p := fun formatted =>
      sound.resolve_left (by omega)
    refine ⟨opens, ?_⟩
    unfold xskConfigureSocketMap
    dsimp only
    split
    · exact writesOnly_nothing minus_one_ne_zero rfl
    · rename_i formatted
      split
      · exact writesOnly_nothing minus_one_ne_zero rfl
      · rename_i opened
        obtain ⟨h, pinned, found⟩ := open_subdir (opens (by omega)) opened
        exact update_writesOnly o xsk pinned found

/-- For all outcomes of the calls and all open descriptors, an error is not taken for a map
    exactly when bpf_obj_get fails or the query of its map succeeds, with a name that fits. -/
theorem map_error_iff (o : MapCalls) (p : Process) :
    (∀ dir mapname info, OpenRight o dir mapname info p ↔ CallsSound o dir mapname info p) ∧
    (∀ dev ifindex, DevmapRight o dev ifindex p ↔
      PATH_MAX ≤ (subdirPath dev).length ∨ CallsSound o (pinDir dev) xdpDevmap true p) ∧
    ∀ ifname xsk, SocketRight o ifname xsk p ↔
      snprintfLen [pinBasedir, slash, ifname] < 0 ∨ CallsSound o (pinDir ifname) xsksMap true p :=
  ⟨fun dir mapname info => open_right_iff o dir mapname info p,
    fun dev ifindex => devmap_right_iff o dev ifindex p,
    fun ifname xsk => socket_right_iff o ifname xsk p⟩

theorem configured_registered {o : MapCalls} {ifname : CString} {xsk : Nat} {p : Process}
    (right : SocketRight o ifname xsk p) {created mapOpened : Bool} {mem : XSKSocket.UmemArea}
    {x : XSKSocket.XskSocketInfo}
    (configured : XSKSocket.xskConfigureSocket
      ⟨created, mapOpened, decide ((xskConfigureSocketMap o ifname xsk p).ret = 0)⟩ mem = some x) :
    ∃ m, p.fs.pinned (mapPath (subdirPath ifname) xsksMap) = some (.map m) ∧
      (xskConfigureSocketMap o ifname xsk p).after.slot m 0 = xsk := by
  apply right.writes.holds
  by_contra failed
  simp [XSKSocket.xskConfigureSocket, failed] at configured

/- Descriptor 40 of the daemon is a map that an earlier command left open. -/

def eth1 : CString := ⟨ascii "eth1", by decide⟩

def onlyDevmap : BpfFs where
  pinned path := if path = mapPath (subdirPath eth1) xdpDevmap then some (.map 1) else none
  short path h found := by
    split at found
    · rename_i here
      rw [here]
      decide
    · cases found

def leftOpen : Process :=
  ⟨onlyDevmap, fun i => if i = EXIT_FAIL_BPF.toNat then some (.map 2) else none, fun _ _ => 0⟩

def queryFails : MapCalls := ⟨some 41, false, true, 0⟩

/-- The failed query is taken for descriptor 40, the other map is written, and update_devmap
    reports success. -/
theorem error_taken_for_map :
    (openBpfMapFile queryFails (pinDir eth1) xdpDevmap true leftOpen).1 = EXIT_FAIL_BPF ∧
      ¬ OpenRight queryFails (pinDir eth1) xdpDevmap true leftOpen ∧
      (updateDevmap queryFails eth1 7 leftOpen).ret = 0 ∧
      (updateDevmap queryFails eth1 7 leftOpen).written = some 2 ∧
      ¬ DevmapRight queryFails eth1 7 leftOpen := by
  have other : (updateDevmap queryFails eth1 7 leftOpen).written = some 2 := by decide
  refine ⟨by decide, ?_, by decide, other, ?_⟩
  · intro right
    obtain ⟨-, queried, -⟩ := right (by decide)
    exact absurd (queried rfl) (by decide)
  · intro right
    exact absurd (right.writes.nothingElse 2 other) (by decide)

/- The model of the interfaces keeps only what slot 0 of xdp_devmap holds. -/

def slotValue (v : Nat) : Option Nat := if v = 0 then none else some v

theorem update_refines (o : MapCalls) (c : XSKInterfaces.Outcomes) {fd : Int} {ifindex : Nat}
    {q : Process} {m : Nat} {k : XSKInterfaces.Kernel}
    (opened : XSKInterfaces.openDevmapFile c = some (decide (q.object fd = some (.map m))))
    (updates : c .updateDevmap = decide ((bpfMapUpdateElem o fd 0 ifindex q).ret = 0))
    (slot : k.devmap = slotValue (q.slot m 0)) :
    (XSKInterfaces.updateDevmap c ifindex k).1 =
        (if (bpfMapUpdateElem o fd 0 ifindex q).ret ≠ 0 then -1 else 0) ∧
      (XSKInterfaces.updateDevmap c ifindex k).2.devmap =
        slotValue ((bpfMapUpdateElem o fd 0 ifindex q).after.slot m 0) := by
  rcases update_cases o fd 0 ifindex q with failed | ⟨m', found, updated⟩
  · have nonzero : failure o ≠ 0 := Int.ne_of_lt (failure_neg o)
    rw [failed] at updates
    have unsuccessful : c .updateDevmap = false := by simp [updates, nonzero]
    rw [failed]
    simp only [XSKInterfaces.updateDevmap, opened, unsuccessful, if_true, if_pos nonzero]
    exact ⟨trivial, slot⟩
  · rw [updated] at updates
    have successful : c .updateDevmap = true := by simp [updates]
    rw [found] at opened
    rw [updated]
    by_cases same : m' = m
    · have read : XSKInterfaces.openDevmapFile c = some true := by simp [opened, same]
      simp [XSKInterfaces.updateDevmap, read, successful, same, slotValue]
    · have read : XSKInterfaces.openDevmapFile c = some false := by simp [opened, same]
      have other : m ≠ m' := fun equal => same equal.symm
      simp [XSKInterfaces.updateDevmap, read, successful, other, slot]

theorem open_of_get {o : MapCalls} {dir mapname : CString} {p q : Process} {d : Nat}
    (formatted : ¬ snprintfLen [dir, slash, mapname] < 0)
    (got : bpfObjGet o (mapFilename dir mapname) p = ((d : Int), q)) :
    openBpfMapFile o dir mapname true p = (if o.objInfo then (d : Int) else EXIT_FAIL_BPF, q) := by
  have descriptor : ¬ (d : Int) < 0 := by omega
  unfold openBpfMapFile
  simp only [if_neg formatted, got, if_neg descriptor]
  cases queried : o.objInfo with
  | true => simp [(objInfo_iff o).mpr queried]
  | false =>
    have unqueried : bpfObjGetInfoByFd o ≠ 0 := by
      rw [ne_eq, objInfo_iff, queried]
      decide
    simp [unqueried]

/-- The outcomes of the other model, read off the calls on a pinned map m. -/
structure ReadOff (c : XSKInterfaces.Outcomes) (o : MapCalls) (dev : CString) (ifindex : Nat)
    (p : Process) (m : Nat) : Prop where
  pinned : p.fs.pinned (mapPath (subdirPath dev) xdpDevmap) = some (.map m)
  opens : c .openDevmap =
    decide (0 ≤ (bpfObjGet o (mapPath (subdirPath dev) xdpDevmap) p).1)
  queries : c .mapInfo = o.objInfo
  fallback : c .descriptor40 =
    decide ((bpfObjGet o (mapPath (subdirPath dev) xdpDevmap) p).2.object EXIT_FAIL_BPF =
      some (.map m))
  updates : c .updateDevmap = decide ((bpfMapUpdateElem o
    (openBpfMapFile o (pinDir dev) xdpDevmap true p).1 0 ifindex
    (openBpfMapFile o (pinDir dev) xdpDevmap true p).2).ret = 0)

theorem pinned_names {p : Process} {subdir mapname : CString} {h : Object}
    (pinned : p.fs.pinned (mapPath (subdirPath subdir) mapname) = some h) :
    (subdirPath subdir).length < PATH_MAX ∧
      mapFilename (pinDir subdir) mapname = mapPath (subdirPath subdir) mapname ∧
      ¬ snprintfLen [pinDir subdir, slash, mapname] < 0 := by
  have fits := p.fs.short _ _ pinned
  have dirFits : (subdirPath subdir).length < PATH_MAX := by
    rw [mapPath_length] at fits
    simp only [List.map_cons, List.sum_cons] at fits
    omega
  have int : (mapPath (subdirPath subdir) mapname).length < 2 ^ 31 := by
    unfold PATH_MAX at fits
    omega
  refine ⟨dirFits, ?_, ?_⟩
  · rw [pinDir_eq dirFits, mapFilename_eq fits]
  · rw [pinDir_eq dirFits, snprintfLen, ← mapPath_length, if_pos int]
    omega

theorem open_refines {o : MapCalls} {c : XSKInterfaces.Outcomes} {dev : CString} {ifindex : Nat}
    {p : Process} {m : Nat} (read : ReadOff c o dev ifindex p m) :
    (XSKInterfaces.openDevmapFile c = none ∧
      openBpfMapFile o (pinDir dev) xdpDevmap true p = (failure o, p)) ∨
    ∃ fd q, openBpfMapFile o (pinDir dev) xdpDevmap true p = (fd, q) ∧ ¬ fd < 0 ∧
      q.slot = p.slot ∧
      XSKInterfaces.openDevmapFile c = some (decide (q.object fd = some (.map m))) := by
  obtain ⟨pinned, opens, queries, fallback, -⟩ := read
  obtain ⟨-, filename, formatted⟩ := pinned_names pinned
  have negative := failure_neg o
  rcases objGet_cases o (mapPath (subdirPath dev) xdpDevmap) p with failed | ⟨d, h, found, got⟩
  · left
    rw [failed] at opens
    refine ⟨by simp [XSKInterfaces.openDevmapFile, opens, negative], ?_⟩
    unfold openBpfMapFile
    simp only [if_neg formatted, filename, failed, negative, if_true]
  · right
    rw [pinned] at found
    obtain rfl := Option.some.inj found
    rw [got] at opens fallback
    have unfailed : c .openDevmap = true := by simp [opens]
    rw [← filename] at got
    rw [open_of_get formatted got]
    cases queried : o.objInfo with
    | true =>
      rw [queried] at queries
      refine ⟨d, _, rfl, by omega, rfl, ?_⟩
      simp [XSKInterfaces.openDevmapFile, unfailed, queries, object_new]
    | false =>
      rw [queried] at queries
      refine ⟨EXIT_FAIL_BPF, _, rfl, by decide, rfl, ?_⟩
      simp [XSKInterfaces.openDevmapFile, unfailed, queries, fallback]

theorem updateDevmap_refines {o : MapCalls} {c : XSKInterfaces.Outcomes} {dev : CString}
    {ifindex : Nat} {p : Process} {m : Nat} {k : XSKInterfaces.Kernel}
    (read : ReadOff c o dev ifindex p m) (slot : k.devmap = slotValue (p.slot m 0)) :
    (XSKInterfaces.updateDevmap c ifindex k).1 = (updateDevmap o dev ifindex p).ret ∧
      (XSKInterfaces.updateDevmap c ifindex k).2.devmap =
        slotValue ((updateDevmap o dev ifindex p).after.slot m 0) := by
  have checked : ¬ (snprintfLen [pinBasedir, slash, dev] < 0 ∨
      (PATH_MAX : Int) ≤ snprintfLen [pinBasedir, slash, dev]) := by
    rw [subdir_check, Nat.not_le]
    exact (pinned_names read.pinned).1
  have updates := read.updates
  rcases open_refines read with ⟨unopened, failed⟩ | ⟨fd, q, opened, descriptor, same, found⟩
  · have negative := failure_neg o
    simp only [XSKInterfaces.updateDevmap, unopened, updateDevmap, if_neg checked, failed,
      negative, if_true]
    exact ⟨trivial, slot⟩
  · rw [opened] at updates
    rw [← same] at slot
    obtain ⟨ret, devmap⟩ := update_refines o c found updates slot
    rw [ret, devmap]
    unfold updateDevmap
    simp only [if_neg checked, opened, if_neg descriptor]
    split
    · exact ⟨rfl, rfl⟩
    · exact ⟨rfl, rfl⟩

end XSKMaps
