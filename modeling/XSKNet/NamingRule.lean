import XSKNet.PortNames
import XSKNet.DeviceOption

/- The five places that build the interface names of a port, each in arrays of its own. Four
   of them get the prefix as it was received and one gets the key that the table keeps. -/
namespace XSKNaming
open CStrings XSKVeth XSKInterfaces XSKPorts XSKNames XSKDeviceOption Runs

abbrev IF_NAMESIZE : Nat := 16

/-- snprintf of "%s_inner" and "%s_outer", with given the memory at the prefix. -/
def bothNames (inner outer : CharArray IFNAMSIZ) (given : List UInt8) : CString × CString :=
  ((inner.snprintf [CString.ofArray given, innerSuffix]).read,
    (outer.snprintf [CString.ofArray given, outerSuffix]).read)

def createPortNames (inner outer : CharArray IFNAMSIZ) (given : List UInt8) : CString × CString :=
  bothNames inner outer given

def deletePortNames (inner outer : CharArray IFNAMSIZ) (given : List UInt8) : CString × CString :=
  bothNames inner outer given

/-- struct veth_pair as veth_list_add leaves it; strdup makes the names strings. -/
structure NewEntry where
  prefixArray : CharArray 16
  veth1 : CString
  veth2 : CString

def vethListAddEntry (malloced : CharArray 16) (veth1 veth2 : CharArray IFNAMSIZ)
    (given : List UInt8) : NewEntry :=
  ⟨malloced.copyGuarded given, (bothNames veth1 veth2 given).1, (bothNames veth1 veth2 given).2⟩

def unloadListPrefix (current : NewEntry) : List UInt8 := current.prefixArray.bytes

def initXskSocketIfname (given : List UInt8) : CString :=
  let ifname : CharArray IF_NAMESIZE := ⟨List.replicate IF_NAMESIZE 0, List.length_replicate⟩
  (ifname.snprintf [CString.ofArray given, innerSuffix]).read

structure Scratch where
  malloced : CharArray 16
  veth1 : CharArray IFNAMSIZ
  veth2 : CharArray IFNAMSIZ
  createInner : CharArray IFNAMSIZ
  createOuter : CharArray IFNAMSIZ
  deleteInner : CharArray IFNAMSIZ
  deleteOuter : CharArray IFNAMSIZ
  unloadInner : CharArray IFNAMSIZ
  unloadOuter : CharArray IFNAMSIZ

def Scratch.entry (s : Scratch) (given : List UInt8) : NewEntry :=
  vethListAddEntry s.malloced s.veth1 s.veth2 given

structure OneRule (given : List UInt8) (s : Scratch) : Prop where
  created : createPortNames s.createInner s.createOuter given =
    ((s.entry given).veth1, (s.entry given).veth2)
  deleted : deletePortNames s.deleteInner s.deleteOuter given =
    ((s.entry given).veth1, (s.entry given).veth2)
  unloaded : deletePortNames s.unloadInner s.unloadOuter (unloadListPrefix (s.entry given)) =
    ((s.entry given).veth1, (s.entry given).veth2)
  opened : initXskSocketIfname given = (s.entry given).veth1

/- The names of the full prefix and of the key. -/

theorem innerName_storedKey (p : CString) : innerName (storedKey p) = innerName p :=
  CString.snprintf_truncate 15 p innerSuffix

theorem outerName_storedKey (p : CString) : outerName (storedKey p) = outerName p :=
  CString.snprintf_truncate 15 p outerSuffix

/-- Whatever the arrays held before, the names are those of the string at given. -/
theorem bothNames_eq (inner outer : CharArray IFNAMSIZ) (given : List UInt8) :
    bothNames inner outer given =
      (innerName (CString.ofArray given), outerName (CString.ofArray given)) := by
  simp only [bothNames, CharArray.read_snprintf]
  rfl

theorem unloadListPrefix_string (malloced : CharArray 16) (veth1 veth2 : CharArray IFNAMSIZ)
    (given : List UInt8) :
    CString.ofArray (unloadListPrefix (vethListAddEntry malloced veth1 veth2 given)) =
      storedKey (CString.ofArray given) :=
  CharArray.read_copyGuarded malloced given

/-- For a prefix of any length the five places build the same names. -/
theorem naming_rule_coincides (given : List UInt8) (s : Scratch) : OneRule given s := by
  have stored : ((s.entry given).veth1, (s.entry given).veth2) =
      (innerName (CString.ofArray given), outerName (CString.ofArray given)) :=
    bothNames_eq s.veth1 s.veth2 given
  constructor
  · rw [stored]
    exact bothNames_eq _ _ given
  · rw [stored]
    exact bothNames_eq _ _ given
  · rw [stored, deletePortNames, bothNames_eq, Scratch.entry, unloadListPrefix_string,
      innerName_storedKey, outerName_storedKey]
  · have inner : (s.entry given).veth1 = innerName (CString.ofArray given) :=
      congrArg Prod.fst stored
    rw [inner, initXskSocketIfname, CharArray.read_snprintf]
    rfl

/- The commands and the table with their names. -/

def createPortWith (o : Outcomes) (p : CString) (names : CString × CString) (d : Daemon) :
    Except Daemon Daemon :=
  let (inner, outer) := names
  let d := { d with veths := (vethListAdd (o .malloc) d.veths p).2 }
  let d := { d with
    kernel := createVeth (o .createScript) inner outer d.kernel
    commands := d.commands ++ [createCmd inner outer] }
  match loadXdpAndAttachToIfname o .outer outer .redirectDummy false d.kernel with
  | none => .error d
  | some (_, k) =>
    let d := { d with kernel := k }
    match loadXdpAndAttachToIfname o .inner inner .sock true d.kernel with
    | none => .error d
    | some (_, k) => .ok { d with kernel := (updateDevmap o (ifNametoindex k outer) k).2 }

def deletePortWith (o : Outcomes) (p : CString) (names : CString × CString) (d : Daemon) :
    Daemon :=
  let (inner, outer) := names
  let d := { d with veths := (vethListRemove d.veths p).2 }
  let d := { d with kernel := (unloadXdpFromIfname o .outer outer d.kernel).2 }
  let d := { d with kernel := (unloadXdpFromIfname o .inner inner d.kernel).2 }
  { d with
    kernel := deleteVeth (o .deleteScript) (o .clearSlot) inner d.kernel
    commands := d.commands ++ [deleteCmd inner] }

theorem createPort_names (o : Outcomes) (inner outer : CharArray IFNAMSIZ) (given : List UInt8)
    (d : Daemon) : createPort o (CString.ofArray given) d =
      createPortWith o (CString.ofArray given) (createPortNames inner outer given) d := by
  rw [createPortNames, bothNames_eq]
  rfl

theorem deletePort_names (o : Outcomes) (inner outer : CharArray IFNAMSIZ) (given : List UInt8)
    (d : Daemon) : deletePort o (CString.ofArray given) d =
      deletePortWith o (CString.ofArray given) (deletePortNames inner outer given) d := by
  rw [deletePortNames, bothNames_eq]
  rfl

theorem newEntry_arrays (malloced : CharArray 16) (veth1 veth2 : CharArray IFNAMSIZ)
    (given : List UInt8) :
    (newEntry (CString.ofArray given)).key =
        (vethListAddEntry malloced veth1 veth2 given).prefixArray.read ∧
      ((newEntry (CString.ofArray given)).veth1, (newEntry (CString.ofArray given)).veth2) =
        ((vethListAddEntry malloced veth1 veth2 given).veth1,
          (vethListAddEntry malloced veth1 veth2 given).veth2) :=
  ⟨(unloadListPrefix_string malloced veth1 veth2 given).symm, (bothNames_eq veth1 veth2 given).symm⟩

theorem xskIfname_array (given : List UInt8) :
    xskIfname (CString.ofArray given) = initXskSocketIfname given := by
  rw [initXskSocketIfname, CharArray.read_snprintf]
  rfl

/-- An entry of the table, found again by any prefix with its key, names the interfaces that
    the commands for this prefix act on and that its client opens. -/
theorem table_follows_rule {allowed : CString → Prop} {m : VethMap}
    (run : Reached NoPorts (TableStep allowed) m) {e : VethPair} (stored : e ∈ m) {p : CString}
    (same : e.key = storedKey p) :
    (∀ o d, createPort o p d = createPortWith o p (e.veth1, e.veth2) d) ∧
      (∀ o d, deletePort o p d = deletePortWith o p (e.veth1, e.veth2) d) ∧
      (∀ o d, deletePort o e.key d = deletePortWith o e.key (e.veth1, e.veth2) d) ∧
      xskIfname p = e.veth1 := by
  obtain ⟨q, -, rfl⟩ := reached_made run e stored
  have key : storedKey q = storedKey p := same
  have inner : innerName q = innerName p := by
    rw [← innerName_storedKey q, key, innerName_storedKey]
  have outer : outerName q = outerName p := by
    rw [← outerName_storedKey q, key, outerName_storedKey]
  have names : ((newEntry q).veth1, (newEntry q).veth2) = (innerName p, outerName p) :=
    congrArg₂ Prod.mk inner outer
  refine ⟨?_, ?_, ?_, inner.symm⟩
  · intro o d
    rw [names]
    rfl
  · intro o d
    rw [names]
    rfl
  · intro o d
    rw [names, ← innerName_storedKey p, ← outerName_storedKey p, ← same]
    rfl

end XSKNaming
