import XSKNet.Interfaces
import XSKNet.VethList

/- create_port and delete_port of socket_cmds.c. Every step is performed whatever the ones
   before it returned; only a failing load of an XDP object ends the daemon. What a shell
   does with a line that is not a plain invocation of the script is not modelled. -/
namespace XSKPorts
open CStrings ShellWords XSKVeth XSKInterfaces

abbrev CMD_SIZE : Nat := 1024

structure Daemon where
  veths : VethMap
  kernel : Kernel
  commands : List CString

def createScriptPath : CString := ⟨ascii "./scripts/create_veth.sh", by decide⟩
def deleteScriptPath : CString := ⟨ascii "./scripts/delete_veth.sh", by decide⟩
def space : CString := ⟨[32], by decide⟩

def createCmd (inner outer : CString) : CString :=
  CString.snprintf CMD_SIZE [createScriptPath, space, inner, space, outer]

def deleteCmd (inner : CString) : CString :=
  CString.snprintf CMD_SIZE [deleteScriptPath, space, inner]

/-- error is the daemon exiting in the given state. -/
def createPort (o : Outcomes) (p : CString) (d : Daemon) : Except Daemon Daemon :=
  let d := { d with veths := (vethListAdd (o .malloc) d.veths p).2 }
  let inner := innerName p
  let outer := outerName p
  let d := { d with
    kernel := createVeth (o .createScript) inner outer d.kernel
    commands := d.commands ++ [createCmd inner outer] }
  match loadXdpAndAttachToIfname o .outer outer .redirectDummy false d.kernel with
  | none => .error d
  | some (_, k) =>
    let d := { d with kernel := k }
    match loadXdpAndAttachToIfname o .inner inner .sock true d.kernel with
    | none => .error d
    | some (_, k) => .ok { d with kernel := (updateDevmap o (ifNametoindex k outer) k).2 }

def deletePort (o : Outcomes) (p : CString) (d : Daemon) : Daemon :=
  let inner := innerName p
  let outer := outerName p
  let d := { d with veths := (vethListRemove d.veths p).2 }
  let d := { d with kernel := (unloadXdpFromIfname o .outer outer d.kernel).2 }
  let d := { d with kernel := (unloadXdpFromIfname o .inner inner d.kernel).2 }
  { d with
    kernel := deleteVeth (o .deleteScript) (o .clearSlot) inner d.kernel
    commands := d.commands ++ [deleteCmd inner] }

def bareDaemon : Daemon := ⟨[], ⟨fun _ => none, 1, fun _ => none, 0, none⟩, []⟩

/- Interface names of short plain prefixes. -/

/-- A prefix made of plain bytes that is short enough for the two names to stay apart. -/
structure PortPrefix (p : CString) : Prop where
  short : p.length ≤ 13
  plain : ∀ b ∈ p.bytes, plainByte b = true ∧ b ≠ 47 ∧ b ≠ 58

instance (p : CString) : Decidable (PortPrefix p) :=
  decidable_of_iff (p.length ≤ 13 ∧ ∀ b ∈ p.bytes, plainByte b = true ∧ b ≠ 47 ∧ b ≠ 58)
    ⟨fun h => ⟨h.1, h.2⟩, fun h => ⟨h.short, h.plain⟩⟩

theorem innerName_bytes (p : CString) :
    (innerName p).bytes = (p.bytes ++ 95 :: ascii "inner").take 15 := by
  rw [innerName, CString.snprintf_bytes]
  simp [innerSuffix, ascii]
  rfl

theorem outerName_bytes (p : CString) :
    (outerName p).bytes = (p.bytes ++ 95 :: ascii "outer").take 15 := by
  rw [outerName, CString.snprintf_bytes]
  simp [outerSuffix, ascii]
  rfl

theorem marked_inj {p q : CString} (hp : p.length ≤ 13) (hq : q.length ≤ 13)
    {s t : List UInt8} (hs : 95 ∉ s) (ht : 95 ∉ t)
    (same : (p.bytes ++ 95 :: s).take 15 = (q.bytes ++ 95 :: t).take 15) :
    p = q ∧ s.head? = t.head? := by
  have shortp : p.bytes.length ≤ 13 := hp
  have shortq : q.bytes.length ≤ 13 := hq
  obtain ⟨stems, tails⟩ := take_marked_inj (by omega) (by omega) hs ht same
  obtain ⟨k, room⟩ : ∃ k, 15 - p.bytes.length - 1 = k + 1 := ⟨13 - p.bytes.length, by omega⟩
  rw [room] at tails
  have heads := congrArg List.head? tails
  rw [List.head?_take, List.head?_take] at heads
  exact ⟨CString.ext_bytes stems, by simpa using heads⟩

theorem innerName_inj {p q : CString} (hp : p.length ≤ 13) (hq : q.length ≤ 13)
    (same : innerName p = innerName q) : p = q := by
  have bytes := congrArg CString.bytes same
  rw [innerName_bytes, innerName_bytes] at bytes
  exact (marked_inj hp hq (by decide) (by decide) bytes).1

theorem outerName_inj {p q : CString} (hp : p.length ≤ 13) (hq : q.length ≤ 13)
    (same : outerName p = outerName q) : p = q := by
  have bytes := congrArg CString.bytes same
  rw [outerName_bytes, outerName_bytes] at bytes
  exact (marked_inj hp hq (by decide) (by decide) bytes).1

theorem inner_ne_outer {p q : CString} (hp : p.length ≤ 13) (hq : q.length ≤ 13) :
    innerName p ≠ outerName q := by
  intro same
  have bytes := congrArg CString.bytes same
  rw [innerName_bytes, outerName_bytes] at bytes
  have heads := (marked_inj hp hq (by decide) (by decide) bytes).2
  exact absurd heads (by decide)

theorem short_names_apart {p q : CString} (hp : p.length ≤ 13) (hq : q.length ≤ 13)
    (other : q ≠ p) :
    innerName q ≠ innerName p ∧ innerName q ≠ outerName p ∧
      outerName q ≠ innerName p ∧ outerName q ≠ outerName p := by
  refine ⟨?_, inner_ne_outer hq hp, Ne.symm (inner_ne_outer hp hq), ?_⟩
  · intro same
    exact other (innerName_inj hq hp same)
  · intro same
    exact other (outerName_inj hq hp same)

theorem names_apart {p q : CString} (hp : PortPrefix p) (hq : PortPrefix q) (other : q ≠ p) :
    innerName q ≠ innerName p ∧ innerName q ≠ outerName p ∧
      outerName q ≠ innerName p ∧ outerName q ≠ outerName p :=
  short_names_apart hp.short hq.short other

theorem PortPrefix.fits {p : CString} (hp : PortPrefix p) : p.length ≤ 15 :=
  Nat.le_trans hp.short (by decide)

theorem marked_accepted {p n : CString} (hp : PortPrefix p) {s : List UInt8}
    (bytes : n.bytes = (p.bytes ++ 95 :: s).take 15)
    (suffix : ∀ b ∈ s, plainByte b = true ∧ b ≠ 47 ∧ b ≠ 58) : NameAccepted n := by
  have short : p.bytes.length ≤ 13 := hp.short
  have clean : ∀ b ∈ n.bytes, plainByte b = true ∧ b ≠ 47 ∧ b ≠ 58 := by
    intro b member
    rw [bytes] at member
    rcases List.mem_append.mp (List.mem_of_mem_take member) with stem | rest
    · exact hp.plain b stem
    · rcases List.mem_cons.mp rest with rfl | tail
      · decide
      · exact suffix b tail
  have marker : (95 : UInt8) ∈ n.bytes := by
    rw [bytes, List.take_append, List.mem_append]
    right
    obtain ⟨k, room⟩ : ∃ k, 15 - p.bytes.length = k + 1 := ⟨14 - p.bytes.length, by omega⟩
    rw [room]
    exact List.mem_cons_self
  have nonempty : n.bytes ≠ [] := List.ne_nil_of_mem marker
  refine ⟨⟨nonempty, fun b member => (clean b member).1⟩, ?_⟩
  have fits : n.bytes.length ≤ 15 := by
    rw [bytes]
    exact List.length_take_le 15 _
  have not_dot : n.bytes ≠ [dot] := by
    intro same
    rw [same] at marker
    exact absurd marker (by decide)
  have not_dots : n.bytes ≠ [dot, dot] := by
    intro same
    rw [same] at marker
    exact absurd marker (by decide)
  have legal : (n.bytes.all fun b => b != 47 && b != 58 && !isSpace b) = true := by
    rw [List.all_eq_true]
    intro b member
    obtain ⟨plain, not_slash, not_colon⟩ := clean b member
    have no_space : isSpace b = false :=
      plain_no_space ⟨nonempty, fun c at_c => (clean c at_c).1⟩ b member
    simp [not_slash, not_colon, no_space]
  simp [devValidName, nonempty, fits, not_dot, not_dots, legal]

theorem innerName_accepted {p : CString} (hp : PortPrefix p) : NameAccepted (innerName p) :=
  marked_accepted hp (innerName_bytes p) (by decide)

theorem outerName_accepted {p : CString} (hp : PortPrefix p) : NameAccepted (outerName p) :=
  marked_accepted hp (outerName_bytes p) (by decide)

/- What the two commands do, step by step. -/

theorem createPort_spec {o : Outcomes} {p : CString} {d d' : Daemon}
    (done : createPort o p d = .ok d') :
    ∃ k, k = createVeth (o .createScript) (innerName p) (outerName p) d.kernel ∧
      d'.veths = (vethListAdd (o .malloc) d.veths p).2 ∧
      d'.commands = d.commands ++ [createCmd (innerName p) (outerName p)] ∧
      d'.kernel.link = attached (o (.attach .inner)) (innerName p) .sock
        (attached (o (.attach .outer)) (outerName p) .redirectDummy k.link) ∧
      d'.kernel.nextIndex = k.nextIndex ∧
      d'.kernel.devmap = if openDevmapFile o = some true ∧ o .updateDevmap = true then
          if ifNametoindex k (outerName p) = 0 then none
          else some (ifNametoindex k (outerName p))
        else k.devmap := by
  refine ⟨_, rfl, ?_⟩
  generalize made : createVeth (o .createScript) (innerName p) (outerName p) d.kernel = k
  unfold createPort at done
  simp only [made] at done
  cases outerLoads : o (.load .outer) with
  | false => simp [loadXdpAndAttachToIfname, outerLoads] at done
  | true =>
    obtain ⟨err₁, k₁, load₁, link₁, devmap₁, index₁⟩ :=
      load_spec o .outer (outerName p) .redirectDummy false k outerLoads
    rw [load₁] at done
    cases innerLoads : o (.load .inner) with
    | false => simp [loadXdpAndAttachToIfname, innerLoads] at done
    | true =>
      obtain ⟨err₂, k₂, load₂, link₂, devmap₂, index₂⟩ :=
        load_spec o .inner (innerName p) .sock true k₁ innerLoads
      dsimp only at done
      rw [load₂] at done
      obtain rfl := Except.ok.inj done
      obtain ⟨link₃, index₃⟩ := updateDevmap_link o (ifNametoindex k₂ (outerName p)) k₂
      have same : ifNametoindex k₂ (outerName p) = ifNametoindex k (outerName p) := by
        simp only [ifNametoindex_shape, link₂, link₁, shape_attached]
      refine ⟨rfl, rfl, ?_, ?_, ?_⟩
      · exact link₃.trans (link₂.trans (congrArg _ link₁))
      · exact index₃.trans (index₂.trans index₁)
      · exact (updateDevmap_devmap o _ k₂).trans (by rw [same, devmap₂, devmap₁])

theorem deletePort_spec (o : Outcomes) (p : CString) (d : Daemon) :
    ∃ k, (deletePort o p d).kernel =
        deleteVeth (o .deleteScript) (o .clearSlot) (innerName p) k ∧
      (deletePort o p d).veths = (vethListRemove d.veths p).2 ∧
      (deletePort o p d).commands = d.commands ++ [deleteCmd (innerName p)] ∧
      k.link = detached (o (.getMultiprog .inner) && o (.detach .inner)) (innerName p)
        (detached (o (.getMultiprog .outer) && o (.detach .outer)) (outerName p)
          d.kernel.link) ∧
      k.devmap = d.kernel.devmap ∧ k.nextIndex = d.kernel.nextIndex := by
  obtain ⟨link₁, devmap₁, index₁⟩ := unload_spec o .outer (outerName p) d.kernel
  obtain ⟨link₂, devmap₂, index₂⟩ := unload_spec o .inner (innerName p)
    (unloadXdpFromIfname o .outer (outerName p) d.kernel).2
  refine ⟨_, rfl, rfl, rfl, ?_, devmap₂.trans devmap₁, index₂.trans index₁⟩
  rw [link₂, link₁]

theorem deletePort_pinned (o : Outcomes) (p : CString) (d : Daemon) :
    (deletePort o p d).kernel.pinned = d.kernel.pinned ∧
      (deletePort o p d).kernel.nextMap = d.kernel.nextMap := by
  obtain ⟨pinned₁, next₁⟩ := unload_pinned o .outer (outerName p) d.kernel
  obtain ⟨pinned₂, next₂⟩ := unload_pinned o .inner (innerName p)
    (unloadXdpFromIfname o .outer (outerName p) d.kernel).2
  obtain ⟨pinned₃, next₃⟩ := deleteVeth_pinned (o .deleteScript) (o .clearSlot) (innerName p)
    (unloadXdpFromIfname o .inner (innerName p)
      (unloadXdpFromIfname o .outer (outerName p) d.kernel).2).2
  exact ⟨pinned₃.trans (pinned₂.trans pinned₁), next₃.trans (next₂.trans next₁)⟩

theorem create_runs {o : Outcomes} (outer : o (.load .outer) = true)
    (inner : o (.load .inner) = true) (p : CString) (d : Daemon) :
    ∃ d', createPort o p d = .ok d' ∧ d'.veths = (vethListAdd (o .malloc) d.veths p).2 := by
  unfold createPort
  obtain ⟨err, k, load, -⟩ := load_spec o .outer (outerName p) .redirectDummy false
    (createVeth (o .createScript) (innerName p) (outerName p) d.kernel) outer
  obtain ⟨err', k', load', -⟩ := load_spec o .inner (innerName p) .sock true k inner
  simp only [load, load']
  exact ⟨_, rfl, rfl⟩

end XSKPorts
