import XSKNet.RedirectTarget
import XSKNet.CommandSocket

/- create_port and delete_port when the table turns the prefix down. The answer of the
   table is only logged and every later step still runs, so a rejected command does what
   those steps do to the interfaces as they are. -/
namespace XSKRejected
open CStrings ShellWords XSKVeth XSKInterfaces XSKPorts XSKCommandSocket

/-- The daemon goes on, with the table, the interfaces and their programs, the pinned maps
    and slot 0 as they were. -/
def Unchanged (d : Daemon) (r : Except Daemon Daemon) : Prop :=
  ∃ d', r = .ok d' ∧ d'.veths = d.veths ∧ d'.kernel.link = d.kernel.link ∧
    d'.kernel.pinned = d.kernel.pinned ∧ d'.kernel.devmap = d.kernel.devmap

/-- The names made from p reach the scripts as they are. -/
def PlainNames (p : CString) : Prop := Plain (innerName p).bytes ∧ Plain (outerName p).bytes

instance decidablePlainNames (p : CString) : Decidable (PlainNames p) :=
  inferInstanceAs (Decidable (_ ∧ _))

def Attaches (o : Outcomes) (side : Side) (ifname : CString) (k : Kernel) : Prop :=
  (k.link ifname).isSome = true ∧ o (.attach side) = true

def Detaches (o : Outcomes) (side : Side) (ifname : CString) (k : Kernel) : Prop :=
  ∃ l, k.link ifname = some l ∧ l.progs ≠ [] ∧ o (.getMultiprog side) = true ∧
    o (.detach side) = true

structure QuietCreate (o : Outcomes) (p : CString) (k : Kernel) : Prop where
  outerLoads : o (.load .outer) = true
  innerLoads : o (.load .inner) = true
  notMade : ¬ (o .createScript = true ∧ CanCreate k (innerName p) (outerName p))
  outer : ¬ Attaches o .outer (outerName p) k
  inner : ¬ Attaches o .inner (innerName p) k
  slot : openDevmapFile o = some true → o .updateDevmap = true →
    k.devmap = if ifNametoindex k (outerName p) = 0 then none
      else some (ifNametoindex k (outerName p))

structure QuietDelete (o : Outcomes) (p : CString) (k : Kernel) : Prop where
  outer : ¬ Detaches o .outer (outerName p) k
  inner : ¬ Detaches o .inner (innerName p) k
  kept : k.link (innerName p) = none ∨ o .deleteScript = false

/- The number of programs on an interface only grows in create_port and only shrinks in
   delete_port, so no step makes good for an earlier one. -/

def progCount (link : CString → Option Link) (n : CString) : Nat :=
  ((link n).map fun l => l.progs.length).getD 0

theorem progCount_attached (ok : Bool) (ifname : CString) (prog : XdpProg)
    (link : CString → Option Link) (n : CString) :
    progCount link n ≤ progCount (attached ok ifname prog link) n := by
  unfold progCount attached
  split
  · cases link n with
    | none => exact Nat.le_refl _
    | some l => simp
  · exact Nat.le_refl _

theorem progCount_attaches {o : Outcomes} {side : Side} {ifname : CString} {k : Kernel}
    (attaches : Attaches o side ifname k) (prog : XdpProg) :
    progCount k.link ifname <
      progCount (attached (o (.attach side)) ifname prog k.link) ifname := by
  obtain ⟨present, ok⟩ := attaches
  obtain ⟨l, found⟩ := Option.isSome_iff_exists.mp present
  simp [progCount, attached, found, ok]

theorem progCount_detached (ok : Bool) (ifname : CString) (link : CString → Option Link)
    (n : CString) : progCount (detached ok ifname link) n ≤ progCount link n := by
  unfold progCount detached
  split
  · cases link n with
    | none => exact Nat.le_refl _
    | some l => simp
  · exact Nat.le_refl _

theorem progCount_detaches {o : Outcomes} {side : Side} {ifname : CString} {k : Kernel}
    (detaches : Detaches o side ifname k) :
    progCount (detached (o (.getMultiprog side) && o (.detach side)) ifname k.link) ifname <
      progCount k.link ifname := by
  obtain ⟨l, found, some_prog, read, ok⟩ := detaches
  simp only [progCount, detached, found, read, ok, Bool.and_self, and_self, if_true,
    Option.map_some, Option.getD_some, List.length_nil]
  exact List.length_pos_iff.mpr some_prog

/- Steps without effect. -/

theorem attached_quiet {o : Outcomes} {side : Side} {ifname : CString} {k : Kernel}
    (quiet : ¬ Attaches o side ifname k) (prog : XdpProg) :
    attached (o (.attach side)) ifname prog k.link = k.link := by
  funext n
  unfold attached
  split
  · rename_i here
    obtain ⟨rfl, ok⟩ := here
    cases found : k.link n with
    | none => rfl
    | some l => exact absurd ⟨by rw [found]; rfl, ok⟩ quiet
  · rfl

theorem load_quiet {o : Outcomes} {side : Side} {ifname : CString} {k : Kernel}
    (loads : o (.load side) = true) (quiet : ¬ Attaches o side ifname k) (prog : XdpProg)
    (pin : Bool) :
    loadXdpAndAttachToIfname o side ifname prog pin k = some (EXIT_FAIL_BPF, k) := by
  unfold loadXdpAndAttachToIfname
  cases found : k.link ifname with
  | none => simp [loads]
  | some l =>
    have refused : o (.attach side) = false := by
      cases ok : o (.attach side) with
      | false => rfl
      | true => exact absurd ⟨by rw [found]; rfl, ok⟩ quiet
    simp [loads, refused]

theorem createVeth_quiet {ok : Bool} {veth1 veth2 : CString} {k : Kernel}
    (quiet : ¬ (ok = true ∧ CanCreate k veth1 veth2)) : createVeth ok veth1 veth2 k = k :=
  if_neg quiet

theorem unload_quiet {o : Outcomes} {side : Side} {ifname : CString} {k : Kernel}
    (quiet : ¬ Detaches o side ifname k) : (unloadXdpFromIfname o side ifname k).2 = k := by
  unfold unloadXdpFromIfname
  cases found : k.link ifname with
  | none => rfl
  | some l =>
    dsimp only
    split
    · rfl
    · rename_i readable
      rw [not_or, Bool.not_eq_false] at readable
      split
      · rfl
      · rename_i ok
        rw [Bool.not_eq_false] at ok
        exact absurd ⟨l, found, readable.2, readable.1, ok⟩ quiet

/- create_port of a registered prefix. -/

theorem load_refused {o : Outcomes} {side : Side} (fails : o (.load side) = false)
    (ifname : CString) (prog : XdpProg) (pin : Bool) (k : Kernel) :
    loadXdpAndAttachToIfname o side ifname prog pin k = none :=
  if_pos fails

theorem create_loads {o : Outcomes} {p : CString} {d d' : Daemon}
    (done : createPort o p d = .ok d') : o (.load .outer) = true ∧ o (.load .inner) = true := by
  unfold createPort at done
  dsimp only at done
  cases outer : o (.load .outer) with
  | false =>
    rw [load_refused outer] at done
    cases done
  | true =>
    cases inner : o (.load .inner) with
    | false =>
      obtain ⟨err, k, load, -⟩ := load_spec o .outer (outerName p) .redirectDummy false
        (createVeth (o .createScript) (innerName p) (outerName p) d.kernel) outer
      simp only [load, load_refused inner] at done
      cases done
    | true => exact ⟨rfl, rfl⟩

theorem made_shape {o : Outcomes} {p : CString} {k : Kernel}
    (made : o .createScript = true ∧ CanCreate k (innerName p) (outerName p)) :
    (shape (createVeth (o .createScript) (innerName p) (outerName p) k).link
      (innerName p)).isSome = true := by
  obtain ⟨link, -, -⟩ := createVeth_made made.2
  rw [made.1]
  simp [shape, link]

theorem quiet_of_unchanged {o : Outcomes} {p : CString} {d : Daemon}
    (unchanged : Unchanged d (createPort o p d)) : QuietCreate o p d.kernel := by
  obtain ⟨d', done, -, sameLink, -, sameSlot⟩ := unchanged
  obtain ⟨outerLoads, innerLoads⟩ := create_loads done
  obtain ⟨k, made, -, -, link, -, devmap⟩ := createPort_spec done
  have notMade : ¬ (o .createScript = true ∧ CanCreate d.kernel (innerName p) (outerName p)) := by
    intro both
    have present := made_shape both
    rw [← made] at present
    have kept : shape d.kernel.link = shape k.link := by
      rw [← sameLink, link, shape_attached, shape_attached]
    rw [← kept] at present
    have absent : d.kernel.link (innerName p) = none := both.2.2.2.2.1
    simp [shape, absent] at present
  rw [createVeth_quiet notMade] at made
  subst made
  rw [sameLink] at link
  have outer : ¬ Attaches o .outer (outerName p) d.kernel := by
    intro attaches
    have more := progCount_attaches attaches .redirectDummy
    have kept := progCount_attached (o (.attach .inner)) (innerName p) .sock
      (attached (o (.attach .outer)) (outerName p) .redirectDummy d.kernel.link) (outerName p)
    rw [← link] at kept
    omega
  rw [attached_quiet outer] at link
  have inner : ¬ Attaches o .inner (innerName p) d.kernel := by
    intro attaches
    have more := progCount_attaches attaches .sock
    rw [← link] at more
    omega
  refine ⟨outerLoads, innerLoads, notMade, outer, inner, ?_⟩
  intro opened updated
  rw [if_pos ⟨opened, updated⟩, sameSlot] at devmap
  exact devmap

theorem unchanged_of_quiet {o : Outcomes} {p : CString} {d : Daemon}
    (registered : p ∈ keys d.veths) (quiet : QuietCreate o p d.kernel) :
    Unchanged d (createPort o p d) := by
  have done : createPort o p d = .ok { d with
      kernel := (updateDevmap o (ifNametoindex d.kernel (outerName p)) d.kernel).2
      commands := d.commands ++ [createCmd (innerName p) (outerName p)] } := by
    unfold createPort
    simp only [vethListAdd_registered _ registered, createVeth_quiet quiet.notMade,
      load_quiet quiet.outerLoads quiet.outer, load_quiet quiet.innerLoads quiet.inner]
  obtain ⟨link, -⟩ := updateDevmap_link o (ifNametoindex d.kernel (outerName p)) d.kernel
  refine ⟨_, done, rfl, link, (updateDevmap_pinned o _ d.kernel).1, ?_⟩
  refine (updateDevmap_devmap o _ d.kernel).trans ?_
  split
  · rename_i both
    exact (quiet.slot both.1 both.2).symm
  · rfl

theorem pinMaps_pinned (o : Outcomes) {subdir n : CString} (other : n ≠ subdir) (k : Kernel) :
    (pinMapsInBpfObject o subdir k).2.pinned n = k.pinned n := by
  unfold pinMapsInBpfObject
  split
  · rfl
  · dsimp only
    split
    · simp [other]
    · simp [other]

theorem load_pinned_other {o : Outcomes} {side : Side} {ifname n : CString} {prog : XdpProg}
    {pin : Bool} {k k' : Kernel} {err : Int} (other : n ≠ ifname)
    (done : loadXdpAndAttachToIfname o side ifname prog pin k = some (err, k')) :
    k'.pinned n = k.pinned n := by
  unfold loadXdpAndAttachToIfname at done
  split at done
  · cases done
  · split at done
    · cases done
      rfl
    · split at done
      · cases done
        rfl
      · dsimp only at done
        split at done
        · cases done
          rfl
        · split at done
          · cases done
            rfl
          · obtain ⟨-, rfl⟩ := Prod.mk.inj (Option.some.inj done)
            exact pinMaps_pinned o other _

theorem createPort_pinned {o : Outcomes} {p n : CString} {d d' : Daemon}
    (done : createPort o p d = .ok d') (notInner : n ≠ innerName p) (notOuter : n ≠ outerName p) :
    d'.kernel.pinned n = d.kernel.pinned n := by
  unfold createPort at done
  dsimp only at done
  split at done
  · cases done
  · rename_i err₁ k₁ load₁
    split at done
    · cases done
    · rename_i err₂ k₂ load₂
      obtain rfl := Except.ok.inj done
      dsimp only
      rw [(updateDevmap_pinned o _ k₂).1, load_pinned_other notInner load₂,
        load_pinned_other notOuter load₁,
        (createVeth_pinned _ _ _ d.kernel).1]

theorem attached_other {ok : Bool} {ifname n : CString} {prog : XdpProg}
    {link : CString → Option Link} (other : n ≠ ifname) :
    attached ok ifname prog link n = link n :=
  if_neg fun here => other here.1

theorem detached_other {ok : Bool} {ifname n : CString} {link : CString → Option Link}
    (other : n ≠ ifname) : detached ok ifname link n = link n :=
  if_neg fun here => other here.1

theorem createPort_others {o : Outcomes} {p n : CString} {d d' : Daemon}
    (done : createPort o p d = .ok d') (notInner : n ≠ innerName p) (notOuter : n ≠ outerName p) :
    d'.kernel.link n = d.kernel.link n ∧ d'.kernel.pinned n = d.kernel.pinned n := by
  constructor
  · obtain ⟨k, rfl, -, -, link, -⟩ := createPort_spec done
    rw [link, attached_other notInner, attached_other notOuter,
      createVeth_other _ _ _ _ notInner notOuter]
  · exact createPort_pinned done notInner notOuter

/- delete_port of an unregistered prefix. -/

theorem deleteVeth_quiet {ok : Bool} (clears : Bool) {veth : CString} {k : Kernel}
    (kept : k.link veth = none ∨ ok = false) : deleteVeth ok clears veth k = k := by
  rcases kept with absent | refused
  · exact deleteVeth_absent ok clears absent
  · rw [refused]
    exact deleteVeth_failed clears veth k

theorem unchanged_of_quiet_delete {o : Outcomes} {p : CString} {d : Daemon}
    (absent : p ∉ keys d.veths) (quiet : QuietDelete o p d.kernel) :
    Unchanged d (.ok (deletePort o p d)) := by
  have table : (deletePort o p d).veths = d.veths := by
    unfold deletePort
    rw [vethListRemove_absent absent]
  have kernel : (deletePort o p d).kernel = d.kernel := by
    unfold deletePort
    simp only [unload_quiet quiet.outer, unload_quiet quiet.inner,
      deleteVeth_quiet (o .clearSlot) quiet.kept]
  refine ⟨_, rfl, table, ?_, ?_, ?_⟩
  · rw [kernel]
  · rw [kernel]
  · rw [kernel]

theorem kept_of_same_link {ok clears : Bool} {veth : CString} {k k₀ : Kernel}
    (sameShape : shape k.link = shape k₀.link)
    (same : (deleteVeth ok clears veth k).link = k₀.link) : k.link veth = none ∨ ok = false := by
  cases found : k.link veth with
  | none => exact Or.inl rfl
  | some l =>
    right
    cases ok with
    | false => rfl
    | true =>
      obtain ⟨gone, -⟩ := deleteVeth_done clears found
      have absent : k₀.link veth = none := by
        rw [← same, gone]
        simp [removed]
      have shapes := congrFun sameShape veth
      simp [shape, found, absent] at shapes

theorem no_detach_of_same_link {o : Outcomes} {p : CString} {k : Kernel}
    (same : k.link = detached (o (.getMultiprog .inner) && o (.detach .inner)) (innerName p)
      (detached (o (.getMultiprog .outer) && o (.detach .outer)) (outerName p) k.link)) :
    ¬ Detaches o .outer (outerName p) k ∧ ¬ Detaches o .inner (innerName p) k := by
  have outer : ¬ Detaches o .outer (outerName p) k := by
    intro detaches
    have less := progCount_detaches detaches
    have kept := progCount_detached (o (.getMultiprog .inner) && o (.detach .inner))
      (innerName p) (detached (o (.getMultiprog .outer) && o (.detach .outer)) (outerName p)
        k.link) (outerName p)
    rw [← same] at kept
    omega
  have outerLink := (unload_spec o .outer (outerName p) k).1
  rw [unload_quiet outer] at outerLink
  rw [← outerLink] at same
  refine ⟨outer, fun detaches => ?_⟩
  have less := progCount_detaches detaches
  rw [← same] at less
  omega

theorem quiet_delete_of_unchanged {o : Outcomes} {p : CString} {d : Daemon}
    (unchanged : Unchanged d (.ok (deletePort o p d))) : QuietDelete o p d.kernel := by
  obtain ⟨d', done, -, sameLink, -, -⟩ := unchanged
  obtain rfl := Except.ok.inj done
  obtain ⟨k, kernel, -, -, link, -⟩ := deletePort_spec o p d
  have sameShape : shape k.link = shape d.kernel.link := by
    rw [link, shape_detached, shape_detached]
  rw [kernel] at sameLink
  have kept := kept_of_same_link sameShape sameLink
  rw [deleteVeth_quiet _ kept] at sameLink
  rw [sameLink] at link kept
  obtain ⟨outer, inner⟩ := no_detach_of_same_link link
  exact ⟨outer, inner, kept⟩

theorem deletePort_others {o : Outcomes} {p n : CString} {d : Daemon}
    (notInner : n ≠ innerName p) (notOuter : n ≠ outerName p)
    (notPeer : ∀ l, d.kernel.link (innerName p) = some l → n ≠ l.peer) :
    (deletePort o p d).kernel.link n = d.kernel.link n := by
  obtain ⟨k, kernel, -, -, link, -⟩ := deletePort_spec o p d
  have sameShape : shape k.link = shape d.kernel.link := by
    rw [link, shape_detached, shape_detached]
  have before : k.link n = d.kernel.link n := by
    rw [link, detached_other notInner, detached_other notOuter]
  rw [kernel]
  cases ok : o .deleteScript with
  | false => rw [deleteVeth_failed, before]
  | true =>
    cases found : k.link (innerName p) with
    | none => rw [deleteVeth_absent _ _ found, before]
    | some l =>
      obtain ⟨gone, -⟩ := deleteVeth_done (o .clearSlot) found
      have same := congrFun sameShape (innerName p)
      simp only [shape, found, Option.map_some] at same
      obtain ⟨l', found', pair⟩ := Option.map_eq_some_iff.mp same.symm
      have peer : l'.peer = l.peer := congrArg Prod.snd pair
      have other : n ≠ l.peer := peer ▸ notPeer l' found'
      rw [gone, removed, if_neg (by simp [notInner, other]), before]

/- Both commands. -/

theorem create_invokes {p : CString} (plain : PlainNames p) :
    Invokes (createCmd (innerName p) (outerName p)).bytes createScriptPath.bytes
      [(innerName p).bytes, (outerName p).bytes] := by
  have inner : (innerName p).bytes.length ≤ 15 := name_length_le p innerSuffix
  have outer : (outerName p).bytes.length ≤ 15 := name_length_le p outerSuffix
  rw [createCmd_line inner outer]
  refine (invokes_iff _ _ createScriptPath_plain).mpr ?_
  intro a member
  rcases List.mem_cons.mp member with rfl | last
  · exact plain.1
  · rw [List.mem_singleton.mp last]
    exact plain.2

theorem delete_invokes {p : CString} (plain : PlainNames p) :
    Invokes (deleteCmd (innerName p)).bytes deleteScriptPath.bytes [(innerName p).bytes] := by
  have inner : (innerName p).bytes.length ≤ 15 := name_length_le p innerSuffix
  rw [deleteCmd_line inner]
  refine (invokes_iff _ _ deleteScriptPath_plain).mpr ?_
  intro a member
  rw [List.mem_singleton.mp member]
  exact plain.1

/-- For a prefix whose names are plain words, so that the scripts get exactly these, a rejected
    command leaves the table and every interface that is not one of its own, and it leaves the
    whole state exactly when none of the later steps has an effect. -/
theorem rejected_command_effect (o : Outcomes) (p : CString) (d : Daemon)
    (plain : PlainNames p) :
    (p ∈ keys d.veths →
      Invokes (createCmd (innerName p) (outerName p)).bytes createScriptPath.bytes
        [(innerName p).bytes, (outerName p).bytes] ∧
      (∀ d', createPort o p d = .ok d' → d'.veths = d.veths ∧
        d'.commands = d.commands ++ [createCmd (innerName p) (outerName p)] ∧
        ∀ n, n ≠ innerName p → n ≠ outerName p →
          d'.kernel.link n = d.kernel.link n ∧ d'.kernel.pinned n = d.kernel.pinned n) ∧
      (Unchanged d (createPort o p d) ↔ QuietCreate o p d.kernel)) ∧
    (p ∉ keys d.veths →
      Invokes (deleteCmd (innerName p)).bytes deleteScriptPath.bytes [(innerName p).bytes] ∧
      (deletePort o p d).veths = d.veths ∧
      (deletePort o p d).commands = d.commands ++ [deleteCmd (innerName p)] ∧
      (deletePort o p d).kernel.pinned = d.kernel.pinned ∧
      (∀ n, n ≠ innerName p → n ≠ outerName p →
        (∀ l, d.kernel.link (innerName p) = some l → n ≠ l.peer) →
          (deletePort o p d).kernel.link n = d.kernel.link n) ∧
      (Unchanged d (.ok (deletePort o p d)) ↔ QuietDelete o p d.kernel)) := by
  constructor
  · intro registered
    refine ⟨create_invokes plain, ?_, quiet_of_unchanged, unchanged_of_quiet registered⟩
    intro d' done
    obtain ⟨k, -, table, commands, -⟩ := createPort_spec done
    refine ⟨?_, commands, fun n => createPort_others done⟩
    rw [table, vethListAdd_registered _ registered]
  · intro absent
    obtain ⟨-, -, table, commands, -⟩ := deletePort_spec o p d
    refine ⟨delete_invokes plain, ?_, commands, (deletePort_pinned o p d).1,
      fun n => deletePort_others, quiet_delete_of_unchanged, unchanged_of_quiet_delete absent⟩
    rw [table, vethListRemove_absent absent]

def strandedDaemon : Daemon := { bareDaemon with veths := [newEntry portA] }

def loadsOnly : Outcomes := fun call => call = .load .outer || call = .load .inner

theorem rejected_command_effect_when_stranded :
    Unchanged strandedDaemon (createPort loadsOnly portA strandedDaemon) ∧
      Unchanged bareDaemon (.ok (deletePort loadsOnly portA bareDaemon)) := by
  have plain : PlainNames portA := by decide
  constructor
  · apply ((rejected_command_effect loadsOnly portA strandedDaemon plain).1 (by decide)).2.2.mpr
    refine ⟨rfl, rfl, fun made => absurd made.1 (by decide), fun attaches => ?_,
      fun attaches => ?_, fun opened => ?_⟩
    · exact absurd attaches.2 (by decide)
    · exact absurd attaches.2 (by decide)
    · exact absurd opened (by decide)
  · obtain ⟨-, -, -, -, -, quiet⟩ :=
      (rejected_command_effect loadsOnly portA bareDaemon plain).2 (by decide)
    apply quiet.mpr
    refine ⟨?_, ?_, Or.inl rfl⟩
    · rintro ⟨l, found, -⟩
      cases found
    · rintro ⟨l, found, -⟩
      cases found

/-- With a and b created, a rejected second create_port of a moves the redirect from b back
    to a; and a delete_port is rejected for interfaces left by a full table, and deletes them. -/
theorem rejected_commands_act :
    (∃ d d', runCmds (allOk true) [.create portA, .create portB] bareDaemon = .ok d ∧
      portA ∈ keys d.veths ∧ createPort (allOk true) portA d = .ok d' ∧
      d.kernel.devmap = some 3 ∧ d'.kernel.devmap = some 1 ∧
      ¬ Unchanged d (createPort (allOk true) portA d)) ∧
    ∃ d, createPort (fun call => call != .malloc) portA bareDaemon = .ok d ∧
      portA ∉ keys d.veths ∧ (d.kernel.link (innerName portA)).isSome = true ∧
      (deletePort (allOk true) portA d).kernel.link (innerName portA) = none ∧
      ¬ Unchanged d (.ok (deletePort (allOk true) portA d)) := by
  constructor
  · obtain ⟨d, d', done, registered, again, before, moved⟩ : ∃ d d',
        runCmds (allOk true) [.create portA, .create portB] bareDaemon = .ok d ∧
          portA ∈ keys d.veths ∧ createPort (allOk true) portA d = .ok d' ∧
          d.kernel.devmap = some 3 ∧ d'.kernel.devmap = some 1 :=
      ⟨_, _, rfl, by decide, rfl, by decide, by decide⟩
    refine ⟨d, d', done, registered, again, before, moved, ?_⟩
    rintro ⟨e, result, -, -, -, slot⟩
    rw [again] at result
    obtain rfl := Except.ok.inj result
    rw [before, moved] at slot
    exact absurd slot (by decide)
  · obtain ⟨d, done, absent, present, gone⟩ : ∃ d,
        createPort (fun call => call != .malloc) portA bareDaemon = .ok d ∧
          portA ∉ keys d.veths ∧ (d.kernel.link (innerName portA)).isSome = true ∧
          (deletePort (allOk true) portA d).kernel.link (innerName portA) = none :=
      ⟨_, rfl, by decide, by decide, by decide⟩
    refine ⟨d, done, absent, present, gone, ?_⟩
    rintro ⟨e, result, -, link, -⟩
    obtain rfl := Except.ok.inj result
    rw [← link, gone] at present
    cases present

end XSKRejected
