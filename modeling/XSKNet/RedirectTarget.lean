import XSKNet.Bookkeeping

/- Slot 0 of xdp_devmap over histories of ports. create_port writes the slot, delete_port
   leaves it alone, so deleting the port it names takes the target away from the others. -/
namespace XSKPorts
open CStrings XSKVeth XSKInterfaces Runs

/-- Every system step succeeds; whether the kernel clears the slot stays open. -/
def AllOk (o : Outcomes) : Prop :=
  ∀ call, call ≠ .clearSlot → call ≠ .descriptor40 → o call = true

def ValidCmd (d : Daemon) : PortCmd → Prop
  | .create p => PortPrefix p ∧ p ∉ keys d.veths
  | .delete p => PortPrefix p ∧ p ∈ keys d.veths

/-- With a port in the table, slot 0 holds the index of the outer interface of one. -/
def SlotLive (d : Daemon) : Prop :=
  d.veths ≠ [] → ∃ q i peer, q ∈ keys d.veths ∧
    shape d.kernel.link (outerName q) = some (i, peer) ∧ d.kernel.devmap = some i

/-- A deletion does not name the port in slot 0, unless no other port is left. -/
def StaysLive (d : Daemon) : PortCmd → Prop
  | .create _ => True
  | .delete p => d.kernel.devmap ≠ some (ifNametoindex d.kernel (outerName p)) ∨
      keys d.veths = [p]

def LiveStep (d d' : Daemon) : Prop :=
  ∃ o c, AllOk o ∧ ValidCmd d c ∧ StaysLive d c ∧ c.exec o d = .ok d'

structure InStep (d : Daemon) : Prop where
  wired : Wired d.kernel
  distinct : (keys d.veths).Nodup
  prefixes : ∀ q ∈ keys d.veths, PortPrefix q
  present : ∀ q, PortPrefix q → (q ∈ keys d.veths ↔ Present d.kernel q)

theorem keys_nonempty {d : Daemon} {q : CString} (member : q ∈ keys d.veths) :
    d.veths ≠ [] := fun empty => not_mem_keys_of_empty empty q member

theorem alone_or_other {m : VethMap} {p : CString} (distinct : (keys m).Nodup)
    (registered : p ∈ keys m) : keys m = [p] ∨ ∃ r ∈ keys m, r ≠ p := by
  by_cases other : ∃ r ∈ keys m, r ≠ p
  · exact Or.inr other
  · left
    have only : ∀ r ∈ keys m, r = p := by
      intro r at_r
      by_contra differ
      exact other ⟨r, at_r, differ⟩
    have copies := List.eq_replicate_of_mem only
    rw [copies, List.nodup_replicate] at distinct
    have some_key := List.length_pos_of_mem registered
    have single : (keys m).length = 1 := by omega
    rw [copies, single]
    rfl

/- Creation. -/

section create
variable {o : Outcomes} {p : CString} {d d' : Daemon} (ok : AllOk o)
  (done : createPort o p d = .ok d') (inStep : InStep d) (hp : PortPrefix p)
  (new : p ∉ keys d.veths)
include ok done inStep hp new

theorem create_new :
    shape d'.kernel.link (innerName p) = some (d.kernel.nextIndex + 1, outerName p) ∧
      shape d'.kernel.link (outerName p) = some (d.kernel.nextIndex, innerName p) ∧
      (∀ n, n ≠ innerName p → n ≠ outerName p →
        shape d'.kernel.link n = shape d.kernel.link n) ∧
      d'.kernel.devmap = some d.kernel.nextIndex := by
  obtain ⟨k, made, -, -, link, -, devmap⟩ := createPort_spec done
  have started := inStep.wired.started
  have absent : ¬ Present d.kernel p := fun present => new ((inStep.present p hp).mpr present)
  have script : o .createScript = true := ok _ (by decide) (by decide)
  have opened : openDevmapFile o = some true := by
    have found : o .openDevmap = true := ok _ (by decide) (by decide)
    have queried : o .mapInfo = true := ok _ (by decide) (by decide)
    simp [openDevmapFile, found, queried]
  have updated : o .updateDevmap = true := ok _ (by decide) (by decide)
  rw [script] at made
  rcases createVeth_cases true inStep.wired hp with ⟨-, present⟩ | ⟨-, pair⟩
  · exact absurd (present rfl) absent
  · rw [← made] at pair
    have same : shape d'.kernel.link = shape k.link := by
      rw [link, shape_attached, shape_attached]
    have index : ifNametoindex k (outerName p) = d.kernel.nextIndex := by
      simp [ifNametoindex, pair.outer]
    refine ⟨?_, ?_, ?_, ?_⟩
    · rw [same, shape, pair.inner]
      rfl
    · rw [same, shape, pair.outer]
      rfl
    · intro n not1 not2
      rw [same, shape, pair.others n not1 not2]
      rfl
    · rw [devmap, index, opened, updated]
      simp only [and_self, if_true]
      rw [if_neg (by omega)]

theorem create_slotLive : SlotLive d' := by
  obtain ⟨-, outer, -, devmap⟩ := create_new ok done inStep hp new
  obtain ⟨k, -, table, -⟩ := createPort_spec done
  intro _
  refine ⟨p, _, _, ?_, outer, devmap⟩
  rw [table, mem_keys_vethListAdd _ hp.fits]
  exact Or.inr ⟨ok _ (by decide) (by decide), rfl⟩

theorem create_inStep : InStep d' := by
  obtain ⟨inner, -, others, -⟩ := create_new ok done inStep hp new
  obtain ⟨k, -, table, -⟩ := createPort_spec done
  have member : ∀ q, q ∈ keys d'.veths ↔ q ∈ keys d.veths ∨ q = p := by
    intro q
    have inserted : o .malloc = true := ok _ (by decide) (by decide)
    rw [table, mem_keys_vethListAdd _ hp.fits, inserted]
    simp
  refine ⟨create_wired done inStep.wired hp, ?_, ?_, ?_⟩
  · rw [table]
    exact nodup_vethListAdd _ hp.fits inStep.distinct
  · intro q registered
    rcases (member q).mp registered with old | rfl
    · exact inStep.prefixes q old
    · exact hp
  · intro q hq
    rw [member q]
    by_cases same : q = p
    · rw [same]
      simp [Present, inner]
    · obtain ⟨not1, not2, -⟩ := names_apart hp hq same
      unfold Present
      rw [others _ not1 not2, ← Present, ← inStep.present q hq]
      simp [same]

end create

/- Deletion. -/

theorem delete_keys (o : Outcomes) {p : CString} {d : Daemon} (distinct : (keys d.veths).Nodup)
    (q : CString) : q ∈ keys (deletePort o p d).veths ↔ q ∈ keys d.veths ∧ q ≠ p := by
  obtain ⟨k, -, table, -⟩ := deletePort_spec o p d
  rw [table]
  exact mem_keys_vethListRemove distinct p q

theorem outer_index {d : Daemon} {p peer : CString} {i : Nat}
    (outer : shape d.kernel.link (outerName p) = some (i, peer)) :
    ifNametoindex d.kernel (outerName p) = i := by
  rw [ifNametoindex_shape, outer]
  rfl

section delete
variable {o : Outcomes} {p : CString} {d : Daemon} (ok : AllOk o) (inStep : InStep d)
  (hp : PortPrefix p) (registered : p ∈ keys d.veths)
include ok inStep hp registered

/-- The pair goes, and the slot keeps what it holds or is cleared of one of the two. -/
theorem delete_registered :
    ∃ i j, shape d.kernel.link (innerName p) = some (i, outerName p) ∧
      shape d.kernel.link (outerName p) = some (j, innerName p) ∧
      (∀ n, shape (deletePort o p d).kernel.link n =
        if n = innerName p ∨ n = outerName p then none else shape d.kernel.link n) ∧
      (deletePort o p d).kernel.devmap = match d.kernel.devmap with
        | some slot => if o .clearSlot = true ∧ slot ∈ [i, j] then none else some slot
        | none => none := by
  have present : Present d.kernel p := (inStep.present p hp).mp registered
  have script : o .deleteScript = true := ok _ (by decide) (by decide)
  obtain ⟨⟨-, -, failed⟩ | ⟨link, -, i, j, inner, outer, devmap⟩, -⟩ :=
    deletePort_cases o inStep.wired hp
  · have impossible := failed present
    rw [script] at impossible
    cases impossible
  · refine ⟨i, j, inner, outer, ?_, devmap⟩
    intro n
    rw [link, shape_removed, unloaded_shape]

theorem delete_inStep : InStep (deletePort o p d) := by
  obtain ⟨i, j, -, -, gone, -⟩ := delete_registered ok inStep hp registered
  have member := @delete_keys o p d inStep.distinct
  refine ⟨delete_wired o inStep.wired hp, nodup_vethListRemove inStep.distinct p, ?_, ?_⟩
  · intro q still
    exact inStep.prefixes q ((member q).mp still).1
  · intro q hq
    unfold Present
    rw [member q, gone]
    by_cases same : q = p
    · simp [same]
    · obtain ⟨not1, not2, -⟩ := names_apart hp hq same
      rw [if_neg (by simp [not1, not2]), ← Present, ← inStep.present q hq]
      simp [same]

theorem delete_live_stays (after : SlotLive (deletePort o p d)) :
    StaysLive d (.delete p) := by
  obtain ⟨i, j, inner, outer, gone, devmap⟩ := delete_registered ok inStep hp registered
  rcases alone_or_other inStep.distinct registered with alone | ⟨r, at_r, differ⟩
  · exact Or.inr alone
  · left
    rw [outer_index outer]
    intro named
    -- another port is left, and the slot would have to name it and p at once
    have still := (delete_keys o inStep.distinct r).mpr ⟨at_r, differ⟩
    obtain ⟨q, i', peer, -, outer_q, slot⟩ := after (keys_nonempty still)
    rw [gone] at outer_q
    split at outer_q
    · cases outer_q
    · rename_i elsewhere
      rw [devmap, named] at slot
      have same : j = i' := by
        dsimp only at slot
        split at slot
        · cases slot
        · exact Option.some.inj slot
      rw [← same] at outer_q
      exact elsewhere (Or.inr (inStep.wired.distinct _ _ _ _ _ outer_q outer))

theorem delete_unnamed_live (before : SlotLive d)
    (unnamed : d.kernel.devmap ≠ some (ifNametoindex d.kernel (outerName p))) :
    SlotLive (deletePort o p d) := by
  obtain ⟨i, j, inner, outer, gone, devmap⟩ := delete_registered ok inStep hp registered
  obtain ⟨q, i', peer, at_q, outer_q, slot⟩ := before (keys_nonempty registered)
  have other : q ≠ p := by
    rintro rfl
    rw [outer_index outer_q] at unnamed
    exact unnamed slot
  obtain ⟨-, -, not1, not2⟩ := names_apart hp (inStep.prefixes q at_q) other
  intro _
  refine ⟨q, i', peer, (delete_keys o inStep.distinct q).mpr ⟨at_q, other⟩, ?_, ?_⟩
  · rw [gone, if_neg (by simp [not1, not2])]
    exact outer_q
  · rw [devmap, slot]
    dsimp only
    rw [if_neg]
    rintro ⟨-, either⟩
    rcases List.mem_cons.mp either with rfl | last
    · exact not1 (inStep.wired.distinct _ _ _ _ _ outer_q inner)
    · rw [List.mem_singleton] at last
      rw [last] at outer_q
      exact not2 (inStep.wired.distinct _ _ _ _ _ outer_q outer)

end delete

theorem delete_alone_live (o : Outcomes) {p : CString} {d : Daemon}
    (distinct : (keys d.veths).Nodup) (alone : keys d.veths = [p]) :
    SlotLive (deletePort o p d) := by
  intro left_over
  exfalso
  apply left_over
  have none_left : keys (deletePort o p d).veths = [] := by
    apply List.eq_nil_iff_forall_not_mem.mpr
    intro r at_r
    obtain ⟨old, differ⟩ := (delete_keys o distinct r).mp at_r
    rw [alone, List.mem_singleton] at old
    exact differ old
  exact List.map_eq_nil_iff.mp none_left

theorem delete_slotLive_iff {o : Outcomes} {p : CString} {d : Daemon} (ok : AllOk o)
    (inStep : InStep d) (hp : PortPrefix p) (registered : p ∈ keys d.veths)
    (before : SlotLive d) : SlotLive (deletePort o p d) ↔ StaysLive d (.delete p) := by
  constructor
  · exact delete_live_stays ok inStep hp registered
  · rintro (unnamed | alone)
    · exact delete_unnamed_live ok inStep hp registered before unnamed
    · exact delete_alone_live o inStep.distinct alone

/- Runs. -/

theorem slotLive_step_iff {o : Outcomes} {c : PortCmd} {d d' : Daemon} (ok : AllOk o)
    (valid : ValidCmd d c) (done : c.exec o d = .ok d') (inStep : InStep d)
    (before : SlotLive d) : InStep d' ∧ (SlotLive d' ↔ StaysLive d c) := by
  cases c with
  | create p =>
    obtain ⟨hp, new⟩ := valid
    refine ⟨create_inStep ok done inStep hp new, ?_⟩
    exact iff_of_true (create_slotLive ok done inStep hp new) trivial
  | delete p =>
    obtain ⟨hp, registered⟩ := valid
    obtain rfl := Except.ok.inj done
    exact ⟨delete_inStep ok inStep hp registered,
      delete_slotLive_iff ok inStep hp registered before⟩

theorem live_run {d : Daemon} (run : Reached Clean LiveStep d) : InStep d ∧ SlotLive d := by
  refine reached_invariant (fun d => InStep d ∧ SlotLive d) ?_ ?_ run
  · rintro d ⟨empty, wired, absent⟩
    have none_registered := not_mem_keys_of_empty empty
    refine ⟨⟨wired, ?_, ?_, ?_⟩, ?_⟩
    · rw [empty]
      exact List.nodup_nil
    · exact fun q member => absurd member (none_registered q)
    · intro q hq
      exact iff_of_false (none_registered q) (absent q hq)
    · exact fun nonempty => absurd empty nonempty
  · rintro d d' ⟨inStep, before⟩ ⟨o, c, ok, valid, stays, done⟩
    obtain ⟨after, live⟩ := slotLive_step_iff ok valid done inStep before
    exact ⟨after, live.mpr stays⟩

/-- In every run whose deletions spare the port in slot 0, unless it is the last one, the
    slot is live; and a further command keeps it live exactly when it does the same. -/
theorem redirect_target_live {d : Daemon} (run : Reached Clean LiveStep d) :
    SlotLive d ∧ ∀ o c d', AllOk o → ValidCmd d c → c.exec o d = .ok d' →
      (SlotLive d' ↔ StaysLive d c) := by
  obtain ⟨inStep, before⟩ := live_run run
  refine ⟨before, ?_⟩
  intro o c d' ok valid done
  exact (slotLive_step_iff ok valid done inStep before).2

def allOk (clears : Bool) : Outcomes := fun call => if call = .clearSlot then clears else true

def runCmds (o : Outcomes) (cmds : List PortCmd) (d : Daemon) : Except Daemon Daemon :=
  cmds.foldlM (fun d c => c.exec o d) d

theorem allOk_ok (clears : Bool) : AllOk (allOk clears) := by
  intro call not_clear _
  simp [allOk, not_clear]

/-- Ports a and b are created and a is deleted: the slot names b. -/
theorem redirect_target_live_of_second :
    ∃ d, runCmds (allOk true) [.create portA, .create portB, .delete portA] bareDaemon = .ok d ∧
      keys d.veths = [portB] ∧ SlotLive d := by
  obtain ⟨d₁, d₂, d₃, made, made', gone, whole, new, registered, unnamed, only⟩ : ∃ d₁ d₂ d₃,
      PortCmd.exec (allOk true) bareDaemon (.create portA) = .ok d₁ ∧
      PortCmd.exec (allOk true) d₁ (.create portB) = .ok d₂ ∧
      PortCmd.exec (allOk true) d₂ (.delete portA) = .ok d₃ ∧
      runCmds (allOk true) [.create portA, .create portB, .delete portA] bareDaemon = .ok d₃ ∧
      portB ∉ keys d₁.veths ∧ portA ∈ keys d₂.veths ∧
      d₂.kernel.devmap ≠ some (ifNametoindex d₂.kernel (outerName portA)) ∧
      keys d₃.veths = [portB] :=
    ⟨_, _, _, rfl, rfl, rfl, rfl, by decide, by decide, by decide, by decide⟩
  have ok := allOk_ok true
  have first : LiveStep bareDaemon d₁ :=
    ⟨_, .create portA, ok, ⟨by decide, by decide⟩, trivial, made⟩
  have second : LiveStep d₁ d₂ := ⟨_, .create portB, ok, ⟨by decide, new⟩, trivial, made'⟩
  have third : LiveStep d₂ d₃ :=
    ⟨_, .delete portA, ok, ⟨by decide, registered⟩, Or.inl unnamed, gone⟩
  have run := Reached.step (Reached.step (Reached.step (Reached.start bareDaemon_clean) first)
    second) third
  exact ⟨d₃, whole, only, (redirect_target_live run).1⟩

theorem not_slotLive {d : Daemon} {p : CString} (only : keys d.veths = [p])
    (stale : d.kernel.devmap ≠ some (ifNametoindex d.kernel (outerName p))) : ¬ SlotLive d := by
  intro live
  have registered : p ∈ keys d.veths := by
    rw [only]
    exact List.mem_singleton_self p
  obtain ⟨q, i, peer, at_q, outer, slot⟩ := live (keys_nonempty registered)
  rw [only, List.mem_singleton] at at_q
  apply stale
  rw [slot, ifNametoindex_shape, ← at_q, outer]
  rfl

/-- Ports a and b are created and b is deleted again: a is registered, and the slot is empty
    or holds the index of the interface that is gone. -/
theorem second_port_deleted :
    (∃ d, runCmds (allOk true) [.create portA, .create portB, .delete portB] bareDaemon = .ok d ∧
      keys d.veths = [portA] ∧ d.kernel.devmap = none ∧ ¬ SlotLive d) ∧
    (∃ d, runCmds (allOk false) [.create portA, .create portB, .delete portB] bareDaemon = .ok d ∧
      keys d.veths = [portA] ∧ d.kernel.devmap = some 3 ∧ ¬ SlotLive d) := by
  constructor
  · obtain ⟨d, done, only, slot⟩ : ∃ d,
        runCmds (allOk true) [.create portA, .create portB, .delete portB] bareDaemon = .ok d ∧
          keys d.veths = [portA] ∧ d.kernel.devmap = none :=
      ⟨_, rfl, by decide, by decide⟩
    refine ⟨d, done, only, slot, not_slotLive only ?_⟩
    rw [slot]
    intro named
    cases named
  · obtain ⟨d, done, only, index, slot⟩ : ∃ d,
        runCmds (allOk false) [.create portA, .create portB, .delete portB] bareDaemon = .ok d ∧
          keys d.veths = [portA] ∧ ifNametoindex d.kernel (outerName portA) = 1 ∧
          d.kernel.devmap = some 3 :=
      ⟨_, rfl, by decide, by decide, by decide⟩
    refine ⟨d, done, only, slot, not_slotLive only ?_⟩
    rw [slot, index]
    decide

end XSKPorts
