import XSKNet.Bookkeeping
import XSKNet.SavedSuccessor

/- The end of the daemon. unload_list walks the table of ports with HASH_ITER and calls
   delete_port for each entry, which looks the prefix up again and frees what it finds. The
   entries are the nodes of the table with their addresses. -/
namespace XSKShutdown
open CStrings XSKVeth XSKInterfaces XSKPorts SavedSuccessor Runs

structure Node where
  address : Nat
  pair : VethPair
  deriving DecidableEq

def nodeKey (n : Node) : CString := n.pair.key

/-- veth_list_add on the nodes; address is what malloc returns. -/
def addNode (mallocOk : Bool) (address : Nat) (p : CString) (l : List Node) : List Node :=
  match Multimap.find nodeKey l p with
  | some _ => l
  | none => if mallocOk then Multimap.add l ⟨address, newEntry p⟩ else l

def removeNode (p : CString) (l : List Node) : List Node := Multimap.del nodeKey l p

def unloadList (veths : Option Nat) (l : List Node) : Walk Node :=
  iterate Node.address (fun current l => removeNode current.pair.key l) veths l

def vethListDestroy (vethMap : Option Nat) (l : List Node) : Walk Node :=
  iterate Node.address
    (fun current l => l.eraseP fun n => decide (n.address = current.address)) vethMap l

structure Registry where
  daemon : Daemon
  nodes : List Node

def Registry.veths (s : Registry) : Option Nat := head Node.address s.nodes

def signalShutdown (s : Registry) : Walk Node := unloadList s.veths s.nodes

/-- The end of main: veth_list_destroy gets a copy of the pointer, exit_daemon uses veths. -/
def mainShutdown (s : Registry) : Walk Node :=
  match vethListDestroy s.veths s.nodes with
  | .finished _ left => unloadList s.veths left
  | .dangling => .dangling
  | .unfinished => .unfinished

/- Runs of commands. -/

def PortCmd.nodes (o : Outcomes) (address : Nat) (l : List Node) : PortCmd → List Node
  | .create p => addNode (o .malloc) address p l
  | .delete p => removeNode p l

inductive Commanded (allowed : PortCmd → Prop) : Registry → Registry → Prop where
  | run {s : Registry} {o : Outcomes} {c : PortCmd} {d : Daemon} {address : Nat}
      (ok : allowed c) (done : c.exec o s.daemon = .ok d)
      (fresh : address ∉ s.nodes.map Node.address) :
      Commanded allowed s ⟨d, PortCmd.nodes o address s.nodes c⟩

def NoNodes (s : Registry) : Prop := s.daemon.veths = [] ∧ s.nodes = []

def AnyCommand (_ : PortCmd) : Prop := True

def ShortCommand : PortCmd → Prop
  | .create p => p.length ≤ 15
  | .delete _ => True

/-- The nodes are the entries of the table, each at an address of its own. -/
structure Placed (s : Registry) : Prop where
  pairs : s.nodes.map Node.pair = s.daemon.veths
  distinct : (s.nodes.map Node.address).Nodup

theorem node_keys (l : List Node) : Multimap.keys nodeKey l = keys (l.map Node.pair) := by
  simp [keys, Multimap.keys, nodeKey]

theorem addNode_pairs (mallocOk : Bool) (address : Nat) (p : CString) (l : List Node) :
    (addNode mallocOk address p l).map Node.pair =
      (vethListAdd mallocOk (l.map Node.pair) p).2 := by
  unfold addNode
  cases found : Multimap.find nodeKey l p with
  | some n =>
    have registered : p ∈ keys (l.map Node.pair) := by
      rw [← node_keys]
      by_contra absent
      rw [(Multimap.find_eq_none_iff nodeKey l p).mpr absent] at found
      cases found
    rw [vethListAdd_registered mallocOk registered]
  | none =>
    have absent : p ∉ keys (l.map Node.pair) := by
      rw [← node_keys]
      exact (Multimap.find_eq_none_iff nodeKey l p).mp found
    cases mallocOk with
    | false => simp [vethListAdd, (hashFindStr_eq_none_iff _ p).mpr absent]
    | true =>
      rw [vethListAdd_new absent]
      simp [Multimap.add]

theorem removeNode_pairs (p : CString) (l : List Node) :
    (removeNode p l).map Node.pair = (vethListRemove (l.map Node.pair) p).2 := by
  by_cases registered : p ∈ keys (l.map Node.pair)
  · rw [vethListRemove_registered registered]
    simp only [removeNode, Multimap.del, ← List.map_reverse, List.eraseP_map]
    rfl
  · rw [vethListRemove_absent registered, removeNode, Multimap.del_absent nodeKey]
    rwa [node_keys]

theorem addNode_addresses (mallocOk : Bool) {address : Nat} (p : CString) {l : List Node}
    (distinct : (l.map Node.address).Nodup) (fresh : address ∉ l.map Node.address) :
    ((addNode mallocOk address p l).map Node.address).Nodup := by
  unfold addNode
  cases Multimap.find nodeKey l p with
  | some n => exact distinct
  | none =>
    cases mallocOk with
    | false => exact distinct
    | true =>
      change ((l ++ [_]).map Node.address).Nodup
      rw [List.map_append]
      apply List.nodup_append.mpr
      refine ⟨distinct, List.nodup_singleton _, ?_⟩
      intro a old b new same
      rw [List.map_singleton, List.mem_singleton] at new
      rw [same, new] at old
      exact fresh old

theorem removeNode_sublist (p : CString) (l : List Node) : (removeNode p l).Sublist l := by
  have erased := (List.eraseP_sublist (p := fun n => decide (nodeKey n = p)) (l := l.reverse)).reverse
  rwa [List.reverse_reverse] at erased

theorem command_placed {allowed : PortCmd → Prop} {s t : Registry} (placed : Placed s)
    (step : Commanded allowed s t) : Placed t := by
  obtain ⟨pairs, distinct⟩ := placed
  cases step with
  | @run o c d address ok done fresh =>
    have table := exec_table done
    cases c with
    | create p =>
      constructor
      · rw [table]
        change (addNode _ _ _ _).map Node.pair = _
        rw [addNode_pairs, pairs]
        rfl
      · exact addNode_addresses _ p distinct fresh
    | delete p =>
      constructor
      · rw [table]
        change (removeNode _ _).map Node.pair = _
        rw [removeNode_pairs, pairs]
        rfl
      · exact distinct.sublist ((removeNode_sublist p s.nodes).map Node.address)

theorem reached_placed {allowed : PortCmd → Prop} {s : Registry}
    (run : Reached NoNodes (Commanded allowed) s) : Placed s := by
  induction run with
  | start begin =>
    obtain ⟨empty, no_nodes⟩ := begin
    constructor
    · rw [empty, no_nodes]
      rfl
    · rw [no_nodes]
      exact List.nodup_nil
  | step before next ih => exact command_placed ih next

theorem reached_keys_distinct {s : Registry}
    (run : Reached NoNodes (Commanded ShortCommand) s) : (keys s.daemon.veths).Nodup := by
  induction run with
  | start begin =>
    rw [begin.1]
    exact List.nodup_nil
  | step before next ih =>
    cases next with
    | @run o c d address ok done fresh =>
      rw [exec_table done]
      cases c with
      | create p => exact nodup_vethListAdd _ ok ih
      | delete p => exact nodup_vethListRemove ih p

/- The two ways to the end. -/

theorem signal_clears_iff {s : Registry} (placed : Placed s) :
    Cleared s.nodes (signalShutdown s) ↔ (keys s.daemon.veths).Nodup := by
  rw [← placed.pairs, ← node_keys]
  exact deleteKey_clears_iff Node.address nodeKey placed.distinct

theorem destroy_frees_all (l : List Node) :
    vethListDestroy (head Node.address l) l = .finished l [] := by
  unfold vethListDestroy
  rw [iterate_head]
  apply loop_clears
  · intro n rest suffix
    exact List.eraseP_cons_of_pos (by simp)
  · exact Nat.lt_succ_self _

/-- The global pointer still has the address of the first entry, which is freed by then. -/
theorem main_clears_iff {s : Registry} (placed : Placed s) :
    Cleared s.nodes (mainShutdown s) ↔ s.daemon.veths = [] := by
  have freed := destroy_frees_all s.nodes
  rw [← placed.pairs]
  unfold mainShutdown Registry.veths
  rw [freed]
  dsimp only
  cases nodes : s.nodes with
  | nil =>
    constructor
    · intro _
      rfl
    · intro _
      exact ⟨[], rfl, List.Perm.refl []⟩
  | cons n rest =>
    constructor
    · intro ⟨visited, run, _⟩
      have dangling : unloadList (some n.address) [] = .dangling := iterate_dangling _ _ _
      change unloadList (some n.address) [] = _ at run
      rw [dangling] at run
      cases run
    · intro impossible
      cases impossible

theorem signal_ends (s : Registry) : signalShutdown s ≠ .unfinished := by
  unfold signalShutdown Registry.veths unloadList
  rw [iterate_head]
  exact deleteKey_ends Node.address nodeKey _ _ (Nat.lt_succ_self _)

theorem unload_deletes_ports (o : Node → Outcomes) {s : Registry} {visited left : List Node}
    (placed : Placed s) (run : signalShutdown s = .finished visited left) :
    (visited.foldl (fun d n => deletePort (o n) n.pair.key d) s.daemon).veths =
      left.map Node.pair := by
  unfold signalShutdown Registry.veths unloadList at run
  rw [iterate_head] at run
  rw [left_eq_foldl Node.address run]
  have pairs := placed.pairs
  generalize s.nodes = l at pairs
  generalize s.daemon = d at pairs
  clear run
  induction visited generalizing l d with
  | nil => exact pairs.symm
  | cons n later ih =>
    have next : (removeNode n.pair.key l).map Node.pair = (deletePort (o n) n.pair.key d).veths := by
      rw [removeNode_pairs, pairs]
      rfl
    exact ih _ _ next

/-- After any run of commands a signal clears the table just when no two keys are equal, so
    always when every port has a prefix of at most 15 bytes; the end of main does only when
    there is no port. -/
theorem shutdown_clears_iff {s : Registry} (run : Reached NoNodes (Commanded AnyCommand) s) :
    (Cleared s.nodes (signalShutdown s) ↔ (keys s.daemon.veths).Nodup) ∧
      (Reached NoNodes (Commanded ShortCommand) s → Cleared s.nodes (signalShutdown s)) ∧
      (Cleared s.nodes (mainShutdown s) ↔ s.daemon.veths = []) := by
  have placed := reached_placed run
  have signal := signal_clears_iff placed
  refine ⟨signal, ?_, main_clears_iff placed⟩
  intro short_run
  exact signal.mpr (reached_keys_distinct short_run)

def firstNode : Node := ⟨0, newEntry sixteenLetters⟩
def secondNode : Node := ⟨1, newEntry sixteenLetters⟩

def shortPrefix : CString := ⟨ascii "s", by decide⟩
def otherNode : Node := ⟨1, newEntry shortPrefix⟩

theorem create_reached {s : Registry} (run : Reached NoNodes (Commanded AnyCommand) s)
    (p : CString) (address : Nat) (fresh : address ∉ s.nodes.map Node.address) :
    ∃ d, Reached NoNodes (Commanded AnyCommand)
      ⟨d, PortCmd.nodes (fun _ => true) address s.nodes (.create p)⟩ := by
  obtain ⟨d, created, -⟩ := create_runs (o := fun _ => true) rfl rfl p s.daemon
  exact ⟨d, Reached.step run (Commanded.run trivial created fresh)⟩

theorem one_port_reached : ∃ d : Daemon,
    Reached NoNodes (Commanded AnyCommand) ⟨d, [firstNode]⟩ :=
  create_reached (s := ⟨bareDaemon, []⟩) (Reached.start ⟨rfl, rfl⟩) sixteenLetters 0
    List.not_mem_nil

theorem two_ports_reached : ∃ d d' : Daemon,
    Reached NoNodes (Commanded AnyCommand) ⟨d, [firstNode, secondNode]⟩ ∧
    Reached NoNodes (Commanded AnyCommand) ⟨d', [firstNode, otherNode]⟩ := by
  obtain ⟨d, one⟩ := one_port_reached
  have fresh : (1 : Nat) ∉ [firstNode].map Node.address := by decide
  obtain ⟨d₁, equal⟩ := create_reached one sixteenLetters 1 fresh
  obtain ⟨d₂, differing⟩ := create_reached one shortPrefix 1 fresh
  exact ⟨d₁, d₂, equal, differing⟩

/-- Two ports with different keys, the second found through the saved successor. -/
theorem shutdown_clears_two_ports : ∃ d : Daemon,
    keys d.veths = [storedKey sixteenLetters, shortPrefix] ∧
    Cleared [firstNode, otherNode] (signalShutdown ⟨d, [firstNode, otherNode]⟩) := by
  obtain ⟨-, d, -, two⟩ := two_ports_reached
  have table : d.veths = [newEntry sixteenLetters, newEntry shortPrefix] :=
    (reached_placed two).pairs.symm
  have stored : keys d.veths = [storedKey sixteenLetters, shortPrefix] := by
    rw [table]
    rfl
  refine ⟨d, stored, (shutdown_clears_iff two).1.mpr ?_⟩
  change (keys d.veths).Nodup
  rw [stored]
  decide

/-- One port at the end of main, and a prefix of sixteen letters registered twice at a
    signal: both loops read an entry that is freed. -/
theorem shutdown_reads_freed_entry : ∃ d d' : Daemon,
    Reached NoNodes (Commanded AnyCommand) ⟨d, [firstNode]⟩ ∧
    mainShutdown ⟨d, [firstNode]⟩ = .dangling ∧
    ¬ Cleared [firstNode] (mainShutdown ⟨d, [firstNode]⟩) ∧
    Reached NoNodes (Commanded AnyCommand) ⟨d', [firstNode, secondNode]⟩ ∧
    signalShutdown ⟨d', [firstNode, secondNode]⟩ = .dangling ∧
    ¬ Cleared [firstNode, secondNode] (signalShutdown ⟨d', [firstNode, secondNode]⟩) := by
  obtain ⟨d, one⟩ := one_port_reached
  obtain ⟨d', -, two, -⟩ := two_ports_reached
  refine ⟨d, d', one, rfl, ?_, two, rfl, ?_⟩
  · intro ⟨visited, run, _⟩
    cases run
  · intro ⟨visited, run, _⟩
    cases run

end XSKShutdown
