import XSKNet.DataPath
import XSKNet.Shutdown

/- The daemon from its start to exit_daemon, and the daemon after it. A signal unloads the
   program of the physical interface and deletes the ports by the loop of unload_list. -/
namespace XSKDaemonLife
open CStrings XSKVeth XSKKernel XSKInterfaces XSKPorts XSKPacketClass XSKShutdown SavedSuccessor
  XSKRouting XSKDataPath Runs

/-- What the system calls of exit_daemon come to: those on the physical interface, and those of
    delete_port for each entry. -/
structure ExitOutcomes where
  getMultiprog : Bool
  detach : Bool
  deletes : Node → Outcomes

/-- unload_xdp_from_ifname for the physical interface. The detach takes away every program on
    it, xdp_redirect and those of others. -/
def unloadPhy (o : ExitOutcomes) (phy : CString) (s : Network) : Int × Network :=
  match s.daemon.kernel.link phy with
  | none => (EXIT_FAIL_OPTION, s)
  | some l =>
    if o.getMultiprog = false ∨ (l.progs = [] ∧ s.phy = .absent) then (EXIT_FAIL_XDP, s)
    else if o.detach = false then (EXIT_FAIL_XDP, s)
    else
      let kernel := s.daemon.kernel.setLink phy (some { l with progs := [] })
      (EXIT_OK, { s with daemon := { s.daemon with kernel := kernel }, phy := .absent })

/-- exit_daemon in a signal handler, once the server thread is done. A failed unload is only
    logged. none when the loop over the ports does not come to its end. -/
def exitDaemon (o : ExitOutcomes) (phy : CString) (nodes : List Node) (s : Network) :
    Option Network :=
  let s := (unloadPhy o phy s).2
  match signalShutdown ⟨s.daemon, nodes⟩ with
  | .finished visited _ => some { s with
      daemon := visited.foldl (fun d n => deletePort (o.deletes n) n.pair.key d) s.daemon }
  | _ => none

/-- Daemons one after the other, each started after the exit of the one before, which has taken
    xdp_redirect away. -/
inductive Lives (phy : CString) : Network × Router → Network × Router → Prop where
  | event {x y : Network × Router} (step : Routed x y) : Lives phy x y
  | exit {s t : Network} {r : Router} {nodes : List Node} {o : ExitOutcomes}
      (placed : Placed ⟨s.daemon, nodes⟩) (succeeds : ∀ n, Succeeds s.phy (o.deletes n))
      (done : exitDaemon o phy nodes s = some t) (detached : t.phy = .absent) :
      Lives phy (s, r) (t, idleRouter)

def Found (links : CString → Option Link) (phy : CString) (x : Network × Router) : Prop :=
  Opening phy x ∧ x.1.daemon.kernel.link = links

structure Untouched (links : CString → Option Link) (s : Network) : Prop where
  others : ∀ n, (∀ q ∈ keys s.daemon.veths, n ≠ innerName q ∧ n ≠ outerName q) →
    s.daemon.kernel.link n = links n
  free : ∀ p, PortPrefix p → links (innerName p) = none ∧ links (outerName p) = none

theorem found_untouched {links : CString → Option Link} {phy : CString} {s : Network}
    {r : Router} (found : Found links phy (s, r)) : Untouched links s := by
  obtain ⟨⟨⟨-, wired, absent⟩, -⟩, same⟩ := found
  refine ⟨fun n _ => congrFun same n, ?_⟩
  intro p hp
  rw [← same]
  have inner : shape s.daemon.kernel.link (innerName p) = none := by
    have missing := absent p hp
    unfold Present at missing
    simpa using missing
  have outer : shape s.daemon.kernel.link (outerName p) = none := by
    have missing := mt (present_outer wired hp).mp (absent p hp)
    simpa using missing
  exact ⟨link_none_of_shape inner, link_none_of_shape outer⟩

/- One command. -/

theorem create_untouched {links : CString → Option Link} {o : Outcomes} {p : CString}
    {s : Network} {d' : Daemon} (inv : Untouched links s) (inStep : InStep s.daemon)
    (succeeds : Succeeds s.phy o) (valid : ValidCmd s.daemon (.create p))
    (done : createPort o p s.daemon = .ok d') : Untouched links { s with daemon := d' } := by
  obtain ⟨hp, new⟩ := valid
  obtain ⟨slot, replayed⟩ := create_reaching done
  have others := (create_programs (reaching_ok succeeds) replayed inStep hp new).2
  obtain ⟨k, -, table, -⟩ := createPort_spec done
  have inserted : o .malloc = true := succeeds _ (by decide) (by decide) (Or.inr rfl)
  have member : ∀ q, q ∈ keys d'.veths ↔ q ∈ keys s.daemon.veths ∨ q = p := by
    intro q
    rw [table, mem_keys_vethListAdd _ hp.fits, inserted]
    simp
  refine ⟨?_, inv.free⟩
  intro n apart
  obtain ⟨not1, not2⟩ := apart p ((member p).mpr (Or.inr rfl))
  have kept : d'.kernel.link n = s.daemon.kernel.link n := others n not1 not2
  change d'.kernel.link n = links n
  rw [kept]
  exact inv.others n fun q old => apart q ((member q).mpr (Or.inl old))

theorem delete_untouched {links : CString → Option Link} {o : Outcomes} {p : CString}
    {s : Network} (inv : Untouched links s) (inStep : InStep s.daemon)
    (succeeds : Succeeds s.phy o) (valid : ValidCmd s.daemon (.delete p)) :
    Untouched links { s with daemon := deletePort o p s.daemon } := by
  obtain ⟨hp, registered⟩ := valid
  obtain ⟨i, j, -, -, gone, -⟩ :=
    delete_registered (reaching_ok succeeds) inStep hp registered
  obtain ⟨inner_free, outer_free⟩ := inv.free p hp
  refine ⟨?_, inv.free⟩
  intro n apart
  change (deletePort o p s.daemon).kernel.link n = links n
  by_cases deleted : n = innerName p ∨ n = outerName p
  · have absent : shape (deletePort o p s.daemon).kernel.link n = none := by
      have here := gone n
      rwa [if_pos deleted] at here
    rw [link_none_of_shape absent]
    rcases deleted with rfl | rfl
    · exact inner_free.symm
    · exact outer_free.symm
  · rw [not_or] at deleted
    rw [delete_link_other o inStep.wired hp deleted.1 deleted.2]
    apply inv.others n
    intro q at_q
    by_cases same : q = p
    · rw [same]
      exact deleted
    · exact apart q ((delete_keys o inStep.distinct q).mpr ⟨at_q, same⟩)

theorem event_untouched {links : CString → Option Link} {phy : CString} {x y : Network × Router}
    (routes : Routes phy x.1 x.2) (inv : Untouched links x.1) (step : Routed x y) :
    Untouched links y.1 := by
  cases step with
  | @event s t r e allowed done =>
    cases e with
    | attachPhy pins =>
      change attachPhy pins s = some t at done
      unfold attachPhy at done
      split at done
      · cases pins with
        | true =>
          obtain rfl := Option.some.inj done
          exact ⟨inv.others, inv.free⟩
        | false =>
          obtain rfl := Option.some.inj done
          exact ⟨inv.others, inv.free⟩
      · cases done
    | command o c =>
      obtain ⟨succeeds, valid⟩ := allowed
      unfold Network.step at done
      dsimp only at done
      cases result : c.exec o s.daemon with
      | error d =>
        rw [result] at done
        cases done
      | ok d' =>
        rw [result] at done
        obtain rfl := Option.some.inj done
        cases c with
        | create p => exact create_untouched inv routes.inStep succeeds valid result
        | delete p =>
          obtain rfl := Except.ok.inj result
          exact delete_untouched inv routes.inStep succeeds valid
    | openSocket p socket =>
      change enterXsksMap (innerName p) socket s = some t at done
      unfold enterXsksMap at done
      split at done
      · obtain rfl := Option.some.inj done
        exact ⟨inv.others, inv.free⟩
      · cases done
    | closeSocket socket =>
      obtain rfl := Option.some.inj done
      exact ⟨inv.others, inv.free⟩

/- The exit. -/

theorem phy_kept {links : CString → Option Link} {phy : CString} {s : Network}
    (inStep : InStep s.daemon) (inv : Untouched links s) (bare : Unprogrammed links phy) :
    s.daemon.kernel.link phy = links phy := by
  obtain ⟨l, found, -⟩ := bare
  apply inv.others phy
  intro q member
  obtain ⟨inner, outer⟩ := inv.free q (inStep.prefixes q member)
  constructor
  · rintro rfl
    rw [inner] at found
    cases found
  · rintro rfl
    rw [outer] at found
    cases found

/-- With no other program there, only xdp_redirect goes, if both calls succeed. -/
theorem unloadPhy_bare (o : ExitOutcomes) {phy : CString} {s : Network}
    (bare : Unprogrammed s.daemon.kernel.link phy) :
    (unloadPhy o phy s).2 =
      { s with phy := if o.getMultiprog = true ∧ o.detach = true then .absent else s.phy } := by
  obtain ⟨l, found, none_there⟩ := bare
  have same : s.daemon.kernel.setLink phy (some { l with progs := [] }) = s.daemon.kernel := by
    have links : (fun n => if n = phy then some { l with progs := [] }
        else s.daemon.kernel.link n) = s.daemon.kernel.link := by
      funext n
      by_cases here : n = phy
      · rw [if_pos here, here, found, ← none_there]
      · rw [if_neg here]
    rw [Kernel.setLink, links]
  unfold unloadPhy
  rw [found]
  dsimp only
  rw [same]
  cases gets : o.getMultiprog with
  | false => simp
  | true =>
    cases detaches : o.detach with
    | false => simp
    | true =>
      by_cases absent : s.phy = .absent
      · rw [if_pos (Or.inr ⟨none_there, absent⟩), if_pos ⟨rfl, rfl⟩, ← absent]
      · simp [absent]

theorem unload_routes {phy : CString} {s : Network} {r : Router} (routes : Routes phy s r) :
    Routes phy { s with phy := .absent } { r with phy := .absent, target := none } :=
  ⟨routes.inStep, routes.notPort, rfl, nofun, fun _ => rfl,
    fun q member => ⟨(routes.served q member).program, (routes.served q member).entries⟩,
    ⟨routes.maps.old, routes.maps.apart, routes.maps.unused⟩⟩

theorem succeeds_absent {phy : PhyProgram} {o : Outcomes} (succeeds : Succeeds phy o) :
    Succeeds .absent o := by
  intro call not_clear not_descriptor reach
  exact succeeds call not_clear not_descriptor (Or.inr (reach.resolve_left nofun))

theorem deletes_kept {links : CString → Option Link} {phy : CString} {o : Node → Outcomes}
    {visited : List Node} {s : Network} {r : Router} (routes : Routes phy s r)
    (inv : Untouched links s) (succeeds : ∀ n, Succeeds s.phy (o n))
    (registered : ∀ n ∈ visited, n.pair.key ∈ keys s.daemon.veths)
    (distinct : (visited.map nodeKey).Nodup) :
    ∃ r', Routes phy { s with
        daemon := visited.foldl (fun d n => deletePort (o n) n.pair.key d) s.daemon } r' ∧
      Untouched links { s with
        daemon := visited.foldl (fun d n => deletePort (o n) n.pair.key d) s.daemon } := by
  induction visited generalizing s r with
  | nil => exact ⟨r, routes, inv⟩
  | cons n later ih =>
    have at_n := registered n List.mem_cons_self
    have valid : ValidCmd s.daemon (.delete n.pair.key) :=
      ⟨routes.inStep.prefixes _ at_n, at_n⟩
    have routes' := delete_routes routes (succeeds n) valid
    have inv' := delete_untouched inv routes.inStep (succeeds n) valid
    obtain ⟨first, rest⟩ := List.nodup_cons.mp distinct
    apply ih routes' inv' succeeds _ rest
    intro m at_m
    apply (delete_keys (o n) routes.inStep.distinct _).mpr
    refine ⟨registered m (List.mem_cons_of_mem n at_m), ?_⟩
    intro same
    apply first
    exact List.mem_map.mpr ⟨m, at_m, same⟩

theorem deletes_pinned (o : Node → Outcomes) (l : List Node) (d : Daemon) :
    (l.foldl (fun d n => deletePort (o n) n.pair.key d) d).kernel.pinned = d.kernel.pinned := by
  induction l generalizing d with
  | nil => rfl
  | cons n rest ih => exact (ih _).trans (deletePort_pinned (o n) n.pair.key d).1

theorem unloadList_spec {links : CString → Option Link} {phy : CString} {o : Node → Outcomes}
    {nodes : List Node} {s : Network} {r : Router} (routes : Routes phy s r)
    (inv : Untouched links s) (placed : Placed ⟨s.daemon, nodes⟩)
    (succeeds : ∀ n, Succeeds s.phy (o n)) :
    ∃ visited r', signalShutdown ⟨s.daemon, nodes⟩ = .finished visited [] ∧
      (visited.foldl (fun d n => deletePort (o n) n.pair.key d) s.daemon).veths = [] ∧
      Routes phy { s with
        daemon := visited.foldl (fun d n => deletePort (o n) n.pair.key d) s.daemon } r' ∧
      Untouched links { s with
        daemon := visited.foldl (fun d n => deletePort (o n) n.pair.key d) s.daemon } := by
  obtain ⟨visited, run, same⟩ := (signal_clears_iff placed).mpr routes.inStep.distinct
  have named : nodes.map nodeKey = keys s.daemon.veths := by
    rw [← placed.pairs, ← node_keys]
    rfl
  have registered : ∀ n ∈ visited, n.pair.key ∈ keys s.daemon.veths := by
    intro n member
    rw [← named]
    exact List.mem_map_of_mem (same.mem_iff.mp member)
  have distinct : (visited.map nodeKey).Nodup := by
    rw [(same.map nodeKey).nodup_iff, named]
    exact routes.inStep.distinct
  have emptied := unload_deletes_ports o placed run
  obtain ⟨r', routes', inv'⟩ := deletes_kept routes inv succeeds registered distinct
  exact ⟨visited, r', run, emptied, routes', inv'⟩

theorem unported_links {links : CString → Option Link} {s : Network} (inv : Untouched links s)
    (empty : s.daemon.veths = []) : s.daemon.kernel.link = links := by
  funext n
  apply inv.others n
  intro q member
  exact absurd member (not_mem_keys_of_empty empty q)

structure Exited (links : CString → Option Link) (o : ExitOutcomes) (phy : CString)
    (s t : Network) (r : Router) : Prop where
  routes : Routes phy t r
  links : t.daemon.kernel.link = links
  empty : t.daemon.veths = []
  pinned : t.daemon.kernel.pinned = s.daemon.kernel.pinned
  program : t.phy = if o.getMultiprog = true ∧ o.detach = true then .absent else s.phy

theorem exit_spec {links : CString → Option Link} {phy : CString} {o : ExitOutcomes}
    {nodes : List Node} {s : Network} {r : Router} (routes : Routes phy s r)
    (inv : Untouched links s) (bare : Unprogrammed links phy) (placed : Placed ⟨s.daemon, nodes⟩)
    (succeeds : ∀ n, Succeeds s.phy (o.deletes n)) :
    ∃ t r', exitDaemon o phy nodes s = some t ∧ Exited links o phy s t r' := by
  have kept : Unprogrammed s.daemon.kernel.link phy := by
    obtain ⟨l, found, none_there⟩ := bare
    exact ⟨l, (phy_kept routes.inStep inv ⟨l, found, none_there⟩).trans found, none_there⟩
  have unloaded := unloadPhy_bare o kept
  by_cases gone : o.getMultiprog = true ∧ o.detach = true
  · rw [if_pos gone] at unloaded
    obtain ⟨visited, r', run, empty, routes', inv'⟩ :=
      unloadList_spec (s := { s with phy := .absent }) (unload_routes routes)
        ⟨inv.others, inv.free⟩ placed (fun n => succeeds_absent (succeeds n))
    refine ⟨_, r', ?_, routes', unported_links inv' empty, empty,
      deletes_pinned o.deletes visited s.daemon, (if_pos gone).symm⟩
    unfold exitDaemon
    rw [unloaded]
    dsimp only at run ⊢
    rw [run]
  · rw [if_neg gone] at unloaded
    obtain ⟨visited, r', run, empty, routes', inv'⟩ :=
      unloadList_spec routes inv placed succeeds
    refine ⟨_, r', ?_, routes', unported_links inv' empty, empty,
      deletes_pinned o.deletes visited s.daemon, (if_neg gone).symm⟩
    unfold exitDaemon
    rw [unloaded]
    dsimp only
    rw [run]

theorem exited_found {links : CString → Option Link} {o : ExitOutcomes} {phy : CString}
    {s t : Network} {r : Router} (bare : Unprogrammed links phy)
    (exited : Exited links o phy s t r) (detached : t.phy = .absent) :
    Found links phy (t, idleRouter) := by
  obtain ⟨routes, same, empty, -, -⟩ := exited
  have there : Unprogrammed t.daemon.kernel.link phy := by rwa [same]
  refine ⟨⟨⟨empty, routes.inStep.wired, ?_⟩, there, detached, routes.maps, rfl⟩, same⟩
  intro p hp present
  exact not_mem_keys_of_empty empty p ((routes.inStep.present p hp).mpr present)

/- Any number of daemons. -/

theorem lives_kept {links : CString → Option Link} {phy : CString} {x : Network × Router}
    (run : Reached (Found links phy) (Lives phy) x) :
    Routes phy x.1 x.2 ∧ Untouched links x.1 ∧ Unprogrammed links phy := by
  induction run with
  | @start x found =>
    obtain ⟨s, r⟩ := x
    have bare := found.1.2.1
    rw [found.2] at bare
    exact ⟨opening_routes found.1, found_untouched found, bare⟩
  | step before next ih =>
    obtain ⟨routes, inv, bare⟩ := ih
    cases next with
    | event step => exact ⟨event_routes routes step, event_untouched routes inv step, bare⟩
    | @exit s t r nodes o placed succeeds done detached =>
      obtain ⟨t', r', done', exited⟩ := exit_spec routes inv bare placed succeeds
      obtain rfl : t' = t := Option.some.inj (done'.symm.trans done)
      have found := exited_found bare exited detached
      exact ⟨opening_routes found.1, found_untouched found, bare⟩

def portless (phy : CString) (p : Packet) : Fate :=
  if packetClass p = .stack then .stack phy else .dropped

theorem exited_ends {links : CString → Option Link} {o : ExitOutcomes} {phy : CString}
    {s t : Network} {r : Router} (exited : Exited links o phy s t r)
    (attached : t.phy ≠ .absent) (ctx : XdpMd) (fate : Fate) :
    Ends phy t phy ctx fate ↔ fate = portless phy ctx.packet := by
  have untargeted : r.target = none := by
    cases target : r.target with
    | none => rfl
    | some q =>
      have member := target_registered exited.routes target
      exact absurd member (not_mem_keys_of_empty exited.empty q)
  rw [ends_delivers exited.routes, Delivers, exited.routes.attached, if_neg attached, portless]
  cases packetClass ctx.packet with
  | dropped => simp
  | stack => simp
  | forwarded => simp [untargeted]

/-- However many daemons have run one after the other: a signal ends the one that runs with no
    port left, every interface as the first one found it, and the pinned maps still there. When
    the program of the physical interface could be taken away, each packet goes to the stack
    again and the next daemon can start; when not, the program stays, and ICMP packets are
    dropped. -/
theorem exit_restores {links : CString → Option Link} {phy : CString} {s : Network} {r : Router}
    (run : Reached (Found links phy) (Lives phy) (s, r)) {nodes : List Node} {o : ExitOutcomes}
    (placed : Placed ⟨s.daemon, nodes⟩) (succeeds : ∀ n, Succeeds s.phy (o.deletes n)) :
    ∃ t, exitDaemon o phy nodes s = some t ∧ t.daemon.veths = [] ∧
      t.daemon.kernel.link = links ∧ t.daemon.kernel.pinned = s.daemon.kernel.pinned ∧
      t.phy = (if o.getMultiprog = true ∧ o.detach = true then .absent else s.phy) ∧
      (t.phy = .absent → Found links phy (t, idleRouter) ∧
        ∀ ctx fate, Ends phy t phy ctx fate ↔ fate = .stack phy) ∧
      (t.phy ≠ .absent → ∀ ctx fate,
        Ends phy t phy ctx fate ↔ fate = portless phy ctx.packet) := by
  obtain ⟨routes, inv, bare⟩ := lives_kept run
  obtain ⟨t, r', done, exited⟩ := exit_spec routes inv bare placed succeeds
  refine ⟨t, done, exited.empty, exited.links, exited.pinned, exited.program, ?_,
    fun attached => exited_ends exited attached⟩
  intro detached
  refine ⟨exited_found bare exited detached, ?_⟩
  intro ctx fate
  apply ends_pass
  rw [receive, if_pos rfl, if_pos detached]

theorem placed_somewhere (d : Daemon) : ∃ nodes, Placed ⟨d, nodes⟩ := by
  refine ⟨d.veths.zipIdx.map fun entry => ⟨entry.2, entry.1⟩, ?_, ?_⟩
  · rw [List.map_map]
    exact List.zipIdx_map_fst 0 d.veths
  · rw [List.map_map]
    change (d.veths.zipIdx.map Prod.snd).Nodup
    rw [List.zipIdx_map_snd]
    exact List.nodup_range'

theorem first_life {phy : CString} {x : Network × Router} (run : Reached (Opening phy) Routed x) :
    ∃ links, Reached (Found links phy) (Lives phy) x := by
  induction run with
  | start opening => exact ⟨_, Reached.start ⟨opening, rfl⟩⟩
  | step before next ih =>
    obtain ⟨links, lives⟩ := ih
    exact ⟨links, Reached.step lives (Lives.event next)⟩

/-- A packet that a socket got goes to the stack after the exit, and is dropped when the detach
    fails. -/
theorem exit_restores_one :
    ∃ s nodes t u, Ends wlan0 s wlan0 pingCtx (.socket 7) ∧
      exitDaemon ⟨true, true, fun _ _ => true⟩ wlan0 nodes s = some t ∧
      Ends wlan0 t wlan0 pingCtx (.stack wlan0) ∧
      exitDaemon ⟨true, false, fun _ _ => true⟩ wlan0 nodes s = some u ∧
      Ends wlan0 u wlan0 pingCtx .dropped := by
  obtain ⟨s, r, run, delivers⟩ := one_port (p := pingCtx.packet) (by decide)
  obtain ⟨links, lives⟩ := first_life run
  obtain ⟨nodes, placed⟩ := placed_somewhere s.daemon
  have before := (ends_delivers (routed_run run) pingCtx (.socket 7)).mpr delivers
  obtain ⟨t, done, -, -, -, program, gone, -⟩ :=
    exit_restores (o := ⟨true, true, fun _ _ => true⟩) lives placed (fun _ _ _ _ _ => rfl)
  obtain ⟨u, done', -, -, -, program', -, stays⟩ :=
    exit_restores (o := ⟨true, false, fun _ _ => true⟩) lives placed (fun _ _ _ _ _ => rfl)
  have attached : s.phy ≠ .absent := by
    intro absent
    have passed := (ends_pass (by rw [receive, if_pos rfl, if_pos absent])).mp before
    cases passed
  have there : u.phy ≠ .absent := by
    rw [program']
    exact attached
  refine ⟨s, nodes, t, u, before, done, ((gone program).2 _ _).mpr rfl, done', ?_⟩
  exact (stays there _ _).mpr (by decide)

end XSKDaemonLife
