import XSKNet.AcceptLoop
import XSKNet.MapDescriptors
import XSKNet.Slots

/- The descriptors of a daemon that lives on. The connection takes one and gives it back, and
   update_devmap opens the pinned map in every create_port and never closes it. -/
namespace XSKLeak
open CStrings XSKPorts XSKCommandSocket XSKServer Slots Runs
open XSKInterfaces (Outcomes)
open XSKMaps (Process MapCalls Object PATH_MAX bpfObjGet openBpfMapFile bpfMapUpdateElem
  updateDevmap mapFilename pinDir subdirPath xdpDevmap)

/-- clientFd is the descriptor handle_client reads from. -/
structure Host where
  server : Server
  process : Process
  clientFd : Option Nat

def Host.inUse (limit : Nat) (h : Host) : Nat := Slots.inUse limit h.process.fds

def plain : Event → Bool
  | .accept => false
  | .read _ _ => false
  | .hangUp => false
  | _ => true

def creates (bytes : List UInt8) : Bool :=
  (parseRead bytes).any fun c => decide (c.1 = createPortCommand)

/-- A create_port whose bpf_obj_get succeeded. -/
def opens (t : Nat × Outcomes × List UInt8) : Bool := creates t.2.2 && t.2.1 .openDevmap

/-- Loading the programs may leave more descriptors open, and pins maps. -/
def Keeps (p q : Process) : Prop := ∀ fd, (p.fds fd).isSome → (q.fds fd).isSome

/-- The steps of the server thread with what they do to the descriptors, of which the kernel
    hands out those below limit, and main loading its program; in created, q is the process
    between the two loads and update_devmap. -/
inductive Moves (dev : CString) (limit : Nat) : Host → Host → Prop where
  | plain {h : Host} {e : Event} {s : Server} (kind : plain e = true)
      (done : h.server.step dev e = some s) : Moves dev limit h { h with server := s }
  | loaded {h : Host} {q : Process} (kept : Keeps h.process q) :
      Moves dev limit h { h with process := q }
  | accepted {h : Host} {s : Server} {fd conn : Nat} (free : h.process.fds fd = none)
      (below : fd < limit) (done : h.server.accept = some s) :
      Moves dev limit h
        ⟨s, { h.process with fds := Function.update h.process.fds fd (some (.other conn)) },
          some fd⟩
  | closed {h : Host} {s : Server} {fd : Nat} (here : h.clientFd = some fd)
      (done : h.server.hangUp = some s) :
      Moves dev limit h
        ⟨s, { h.process with fds := Function.update h.process.fds fd none }, none⟩
  | answered {h : Host} {s : Server} {o : Outcomes} {n i : Nat} (at_i : h.server.pc = .serving i)
      (other : creates ((h.server.unread i).take n) = false)
      (done : Server.read dev o n h.server = some s) (lives : s.pc ≠ .ended) :
      Moves dev limit h { h with server := s }
  | created {h : Host} {s : Server} {o : Outcomes} {n i ifindex : Nat} {q : Process}
      {calls : MapCalls} (at_i : h.server.pc = .serving i)
      (command : creates ((h.server.unread i).take n) = true)
      (done : Server.read dev o n h.server = some s) (lives : s.pc ≠ .ended)
      (kept : Keeps h.process q) (within : ∀ fd, calls.objGet = some fd → fd < limit)
      (agrees : o .openDevmap =
        decide (0 ≤ (bpfObjGet calls (mapFilename (pinDir dev) xdpDevmap) q).1)) :
      Moves dev limit h ⟨s, (updateDevmap calls dev ifindex q).after, h.clientFd⟩

structure Fresh (limit base : Nat) (h : Host) : Prop where
  listening : ∃ d, Listening d h.server
  inUse : h.inUse limit = base
  noClient : h.clientFd = none

/- What the calls leave open. -/

theorem update_fds (o : MapCalls) (fd : Int) (key value : Nat) (p : Process) :
    (bpfMapUpdateElem o fd key value p).after.fds = p.fds := by
  rcases XSKMaps.update_cases o fd key value p with failed | ⟨m, -, updated⟩
  · rw [failed]
  · rw [updated]

theorem objGet_keeps (calls : MapCalls) (path : CString) (p : Process) :
    Keeps p (bpfObjGet calls path p).2 := by
  intro fd here
  rcases XSKMaps.objGet_cases calls path p with failed | ⟨d, object, -, got⟩
  · rw [failed]
    exact here
  · rw [got]
    dsimp only
    split
    · rfl
    · exact here

theorem objGet_fds {calls : MapCalls} {limit : Nat} {path : CString} {p : Process}
    (within : ∀ fd, calls.objGet = some fd → fd < limit) :
    Slots.inUse limit (bpfObjGet calls path p).2.fds =
      Slots.inUse limit p.fds + (if 0 ≤ (bpfObjGet calls path p).1 then 1 else 0) := by
  have negative : ¬ 0 ≤ XSKMaps.failure calls := Int.not_le.mpr (XSKMaps.failure_neg calls)
  unfold bpfObjGet
  cases got : calls.objGet with
  | none => simp [negative]
  | some fd =>
    cases pinned : p.fs.pinned path with
    | none => simp [negative]
    | some object =>
      dsimp only
      by_cases free : p.fds fd = none
      · have table : (fun i => if i = fd then some object else p.fds i) =
            Function.update p.fds fd (some object) := by
          funext i
          rw [Function.update_apply]
        simp only [if_pos free, table, inUse_set object free (within fd got),
          if_pos (Int.natCast_nonneg fd)]
      · simp only [if_neg free, if_neg negative, Nat.add_zero]

theorem open_fds (calls : MapCalls) (dir mapname : CString) (info : Bool) (p : Process)
    (formatted : ¬ XSKMaps.snprintfLen [dir, XSKMaps.slash, mapname] < 0) :
    (openBpfMapFile calls dir mapname info p).2.fds =
      (bpfObjGet calls (mapFilename dir mapname) p).2.fds := by
  unfold openBpfMapFile
  rw [if_neg formatted]
  dsimp only
  split
  · rfl
  · split
    · rfl
    · rfl

theorem updateDevmap_fds (calls : MapCalls) {dev : CString} (ifindex : Nat) (q : Process)
    (short : (subdirPath dev).length < PATH_MAX) :
    (updateDevmap calls dev ifindex q).after.fds =
      (bpfObjGet calls (mapFilename (pinDir dev) xdpDevmap) q).2.fds := by
  have checked := (not_congr (XSKMaps.subdir_check dev)).mpr (Nat.not_le.mpr short)
  have dir : (pinDir dev).length < PATH_MAX := by
    rw [XSKMaps.pinDir_eq short]
    exact short
  have formatted : ¬ XSKMaps.snprintfLen [pinDir dev, XSKMaps.slash, xdpDevmap] < 0 := by
    have parts : ([pinDir dev, XSKMaps.slash, xdpDevmap].map CString.length).sum =
        (pinDir dev).length + 11 := rfl
    unfold XSKMaps.snprintfLen
    rw [parts]
    unfold PATH_MAX at dir
    split
    · omega
    · omega
  rw [← open_fds calls (pinDir dev) xdpDevmap true q formatted]
  unfold updateDevmap
  simp only [if_neg checked]
  split
  · rfl
  · split
    · rw [update_fds]
    · rw [update_fds]

theorem update_inUse {calls : MapCalls} {dev : CString} {limit ifindex : Nat} {q : Process}
    (short : (subdirPath dev).length < PATH_MAX)
    (within : ∀ fd, calls.objGet = some fd → fd < limit) :
    Slots.inUse limit (updateDevmap calls dev ifindex q).after.fds =
      Slots.inUse limit q.fds +
        (if 0 ≤ (bpfObjGet calls (mapFilename (pinDir dev) xdpDevmap) q).1 then 1 else 0) := by
  rw [updateDevmap_fds calls ifindex q short, objGet_fds within]

/- What the steps of the thread do to its records. -/

theorem plain_records {dev : CString} {s t : Server} {e : Event} (kind : plain e = true)
    (done : s.step dev e = some t) :
    t.log = s.log ∧ t.accepted = s.accepted ∧ ∀ i, t.pc = .serving i → s.pc = .serving i := by
  have no_read : ∀ o n, e ≠ .read o n := by
    rintro o n rfl
    cases kind
  have no_accept : e ≠ .accept := by
    rintro rfl
    cases kind
  obtain ⟨idle, place⟩ := step_idle no_read done
  exact ⟨idle.log, place no_accept⟩

theorem read_logged {dev : CString} {o : Outcomes} {n i : Nat} {s t : Server}
    (at_i : s.pc = .serving i) (done : Server.read dev o n s = some t) :
    t.log = s.log ++ [(i, o, (s.unread i).take n)] := by
  simp only [Server.read, at_i] at done
  split at done
  · split at done
    · rw [← Option.some.inj done]
    · rw [← Option.some.inj done]
  · cases done

theorem hangUp_records {s t : Server} (done : s.hangUp = some t) :
    t.log = s.log ∧ t.pc = .testing := by
  unfold Server.hangUp at done
  split at done
  · rw [← Option.some.inj done]
    exact ⟨rfl, rfl⟩
  · cases done

/- The descriptors over runs. -/

def connection (h : Host) : Nat := if h.clientFd.isSome then 1 else 0

/-- Whatever else is open, so are the descriptors that were at the start, one for every map
    opened since, and that of the connection. -/
structure Leaking (limit base : Nat) (h : Host) : Prop where
  count : base + h.server.log.countP opens + connection h ≤ h.inUse limit
  client : ∀ fd, h.clientFd = some fd → fd < limit ∧ (h.process.fds fd).isSome
  served : ∀ i, h.server.pc = .serving i → h.clientFd.isSome

theorem fresh_leaking {limit base : Nat} {h : Host} (fresh : Fresh limit base h) :
    Leaking limit base h := by
  obtain ⟨⟨d, listening⟩, inUse, noClient⟩ := fresh
  have none_logged : h.server.log = [] := by
    rw [listening]
  refine ⟨?_, ?_, ?_⟩
  · unfold connection
    rw [none_logged, inUse, noClient]
    exact Nat.le_refl base
  · intro fd client
    rw [noClient] at client
    cases client
  · intro i at_i
    rw [listening] at at_i
    cases at_i

theorem moves_leaking {dev : CString} {limit base : Nat} {h h' : Host}
    (short : (subdirPath dev).length < PATH_MAX) (inv : Leaking limit base h)
    (move : Moves dev limit h h') : Leaking limit base h' := by
  obtain ⟨count, client, served⟩ := inv
  cases move with
  | plain kind done =>
    obtain ⟨log, -, place⟩ := plain_records kind done
    refine ⟨?_, client, fun i at_i => served i (place i at_i)⟩
    change base + List.countP opens _ + connection h ≤ h.inUse limit
    rw [log]
    exact count
  | loaded kept =>
    refine ⟨Nat.le_trans count (inUse_mono kept), ?_, served⟩
    intro fd same
    exact ⟨(client fd same).1, kept fd (client fd same).2⟩
  | @accepted s fd conn free below done =>
    refine ⟨?_, ?_, fun _ _ => rfl⟩
    · change base + s.log.countP opens + 1 ≤
        Slots.inUse limit (Function.update h.process.fds fd (some (.other conn)))
      have log := (@step_idle dev h.server s .accept nofun done).1.log
      rw [inUse_set _ free below, log]
      unfold Host.inUse at count
      omega
    · intro fd' same
      obtain rfl := Option.some.inj same
      refine ⟨below, ?_⟩
      change (Function.update h.process.fds fd (some (.other conn)) fd).isSome = true
      rw [Function.update_self]
      rfl
  | @closed s fd here done =>
    obtain ⟨log, place⟩ := hangUp_records done
    obtain ⟨below, taken⟩ := client fd here
    have freed := inUse_clear taken below
    refine ⟨?_, nofun, ?_⟩
    · change base + s.log.countP opens + 0 ≤
        Slots.inUse limit (Function.update h.process.fds fd none)
      unfold Host.inUse connection at count
      rw [here] at count
      rw [log]
      change base + _ + 1 ≤ _ at count
      omega
    · intro i at_i
      change s.pc = .serving i at at_i
      rw [place] at at_i
      cases at_i
  | @answered s o n i at_i other done lives =>
    refine ⟨?_, client, fun _ _ => served i at_i⟩
    change base + s.log.countP opens + connection h ≤ h.inUse limit
    rw [read_logged at_i done, List.countP_append]
    simp only [List.countP_singleton, opens, other, Bool.false_and, Bool.false_eq_true, if_false]
    exact count
  | @created s o n i ifindex q calls at_i command done lives kept within agrees =>
    have more : h.inUse limit ≤ Slots.inUse limit q.fds := inUse_mono kept
    have opened := @update_inUse calls dev limit ifindex q short within
    refine ⟨?_, ?_, fun _ _ => served i at_i⟩
    · change base + s.log.countP opens + connection h ≤
        Slots.inUse limit (updateDevmap calls dev ifindex q).after.fds
      rw [opened, read_logged at_i done, List.countP_append]
      simp only [List.countP_singleton, opens, command, Bool.true_and, agrees,
        decide_eq_true_eq]
      omega
    · intro fd same
      obtain ⟨below, here⟩ := client fd same
      refine ⟨below, ?_⟩
      change ((updateDevmap calls dev ifindex q).after.fds fd).isSome = true
      rw [updateDevmap_fds calls ifindex q short]
      exact objGet_keeps calls _ q fd (kept fd here)

theorem leaking_run {dev : CString} {limit base : Nat} {h : Host}
    (short : (subdirPath dev).length < PATH_MAX)
    (run : Reached (Fresh limit base) (Moves dev limit) h) : Leaking limit base h :=
  reached_invariant (Leaking limit base) (fun _ => fresh_leaking)
    (fun _ _ => moves_leaking short) run

structure Exhausted (limit : Nat) (h : Host) : Prop where
  full : h.inUse limit = limit
  noClient : h.clientFd = none
  unserved : ∀ i, h.server.pc ≠ .serving i

/-- Only the end of a connection closes a descriptor, so that nothing is accepted any more. -/
theorem exhausted_stays {dev : CString} {limit : Nat} {h h' : Host}
    (out : Exhausted limit h) (move : Moves dev limit h h') :
    Exhausted limit h' ∧ h'.server.accepted = h.server.accepted ∧
      h'.server.log = h.server.log := by
  obtain ⟨full, noClient, unserved⟩ := out
  cases move with
  | plain kind done =>
    obtain ⟨log, accepted, place⟩ := plain_records kind done
    exact ⟨⟨full, noClient, fun i at_i => unserved i (place i at_i)⟩, accepted, log⟩
  | loaded kept =>
    have more : limit ≤ Slots.inUse limit _ :=
      Nat.le_trans (Nat.le_of_eq full.symm) (inUse_mono kept)
    exact ⟨⟨Nat.le_antisymm (inUse_le limit _) more, noClient, unserved⟩, rfl, rfl⟩
  | accepted free below done =>
    have here := full_of_inUse full below
    rw [free] at here
    cases here
  | closed here done =>
    rw [noClient] at here
    cases here
  | answered at_i other done lives => exact absurd at_i (unserved _)
  | created at_i command done lives kept within agrees => exact absurd at_i (unserved _)

theorem exhausted_run {dev : CString} {limit : Nat} {h h' : Host} (out : Exhausted limit h)
    (later : Reached (· = h) (Moves dev limit) h') :
    Exhausted limit h' ∧ h'.server.accepted = h.server.accepted ∧
      h'.server.log = h.server.log := by
  induction later with
  | start same =>
    rw [same]
    exact ⟨out, rfl, rfl⟩
  | step before next ih =>
    obtain ⟨still, accepted, log⟩ := ih
    obtain ⟨stays, accepted', log'⟩ := exhausted_stays still next
    exact ⟨stays, accepted'.trans accepted, log'.trans log⟩

/-- Every create_port that reaches the pinned map costs the daemon a descriptor for the rest
    of its life, whatever is deleted in between: their number is bounded by the limit, and
    once no descriptor is left between two connections no further one is ever accepted. -/
theorem descriptors_run_out {dev : CString} {limit base : Nat} {h : Host}
    (short : (subdirPath dev).length < PATH_MAX)
    (run : Reached (Fresh limit base) (Moves dev limit) h) :
    base + h.server.log.countP opens + connection h ≤ limit ∧
    (h.inUse limit = limit → h.clientFd = none →
      ∀ h', Reached (· = h) (Moves dev limit) h' →
        h'.server.accepted = h.server.accepted ∧ h'.server.log = h.server.log) := by
  obtain ⟨count, -, served⟩ := leaking_run short run
  refine ⟨Nat.le_trans count (inUse_le limit _), ?_⟩
  intro full noClient h' later
  have unserved : ∀ i, h.server.pc ≠ .serving i := by
    intro i at_i
    have here := served i at_i
    rw [noClient] at here
    cases here
  exact (exhausted_run ⟨full, noClient, unserved⟩ later).2

def threeOpen : Process :=
  ⟨XSKMaps.onlyDevmap, fun i => if i < 3 then some (.other i) else none, fun _ _ => 0⟩

def freshHost : Host := ⟨listening, threeOpen, none⟩

theorem freshHost_fresh : Fresh 5 3 freshHost := ⟨⟨_, rfl⟩, by decide, rfl⟩

def opensFour : MapCalls := ⟨some 4, true, true, 0⟩

def createLine : List UInt8 := ascii "create_port v"

def opening (p : Process) (fd : Nat) (object : Object) : Process :=
  { p with fds := Function.update p.fds fd (some object) }

theorem opening_keeps (p : Process) (fd : Nat) (object : Object) :
    Keeps p (opening p fd object) := by
  intro fd' here
  change (Function.update p.fds fd (some object) fd').isSome = true
  by_cases same : fd' = fd
  · rw [same, Function.update_self]
    rfl
  · rwa [Function.update_of_ne same]

/-- Descriptor 4 goes to the map of the one port, and main's own program takes the one that the
    connection gives back: nothing is accepted any more. -/
theorem descriptors_run_out_of_five :
    ∃ h, Reached (Fresh 5 3) (Moves XSKMaps.eth1 5) h ∧ h.server.log.countP opens = 1 ∧
      h.inUse 5 = 5 ∧ 3 + h.server.log.countP opens + connection h ≤ 5 ∧
      ∀ h', Reached (· = h) (Moves XSKMaps.eth1 5) h' →
        h'.server.accepted = h.server.accepted ∧ h'.server.log = h.server.log := by
  have start : Reached (Fresh 5 3) (Moves XSKMaps.eth1 5) freshHost :=
    Reached.start freshHost_fresh
  have connected := Reached.step start (Moves.plain (e := .connect 0) rfl rfl)
  have sent := Reached.step connected (Moves.plain (e := .send 0 createLine) rfl rfl)
  have closed := Reached.step sent (Moves.plain (e := .close 0) rfl rfl)
  have tested := Reached.step closed (Moves.plain (e := .test) rfl rfl)
  have accepted := Reached.step tested
    (@Moves.accepted XSKMaps.eth1 5 _ _ 3 0 rfl (by decide) rfl)
  have created := Reached.step accepted
    (@Moves.created XSKMaps.eth1 5 _ _ (fun _ => true) 13 0 7 _ opensFour rfl rfl rfl nofun
      (fun _ here => here) (by decide) (by decide))
  have hung := Reached.step created (@Moves.closed XSKMaps.eth1 5 _ _ 3 rfl rfl)
  have loaded := Reached.step hung (Moves.loaded (opening_keeps _ 3 (.other 0)))
  obtain ⟨bound, ends⟩ := descriptors_run_out (by decide) loaded
  exact ⟨_, loaded, by decide, by decide, bound, ends (by decide) rfl⟩

end XSKLeak
