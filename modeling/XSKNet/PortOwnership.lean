import XSKNet.CommandSocket
import XSKNet.Runs

/- Any number of clients and the daemon. Every client has the program of client.c: it asks for
   its port, then for the name of the physical interface, and may later give the port back,
   each over a connection of its own that carries one command, read at once. The daemon
   serves one connection after the other, in any order. -/
namespace XSKOwnership
open CStrings XSKVeth XSKInterfaces XSKPorts XSKCommandSocket Runs

/- The requests of socket.c. -/

def requestCmd (command argument : CString) : CString :=
  CString.snprintf CMD_SIZE [command, space, argument]

def requestPort (vethName : CString) : CString := requestCmd createPortCommand vethName
def removePort (vethName : CString) : CString := requestCmd deletePortCommand vethName
def requestPhyIfname (vethName : CString) : CString := requestCmd getPhyIfCommand vethName

/-- dev is the --dev option of every client, garbage what its phy_ifname buffer holds before
    it is filled, phyDev the option of the daemon. -/
structure World where
  dev : Nat → CString
  garbage : Nat → CString
  phyDev : CString

/-- Where a client is in its program. The reply to create_port is remembered. -/
inductive Phase where
  | start
  | createSent
  | createAnswered (reply : List UInt8)
  | created (reply : List UInt8)
  | phySent (reply : List UInt8)
  | phyAnswered (reply phy : List UInt8)
  | running (reply phy : List UInt8)
  | deleteSent
  | deleteAnswered (reply : List UInt8)
  | done
  deriving DecidableEq

structure System where
  client : Nat → Phase
  daemon : Daemon

inductive Event where
  | send (i : Nat)
  | serve (i : Nat) (o : Outcomes)
  | receive (i : Nat)

def Phase.send : Phase → Option Phase
  | .start => some .createSent
  | .created reply => some (.phySent reply)
  | .running _ _ => some .deleteSent
  | _ => none

def Phase.answer (answer : List UInt8) : Phase → Option Phase
  | .createSent => some (.createAnswered answer)
  | .phySent reply => some (.phyAnswered reply answer)
  | .deleteSent => some (.deleteAnswered answer)
  | _ => none

def Phase.receive : Phase → Option Phase
  | .createAnswered reply => some (.created reply)
  | .phyAnswered reply phy => some (.running reply phy)
  | .deleteAnswered _ => some .done
  | _ => none

def Phase.request (w : World) (i : Nat) : Phase → Option CString
  | .createSent => some (requestPort (w.dev i))
  | .phySent _ => some (requestPhyIfname (w.garbage i))
  | .deleteSent => some (removePort (w.dev i))
  | _ => none

def System.setClient (s : System) (i : Nat) (phase : Phase) : System :=
  { s with client := fun j => if j = i then phase else s.client j }

/-- none when the event cannot happen; a daemon that exits serves nobody any more. -/
def System.step (w : World) (s : System) : Event → Option System
  | .send i => (s.client i).send.map (s.setClient i)
  | .receive i => (s.client i).receive.map (s.setClient i)
  | .serve i o =>
    match (s.client i).request w i with
    | none => none
    | some request =>
      match handleRead w.phyDev o request.bytes s.daemon with
      | .error _ => none
      | .ok (reply, daemon) =>
        ((s.client i).answer reply).map fun phase =>
          { s.setClient i phase with daemon := daemon }

def Started (s : System) : Prop := (∀ i, s.client i = .start) ∧ s.daemon.veths = []

def AnyStep (w : World) (s t : System) : Prop := ∃ e, s.step w e = some t

/-- The client received OK for create_port and has not sent delete_port. -/
def Phase.owns : Phase → Prop
  | .created reply => reply = okReply
  | .phySent reply => reply = okReply
  | .phyAnswered reply _ => reply = okReply
  | .running reply _ => reply = okReply
  | _ => False

/-- Whoever owns a port has it registered, and no one else owns it. -/
def Exclusive (w : World) (s : System) : Prop :=
  ∀ i, (s.client i).owns → w.dev i ∈ keys s.daemon.veths ∧
    ∀ j, j ≠ i → (s.client j).owns → w.dev j ≠ w.dev i

/-- From the execution of create_port to that of delete_port. -/
def Phase.holding : Phase → Bool
  | .createAnswered _ => true
  | .created _ => true
  | .phySent _ => true
  | .phyAnswered _ _ => true
  | .running _ _ => true
  | .deleteSent => true
  | _ => false

/-- A create_port that is served names one word of at most 15 bytes that is not registered,
    and the insertion succeeds. -/
def Grantable (w : World) (s : System) : Event → Prop
  | .serve i o => s.client i = .createSent → (32 : UInt8) ∉ (w.dev i).bytes ∧
      (w.dev i).length ≤ 15 ∧ w.dev i ∉ keys s.daemon.veths ∧ o .malloc = true
  | _ => True

def GrantableStep (w : World) (s t : System) : Prop :=
  ∃ e, Grantable w s e ∧ s.step w e = some t

/- What the daemon reads in a request. -/

theorem requestCmd_bytes {command : CString} (argument : CString)
    (short : command.bytes.length ≤ 1000) :
    (requestCmd command argument).bytes =
      command.bytes ++ 32 :: argument.bytes.take (1022 - command.bytes.length) := by
  have whole : ([command, space, argument].map CString.bytes).flatten =
      command.bytes ++ 32 :: argument.bytes := by
    simp [space]
  obtain ⟨k, room⟩ : ∃ k, 1023 - command.bytes.length = k + 1 :=
    ⟨1022 - command.bytes.length, by omega⟩
  rw [requestCmd, CString.snprintf_bytes, whole]
  change (command.bytes ++ 32 :: argument.bytes).take 1023 = _
  rw [List.take_append, List.take_of_length_le (by omega), room, List.take_succ_cons]
  congr 3
  omega

theorem ofArray_self (s : CString) : CString.ofArray s.bytes = s :=
  CString.ext_bytes (CString.ofArray_bytes s.noNul)

theorem parse_request (command argument : CString) (nonempty : command.bytes ≠ [])
    (word : (32 : UInt8) ∉ command.bytes) (short : command.bytes.length ≤ 1000) :
    ∃ data, parseRead (requestCmd command argument).bytes = some (command, data) ∧
      ((32 : UInt8) ∉ argument.bytes → argument.length ≤ 15 → data = argument) := by
  have tokens := strtok_word nonempty word (argument.bytes.take (1022 - command.bytes.length))
  unfold parseRead
  rw [ofArray_self, requestCmd_bytes argument short, tokens]
  refine ⟨_, congrArg some (Prod.ext (ofArray_self command) rfl), ?_⟩
  intro single fits
  have all : argument.bytes.take (1022 - command.bytes.length) = argument.bytes := by
    apply List.take_of_length_le
    have size : argument.bytes.length ≤ 15 := fits
    omega
  rw [all, strtok_whole single]
  by_cases empty : argument.bytes = []
  · rw [if_pos empty]
    exact CString.ext_bytes empty.symm
  · rw [if_neg empty]
    exact ofArray_self argument

/- One event. -/

@[simp] theorem setClient_same (s : System) (i : Nat) (phase : Phase) :
    (s.setClient i phase).client i = phase := by
  simp [System.setClient]

@[simp] theorem setClient_other (s : System) {i j : Nat} (phase : Phase) (other : j ≠ i) :
    (s.setClient i phase).client j = s.client j := by
  simp [System.setClient, other]

structure Moved (s t : System) (i : Nat) (phase : Phase) : Prop where
  here : t.client i = phase
  others : ∀ j, j ≠ i → t.client j = s.client j

theorem moved_setClient (s : System) (i : Nat) (phase : Phase) :
    Moved s (s.setClient i phase) i phase :=
  ⟨setClient_same s i phase, fun _ other => setClient_other s phase other⟩

theorem send_spec {w : World} {s t : System} {i : Nat} (sent : s.step w (.send i) = some t) :
    ∃ phase, (s.client i).send = some phase ∧ Moved s t i phase ∧ t.daemon = s.daemon := by
  obtain ⟨phase, next, rfl⟩ := Option.map_eq_some_iff.mp sent
  exact ⟨phase, next, moved_setClient s i phase, rfl⟩

theorem receive_spec {w : World} {s t : System} {i : Nat}
    (received : s.step w (.receive i) = some t) :
    ∃ phase, (s.client i).receive = some phase ∧ Moved s t i phase ∧ t.daemon = s.daemon := by
  obtain ⟨phase, next, rfl⟩ := Option.map_eq_some_iff.mp received
  exact ⟨phase, next, moved_setClient s i phase, rfl⟩

theorem serve_spec {w : World} {s t : System} {i : Nat} {o : Outcomes}
    (served : s.step w (.serve i o) = some t) :
    ∃ request reply phase, (s.client i).request w i = some request ∧
      (s.client i).answer reply = some phase ∧ Moved s t i phase ∧
      t.daemon = after (handleRead w.phyDev o request.bytes s.daemon) := by
  unfold System.step at served
  dsimp only at served
  cases asked : (s.client i).request w i with
  | none =>
    rw [asked] at served
    cases served
  | some request =>
    rw [asked] at served
    dsimp only at served
    cases handled : handleRead w.phyDev o request.bytes s.daemon with
    | error d =>
      rw [handled] at served
      cases served
    | ok result =>
      obtain ⟨reply, daemon⟩ := result
      rw [handled] at served
      obtain ⟨phase, answered, rfl⟩ := Option.map_eq_some_iff.mp served
      have moved := moved_setClient s i phase
      refine ⟨request, reply, phase, rfl, answered, ⟨moved.here, moved.others⟩, ?_⟩
      rw [handled]
      rfl

theorem serve_create {w : World} {s t : System} {i : Nat} {o : Outcomes}
    (served : s.step w (.serve i o) = some t) (at_create : s.client i = .createSent) :
    ∃ data reply, Moved s t i (.createAnswered reply) ∧
      t.daemon.veths = (vethListAdd (o .malloc) s.daemon.veths data).2 ∧
      (32 : UInt8) ∉ data.bytes ∧
      ((32 : UInt8) ∉ (w.dev i).bytes → (w.dev i).length ≤ 15 → data = w.dev i) := by
  obtain ⟨request, reply, phase, asked, answered, moved, daemon⟩ := serve_spec served
  rw [at_create] at asked answered
  cases asked
  cases answered
  obtain ⟨data, parsed, whole⟩ :=
    parse_request createPortCommand (w.dev i) (by decide) (by decide) (by decide)
  refine ⟨data, reply, moved, ?_, parseRead_no_space parsed, whole⟩
  change t.daemon = after (handleRead _ _ (requestCmd createPortCommand _).bytes _) at daemon
  rw [daemon, after_create s.daemon parsed]
  exact (createPort_ended o data s.daemon).2

theorem serve_phy {w : World} {s t : System} {i : Nat} {o : Outcomes} {reply : List UInt8}
    (served : s.step w (.serve i o) = some t) (at_phy : s.client i = .phySent reply) :
    ∃ phy, Moved s t i (.phyAnswered reply phy) ∧ t.daemon = s.daemon := by
  obtain ⟨request, phy, phase, asked, answered, moved, daemon⟩ := serve_spec served
  rw [at_phy] at asked answered
  cases asked
  cases answered
  obtain ⟨data, parsed, -⟩ :=
    parse_request getPhyIfCommand (w.garbage i) (by decide) (by decide) (by decide)
  refine ⟨phy, moved, ?_⟩
  change t.daemon = after (handleRead _ _ (requestCmd getPhyIfCommand _).bytes _) at daemon
  rw [daemon]
  apply after_other
  intro command data' found
  rw [parsed] at found
  obtain ⟨rfl, -⟩ := Prod.mk.inj (Option.some.inj found)
  decide

theorem serve_delete {w : World} {s t : System} {i : Nat} {o : Outcomes}
    (served : s.step w (.serve i o) = some t) (at_delete : s.client i = .deleteSent) :
    ∃ data reply, Moved s t i (.deleteAnswered reply) ∧
      t.daemon.veths = (vethListRemove s.daemon.veths data).2 ∧
      ((32 : UInt8) ∉ (w.dev i).bytes → (w.dev i).length ≤ 15 → data = w.dev i) := by
  obtain ⟨request, reply, phase, asked, answered, moved, daemon⟩ := serve_spec served
  rw [at_delete] at asked answered
  cases asked
  cases answered
  obtain ⟨data, parsed, whole⟩ :=
    parse_request deletePortCommand (w.dev i) (by decide) (by decide) (by decide)
  refine ⟨data, reply, moved, ?_, whole⟩
  change t.daemon = after (handleRead _ _ (requestCmd deletePortCommand _).bytes _) at daemon
  obtain ⟨k, -, table, -⟩ := deletePort_spec o data s.daemon
  rw [daemon, after_delete s.daemon parsed, table]

/- The invariant. -/

/-- The registered prefixes are words, one for each client that holds a port. -/
structure Owned (w : World) (s : System) : Prop where
  distinct : (keys s.daemon.veths).Nodup
  words : ∀ k ∈ keys s.daemon.veths, (32 : UInt8) ∉ k.bytes
  held : ∀ i, (s.client i).holding = true → w.dev i ∈ keys s.daemon.veths
  apart : ∀ i j, (s.client i).holding = true → (s.client j).holding = true → i ≠ j →
    w.dev i ≠ w.dev j
  holder : ∀ k ∈ keys s.daemon.veths, ∃ i, (s.client i).holding = true ∧ w.dev i = k

theorem send_holding {before phase : Phase} (next : before.send = some phase) :
    phase.holding = before.holding := by
  cases before with
  | start => cases next; rfl
  | created reply => cases next; rfl
  | running reply phy => cases next; rfl
  | _ => cases next

theorem receive_holding {before phase : Phase} (next : before.receive = some phase) :
    phase.holding = before.holding := by
  cases before with
  | createAnswered reply => cases next; rfl
  | phyAnswered reply phy => cases next; rfl
  | deleteAnswered reply => cases next; rfl
  | _ => cases next

theorem owns_holding {phase : Phase} (owns : phase.owns) : phase.holding = true := by
  cases phase with
  | created reply => rfl
  | phySent reply => rfl
  | phyAnswered reply phy => rfl
  | running reply phy => rfl
  | _ => exact False.elim owns

theorem owned_same {w : World} {s t : System} {i : Nat} {phase : Phase} (inv : Owned w s)
    (moved : Moved s t i phase) (same : phase.holding = (s.client i).holding)
    (daemon : t.daemon = s.daemon) : Owned w t := by
  obtain ⟨distinct, words, held, apart, holder⟩ := inv
  have holds : ∀ j, (t.client j).holding = (s.client j).holding := by
    intro j
    by_cases at_i : j = i
    · rw [at_i, moved.here, same]
    · rw [moved.others j at_i]
  simp only [← holds] at held apart holder
  rw [← daemon] at distinct words held holder
  exact ⟨distinct, words, held, apart, holder⟩

theorem started_owned {w : World} {s : System} (started : Started s) : Owned w s := by
  obtain ⟨clients, empty⟩ := started
  have nobody : ∀ i, (s.client i).holding ≠ true := by
    intro i holding
    rw [clients i] at holding
    cases holding
  have none_registered := not_mem_keys_of_empty empty
  refine ⟨?_, ?_, ?_, ?_, ?_⟩
  · rw [empty]
    exact List.nodup_nil
  · exact fun k member => absurd member (none_registered k)
  · exact fun i holding => absurd holding (nobody i)
  · exact fun i j holding => absurd holding (nobody i)
  · exact fun k member => absurd member (none_registered k)

theorem create_owned {w : World} {s t : System} {i : Nat} {o : Outcomes} (inv : Owned w s)
    (at_create : s.client i = .createSent) (grantable : Grantable w s (.serve i o))
    (served : s.step w (.serve i o) = some t) : Owned w t := by
  obtain ⟨data, reply, moved, table, -, whole⟩ := serve_create served at_create
  obtain ⟨word, short, new, inserted⟩ := grantable at_create
  obtain ⟨distinct, words, held, apart, holder⟩ := inv
  rw [whole word short, inserted] at table
  have member : ∀ q, q ∈ keys t.daemon.veths ↔ q ∈ keys s.daemon.veths ∨ q = w.dev i := by
    intro q
    rw [table, mem_keys_vethListAdd true short]
    simp
  have not_yet : (s.client i).holding ≠ true := by
    rw [at_create]
    exact Bool.false_ne_true
  have before : ∀ j, (t.client j).holding = true → j = i ∨ (s.client j).holding = true := by
    intro j holding
    by_cases same : j = i
    · exact Or.inl same
    · rw [moved.others j same] at holding
      exact Or.inr holding
  refine ⟨?_, ?_, ?_, ?_, ?_⟩
  · rw [table]
    exact nodup_vethListAdd true short distinct
  · intro k registered
    rcases (member k).mp registered with old | rfl
    · exact words k old
    · exact word
  · intro j holding
    rw [member]
    rcases before j holding with rfl | held_j
    · exact Or.inr rfl
    · exact Or.inl (held j held_j)
  · intro j k hold_j hold_k differ equal
    rcases before j hold_j with rfl | held_j
    · rcases before k hold_k with rfl | held_k
      · exact differ rfl
      · exact new (equal ▸ held k held_k)
    · rcases before k hold_k with rfl | held_k
      · exact new (equal ▸ held j held_j)
      · exact apart j k held_j held_k differ equal
  · intro k registered
    rcases (member k).mp registered with old | rfl
    · obtain ⟨j, holding, same⟩ := holder k old
      have other : j ≠ i := fun at_i => not_yet (at_i ▸ holding)
      refine ⟨j, ?_, same⟩
      rwa [moved.others j other]
    · refine ⟨i, ?_, rfl⟩
      rw [moved.here]
      rfl

theorem delete_owned {w : World} {s t : System} {i : Nat} {o : Outcomes} (inv : Owned w s)
    (at_delete : s.client i = .deleteSent) (served : s.step w (.serve i o) = some t) :
    Owned w t := by
  obtain ⟨data, reply, moved, table, whole⟩ := serve_delete served at_delete
  obtain ⟨distinct, words, held, apart, holder⟩ := inv
  have held_here : (s.client i).holding = true := by
    rw [at_delete]
    rfl
  have registered := held i held_here
  rw [whole (words _ registered) (keys_short registered)] at table
  have member : ∀ q, q ∈ keys t.daemon.veths ↔ q ∈ keys s.daemon.veths ∧ q ≠ w.dev i := by
    intro q
    rw [table]
    exact mem_keys_vethListRemove distinct (w.dev i) q
  have gone : (t.client i).holding ≠ true := by
    rw [moved.here]
    exact Bool.false_ne_true
  have elsewhere : ∀ j, (t.client j).holding = true → j ≠ i ∧ (s.client j).holding = true := by
    intro j holding
    have other : j ≠ i := fun at_i => gone (at_i ▸ holding)
    rw [moved.others j other] at holding
    exact ⟨other, holding⟩
  refine ⟨?_, ?_, ?_, ?_, ?_⟩
  · rw [table]
    exact nodup_vethListRemove distinct _
  · exact fun k still => words k ((member k).mp still).1
  · intro j holding
    obtain ⟨other, before⟩ := elsewhere j holding
    exact (member _).mpr ⟨held j before, apart j i before held_here other⟩
  · intro j k hold_j hold_k differ
    exact apart j k (elsewhere j hold_j).2 (elsewhere k hold_k).2 differ
  · intro k still
    obtain ⟨old, differ⟩ := (member k).mp still
    obtain ⟨j, holding, same⟩ := holder k old
    have other : j ≠ i := by
      rintro rfl
      exact differ same.symm
    refine ⟨j, ?_, same⟩
    rwa [moved.others j other]

theorem step_owned {w : World} {s t : System} {e : Event} (inv : Owned w s)
    (grantable : Grantable w s e) (step : s.step w e = some t) : Owned w t := by
  cases e with
  | send i =>
    obtain ⟨phase, next, moved, daemon⟩ := send_spec step
    exact owned_same inv moved (send_holding next) daemon
  | receive i =>
    obtain ⟨phase, next, moved, daemon⟩ := receive_spec step
    exact owned_same inv moved (receive_holding next) daemon
  | serve i o =>
    cases at_phase : s.client i with
    | createSent => exact create_owned inv at_phase grantable step
    | phySent reply =>
      obtain ⟨phy, moved, daemon⟩ := serve_phy step at_phase
      have same : (Phase.phyAnswered reply phy).holding = (s.client i).holding := by
        rw [at_phase]
        rfl
      exact owned_same inv moved same daemon
    | deleteSent => exact delete_owned inv at_phase step
    | _ =>
      obtain ⟨request, reply, phase, asked, -⟩ := serve_spec step
      rw [at_phase] at asked
      cases asked

theorem grantable_run {w : World} {s : System} (run : Reached Started (GrantableStep w) s) :
    Owned w s := by
  refine reached_invariant (Owned w) (fun s => started_owned) ?_ run
  rintro s t inv ⟨e, grantable, step⟩
  exact step_owned inv grantable step

/-- The client whose create_port has just been executed has its prefix registered, and no
    one else holds it. -/
def Sound (w : World) (t : System) (i : Nat) : Prop :=
  w.dev i ∈ keys t.daemon.veths ∧
    ∀ j, j ≠ i → (t.client j).holding = true → w.dev j ≠ w.dev i

theorem sound_iff_grantable {w : World} {s t : System} {i : Nat} {o : Outcomes}
    (inv : Owned w s) (at_create : s.client i = .createSent)
    (served : s.step w (.serve i o) = some t) : Sound w t i ↔ Grantable w s (.serve i o) := by
  constructor
  · rintro ⟨registered, alone⟩ -
    obtain ⟨data, reply, moved, table, single, whole⟩ := serve_create served at_create
    have short : (w.dev i).length ≤ 15 := keys_short registered
    rw [table] at registered
    have word : (32 : UInt8) ∉ (w.dev i).bytes := by
      rcases keys_vethListAdd registered with old | copied
      · exact inv.words _ old
      · rw [copied]
        exact fun member => single (List.mem_of_mem_take member)
    have new : w.dev i ∉ keys s.daemon.veths := by
      intro old
      obtain ⟨j, holding, same⟩ := inv.holder (w.dev i) old
      have other : j ≠ i := by
        rintro rfl
        rw [at_create] at holding
        cases holding
      apply alone j other _ same
      rwa [moved.others j other]
    rw [whole word short, mem_keys_vethListAdd (o .malloc) short] at registered
    rcases registered with old | ⟨inserted, -⟩
    · exact absurd old new
    · exact ⟨word, short, new, inserted⟩
  · intro grantable
    have after := create_owned inv at_create grantable served
    obtain ⟨data, reply, moved, -⟩ := serve_create served at_create
    have here : (t.client i).holding = true := by
      rw [moved.here]
      rfl
    exact ⟨after.held i here, fun j other holding => after.apart j i holding here other⟩

/-- In every run whose ports are grantable each owner has its prefix registered and for
    itself, and a further create_port is sound exactly when it is grantable. -/
theorem exclusive_ownership (w : World) {s : System}
    (run : Reached Started (GrantableStep w) s) :
    Exclusive w s ∧ ∀ i o t, s.client i = .createSent → s.step w (.serve i o) = some t →
      (Sound w t i ↔ Grantable w s (.serve i o)) := by
  have inv := grantable_run run
  constructor
  · intro i owns
    have holding := owns_holding owns
    refine ⟨inv.held i holding, ?_⟩
    intro j other owns_other
    exact inv.apart j i (owns_holding owns_other) holding other
  · intro i o t at_create served
    exact sound_iff_grantable inv at_create served

def freshSystem : System := ⟨fun _ => .start, bareDaemon⟩

def sharedPrefix : CString := ⟨ascii "v", by decide⟩

def sharedWorld : World := ⟨fun _ => sharedPrefix, fun _ => CString.empty, CString.empty⟩

def allSucceed : Outcomes := fun _ => true

instance (w : World) (s : System) (e : Event) : Decidable (Grantable w s e) :=
  match e with
  | .serve i o => inferInstanceAs (Decidable (s.client i = .createSent →
      (32 : UInt8) ∉ (w.dev i).bytes ∧ (w.dev i).length ≤ 15 ∧ w.dev i ∉ keys s.daemon.veths ∧
        o .malloc = true))
  | .send _ => .isTrue trivial
  | .receive _ => .isTrue trivial

def obtains (i : Nat) : List Event := [.send i, .serve i allSucceed, .receive i]

def grantedStep (w : World) (s : System) (e : Event) : Option System :=
  if Grantable w s e then s.step w e else none

theorem grantedStep_grantable {w : World} {s t : System} {e : Event}
    (step : grantedStep w s e = some t) : GrantableStep w s t := by
  unfold grantedStep at step
  split at step
  · rename_i grantable
    exact ⟨e, grantable, step⟩
  · cases step

def otherPrefix : CString := ⟨ascii "z", by decide⟩

def apartWorld : World :=
  ⟨fun i => if i = 0 then sharedPrefix else otherPrefix, fun _ => CString.empty, CString.empty⟩

theorem exclusive_ownership_of_two :
    ∃ s, Reached Started (GrantableStep apartWorld) s ∧ (s.client 0).owns ∧
      (s.client 1).owns ∧ keys s.daemon.veths = [sharedPrefix, otherPrefix] ∧
      Exclusive apartWorld s := by
  obtain ⟨s, granted, first, second, registered⟩ : ∃ s,
      (obtains 0 ++ obtains 1).foldlM (grantedStep apartWorld) freshSystem = some s ∧
        s.client 0 = .created okReply ∧ s.client 1 = .created okReply ∧
        keys s.daemon.veths = [sharedPrefix, otherPrefix] :=
    ⟨_, rfl, by decide, by decide, by decide⟩
  have fresh : Reached Started (fun s t => ∃ e, grantedStep apartWorld s e = some t)
      freshSystem := Reached.start ⟨fun _ => rfl, rfl⟩
  have run : Reached Started (GrantableStep apartWorld) s :=
    reached_mono (fun _ _ ⟨_, step⟩ => grantedStep_grantable step)
      (reached_events fresh granted)
  refine ⟨s, run, ?_, ?_, registered, (exclusive_ownership apartWorld run).1⟩
  · rw [first]
    rfl
  · rw [second]
    rfl

/-- Two clients with the same prefix are both told OK. -/
theorem same_prefix_granted_twice :
    ¬ ∀ w s, Reached Started (AnyStep w) s → Exclusive w s := by
  intro always
  obtain ⟨t, run, first, second⟩ : ∃ t,
      (obtains 0 ++ obtains 1).foldlM (System.step sharedWorld) freshSystem = some t ∧
        t.client 0 = .created okReply ∧ t.client 1 = .created okReply :=
    ⟨_, rfl, by decide, by decide⟩
  have fresh : Reached Started (AnyStep sharedWorld) freshSystem :=
    Reached.start ⟨fun _ => rfl, rfl⟩
  have exclusive := always sharedWorld t (reached_events fresh run)
  have owns_first : (t.client 0).owns := by
    rw [first]
    rfl
  have owns_second : (t.client 1).owns := by
    rw [second]
    rfl
  exact (exclusive 0 owns_first).2 1 (by decide) owns_second rfl

end XSKOwnership
