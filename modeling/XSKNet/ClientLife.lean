import XSKNet.PortOwnership
import XSKNet.AcceptLoop

/- Clients from their start to their end, in front of the server thread. Every exchange has a
   connection of its own. A signal at any point abandons the exchange in hand, and its handler
   sends delete_port over another connection; a client may also fail at any point. -/
namespace XSKClientLife
open CStrings XSKVeth XSKInterfaces XSKPorts XSKCommandSocket XSKServer Runs
open XSKOwnership (World requestPort requestPhyIfname removePort requestCmd_bytes parse_request)

inductive Exchange where
  | create
  | ask
  | delete
  deriving DecidableEq

/-- A client before an exchange, connected for it, and waiting for the answer on a connection.
    Its setup and its receive loop are before the exchange for delete_port. -/
inductive Stage where
  | before (x : Exchange)
  | connected (x : Exchange) (c : Nat)
  | waiting (x : Exchange) (c : Nat)
  | exited
  | failed
  deriving DecidableEq

/-- role says whose a connection is, and for what. -/
structure Life where
  server : Server
  stage : Nat → Stage
  role : Nat → Nat × Exchange

def request (w : World) : Nat × Exchange → List UInt8
  | (i, .create) => (requestPort (w.dev i)).bytes
  | (i, .ask) => (requestPhyIfname (w.garbage i)).bytes
  | (i, .delete) => (removePort (w.dev i)).bytes

def Exchange.next : Exchange → Stage
  | .create => .before .ask
  | .ask => .before .delete
  | .delete => .exited

def Life.enter (f : Life) (i : Nat) (stage : Stage) : Life :=
  { f with stage := Function.update f.stage i stage }

def HungUp (s : Server) (c : Nat) : Prop := c ∈ s.accepted ∧ s.pc ≠ .serving c

def ofServer : Event → Bool
  | .connect _ => false
  | .send _ _ => false
  | .close _ => false
  | _ => true

/-- A command is read at once, and no connection is given up that is unread or for which its
    client still has a command. -/
def Patient (f : Life) : Event → Prop
  | .read _ n => ∀ c, f.server.pc = .serving c → n = (f.server.unread c).length
  | .hangUp => ∀ c, f.server.pc = .serving c → f.server.unread c = [] ∧
      ∀ x, f.stage (f.role c).1 ≠ .connected x c
  | _ => True

def Running : Stage → Prop
  | .exited => False
  | .failed => False
  | _ => True

/-- A read of the client returns an answer, or nothing when the connection has been ended. -/
inductive Lives (w : World) : Life → Life → Prop where
  | connect {f : Life} {i c : Nat} {x : Exchange} {s : Server} (ready : f.stage i = .before x)
      (opened : f.server.connect c = some s) :
      Lives w f { (f.enter i (.connected x c)) with
        server := s, role := Function.update f.role c (i, x) }
  | write {f : Life} {i c : Nat} {x : Exchange} {s : Server}
      (ready : f.stage i = .connected x c)
      (sent : f.server.send c (request w (i, x)) = some s) :
      Lives w f { (f.enter i (.waiting x c)) with server := s }
  | receive {f : Life} {i c : Nat} {x : Exchange} {s : Server} (ready : f.stage i = .waiting x c)
      (answered : f.server.replies c ≠ [] ∨ HungUp f.server c)
      (closed : f.server.step w.phyDev (.close c) = some s) :
      Lives w f { (f.enter i x.next) with server := s }
  | interrupt {f : Life} {i : Nat} (running : Running (f.stage i)) :
      Lives w f (f.enter i (.before .delete))
  | fail {f : Life} {i : Nat} (running : Running (f.stage i)) : Lives w f (f.enter i .failed)
  | serve {f : Life} {e : Event} {s : Server} (own : ofServer e = true) (patient : Patient f e)
      (next : f.server.step w.phyDev e = some s) : Lives w f { f with server := s }

def Begun (d : Daemon) (f : Life) : Prop :=
  Listening d f.server ∧ ∀ i, f.stage i = .before .create

def Heard (s : Server) (c : Nat) : Prop := c ∈ s.log.map Prod.fst

/-- delete_port has been executed for the client, over its last connection. -/
def Gone (f : Life) (i : Nat) : Prop :=
  f.stage i = .exited ∨ ∃ c, f.stage i = .waiting .delete c ∧ Heard f.server c

structure Latest (f : Life) (i : Nat) (x : Exchange) (c : Nat) : Prop where
  role : f.role c = (i, x)
  last : ∃ front back, f.server.connected = front ++ c :: back ∧ ∀ b ∈ back, (f.role b).1 ≠ i

/- The commands. -/

def Fitting (w : World) : Prop := ∀ i, (32 : UInt8) ∉ (w.dev i).bytes ∧ (w.dev i).length ≤ 15

theorem command_table {w : World} (fitting : Fitting w) (o : Outcomes) (i : Nat) (x : Exchange)
    {d : Daemon} (distinct : (keys d.veths).Nodup) :
    let d' := after (handleRead w.phyDev o (request w (i, x)) d)
    (keys d'.veths).Nodup ∧ ∀ k ∈ keys d'.veths,
      k ∈ keys d.veths ∧ (x = .delete → k ≠ w.dev i) ∨ x = .create ∧ k = w.dev i := by
  obtain ⟨word, short⟩ := fitting i
  intro d'
  cases x with
  | create =>
    obtain ⟨data, parsed, whole⟩ :=
      parse_request createPortCommand (w.dev i) (by decide) (by decide) (by decide)
    have table : d'.veths = (vethListAdd (o .malloc) d.veths (w.dev i)).2 := by
      change (after (handleRead w.phyDev o (requestPort (w.dev i)).bytes d)).veths = _
      rw [requestPort, after_create d parsed, (createPort_ended o data d).2, whole word short]
    rw [table]
    refine ⟨nodup_vethListAdd (o .malloc) short distinct, ?_⟩
    intro k registered
    rcases (mem_keys_vethListAdd (o .malloc) short k).mp registered with old | ⟨-, new⟩
    · exact Or.inl ⟨old, nofun⟩
    · exact Or.inr ⟨rfl, new⟩
  | ask =>
    obtain ⟨data, parsed, -⟩ :=
      parse_request getPhyIfCommand (w.garbage i) (by decide) (by decide) (by decide)
    have table : d' = d := by
      change after (handleRead w.phyDev o (requestPhyIfname (w.garbage i)).bytes d) = _
      apply after_other
      intro command data' found
      rw [requestPhyIfname, parsed] at found
      obtain ⟨rfl, -⟩ := Prod.mk.inj (Option.some.inj found)
      decide
    rw [table]
    exact ⟨distinct, fun k registered => Or.inl ⟨registered, nofun⟩⟩
  | delete =>
    obtain ⟨data, parsed, whole⟩ :=
      parse_request deletePortCommand (w.dev i) (by decide) (by decide) (by decide)
    obtain ⟨-, -, removed, -⟩ := deletePort_spec o data d
    have table : d'.veths = (vethListRemove d.veths (w.dev i)).2 := by
      change (after (handleRead w.phyDev o (removePort (w.dev i)).bytes d)).veths = _
      rw [removePort, after_delete d parsed, removed, whole word short]
    rw [table]
    refine ⟨nodup_vethListRemove distinct _, ?_⟩
    intro k registered
    obtain ⟨old, other⟩ := (mem_keys_vethListRemove distinct (w.dev i) k).mp registered
    exact Or.inl ⟨old, fun _ => other⟩

theorem request_nonempty (w : World) (role : Nat × Exchange) : request w role ≠ [] := by
  obtain ⟨i, x⟩ := role
  cases x with
  | create =>
    change (requestPort (w.dev i)).bytes ≠ []
    rw [requestPort, requestCmd_bytes (w.dev i) (by decide)]
    exact List.append_ne_nil_of_right_ne_nil _ (List.cons_ne_nil _ _)
  | ask =>
    change (requestPhyIfname (w.garbage i)).bytes ≠ []
    rw [requestPhyIfname, requestCmd_bytes (w.garbage i) (by decide)]
    exact List.append_ne_nil_of_right_ne_nil _ (List.cons_ne_nil _ _)
  | delete =>
    change (removePort (w.dev i)).bytes ≠ []
    rw [removePort, requestCmd_bytes (w.dev i) (by decide)]
    exact List.append_ne_nil_of_right_ne_nil _ (List.cons_ne_nil _ _)

end XSKClientLife
