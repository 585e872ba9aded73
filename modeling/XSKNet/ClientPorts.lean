import XSKNet.ClientLife

/- Which client a registered port belongs to. -/
namespace XSKClientLife
open CStrings XSKVeth XSKInterfaces XSKPorts XSKCommandSocket XSKServer Runs
open XSKOwnership (World)

structure Cared (w : World) (d : Daemon) (f : Life) : Prop where
  serial : Serial w.phyDev d f.server
  unused : ∀ c, c ∉ f.server.connected → f.server.unread c = []
  content : ∀ c ∈ f.server.connected, f.server.unread c ≠ [] →
    ¬ Heard f.server c ∧ f.server.unread c = request w (f.role c)
  heard : ∀ c, f.server.replies c ≠ [] → Heard f.server c
  connected : ∀ i x c, f.stage i = .connected x c → Latest f i x c ∧ f.server.unread c = [] ∧
    ¬ Heard f.server c ∧ ¬ HungUp f.server c
  waiting : ∀ i x c, f.stage i = .waiting x c → Latest f i x c ∧
    (Heard f.server c ∨ f.server.unread c ≠ []) ∧ (HungUp f.server c → Heard f.server c)
  unstarted : ∀ i, f.stage i = .before .create → ∀ c ∈ f.server.connected, (f.role c).1 ≠ i
  past : ∀ i, Gone f i → ∀ c ∈ f.server.connected, (f.role c).1 = i →
    c ∈ f.server.accepted ∧ (f.server.pc = .serving c → f.server.unread c = [])
  distinct : (keys f.server.daemon.veths).Nodup
  holder : ∀ k ∈ keys f.server.daemon.veths,
    ∃ i, w.dev i = k ∧ f.stage i ≠ .before .create ∧ ¬ Gone f i

theorem begun_cared {w : World} {d : Daemon} {f : Life} (empty : d.veths = [])
    (begun : Begun d f) : Cared w d f := by
  obtain ⟨listening, start⟩ := begun
  have no_connection : f.server.connected = [] := by
    rw [listening]
  have no_answer : ∀ c, f.server.replies c = [] := by
    rw [listening]
    exact fun _ => rfl
  have no_entry : f.server.daemon.veths = [] := by
    rw [listening]
    exact empty
  refine ⟨listening_serial w.phyDev listening, ?_, ?_, ?_, ?_, ?_, ?_, ?_, ?_, ?_⟩
  · rw [listening]
    exact fun _ _ => rfl
  · rw [no_connection]
    exact nofun
  · exact fun c answered => absurd (no_answer c) answered
  · intro i x c at_stage
    cases (start i).symm.trans at_stage
  · intro i x c at_stage
    cases (start i).symm.trans at_stage
  · rw [no_connection]
    exact nofun
  · rw [no_connection]
    exact nofun
  · rw [no_entry]
    exact List.nodup_nil
  · rw [no_entry]
    exact nofun

/- A client acts. -/

theorem latest_same {f g : Life} {i c : Nat} {x : Exchange} (latest : Latest f i x c)
    (connected : g.server.connected = f.server.connected) (role : g.role = f.role) :
    Latest g i x c := by
  obtain ⟨mine, last⟩ := latest
  rw [← role] at mine last
  rw [← connected] at last
  exact ⟨mine, last⟩

structure Acts (f g : Life) (i : Nat) : Prop where
  stage : ∀ j, j ≠ i → g.stage j = f.stage j
  connected : ∃ more, g.server.connected = f.server.connected ++ more ∧
    ∀ b ∈ more, (g.role b).1 = i
  role : ∀ b ∈ f.server.connected, g.role b = f.role b
  unread : ∀ b ∈ f.server.connected, (f.role b).1 ≠ i → g.server.unread b = f.server.unread b
  accepted : g.server.accepted = f.server.accepted
  pc : g.server.pc = f.server.pc
  replies : g.server.replies = f.server.replies
  log : g.server.log = f.server.log
  daemon : g.server.daemon = f.server.daemon

section acts
variable {f g : Life} {i : Nat} (acts : Acts f g i)
include acts

theorem acts_heard (b : Nat) : Heard g.server b ↔ Heard f.server b := by
  unfold Heard
  rw [acts.log]

theorem acts_hung (b : Nat) : HungUp g.server b ↔ HungUp f.server b := by
  unfold HungUp
  rw [acts.accepted, acts.pc]

theorem acts_gone {j : Nat} (other : j ≠ i) : Gone g j ↔ Gone f j := by
  unfold Gone
  simp only [acts.stage j other, acts_heard acts]

theorem acts_latest {j b : Nat} {x : Exchange} (other : j ≠ i) (latest : Latest f j x b) :
    Latest g j x b := by
  obtain ⟨mine, front, back, split, last⟩ := latest
  obtain ⟨more, connected, new⟩ := acts.connected
  have among : ∀ b' ∈ b :: back, g.role b' = f.role b' := by
    intro b' member
    apply acts.role
    rw [split]
    exact List.mem_append_right _ member
  refine ⟨(among b List.mem_cons_self).trans mine, front, back ++ more, ?_, ?_⟩
  · rw [connected, split, List.append_assoc, List.cons_append]
  · intro b' member
    rcases List.mem_append.mp member with before | added
    · rw [among b' (List.mem_cons_of_mem _ before)]
      exact last b' before
    · rw [new b' added]
      exact Ne.symm other

theorem acts_old {b : Nat} (member : b ∈ g.server.connected) (other : (g.role b).1 ≠ i) :
    b ∈ f.server.connected ∧ g.role b = f.role b ∧ g.server.unread b = f.server.unread b := by
  obtain ⟨more, connected, new⟩ := acts.connected
  rw [connected] at member
  rcases List.mem_append.mp member with before | added
  · have same := acts.role b before
    rw [same] at other
    exact ⟨before, same, acts.unread b before other⟩
  · exact absurd (new b added) other

theorem acts_unread {j b : Nat} {x : Exchange} (other : j ≠ i) (latest : Latest f j x b) :
    g.server.unread b = f.server.unread b := by
  obtain ⟨mine, front, back, split, -⟩ := latest
  apply acts.unread
  · rw [split]
    exact List.mem_append_right _ List.mem_cons_self
  · rw [mine]
    exact other

end acts

section client
variable {w : World} {d : Daemon} {f : Life} (inv : Cared w d f)
include inv

theorem acts_cared {g : Life} {i : Nat} (acts : Acts f g i) (serial : Serial w.phyDev d g.server)
    (unused : ∀ b, b ∉ g.server.connected → g.server.unread b = [])
    (content : ∀ b ∈ g.server.connected, (g.role b).1 = i → g.server.unread b ≠ [] →
      ¬ Heard f.server b ∧ g.server.unread b = request w (g.role b))
    (connected : ∀ x c, g.stage i = .connected x c → Latest g i x c ∧ g.server.unread c = [] ∧
      ¬ Heard f.server c ∧ ¬ HungUp f.server c)
    (waiting : ∀ x c, g.stage i = .waiting x c → Latest g i x c ∧
      (Heard f.server c ∨ g.server.unread c ≠ []) ∧ (HungUp f.server c → Heard f.server c))
    (started : g.stage i ≠ .before .create)
    (gone : Gone g i → Gone f i ∧ g.server = f.server ∧ g.role = f.role) : Cared w d g := by
  refine ⟨serial, unused, ?_, ?_, ?_, ?_, ?_, ?_, ?_, ?_⟩
  · intro b member
    rw [acts_heard acts]
    by_cases mine : (g.role b).1 = i
    · exact content b member mine
    · obtain ⟨old, role, unread⟩ := acts_old acts member mine
      rw [role, unread]
      exact inv.content b old
  · intro b
    rw [acts.replies, acts_heard acts]
    exact inv.heard b
  · intro j x b at_stage
    rw [acts_heard acts, acts_hung acts]
    by_cases same : j = i
    · subst same
      exact connected x b at_stage
    · rw [acts.stage j same] at at_stage
      obtain ⟨latest, rest⟩ := inv.connected j x b at_stage
      rw [acts_unread acts same latest]
      exact ⟨acts_latest acts same latest, rest⟩
  · intro j x b at_stage
    rw [acts_heard acts, acts_hung acts]
    by_cases same : j = i
    · subst same
      exact waiting x b at_stage
    · rw [acts.stage j same] at at_stage
      obtain ⟨latest, rest⟩ := inv.waiting j x b at_stage
      rw [acts_unread acts same latest]
      exact ⟨acts_latest acts same latest, rest⟩
  · intro j at_start b member
    have differ : j ≠ i := by
      rintro rfl
      exact started at_start
    rw [acts.stage j differ] at at_start
    intro owner
    obtain ⟨old, role, -⟩ := acts_old acts member (by rw [owner]; exact differ)
    rw [role] at owner
    exact inv.unstarted j at_start b old owner
  · intro j was_gone b member owner
    by_cases same : j = i
    · subst same
      obtain ⟨before, server, role⟩ := gone was_gone
      rw [server] at member ⊢
      rw [role] at owner
      exact inv.past j before b member owner
    · obtain ⟨old, role, unread⟩ := acts_old acts member (by rw [owner]; exact same)
      rw [role] at owner
      rw [acts.accepted, acts.pc, unread]
      exact inv.past j ((acts_gone acts same).mp was_gone) b old owner
  · rw [acts.daemon]
    exact inv.distinct
  · intro k registered
    rw [acts.daemon] at registered
    obtain ⟨j, name, there, not_gone⟩ := inv.holder k registered
    refine ⟨j, name, ?_⟩
    by_cases same : j = i
    · subst same
      exact ⟨started, fun was_gone => not_gone (gone was_gone).1⟩
    · rw [acts.stage j same, acts_gone acts same]
      exact ⟨there, not_gone⟩

theorem enter_cared {i : Nat} {stage : Stage} (unconnected : ∀ x c, stage ≠ .connected x c)
    (unwaiting : ∀ x c, stage ≠ .waiting x c) (started : stage ≠ .before .create)
    (exits : stage = .exited → Gone f i) : Cared w d (f.enter i stage) := by
  have here : (f.enter i stage).stage i = stage := Function.update_self ..
  have acts : Acts f (f.enter i stage) i :=
    ⟨fun j other => Function.update_of_ne other _ _, ⟨[], (List.append_nil _).symm, nofun⟩,
      fun _ _ => rfl, fun _ _ _ => rfl, rfl, rfl, rfl, rfl, rfl⟩
  apply acts_cared inv acts inv.serial inv.unused
  · exact fun b member _ => inv.content b member
  · exact fun x c at_stage => absurd (here.symm.trans at_stage) (unconnected x c)
  · exact fun x c at_stage => absurd (here.symm.trans at_stage) (unwaiting x c)
  · rw [here]
    exact started
  · intro gone
    refine ⟨?_, rfl, rfl⟩
    rcases gone with exited | ⟨c, waits, -⟩
    · exact exits (here.symm.trans exited)
    · exact absurd (here.symm.trans waits) (unwaiting _ c)

theorem close_cared {c : Nat} {s : Server} (closed : f.server.step w.phyDev (.close c) = some s) :
    Cared w d { f with server := s } := by
  have serial := step_serial inv.serial ⟨_, closed⟩
  obtain rfl := Option.some.inj closed
  refine ⟨serial, inv.unused, inv.content, inv.heard, ?_, ?_, inv.unstarted, inv.past,
    inv.distinct, inv.holder⟩
  · intro j x b at_stage
    obtain ⟨latest, rest⟩ := inv.connected j x b at_stage
    exact ⟨latest_same latest rfl rfl, rest⟩
  · intro j x b at_stage
    obtain ⟨latest, rest⟩ := inv.waiting j x b at_stage
    exact ⟨latest_same latest rfl rfl, rest⟩

theorem receive_cared {i c : Nat} {x : Exchange} {s : Server} (ready : f.stage i = .waiting x c)
    (answered : f.server.replies c ≠ [] ∨ HungUp f.server c)
    (closed : f.server.step w.phyDev (.close c) = some s) :
    Cared w d { (f.enter i x.next) with server := s } := by
  obtain ⟨-, -, hung⟩ := inv.waiting i x c ready
  have heard : Heard f.server c := by
    rcases answered with reply | ended
    · exact inv.heard c reply
    · exact hung ended
  have entered : Cared w d (f.enter i x.next) := by
    cases x with
    | create => exact enter_cared inv nofun nofun nofun nofun
    | ask => exact enter_cared inv nofun nofun nofun nofun
    | delete => exact enter_cared inv nofun nofun nofun fun _ => Or.inr ⟨c, ready, heard⟩
  exact close_cared entered closed

theorem new_connection {c : Nat} (new : c ∉ f.server.connected) :
    f.server.unread c = [] ∧ ¬ Heard f.server c ∧ ¬ HungUp f.server c := by
  have unaccepted : c ∉ f.server.accepted := by
    intro old
    apply new
    rw [← inv.serial.fifo]
    exact List.mem_append_left _ old
  exact ⟨inv.unused c new, fun heard => unaccepted (inv.serial.known c heard),
    fun hung => unaccepted hung.1⟩

theorem connect_cared {g : Life} {i c : Nat} {x : Exchange}
    (moved : g.stage = Function.update f.stage i (.connected x c))
    (role : g.role = Function.update f.role c (i, x))
    (opened : f.server.connect c = some g.server) : Cared w d g := by
  have serial := connect_serial inv.serial opened
  unfold Server.connect at opened
  split at opened
  · cases opened
  · rename_i free
    rw [not_or] at free
    have fresh := new_connection inv free.1
    have server := Option.some.inj opened
    have connected : g.server.connected = f.server.connected ++ [c] := by rw [← server]
    have unread : g.server.unread = f.server.unread := by rw [← server]
    have here : g.stage i = .connected x c := by
      rw [moved]
      exact Function.update_self ..
    have mine : g.role c = (i, x) := by
      rw [role]
      exact Function.update_self ..
    have old : ∀ b, b ≠ c → g.role b = f.role b := by
      intro b other
      rw [role]
      exact Function.update_of_ne other _ _
    have acts : Acts f g i := by
      refine ⟨?_, ⟨[c], connected, ?_⟩, ?_, fun _ _ _ => by rw [unread], ?_, ?_, ?_, ?_, ?_⟩
      · intro j other
        rw [moved]
        exact Function.update_of_ne other _ _
      · intro b added
        rw [List.mem_singleton.mp added, mine]
      · intro b member
        apply old
        rintro rfl
        exact free.1 member
      all_goals rw [← server]
    apply acts_cared inv acts serial
    · intro b absent
      rw [connected] at absent
      rw [unread]
      exact inv.unused b fun member => absent (List.mem_append_left _ member)
    · intro b member _ more
      rw [unread] at more ⊢
      have other : b ≠ c := by
        rintro rfl
        exact more fresh.1
      rw [connected] at member
      rw [old b other]
      rcases List.mem_append.mp member with before | added
      · exact inv.content b before more
      · exact absurd (List.mem_singleton.mp added) other
    · intro y b at_stage
      obtain ⟨rfl, rfl⟩ := Stage.connected.inj (here.symm.trans at_stage)
      rw [unread]
      exact ⟨⟨mine, f.server.connected, [], connected, nofun⟩, fresh⟩
    · intro y b at_stage
      cases here.symm.trans at_stage
    · rw [here]
      nofun
    · rintro (exited | ⟨b, waits, -⟩)
      · cases here.symm.trans exited
      · cases here.symm.trans waits

theorem write_cared {g : Life} {i c : Nat} {x : Exchange} (ready : f.stage i = .connected x c)
    (moved : g.stage = Function.update f.stage i (.waiting x c)) (role : g.role = f.role)
    (sent : f.server.send c (request w (i, x)) = some g.server) : Cared w d g := by
  have serial := send_serial inv.serial sent
  obtain ⟨latest, nothing, unheard, unhung⟩ := inv.connected i x c ready
  unfold Server.send at sent
  split at sent
  · rename_i there
    have server := Option.some.inj sent
    have connected : g.server.connected = f.server.connected := by rw [← server]
    have here : g.stage i = .waiting x c := by
      rw [moved]
      exact Function.update_self ..
    have written : g.server.unread c = request w (i, x) := by
      rw [← server]
      change Function.update f.server.unread c _ c = _
      rw [Function.update_self, nothing]
      rfl
    have others : ∀ b, b ≠ c → g.server.unread b = f.server.unread b := by
      intro b other
      rw [← server]
      exact Function.update_of_ne other _ _
    have acts : Acts f g i := by
      refine ⟨?_, ⟨[], ?_, nofun⟩, fun _ _ => by rw [role], ?_, ?_, ?_, ?_, ?_, ?_⟩
      · intro j other
        rw [moved]
        exact Function.update_of_ne other _ _
      · rw [connected, List.append_nil]
      · intro b member owner
        apply others
        rintro rfl
        rw [latest.role] at owner
        exact owner rfl
      all_goals rw [← server]
    apply acts_cared inv acts serial
    · intro b absent
      rw [connected] at absent
      have other : b ≠ c := by
        rintro rfl
        exact absent there.1
      rw [others b other]
      exact inv.unused b absent
    · intro b member _
      rw [connected] at member
      rw [role]
      by_cases same : b = c
      · subst same
        rw [written, latest.role]
        exact fun _ => ⟨unheard, rfl⟩
      · rw [others b same]
        exact inv.content b member
    · intro y b at_stage
      cases here.symm.trans at_stage
    · intro y b at_stage
      obtain ⟨rfl, rfl⟩ := Stage.waiting.inj (here.symm.trans at_stage)
      rw [written]
      exact ⟨latest_same latest connected role, Or.inr (request_nonempty w _),
        fun ended => absurd ended unhung⟩
    · rw [here]
      nofun
    · rintro (exited | ⟨b, waits, heard⟩)
      · cases here.symm.trans exited
      · obtain ⟨-, rfl⟩ := Stage.waiting.inj (here.symm.trans waits)
        exact absurd ((acts_heard acts _).mp heard) unheard
  · cases sent

end client

structure Quiet (s t : Server) : Prop where
  connected : t.connected = s.connected
  accepted : ∀ c ∈ s.accepted, c ∈ t.accepted
  unread : t.unread = s.unread
  replies : t.replies = s.replies
  log : t.log = s.log
  daemon : t.daemon = s.daemon

structure Reads (w : World) (f g : Life) (c i : Nat) (x : Exchange) : Prop where
  at_c : f.server.pc = .serving c
  owner : f.role c = (i, x)
  member : c ∈ f.server.connected
  pending : f.server.unread c ≠ []
  stage : g.stage = f.stage
  role : g.role = f.role
  connected : g.server.connected = f.server.connected
  accepted : g.server.accepted = f.server.accepted
  pc : g.server.pc = .serving c ∨ g.server.pc = .ended
  read : g.server.unread c = []
  others : ∀ b, b ≠ c → g.server.unread b = f.server.unread b
  heard : ∀ b, Heard g.server b ↔ Heard f.server b ∨ b = c
  replies : ∀ b, b ≠ c → g.server.replies b = f.server.replies b
  daemon : ∃ o, g.server.daemon = after (handleRead w.phyDev o (request w (i, x)) f.server.daemon)

theorem reads_hung {w : World} {f g : Life} {c i b : Nat} {x : Exchange}
    (reads : Reads w f g c i x) (other : b ≠ c) (hung : HungUp g.server b) :
    HungUp f.server b := by
  obtain ⟨old, -⟩ := hung
  rw [reads.accepted] at old
  refine ⟨old, ?_⟩
  rw [reads.at_c]
  exact fun same => other (Pc.serving.inj same).symm

section server
variable {w : World} {d : Daemon} {f : Life} (inv : Cared w d f)
include inv

theorem quiet_cared {g : Life} (stage : g.stage = f.stage) (role : g.role = f.role)
    (serial : Serial w.phyDev d g.server) (quiet : Quiet f.server g.server)
    (hung : ∀ c, HungUp g.server c → HungUp f.server c ∨
      f.server.unread c = [] ∧ ∀ x, f.stage (f.role c).1 ≠ .connected x c)
    (serving : ∀ c, g.server.pc = .serving c →
      f.server.pc = .serving c ∨ c ∈ f.server.backlog) : Cared w d g := by
  obtain ⟨connected, accepted, unread, replies, log, daemon⟩ := quiet
  have heard : ∀ b, Heard g.server b ↔ Heard f.server b := by
    intro b
    unfold Heard
    rw [log]
  have gone : ∀ j, Gone g j ↔ Gone f j := by
    intro j
    unfold Gone
    simp only [stage, heard]
  refine ⟨serial, ?_, ?_, ?_, ?_, ?_, ?_, ?_, ?_, ?_⟩
  · rw [connected, unread]
    exact inv.unused
  · simp only [connected, unread, heard, role]
    exact inv.content
  · simp only [replies, heard]
    exact inv.heard
  · intro j y b at_stage
    rw [stage] at at_stage
    obtain ⟨latest, empty, unheard, unhung⟩ := inv.connected j y b at_stage
    rw [unread, heard]
    refine ⟨latest_same latest connected role, empty, unheard, ?_⟩
    intro ended
    rcases hung b ended with before | ⟨-, idle⟩
    · exact unhung before
    · rw [latest.role] at idle
      exact idle y at_stage
  · intro j y b at_stage
    rw [stage] at at_stage
    obtain ⟨latest, content, answered⟩ := inv.waiting j y b at_stage
    rw [unread, heard]
    refine ⟨latest_same latest connected role, content, ?_⟩
    intro ended
    rcases hung b ended with before | ⟨empty, -⟩
    · exact answered before
    · rcases content with already | pending
      · exact already
      · exact absurd empty pending
  · rw [stage, connected, role]
    exact inv.unstarted
  · intro j was_gone b member owner
    rw [gone] at was_gone
    rw [connected] at member
    rw [role] at owner
    obtain ⟨old, read⟩ := inv.past j was_gone b member owner
    refine ⟨accepted b old, ?_⟩
    intro at_b
    rw [unread]
    rcases serving b at_b with before | queued
    · exact read before
    · have once := inv.serial.once
      rw [← inv.serial.fifo] at once
      exact absurd rfl ((List.nodup_append.mp once).2.2 b old b queued)
  · rw [daemon]
    exact inv.distinct
  · simp only [daemon, stage, gone]
    exact inv.holder

theorem elsewhere_cared {g : Life} (stage : g.stage = f.stage) (role : g.role = f.role)
    (serial : Serial w.phyDev d g.server) (quiet : Quiet f.server g.server)
    (accepted : g.server.accepted = f.server.accepted)
    (before : ∀ c, f.server.pc ≠ .serving c) (after : ∀ c, g.server.pc ≠ .serving c) :
    Cared w d g := by
  apply quiet_cared inv stage role serial quiet
  · rintro c ⟨old, -⟩
    rw [accepted] at old
    exact Or.inl ⟨old, before c⟩
  · exact fun c at_c => absurd at_c (after c)

theorem accept_cared {s : Server} (done : f.server.accept = some s) :
    Cared w d { f with server := s } := by
  have serial := accept_serial inv.serial done
  unfold Server.accept at done
  split at done
  · rename_i i rest at_pc queued
    obtain rfl := Option.some.inj done
    refine quiet_cared inv rfl rfl serial
      ⟨rfl, fun c old => List.mem_append_left _ old, rfl, rfl, rfl, rfl⟩ ?_ ?_
    · rintro c ⟨member, away⟩
      rcases List.mem_append.mp member with old | new
      · left
        refine ⟨old, ?_⟩
        rw [at_pc]
        nofun
      · exact absurd (congrArg Pc.serving (List.mem_singleton.mp new).symm) away
    · rintro c at_c
      right
      rw [queued, ← Pc.serving.inj at_c]
      exact List.mem_cons_self
  · cases done

theorem hangUp_cared {s : Server} (patient : Patient f .hangUp)
    (done : f.server.hangUp = some s) : Cared w d { f with server := s } := by
  have serial := hangUp_serial inv.serial done
  unfold Server.hangUp at done
  split at done
  · rename_i i at_i
    obtain rfl := Option.some.inj done
    refine quiet_cared inv rfl rfl serial ⟨rfl, fun _ old => old, rfl, rfl, rfl, rfl⟩ ?_ nofun
    rintro c ⟨old, -⟩
    by_cases same : c = i
    · subst same
      exact Or.inr (patient c at_i)
    · left
      refine ⟨old, ?_⟩
      rw [at_i]
      exact fun at_c => same (Pc.serving.inj at_c).symm
  · cases done

theorem read_reads {o : Outcomes} {n : Nat} {g : Life} (stage : g.stage = f.stage)
    (role : g.role = f.role) (patient : Patient f (.read o n))
    (done : Server.read w.phyDev o n f.server = some g.server) :
    ∃ c i x, Reads w f g c i x := by
  unfold Server.read at done
  split at done
  · rename_i c at_c
    split at done
    · rename_i fits
      obtain ⟨front, accepted⟩ := inv.serial.current c at_c
      have member : c ∈ f.server.connected := by
        rw [← inv.serial.fifo, accepted]
        exact List.mem_append_left _ (List.mem_append_right _ (List.mem_singleton_self c))
      have pending : f.server.unread c ≠ [] := by
        intro empty
        rw [empty] at fits
        exact absurd (Nat.lt_of_lt_of_le fits.1 fits.2.2) (Nat.lt_irrefl _)
      obtain ⟨i, x, owner⟩ : ∃ i x, f.role c = (i, x) := ⟨_, _, rfl⟩
      have whole : n = (f.server.unread c).length := patient c at_c
      have command := (inv.content c member pending).2
      rw [whole, List.take_length, List.drop_length, command, owner] at done
      obtain ⟨p, r, pc, replies, server⟩ : ∃ p r, (p = .serving c ∨ p = .ended) ∧
          (∀ b, b ≠ c → r b = f.server.replies b) ∧ g.server = { f.server with
            pc := p
            replies := r
            unread := Function.update f.server.unread c []
            log := f.server.log ++ [(c, o, request w (i, x))]
            daemon := after (handleRead w.phyDev o (request w (i, x)) f.server.daemon) } := by
        dsimp only at done
        cases handled : handleRead w.phyDev o (request w (i, x)) f.server.daemon with
        | error e =>
          rw [handled] at done
          exact ⟨_, _, Or.inr rfl, fun _ _ => rfl, (Option.some.inj done).symm⟩
        | ok next =>
          rw [handled] at done
          exact ⟨_, _, Or.inl at_c, fun b other => Function.update_of_ne other _ _,
            (Option.some.inj done).symm⟩
      refine ⟨c, i, x, at_c, owner, member, pending, stage, role, ?_, ?_, ?_, ?_, ?_, ?_, ?_, o, ?_⟩
      · rw [server]
      · rw [server]
      · rw [server]
        exact pc
      · rw [server]
        exact Function.update_self ..
      · rw [server]
        exact fun b other => Function.update_of_ne other _ _
      · intro b
        unfold Heard
        rw [server, List.map_append, List.mem_append]
        exact or_congr_right List.mem_singleton
      · rw [server]
        exact replies
      · rw [server]
    · cases done
  · cases done

theorem latest_passed {i c : Nat} {x : Exchange} (latest : Latest f i x c)
    (at_c : f.server.pc = .serving c) {b : Nat} (member : b ∈ f.server.connected)
    (owner : (f.role b).1 = i) : b ∈ f.server.accepted := by
  obtain ⟨-, front, back, split, last⟩ := latest
  obtain ⟨before, accepted⟩ := inv.serial.current c at_c
  have fifo := inv.serial.fifo
  have once := inv.serial.once
  rw [← fifo, accepted, List.append_assoc, List.singleton_append] at once
  rw [accepted, List.append_assoc, List.singleton_append, split] at fifo
  have apart := List.nodup_append.mp once
  have not_before : c ∉ before := fun old => apart.2.2 c old c List.mem_cons_self rfl
  have not_behind : c ∉ f.server.backlog := (List.nodup_cons.mp apart.2.1).1
  obtain ⟨rfl, -, rfl⟩ := (List.append_cons_inj_of_notMem not_before not_behind).mp fifo
  rw [split] at member
  rw [accepted]
  rcases List.mem_append.mp member with old | behind
  · exact List.mem_append_left _ old
  · rcases List.mem_cons.mp behind with rfl | later
    · exact List.mem_append_right _ (List.mem_singleton_self b)
    · exact absurd owner (last b later)

section reads
variable {g : Life} {c i : Nat} {x : Exchange} (reads : Reads w f g c i x)
include reads

theorem reads_gone {j : Nat} (gone : Gone g j) :
    Gone f j ∨ j = i ∧ x = .delete ∧ Latest f i x c := by
  unfold Gone at gone ⊢
  rw [reads.stage] at gone
  rcases gone with exited | ⟨b, waits, heard⟩
  · exact Or.inl (Or.inl exited)
  · rcases (reads.heard b).mp heard with before | rfl
    · exact Or.inl (Or.inr ⟨b, waits, before⟩)
    · right
      have latest := (inv.waiting j .delete b waits).1
      obtain ⟨rfl, rfl⟩ := Prod.mk.inj (reads.owner.symm.trans latest.role)
      exact ⟨rfl, rfl, latest⟩

theorem reads_not_gone : ¬ Gone f i := by
  intro gone
  have read := (inv.past i gone c reads.member (by rw [reads.owner])).2
  exact reads.pending (read reads.at_c)

theorem reads_past {j : Nat} (gone : Gone g j) {b : Nat} (member : b ∈ g.server.connected)
    (owner : (g.role b).1 = j) :
    b ∈ g.server.accepted ∧ (g.server.pc = .serving b → g.server.unread b = []) := by
  rw [reads.connected] at member
  rw [reads.role] at owner
  constructor
  · rw [reads.accepted]
    rcases reads_gone inv reads gone with before | ⟨rfl, -, latest⟩
    · exact (inv.past j before b member owner).1
    · exact latest_passed inv latest reads.at_c member owner
  · intro at_b
    rcases reads.pc with same | stopped
    · rw [← Pc.serving.inj (same.symm.trans at_b)]
      exact reads.read
    · cases stopped.symm.trans at_b

theorem reads_holder (fitting : Fitting w) {k : CString}
    (registered : k ∈ keys g.server.daemon.veths) :
    ∃ j, w.dev j = k ∧ g.stage j ≠ .before .create ∧ ¬ Gone g j := by
  obtain ⟨o, daemon⟩ := reads.daemon
  rw [daemon] at registered
  rw [reads.stage]
  rcases (command_table fitting o i x inv.distinct).2 k registered with ⟨old, kept⟩ | ⟨rfl, rfl⟩
  · obtain ⟨j, name, there, not_gone⟩ := inv.holder k old
    refine ⟨j, name, there, fun gone => ?_⟩
    rcases reads_gone inv reads gone with before | ⟨rfl, deleted, -⟩
    · exact not_gone before
    · exact kept deleted name.symm
  · refine ⟨i, rfl, ?_, fun gone => ?_⟩
    · intro at_start
      exact inv.unstarted i at_start c reads.member (by rw [reads.owner])
    · rcases reads_gone inv reads gone with before | ⟨-, deleted, -⟩
      · exact reads_not_gone inv reads before
      · cases deleted

theorem reads_cared (fitting : Fitting w) (serial : Serial w.phyDev d g.server) :
    Cared w d g := by
  have unlike : ∀ b, g.server.unread b ≠ [] → b ≠ c := by
    rintro b more rfl
    exact more reads.read
  refine ⟨serial, ?_, ?_, ?_, ?_, ?_, ?_, ?_, ?_, ?_⟩
  · intro b absent
    rw [reads.connected] at absent
    have other : b ≠ c := by
      rintro rfl
      exact absent reads.member
    rw [reads.others b other]
    exact inv.unused b absent
  · intro b known more
    have other := unlike b more
    rw [reads.connected] at known
    rw [reads.others b other] at more ⊢
    obtain ⟨unheard, text⟩ := inv.content b known more
    rw [reads.heard, reads.role]
    exact ⟨fun either => either.elim unheard other, text⟩
  · intro b answered
    rw [reads.heard]
    by_cases same : b = c
    · exact Or.inr same
    · rw [reads.replies b same] at answered
      exact Or.inl (inv.heard b answered)
  · intro j y b at_stage
    rw [reads.stage] at at_stage
    obtain ⟨latest, empty, unheard, unhung⟩ := inv.connected j y b at_stage
    have other : b ≠ c := by
      rintro rfl
      exact reads.pending empty
    rw [reads.others b other, reads.heard]
    exact ⟨latest_same latest reads.connected reads.role, empty,
      fun either => either.elim unheard other,
      fun ended => unhung (reads_hung reads other ended)⟩
  · intro j y b at_stage
    rw [reads.stage] at at_stage
    obtain ⟨latest, text, answered⟩ := inv.waiting j y b at_stage
    refine ⟨latest_same latest reads.connected reads.role, ?_⟩
    rw [reads.heard]
    by_cases same : b = c
    · exact ⟨Or.inl (Or.inr same), fun _ => Or.inr same⟩
    · rw [reads.others b same]
      exact ⟨text.imp_left Or.inl,
        fun ended => Or.inl (answered (reads_hung reads same ended))⟩
  · rw [reads.stage, reads.connected, reads.role]
    exact inv.unstarted
  · exact fun j gone b member owner => reads_past inv reads gone member owner
  · obtain ⟨o, daemon⟩ := reads.daemon
    rw [daemon]
    exact (command_table fitting o i x inv.distinct).1
  · exact fun k registered => reads_holder inv reads fitting registered

end reads

theorem serve_cared {e : Event} {s : Server} (fitting : Fitting w) (own : ofServer e = true)
    (patient : Patient f e) (next : f.server.step w.phyDev e = some s) :
    Cared w d { f with server := s } := by
  have serial := step_serial inv.serial ⟨e, next⟩
  cases e with
  | connect _ => cases own
  | send _ _ => cases own
  | close _ => cases own
  | raise =>
    obtain rfl := Option.some.inj next
    have same : f.server.raise.pc = f.server.pc ∧ f.server.raise.accepted = f.server.accepted ∧
        Quiet f.server f.server.raise := by
      unfold Server.raise
      split
      · exact ⟨rfl, rfl, rfl, fun _ old => old, rfl, rfl, rfl, rfl⟩
      · exact ⟨rfl, rfl, rfl, fun _ old => old, rfl, rfl, rfl, rfl⟩
    obtain ⟨pc, accepted, quiet⟩ := same
    refine quiet_cared inv rfl rfl serial quiet ?_ ?_
    · intro c hung
      unfold HungUp at hung
      rw [pc, accepted] at hung
      exact Or.inl hung
    · intro c at_c
      exact Or.inl (pc.symm.trans at_c)
  | test =>
    unfold Server.step at next
    dsimp only at next
    split at next
    · rename_i at_test
      obtain rfl := Option.some.inj next
      refine elsewhere_cared inv rfl rfl serial
        ⟨rfl, fun _ old => old, rfl, rfl, rfl, rfl⟩ rfl ?_ ?_
      · rw [at_test]
        exact nofun
      · intro c at_c
        dsimp only at at_c
        split at at_c
        · cases at_c
        · cases at_c
    · cases next
  | accept => exact accept_cared inv next
  | timeout =>
    unfold Server.step at next
    dsimp only at next
    split at next
    · rename_i at_accept
      obtain rfl := Option.some.inj next
      refine elsewhere_cared inv rfl rfl serial
        ⟨rfl, fun _ old => old, rfl, rfl, rfl, rfl⟩ rfl ?_ ?_
      · rw [at_accept]
        exact nofun
      · exact nofun
    · cases next
  | acceptFails =>
    unfold Server.step at next
    dsimp only at next
    split at next
    · rename_i at_accept
      obtain rfl := Option.some.inj next
      refine elsewhere_cared inv rfl rfl serial
        ⟨rfl, fun _ old => old, rfl, rfl, rfl, rfl⟩ rfl ?_ ?_
      · rw [at_accept]
        exact nofun
      · exact nofun
    · cases next
  | read o n =>
    obtain ⟨c, i, x, reads⟩ := @read_reads _ _ _ inv o n ⟨s, f.stage, f.role⟩ rfl rfl patient next
    exact reads_cared inv reads fitting serial
  | hangUp => exact hangUp_cared inv patient next

theorem lives_cared {g : Life} (fitting : Fitting w) (step : Lives w f g) : Cared w d g := by
  cases step with
  | connect ready opened => exact connect_cared inv rfl rfl opened
  | write ready sent => exact write_cared inv ready rfl rfl sent
  | receive ready answered closed => exact receive_cared inv ready answered closed
  | interrupt running => exact enter_cared inv nofun nofun nofun nofun
  | fail running => exact enter_cared inv nofun nofun nofun nofun
  | serve own patient next => exact serve_cared inv fitting own patient next

end server

theorem cared_run {w : World} {d : Daemon} {f : Life} (fitting : Fitting w) (empty : d.veths = [])
    (run : Reached (Begun d) (Lives w) f) : Cared w d f :=
  reached_invariant (Cared w d) (fun _ => begun_cared empty)
    (fun _ _ inv step => lives_cared inv fitting step) run

/-- Whatever clients there are, and wherever signals and failures meet them: as long as the
    thread is patient, every registered port is that of a client that has started and has not
    come to its exit, however many have done so before. -/
theorem ports_have_clients {w : World} {d : Daemon} {f : Life} (fitting : Fitting w)
    (empty : d.veths = []) (run : Reached (Begun d) (Lives w) f) :
    ∀ k ∈ keys f.server.daemon.veths,
      ∃ i, w.dev i = k ∧ f.stage i ≠ .before .create ∧ f.stage i ≠ .exited := by
  intro k registered
  obtain ⟨i, name, started, not_gone⟩ := (cared_run fitting empty run).holder k registered
  exact ⟨i, name, started, fun exited => not_gone (Or.inl exited)⟩

def idleLife : Life := ⟨listening, fun _ => .before .create, fun _ => (0, .create)⟩

theorem shared_fitting : Fitting XSKOwnership.sharedWorld :=
  fun _ => (by decide : (32 : UInt8) ∉ XSKOwnership.sharedPrefix.bytes ∧
    XSKOwnership.sharedPrefix.length ≤ 15)

theorem interrupted_life : ∃ f, Reached (Begun bareDaemon) (Lives XSKOwnership.sharedWorld) f ∧
    f.stage 0 = .exited ∧ ∀ i, i ≠ 0 → f.stage i = .before .create := by
  have start : Reached (Begun bareDaemon) (Lives XSKOwnership.sharedWorld) idleLife :=
    Reached.start ⟨rfl, fun _ => rfl⟩
  have opened := Reached.step start (@Lives.connect _ _ 0 0 _ _ rfl rfl)
  have tested := Reached.step opened (@Lives.serve _ _ .test _ rfl trivial rfl)
  have accepted := Reached.step tested (@Lives.serve _ _ .accept _ rfl trivial rfl)
  have asked := Reached.step accepted (@Lives.write _ _ 0 0 _ _ rfl rfl)
  have created := Reached.step asked
    (@Lives.serve _ _ (.read (fun _ => true) 13) _ rfl (by rintro c ⟨⟩; rfl) rfl)
  have stopped := Reached.step created (@Lives.interrupt _ _ 0 trivial)
  have again := Reached.step stopped (@Lives.connect _ _ 0 1 _ _ rfl rfl)
  have left := Reached.step again
    (@Lives.serve _ _ .hangUp _ rfl (by rintro c ⟨⟩; exact ⟨rfl, nofun⟩) rfl)
  have tested := Reached.step left (@Lives.serve _ _ .test _ rfl trivial rfl)
  have accepted := Reached.step tested (@Lives.serve _ _ .accept _ rfl trivial rfl)
  have asked := Reached.step accepted (@Lives.write _ _ 0 1 _ _ rfl rfl)
  have deleted := Reached.step asked
    (@Lives.serve _ _ (.read (fun _ => true) 13) _ rfl (by rintro c ⟨⟩; rfl) rfl)
  have answered := Reached.step deleted (@Lives.receive _ _ 0 1 _ _ rfl (Or.inl nofun) rfl)
  refine ⟨_, answered, rfl, ?_⟩
  intro i other
  simp only [Life.enter, Function.update_of_ne other]
  rfl

theorem ports_have_clients_after_one : ∃ f,
    Reached (Begun bareDaemon) (Lives XSKOwnership.sharedWorld) f ∧ f.stage 0 = .exited ∧
      keys f.server.daemon.veths = [] := by
  obtain ⟨f, run, exited, others⟩ := interrupted_life
  refine ⟨f, run, exited, List.eq_nil_iff_forall_not_mem.mpr ?_⟩
  intro k registered
  obtain ⟨i, -, started, running⟩ := ports_have_clients shared_fitting rfl run k registered
  by_cases first : i = 0
  · rw [first] at running
    exact running exited
  · exact started (others i first)

end XSKClientLife
