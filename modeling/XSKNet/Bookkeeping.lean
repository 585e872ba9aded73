import XSKNet.PortPairs
import XSKNet.Runs

/- The table of ports against the interfaces it stands for, along runs of commands in which
   any step may fail. No step is undone: the table follows the insertion or removal alone. -/
namespace XSKPorts
open CStrings XSKVeth XSKInterfaces Runs

inductive PortCmd where
  | create (p : CString)
  | delete (p : CString)
  deriving DecidableEq

def PortCmd.target : PortCmd → CString
  | .create p => p
  | .delete p => p

def PortCmd.exec (o : Outcomes) (d : Daemon) : PortCmd → Except Daemon Daemon
  | .create p => createPort o p d
  | .delete p => .ok (deletePort o p d)

def PortCmd.table (o : Outcomes) (m : VethMap) : PortCmd → VethMap
  | .create p => (vethListAdd (o .malloc) m p).2
  | .delete p => (vethListRemove m p).2

def Matches (d : Daemon) : Prop :=
  ∀ q, PortPrefix q → (q ∈ keys d.veths ↔ Live d.kernel q)

/-- Which failures a command can stand: for a new prefix the insertion must succeed exactly
    when the pair ends up live, for a registered one some step of the deletion must work. -/
def Agreeing (o : Outcomes) (d : Daemon) : PortCmd → Prop
  | .create p => p ∈ keys d.veths ∨
      (o .malloc = true ↔ (Present d.kernel p ∨ o .createScript = true) ∧
        (Carries d.kernel.link (innerName p) .sock ∨ o (.attach .inner) = true) ∧
        (Carries d.kernel.link (outerName p) .redirectDummy ∨ o (.attach .outer) = true))
  | .delete p => p ∉ keys d.veths ∨ o .deleteScript = true ∨ detachOk o .inner = true ∨
      detachOk o .outer = true

def Clean (d : Daemon) : Prop :=
  d.veths = [] ∧ Wired d.kernel ∧ ∀ p, PortPrefix p → ¬ Present d.kernel p

def AgreeingStep (d d' : Daemon) : Prop :=
  ∃ o c, PortPrefix c.target ∧ Agreeing o d c ∧ c.exec o d = .ok d'

theorem exec_table {o : Outcomes} {c : PortCmd} {d d' : Daemon} (done : c.exec o d = .ok d') :
    d'.veths = c.table o d.veths := by
  cases c with
  | create p =>
    obtain ⟨k, -, table, -⟩ := createPort_spec done
    exact table
  | delete p =>
    obtain rfl := Except.ok.inj done
    rfl

theorem exec_wired {o : Outcomes} {c : PortCmd} {d d' : Daemon} (done : c.exec o d = .ok d')
    (wired : Wired d.kernel) (target : PortPrefix c.target) : Wired d'.kernel := by
  cases c with
  | create p => exact create_wired done wired target
  | delete p =>
    obtain rfl := Except.ok.inj done
    exact delete_wired o wired target

theorem exec_nodup {o : Outcomes} {c : PortCmd} {d d' : Daemon} (done : c.exec o d = .ok d')
    (distinct : (keys d.veths).Nodup) (target : PortPrefix c.target) :
    (keys d'.veths).Nodup := by
  rw [exec_table done]
  cases c with
  | create p => exact nodup_vethListAdd _ (PortPrefix.fits target) distinct
  | delete p => exact nodup_vethListRemove distinct p

theorem exec_other {o : Outcomes} {c : PortCmd} {d d' : Daemon} (done : c.exec o d = .ok d')
    (wired : Wired d.kernel) (distinct : (keys d.veths).Nodup) (target : PortPrefix c.target)
    {q : CString} (hq : PortPrefix q) (other : q ≠ c.target) :
    (q ∈ keys d'.veths ↔ q ∈ keys d.veths) ∧ (Live d'.kernel q ↔ Live d.kernel q) := by
  rw [exec_table done]
  cases c with
  | create p =>
    refine ⟨?_, create_live_other done wired target hq other⟩
    have differ : q ≠ p := other
    have hp : PortPrefix p := target
    rw [PortCmd.table, mem_keys_vethListAdd _ hp.fits]
    simp [differ]
  | delete p =>
    obtain rfl := Except.ok.inj done
    refine ⟨?_, delete_live_other o wired target hq other⟩
    have differ : q ≠ p := other
    rw [PortCmd.table, mem_keys_vethListRemove distinct]
    simp [differ]

theorem create_target {o : Outcomes} {p : CString} {d d' : Daemon}
    (done : createPort o p d = .ok d') (wired : Wired d.kernel) (hp : PortPrefix p)
    (before : p ∈ keys d.veths ↔ Live d.kernel p) :
    (p ∈ keys d'.veths ↔ Live d'.kernel p) ↔ Agreeing o d (.create p) := by
  obtain ⟨k, -, table, -⟩ := createPort_spec done
  have live := create_live done wired hp
  rw [table, mem_keys_vethListAdd _ hp.fits, live]
  unfold Agreeing
  by_cases registered : p ∈ keys d.veths
  · have present := live_present (before.mp registered)
    obtain ⟨inner, outer⟩ := before.mp registered
    simp [registered, present, inner, outer]
  · simp [registered]

theorem delete_target (o : Outcomes) {p : CString} {d : Daemon} (wired : Wired d.kernel)
    (distinct : (keys d.veths).Nodup) (hp : PortPrefix p)
    (before : p ∈ keys d.veths ↔ Live d.kernel p) :
    (p ∈ keys (deletePort o p d).veths ↔ Live (deletePort o p d).kernel p) ↔
      Agreeing o d (.delete p) := by
  obtain ⟨k, -, table, -⟩ := deletePort_spec o p d
  rw [table, mem_keys_vethListRemove distinct, delete_live o wired hp, ← before]
  unfold Agreeing
  by_cases registered : p ∈ keys d.veths
  · simp only [registered, ne_eq, not_true, and_false, true_and, false_iff, false_or, not_and]
    cases o .deleteScript with
    | true => simp
    | false =>
      cases detachOk o .inner with
      | true => simp
      | false => simp
  · simp [registered]

theorem matches_step_iff {o : Outcomes} {c : PortCmd} {d d' : Daemon}
    (done : c.exec o d = .ok d') (wired : Wired d.kernel) (distinct : (keys d.veths).Nodup)
    (target : PortPrefix c.target) (before : Matches d) : Matches d' ↔ Agreeing o d c := by
  have at_target : (c.target ∈ keys d'.veths ↔ Live d'.kernel c.target) ↔ Agreeing o d c := by
    cases c with
    | create p => exact create_target done wired target (before p target)
    | delete p =>
      obtain rfl := Except.ok.inj done
      exact delete_target o wired distinct target (before p target)
  rw [← at_target]
  constructor
  · exact fun all => all c.target target
  · intro there q hq
    by_cases same : q = c.target
    · rwa [same]
    · obtain ⟨table, live⟩ := exec_other done wired distinct target hq same
      rw [table, live]
      exact before q hq

theorem agreeing_run {d : Daemon} (run : Reached Clean AgreeingStep d) :
    Wired d.kernel ∧ (keys d.veths).Nodup ∧ Matches d := by
  refine reached_invariant (fun d => Wired d.kernel ∧ (keys d.veths).Nodup ∧ Matches d) ?_ ?_ run
  · rintro d ⟨empty, wired, absent⟩
    refine ⟨wired, ?_, ?_⟩
    · rw [empty]
      exact List.nodup_nil
    · intro q hq
      have not_live : ¬ Live d.kernel q := fun live => absent q hq (live_present live)
      exact iff_of_false (not_mem_keys_of_empty empty q) not_live
  · rintro d d' ⟨wired, distinct, before⟩ ⟨o, c, target, agreeing, done⟩
    exact ⟨exec_wired done wired target, exec_nodup done distinct target,
      (matches_step_iff done wired distinct target before).mpr agreeing⟩

/-- In every run of agreeing commands the table matches the system, and a further command
    keeps it so exactly when it agrees; whatever fails, nothing is rolled back. -/
theorem bookkeeping_matches {d : Daemon} (run : Reached Clean AgreeingStep d) :
    Matches d ∧ ∀ o c d', PortPrefix c.target → c.exec o d = .ok d' →
      (Matches d' ↔ Agreeing o d c) ∧ d'.veths = c.table o d.veths := by
  obtain ⟨wired, distinct, before⟩ := agreeing_run run
  refine ⟨before, ?_⟩
  intro o c d' target done
  exact ⟨matches_step_iff done wired distinct target before, exec_table done⟩

theorem bareDaemon_clean : Clean bareDaemon := by
  refine ⟨rfl, ⟨?_, by decide, ?_, ?_⟩, ?_⟩
  · intro p hp
    exact Or.inl ⟨rfl, rfl⟩
  · intro n i peer found
    cases found
  · intro n m i a b at_n
    cases at_n
  · intro p hp present
    cases present

def portA : CString := ⟨ascii "a", by decide⟩
def portB : CString := ⟨ascii "b", by decide⟩

/-- Slot 0 cannot be written for a; for b neither the insertion nor the script succeeds, nor the
    script that would take it away again. -/
theorem bookkeeping_matches_after_failures :
    ∃ d : Daemon, keys d.veths = [portA] ∧ Live d.kernel portA ∧ ¬ Live d.kernel portB := by
  obtain ⟨d₁, d₂, d₃, made, failed, kept, absent, registered, only⟩ : ∃ d₁ d₂ d₃,
      PortCmd.exec (fun call => call != .openDevmap) bareDaemon (.create portA) = .ok d₁ ∧
      PortCmd.exec (fun call => call != .malloc && call != .createScript) d₁
        (.create portB) = .ok d₂ ∧
      PortCmd.exec (fun call => call != .deleteScript) d₂ (.delete portB) = .ok d₃ ∧
      shape d₁.kernel.link (innerName portB) = none ∧ portB ∉ keys d₂.veths ∧
      keys d₃.veths = [portA] :=
    ⟨_, _, _, rfl, rfl, rfl, by decide, by decide, by decide⟩
  have first : AgreeingStep bareDaemon d₁ := by
    refine ⟨_, .create portA, by decide, Or.inr ?_, made⟩
    exact ⟨fun _ => ⟨Or.inr rfl, Or.inr rfl, Or.inr rfl⟩, fun _ => rfl⟩
  have second : AgreeingStep d₁ d₂ := by
    refine ⟨_, .create portB, by decide, Or.inr ⟨?_, ?_⟩, failed⟩
    · intro inserted
      cases inserted
    · rintro ⟨present | script, -⟩
      · rw [Present, absent] at present
        cases present
      · cases script
  have third : AgreeingStep d₂ d₃ := ⟨_, .delete portB, by decide, Or.inl registered, kept⟩
  have run := Reached.step (Reached.step (Reached.step (Reached.start bareDaemon_clean) first)
    second) third
  have live := (bookkeeping_matches run).1
  refine ⟨d₃, only, (live portA (by decide)).mp (by simp [only]), ?_⟩
  intro there
  have listed := (live portB (by decide)).mpr there
  rw [only] at listed
  exact absurd listed (by decide)

/-- The creation script fails, and the prefix stays registered without interfaces. -/
theorem failed_script_leaves_entry :
    ∃ d, PortCmd.exec (fun call => call != .createScript) bareDaemon (.create portA) = .ok d ∧
      portA ∈ keys d.veths ∧ d.kernel.link (innerName portA) = none ∧
      d.kernel.link (outerName portA) = none ∧ ¬ Matches d := by
  obtain ⟨d, done, registered, inner, outer⟩ : ∃ d,
      PortCmd.exec (fun call => call != .createScript) bareDaemon (.create portA) = .ok d ∧
        portA ∈ keys d.veths ∧ d.kernel.link (innerName portA) = none ∧
        d.kernel.link (outerName portA) = none :=
    ⟨_, rfl, by decide, by decide, by decide⟩
  refine ⟨d, done, registered, inner, outer, ?_⟩
  intro all
  obtain ⟨⟨l, found, -⟩, -⟩ := (all portA (by decide)).mp registered
  rw [inner] at found
  cases found

end XSKPorts
