import XSKNet.PortCommands

/- The interfaces of the ports come and go in pairs: an invariant of the two commands, and
   what each of them does to the pair it is given and to the others. -/
namespace XSKPorts
open CStrings XSKVeth XSKInterfaces

structure Wired (k : Kernel) : Prop where
  pair : ∀ p, PortPrefix p →
    (shape k.link (innerName p) = none ∧ shape k.link (outerName p) = none) ∨
    ∃ i o, shape k.link (innerName p) = some (i, outerName p) ∧
      shape k.link (outerName p) = some (o, innerName p)
  started : 0 < k.nextIndex
  bounded : ∀ n i peer, shape k.link n = some (i, peer) → 0 < i ∧ i < k.nextIndex
  distinct : ∀ n m i a b, shape k.link n = some (i, a) → shape k.link m = some (i, b) → n = m

def Present (k : Kernel) (p : CString) : Prop := (shape k.link (innerName p)).isSome = true

def Live (k : Kernel) (p : CString) : Prop :=
  Carries k.link (innerName p) .sock ∧ Carries k.link (outerName p) .redirectDummy

theorem present_outer {k : Kernel} {p : CString} (wired : Wired k) (hp : PortPrefix p) :
    (shape k.link (outerName p)).isSome = true ↔ Present k p := by
  unfold Present
  rcases wired.pair p hp with ⟨inner, outer⟩ | ⟨i, o, inner, outer⟩
  · rw [inner, outer]
  · simp [inner, outer]

theorem live_present {k : Kernel} {p : CString} (live : Live k p) : Present k p :=
  shape_isSome_of_carries live.1

theorem link_none_of_shape {link : CString → Option Link} {n : CString}
    (absent : shape link n = none) : link n = none := by
  simpa [shape] using absent

/- The creation script. -/

structure PairMade (k k' : Kernel) (p : CString) : Prop where
  innerNew : k.link (innerName p) = none
  outerNew : k.link (outerName p) = none
  inner : k'.link (innerName p) = some ⟨k.nextIndex + 1, outerName p, []⟩
  outer : k'.link (outerName p) = some ⟨k.nextIndex, innerName p, []⟩
  others : ∀ n, n ≠ innerName p → n ≠ outerName p → k'.link n = k.link n
  index : k'.nextIndex = k.nextIndex + 2

theorem createVeth_cases (ok : Bool) {k : Kernel} {p : CString} (wired : Wired k)
    (hp : PortPrefix p) :
    (createVeth ok (innerName p) (outerName p) k = k ∧ (ok = true → Present k p)) ∨
    (ok = true ∧ PairMade k (createVeth ok (innerName p) (outerName p) k) p) := by
  cases ok with
  | false =>
    left
    constructor
    · simp [createVeth]
    · intro impossible
      cases impossible
  | true =>
    rcases wired.pair p hp with ⟨inner, outer⟩ | ⟨i, o, inner, -⟩
    · right
      have innerNew := link_none_of_shape inner
      have outerNew := link_none_of_shape outer
      have can : CanCreate k (innerName p) (outerName p) :=
        ⟨innerName_accepted hp, outerName_accepted hp, inner_ne_outer hp.short hp.short, innerNew, outerNew⟩
      obtain ⟨link1, link2, index⟩ := createVeth_made can
      have others := fun n => @createVeth_other true (innerName p) (outerName p) k n
      exact ⟨rfl, innerNew, outerNew, link1, link2, others, index⟩
    · left
      have present : Present k p := by simp [Present, inner]
      refine ⟨createVeth_skipped ?_, fun _ => present⟩
      simpa [Present, shape] using present

theorem carries_createVeth (ok : Bool) {k : Kernel} {p : CString} (wired : Wired k)
    (hp : PortPrefix p) (n : CString) (q : XdpProg) :
    Carries (createVeth ok (innerName p) (outerName p) k).link n q ↔ Carries k.link n q := by
  rcases createVeth_cases ok wired hp with ⟨same, -⟩ | ⟨-, made⟩
  · rw [same]
  · by_cases at_inner : n = innerName p
    · subst at_inner
      simp [Carries, made.inner, made.innerNew]
    · by_cases at_outer : n = outerName p
      · subst at_outer
        simp [Carries, made.outer, made.outerNew]
      · unfold Carries
        rw [made.others n at_inner at_outer]

theorem present_createVeth (ok : Bool) {k : Kernel} {p : CString} (wired : Wired k)
    (hp : PortPrefix p) :
    (Present (createVeth ok (innerName p) (outerName p) k) p ↔ Present k p ∨ ok = true) ∧
      ((shape (createVeth ok (innerName p) (outerName p) k).link (outerName p)).isSome = true ↔
        Present k p ∨ ok = true) := by
  rcases createVeth_cases ok wired hp with ⟨same, only⟩ | ⟨yes, made⟩
  · rw [same]
    have absorbed : Present k p ∨ ok = true ↔ Present k p :=
      ⟨fun either => either.elim id only, Or.inl⟩
    rw [absorbed]
    exact ⟨Iff.rfl, present_outer wired hp⟩
  · subst yes
    simp [Present, shape, made.inner, made.outer]

theorem pairMade_indices {k k' : Kernel} {p : CString} (wired : Wired k) (made : PairMade k k' p)
    {n : CString} {i : Nat} {peer : CString} (found : shape k'.link n = some (i, peer)) :
    (n = innerName p ∧ i = k.nextIndex + 1) ∨ (n = outerName p ∧ i = k.nextIndex) ∨
      (shape k.link n = some (i, peer) ∧ 0 < i ∧ i < k.nextIndex) := by
  unfold shape at found
  by_cases at_inner : n = innerName p
  · left
    rw [at_inner, made.inner] at found
    cases found
    exact ⟨at_inner, rfl⟩
  · by_cases at_outer : n = outerName p
    · right; left
      rw [at_outer, made.outer] at found
      cases found
      exact ⟨at_outer, rfl⟩
    · right; right
      rw [made.others n at_inner at_outer] at found
      exact ⟨found, wired.bounded n i peer found⟩

theorem pairMade_wired {k k' : Kernel} {p : CString} (wired : Wired k) (hp : PortPrefix p)
    (made : PairMade k k' p) : Wired k' := by
  have index := made.index
  have started := wired.started
  refine ⟨?_, ?_, ?_, ?_⟩
  · intro q hq
    unfold shape
    by_cases same : q = p
    · right
      rw [same, made.inner, made.outer]
      exact ⟨_, _, rfl, rfl⟩
    · obtain ⟨not1, not2, not3, not4⟩ := names_apart hp hq same
      rw [made.others _ not1 not2, made.others _ not3 not4]
      exact wired.pair q hq
  · omega
  · intro n i peer found
    rcases pairMade_indices wired made found with ⟨-, rfl⟩ | ⟨-, rfl⟩ | ⟨-, low, high⟩
    · omega
    · omega
    · omega
  · intro n m i a b at_n at_m
    rcases pairMade_indices wired made at_n with ⟨rfl, hn⟩ | ⟨rfl, hn⟩ | ⟨old_n, -, hn⟩
    · rcases pairMade_indices wired made at_m with ⟨rfl, -⟩ | ⟨-, hm⟩ | ⟨-, -, hm⟩
      · rfl
      · omega
      · omega
    · rcases pairMade_indices wired made at_m with ⟨-, hm⟩ | ⟨rfl, -⟩ | ⟨-, -, hm⟩
      · omega
      · rfl
      · omega
    · rcases pairMade_indices wired made at_m with ⟨-, hm⟩ | ⟨-, hm⟩ | ⟨old_m, -, -⟩
      · omega
      · omega
      · exact wired.distinct n m i a b old_n old_m

theorem createVeth_wired (ok : Bool) {k : Kernel} {p : CString} (wired : Wired k)
    (hp : PortPrefix p) : Wired (createVeth ok (innerName p) (outerName p) k) := by
  rcases createVeth_cases ok wired hp with ⟨same, -⟩ | ⟨-, made⟩
  · rwa [same]
  · exact pairMade_wired wired hp made

theorem wired_of_shape {k k' : Kernel} (wired : Wired k)
    (same : shape k'.link = shape k.link) (index : k'.nextIndex = k.nextIndex) : Wired k' := by
  refine ⟨?_, ?_, ?_, ?_⟩
  · rw [same]
    exact wired.pair
  · rw [index]
    exact wired.started
  · rw [same, index]
    exact wired.bounded
  · rw [same]
    exact wired.distinct

/- create_port. -/

section create
variable {o : Outcomes} {p : CString} {d d' : Daemon} (done : createPort o p d = .ok d')
  (wired : Wired d.kernel) (hp : PortPrefix p)
include done wired hp

theorem create_wired : Wired d'.kernel := by
  obtain ⟨k, made, -, -, link, index, -⟩ := createPort_spec done
  have wired' : Wired k := by
    rw [made]
    exact createVeth_wired _ wired hp
  apply wired_of_shape wired' _ index
  rw [link, shape_attached, shape_attached]

theorem create_live_other {q : CString} (hq : PortPrefix q) (other : q ≠ p) :
    Live d'.kernel q ↔ Live d.kernel q := by
  obtain ⟨k, made, -, -, link, -, -⟩ := createPort_spec done
  obtain ⟨not1, not2, not3, not4⟩ := names_apart hp hq other
  have inner := carries_createVeth (o .createScript) wired hp (innerName q) .sock
  have outer := carries_createVeth (o .createScript) wired hp (outerName q) .redirectDummy
  rw [← made] at inner outer
  unfold Live
  rw [link]
  simp only [carries_attached, not1, not2, not3, not4, false_and, or_false, inner, outer]

/-- The pair is live afterwards exactly when it exists and each program was there before or
    is attached now. -/
theorem create_live :
    Live d'.kernel p ↔ (Present d.kernel p ∨ o .createScript = true) ∧
      (Carries d.kernel.link (innerName p) .sock ∨ o (.attach .inner) = true) ∧
      (Carries d.kernel.link (outerName p) .redirectDummy ∨ o (.attach .outer) = true) := by
  obtain ⟨k, made, -, -, link, -, -⟩ := createPort_spec done
  have inner := carries_createVeth (o .createScript) wired hp (innerName p) .sock
  have outer := carries_createVeth (o .createScript) wired hp (outerName p) .redirectDummy
  obtain ⟨here1, here2⟩ := present_createVeth (o .createScript) wired hp
  have there1 : Carries d.kernel.link (innerName p) .sock → Present d.kernel p :=
    shape_isSome_of_carries
  have there2 : Carries d.kernel.link (outerName p) .redirectDummy → Present d.kernel p :=
    fun carries => (present_outer wired hp).mp (shape_isSome_of_carries carries)
  rw [← made] at inner outer here1 here2
  unfold Live
  unfold Present at here1
  rw [link]
  simp only [carries_attached, shape_attached, inner, outer, here1, here2, reduceCtorEq,
    inner_ne_outer hp.short hp.short, Ne.symm (inner_ne_outer hp.short hp.short), true_and, false_and, and_false,
    or_false]
  constructor
  · rintro ⟨first, second⟩
    refine ⟨?_, first.imp_right And.left, second.imp_right And.left⟩
    rcases first with carries | ⟨-, exists_now⟩
    · exact Or.inl (there1 carries)
    · exact exists_now
  · rintro ⟨exists_now, first, second⟩
    exact ⟨first.imp_right fun yes => ⟨yes, exists_now⟩,
      second.imp_right fun yes => ⟨yes, exists_now⟩⟩

end create

/- delete_port. -/

def detachOk (o : Outcomes) (side : Side) : Bool := o (.getMultiprog side) && o (.detach side)

def unloaded (o : Outcomes) (p : CString) (link : CString → Option Link) :
    CString → Option Link :=
  detached (detachOk o .inner) (innerName p) (detached (detachOk o .outer) (outerName p) link)

/-- The deletion script takes the whole pair, or nothing when it fails or finds no pair. -/
theorem deletePort_cases (o : Outcomes) {p : CString} {d : Daemon} (wired : Wired d.kernel)
    (hp : PortPrefix p) :
    (((deletePort o p d).kernel.link = unloaded o p d.kernel.link ∧
        (deletePort o p d).kernel.devmap = d.kernel.devmap ∧
        (Present d.kernel p → o .deleteScript = false)) ∨
      ((deletePort o p d).kernel.link =
          removed (innerName p) (outerName p) (unloaded o p d.kernel.link) ∧
        o .deleteScript = true ∧
        ∃ i j, shape d.kernel.link (innerName p) = some (i, outerName p) ∧
          shape d.kernel.link (outerName p) = some (j, innerName p) ∧
          (deletePort o p d).kernel.devmap = match d.kernel.devmap with
            | some slot => if o .clearSlot = true ∧ slot ∈ [i, j] then none else some slot
            | none => none)) ∧
      (deletePort o p d).kernel.nextIndex = d.kernel.nextIndex := by
  obtain ⟨k, kernel, -, -, link, devmap, index⟩ := deletePort_spec o p d
  have same : shape k.link = shape d.kernel.link := by
    rw [link, shape_detached, shape_detached]
  rw [kernel]
  rcases wired.pair p hp with ⟨absent, -⟩ | ⟨i, j, inner, outer⟩
  · have none_there : k.link (innerName p) = none := by
      apply link_none_of_shape
      rw [same, absent]
    rw [deleteVeth_absent _ _ none_there]
    refine ⟨Or.inl ⟨link, devmap, ?_⟩, index⟩
    intro present
    simp [Present, absent] at present
  · cases script : o .deleteScript with
    | false =>
      rw [deleteVeth_failed]
      exact ⟨Or.inl ⟨link, devmap, fun _ => rfl⟩, index⟩
    | true =>
      have there : shape k.link (innerName p) = some (i, outerName p) := by rw [same, inner]
      obtain ⟨l, found, fields⟩ := Option.map_eq_some_iff.mp there
      obtain ⟨rfl, peer⟩ := Prod.mk.inj fields
      have other_index : ifNametoindex k l.peer = j := by
        rw [ifNametoindex_shape, same, peer, outer]
        rfl
      obtain ⟨link', index', devmap'⟩ := deleteVeth_done (o .clearSlot) found
      rw [other_index, devmap] at devmap'
      rw [peer, link] at link'
      exact ⟨Or.inr ⟨link', rfl, l.ifindex, j, inner, outer, devmap'⟩, index'.trans index⟩

theorem unloaded_shape (o : Outcomes) (p : CString) (link : CString → Option Link) :
    shape (unloaded o p link) = shape link := by
  rw [unloaded, shape_detached, shape_detached]

theorem shape_removed (a b : CString) (link : CString → Option Link) (n : CString) :
    shape (removed a b link) n = if n = a ∨ n = b then none else shape link n := by
  unfold shape removed
  split
  · rfl
  · rfl

theorem delete_wired (o : Outcomes) {p : CString} {d : Daemon} (wired : Wired d.kernel)
    (hp : PortPrefix p) : Wired (deletePort o p d).kernel := by
  obtain ⟨⟨link, -, -⟩ | ⟨link, -⟩, index⟩ := deletePort_cases o wired hp
  · exact wired_of_shape wired (by rw [link, unloaded_shape]) index
  · have kept : ∀ n found, shape (deletePort o p d).kernel.link n = some found →
        shape d.kernel.link n = some found := by
      intro n found at_n
      rw [link, shape_removed, unloaded_shape] at at_n
      split at at_n
      · cases at_n
      · exact at_n
    refine ⟨?_, ?_, ?_, ?_⟩
    · intro q hq
      rw [link, shape_removed, shape_removed, unloaded_shape]
      by_cases same : q = p
      · left
        simp [same]
      · obtain ⟨not1, not2, not3, not4⟩ := names_apart hp hq same
        rw [if_neg (by simp [not1, not2]), if_neg (by simp [not3, not4])]
        exact wired.pair q hq
    · rw [index]
      exact wired.started
    · intro n i peer found
      rw [index]
      exact wired.bounded n i peer (kept n _ found)
    · intro n m i a b at_n at_m
      exact wired.distinct n m i a b (kept n _ at_n) (kept m _ at_m)

theorem carries_removed (a b : CString) (link : CString → Option Link) (n : CString)
    (q : XdpProg) : Carries (removed a b link) n q ↔ Carries link n q ∧ n ≠ a ∧ n ≠ b := by
  unfold Carries removed
  by_cases gone : n = a ∨ n = b
  · have out : ¬ (n ≠ a ∧ n ≠ b) := by
      rw [not_and_or, not_not, not_not]
      exact gone
    simp [gone, out]
  · rw [not_or] at gone
    simp [gone.1, gone.2]

theorem delete_live_other (o : Outcomes) {p q : CString} {d : Daemon} (wired : Wired d.kernel)
    (hp : PortPrefix p) (hq : PortPrefix q) (other : q ≠ p) :
    Live (deletePort o p d).kernel q ↔ Live d.kernel q := by
  obtain ⟨not1, not2, not3, not4⟩ := names_apart hp hq other
  unfold Live
  obtain ⟨⟨link, -, -⟩ | ⟨link, -⟩, -⟩ := deletePort_cases o wired hp
  · simp only [link, unloaded, carries_detached, not1, not2, not3, not4, false_and, not_false_iff,
      and_true]
  · simp only [link, carries_removed, unloaded, carries_detached, not1, not2, not3, not4, false_and,
      not_false_iff, and_true, ne_eq]

theorem delete_live (o : Outcomes) {p : CString} {d : Daemon} (wired : Wired d.kernel)
    (hp : PortPrefix p) :
    Live (deletePort o p d).kernel p ↔ Live d.kernel p ∧ o .deleteScript = false ∧
      detachOk o .inner = false ∧ detachOk o .outer = false := by
  have apart := inner_ne_outer hp.short hp.short
  obtain ⟨⟨link, -, failed⟩ | ⟨link, script, -⟩, -⟩ := deletePort_cases o wired hp
  · unfold Live
    simp only [link, unloaded, carries_detached, apart, Ne.symm apart, false_and, true_and,
      not_false_iff, and_true, Bool.not_eq_true]
    constructor
    · rintro ⟨⟨inner, quiet⟩, outer, still⟩
      exact ⟨⟨inner, outer⟩, failed (shape_isSome_of_carries inner), quiet, still⟩
    · rintro ⟨⟨inner, outer⟩, -, quiet, still⟩
      exact ⟨⟨inner, quiet⟩, outer, still⟩
  · unfold Live
    simp only [link, carries_removed, ne_eq, not_true, false_and, and_false, script,
      Bool.true_eq_false]

end XSKPorts
