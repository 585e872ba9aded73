import Mathlib.Data.List.Nodup
import Mathlib.Logic.Function.Basic
import Mathlib.Tactic.Common

/- Doubly linked lists threaded through the records of a heap. A record has a pair of links
   for each list it can be on, and an address without a record can neither be read nor
   written: the operations then have no result. -/
namespace IntrusiveList

structure Link (α : Type) where
  prev : Option α
  next : Option α
  deriving DecidableEq

structure Field (α β : Type) where
  get : β → Link α
  put : β → Link α → β
  get_put : ∀ r l, get (put r l) = l
  put_get : ∀ r, put r (get r) = r
  put_put : ∀ r l m, put (put r l) m = put r m

abbrev Heap (α β : Type) := α → Option β

variable {α β γ : Type}

section Operations
variable [DecidableEq α]

def write (h : Heap α β) (a : α) (f : β → β) : Option (Heap α β) :=
  (h a).map fun r => Function.update h a (some (f r))

variable (F : Field α β)

def setPrev (h : Heap α β) (a : α) (p : Option α) : Option (Heap α β) :=
  write h a fun r => F.put r { F.get r with prev := p }

def setNext (h : Heap α β) (a : α) (q : Option α) : Option (Heap α β) :=
  write h a fun r => F.put r { F.get r with next := q }

def relink (h : Heap α β) (a : Option α) (p : Option α) : Option (Heap α β) :=
  match a with
  | none => some h
  | some a => setPrev F h a p

def retarget (h : Heap α β) (a : Option α) (q : Option α) : Option (Heap α β) :=
  match a with
  | none => some h
  | some a => setNext F h a q

def pushFront (h : Heap α β) (a : α) (head : Option α) : Option (Heap α β) := do
  let h ← setNext F h a head
  let h ← setPrev F h a none
  relink F h head (some a)

def append (h : Heap α β) (a last : α) : Option (Heap α β) := do
  let h ← setNext F h a none
  let h ← setPrev F h a (some last)
  setNext F h last (some a)

def unlink (h : Heap α β) (a : α) : Option (Heap α β) := do
  let r ← h a
  let h ← retarget F h (F.get r).prev (F.get r).next
  relink F h (F.get r).next (F.get r).prev

def search (test : β → Bool) (h : Heap α β) : Nat → Option α → Option (Option α)
  | 0, _ => none
  | _ + 1, none => some none
  | fuel + 1, some a =>
    match h a with
    | none => none
    | some r => if test r then some (some a) else search test h fuel (F.get r).next

end Operations

/- What the links say. -/

def links (F : Field α β) (h : Heap α β) (a : α) : Option (Link α) := (h a).map F.get

/-- Consecutive records are linked both ways; p is before the first and q behind the last. -/
def Segment (m : α → Option (Link α)) : Option α → List α → Option α → Prop
  | _, [], _ => True
  | p, a :: rest, q => m a = some ⟨p, rest.head?.or q⟩ ∧ Segment m (some a) rest q

theorem segment_append {m : α → Option (Link α)} {p q : Option α} (l₁ l₂ : List α) :
    Segment m p (l₁ ++ l₂) q ↔
      Segment m p l₁ (l₂.head?.or q) ∧ Segment m (l₁.getLast?.or p) l₂ q := by
  induction l₁ generalizing p with
  | nil => simp [Segment]
  | cons a rest ih =>
    have last : (a :: rest).getLast?.or p = rest.getLast?.or (some a) := by
      cases rest with
      | nil => rfl
      | cons b more => simp [List.getLast?_cons]
    rw [last, List.cons_append, Segment, Segment, ih, List.head?_append, Option.or_assoc, and_assoc]

theorem segment_congr {m m' : α → Option (Link α)} {l : List α} {p q : Option α}
    (same : ∀ a ∈ l, m' a = m a) (linked : Segment m p l q) : Segment m' p l q := by
  induction l generalizing p with
  | nil => trivial
  | cons a rest ih =>
    refine ⟨(same a List.mem_cons_self).trans linked.1, ih ?_ linked.2⟩
    exact fun b member => same b (List.mem_cons_of_mem a member)

theorem segment_middle {m : α → Option (Link α)} {front back : List α} {a : α}
    (linked : Segment m none (front ++ a :: back) none) :
    m a = some ⟨front.getLast?, back.head?⟩ := by
  have parts := ((segment_append front (a :: back)).mp linked).2
  simpa using parts.1

/-- What is behind a segment is known to its last record only. -/
theorem segment_retarget [DecidableEq α] {m : α → Option (Link α)} {front : List α} {a : α}
    {p q : Option α}
    (distinct : (front ++ [a]).Nodup) (linked : Segment m p (front ++ [a]) q) (q' : Option α) :
    Segment (Function.update m a (some ⟨front.getLast?.or p, q'⟩)) p (front ++ [a]) q' := by
  have apart : a ∉ front := by
    intro member
    exact (List.nodup_append.mp distinct).2.2 a member a (List.mem_singleton_self a) rfl
  have parts := (segment_append front [a]).mp linked
  apply (segment_append front [a]).mpr
  constructor
  · apply segment_congr _ parts.1
    intro b member
    have other : b ≠ a := fun e => apart (e ▸ member)
    exact Function.update_of_ne other _ _
  · exact ⟨by simp, trivial⟩

/-- What is before a segment is known to its first record only. -/
theorem segment_relink [DecidableEq α] {m : α → Option (Link α)} {a : α} {back : List α}
    {p q : Option α}
    (distinct : (a :: back).Nodup) (linked : Segment m p (a :: back) q) (p' : Option α) :
    Segment (Function.update m a (some ⟨p', back.head?.or q⟩)) p' (a :: back) q := by
  refine ⟨by simp, segment_congr ?_ linked.2⟩
  intro b member
  have other : b ≠ a := fun e => (List.nodup_cons.mp distinct).1 (e ▸ member)
  exact Function.update_of_ne other _ _

/- The operations. -/

/-- The heaps differ in one pair of links of each record at most. -/
def Outside (F : Field α β) (h h' : Heap α β) : Prop :=
  ∀ b, (h' b).map (F.put · ⟨none, none⟩) = (h b).map (F.put · ⟨none, none⟩)

theorem Outside.refl (F : Field α β) (h : Heap α β) : Outside F h h := fun _ => rfl

theorem Outside.trans {F : Field α β} {h₁ h₂ h₃ : Heap α β} (first : Outside F h₁ h₂)
    (second : Outside F h₂ h₃) : Outside F h₁ h₃ := fun b => (second b).trans (first b)

theorem Outside.view {F : Field α β} {h h' : Heap α β} (outside : Outside F h h') {g : β → γ}
    (apart : ∀ r l, g (F.put r l) = g r) (b : α) : (h' b).map g = (h b).map g := by
  have blank : ∀ o : Option β, o.map g = (o.map (F.put · ⟨none, none⟩)).map g := by
    intro o
    cases o with
    | none => rfl
    | some r => simp [apart]
  rw [blank (h' b), outside b, ← blank (h b)]

/-- The heap has the list l now, and no other links were written. -/
structure Relinked (F : Field α β) (h h' : Heap α β) (l : List α) : Prop where
  linked : Segment (links F h') none l none
  others : ∀ b, b ∉ l → links F h' b = links F h b
  outside : Outside F h h'

section Edits
variable [DecidableEq α] {F : Field α β} {h : Heap α β}

theorem write_links {a : α} {k : Link α} (live : links F h a = some k)
    (change : Link α → Link α) :
    ∃ h', write h a (fun r => F.put r (change (F.get r))) = some h' ∧
      links F h' = Function.update (links F h) a (some (change k)) ∧ Outside F h h' := by
  obtain ⟨r, found, rfl⟩ := Option.map_eq_some_iff.mp live
  refine ⟨Function.update h a (some (F.put r (change (F.get r)))), ?_, ?_, ?_⟩
  · rw [write, found]
    rfl
  · funext b
    by_cases here : b = a
    · subst here
      simp [links, F.get_put]
    · simp [links, here]
  · intro b
    by_cases here : b = a
    · subst here
      simp [found, F.put_put]
    · simp [here]

theorem setPrev_ok {a : α} {k : Link α} (live : links F h a = some k) (p : Option α) :
    ∃ h', setPrev F h a p = some h' ∧
      links F h' = Function.update (links F h) a (some ⟨p, k.next⟩) ∧ Outside F h h' :=
  write_links live fun k => { k with prev := p }

theorem setNext_ok {a : α} {k : Link α} (live : links F h a = some k) (q : Option α) :
    ∃ h', setNext F h a q = some h' ∧
      links F h' = Function.update (links F h) a (some ⟨k.prev, q⟩) ∧ Outside F h h' :=
  write_links live fun k => { k with next := q }

theorem retarget_last {l : List α} {p q : Option α} (distinct : l.Nodup)
    (linked : Segment (links F h) p l q) (q' : Option α) :
    ∃ h', retarget F h l.getLast? q' = some h' ∧ Segment (links F h') p l q' ∧
      (∀ b, b ∉ l → links F h' b = links F h b) ∧ Outside F h h' := by
  rcases List.eq_nil_or_concat' l with rfl | ⟨front, a, rfl⟩
  · exact ⟨h, rfl, trivial, fun b _ => rfl, Outside.refl F h⟩
  · have last : links F h a = some ⟨front.getLast?.or p, q⟩ := by
      simpa using ((segment_append front [a]).mp linked).2.1
    obtain ⟨h', done, after, outside⟩ := setNext_ok last q'
    refine ⟨h', ?_, ?_, ?_, outside⟩
    · rw [List.getLast?_concat]
      exact done
    · rw [after]
      exact segment_retarget distinct linked q'
    · intro b absent
      rw [after]
      have other : b ≠ a := fun e => absent (by simp [e])
      exact Function.update_of_ne other _ _

theorem relink_first {l : List α} {p q : Option α} (distinct : l.Nodup)
    (linked : Segment (links F h) p l q) (p' : Option α) :
    ∃ h', relink F h l.head? p' = some h' ∧ Segment (links F h') p' l q ∧
      (∀ b, b ∉ l → links F h' b = links F h b) ∧ Outside F h h' := by
  cases l with
  | nil => exact ⟨h, rfl, trivial, fun b _ => rfl, Outside.refl F h⟩
  | cons a back =>
    obtain ⟨h', done, after, outside⟩ := setPrev_ok linked.1 p'
    refine ⟨h', done, ?_, ?_, outside⟩
    · rw [after]
      exact segment_relink distinct linked p'
    · intro b absent
      rw [after]
      have other : b ≠ a := fun e => absent (by simp [e])
      exact Function.update_of_ne other _ _

theorem set_both {a : α} {k : Link α} (live : links F h a = some k) (p q : Option α) :
    ∃ h₁ h₂, setNext F h a q = some h₁ ∧ setPrev F h₁ a p = some h₂ ∧
      links F h₂ = Function.update (links F h) a (some ⟨p, q⟩) ∧ Outside F h h₂ := by
  obtain ⟨h₁, first, after₁, outside₁⟩ := setNext_ok live q
  have again : links F h₁ a = some ⟨k.prev, q⟩ := by simp [after₁]
  obtain ⟨h₂, second, after₂, outside₂⟩ := setPrev_ok again p
  refine ⟨h₁, h₂, first, second, ?_, outside₁.trans outside₂⟩
  rw [after₂, after₁, Function.update_idem]

theorem pushFront_ok {a : α} {k : Link α} {l : List α} (live : links F h a = some k)
    (fresh : a ∉ l) (distinct : l.Nodup) (linked : Segment (links F h) none l none) :
    ∃ h', pushFront F h a l.head? = some h' ∧ Relinked F h h' (a :: l) := by
  obtain ⟨h₁, h₂, first, second, after, outside⟩ := set_both live none l.head?
  have kept : ∀ b, b ≠ a → links F h₂ b = links F h b := by
    intro b other
    rw [after]
    exact Function.update_of_ne other _ _
  have still : Segment (links F h₂) none l none :=
    segment_congr (fun b member => kept b (fun e => fresh (e ▸ member))) linked
  obtain ⟨h', third, behind, others, more⟩ := relink_first distinct still (some a)
  refine ⟨h', ?_, ?_, ?_, outside.trans more⟩
  · rw [pushFront, first]
    simp only [Option.bind_eq_bind, Option.bind_some, second]
    exact third
  · refine ⟨?_, behind⟩
    rw [others a fresh, after]
    simp
  · intro b absent
    rw [List.mem_cons, not_or] at absent
    rw [others b absent.2, kept b absent.1]

theorem append_ok {a last : α} {k : Link α} {l : List α} (live : links F h a = some k)
    (end_of : l.getLast? = some last) (fresh : a ∉ l) (distinct : l.Nodup)
    (linked : Segment (links F h) none l none) :
    ∃ h', append F h a last = some h' ∧ Relinked F h h' (l ++ [a]) := by
  obtain ⟨h₁, h₂, first, second, after, outside⟩ := set_both live (some last) none
  have kept : ∀ b, b ≠ a → links F h₂ b = links F h b := by
    intro b other
    rw [after]
    exact Function.update_of_ne other _ _
  have still : Segment (links F h₂) none l none :=
    segment_congr (fun b member => kept b (fun e => fresh (e ▸ member))) linked
  obtain ⟨h', third, before, others, more⟩ := retarget_last distinct still (some a)
  rw [end_of] at third
  refine ⟨h', ?_, ?_, ?_, outside.trans more⟩
  · rw [append, first]
    simp only [Option.bind_eq_bind, Option.bind_some, second]
    exact third
  · apply (segment_append l [a]).mpr
    refine ⟨before, ?_, trivial⟩
    rw [others a fresh, after, end_of]
    simp
  · intro b absent
    rw [List.mem_append, List.mem_singleton, not_or] at absent
    rw [others b absent.1, kept b absent.2]

theorem unlink_ok {a : α} {front back : List α} (distinct : (front ++ a :: back).Nodup)
    (linked : Segment (links F h) none (front ++ a :: back) none) :
    ∃ h', unlink F h a = some h' ∧ Relinked F h h' (front ++ back) := by
  have middle := segment_middle linked
  obtain ⟨r, found, mine⟩ := Option.map_eq_some_iff.mp middle
  obtain ⟨left, -, right⟩ := (segment_append front (a :: back)).mp linked
  obtain ⟨apart_front, apart_back, no_meet⟩ := List.nodup_append.mp distinct
  have distinct_back := (List.nodup_cons.mp apart_back).2
  obtain ⟨h₁, first, left', others₁, outside₁⟩ := retarget_last apart_front left back.head?
  have right' : Segment (links F h₁) (some a) back none := by
    apply segment_congr _ right
    intro b member
    exact others₁ b fun inside => no_meet b inside b (List.mem_cons_of_mem a member) rfl
  obtain ⟨h', second, right'', others₂, outside₂⟩ :=
    relink_first distinct_back right' front.getLast?
  refine ⟨h', ?_, ?_, ?_, outside₁.trans outside₂⟩
  · simp only [unlink, found, Option.bind_eq_bind, Option.bind_some, mine]
    rw [first]
    exact second
  · apply (segment_append front back).mpr
    rw [Option.or_none, Option.or_none]
    refine ⟨segment_congr ?_ left', right''⟩
    intro b member
    exact others₂ b fun inside => no_meet b member b (List.mem_cons_of_mem a inside) rfl
  · intro b absent
    rw [List.mem_append, not_or] at absent
    rw [others₂ b absent.2, others₁ b absent.1]

end Edits

theorem search_ok {F : Field α β} {h : Heap α β} (test : β → Bool) {l : List α} {p : Option α}
    (linked : Segment (links F h) p l none) {fuel : Nat} (enough : l.length < fuel) :
    search F test h fuel l.head? = some (l.find? fun a => (h a).any test) := by
  induction l generalizing p fuel with
  | nil =>
    obtain ⟨n, rfl⟩ : ∃ n, fuel = n + 1 := ⟨fuel - 1, by simp at enough; omega⟩
    rfl
  | cons a rest ih =>
    obtain ⟨n, rfl⟩ : ∃ n, fuel = n + 1 := ⟨fuel - 1, by omega⟩
    obtain ⟨r, found, mine⟩ := Option.map_eq_some_iff.mp linked.1
    have later := ih linked.2 (by simpa using enough)
    rw [List.head?_cons, search, found]
    cases hit : test r with
    | true => simp [found, hit]
    | false => simp [found, hit, mine, later]

end IntrusiveList
