import XSKNet.Multimap

/- Iteration over a linked list whose body may release nodes. The list holds the nodes that
   are not released, in the order of their links. The successor of a node is read before the
   body runs, and a node that was released cannot be read. -/
namespace SavedSuccessor

variable {ν α κ : Type} [DecidableEq α] (address : ν → α)

def head (l : List ν) : Option α := l.head?.map address

def find (l : List ν) (a : α) : Option ν := l.find? fun n => decide (address n = a)

def nextOf : List ν → α → Option (Option α)
  | [], _ => none
  | n :: rest, a => if address n = a then some (head address rest) else nextOf rest a

def advance (l : List ν) : Option α → Option (Option α)
  | none => some none
  | some a => nextOf address l a

/-- finished has the nodes visited, in order, and those left. -/
inductive Walk (ν : Type) where
  | finished (visited left : List ν)
  | dangling
  | unfinished
  deriving DecidableEq

def Walk.visit (n : ν) : Walk ν → Walk ν
  | .finished visited left => .finished (n :: visited) left
  | .dangling => .dangling
  | .unfinished => .unfinished

/-- el is the node to visit, tmp its saved successor. -/
def loop (body : ν → List ν → List ν) : Nat → List ν → Option α → Option α → Walk ν
  | 0, _, _, _ => .unfinished
  | _ + 1, l, none, _ => .finished [] l
  | fuel + 1, l, some el, tmp =>
    match find address l el with
    | none => .dangling
    | some n =>
      match advance address (body n l) tmp with
      | none => .dangling
      | some next => (loop body fuel (body n l) tmp next).visit n

def iterate (body : ν → List ν → List ν) (start : Option α) (l : List ν) : Walk ν :=
  match advance address l start with
  | none => .dangling
  | some tmp => loop address body (l.length + 1) l start tmp

def Cleared (l : List ν) (w : Walk ν) : Prop := ∃ visited, w = .finished visited [] ∧ visited.Perm l

theorem find_head (n : ν) (rest : List ν) : find address (n :: rest) (address n) = some n := by
  simp [find]

theorem mem_of_find {l : List ν} {a : α} {n : ν} (found : find address l a = some n) : n ∈ l :=
  List.mem_of_find?_eq_some found

theorem advance_head (l : List ν) :
    advance address l (head address l) = some (head address l.tail) := by
  cases l with
  | nil => rfl
  | cons n rest => simp [head, advance, nextOf]

theorem visit_finished {w : Walk ν} {n : ν} {visited left : List ν}
    (run : w.visit n = .finished visited left) :
    ∃ later, w = .finished later left ∧ visited = n :: later := by
  cases w with
  | finished later rest =>
    obtain ⟨rfl, rfl⟩ := Walk.finished.inj run
    exact ⟨later, rfl, rfl⟩
  | dangling => cases run
  | unfinished => cases run

theorem iterate_head (body : ν → List ν → List ν) (l : List ν) :
    iterate address body (head address l) l =
      loop address body (l.length + 1) l (head address l) (head address l.tail) := by
  unfold iterate
  rw [advance_head]

theorem iterate_dangling (body : ν → List ν → List ν) (a : α) :
    iterate address body (some a) [] = .dangling := rfl

theorem loop_cons (body : ν → List ν → List ν) (fuel : Nat) (n : ν) (rest : List ν)
    (tmp : Option α) :
    loop address body (fuel + 1) (n :: rest) (head address (n :: rest)) tmp =
      match advance address (body n (n :: rest)) tmp with
      | none => .dangling
      | some next => (loop address body fuel (body n (n :: rest)) tmp next).visit n := by
  change (match find address (n :: rest) (address n) with
    | none => Walk.dangling
    | some m => _) = _
  rw [find_head]

theorem loop_clears {body : ν → List ν → List ν} {l : List ν} {fuel : Nat}
    (exact_body : ∀ n rest, (n :: rest) <:+ l → body n (n :: rest) = rest)
    (enough : l.length < fuel) :
    loop address body fuel l (head address l) (head address l.tail) = .finished l [] := by
  induction l generalizing fuel with
  | nil =>
    obtain ⟨k, rfl⟩ : ∃ k, fuel = k + 1 := ⟨fuel - 1, by simp at enough; omega⟩
    rfl
  | cons n rest ih =>
    obtain ⟨k, rfl⟩ : ∃ k, fuel = k + 1 := ⟨fuel - 1, by omega⟩
    have taken := exact_body n rest List.suffix_rfl
    have later := ih (fun m more suffix => exact_body m more (suffix.trans (List.suffix_cons n rest)))
      (by simpa using enough)
    rw [loop_cons, taken, List.tail_cons, advance_head]
    dsimp only
    rw [later]
    rfl

theorem loop_turn {body : ν → List ν → List ν} {fuel : Nat} {l visited left : List ν}
    {el tmp : Option α}
    (run : loop address body (fuel + 1) l el tmp = .finished visited left) :
    (el = none ∧ visited = [] ∧ left = l) ∨
    ∃ n next later, n ∈ l ∧ advance address (body n l) tmp = some next ∧
      loop address body fuel (body n l) tmp next = .finished later left ∧
      visited = n :: later := by
  cases el with
  | none =>
    obtain ⟨rfl, rfl⟩ := Walk.finished.inj run
    exact Or.inl ⟨rfl, rfl, rfl⟩
  | some a =>
    right
    unfold loop at run
    cases found : find address l a with
    | none =>
      rw [found] at run
      cases run
    | some n =>
      rw [found] at run
      dsimp only at run
      cases saved : advance address (body n l) tmp with
      | none =>
        rw [saved] at run
        cases run
      | some next =>
        rw [saved] at run
        obtain ⟨later, rest, all⟩ := visit_finished run
        exact ⟨n, next, later, mem_of_find address found, saved, rest, all⟩

theorem visited_subset {body : ν → List ν → List ν} (shrinks : ∀ n l, body n l ⊆ l) {fuel : Nat}
    {l visited left : List ν} {el tmp : Option α}
    (run : loop address body fuel l el tmp = .finished visited left) : visited ⊆ l := by
  induction fuel generalizing l visited el tmp with
  | zero => cases run
  | succ fuel ih =>
    rcases loop_turn address run with ⟨-, rfl, -⟩ | ⟨n, next, later, member, -, rest, rfl⟩
    · exact List.nil_subset l
    · intro m inside
      rcases List.mem_cons.mp inside with rfl | more
      · exact member
      · exact shrinks n l (ih rest more)

theorem left_eq_foldl {body : ν → List ν → List ν} {fuel : Nat} {l visited left : List ν}
    {el tmp : Option α}
    (run : loop address body fuel l el tmp = .finished visited left) :
    left = visited.foldl (fun l n => body n l) l := by
  induction fuel generalizing l visited el tmp with
  | zero => cases run
  | succ fuel ih =>
    rcases loop_turn address run with ⟨-, rfl, rfl⟩ | ⟨n, next, later, -, -, rest, rfl⟩
    · rfl
    · have after := ih rest
      exact after

theorem find_middle {front rest : List ν} {n : ν} (first : address n ∉ front.map address) :
    find address (front ++ n :: rest) (address n) = some n := by
  have skipped : find address front (address n) = none := by
    apply List.find?_eq_none.mpr
    intro m member same
    exact first (List.mem_map.mpr ⟨m, member, of_decide_eq_true same⟩)
  rw [find, List.find?_append]
  unfold find at skipped
  rw [skipped]
  simp

theorem nextOf_middle {front rest : List ν} {n : ν} (first : address n ∉ front.map address) :
    nextOf address (front ++ n :: rest) (address n) = some (head address rest) := by
  induction front with
  | nil => simp [nextOf]
  | cons m more ih =>
    rw [List.map_cons, List.mem_cons, not_or] at first
    rw [List.cons_append, nextOf, if_neg (Ne.symm first.1)]
    exact ih first.2

theorem loop_keeps (front rest : List ν) (distinct : ((front ++ rest).map address).Nodup)
    {fuel : Nat} (enough : rest.length < fuel) :
    loop address (fun _ l => l) fuel (front ++ rest) (head address rest) (head address rest.tail) =
      .finished rest (front ++ rest) := by
  induction rest generalizing front fuel with
  | nil =>
    obtain ⟨k, rfl⟩ : ∃ k, fuel = k + 1 := ⟨fuel - 1, by simp at enough; omega⟩
    rfl
  | cons n rest ih =>
    obtain ⟨k, rfl⟩ : ∃ k, fuel = k + 1 := ⟨fuel - 1, by omega⟩
    have shape : front ++ n :: rest = (front ++ [n]) ++ rest := by simp
    have apart : ∀ {before : List ν} {m : ν} {behind : List ν},
        front ++ n :: rest = before ++ m :: behind → address m ∉ before.map address := by
      intro before m behind split member
      rw [split, List.map_append, List.map_cons] at distinct
      exact (List.nodup_append.mp distinct).2.2 _ member _ List.mem_cons_self rfl
    have saved : advance address (front ++ n :: rest) (head address rest) =
        some (head address rest.tail) := by
      cases rest with
      | nil => rfl
      | cons m more =>
        have first := apart shape
        rw [shape]
        exact nextOf_middle address first
    have first : address n ∉ front.map address := apart rfl
    have found := @find_middle ν α _ address front rest n first
    have later := ih (front ++ [n]) (by rwa [← shape]) (by simpa using enough)
    rw [← shape] at later
    change (match find address (front ++ n :: rest) (address n) with
      | none => Walk.dangling
      | some m => _) = _
    rw [found]
    dsimp only [List.tail_cons]
    rw [saved]
    dsimp only
    rw [later]
    rfl

/- Deletion by key, of the entry that a lookup finds. -/

variable [DecidableEq κ] (key : ν → κ)

def deleteKey (n : ν) (l : List ν) : List ν := Multimap.del key l (key n)

theorem deleteKey_ends {fuel : Nat} {l : List ν} (el tmp : Option α) (enough : l.length < fuel) :
    loop address (deleteKey key) fuel l el tmp ≠ .unfinished := by
  induction fuel generalizing l el tmp with
  | zero => omega
  | succ fuel ih =>
    intro run
    cases el with
    | none => cases run
    | some a =>
      unfold loop at run
      cases found : find address l a with
      | none =>
        rw [found] at run
        cases run
      | some n =>
        rw [found] at run
        dsimp only at run
        cases saved : advance address (deleteKey key n l) tmp with
        | none =>
          rw [saved] at run
          cases run
        | some next =>
          have present : key n ∈ Multimap.keys key l :=
            List.mem_map_of_mem (mem_of_find address found)
          obtain ⟨front, gone, back, split, -, -, rest⟩ := Multimap.del_split key present
          have size := congrArg List.length split
          rw [List.length_append, List.length_cons] at size
          have shorter : (deleteKey key n l).length < fuel := by
            rw [deleteKey, rest, List.length_append]
            omega
          rw [saved] at run
          dsimp only at run
          cases more : loop address (deleteKey key) fuel (deleteKey key n l) tmp next with
          | finished visited left =>
            rw [more] at run
            cases run
          | dangling =>
            rw [more] at run
            cases run
          | unfinished => exact ih tmp next shorter more

/-- An entry deleted before its turn is never visited, so everything is visited only if each
    turn deletes the entry visited. -/
theorem nodup_of_cleared {l visited : List ν} {fuel : Nat} (distinct : (l.map address).Nodup)
    (run : loop address (deleteKey key) fuel l (head address l) (head address l.tail) =
      .finished visited []) (all : visited.Perm l) : (Multimap.keys key l).Nodup := by
  induction l generalizing fuel visited with
  | nil => exact List.nodup_nil
  | cons n rest ih =>
    cases fuel with
    | zero => cases run
    | succ fuel =>
      rw [loop_cons] at run
      cases saved : advance address (deleteKey key n (n :: rest)) (head address rest) with
      | none =>
        rw [List.tail_cons, saved] at run
        cases run
      | some next =>
        rw [List.tail_cons, saved] at run
        obtain ⟨later, more, rfl⟩ := visit_finished run
        by_cases again : key n ∈ Multimap.keys key rest
        · -- the entry deleted is a later one, which keeps its place in the list of visits
          have present : key n ∈ Multimap.keys key (n :: rest) :=
            List.mem_map_of_mem List.mem_cons_self
          obtain ⟨front, gone, back, split, same, last, left⟩ := Multimap.del_split key present
          have live := visited_subset address (fun m t => Multimap.del_subset key t (key m)) more
          have inside : gone ∈ n :: later := by
            apply all.mem_iff.mpr
            rw [split]
            simp
          rw [split, List.map_append, List.map_cons] at distinct
          have apart := (List.nodup_middle.mp distinct).notMem
          rw [← List.map_append] at apart
          rcases List.mem_cons.mp inside with rfl | visited_later
          · cases front with
            | nil =>
              obtain ⟨-, rfl⟩ := List.cons.inj split
              exact absurd again last
            | cons first others =>
              obtain ⟨rfl, -⟩ := List.cons.inj split
              exact absurd (List.mem_map_of_mem (by simp)) apart
          · have remains := live visited_later
            change gone ∈ Multimap.del key (n :: rest) (key n) at remains
            rw [left] at remains
            exact absurd (List.mem_map_of_mem remains) apart
        · have taken : deleteKey key n (n :: rest) = rest := Multimap.del_head key again
          rw [taken, advance_head] at saved
          obtain rfl := Option.some.inj saved
          rw [taken] at more
          have others := ih (List.nodup_cons.mp distinct).2 more (List.Perm.cons_inv all)
          exact List.nodup_cons.mpr ⟨again, others⟩

/-- Deleting by key clears a list just when no key occurs twice. -/
theorem deleteKey_clears_iff {l : List ν} (distinct : (l.map address).Nodup) :
    Cleared l (iterate address (deleteKey key) (head address l) l) ↔
      (Multimap.keys key l).Nodup := by
  rw [iterate_head]
  constructor
  · intro ⟨visited, run, all⟩
    exact nodup_of_cleared address key distinct run all
  · intro unique
    refine ⟨l, loop_clears address ?_ (Nat.lt_succ_self _), List.Perm.refl l⟩
    intro n rest suffix
    apply Multimap.del_head
    have keys_suffix : Multimap.keys key (n :: rest) <:+ Multimap.keys key l := suffix.map key
    exact (List.nodup_cons.mp (unique.sublist keys_suffix.sublist)).1

end SavedSuccessor
