import Mathlib.Data.List.Basic

/- Work done in sessions. A session is a list of turns, each of which changes a state and gives
   an answer, or fails for good. A log that serves one session at a time is put together from
   the sessions, in the order in which they were opened. -/
namespace Sessions

variable {κ τ ρ δ ε : Type} (turn : τ → δ → Except ε (List ρ × δ))

def session : List τ → δ → Except ε (List ρ × δ)
  | [], d => .ok ([], d)
  | t :: rest, d =>
    match turn t d with
    | .error e => .error e
    | .ok (answer, d) => (session rest d).map fun (answers, d) => (answer ++ answers, d)

/-- Whole sessions one after the other, with the answers of each. -/
def sessions : List (List τ) → δ → Except ε (List (List ρ) × δ)
  | [], d => .ok ([], d)
  | g :: rest, d =>
    match session turn g d with
    | .error e => .error e
    | .ok (answers, d) => (sessions rest d).map fun (later, d) => (answers :: later, d)

theorem session_concat {ts : List τ} {d d' : δ} {answers : List ρ}
    (before : session turn ts d = .ok (answers, d')) (t : τ) :
    session turn (ts ++ [t]) d =
      (turn t d').map fun (answer, d) => (answers ++ answer, d) := by
  induction ts generalizing d answers with
  | nil =>
    obtain ⟨rfl, rfl⟩ := Prod.mk.inj (Except.ok.inj before)
    rw [List.nil_append, session]
    cases turn t d with
    | error e => rfl
    | ok next => simp [session, Except.map]
  | cons first rest ih =>
    rw [session] at before
    rw [List.cons_append, session]
    cases result : turn first d with
    | error e =>
      rw [result] at before
      cases before
    | ok next =>
      obtain ⟨answer, d₁⟩ := next
      rw [result] at before
      dsimp only at before ⊢
      cases more : session turn rest d₁ with
      | error e =>
        rw [more] at before
        cases before
      | ok behind =>
        obtain ⟨later, d₂⟩ := behind
        rw [more] at before
        obtain ⟨rfl, rfl⟩ := Prod.mk.inj (Except.ok.inj before)
        rw [ih more]
        cases turn t d₂ with
        | error e => rfl
        | ok last => simp [Except.map]

theorem sessions_concat {gs : List (List τ)} {d d' : δ} {answers : List (List ρ)}
    (before : sessions turn gs d = .ok (answers, d')) (g : List τ) :
    sessions turn (gs ++ [g]) d =
      (session turn g d').map fun (answer, d) => (answers ++ [answer], d) := by
  induction gs generalizing d answers with
  | nil =>
    obtain ⟨rfl, rfl⟩ := Prod.mk.inj (Except.ok.inj before)
    rw [List.nil_append, sessions]
    cases session turn g d with
    | error e => rfl
    | ok next => rfl
  | cons first rest ih =>
    rw [sessions] at before
    rw [List.cons_append, sessions]
    cases result : session turn first d with
    | error e =>
      rw [result] at before
      cases before
    | ok next =>
      obtain ⟨answer, d₁⟩ := next
      rw [result] at before
      dsimp only at before ⊢
      cases more : sessions turn rest d₁ with
      | error e =>
        rw [more] at before
        cases before
      | ok behind =>
        obtain ⟨later, d₂⟩ := behind
        rw [more] at before
        obtain ⟨rfl, rfl⟩ := Prod.mk.inj (Except.ok.inj before)
        rw [ih more]
        cases session turn g d₂ with
        | error e => rfl
        | ok last => rfl

theorem sessions_front {gs : List (List τ)} {g : List τ} {d : δ} {x : List (List ρ) × δ}
    (run : sessions turn (gs ++ [g]) d = .ok x) : ∃ y, sessions turn gs d = .ok y := by
  induction gs generalizing d x with
  | nil => exact ⟨_, rfl⟩
  | cons first rest ih =>
    rw [List.cons_append, sessions] at run
    rw [sessions]
    cases result : session turn first d with
    | error e =>
      rw [result] at run
      cases run
    | ok next =>
      obtain ⟨answer, d₁⟩ := next
      rw [result] at run
      dsimp only at run ⊢
      cases more : sessions turn (rest ++ [g]) d₁ with
      | error e =>
        rw [more] at run
        cases run
      | ok behind =>
        obtain ⟨y, front⟩ := ih more
        rw [front]
        exact ⟨_, rfl⟩

theorem sessions_last {gs : List (List τ)} {g : List τ} {d d' : δ} {all : List (List ρ)}
    (run : sessions turn (gs ++ [g]) d = .ok (all, d')) :
    ∃ answers d₁ answer, sessions turn gs d = .ok (answers, d₁) ∧
      session turn g d₁ = .ok (answer, d') ∧ all = answers ++ [answer] := by
  obtain ⟨⟨answers, d₁⟩, before⟩ := sessions_front turn run
  rw [sessions_concat turn before] at run
  cases last : session turn g d₁ with
  | error e =>
    rw [last] at run
    cases run
  | ok next =>
    obtain ⟨answer, d₂⟩ := next
    rw [last] at run
    obtain ⟨rfl, rfl⟩ := Prod.mk.inj (Except.ok.inj run)
    exact ⟨answers, d₁, answer, before, last, rfl⟩

theorem sessions_turn {gs : List (List τ)} {g : List τ} {d d' : δ} {answers : List (List ρ)}
    {answer : List ρ} (run : sessions turn (gs ++ [g]) d = .ok (answers ++ [answer], d')) (t : τ) :
    sessions turn (gs ++ [g ++ [t]]) d =
      (turn t d').map fun (more, d) => (answers ++ [answer ++ more], d) := by
  obtain ⟨answers', d₁, answer', before, last, all⟩ := sessions_last turn run
  obtain ⟨rfl, same⟩ := List.append_inj' all rfl
  obtain rfl := List.singleton_inj.mp same
  rw [sessions_concat turn before, session_concat turn last]
  cases turn t d' with
  | error e => rfl
  | ok next => rfl

theorem sessions_open {gs : List (List τ)} {d d' : δ} {answers : List (List ρ)}
    (run : sessions turn gs d = .ok (answers, d')) :
    sessions turn (gs ++ [[]]) d = .ok (answers ++ [[]], d') :=
  sessions_concat turn run []

/- Logs. -/

section log
variable [DecidableEq κ]

def turnsOf (log : List (κ × τ)) (k : κ) : List τ :=
  (log.filter fun x => decide (x.1 = k)).map Prod.snd

def Grouped (order : List κ) (log : List (κ × τ)) : Prop :=
  log = order.flatMap fun k => log.filter fun x => decide (x.1 = k)

@[simp] theorem turnsOf_same (log : List (κ × τ)) (k : κ) (t : τ) :
    turnsOf (log ++ [(k, t)]) k = turnsOf log k ++ [t] := by
  simp [turnsOf]

theorem turnsOf_other (log : List (κ × τ)) {k k' : κ} (t : τ) (other : k' ≠ k) :
    turnsOf (log ++ [(k, t)]) k' = turnsOf log k' := by
  simp [turnsOf, Ne.symm other]

theorem filter_absent {log : List (κ × τ)} {k : κ} (absent : k ∉ log.map Prod.fst) :
    (log.filter fun x => decide (x.1 = k)) = [] := by
  rw [List.filter_eq_nil_iff]
  intro x member same
  apply absent
  rw [← of_decide_eq_true same]
  exact List.mem_map_of_mem member

theorem turnsOf_absent {log : List (κ × τ)} {k : κ} (absent : k ∉ log.map Prod.fst) :
    turnsOf log k = [] := by
  rw [turnsOf, filter_absent absent]
  rfl

theorem grouped_turn {order : List κ} {k : κ} {log : List (κ × τ)}
    (grouped : Grouped (order ++ [k]) log) (last : k ∉ order) (t : τ) :
    Grouped (order ++ [k]) (log ++ [(k, t)]) := by
  have front : (order.flatMap fun k' => (log ++ [(k, t)]).filter fun x => decide (x.1 = k')) =
      order.flatMap fun k' => log.filter fun x => decide (x.1 = k') := by
    apply List.flatMap_congr
    intro k' member
    have differ : ¬ k = k' := by
      rintro rfl
      exact last member
    simp [differ]
  unfold Grouped at grouped ⊢
  rw [List.flatMap_append, front, List.flatMap_singleton, List.filter_append]
  conv_lhs => rw [grouped, List.flatMap_append, List.flatMap_singleton]
  simp

theorem grouped_open {order : List κ} {k : κ} {log : List (κ × τ)} (grouped : Grouped order log)
    (absent : k ∉ log.map Prod.fst) : Grouped (order ++ [k]) log := by
  unfold Grouped at grouped ⊢
  rw [List.flatMap_append, List.flatMap_singleton, filter_absent absent, List.append_nil]
  exact grouped

end log

end Sessions
