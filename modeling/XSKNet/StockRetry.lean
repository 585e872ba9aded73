import XSKNet.ReserveContract
import XSKNet.ReceiveLoop

/- The retry loop of handle_receive_packets over any library that keeps the contract of
   xsk_ring_prod__reserve. The first call asks for stock_frames entries, every later call
   for rcvd entries, and the loop ends when a call returns stock_frames. -/
namespace XSKRetry
open SharedRing XSKSocket XSKReceive Runs

variable {σ : Type}

/-- while (ret != stock_frames) ret = xsk_ring_prod__reserve(fq, rcvd, &idx_fq), with the
    number of calls made; none when the fuel is used up. -/
def retryLoop (lib : Reserving σ) (kernel : Nat → σ → σ) (rcvd stockFrames : UInt32) :
    Nat → Nat → UInt32 → σ → Option (Nat × σ)
  | 0, _, _, _ => none
  | fuel + 1, calls, ret, s =>
    if ret ≠ stockFrames then
      let (ret, s) := lib.reserve rcvd (kernel calls s)
      retryLoop lib kernel rcvd stockFrames fuel (calls + 1) ret s
    else some (calls, s)

def reserveStock (lib : Reserving σ) (kernel : Nat → σ → σ) (rcvd stockFrames : UInt32)
    (fuel : Nat) (s : σ) : Option (Nat × σ) :=
  let (ret, s) := lib.reserve stockFrames (kernel 0 s)
  retryLoop lib kernel rcvd stockFrames fuel 1 ret s

/- The calls by number, as long as the loop goes on. -/

def asked (rcvd stockFrames : UInt32) : Nat → UInt32
  | 0 => stockFrames
  | _ + 1 => rcvd

def ringAt (lib : Reserving σ) (kernel : Nat → σ → σ) (rcvd stockFrames : UInt32) (s : σ) :
    Nat → σ
  | 0 => kernel 0 s
  | k + 1 => kernel (k + 1)
      (lib.reserve (asked rcvd stockFrames k) (ringAt lib kernel rcvd stockFrames s k)).2

def answer (lib : Reserving σ) (kernel : Nat → σ → σ) (rcvd stockFrames : UInt32) (s : σ)
    (k : Nat) : UInt32 × σ :=
  lib.reserve (asked rcvd stockFrames k) (ringAt lib kernel rcvd stockFrames s k)

/-- After the given number of failures the next call ends the loop, with exactly
    stock_frames entries reserved, all of which the submit that follows takes back. -/
def StocksAfter (lib : Reserving σ) (kernel : Nat → σ → σ) (rcvd stockFrames : UInt32) (s : σ)
    (failures : Nat) : Prop :=
  ∃ fuel t, reserveStock lib kernel rcvd stockFrames fuel s = some (failures + 1, t) ∧
    lib.reserved t = lib.reserved s + stockFrames.toNat ∧
    lib.reserved (lib.submit stockFrames t) = lib.reserved s

section calls
variable {lib : Reserving σ} {kernel : Peer lib} {rcvd stock : UInt32} {s : σ}

theorem failed_calls (ok : lib.ok s) {f : Nat}
    (failed : ∀ j, j < f → (answer lib kernel.move rcvd stock s j).1 = 0) :
    lib.ok (ringAt lib kernel.move rcvd stock s f) ∧
      lib.reserved (ringAt lib kernel.move rcvd stock s f) = lib.reserved s := by
  induction f with
  | zero => exact kernel.keeps 0 s ok
  | succ f ih =>
    obtain ⟨ok', same⟩ := ih fun j below => failed j (by omega)
    obtain ⟨next, outcome⟩ := lib.allOrNothing (asked rcvd stock f) _ ok'
    obtain ⟨after, kept⟩ := kernel.keeps (f + 1) _ next
    refine ⟨after, kept.trans ?_⟩
    have none := failed f (Nat.lt_succ_self f)
    rcases outcome with ⟨-, unchanged⟩ | ⟨all, more⟩
    · rw [unchanged, same]
    · have nothing : (asked rcvd stock f).toNat = 0 := by
        rw [← all]
        exact congrArg UInt32.toNat none
      rw [more, nothing, same, Nat.add_zero]

theorem loop_at (some_stock : 0 < stock) {f : Nat}
    (failed : ∀ j, j < f → (answer lib kernel.move rcvd stock s j).1 = 0) (fuel : Nat) :
    reserveStock lib kernel.move rcvd stock (fuel + f) s =
      retryLoop lib kernel.move rcvd stock fuel (f + 1)
        (answer lib kernel.move rcvd stock s f).1 (answer lib kernel.move rcvd stock s f).2 := by
  induction f generalizing fuel with
  | zero => rfl
  | succ f ih =>
    have again : (answer lib kernel.move rcvd stock s f).1 ≠ stock := by
      rw [failed f (Nat.lt_succ_self f)]
      exact UInt32.ne_of_lt some_stock
    have turn : fuel + (f + 1) = fuel + 1 + f := by omega
    rw [turn, ih (fun j below => failed j (by omega)) (fuel + 1), retryLoop, if_pos again]
    rfl

theorem stocks_of_asked (ok : lib.ok s) (some_stock : 0 < stock) {f : Nat}
    (failed : ∀ j, j < f → (answer lib kernel.move rcvd stock s j).1 = 0)
    (room : stock.toNat ≤ lib.free (ringAt lib kernel.move rcvd stock s f))
    (same : asked rcvd stock f = stock) :
    StocksAfter lib kernel.move rcvd stock s f := by
  obtain ⟨ok', kept⟩ := failed_calls ok failed
  have all := lib.enough stock _ ok' room
  have more := lib.of_some ok' some_stock all
  have ends : answer lib kernel.move rcvd stock s f =
      lib.reserve stock (ringAt lib kernel.move rcvd stock s f) := by
    rw [answer, same]
  have left := lib.submitted stock _ (lib.allOrNothing stock _ ok').1 (by omega)
  refine ⟨1 + f, (lib.reserve stock (ringAt lib kernel.move rcvd stock s f)).2, ?_, ?_, ?_⟩
  · rw [loop_at some_stock failed 1, ends, retryLoop, if_neg (not_not.mpr all)]
  · rw [more, kept]
  · have total := left.2
    omega

/-- A loop that asks for another number than it waits for never ends. -/
theorem retry_never_ends (ok : lib.ok s) (some_stock : 0 < stock) (differ : rcvd ≠ stock)
    (fuel calls : Nat) {ret : UInt32} (again : ret ≠ stock) :
    retryLoop lib kernel.move rcvd stock fuel calls ret s = none := by
  induction fuel generalizing s calls ret with
  | zero => rfl
  | succ fuel ih =>
    obtain ⟨before, -⟩ := kernel.keeps calls s ok
    obtain ⟨next, outcome⟩ := lib.allOrNothing rcvd _ before
    rw [retryLoop, if_pos again]
    apply ih next
    rcases outcome with ⟨none, -⟩ | ⟨all, -⟩
    · rw [none]
      exact UInt32.ne_of_lt some_stock
    · rw [all]
      exact differ

theorem never_stocks (ok : lib.ok s) (some_stock : 0 < stock) (differ : rcvd ≠ stock)
    (failed : (answer lib kernel.move rcvd stock s 0).1 = 0) (fuel : Nat) :
    reserveStock lib kernel.move rcvd stock fuel s = none := by
  obtain ⟨before, -⟩ := kernel.keeps 0 s ok
  obtain ⟨next, -⟩ := lib.allOrNothing stock _ before
  refine retry_never_ends next some_stock differ fuel 1 ?_
  change (answer lib kernel.move rcvd stock s 0).1 ≠ stock
  rw [failed]
  exact UInt32.ne_of_lt some_stock

/-- The loop does what its comment says exactly when the first call does not fail or the
    number asked for on a retry is the number waited for. -/
theorem stock_retry_iff (ok : lib.ok s) (some_stock : 0 < stock) {f : Nat}
    (failed : ∀ j, j < f → (answer lib kernel.move rcvd stock s j).1 = 0)
    (room : stock.toNat ≤ lib.free (ringAt lib kernel.move rcvd stock s f)) :
    StocksAfter lib kernel.move rcvd stock s f ↔ f = 0 ∨ rcvd = stock := by
  constructor
  · rintro ⟨fuel, t, ended, -⟩
    by_cases first : f = 0
    · exact Or.inl first
    · right
      by_contra differ
      rw [never_stocks ok some_stock differ (failed 0 (by omega)) fuel] at ended
      cases ended
  · intro right_request
    apply stocks_of_asked ok some_stock failed room
    cases f with
    | zero => rfl
    | succ f => exact right_request.resolve_left (Nat.succ_ne_zero f)

end calls

/- A full ring that the kernel empties before the second call. -/

def fullRing : Ring NUM_DESCS UInt64 := ⟨fun _ => 0, 2048, 0, 2048, 2048⟩

theorem fullRing_producing : fullRing.Producing := by
  change 2048 + 0 + 0 ≤ 2048
  omega

def emptied (r : Ring NUM_DESCS UInt64) : Ring NUM_DESCS UInt64 := { r with consumer := r.producer }

theorem emptied_producing {r : Ring NUM_DESCS UInt64} (ok : r.Producing) :
    (emptied r).Producing := by
  have none : (emptied r).used = 0 := by simp [emptied, Ring.used]
  unfold Ring.Producing at ok ⊢
  rw [none]
  change 0 + r.pending + r.room.toNat ≤ _
  omega

def emptiedOnRetry : Peer (Ring.reserving : Reserving (Ring NUM_DESCS UInt64)) where
  move k r := if k = 0 then r else emptied r
  keeps k r ok := by
    split
    · exact ⟨ok, rfl⟩
    · exact ⟨emptied_producing ok, rfl⟩

theorem stock_retry_when_equal :
    (answer Ring.reserving emptiedOnRetry.move 2 2 fullRing 0).1 = 0 ∧
      StocksAfter Ring.reserving emptiedOnRetry.move 2 2 fullRing 1 := by
  have failed : (answer Ring.reserving emptiedOnRetry.move 2 2 fullRing 0).1 = 0 := by decide
  refine ⟨failed, (stock_retry_iff fullRing_producing (by decide) ?_ (by decide)).mpr
    (Or.inr rfl)⟩
  intro j below
  rw [Nat.lt_one_iff.mp below]
  exact failed

/-- Two entries wanted, one packet received: the first call fails, the ring becomes empty,
    and the loop never ends. -/
theorem stock_retry_differs :
    fullRing.Producing ∧ (answer Ring.reserving emptiedOnRetry.move 1 2 fullRing 0).1 = 0 ∧
      (2 : UInt32).toNat ≤ Ring.reserving.free
        (ringAt Ring.reserving emptiedOnRetry.move 1 2 fullRing 1) ∧
      ¬ StocksAfter Ring.reserving emptiedOnRetry.move 1 2 fullRing 1 := by
  have failed : (answer Ring.reserving emptiedOnRetry.move 1 2 fullRing 0).1 = 0 := by decide
  refine ⟨fullRing_producing, failed, by decide, ?_⟩
  rintro ⟨fuel, t, ended, -⟩
  rw [never_stocks fullRing_producing (by decide) (by decide) failed fuel] at ended
  cases ended

/- The machine of the receive loop against the loop over the contract. -/

def Takes (r r' : Ring NUM_DESCS UInt64) : Prop :=
  Reached (fun q => q = r) (fun q q' => ∃ v, q.peerTake = some (v, q')) r'

theorem takes_run {s₀ s : System} (run : Reached (fun q => q = s₀) Step s)
    {fq : Ring NUM_DESCS UInt64} (taken : Takes s.xsk.fq fq) :
    ∃ t, Reached (fun q => q = s₀) Step t ∧ t.pc = s.pc ∧ t.xsk.fq = fq := by
  induction taken with
  | start begin =>
    subst begin
    exact ⟨s, run, rfl, rfl⟩
  | step before next ih =>
    obtain ⟨t, reached, pc, rfl⟩ := ih
    obtain ⟨v, taken⟩ := next
    exact ⟨kernelTake v _ t, Reached.step reached (Step.take taken), pc, rfl⟩

theorem retry_step (sendOk : Bool) {s : System} {rcvd idxRx stock idxFq ret : UInt32}
    (at_retrying : s.pc = .retrying rcvd idxRx stock idxFq ret) (again : ret ≠ stock) :
    (userStep sendOk s).xsk.fq = (s.xsk.fq.prodReserve rcvd 0).2.2 ∧
      (userStep sendOk s).pc = .retrying rcvd idxRx stock (s.xsk.fq.prodReserve rcvd idxFq).2.1
        (s.xsk.fq.prodReserve rcvd 0).1 := by
  obtain ⟨same, ring⟩ := Ring.prodReserve_idx rcvd idxFq s.xsk.fq
  unfold userStep
  rw [at_retrying]
  simp only [ne_eq, again, not_false_eq_true, if_true]
  rw [← same, ← ring]
  exact ⟨rfl, rfl⟩

theorem retryLoop_run {kernel : Nat → Ring NUM_DESCS UInt64 → Ring NUM_DESCS UInt64}
    (takes : ∀ k r, Takes r (kernel k r)) {rcvd idxRx stock : UInt32} {s₀ : System}
    {fuel calls calls' : Nat} {fq : Ring NUM_DESCS UInt64} {s : System} {idxFq ret : UInt32}
    (run : Reached (fun q => q = s₀) Step s)
    (at_retrying : s.pc = .retrying rcvd idxRx stock idxFq ret)
    (ended : retryLoop Ring.reserving kernel rcvd stock fuel calls ret s.xsk.fq =
      some (calls', fq)) :
    ∃ t idxFq', Reached (fun q => q = s₀) Step t ∧ t.pc = .filling rcvd idxRx stock idxFq' 0 ∧
      t.xsk.fq = fq := by
  induction fuel generalizing s idxFq ret calls with
  | zero => cases ended
  | succ fuel ih =>
    by_cases again : ret ≠ stock
    · rw [retryLoop, if_pos again] at ended
      obtain ⟨u, reached, pc, ring⟩ := takes_run run (takes calls s.xsk.fq)
      rw [at_retrying] at pc
      obtain ⟨ring', pc'⟩ := retry_step true pc again
      rw [ring] at ring' pc'
      have later : retryLoop Ring.reserving kernel rcvd stock fuel (calls + 1)
          ((kernel calls s.xsk.fq).prodReserve rcvd 0).1 (userStep true u).xsk.fq =
            some (calls', fq) := by
        rw [ring']
        exact ended
      exact ih (Reached.step reached (Step.user true u)) pc' later
    · rw [retryLoop, if_neg again] at ended
      obtain ⟨-, rfl⟩ := Prod.mk.inj (Option.some.inj ended)
      rw [not_not.mp again] at at_retrying
      have step := retrying_step true at_retrying
      exact ⟨_, idxFq, Reached.step run (Step.user true s), by rw [step], by rw [step]⟩

theorem retry_spins {s : System} {rcvd idxRx stock idxFq ret : UInt32} (some_stock : 0 < stock)
    (differ : rcvd ≠ stock) (at_retrying : s.pc = .retrying rcvd idxRx stock idxFq ret)
    (again : ret ≠ stock) {t : System} (run : Reached (fun q => q = s) Step t) :
    ∃ idxFq' ret', t.pc = .retrying rcvd idxRx stock idxFq' ret' ∧ ret' ≠ stock := by
  refine reached_invariant
    (fun t => ∃ idxFq' ret', t.pc = .retrying rcvd idxRx stock idxFq' ret' ∧ ret' ≠ stock) ?_ ?_ run
  · rintro t rfl
    exact ⟨idxFq, ret, at_retrying, again⟩
  · rintro t u ⟨idxFq', ret', pc, again'⟩ step
    cases step with
    | user sendOk =>
      refine ⟨_, _, (retry_step sendOk pc again').2, ?_⟩
      rcases Ring.prodReserve_answer rcvd 0 t.xsk.fq with none | all
      · rw [none]
        exact UInt32.ne_of_lt some_stock
      · rw [all]
        exact differ
    | take => exact ⟨idxFq', ret', pc, again'⟩
    | publish => exact ⟨idxFq', ret', pc, again'⟩

end XSKRetry
