import Mathlib.Data.List.Basic
import Mathlib.Data.List.TakeWhile
import Mathlib.Tactic.Common

/- NUL-terminated strings. A string is the bytes before its terminator; truncating
   copies and formatted writes keep a prefix that fits the destination array. -/
namespace CStrings

structure CString where
  bytes : List UInt8
  noNul : (0 : UInt8) ∉ bytes
  deriving DecidableEq

def ascii (s : String) : List UInt8 := s.toList.map Char.toUInt8

-- Decided along the list, never over all 256 bytes.
instance decidableForallBytes (w : List UInt8) (P : UInt8 → Prop) [DecidablePred P] :
    Decidable (∀ b ∈ w, P b) :=
  List.decidableBAll P w

namespace CString

@[ext] theorem ext_bytes {s t : CString} (same : s.bytes = t.bytes) : s = t := by
  cases s
  cases t
  cases same
  rfl

def empty : CString := ⟨[], by simp⟩

def length (s : CString) : Nat := s.bytes.length

def ofArray (array : List UInt8) : CString where
  bytes := array.takeWhile (fun b => decide (b ≠ 0))
  noNul member := by simpa using List.mem_takeWhile_imp member

def append (s t : CString) : CString where
  bytes := s.bytes ++ t.bytes
  noNul member := by
    rcases List.mem_append.mp member with left | right
    · exact s.noNul left
    · exact t.noNul right

def truncate (n : Nat) (s : CString) : CString where
  bytes := s.bytes.take n
  noNul member := s.noNul (List.mem_of_mem_take member)

/-- snprintf of the concatenated pieces into an array of size bytes. -/
def snprintf (size : Nat) (pieces : List CString) : CString :=
  (pieces.foldr append empty).truncate (size - 1)

@[simp] theorem append_bytes (s t : CString) : (s.append t).bytes = s.bytes ++ t.bytes := rfl

@[simp] theorem truncate_bytes (n : Nat) (s : CString) :
    (s.truncate n).bytes = s.bytes.take n := rfl

theorem ofArray_bytes {array : List UInt8} (noNul : (0 : UInt8) ∉ array) :
    (ofArray array).bytes = array := by
  apply List.takeWhile_eq_self_iff.mpr
  intro b member
  have nonzero : b ≠ 0 := fun zero => noNul (zero ▸ member)
  simpa using nonzero

theorem truncate_length_le (n : Nat) (s : CString) : (s.truncate n).length ≤ n :=
  List.length_take_le n s.bytes

theorem truncate_eq_self {n : Nat} {s : CString} (fits : s.length ≤ n) : s.truncate n = s := by
  ext1
  exact List.take_of_length_le fits

theorem snprintf_bytes (size : Nat) (pieces : List CString) :
    (snprintf size pieces).bytes = ((pieces.map bytes).flatten).take (size - 1) := by
  have joined : (pieces.foldr append empty).bytes = (pieces.map bytes).flatten := by
    induction pieces with
    | nil => rfl
    | cons s rest ih => simp [ih]
  rw [snprintf, truncate_bytes, joined]

theorem snprintf_truncate (n : Nat) (s suffix : CString) :
    snprintf (n + 1) [s.truncate n, suffix] = snprintf (n + 1) [s, suffix] := by
  ext1
  simp only [snprintf_bytes, List.map_cons, List.map_nil, List.flatten_cons, List.flatten_nil,
    List.append_nil, truncate_bytes, Nat.add_sub_cancel]
  rw [List.take_append, List.take_append, List.take_take, List.length_take, Nat.min_self]
  congr 2
  omega

end CString

/- Strings in arrays. -/

/-- At most n bytes of the string in src, padded with zero bytes up to n; what lies behind
    them in dst stays. -/
def strncpy (dst src : List UInt8) (n : Nat) : List UInt8 :=
  let copied := (CString.ofArray src).bytes.take n
  copied ++ List.replicate (n - copied.length) 0 ++ dst.drop n

def HoldsString (array : List UInt8) (s : CString) : Prop :=
  ∃ rest, array = s.bytes ++ 0 :: rest

theorem ofArray_append (s : CString) (tail : List UInt8) :
    (CString.ofArray (s.bytes ++ tail)).bytes = s.bytes ++ (CString.ofArray tail).bytes := by
  apply List.takeWhile_append_of_pos
  intro b member
  have nonzero : b ≠ 0 := fun zero => s.noNul (zero ▸ member)
  simpa using nonzero

theorem ofArray_terminated (s : CString) (tail : List UInt8) :
    CString.ofArray (s.bytes ++ 0 :: tail) = s := by
  ext1
  rw [ofArray_append]
  simp [CString.ofArray]

theorem holdsString_iff {array : List UInt8} (terminated : (0 : UInt8) ∈ array) (s : CString) :
    HoldsString array s ↔ CString.ofArray array = s := by
  constructor
  · rintro ⟨rest, rfl⟩
    exact ofArray_terminated s rest
  · rintro rfl
    have whole := List.takeWhile_append_dropWhile (p := fun b : UInt8 => decide (b ≠ 0)) (l := array)
    cases behind : array.dropWhile (fun b : UInt8 => decide (b ≠ 0)) with
    | nil =>
      rw [behind, List.append_nil] at whole
      rw [← whole] at terminated
      exact absurd terminated (CString.ofArray array).noNul
    | cons b rest =>
      have stop := List.head?_dropWhile_not (fun b : UInt8 => decide (b ≠ 0)) array
      rw [behind] at stop
      have zero : b = 0 := by simpa using stop
      rw [behind, zero] at whole
      exact ⟨rest, whole.symm⟩

theorem not_holdsString {array : List UInt8} (unterminated : (0 : UInt8) ∉ array)
    (s : CString) : ¬ HoldsString array s := by
  rintro ⟨rest, rfl⟩
  exact unterminated (by simp)

theorem strncpy_short (dst : List UInt8) {src : List UInt8} {n : Nat}
    (short : (CString.ofArray src).length < n) :
    HoldsString (strncpy dst src n) (CString.ofArray src) := by
  obtain ⟨k, gap⟩ : ∃ k, n - (CString.ofArray src).bytes.length = k + 1 :=
    ⟨n - (CString.ofArray src).length - 1, by unfold CString.length at short ⊢; omega⟩
  refine ⟨List.replicate k 0 ++ dst.drop n, ?_⟩
  unfold strncpy
  rw [List.take_of_length_le (Nat.le_of_lt short)]
  dsimp only
  rw [gap, List.replicate_succ]
  simp

/-- A copy cut at n bytes goes on with what the destination holds behind them. -/
theorem strncpy_long (dst : List UInt8) {src : List UInt8} {n : Nat}
    (long : n ≤ (CString.ofArray src).length) :
    strncpy dst src n = (CString.ofArray src).bytes.take n ++ dst.drop n := by
  have cut : ((CString.ofArray src).bytes.take n).length = n := List.length_take_of_le long
  unfold strncpy
  dsimp only
  rw [cut, Nat.sub_self]
  simp

theorem strncpy_holds_iff {dst src : List UInt8} {n : Nat} {s : CString}
    (whole : dst.length = n) (fits : s.length < n) :
    HoldsString (strncpy dst src n) s ↔ CString.ofArray src = s := by
  by_cases short : (CString.ofArray src).length < n
  · have holds := strncpy_short dst short
    obtain ⟨rest, array⟩ := holds
    have terminated : (0 : UInt8) ∈ strncpy dst src n := by simp [array]
    rw [holdsString_iff terminated, array, ofArray_terminated]
  · have long := Nat.le_of_not_lt short
    rw [strncpy_long dst long, List.drop_of_length_le (Nat.le_of_eq whole), List.append_nil]
    constructor
    · intro holds
      exact absurd holds (not_holdsString ((CString.ofArray src).truncate n).noNul s)
    · intro same
      rw [same] at long
      omega

theorem strncpy_guarded {dst src rest : List UInt8} {n : Nat} (guard : dst.drop n = 0 :: rest) :
    CString.ofArray (strncpy dst src n) = (CString.ofArray src).truncate n := by
  by_cases short : (CString.ofArray src).length < n
  · obtain ⟨tail, array⟩ := strncpy_short dst short
    rw [array, ofArray_terminated, CString.truncate_eq_self (Nat.le_of_lt short)]
  · rw [strncpy_long dst (Nat.le_of_not_lt short), guard]
    exact ofArray_terminated ((CString.ofArray src).truncate n) rest

/- Arrays of a fixed size. -/

structure CharArray (n : Nat) where
  bytes : List UInt8
  size : bytes.length = n

namespace CharArray
variable {n : Nat}

def read (a : CharArray n) : CString := CString.ofArray a.bytes

/-- snprintf into the whole array; what lies behind the terminator stays. -/
def snprintf (a : CharArray (n + 1)) (pieces : List CString) : CharArray (n + 1) where
  bytes := (CString.snprintf (n + 1) pieces).bytes ++
    0 :: a.bytes.drop ((CString.snprintf (n + 1) pieces).length + 1)
  size := by
    have cut : (CString.snprintf (n + 1) pieces).length ≤ n := CString.truncate_length_le n _
    have whole := a.size
    unfold CString.length at cut ⊢
    simp only [List.length_append, List.length_cons, List.length_drop]
    omega

/-- strncpy of the string in src to all but the last byte, which becomes zero. -/
def copyGuarded (a : CharArray (n + 1)) (src : List UInt8) : CharArray (n + 1) where
  bytes := (strncpy a.bytes src n).set n 0
  size := by
    have whole := a.size
    simp only [strncpy, List.length_set, List.length_append, List.length_replicate,
      List.length_drop, List.length_take]
    omega

@[simp] theorem read_snprintf (a : CharArray (n + 1)) (pieces : List CString) :
    (a.snprintf pieces).read = CString.snprintf (n + 1) pieces :=
  ofArray_terminated _ _

@[simp] theorem read_copyGuarded (a : CharArray (n + 1)) (src : List UInt8) :
    (a.copyGuarded src).read = (CString.ofArray src).truncate n := by
  have copied : ((CString.ofArray src).bytes.take n ++
      List.replicate (n - ((CString.ofArray src).bytes.take n).length) 0).length = n := by
    simp only [List.length_append, List.length_replicate, List.length_take]
    omega
  obtain ⟨last, behind⟩ : ∃ last, a.bytes.drop n = [last] := by
    rw [← List.length_eq_one_iff, List.length_drop, a.size]
    omega
  have guard : (a.bytes.set n 0).drop n = [0] := by
    rw [List.drop_set, if_neg (Nat.lt_irrefl n), Nat.sub_self, behind]
    rfl
  have same : (strncpy a.bytes src n).set n 0 = strncpy (a.bytes.set n 0) src n := by
    unfold strncpy
    dsimp only
    rw [List.set_append_right _ _ (Nat.le_of_eq copied), copied, Nat.sub_self, behind, guard]
    rfl
  change CString.ofArray ((strncpy a.bytes src n).set n 0) = _
  rw [same]
  exact strncpy_guarded guard

end CharArray

/- Names with a marker. Two names built as stem, marker, suffix and cut at n bytes
   agree only if their stems do, provided the marker survives the cut. -/

theorem take_marked_length_le {α : Type} {m : α} {a b s t : List α} {n : Nat}
    (hb : b.length < n) (hs : m ∉ s)
    (same : (a ++ m :: s).take n = (b ++ m :: t).take n) : b.length ≤ a.length := by
  by_contra less
  have marker : ((b ++ m :: t).take n)[b.length]? = some m := by
    simp [hb]
  rw [← same, List.getElem?_take, if_pos hb, List.getElem?_append_right (by omega)] at marker
  obtain ⟨k, gap⟩ : ∃ k, b.length - a.length = k + 1 := ⟨b.length - a.length - 1, by omega⟩
  rw [gap, List.getElem?_cons_succ] at marker
  exact hs (List.mem_of_getElem? marker)

theorem take_marked_inj {α : Type} {m : α} {a b s t : List α} {n : Nat}
    (ha : a.length < n) (hb : b.length < n) (hs : m ∉ s) (ht : m ∉ t)
    (same : (a ++ m :: s).take n = (b ++ m :: t).take n) :
    a = b ∧ s.take (n - a.length - 1) = t.take (n - a.length - 1) := by
  have le := take_marked_length_le hb hs same
  have ge := take_marked_length_le ha ht same.symm
  have size : a.length = b.length := by omega
  have stems : a = b := by
    have cut := congrArg (List.take a.length) same
    rw [List.take_take, List.take_take, Nat.min_eq_left (by omega)] at cut
    rwa [List.take_left, size, List.take_left] at cut
  refine ⟨stems, ?_⟩
  subst stems
  rw [List.take_append, List.take_append, List.append_cancel_left_eq] at same
  obtain ⟨k, gap⟩ : ∃ k, n - a.length = k + 1 := ⟨n - a.length - 1, by omega⟩
  rw [gap, List.take_succ_cons, List.take_succ_cons] at same
  rw [gap, Nat.add_sub_cancel]
  exact (List.cons.inj same).2

/- strtok with one delimiter. -/

def strtok (delim : UInt8) (s : List UInt8) : Option (List UInt8 × List UInt8) :=
  let start := s.dropWhile (fun b => decide (b = delim))
  if start = [] then none
  else
    let token := start.takeWhile (fun b => decide (b ≠ delim))
    some (token, (start.dropWhile (fun b => decide (b ≠ delim))).drop 1)

theorem word_pass {delim : UInt8} {w : List UInt8} (clean : delim ∉ w) :
    ∀ b ∈ w, decide (b = delim) = false := by
  intro b member
  have differ : b ≠ delim := fun same => clean (same ▸ member)
  simpa using differ

theorem word_kept {delim : UInt8} {w : List UInt8} (clean : delim ∉ w) :
    ∀ b ∈ w, decide (b ≠ delim) = true := by
  intro b member
  simpa using word_pass clean b member

theorem word_starts {delim : UInt8} {w : List UInt8} (nonempty : w ≠ []) (clean : delim ∉ w)
    (rest : List UInt8) : (w ++ rest).dropWhile (fun b => decide (b = delim)) = w ++ rest := by
  cases w with
  | nil => exact absurd rfl nonempty
  | cons b tail => simp [word_pass clean b List.mem_cons_self]

theorem strtok_word {delim : UInt8} {w : List UInt8} (nonempty : w ≠ []) (clean : delim ∉ w)
    (rest : List UInt8) : strtok delim (w ++ delim :: rest) = some (w, rest) := by
  have front : (w ++ delim :: rest).takeWhile (fun b => decide (b ≠ delim)) = w := by
    rw [List.takeWhile_append_of_pos (word_kept clean)]
    simp
  have back : (w ++ delim :: rest).dropWhile (fun b => decide (b ≠ delim)) = delim :: rest := by
    rw [List.dropWhile_append_of_pos (word_kept clean)]
    simp
  unfold strtok
  dsimp only
  rw [word_starts nonempty clean, front, back, if_neg (by simp [nonempty])]
  rfl

theorem strtok_whole {delim : UInt8} {w : List UInt8} (clean : delim ∉ w) :
    strtok delim w = if w = [] then none else some (w, []) := by
  by_cases empty : w = []
  · rw [empty]
    rfl
  · have start := word_starts empty clean []
    rw [List.append_nil] at start
    unfold strtok
    dsimp only
    rw [start, List.takeWhile_eq_self_iff.mpr (word_kept clean),
      List.dropWhile_eq_nil_iff.mpr (word_kept clean)]
    rfl

theorem strtok_token {delim : UInt8} {s token rest : List UInt8}
    (found : strtok delim s = some (token, rest)) :
    token ≠ [] ∧ delim ∉ token ∧ token ⊆ s ∧ rest ⊆ s := by
  unfold strtok at found
  dsimp only at found
  split at found
  · cases found
  · rename_i some_left
    obtain ⟨rfl, rfl⟩ := Prod.mk.inj (Option.some.inj found)
    have suffix : s.dropWhile (fun b => decide (b = delim)) ⊆ s :=
      (List.dropWhile_suffix _).subset
    refine ⟨?_, ?_, ?_, ?_⟩
    · cases start : s.dropWhile (fun b => decide (b = delim)) with
      | nil => exact absurd start some_left
      | cons first more =>
        have head : first ≠ delim := by
          have stop := List.head_dropWhile_not (p := fun b => decide (b = delim)) (l := s)
            (by rw [start]; simp)
          simpa [start] using stop
        simp [head]
    · intro member
      simpa using List.mem_takeWhile_imp member
    · exact fun b member => suffix (List.takeWhile_subset _ member)
    · exact fun b member =>
        suffix ((List.dropWhile_suffix _).subset (List.mem_of_mem_drop member))

/- The words between delimiters, which strtok takes off one by one. -/

def fields (delim : UInt8) (s : List UInt8) : List (List UInt8) :=
  (s.splitOnP fun b => decide (b = delim)).filter fun w => decide (w ≠ [])

def payload (delim : UInt8) (s : List UInt8) : Nat := s.countP fun b => decide (b ≠ delim)

theorem fields_delim (delim : UInt8) (s : List UInt8) :
    fields delim (delim :: s) = fields delim s := by
  have split : (delim :: s).splitOnP (fun b => decide (b = delim)) =
      [] :: s.splitOnP fun b => decide (b = delim) :=
    List.splitOnP_append_cons_of_forall_mem (word_pass List.not_mem_nil) delim (by simp) s
  simp [fields, split]

theorem fields_word {delim : UInt8} {w : List UInt8} (nonempty : w ≠ []) (clean : delim ∉ w)
    (s : List UInt8) : fields delim (w ++ delim :: s) = w :: fields delim s := by
  have split := List.splitOnP_append_cons_of_forall_mem (word_pass clean) delim (by simp) s
  simp [fields, split, nonempty]

theorem fields_whole {delim : UInt8} {w : List UInt8} (clean : delim ∉ w) :
    fields delim w = if w = [] then [] else [w] := by
  have split := List.splitOnP_eq_singleton (word_pass clean)
  by_cases empty : w = []
  · simp [fields, empty]
  · simp [fields, split, empty]

theorem fields_dropWhile (delim : UInt8) (s : List UInt8) :
    fields delim (s.dropWhile fun b => decide (b = delim)) = fields delim s := by
  induction s with
  | nil => rfl
  | cons b s ih =>
    by_cases blank : b = delim
    · rw [List.dropWhile_cons_of_pos (by simpa using blank), ih, blank, fields_delim]
    · rw [List.dropWhile_cons_of_neg (by simpa using blank)]

theorem strtok_fields (delim : UInt8) (s : List UInt8) :
    match strtok delim s with
    | none => fields delim s = []
    | some (token, rest) => fields delim s = token :: fields delim rest := by
  unfold strtok
  dsimp only
  rw [← fields_dropWhile delim s]
  generalize start : s.dropWhile (fun b => decide (b = delim)) = t
  by_cases empty : t = []
  · simp [empty, fields]
  · rw [if_neg empty]
    dsimp only
    have head : t.takeWhile (fun b => decide (b ≠ delim)) ≠ [] := by
      cases t with
      | nil => exact absurd rfl empty
      | cons b tail =>
        have stop := List.head_dropWhile_not (p := fun b => decide (b = delim)) (l := s)
          (by rw [start]; simp)
        have differ : b ≠ delim := by simpa [start] using stop
        simp [differ]
    have clean : delim ∉ t.takeWhile (fun b => decide (b ≠ delim)) := by
      intro member
      simpa using List.mem_takeWhile_imp member
    have whole := List.takeWhile_append_dropWhile (p := fun b => decide (b ≠ delim)) (l := t)
    cases rest : t.dropWhile (fun b => decide (b ≠ delim)) with
    | nil =>
      rw [rest, List.append_nil] at whole
      rw [whole] at head clean ⊢
      rw [fields_whole clean, if_neg head]
      rfl
    | cons b tail =>
      have stop := List.head?_dropWhile_not (fun b => decide (b ≠ delim)) t
      rw [rest] at stop
      have delimiter : b = delim := by simpa using stop
      rw [rest, delimiter] at whole
      conv_lhs => rw [← whole]
      rw [fields_word head clean]
      rfl

theorem mem_fields_ne_nil {delim : UInt8} {s w : List UInt8} (member : w ∈ fields delim s) :
    w ≠ [] := by
  simpa using (List.mem_filter.mp member).2

theorem payload_fields (delim : UInt8) (s : List UInt8) :
    payload delim s = (fields delim s).flatten.length := by
  have kept : ∀ l : List (List UInt8), (l.filter fun w => decide (w ≠ [])).flatten = l.flatten := by
    intro l
    induction l with
    | nil => rfl
    | cons w rest ih =>
      by_cases empty : w = []
      · rw [List.filter_cons_of_neg (by simpa using empty), ih, empty]
        rfl
      · rw [List.filter_cons_of_pos (by simpa using empty), List.flatten_cons, ih,
          List.flatten_cons]
  rw [fields, kept]
  induction s with
  | nil => rfl
  | cons b s ih =>
    rw [List.splitOnP_cons_eq_if_modifyHead]
    by_cases blank : b = delim
    · rw [if_pos (by simpa using blank), List.flatten_cons, List.nil_append, ← ih]
      simp [payload, blank]
    · obtain ⟨first, more, split⟩ := List.exists_cons_of_ne_nil
        (List.splitOnP_ne_nil (fun b => decide (b = delim)) s)
      rw [split, List.flatten_cons, List.length_append] at ih
      rw [if_neg (by simpa using blank), split, List.modifyHead_cons, List.flatten_cons,
        List.length_append, List.length_cons]
      simp only [payload, ne_eq, blank, not_false_eq_true, decide_true,
        List.countP_cons_of_pos] at ih ⊢
      omega

end CStrings
