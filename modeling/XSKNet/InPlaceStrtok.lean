import XSKNet.CStrings

/- strtok in memory. The string lies in an array of bytes; a call writes a terminator behind
   the token it finds and remembers where the next call goes on. -/
namespace CStrings

structure Scan where
  token : Option Nat
  next : Nat
  array : List UInt8
  written : Option Nat

def span (test : UInt8 → Bool) (array : List UInt8) (p : Nat) : Nat :=
  ((array.drop p).takeWhile test).length

def strtokAt (delim : UInt8) (array : List UInt8) (p : Nat) : Scan :=
  let start := p + span (fun b => decide (b = delim)) array p
  if array.getD start 0 = 0 then ⟨none, start, array, none⟩
  else
    let stop := start + span (fun b => decide (b ≠ delim ∧ b ≠ 0)) array start
    if array.getD stop 0 = 0 then ⟨some start, stop, array, none⟩
    else ⟨some start, stop + 1, array.set stop 0, some stop⟩

def StringAt (array : List UInt8) (p : Nat) (s rest : List UInt8) : Prop :=
  array.drop p = s ++ 0 :: rest

theorem drop_behind {array front back : List UInt8} {p : Nat}
    (here : array.drop p = front ++ back) : array.drop (p + front.length) = back := by
  rw [← List.drop_drop, here, List.drop_left]

theorem getD_of_drop {array back : List UInt8} {p : Nat} {b : UInt8}
    (here : array.drop p = b :: back) : array.getD p 0 = b := by
  have first := congrArg List.head? here
  rw [List.head?_drop, List.head?_cons] at first
  simp [first]

theorem span_eq {test : UInt8 → Bool} {array front back : List UInt8} {p : Nat} {b : UInt8}
    (here : array.drop p = front ++ b :: back) (pass : ∀ c ∈ front, test c = true)
    (stop : test b = false) : span test array p = front.length := by
  rw [span, here, List.takeWhile_append_of_pos pass, List.takeWhile_cons_of_neg (by simp [stop]),
    List.append_nil]

/- What the string looks like around its first token. -/

theorem strtok_none_iff {delim : UInt8} {s : List UInt8} :
    strtok delim s = none ↔ ∀ b ∈ s, b = delim := by
  unfold strtok
  dsimp only
  by_cases blank : s.dropWhile (fun b => decide (b = delim)) = []
  · rw [if_pos blank]
    simpa using List.dropWhile_eq_nil_iff.mp blank
  · rw [if_neg blank]
    constructor
    · intro impossible
      cases impossible
    · intro all
      exact absurd (List.dropWhile_eq_nil_iff.mpr (by simpa using all)) blank

theorem strtok_split {delim : UInt8} {s word left : List UInt8}
    (found : strtok delim s = some (word, left)) :
    ∃ front behind, s = front ++ (word ++ behind) ∧ (∀ b ∈ front, b = delim) ∧
      (behind = [] ∧ left = [] ∨ behind = delim :: left) := by
  have blanks := List.takeWhile_append_dropWhile (p := fun b => decide (b = delim)) (l := s)
  unfold strtok at found
  dsimp only at found
  generalize s.dropWhile (fun b => decide (b = delim)) = t at found blanks
  have parts := List.takeWhile_append_dropWhile (p := fun b => decide (b ≠ delim)) (l := t)
  have stop := List.head?_dropWhile_not (fun b => decide (b ≠ delim)) t
  split at found
  · cases found
  · obtain ⟨rfl, rfl⟩ := Prod.mk.inj (Option.some.inj found)
    refine ⟨s.takeWhile fun b => decide (b = delim), t.dropWhile fun b => decide (b ≠ delim),
      ?_, ?_, ?_⟩
    · rw [parts, blanks]
    · intro b member
      simpa using List.mem_takeWhile_imp member
    · cases behind : t.dropWhile (fun b => decide (b ≠ delim)) with
      | nil => exact Or.inl ⟨rfl, rfl⟩
      | cons b more =>
        rw [behind] at stop
        have mark : b = delim := by simpa using stop
        exact Or.inr (by rw [mark]; rfl)

/- The calls. -/

theorem strtokAt_none {delim : UInt8} {array s rest : List UInt8} {p : Nat} (mark : delim ≠ 0)
    (here : StringAt array p s rest) (found : strtok delim s = none) :
    strtokAt delim array p = ⟨none, p + s.length, array, none⟩ ∧
      StringAt array (p + s.length) [] rest := by
  have blank := strtok_none_iff.mp found
  have skipped : span (fun b => decide (b = delim)) array p = s.length :=
    span_eq here (by simpa using blank) (by simpa using mark.symm)
  have there := drop_behind here
  refine ⟨?_, there⟩
  unfold strtokAt
  simp only [skipped]
  rw [getD_of_drop there, if_pos rfl]

theorem strtokAt_scan {delim b : UInt8} {array front word back : List UInt8} {p : Nat}
    (here : array.drop p = front ++ (word ++ b :: back)) (blank : ∀ c ∈ front, c = delim)
    (nonempty : word ≠ []) (single : delim ∉ word) (noNul : (0 : UInt8) ∉ word)
    (stop : b = delim ∨ b = 0) :
    array.drop (p + front.length + word.length) = b :: back ∧ strtokAt delim array p =
      if b = 0 then
        ⟨some (p + front.length), p + front.length + word.length, array, none⟩
      else ⟨some (p + front.length), p + front.length + word.length + 1,
        array.set (p + front.length + word.length) 0, some (p + front.length + word.length)⟩ := by
  obtain ⟨first, more, rfl⟩ := List.exists_cons_of_ne_nil nonempty
  have not_delim : first ≠ delim := fun same => single (same ▸ List.mem_cons_self)
  have nonzero : first ≠ 0 := fun zero => noNul (zero ▸ List.mem_cons_self)
  have skipped : span (fun c => decide (c = delim)) array p = front.length :=
    span_eq here (by simpa using blank) (by simpa using not_delim)
  have there := drop_behind here
  have behind := drop_behind there
  have inside : ∀ c ∈ first :: more, decide (c ≠ delim ∧ c ≠ 0) = true := by
    intro c member
    have other : c ≠ delim := fun same => single (same ▸ member)
    have not_zero : c ≠ 0 := fun zero => noNul (zero ▸ member)
    simp [other, not_zero]
  have stopped : span (fun c => decide (c ≠ delim ∧ c ≠ 0)) array (p + front.length) =
      (first :: more).length := by
    apply span_eq there inside
    rcases stop with rfl | rfl
    · simp
    · simp
  refine ⟨behind, ?_⟩
  unfold strtokAt
  simp only [skipped, stopped, getD_of_drop there, nonzero, getD_of_drop behind, if_false]

/-- A token is left in place with its own terminator, the one byte written lies behind p and
    inside the string, and the next call goes on with the rest of the string. -/
theorem strtokAt_some {delim : UInt8} {array s rest word left : List UInt8} {p : Nat}
    (mark : delim ≠ 0) (here : StringAt array p s rest) (noNul : (0 : UInt8) ∉ s)
    (found : strtok delim s = some (word, left)) :
    ∃ start tail r, strtokAt delim array p = r ∧ r.token = some start ∧
      StringAt r.array start word tail ∧ StringAt r.array r.next left rest ∧
      start + word.length ≤ r.next ∧ r.next + left.length ≤ p + s.length ∧
      ((r.written = none ∧ r.array = array) ∨ ∃ i, r.written = some i ∧ p < i ∧
        i < p + s.length ∧ r.array = array.set i 0) := by
  obtain ⟨nonempty, single, -, -⟩ := strtok_token found
  obtain ⟨front, behind, rfl, blank, ends⟩ := strtok_split found
  have some_word : 0 < word.length := List.length_pos_iff.mpr nonempty
  have noNul' : (0 : UInt8) ∉ word := fun zero =>
    noNul (List.mem_append_right _ (List.mem_append_left _ zero))
  unfold StringAt at here
  rw [List.append_assoc, List.append_assoc] at here
  rcases ends with ⟨rfl, rfl⟩ | rfl
  · obtain ⟨finish, scanned⟩ := strtokAt_scan here blank nonempty single noNul' (Or.inr rfl)
    rw [if_pos rfl] at scanned
    refine ⟨p + front.length, rest, _, scanned, rfl, drop_behind here, finish, Nat.le_refl _, ?_,
      Or.inl ⟨rfl, rfl⟩⟩
    simp only [List.length_append, List.length_nil]
    omega
  · obtain ⟨finish, scanned⟩ := strtokAt_scan here blank nonempty single noNul' (Or.inl rfl)
    rw [if_neg mark] at scanned
    refine ⟨p + front.length, left ++ 0 :: rest, _, scanned, rfl, ?_, ?_, Nat.le_succ _, ?_,
      Or.inr ⟨_, rfl, ?_, ?_, rfl⟩⟩
    · unfold StringAt
      rw [List.drop_set, if_neg (by omega), drop_behind here, Nat.add_sub_cancel_left,
        List.set_append_right _ _ (Nat.le_refl _), Nat.sub_self]
      rfl
    · unfold StringAt
      rw [List.drop_set_of_lt (Nat.lt_add_one _), ← List.drop_drop, finish]
      rfl
    · simp only [List.length_append, List.length_cons]
      omega
    · omega
    · simp only [List.length_append, List.length_cons]
      omega

theorem StringAt.set {array word tail : List UInt8} {p i : Nat} (here : StringAt array p word tail)
    (behind : p + word.length < i) (b : UInt8) :
    ∃ tail', StringAt (array.set i b) p word tail' := by
  obtain ⟨k, rfl⟩ : ∃ k, i = p + word.length + (k + 1) := ⟨i - p - word.length - 1, by omega⟩
  refine ⟨tail.set k b, ?_⟩
  unfold StringAt at here ⊢
  have offset : p + word.length + (k + 1) - p = word.length + (k + 1) := by omega
  rw [List.drop_set, if_neg (by omega), here, offset, List.set_append_right _ _ (by omega),
    Nat.add_sub_cancel_left, List.set_cons_succ]

end CStrings
