import XSKNet.CommandSocket
import XSKNet.InPlaceStrtok

/- handle_client on the bytes of its two arrays. The memory modelled is buffer and the one
   byte behind it, which a read of the full size overwrites with the terminator. -/
namespace XSKClientBuffer
open CStrings XSKPorts XSKCommandSocket

/-- What one turn of the read loop does with memory: buffer[i] written, a pointer handed to
    strcmp, strcpy or a command handler with the array it points into (none is the null
    pointer), and the number of bytes that strcpy puts into data. -/
inductive Use where
  | write (i : Nat)
  | pointer (array : List UInt8) (p : Option Nat)
  | copy (size : Nat)
  deriving DecidableEq

def Use.Safe : Use → Prop
  | .write i => i < CMD_SIZE
  | .pointer array p => ∃ off, p = some off ∧ (0 : UInt8) ∈ array.drop off
  | .copy size => size ≤ CMD_SIZE

def literal (s : CString) : List UInt8 := s.bytes ++ [0]

def emptyData : List UInt8 := List.replicate CMD_SIZE 0

def strcpy (dst src : List UInt8) : List UInt8 :=
  let copied := (CString.ofArray src).bytes ++ [0]
  copied ++ dst.drop copied.length

/-- The memory behind the two strtok calls, with the pointers they return and the indices
    that were written up to then. -/
structure Parsed where
  memory : List UInt8
  command : Option Nat
  possibleData : Option Nat
  written : List Nat

def parseBuffer (old bytes : List UInt8) : Parsed :=
  let buffer := bytes ++ old.drop bytes.length
  let buffer := buffer.set bytes.length 0
  let first := strtokAt 32 buffer 0
  let second := strtokAt 32 first.array first.next
  ⟨second.array, first.token, second.token,
    bytes.length :: (first.written.toList ++ second.written.toList)⟩

def copiedData (s : Parsed) : List UInt8 :=
  match s.possibleData with
  | some p => strcpy emptyData (s.memory.drop p)
  | none => emptyData

def handlerUses (s : Parsed) (command : Nat) : List CString → List Use
  | [] => []
  | name :: rest =>
    [.pointer (s.memory.take CMD_SIZE) (some command), .pointer (literal name) (some 0)] ++
      if CString.ofArray (s.memory.drop command) = name then [.pointer (copiedData s) (some 0)]
      else handlerUses s command rest

def copyUses (s : Parsed) : List Use :=
  match s.possibleData with
  | some p =>
    [.pointer emptyData (some 0), .pointer (s.memory.take CMD_SIZE) (some p),
      .copy ((CString.ofArray (s.memory.drop p)).length + 1)]
  | none => []

def commandUses (s : Parsed) : List Use :=
  match s.command with
  | none => []
  | some command =>
    if CString.ofArray (s.memory.drop command) = getPhyIfCommand then []
    else handlerUses s command (commands.map Prod.fst)

def handleClientUses (old bytes : List UInt8) : List Use :=
  let s := parseBuffer old bytes
  s.written.map .write ++ (copyUses s ++
    ([.pointer (s.memory.take CMD_SIZE) s.command, .pointer (literal getPhyIfCommand) (some 0)] ++
      commandUses s))

/- The two calls of strtok. -/

theorem blank_ne_nul : (32 : UInt8) ≠ 0 := by decide

theorem ofArray_stop (bytes tail : List UInt8) :
    CString.ofArray (bytes ++ 0 :: tail) = CString.ofArray bytes := by
  ext1
  induction bytes with
  | nil => simp [CString.ofArray]
  | cons b bytes ih =>
    by_cases zero : b = 0
    · simp [CString.ofArray, zero]
    · simpa [CString.ofArray, zero] using ih

theorem ofArray_stringAt {array word tail : List UInt8} {p : Nat}
    (here : StringAt array p word tail) :
    CString.ofArray (array.drop p) = CString.ofArray word := by
  rw [here, ofArray_stop]

theorem read_string {old bytes : List UInt8} (room : bytes.length < old.length) :
    ∃ rest, StringAt ((bytes ++ old.drop bytes.length).set bytes.length 0) 0
      (CString.ofArray bytes).bytes rest := by
  have array : (bytes ++ old.drop bytes.length).set bytes.length 0 =
      bytes ++ 0 :: old.drop (bytes.length + 1) := by
    rw [List.set_append_right _ _ (Nat.le_refl _), Nat.sub_self, List.drop_eq_getElem_cons room,
      List.set_cons_zero]
  rw [array, ← ofArray_stop bytes (old.drop (bytes.length + 1))]
  exact (holdsString_iff (by simp) _).mpr rfl

theorem parsed_none {old bytes : List UInt8} (room : bytes.length < old.length)
    (blank : strtok 32 (CString.ofArray bytes).bytes = none) :
    (parseBuffer old bytes).command = none ∧ (parseBuffer old bytes).possibleData = none ∧
      (parseBuffer old bytes).written = [bytes.length] := by
  obtain ⟨rest, here⟩ := read_string room
  obtain ⟨first, there⟩ := strtokAt_none blank_ne_nul here blank
  obtain ⟨second, -⟩ := strtokAt_none blank_ne_nul there rfl
  simp only [parseBuffer, first, second]
  exact ⟨trivial, trivial, rfl⟩

theorem string_length_le (bytes : List UInt8) :
    (CString.ofArray bytes).bytes.length ≤ bytes.length :=
  (List.takeWhile_sublist _).length_le

theorem written_le {r : Scan} {array array' : List UInt8} {p end_ n : Nat}
    (wrote : (r.written = none ∧ array' = array) ∨
      ∃ i, r.written = some i ∧ p < i ∧ i < end_ ∧ array' = array.set i 0)
    (inside : end_ ≤ n) : ∀ i ∈ r.written.toList, i ≤ n := by
  intro i member
  rcases wrote with ⟨none, -⟩ | ⟨j, some_j, -, below, -⟩
  · rw [none] at member
    cases member
  · rw [some_j] at member
    rw [List.mem_singleton.mp member]
    omega

theorem parsed_some {old bytes word left : List UInt8} (room : bytes.length < old.length)
    (found : strtok 32 (CString.ofArray bytes).bytes = some (word, left)) :
    ∃ s start tail, parseBuffer old bytes = s ∧ s.command = some start ∧
      StringAt s.memory start word tail ∧ start + word.length ≤ bytes.length ∧
      (∀ i ∈ s.written, i ≤ bytes.length) ∧
      match strtok 32 left with
      | none => s.possibleData = none
      | some (data, _) => ∃ p tail', s.possibleData = some p ∧
          StringAt s.memory p data tail' ∧ p + data.length ≤ bytes.length := by
  obtain ⟨rest, here⟩ := read_string room
  have inside := string_length_le bytes
  obtain ⟨start, tail, r, first, token, command, there, ends, within, wrote⟩ :=
    strtokAt_some blank_ne_nul here (CString.ofArray bytes).noNul found
  have left_noNul : (0 : UInt8) ∉ left := fun zero =>
    (CString.ofArray bytes).noNul ((strtok_token found).2.2.2 zero)
  have early : ∀ i ∈ r.written.toList, i ≤ bytes.length :=
    written_le wrote (by omega)
  cases next : strtok 32 left with
  | none =>
    obtain ⟨second, -⟩ := strtokAt_none blank_ne_nul there next
    refine ⟨_, start, tail, rfl, ?_⟩
    simp only [parseBuffer, first, second]
    refine ⟨token, command, by omega, ?_, trivial⟩
    intro i member
    rcases List.mem_cons.mp member with rfl | more
    · exact Nat.le_refl _
    · exact early i (by simpa using more)
  | some pair =>
    obtain ⟨data, left'⟩ := pair
    obtain ⟨p, tail', r', second, token', data', -, ends', within', wrote'⟩ :=
      strtokAt_some blank_ne_nul there left_noNul next
    obtain ⟨tail'', kept⟩ : ∃ tail'', StringAt r'.array start word tail'' := by
      rcases wrote' with ⟨-, same⟩ | ⟨i, -, behind, -, same⟩
      · exact ⟨tail, same ▸ command⟩
      · rw [same]
        exact command.set (by omega) 0
    refine ⟨_, start, tail'', rfl, ?_⟩
    simp only [parseBuffer, first, second]
    refine ⟨token, kept, by omega, ?_, p, tail', token', data', by omega⟩
    intro i member
    rcases List.mem_cons.mp member with rfl | more
    · exact Nat.le_refl _
    · rcases List.mem_append.mp more with one | two
      · exact early i one
      · exact written_le wrote' (by omega) i two

/- The strings that come out of them. -/

theorem copiedData_some {s : Parsed} {p : Nat} {data tail : List UInt8}
    (found : s.possibleData = some p) (here : StringAt s.memory p data tail) :
    CString.ofArray (copiedData s) = CString.ofArray data ∧ (0 : UInt8) ∈ copiedData s := by
  have array : copiedData s = (CString.ofArray data).bytes ++
      0 :: emptyData.drop ((CString.ofArray data).bytes ++ [0]).length := by
    simp only [copiedData, found, strcpy, ofArray_stringAt here, List.append_assoc,
      List.singleton_append]
  rw [array]
  exact ⟨ofArray_terminated _ _, by simp⟩

theorem copiedData_none {s : Parsed} (absent : s.possibleData = none) :
    CString.ofArray (copiedData s) = CString.empty ∧ (0 : UInt8) ∈ copiedData s := by
  have array : copiedData s = 0 :: List.replicate 1023 0 := by
    simp only [copiedData, absent, emptyData]
    exact List.replicate_succ
  rw [array]
  exact ⟨ofArray_terminated CString.empty _, List.mem_cons_self⟩

theorem parseBuffer_parseRead {old bytes : List UInt8} (room : bytes.length < old.length) :
    parseRead bytes = (parseBuffer old bytes).command.map fun command =>
      (CString.ofArray ((parseBuffer old bytes).memory.drop command),
        CString.ofArray (copiedData (parseBuffer old bytes))) := by
  unfold parseRead
  cases found : strtok 32 (CString.ofArray bytes).bytes with
  | none =>
    rw [(parsed_none room found).1]
    rfl
  | some pair =>
    obtain ⟨word, left⟩ := pair
    obtain ⟨s, start, tail, parsed, command, here, -, -, possible⟩ := parsed_some room found
    rw [parsed, command, Option.map_some, Option.map_some, ofArray_stringAt here]
    cases next : strtok 32 left with
    | none =>
      rw [next] at possible
      rw [(copiedData_none possible).1]
      dsimp only
      rw [next]
    | some pair =>
      obtain ⟨data, left'⟩ := pair
      rw [next] at possible
      obtain ⟨p, tail', some_p, there, -⟩ := possible
      rw [(copiedData_some some_p there).1]
      dsimp only
      rw [next]

/- Safety. -/

theorem pointer_safe {memory word tail : List UInt8} {p : Nat} (here : StringAt memory p word tail)
    (inside : p + word.length < CMD_SIZE) :
    (Use.pointer (memory.take CMD_SIZE) (some p)).Safe := by
  refine ⟨p, rfl, ?_⟩
  obtain ⟨k, room⟩ : ∃ k, CMD_SIZE - p = word.length + (k + 1) :=
    ⟨CMD_SIZE - p - word.length - 1, by omega⟩
  rw [List.drop_take, here, room, List.take_length_add_append, List.take_succ_cons]
  simp

theorem literal_safe (s : CString) : (Use.pointer (literal s) (some 0)).Safe :=
  ⟨0, rfl, by simp [literal]⟩

theorem handlerUses_safe {s : Parsed} {command : Nat}
    (safe : (Use.pointer (s.memory.take CMD_SIZE) (some command)).Safe)
    (data : (0 : UInt8) ∈ copiedData s) (names : List CString) :
    ∀ u ∈ handlerUses s command names, u.Safe := by
  induction names with
  | nil =>
    intro u member
    cases member
  | cons name rest ih =>
    intro u member
    rcases List.mem_append.mp member with compared | more
    · rcases List.mem_cons.mp compared with rfl | second
      · exact safe
      · rw [List.mem_singleton.mp second]
        exact literal_safe name
    · split at more
      · rw [List.mem_singleton.mp more]
        exact ⟨0, rfl, data⟩
      · exact ih u more

theorem copyUses_safe {s : Parsed} {p : Nat} {data tail : List UInt8}
    (found : s.possibleData = some p) (here : StringAt s.memory p data tail)
    (inside : p + data.length < CMD_SIZE) : ∀ u ∈ copyUses s, u.Safe := by
  intro u member
  simp only [copyUses, found, List.mem_cons, List.not_mem_nil, or_false] at member
  rcases member with rfl | rfl | rfl
  · exact ⟨0, rfl, List.mem_replicate.mpr ⟨by decide, rfl⟩⟩
  · exact pointer_safe here inside
  · have short := string_length_le data
    change (CString.ofArray (s.memory.drop p)).bytes.length + 1 ≤ CMD_SIZE
    rw [ofArray_stringAt here]
    omega

theorem commandUses_safe {s : Parsed} {command : Nat} (found : s.command = some command)
    (safe : (Use.pointer (s.memory.take CMD_SIZE) (some command)).Safe)
    (data : (0 : UInt8) ∈ copiedData s) : ∀ u ∈ commandUses s, u.Safe := by
  intro u member
  simp only [commandUses, found] at member
  split at member
  · cases member
  · exact handlerUses_safe safe data _ u member

theorem uses_safe {old bytes word left : List UInt8} (size : old.length = CMD_SIZE + 1)
    (short : bytes.length < CMD_SIZE)
    (found : strtok 32 (CString.ofArray bytes).bytes = some (word, left)) :
    ∀ u ∈ handleClientUses old bytes, u.Safe := by
  obtain ⟨s, start, tail, parsed, command, here, inside, written, possible⟩ :=
    parsed_some (by omega : bytes.length < old.length) found
  have safe := pointer_safe here (by omega)
  have copied : (∀ u ∈ copyUses s, u.Safe) ∧ (0 : UInt8) ∈ copiedData s := by
    cases next : strtok 32 left with
    | none =>
      rw [next] at possible
      refine ⟨?_, (copiedData_none possible).2⟩
      simp [copyUses, possible]
    | some pair =>
      rw [next] at possible
      obtain ⟨p, tail', some_p, there, within⟩ := possible
      exact ⟨copyUses_safe some_p there (by omega), (copiedData_some some_p there).2⟩
  intro u member
  simp only [handleClientUses, parsed] at member
  rcases List.mem_append.mp member with wrote | more
  · obtain ⟨i, one, rfl⟩ := List.mem_map.mp wrote
    exact Nat.lt_of_le_of_lt (written i one) short
  rcases List.mem_append.mp more with copy | more
  · exact copied.1 u copy
  rcases List.mem_append.mp more with compared | more
  · rcases List.mem_cons.mp compared with rfl | second
    · rw [command]
      exact safe
    · rw [List.mem_singleton.mp second]
      exact literal_safe getPhyIfCommand
  · exact commandUses_safe command safe copied.2 u more

theorem terminator_used (old bytes : List UInt8) :
    Use.write bytes.length ∈ handleClientUses old bytes := by
  simp [handleClientUses, parseBuffer]

theorem command_used (old bytes : List UInt8) :
    Use.pointer ((parseBuffer old bytes).memory.take CMD_SIZE) (parseBuffer old bytes).command ∈
      handleClientUses old bytes := by
  simp [handleClientUses]

/-- One turn of the loop stays inside its arrays exactly when read left room for the
    terminator and returned a word before the first NUL. -/
theorem handle_client_safe_iff {old bytes : List UInt8} (size : old.length = CMD_SIZE + 1)
    (fits : bytes.length ≤ CMD_SIZE) :
    (∀ u ∈ handleClientUses old bytes, u.Safe) ↔
      bytes.length < CMD_SIZE ∧ ∃ b ∈ (CString.ofArray bytes).bytes, b ≠ 32 := by
  constructor
  · intro safe
    refine ⟨safe _ (terminator_used old bytes), ?_⟩
    by_contra blank
    have no_word : strtok 32 (CString.ofArray bytes).bytes = none := by
      rw [strtok_none_iff]
      intro b member
      by_contra other
      exact blank ⟨b, member, other⟩
    obtain ⟨off, some_off, -⟩ := safe _ (command_used old bytes)
    rw [(parsed_none (by omega) no_word).1] at some_off
    cases some_off
  · intro ⟨short, b, member, other⟩
    cases found : strtok 32 (CString.ofArray bytes).bytes with
    | none => exact absurd (strtok_none_iff.mp found b member) other
    | some pair => exact uses_safe size short found

def zeroMemory : List UInt8 := List.replicate 1025 0

theorem get_phy_if_safe :
    zeroMemory.length = CMD_SIZE + 1 ∧
      ∀ u ∈ handleClientUses zeroMemory (ascii "get_phy_if"), u.Safe := by
  have size : zeroMemory.length = CMD_SIZE + 1 := List.length_replicate
  exact ⟨size, (handle_client_safe_iff size (by decide)).mpr
    ⟨by decide, 103, by decide, by decide⟩⟩

/-- A read of the full size puts the terminator behind the array, and a read of blanks sends
    the null pointer to strcmp. -/
theorem full_or_blank_read_unsafe :
    (List.replicate 1024 (97 : UInt8)).length ≤ CMD_SIZE ∧
      ¬ (∀ u ∈ handleClientUses zeroMemory (List.replicate 1024 97), u.Safe) ∧
      ¬ ∀ u ∈ handleClientUses zeroMemory [32], u.Safe := by
  refine ⟨Nat.le_of_eq List.length_replicate, ?_, ?_⟩
  · intro safe
    have inside := safe _ (terminator_used zeroMemory _)
    rw [List.length_replicate] at inside
    exact Nat.lt_irrefl CMD_SIZE inside
  · intro safe
    have room : [(32 : UInt8)].length < zeroMemory.length := by
      rw [zeroMemory, List.length_replicate]
      decide
    obtain ⟨off, some_off, -⟩ := safe _ (command_used zeroMemory [32])
    rw [(parsed_none room (by decide)).1] at some_off
    cases some_off

end XSKClientBuffer
