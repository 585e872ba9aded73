import XSKNet.PortOwnership

/- How the name of the physical interface reaches the client: the daemon's reply without a
   terminator, the client's uninitialised arrays, and two copies with bounds of their own. -/
namespace XSKPhyIfname
open CStrings XSKVeth XSKInterfaces XSKPorts XSKCommandSocket XSKOwnership

abbrev RESPONSE_SIZE : Nat := 1024

def readInto (array bytes : List UInt8) : List UInt8 := bytes ++ array.drop bytes.length

def printInto (array : List UInt8) (s : CString) : List UInt8 :=
  s.bytes ++ 0 :: array.drop (s.length + 1)

/-- The buffer after the call; response is the local array as the call finds it. -/
def socketWriteWithTimeout (response reply buffer : List UInt8) (bufferSize : Nat) :
    List UInt8 :=
  strncpy buffer (readInto response reply) bufferSize

def socketSendToPort (response reply cmd : List UInt8) : List UInt8 :=
  socketWriteWithTimeout response reply cmd (CString.ofArray cmd).length

/-- The command as it stands in the local buffer of request_phy_ifname. -/
def phyIfnameBuffer (buffer vethName : List UInt8) : List UInt8 :=
  printInto buffer (requestPhyIfname (CString.ofArray vethName))

/-- request_phy_ifname up to its end: what the caller's array holds then. -/
def phyIfnameResult (buffer response reply vethName : List UInt8) : List UInt8 :=
  strncpy vethName (socketSendToPort response reply (phyIfnameBuffer buffer vethName)) IFNAMSIZ

/-- The request is at least as long as the name, and longer only in front of a zero byte. -/
def Survives (dev vethName : CString) (response : List UInt8) : Prop :=
  dev.length = 11 + vethName.length ∨
    (dev.length < 11 + vethName.length ∧ response[dev.length]? = some 0)

theorem written_request (buffer vethName : List UInt8) :
    CString.ofArray (phyIfnameBuffer buffer vethName) =
      requestPhyIfname (CString.ofArray vethName) :=
  ofArray_terminated _ _

theorem request_length {vethName : CString} (fits : vethName.length ≤ 15) :
    (requestPhyIfname vethName).length = 11 + vethName.length := by
  have command : getPhyIfCommand.bytes.length = 10 := by decide
  have size : vethName.bytes.length ≤ 15 := fits
  have bytes := requestCmd_bytes vethName (by rw [command]; decide : getPhyIfCommand.bytes.length ≤ 1000)
  change (requestCmd getPhyIfCommand vethName).bytes.length = _
  rw [bytes, List.take_of_length_le (by omega), List.length_append, List.length_cons, command]
  change _ = 11 + vethName.bytes.length
  omega

theorem phy_answer (dev vethName : CString) {o : Outcomes} (d : Daemon)
    (answered : o .writeReply = true) :
    handleRead dev o (requestPhyIfname vethName).bytes d = .ok (dev.bytes, d) := by
  obtain ⟨data, parsed, -⟩ :=
    parse_request getPhyIfCommand vethName (by decide) (by decide) (by decide)
  change parseRead (requestPhyIfname vethName).bytes = _ at parsed
  unfold handleRead
  rw [parsed]
  simp [answered]

theorem response_string (dev : CString) (response : List UInt8) :
    (CString.ofArray (readInto response dev.bytes)).bytes =
      dev.bytes ++ (CString.ofArray (response.drop dev.length)).bytes :=
  ofArray_append dev _

theorem tail_empty_iff {response : List UInt8} {n : Nat} (inside : n < response.length) :
    (CString.ofArray (response.drop n)).bytes = [] ↔ response[n]? = some 0 := by
  rw [List.drop_eq_getElem_cons inside, List.getElem?_eq_getElem inside]
  by_cases zero : response[n] = 0
  · simp [CString.ofArray, zero]
  · simp only [CString.ofArray, zero, ne_eq, not_false_eq_true, decide_true,
      List.takeWhile_cons_of_pos, Option.some.injEq]
    simp

theorem truncated_response_iff {dev : CString} {response : List UInt8} {n : Nat}
    (inside : dev.length < response.length) :
    (CString.ofArray (readInto response dev.bytes)).truncate n = dev ↔
      dev.length = n ∨ (dev.length < n ∧ response[dev.length]? = some 0) := by
  rw [← tail_empty_iff inside]
  generalize tail : (CString.ofArray (response.drop dev.length)).bytes = behind
  have bytes : ((CString.ofArray (readInto response dev.bytes)).truncate n).bytes =
      (dev.bytes ++ behind).take n := by
    rw [CString.truncate_bytes, response_string, tail]
  constructor
  · intro same
    have cut : (dev.bytes ++ behind).take n = dev.bytes := by rw [← bytes, same]
    have count := congrArg List.length cut
    rw [List.length_take, List.length_append] at count
    by_cases whole : dev.length = n
    · exact Or.inl whole
    · have size : dev.length = dev.bytes.length := rfl
      have shorter : dev.length < n := by omega
      refine Or.inr ⟨shorter, ?_⟩
      apply List.length_eq_zero_iff.mp
      omega
  · intro survives
    apply CString.ext_bytes
    rw [bytes]
    rcases survives with rfl | ⟨shorter, empty⟩
    · exact List.take_left
    · rw [empty, List.append_nil, List.take_of_length_le (Nat.le_of_lt shorter)]

/-- The name arrives exactly when the request was as long as it, or longer with a zero byte
    behind the reply in the response array. -/
theorem phy_ifname_round_trip_iff {dev : CString} {buffer response vethName : List UInt8}
    {o : Outcomes} (d : Daemon) (named : 1 ≤ dev.length ∧ dev.length ≤ 15)
    (veth : vethName.length = IFNAMSIZ ∧ (0 : UInt8) ∈ vethName)
    (arrays : buffer.length = CMD_SIZE ∧ response.length = RESPONSE_SIZE)
    (answered : o .writeReply = true) :
    ∃ reply, handleRead dev o (CString.ofArray (phyIfnameBuffer buffer vethName)).bytes d =
        .ok (reply, d) ∧
      (HoldsString (phyIfnameResult buffer response reply vethName) dev ↔
        Survives dev (CString.ofArray vethName) response) := by
  obtain ⟨size, terminated⟩ := veth
  have fits : (CString.ofArray vethName).length ≤ 15 := by
    obtain ⟨rest, array⟩ := (holdsString_iff terminated _).mpr rfl
    have count := congrArg List.length array
    rw [List.length_append, List.length_cons, size] at count
    change (CString.ofArray vethName).bytes.length ≤ 15
    unfold IFNAMSIZ at count
    omega
  have inside : dev.length < response.length := by
    rw [arrays.2]
    exact Nat.lt_of_le_of_lt named.2 (by decide)
  have guard : (phyIfnameBuffer buffer vethName).drop
      (requestPhyIfname (CString.ofArray vethName)).length = 0 :: _ := List.drop_left
  refine ⟨dev.bytes, ?_, ?_⟩
  · rw [written_request]
    exact phy_answer dev _ d answered
  · have room : dev.length < IFNAMSIZ := Nat.lt_of_le_of_lt named.2 (by decide)
    rw [phyIfnameResult, strncpy_holds_iff size room]
    unfold socketSendToPort socketWriteWithTimeout
    rw [written_request, strncpy_guarded guard, request_length fits]
    exact truncated_response_iff inside

def eth0 : CString := ⟨ascii "eth0", by decide⟩

theorem phy_ifname_round_trip_on_zeros :
    HoldsString (phyIfnameResult (List.replicate 1024 0) (List.replicate 1024 0) eth0.bytes
      (List.replicate 16 0)) eth0 := by
  obtain ⟨reply, answer, survives⟩ := phy_ifname_round_trip_iff (o := fun _ => true) bareDaemon
    (by decide : 1 ≤ eth0.length ∧ eth0.length ≤ 15)
    (by decide : (List.replicate 16 (0 : UInt8)).length = IFNAMSIZ ∧ _)
    ⟨List.length_replicate, List.length_replicate⟩ rfl
  have same : reply = eth0.bytes := by
    rw [written_request, phy_answer eth0 _ bareDaemon rfl] at answer
    exact (Prod.mk.inj (Except.ok.inj answer)).1.symm
  rw [same] at survives
  exact survives.mpr (Or.inr (by decide))

/-- An empty veth_name, and a response array that is full of the letter A: seven of them are
    taken for the end of the name. -/
theorem response_garbage_kept :
    phyIfnameResult (List.replicate 1024 0) (List.replicate 1024 65) eth0.bytes
        (List.replicate 16 0) = ascii "eth0AAAAAAA" ++ List.replicate 5 0 ∧
      ¬ HoldsString (phyIfnameResult (List.replicate 1024 0) (List.replicate 1024 65) eth0.bytes
        (List.replicate 16 0)) eth0 := by
  have result : phyIfnameResult (List.replicate 1024 0) (List.replicate 1024 65) eth0.bytes
      (List.replicate 16 0) = ascii "eth0AAAAAAA" ++ List.replicate 5 0 := by
    decide
  refine ⟨result, ?_⟩
  rw [result, holdsString_iff (by decide)]
  decide

end XSKPhyIfname
