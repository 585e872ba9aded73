import XSKNet.OnesComplement

/- process_packet of xsk_receive.c on a little-endian host. Byte offsets count from
   pkt = xsk_umem__get_data(buffer, addr); bytes at or past the descriptor's len are
   whatever an earlier packet left in the frame. Every byte read or written through
   the header structs is recorded, so that bounds can be stated about the run. -/
namespace XSKPacket
open OnesComplement

/- struct ethhdr, struct iphdr and struct icmphdr laid out one after the other. -/

def sizeofEthhdr : UInt32 := 14
def sizeofIphdr : UInt32 := 20
def sizeofIcmphdr : UInt32 := 8

abbrev eth : Nat := 0
abbrev ipv4 : Nat := eth + 14
abbrev icmp : Nat := ipv4 + 20

abbrev hDest : Nat := eth
abbrev hSource : Nat := eth + 6
abbrev hProto : Nat := eth + 12
abbrev protocol : Nat := ipv4 + 9
abbrev saddr : Nat := ipv4 + 12
abbrev daddr : Nat := ipv4 + 16
abbrev icmpType : Nat := icmp
abbrev icmpChecksum : Nat := icmp + 2

abbrev ETH_ALEN : Nat := 6
def ETH_P_IP : UInt16 := 0x0800
def IPPROTO_ICMP : UInt8 := 1
def ICMP_ECHO : UInt8 := 8
def ICMP_ECHOREPLY : UInt8 := 0

structure StatsRecord where
  timestamp : UInt64
  rxPackets : UInt64
  rxBytes : UInt64
  txPackets : UInt64
  txBytes : UInt64
  deriving DecidableEq, Repr

/-- What process_packet works on: the memory behind pkt, the offsets touched so far,
    xsk->stats, and the frames handed to sendto. -/
structure PacketState where
  byte : Nat → UInt8
  accesses : List Nat
  stats : StatsRecord
  sent : List (List UInt8)

abbrev PacketM := StateM PacketState

def load8 (off : Nat) : PacketM UInt8 := fun s =>
  (s.byte off, { s with accesses := s.accesses ++ [off] })

def store8 (off : Nat) (v : UInt8) : PacketM Unit := fun s =>
  ((), { s with
    byte := fun i => if i = off then v else s.byte i
    accesses := s.accesses ++ [off] })

def load16 (off : Nat) : PacketM UInt16 := do
  let lo ← load8 off
  let hi ← load8 (off + 1)
  return word hi lo

def store16 (off : Nat) (v : UInt16) : PacketM Unit := do
  store8 off v.toUInt8
  store8 (off + 1) (v / 256).toUInt8

def loadBytes (off : Nat) : Nat → PacketM (List UInt8)
  | 0 => return []
  | n + 1 => do
    let b ← load8 off
    let rest ← loadBytes (off + 1) n
    return b :: rest

def storeBytes (off : Nat) : List UInt8 → PacketM Unit
  | [] => return ()
  | b :: rest => do
    store8 off b
    storeBytes (off + 1) rest

def memcpy (dst src n : Nat) : PacketM Unit := do
  let bytes ← loadBytes src n
  storeBytes dst bytes

def ntohs (v : UInt16) : UInt16 := v / 256 + v % 256 * 256

/-- The two additions with their carry tests, exactly as written in the source. -/
def csumReplace2 (sum old new : UInt16) : UInt16 :=
  let csum := ~~~sum
  let csum := csum + ~~~old
  let csum := if csum < ~~~old then csum + 1 else csum
  let csum := csum + new
  let csum := if csum < new then csum + 1 else csum
  ~~~csum

/-- sendto of the first len bytes; a failed send leaves the counters alone. -/
def sendto (ok : Bool) (len : UInt32) : PacketM Bool := fun s =>
  (ok, { s with sent := s.sent ++ [(List.range len.toNat).map s.byte] })

def countTx (len : UInt32) : PacketM Unit := fun s =>
  ((), { s with stats := { s.stats with
    txBytes := s.stats.txBytes + len.toUInt64
    txPackets := s.stats.txPackets + 1 } })

def swapFields (a b n : Nat) : PacketM Unit := do
  let tmp ← loadBytes a n
  memcpy a b n
  storeBytes b tmp

def makeReply : PacketM Unit := do
  swapFields hDest hSource ETH_ALEN
  swapFields saddr daddr 4
  store8 icmpType ICMP_ECHOREPLY
  let checksum ← load16 icmpChecksum
  store16 icmpChecksum (csumReplace2 checksum ICMP_ECHO.toUInt16 ICMP_ECHOREPLY.toUInt16)

def logReply : PacketM Unit := do
  let _ ← loadBytes hSource ETH_ALEN
  let _ ← loadBytes hDest ETH_ALEN
  let _ ← loadBytes saddr 4
  let _ ← loadBytes daddr 4

def processPacket (sendOk : Bool) (len : UInt32) : PacketM Bool := do
  if len < sizeofEthhdr then return false
  if len < sizeofIphdr then return false
  if len < sizeofIcmphdr then return false
  let proto ← load16 hProto
  if ntohs proto ≠ ETH_P_IP then return false
  let ipProto ← load8 protocol
  if ipProto ≠ IPPROTO_ICMP then return false
  let type ← load8 icmpType
  if type ≠ ICMP_ECHO then return false
  makeReply
  logReply
  let ret ← sendto sendOk len
  if !ret then return false
  countTx len
  -- the reply left through the raw socket, so the frame is not queued for XSK transmission
  return false

/- Specification of the building blocks. -/

@[simp] theorem pure_apply {α : Type} (a : α) (s : PacketState) :
    (pure a : PacketM α) s = (a, s) := rfl

@[simp] theorem bind_apply {α β : Type} (x : PacketM α) (f : α → PacketM β) (s : PacketState) :
    (x >>= f) s = f (x s).1 (x s).2 := rfl

@[simp] theorem map_apply {α β : Type} (f : α → β) (x : PacketM α) (s : PacketState) :
    (f <$> x) s = (f (x s).1, (x s).2) := rfl

theorem loadBytes_eq (off n : Nat) (s : PacketState) :
    loadBytes off n s = ((List.range' off n).map s.byte,
      { s with accesses := s.accesses ++ List.range' off n }) := by
  induction n generalizing off s with
  | zero => simp [loadBytes]
  | succ n ih =>
    simp [loadBytes, load8, ih, List.range'_succ]

def overwrite (f : Nat → UInt8) (off : Nat) (bs : List UInt8) (i : Nat) : UInt8 :=
  if off ≤ i then (bs[i - off]?).getD (f i) else f i

theorem overwrite_cons (f : Nat → UInt8) (off : Nat) (b : UInt8) (bs : List UInt8) :
    overwrite (fun i => if i = off then b else f i) (off + 1) bs = overwrite f off (b :: bs) := by
  funext i
  unfold overwrite
  by_cases same : i = off
  · subst same
    simp
  · by_cases more : off ≤ i
    · have shift : i - off = (i - (off + 1)) + 1 := by omega
      have tail : off + 1 ≤ i := by omega
      simp [tail, more, shift, same]
    · have tail : ¬ off + 1 ≤ i := by omega
      simp [tail, more, same]

theorem storeBytes_eq (off : Nat) (bs : List UInt8) (s : PacketState) :
    storeBytes off bs s = ((), { s with
      byte := overwrite s.byte off bs
      accesses := s.accesses ++ List.range' off bs.length }) := by
  induction bs generalizing off s with
  | nil =>
    have same : overwrite s.byte off [] = s.byte := by funext i; simp [overwrite]
    simp [storeBytes, same]
  | cons b bs ih =>
    simp [storeBytes, store8, ih, overwrite_cons, List.range'_succ]

theorem overwrite_map_range' (f g : Nat → UInt8) (off src n : Nat) :
    overwrite f off ((List.range' src n).map g) =
      fun i => if off ≤ i ∧ i < off + n then g (src + (i - off)) else f i := by
  funext i
  unfold overwrite
  by_cases low : off ≤ i
  · by_cases high : i < off + n
    · have inside : i - off < n := by omega
      simp [low, high, inside]
    · have outside : n ≤ i - off := by omega
      simp [low, high, outside]
  · simp [low]

theorem load16_eq (off : Nat) (s : PacketState) :
    load16 off s = (word (s.byte (off + 1)) (s.byte off),
      { s with accesses := s.accesses ++ [off, off + 1] }) := by
  simp [load16, load8]

def Accepts (f : Nat → UInt8) (len : UInt32) : Prop :=
  sizeofIphdr ≤ len ∧ f 12 = 0x08 ∧ f 13 = 0x00 ∧ f 23 = IPPROTO_ICMP ∧ f 34 = ICMP_ECHO

instance (f : Nat → UInt8) (len : UInt32) : Decidable (Accepts f len) := by
  unfold Accepts
  infer_instance

def hostChecksum (f : Nat → UInt8) : UInt16 := word (f 37) (f 36)

def replyByte (f : Nat → UInt8) (i : Nat) : UInt8 :=
  if i < 6 then f (i + 6)
  else if i < 12 then f (i - 6)
  else if i < 26 then f i
  else if i < 30 then f (i + 4)
  else if i < 34 then f (i - 4)
  else if i = 34 then 0
  else if i = 36 then (csumReplace2 (hostChecksum f) 8 0).toUInt8
  else if i = 37 then (csumReplace2 (hostChecksum f) 8 0 / 256).toUInt8
  else f i

def swapAccesses (a b n : Nat) : List Nat :=
  List.range' a n ++ (List.range' b n ++ (List.range' a n ++ List.range' b n))

/-- Offsets touched between the type test and sendto, in program order. -/
def replyAccesses : List Nat :=
  swapAccesses 0 6 6 ++ (swapAccesses 26 30 4 ++ ([34, 36, 37, 36, 37] ++
    (List.range' 6 6 ++ (List.range' 0 6 ++ (List.range' 26 4 ++ List.range' 30 4)))))

theorem swapFields_eq (a b n : Nat) (disjoint : a + n ≤ b) (s : PacketState) :
    swapFields a b n s = ((), { s with
      byte := fun i =>
        if a ≤ i ∧ i < a + n then s.byte (b + (i - a))
        else if b ≤ i ∧ i < b + n then s.byte (a + (i - b))
        else s.byte i
      accesses := s.accesses ++ swapAccesses a b n }) := by
  simp only [swapFields, memcpy, bind_apply, loadBytes_eq, storeBytes_eq,
    overwrite_map_range', List.length_map, List.length_range', List.append_assoc, swapAccesses]
  congr 2
  funext i
  by_cases first : a ≤ i ∧ i < a + n
  · have second : ¬ (b ≤ i ∧ i < b + n) := by omega
    simp [first, second]
  · simp [first]

theorem store16_eq (off : Nat) (v : UInt16) (s : PacketState) :
    store16 off v s = ((), { s with
      byte := fun i =>
        if i = off then v.toUInt8
        else if i = off + 1 then (v / 256).toUInt8
        else s.byte i
      accesses := s.accesses ++ [off, off + 1] }) := by
  simp only [store16, bind_apply, store8, List.append_assoc, List.singleton_append]
  congr 2
  funext i
  by_cases low : i = off <;> simp [low]

theorem makeReply_eq (s : PacketState) :
    makeReply s = ((), { s with
      byte := replyByte s.byte
      accesses := s.accesses ++
        (swapAccesses 0 6 6 ++ (swapAccesses 26 30 4 ++ [34, 36, 37, 36, 37])) }) := by
  have macs := swapFields_eq hDest hSource ETH_ALEN (by decide)
  have addresses := swapFields_eq saddr daddr 4 (by decide)
  simp only [makeReply, bind_apply, macs, addresses, store16_eq, store8, load16_eq]
  simp only [hDest, hSource, saddr, daddr, icmpType, icmpChecksum, eth, ipv4, icmp, ETH_ALEN,
    Nat.reduceAdd, List.append_assoc, List.cons_append, List.nil_append]
  congr 2
  funext i
  -- one case per field of the three headers; omega decides every branch of both sides
  obtain h | h | h | h | h | h | h | h | h : i < 6 ∨ (6 ≤ i ∧ i < 12) ∨ (12 ≤ i ∧ i < 26) ∨
      (26 ≤ i ∧ i < 30) ∨ (30 ≤ i ∧ i < 34) ∨ i = 34 ∨ i = 36 ∨ i = 37 ∨
      (i = 35 ∨ 38 ≤ i) := by omega
  all_goals simp (disch := omega) only [replyByte, if_pos, if_neg]
  · congr 1; omega
  · congr 1; omega
  · congr 1; omega
  · congr 1; omega
  · rfl
  · rfl
  · rfl

theorem ntohs_word (hi lo : UInt8) : ntohs (word hi lo) = word lo hi := by
  have hh := hi.toNat_lt
  have hl := lo.toNat_lt
  have high : (word hi lo).toNat / 256 = hi.toNat := by rw [word_toNat]; omega
  have low : (word hi lo).toNat % 256 = lo.toNat := by rw [word_toNat]; omega
  rw [← UInt16.toNat_inj, word_toNat]
  simp only [ntohs, UInt16.toNat_add, UInt16.toNat_div, UInt16.toNat_mul, UInt16.toNat_mod,
    UInt16.reduceToNat, high, low]
  omega

theorem word_eq_ETH_P_IP_iff (hi lo : UInt8) :
    word hi lo = ETH_P_IP ↔ hi = 0x08 ∧ lo = 0x00 := by
  have hl := lo.toNat_lt
  rw [← UInt16.toNat_inj, ← UInt8.toNat_inj, ← UInt8.toNat_inj, word_toNat]
  simp only [ETH_P_IP, UInt16.reduceToNat, UInt8.reduceToNat]
  omega

theorem logReply_eq (s : PacketState) :
    logReply s = ((), { s with accesses := s.accesses ++
      (List.range' 6 6 ++ (List.range' 0 6 ++ (List.range' 26 4 ++ List.range' 30 4))) }) := by
  simp only [logReply, bind_apply, pure_apply, loadBytes_eq, List.append_assoc]

theorem length_tests (len : UInt32) (long : sizeofIphdr ≤ len) :
    ¬ len < sizeofEthhdr ∧ ¬ len < sizeofIphdr ∧ ¬ len < sizeofIcmphdr := by
  simp only [sizeofEthhdr, sizeofIphdr, sizeofIcmphdr, UInt32.le_iff_toNat_le,
    UInt32.lt_iff_toNat_lt, UInt32.reduceToNat] at long ⊢
  omega

theorem processPacket_accepted (ok : Bool) (len : UInt32) (s : PacketState)
    (accepts : Accepts s.byte len) :
    processPacket ok len s = (false, { s with
      byte := replyByte s.byte
      accesses := s.accesses ++ ([12, 13, 23, 34] ++ replyAccesses)
      stats := if ok then { s.stats with
          txBytes := s.stats.txBytes + len.toUInt64
          txPackets := s.stats.txPackets + 1 } else s.stats
      sent := s.sent ++ [(List.range len.toNat).map (replyByte s.byte)] }) := by
  obtain ⟨long, type_hi, type_lo, icmp_proto, echo⟩ := accepts
  have tests := length_tests len long
  have ether : word (s.byte 12) (s.byte 13) = ETH_P_IP :=
    (word_eq_ETH_P_IP_iff _ _).mpr ⟨type_hi, type_lo⟩
  simp only [processPacket, tests, if_false, bind_apply, load16_eq, load8, ntohs_word,
    ether, icmp_proto, echo, ne_eq, not_true_eq_false, makeReply_eq, logReply_eq, sendto,
    List.append_assoc, List.cons_append, List.nil_append, replyAccesses]
  cases ok <;> rfl

def rejectAccesses (f : Nat → UInt8) (len : UInt32) : List Nat :=
  if len < sizeofIphdr then []
  else if word (f 12) (f 13) ≠ ETH_P_IP then [12, 13]
  else if f 23 ≠ IPPROTO_ICMP then [12, 13, 23]
  else [12, 13, 23, 34]

theorem processPacket_rejected (ok : Bool) (len : UInt32) (s : PacketState)
    (rejects : ¬ Accepts s.byte len) :
    processPacket ok len s =
      (false, { s with accesses := s.accesses ++ rejectAccesses s.byte len }) := by
  have accepts_iff : Accepts s.byte len ↔ sizeofIphdr ≤ len ∧
      word (s.byte 12) (s.byte 13) = ETH_P_IP ∧ s.byte 23 = IPPROTO_ICMP ∧
        s.byte 34 = ICMP_ECHO := by
    rw [word_eq_ETH_P_IP_iff, and_assoc]
    rfl
  rw [accepts_iff] at rejects
  by_cases long : sizeofIphdr ≤ len
  · have tests := length_tests len long
    by_cases ether : word (s.byte 12) (s.byte 13) = ETH_P_IP
    · by_cases icmp_proto : s.byte 23 = IPPROTO_ICMP
      · have not_echo : s.byte 34 ≠ ICMP_ECHO := fun echo =>
          rejects ⟨long, ether, icmp_proto, echo⟩
        simp only [processPacket, rejectAccesses, tests, if_false, bind_apply, load16_eq,
          load8, ntohs_word, ether, icmp_proto, not_echo, ne_eq, not_true_eq_false,
          not_false_eq_true, if_true, List.append_assoc]
        rfl
      · simp only [processPacket, rejectAccesses, tests, if_false, bind_apply, load16_eq,
          load8, ntohs_word, ether, icmp_proto, ne_eq, not_true_eq_false, not_false_eq_true,
          if_true, List.append_assoc]
        rfl
    · simp only [processPacket, rejectAccesses, tests, if_false, bind_apply, load16_eq,
        ntohs_word, ether, ne_eq, not_false_eq_true, if_true]
      rfl
  · have short : len < sizeofIphdr := UInt32.not_le.mp long
    have none : processPacket ok len s = (false, s) := by
      by_cases tiny : len < sizeofEthhdr
      · simp only [processPacket, tiny, if_true]
        rfl
      · simp only [processPacket, tiny, short, if_true, if_false]
        rfl
    rw [none, rejectAccesses, if_pos short, List.append_nil]

theorem processPacket_false (ok : Bool) (len : UInt32) (s : PacketState) :
    (processPacket ok len s).1 = false := by
  by_cases accepts : Accepts s.byte len
  · rw [processPacket_accepted ok len s accepts]
  · rw [processPacket_rejected ok len s accepts]

end XSKPacket
