import XSKNet.PacketBounds

/- What a sent reply looks like on the wire: its ICMP checksum, and which frames are
   taken for echo requests. -/
namespace XSKEcho
open OnesComplement XSKPacket XSKKernel XSKBounds

def version (p : Packet) : Nat := (byteAt p 14).toNat / 16
def ihl (p : Packet) : Nat := (byteAt p 14).toNat % 16
def totalLength (p : Packet) : Nat := 256 * (byteAt p 16).toNat + (byteAt p 17).toNat
def fragmentOffset (p : Packet) : Nat :=
  (256 * (byteAt p 20).toNat + (byteAt p 21).toNat) % 2 ^ 13

def icmpMessage (frame : List UInt8) (total : Nat) : List UInt8 :=
  (frame.drop 34).take (total - 20)

/-- An option-free IPv4 datagram of the given total length with room for an ICMP header. -/
structure PlainFrame (p : Packet) (total : Nat) : Prop where
  long : 42 ≤ p.bytes.length
  plain : ihl p = 5
  total_eq : totalLength p = total
  header : 28 ≤ total
  inside : total + 14 ≤ p.bytes.length

def Blank (p : Packet) (total : Nat) : Prop :=
  byteAt p 35 = 0 ∧ ∀ b ∈ (p.bytes.drop 38).take (total - 24), b = 0

def sentFrames (ok : Bool) (p : Packet) (stale : Nat → UInt8) (stats : StatsRecord) :
    List (List UInt8) :=
  (processPacket ok p.len (arrival p stale stats)).2.sent

def replyFrame (p : Packet) (stale : Nat → UInt8) : List UInt8 :=
  (List.range p.bytes.length).map (replyByte (received p stale))

theorem sentFrames_accepted (ok : Bool) (p : Packet) (stale : Nat → UInt8) (stats : StatsRecord)
    (accepts : Accepts (received p stale) p.len) :
    sentFrames ok p stale stats = [replyFrame p stale] := by
  rw [sentFrames, processPacket_accepted ok p.len (arrival p stale stats) accepts]
  simp [arrival, replyFrame, p.len_toNat]

theorem sentFrames_rejected (ok : Bool) (p : Packet) (stale : Nat → UInt8) (stats : StatsRecord)
    (rejects : ¬ Accepts (received p stale) p.len) : sentFrames ok p stale stats = [] := by
  rw [sentFrames, processPacket_rejected ok p.len (arrival p stale stats) rejects]
  rfl

theorem sentFrames_eq_singleton_iff (ok : Bool) (p : Packet) (stale : Nat → UInt8)
    (stats : StatsRecord) (reply : List UInt8) :
    sentFrames ok p stale stats = [reply] ↔
      Accepts (received p stale) p.len ∧ reply = replyFrame p stale := by
  by_cases accepts : Accepts (received p stale) p.len
  · rw [sentFrames_accepted ok p stale stats accepts]
    simp [accepts, eq_comm]
  · rw [sentFrames_rejected ok p stale stats accepts]
    simp [accepts]

/- The checksum update as arithmetic. -/

theorem csumReplace2_eq (sum old new : UInt16) :
    csumReplace2 sum old new = ~~~ (add (add (~~~sum) (~~~old)) new) := rfl

theorem csumReplace2_echo (sum : UInt16) :
    (csumReplace2 sum 8 0).toNat =
      if sum.toNat ≤ 65526 then sum.toNat + 8 else sum.toNat - 65527 := by
  have bound := sum.toNat_lt
  have old : (~~~(8 : UInt16)).toNat = 65527 := by decide
  have zero : (0 : UInt16).toNat = 0 := rfl
  rw [csumReplace2_eq, UInt16.toNat_not, add_toNat, add_toNat, UInt16.toNat_not, old, zero]
  simp only [UInt16.size]
  split_ifs <;> omega

theorem word_split (c : UInt16) :
    (word (c / 256).toUInt8 c.toUInt8).toNat = c.toNat ∧
      c.toUInt8.toNat = c.toNat % 256 ∧ (c / 256).toUInt8.toNat = c.toNat / 256 := by
  have bound := c.toNat_lt
  have low : c.toUInt8.toNat = c.toNat % 256 := UInt16.toNat_toUInt8 c
  have high : (c / 256).toUInt8.toNat = c.toNat / 256 := by
    rw [UInt16.toNat_toUInt8, UInt16.toNat_div]
    change c.toNat / 256 % 256 = _
    omega
  rw [word_toNat, low, high]
  omega

/- The ICMP message, byte by byte. -/

theorem message_split (frame : List UInt8) (total : Nat) (header : 28 ≤ total)
    (inside : total + 14 ≤ frame.length) :
    icmpMessage frame total = frame.getD 34 0 :: frame.getD 35 0 :: frame.getD 36 0 ::
      frame.getD 37 0 :: (frame.drop 38).take (total - 24) := by
  obtain ⟨k, rfl⟩ : ∃ k, total = k + 24 := ⟨total - 24, by omega⟩
  have at_index : ∀ i, i < frame.length → frame.drop i = frame.getD i 0 :: frame.drop (i + 1) := by
    intro i hi
    rw [List.drop_eq_getElem_cons hi]
    simp [hi]
  have size : k + 24 - 20 = k + 1 + 1 + 1 + 1 := by omega
  rw [icmpMessage, size, at_index 34 (by omega), at_index 35 (by omega), at_index 36 (by omega),
    at_index 37 (by omega)]
  simp only [List.take_succ_cons, Nat.reduceAdd, Nat.add_sub_cancel]

theorem replyFrame_getD (p : Packet) (stale : Nat → UInt8) {i : Nat}
    (inside : i < p.bytes.length) :
    (replyFrame p stale).getD i 0 = replyByte (received p stale) i := by
  simp [replyFrame, inside]

theorem replyFrame_tail (p : Packet) (stale : Nat → UInt8) :
    (replyFrame p stale).drop 38 = p.bytes.drop 38 := by
  apply List.ext_getElem?
  intro i
  rw [List.getElem?_drop, List.getElem?_drop]
  by_cases inside : 38 + i < p.bytes.length
  · have same : replyByte (received p stale) (38 + i) = p.bytes[38 + i] := by
      simp (disch := omega) only [replyByte, if_neg]
      simp [received, inside]
    simp [replyFrame, inside, same]
  · simp [replyFrame, inside]

/-- The reply verifies unless everything behind its checksum field is zero: then the
    update yields 0x0000, where a checksum of 0xFFFF would have been needed. -/
theorem echo_reply_verifies_iff (ok : Bool) (p : Packet) (stale : Nat → UInt8)
    (stats : StatsRecord) (total : Nat) (frame : PlainFrame p total) (reply : List UInt8)
    (sent : sentFrames ok p stale stats = [reply])
    (valid : Verifies (words (icmpMessage p.bytes total))) :
    Verifies (words (icmpMessage reply total)) ↔ ¬ Blank p total := by
  obtain ⟨accepts, rfl⟩ := (sentFrames_eq_singleton_iff ok p stale stats reply).mp sent
  have long := frame.long
  have echo : byteAt p 34 = 8 := by
    have type := accepts.2.2.2.2
    rwa [received_inside p stale (by omega)] at type
  have r35 : replyByte (received p stale) 35 = byteAt p 35 := by
    rw [← received_inside p stale (by omega)]
    rfl
  have checksum : hostChecksum (received p stale) = word (byteAt p 37) (byteAt p 36) := by
    rw [hostChecksum, received_inside p stale (by omega), received_inside p stale (by omega)]
  have before := message_split p.bytes total frame.header frame.inside
  have after := message_split (replyFrame p stale) total frame.header
    (by simpa [replyFrame] using frame.inside)
  rw [replyFrame_getD p stale (by omega), replyFrame_getD p stale (by omega),
    replyFrame_getD p stale (by omega), replyFrame_getD p stale (by omega),
    replyFrame_tail p stale, r35] at after
  rw [before, verifies_iff] at valid
  rw [after, verifies_iff]
  have blank_iff := natSum_words_eq_zero_iff ((p.bytes.drop 38).take (total - 24))
  have r34 : replyByte (received p stale) 34 = 0 := rfl
  have r36 : replyByte (received p stale) 36 =
    (csumReplace2 (hostChecksum (received p stale)) 8 0).toUInt8 := rfl
  have r37 : replyByte (received p stale) 37 =
    (csumReplace2 (hostChecksum (received p stale)) 8 0 / 256).toUInt8 := rfl
  have update := csumReplace2_echo (word (byteAt p 37) (byteAt p 36))
  obtain ⟨-, low, high⟩ := word_split (csumReplace2 (word (byteAt p 37) (byteAt p 36)) 8 0)
  rw [r34, r36, r37, checksum]
  unfold Blank
  rw [← blank_iff, ← UInt8.toNat_inj, UInt8.toNat_zero]
  change natSum (words (byteAt p 34 :: byteAt p 35 :: byteAt p 36 :: byteAt p 37 :: _)) % _ = 0 ∧
    natSum (words (byteAt p 34 :: byteAt p 35 :: byteAt p 36 :: byteAt p 37 :: _)) ≠ 0 at valid
  simp only [words, natSum_cons, word_toNat, echo, UInt8.toNat_zero, low, high] at valid update ⊢
  generalize natSum (words ((p.bytes.drop 38).take (total - 24))) = rest at valid ⊢
  have b35 := (byteAt p 35).toNat_lt
  have b36 := (byteAt p 36).toNat_lt
  have b37 := (byteAt p 37).toNat_lt
  have eight : (8 : UInt8).toNat = 8 := rfl
  rw [eight] at valid
  generalize (csumReplace2 (word (byteAt p 37) (byteAt p 36)) 8 0).toNat = c' at update ⊢
  split at update <;> omega

def zeroStats : StatsRecord := ⟨0, 0, 0, 0, 0⟩

def icmpFrame (first total : UInt8) (tail : List UInt8) (short : tail.length < 256) : Packet where
  bytes := [2, 0, 0, 0, 0, 2, 2, 0, 0, 0, 0, 1, 0x08, 0x00,
    first, 0, 0, total, 0, 0, 0, 0, 64, 1, 0, 0, 10, 0, 0, 1, 10, 0, 0, 2] ++ tail
  fits := by simp; omega

def ping : Packet := icmpFrame 0x45 28 [8, 0, 0xF7, 0xFE, 0, 0, 0, 1] (by decide)

theorem echo_reply_verifies_for_ping :
    PlainFrame ping 28 ∧ sentFrames true ping (fun _ => 0) zeroStats =
      [replyFrame ping fun _ => 0] ∧ Verifies (words (icmpMessage ping.bytes 28)) ∧
      (Verifies (words (icmpMessage (replyFrame ping fun _ => 0) 28)) ↔ ¬ Blank ping 28) := by
  have frame : PlainFrame ping 28 :=
    ⟨by decide, by decide, by decide, by decide, by decide⟩
  have sent := sentFrames_accepted true ping (fun _ => 0) zeroStats (by decide)
  have valid : Verifies (words (icmpMessage ping.bytes 28)) := by decide
  exact ⟨frame, sent, valid,
    echo_reply_verifies_iff true ping (fun _ => 0) zeroStats 28 frame _ sent valid⟩

def blankPing : Packet := icmpFrame 0x45 28 [8, 0, 0xF7, 0xFF, 0, 0, 0, 0] (by decide)

theorem blank_echo_reply_fails :
    PlainFrame blankPing 28 ∧ sentFrames true blankPing (fun _ => 0) zeroStats =
      [replyFrame blankPing fun _ => 0] ∧ Verifies (words (icmpMessage blankPing.bytes 28)) ∧
      ¬ Verifies (words (icmpMessage (replyFrame blankPing fun _ => 0) 28)) :=
  ⟨⟨by decide, by decide, by decide, by decide, by decide⟩,
    sentFrames_accepted true blankPing (fun _ => 0) zeroStats (by decide),
    by decide, by decide⟩

/- Recognition of echo requests. -/

structure WellFormedIpv4 (p : Packet) : Prop where
  long : 42 ≤ p.bytes.length
  version_four : version p = 4
  ihl_five : 5 ≤ ihl p
  icmp_header : 4 * ihl p + 8 ≤ totalLength p
  inside : totalLength p + 14 ≤ p.bytes.length

/-- An unfragmented ICMP echo request by the header's own layout. -/
def WireEcho (p : Packet) : Prop :=
  (byteAt p 12 = 0x08 ∧ byteAt p 13 = 0x00) ∧ byteAt p 23 = IPPROTO_ICMP ∧
    fragmentOffset p = 0 ∧ byteAt p (14 + 4 * ihl p) = ICMP_ECHO

/-- What the code looks at: the type byte right after a header without options. -/
def FixedEcho (p : Packet) : Prop :=
  (byteAt p 12 = 0x08 ∧ byteAt p 13 = 0x00) ∧ byteAt p 23 = IPPROTO_ICMP ∧
    byteAt p 34 = ICMP_ECHO

theorem accepts_iff_fixedEcho (p : Packet) (stale : Nat → UInt8) (long : 42 ≤ p.bytes.length) :
    Accepts (received p stale) p.len ↔ FixedEcho p := by
  have size : sizeofIphdr ≤ p.len := by
    rw [UInt32.le_iff_toNat_le, p.len_toNat]
    exact Nat.le_trans (by decide) long
  unfold Accepts FixedEcho
  rw [received_inside p stale (by omega), received_inside p stale (by omega),
    received_inside p stale (by omega), received_inside p stale (by omega)]
  simp [size, and_assoc]

/-- Requests are recognised at offset 34 whatever the header length and the fragment
    offset are, and the type and checksum rewritten are those at 34 and 36. -/
theorem echo_recognised_at_fixed_offset (ok : Bool) (p : Packet) (stale : Nat → UInt8)
    (stats : StatsRecord) (header : WellFormedIpv4 p) :
    (sentFrames ok p stale stats ≠ [] ↔ FixedEcho p) ∧
    (ihl p = 5 → fragmentOffset p = 0 → (sentFrames ok p stale stats ≠ [] ↔ WireEcho p)) ∧
    (∀ reply, sentFrames ok p stale stats = [reply] →
      reply.getD 34 0 = ICMP_ECHOREPLY ∧
      word (reply.getD 37 0) (reply.getD 36 0) =
        csumReplace2 (word (byteAt p 37) (byteAt p 36)) 8 0 ∧
      ∀ i, 34 ≤ i → i < p.bytes.length → i ≠ 34 → i ≠ 36 → i ≠ 37 →
        reply.getD i 0 = byteAt p i) := by
  have long := header.long
  have fixed : sentFrames ok p stale stats ≠ [] ↔ FixedEcho p := by
    rw [← accepts_iff_fixedEcho p stale long]
    by_cases accepts : Accepts (received p stale) p.len
    · simp [sentFrames_accepted ok p stale stats accepts, accepts]
    · simp [sentFrames_rejected ok p stale stats accepts, accepts]
  refine ⟨fixed, ?_, ?_⟩
  · intro plain unfragmented
    rw [fixed]
    simp [FixedEcho, WireEcho, plain, unfragmented]
  · intro reply sent
    obtain ⟨-, rfl⟩ := (sentFrames_eq_singleton_iff ok p stale stats reply).mp sent
    rw [replyFrame_getD p stale (by omega), replyFrame_getD p stale (by omega),
      replyFrame_getD p stale (by omega)]
    refine ⟨rfl, ?_, ?_⟩
    · rw [← UInt16.toNat_inj, ← received_inside p stale (by omega : 36 < _),
        ← received_inside p stale (by omega : 37 < _)]
      exact (word_split _).1
    · intro i from34 inside not_type not_low not_high
      rw [replyFrame_getD p stale inside, ← received_inside p stale inside]
      simp (disch := omega) only [replyByte, if_neg]

theorem echo_recognised_for_ping :
    WellFormedIpv4 ping ∧ (sentFrames true ping (fun _ => 0) zeroStats ≠ [] ↔ FixedEcho ping) := by
  have header : WellFormedIpv4 ping :=
    ⟨by decide, by decide, by decide, by decide, by decide⟩
  exact ⟨header, (echo_recognised_at_fixed_offset true ping (fun _ => 0) zeroStats header).1⟩

def optionFrame : Packet :=
  icmpFrame 0x46 32 [8, 0, 0, 0, 0, 0, 0xFF, 0xFF, 0, 0, 0, 0] (by decide)

theorem option_byte_taken_for_type :
    WellFormedIpv4 optionFrame ∧
      ¬ (sentFrames true optionFrame (fun _ => 0) zeroStats ≠ [] ↔ WireEcho optionFrame) := by
  refine ⟨⟨by decide, by decide, by decide, by decide, by decide⟩, ?_⟩
  have sent := sentFrames_accepted true optionFrame (fun _ => 0) zeroStats (by decide)
  have not_echo : ¬ WireEcho optionFrame := fun wire => absurd wire.2.2.2 (by decide)
  simp [sent, not_echo]

end XSKEcho
