import XSKNet.EchoReply
import XSKNet.ReceiveLoop

/- The exact effect of process_packet on the frame, the statistics and the network, and what
   it does to the checksum of the IPv4 header. -/
namespace XSKReply
open OnesComplement XSKPacket XSKEcho XSKSocket XSKReceive

def frameAt (d : XdpDesc) (buffer : Nat → UInt8) : List UInt8 :=
  (List.range d.len.toNat).map fun off => buffer (d.addr.toNat + off)

def headerLength (frame : List UInt8) : Nat := 4 * ((frame.getD 14 0).toNat % 16)

def ipHeader (frame : List UInt8) : List UInt8 := (frame.drop 14).take (headerLength frame)

/-- Addresses exchanged, type and checksum rewritten, every other byte as received. -/
structure ReplyTo (request reply : List UInt8) : Prop where
  length : reply.length = request.length
  dest : ∀ i, i < 6 → reply.getD i 0 = request.getD (i + 6) 0
  source : ∀ i, 6 ≤ i → i < 12 → reply.getD i 0 = request.getD (i - 6) 0
  saddr : ∀ i, 26 ≤ i → i < 30 → reply.getD i 0 = request.getD (i + 4) 0
  daddr : ∀ i, 30 ≤ i → i < 34 → reply.getD i 0 = request.getD (i - 4) 0
  type : request.getD 34 0 = ICMP_ECHO ∧ reply.getD 34 0 = ICMP_ECHOREPLY
  checksum : word (reply.getD 37 0) (reply.getD 36 0) =
    csumReplace2 (word (request.getD 37 0) (request.getD 36 0)) 8 0
  rest : ∀ i, 12 ≤ i ∧ i < 26 ∨ i = 35 ∨ 38 ≤ i → reply.getD i 0 = request.getD i 0

/- The reply as a list of bytes. -/

def frameOfBytes (f : Nat → UInt8) (len : Nat) : List UInt8 := (List.range len).map f

theorem frameOfBytes_getD (f : Nat → UInt8) {len i : Nat} (inside : i < len) :
    (frameOfBytes f len).getD i 0 = f i := by
  simp [frameOfBytes, inside]

theorem frameOfBytes_outside (f : Nat → UInt8) {len i : Nat} (outside : len ≤ i) :
    (frameOfBytes f len).getD i 0 = 0 := by
  simp [frameOfBytes, outside]

theorem replyByte_rest (f : Nat → UInt8) {i : Nat} (rest : 12 ≤ i ∧ i < 26 ∨ i = 35 ∨ 38 ≤ i) :
    replyByte f i = f i := by
  simp (disch := omega) only [replyByte, if_neg]
  split
  · rfl
  · rfl

theorem reply_to (f : Nat → UInt8) {len : Nat} (long : 42 ≤ len) (echo : f 34 = ICMP_ECHO) :
    ReplyTo (frameOfBytes f len) (frameOfBytes (replyByte f) len) where
  length := by simp [frameOfBytes]
  dest i low := by
    rw [frameOfBytes_getD _ (by omega), frameOfBytes_getD _ (by omega)]
    simp (disch := omega) only [replyByte, if_pos]
  source i low high := by
    rw [frameOfBytes_getD _ (by omega), frameOfBytes_getD _ (by omega)]
    simp (disch := omega) only [replyByte, if_pos, if_neg]
  saddr i low high := by
    rw [frameOfBytes_getD _ (by omega), frameOfBytes_getD _ (by omega)]
    simp (disch := omega) only [replyByte, if_pos, if_neg]
  daddr i low high := by
    rw [frameOfBytes_getD _ (by omega), frameOfBytes_getD _ (by omega)]
    simp (disch := omega) only [replyByte, if_pos, if_neg]
  type := by
    rw [frameOfBytes_getD _ (by omega), frameOfBytes_getD _ (by omega)]
    exact ⟨echo, rfl⟩
  checksum := by
    rw [frameOfBytes_getD _ (by omega), frameOfBytes_getD _ (by omega),
      frameOfBytes_getD _ (by omega), frameOfBytes_getD _ (by omega), ← UInt16.toNat_inj]
    exact (word_split _).1
  rest i rest := by
    by_cases inside : i < len
    · rw [frameOfBytes_getD _ inside, frameOfBytes_getD _ inside, replyByte_rest f rest]
    · rw [frameOfBytes_outside _ (by omega), frameOfBytes_outside _ (by omega)]

/- The header checksum. -/

def fixedHeader (f : Nat → UInt8) : List UInt8 := (List.range' 14 20).map f

def options (f : Nat → UInt8) (words : Nat) : List UInt8 := (List.range' 34 (4 * words)).map f

theorem header_split (f : Nat → UInt8) {len k : Nat} (inside : 34 + 4 * k ≤ len)
    (size : (f 14).toNat % 16 = k + 5) :
    ipHeader (frameOfBytes f len) = fixedHeader f ++ options f k := by
  have first : (frameOfBytes f len).getD 14 0 = f 14 := frameOfBytes_getD f (by omega)
  have total : 4 * (k + 5) = 20 + 4 * k := by omega
  rw [ipHeader, headerLength, first, size, total, frameOfBytes, ← List.map_drop, ← List.map_take,
    List.range_eq_range', List.drop_range', List.take_range'_of_length_ge (by omega),
    ← List.range'_append_1, List.map_append]
  rfl

theorem fixedHeader_sum (f : Nat → UInt8) (rest : List UInt8) :
    natSum (words (fixedHeader f ++ rest)) =
      natSum (words (fixedHeader f)) + natSum (words rest) := by
  simp [fixedHeader, List.range', words]
  omega

theorem fixedHeader_reply (f : Nat → UInt8) :
    natSum (words (fixedHeader (replyByte f))) = natSum (words (fixedHeader f)) := by
  simp [fixedHeader, List.range', words, replyByte]
  omega

theorem fixedHeader_nonzero {f : Nat → UInt8} (some_ihl : 0 < (f 14).toNat % 16) :
    0 < natSum (words (fixedHeader f)) := by
  simp only [fixedHeader, List.range', List.map_cons, words, natSum_cons, word_toNat]
  omega

/-- The type drops by 8 in one word and the checksum grows by 8 in the next, end-around, so
    that options overwritten by them keep their sum. -/
theorem options_reply {f : Nat → UInt8} (echo : f 34 = ICMP_ECHO) (k : Nat) :
    natSum (words (options (replyByte f) k)) ≡ natSum (words (options f k)) [MOD 65535] := by
  cases k with
  | zero => rfl
  | succ k =>
    have size : 4 * (k + 1) = 4 * k + 4 := by omega
    have tail : (List.range' 38 (4 * k)).map (replyByte f) = (List.range' 38 (4 * k)).map f := by
      apply List.map_congr_left
      intro i member
      have from38 := (List.mem_range'_1.mp member).1
      exact replyByte_rest f (by omega)
    have update := csumReplace2_echo (hostChecksum f)
    obtain ⟨-, low, high⟩ := word_split (csumReplace2 (hostChecksum f) 8 0)
    have r34 : replyByte f 34 = 0 := rfl
    have r35 : replyByte f 35 = f 35 := rfl
    have r36 : replyByte f 36 = (csumReplace2 (hostChecksum f) 8 0).toUInt8 := rfl
    have r37 : replyByte f 37 = (csumReplace2 (hostChecksum f) 8 0 / 256).toUInt8 := rfl
    have eight : (f 34).toNat = 8 := by rw [echo]; rfl
    have host : (hostChecksum f).toNat = 256 * (f 37).toNat + (f 36).toNat := word_toNat _ _
    simp only [options, size, List.range', List.map_cons, tail, words, natSum_cons, word_toNat,
      Nat.reduceAdd, r34, r35, r36, r37, low, high, eight, UInt8.toNat_zero]
    generalize natSum _ = others
    have b36 := (f 36).toNat_lt
    have b37 := (f 37).toNat_lt
    rw [host] at update
    generalize (csumReplace2 (hostChecksum f) 8 0).toNat = c at update ⊢
    unfold Nat.ModEq
    split at update
    · omega
    · omega

theorem header_verifies_iff {f : Nat → UInt8} {len : Nat} (echo : f 34 = ICMP_ECHO)
    (five : 5 ≤ (f 14).toNat % 16) (inside : 14 + 4 * ((f 14).toNat % 16) ≤ len) :
    Verifies (words (ipHeader (frameOfBytes (replyByte f) len))) ↔
      Verifies (words (ipHeader (frameOfBytes f len))) := by
  obtain ⟨k, size⟩ : ∃ k, (f 14).toNat % 16 = k + 5 := ⟨(f 14).toNat % 16 - 5, by omega⟩
  rw [header_split f (by omega) size, header_split (replyByte f) (by omega) size, verifies_iff,
    verifies_iff, fixedHeader_sum, fixedHeader_sum, fixedHeader_reply]
  have same := options_reply echo k
  have some_sum := fixedHeader_nonzero (by omega : 0 < (f 14).toNat % 16)
  unfold Nat.ModEq at same
  omega

/- process_packet on a frame of the UMEM. -/

def packetAt (d : XdpDesc) (buffer : Nat → UInt8) : Nat → UInt8 :=
  fun off => buffer (d.addr.toNat + off)

theorem frameAt_eq (d : XdpDesc) (buffer : Nat → UInt8) :
    frameAt d buffer = frameOfBytes (packetAt d buffer) d.len.toNat := rfl

theorem processAt_eq {sendOk queued : Bool} {d : XdpDesc} {s : System} {after : PacketState}
    (run : processPacket sendOk d.len ⟨packetAt d s.xsk.buffer, [], s.xsk.stats, s.sent⟩ =
      (queued, after)) :
    processAt sendOk d s = (queued, { s with
      xsk := { s.xsk with
        buffer := fun a =>
          if d.addr.toNat ≤ a then after.byte (a - d.addr.toNat) else s.xsk.buffer a
        stats := after.stats }
      sent := after.sent }) := by
  unfold packetAt at run
  unfold processAt
  simp only [run]

theorem processAt_rejected (sendOk : Bool) {d : XdpDesc} {s : System}
    (rejects : ¬ Accepts (packetAt d s.xsk.buffer) d.len) :
    processAt sendOk d s = (false, s) := by
  have same : (fun a => if d.addr.toNat ≤ a then packetAt d s.xsk.buffer (a - d.addr.toNat)
      else s.xsk.buffer a) = s.xsk.buffer := by
    funext a
    by_cases above : d.addr.toNat ≤ a
    · rw [if_pos above, packetAt, Nat.add_sub_cancel' above]
    · rw [if_neg above]
  rw [processAt_eq (processPacket_rejected sendOk d.len _ rejects)]
  simp only [same]

def replyBuffer (d : XdpDesc) (buffer : Nat → UInt8) (a : Nat) : UInt8 :=
  if d.addr.toNat ≤ a then replyByte (packetAt d buffer) (a - d.addr.toNat) else buffer a

theorem processAt_accepted (sendOk : Bool) {d : XdpDesc} {s : System}
    (accepts : Accepts (packetAt d s.xsk.buffer) d.len) :
    processAt sendOk d s = (false, { s with
      xsk := { s.xsk with
        buffer := replyBuffer d s.xsk.buffer
        stats := if sendOk then { s.xsk.stats with
            txBytes := s.xsk.stats.txBytes + d.len.toUInt64
            txPackets := s.xsk.stats.txPackets + 1 } else s.xsk.stats }
      sent := s.sent ++ [frameOfBytes (replyByte (packetAt d s.xsk.buffer)) d.len.toNat] }) :=
  processAt_eq (processPacket_accepted sendOk d.len _ accepts)

theorem replyBuffer_frame (d : XdpDesc) (buffer : Nat → UInt8) :
    frameAt d (replyBuffer d buffer) = frameOfBytes (replyByte (packetAt d buffer)) d.len.toNat := by
  apply List.map_congr_left
  intro off _
  rw [replyBuffer, if_pos (Nat.le_add_right _ _), Nat.add_sub_cancel_left]

theorem replyBuffer_outside {d : XdpDesc} (long : 42 ≤ d.len.toNat) (buffer : Nat → UInt8)
    {a : Nat} (outside : a < d.addr.toNat ∨ d.addr.toNat + d.len.toNat ≤ a) :
    replyBuffer d buffer a = buffer a := by
  rcases outside with below | above
  · rw [replyBuffer, if_neg (by omega)]
  · rw [replyBuffer, if_pos (by omega), replyByte_rest _ (by omega), packetAt,
      Nat.add_sub_cancel' (by omega)]

theorem reply_rejected {request reply : List UInt8} (made : ReplyTo request reply)
    (sendOk : Bool) {d : XdpDesc} {s : System} (arrived : frameAt d s.xsk.buffer = reply)
    (long : 42 ≤ reply.length) : processAt sendOk d s = (false, s) := by
  apply processAt_rejected
  rintro ⟨-, -, -, -, echo⟩
  have type := made.type.2
  rw [← arrived, frameAt_eq] at type long
  rw [frameOfBytes, List.length_map, List.length_range] at long
  rw [frameOfBytes_getD _ (by omega), echo] at type
  exact absurd type (by decide)

/-- process_packet on a frame of at least 42 bytes either changes nothing at all, or sends
    exactly the reply, left in place of the request, and counts it if sendto succeeds. The
    header checksum is right in the reply just when it was in the request, and a reply that
    comes in anywhere is rejected. -/
theorem process_packet_effect (sendOk : Bool) (d : XdpDesc) (s : System)
    (long : 42 ≤ d.len.toNat) :
    (¬ Accepts (packetAt d s.xsk.buffer) d.len ∧ processAt sendOk d s = (false, s)) ∨
    (Accepts (packetAt d s.xsk.buffer) d.len ∧ ∃ reply buffer,
      processAt sendOk d s = (false, { s with
        xsk := { s.xsk with
          buffer := buffer
          stats := if sendOk then { s.xsk.stats with
              txBytes := s.xsk.stats.txBytes + d.len.toUInt64
              txPackets := s.xsk.stats.txPackets + 1 } else s.xsk.stats }
        sent := s.sent ++ [reply] }) ∧
      ReplyTo (frameAt d s.xsk.buffer) reply ∧ frameAt d buffer = reply ∧
      (∀ a, a < d.addr.toNat ∨ d.addr.toNat + d.len.toNat ≤ a → buffer a = s.xsk.buffer a) ∧
      (20 ≤ headerLength (frameAt d s.xsk.buffer) →
        14 + headerLength (frameAt d s.xsk.buffer) ≤ d.len.toNat →
        (Verifies (words (ipHeader reply)) ↔
          Verifies (words (ipHeader (frameAt d s.xsk.buffer))))) ∧
      ∀ againOk e t, frameAt e t.xsk.buffer = reply → processAt againOk e t = (false, t)) := by
  by_cases accepts : Accepts (packetAt d s.xsk.buffer) d.len
  · right
    have echo := accepts.2.2.2.2
    have made := reply_to (packetAt d s.xsk.buffer) long echo
    refine ⟨accepts, _, _, processAt_accepted sendOk accepts, made, replyBuffer_frame d _,
      fun a outside => replyBuffer_outside long _ outside, ?_, ?_⟩
    · intro five inside
      rw [headerLength, frameAt_eq, frameOfBytes_getD _ (by omega)] at five inside
      exact header_verifies_iff echo (by omega) inside
    · intro againOk e t arrived
      exact reply_rejected made againOk arrived (by simpa [frameOfBytes] using long)
  · left
    exact ⟨accepts, processAt_rejected sendOk accepts⟩

def pingDesc : XdpDesc := ⟨4096, 42⟩

def pingReceived : System where
  xsk := freshSocket ⟨fun a => ping.bytes.getD (a - 4096) 0, fun _ => 0, fun _ => 0, fun _ => ⟨0, 0⟩⟩
  pc := .idle
  sent := []
  held := []

theorem process_packet_effect_on_ping :
    ∃ reply, (processAt true pingDesc pingReceived).2.sent = [reply] ∧
      ReplyTo (frameAt pingDesc pingReceived.xsk.buffer) reply := by
  rcases process_packet_effect true pingDesc pingReceived (by decide) with
    ⟨rejects, -⟩ | ⟨-, reply, buffer, run, made, -⟩
  · exact absurd (by decide) rejects
  · refine ⟨reply, ?_, made⟩
    rw [run]
    rfl

end XSKReply
