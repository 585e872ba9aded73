import XSKNet.PacketBounds

/- What received packets do to the statistics and to the sequence of frames sent, when they
   are handled one after the other. -/
namespace XSKLedger
open OnesComplement XSKPacket XSKKernel XSKBounds

structure Account where
  sent : List (List UInt8)
  stats : StatsRecord
  deriving DecidableEq

/-- A packet, with the outcome of sendto should it be answered. -/
abbrev Receipt := Packet × Bool

/-- process_packet on the packet alone, then the two counters of reception. -/
def handleOne (a : Account) (r : Receipt) : Account :=
  let after := (processPacket r.2 r.1.len ⟨byteAt r.1, [], a.stats, a.sent⟩).2
  ⟨after.sent, { after.stats with
    rxBytes := after.stats.rxBytes + r.1.len.toUInt64
    rxPackets := after.stats.rxPackets + 1 }⟩

def oneByOne (rs : List Receipt) (a : Account) : Account := rs.foldl handleOne a

def replyTo (p : Packet) : Option (List UInt8) :=
  if Accepts (byteAt p) p.len then
    some ((List.range p.bytes.length).map (replyByte (byteAt p)))
  else none

def answered (r : Receipt) : Bool := (replyTo r.1).isSome && r.2

def totalBytes : List Receipt → Nat
  | [] => 0
  | r :: rest => r.1.bytes.length + totalBytes rest

theorem len_toUInt64 (p : Packet) : p.len.toUInt64 = UInt64.ofNat p.bytes.length := by
  rw [← UInt64.ofNat_uInt32ToNat, p.len_toNat]

theorem handleOne_eq (a : Account) (r : Receipt) :
    handleOne a r = ⟨a.sent ++ (replyTo r.1).toList, { a.stats with
      rxBytes := a.stats.rxBytes + UInt64.ofNat r.1.bytes.length
      rxPackets := a.stats.rxPackets + 1
      txBytes := a.stats.txBytes + UInt64.ofNat (if answered r then r.1.bytes.length else 0)
      txPackets := a.stats.txPackets + UInt64.ofNat (if answered r then 1 else 0) }⟩ := by
  unfold handleOne answered replyTo
  by_cases accepts : Accepts (byteAt r.1) r.1.len
  · rw [processPacket_accepted _ _ _ accepts, if_pos accepts]
    cases sendOk : r.2 with
    | false => simp [len_toUInt64, r.1.len_toNat]
    | true => simp [len_toUInt64, r.1.len_toNat]
  · rw [processPacket_rejected _ _ _ accepts, if_neg accepts]
    simp [len_toUInt64]

theorem ofNat_add_assoc (x : UInt64) (a b : Nat) :
    x + UInt64.ofNat a + UInt64.ofNat b = x + UInt64.ofNat (a + b) := by
  rw [UInt64.ofNat_add, UInt64.add_assoc]

/-- Replies in arrival order, and every counter its own total modulo 2^64. -/
theorem oneByOne_eq (rs : List Receipt) (a : Account) :
    oneByOne rs a = ⟨a.sent ++ rs.filterMap fun r => replyTo r.1, { a.stats with
      rxBytes := a.stats.rxBytes + UInt64.ofNat (totalBytes rs)
      rxPackets := a.stats.rxPackets + UInt64.ofNat rs.length
      txBytes := a.stats.txBytes + UInt64.ofNat (totalBytes (rs.filter answered))
      txPackets := a.stats.txPackets + UInt64.ofNat (rs.filter answered).length }⟩ := by
  induction rs generalizing a with
  | nil => simp [oneByOne, totalBytes]
  | cons r rest ih =>
    have one : a.stats.rxPackets + 1 = a.stats.rxPackets + UInt64.ofNat 1 := rfl
    have replies : (r :: rest).filterMap (fun r => replyTo r.1) =
        (replyTo r.1).toList ++ rest.filterMap fun r => replyTo r.1 := by
      cases reply : replyTo r.1 with
      | none => simp [reply]
      | some frame => simp [reply]
    change oneByOne rest (handleOne a r) = _
    rw [ih, handleOne_eq, replies]
    simp only [one, ofNat_add_assoc, List.append_assoc, List.length_cons, totalBytes]
    cases success : answered r with
    | false =>
      rw [List.filter_cons_of_neg (by simp [success])]
      simp [Nat.add_comm 1]
    | true =>
      rw [List.filter_cons_of_pos success]
      simp [totalBytes, Nat.add_comm 1]

theorem totalBytes_filter_le (keep : Receipt → Bool) (rs : List Receipt) :
    totalBytes (rs.filter keep) ≤ totalBytes rs := by
  induction rs with
  | nil => exact Nat.le_refl 0
  | cons r rest ih =>
    cases kept : keep r with
    | false =>
      rw [List.filter_cons_of_neg (by simp [kept])]
      exact Nat.le_trans ih (Nat.le_add_left _ _)
    | true =>
      rw [List.filter_cons_of_pos kept]
      exact Nat.add_le_add_left ih _

theorem processPacket_agree {f g : Nat → UInt8} {len : UInt32} (long : 42 ≤ len.toNat)
    (agree : ∀ i, i < len.toNat → f i = g i) (ok : Bool) (stats : StatsRecord)
    (sent : List (List UInt8)) :
    (processPacket ok len ⟨f, [], stats, sent⟩).2.sent =
        (processPacket ok len ⟨g, [], stats, sent⟩).2.sent ∧
      (processPacket ok len ⟨f, [], stats, sent⟩).2.stats =
        (processPacket ok len ⟨g, [], stats, sent⟩).2.stats := by
  have same : Accepts f len ↔ Accepts g len := by
    unfold Accepts
    rw [agree 12 (by omega), agree 13 (by omega), agree 23 (by omega), agree 34 (by omega)]
  by_cases accepts : Accepts f len
  · rw [processPacket_accepted _ _ ⟨f, [], stats, sent⟩ accepts,
      processPacket_accepted _ _ ⟨g, [], stats, sent⟩ (same.mp accepts)]
    refine ⟨?_, rfl⟩
    apply congrArg fun frame => sent ++ [frame]
    apply List.map_congr_left
    intro i member
    exact replyByte_congr (by omega) agree (List.mem_range.mp member)
  · rw [processPacket_rejected _ _ ⟨f, [], stats, sent⟩ accepts,
      processPacket_rejected _ _ ⟨g, [], stats, sent⟩ (fun other => accepts (same.mpr other))]
    exact ⟨rfl, rfl⟩

theorem processPacket_behind (ok : Bool) (len : UInt32) (s : PacketState) {i : Nat}
    (behind : 38 ≤ i) : (processPacket ok len s).2.byte i = s.byte i := by
  by_cases accepts : Accepts s.byte len
  · rw [processPacket_accepted ok len s accepts]
    simp (disch := omega) only [replyByte, if_neg]
  · rw [processPacket_rejected ok len s accepts]

end XSKLedger
