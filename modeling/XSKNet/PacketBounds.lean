import XSKNet.KernelPrograms

/- Which packets process_packet handles from their own bytes alone. The kernel
   program admits a packet from 34 bytes on, the header tests of process_packet ask
   for no more than 20, and the ICMP header it reads and rewrites ends at byte 42. -/
namespace XSKBounds
open OnesComplement XSKPacket XSKKernel

def received (p : Packet) (stale : Nat → UInt8) (i : Nat) : UInt8 :=
  (p.bytes[i]?).getD (stale i)

def arrival (p : Packet) (stale : Nat → UInt8) (stats : StatsRecord) : PacketState :=
  { byte := received p stale, accesses := [], stats := stats, sent := [] }

def InBounds (p : Packet) : Prop :=
  ∀ (stale : Nat → UInt8) (stats : StatsRecord) (ok : Bool),
    ∀ off ∈ (processPacket ok p.len (arrival p stale stats)).2.accesses, off < p.bytes.length

/-- Neither the decision nor the reply depends on the stale bytes. -/
def StaleIndependent (p : Packet) : Prop :=
  ∀ (stale stale' : Nat → UInt8) (stats : StatsRecord) (ok : Bool),
    (processPacket ok p.len (arrival p stale stats)).2.sent =
      (processPacket ok p.len (arrival p stale' stats)).2.sent ∧
    (processPacket ok p.len (arrival p stale stats)).2.stats =
      (processPacket ok p.len (arrival p stale' stats)).2.stats

/-- Long enough for the ICMP checksum, or for the type and not an echo request. -/
def Covered (p : Packet) : Prop :=
  38 ≤ p.bytes.length ∨ (35 ≤ p.bytes.length ∧ byteAt p 34 ≠ ICMP_ECHO)

theorem received_inside (p : Packet) (stale : Nat → UInt8) {i : Nat}
    (inside : i < p.bytes.length) : received p stale i = byteAt p i := by
  simp [received, byteAt, inside]

theorem received_outside (p : Packet) (stale : Nat → UInt8) {i : Nat}
    (outside : p.bytes.length ≤ i) : received p stale i = stale i := by
  simp [received, outside]

/-- Once the kernel program has let a packet through, only the type is left to test. -/
theorem accepts_iff_echo (p : Packet) (stale : Nat → UInt8) (parsed : headerVerdict p = none) :
    Accepts (received p stale) p.len ↔ received p stale 34 = ICMP_ECHO := by
  obtain ⟨long, e12, e13, e23⟩ := (headerVerdict_none_iff p).mp parsed
  have size : sizeofIphdr ≤ p.len := by
    rw [UInt32.le_iff_toNat_le, p.len_toNat]
    exact Nat.le_trans (by decide) long
  have r12 := received_inside p stale (i := 12) (by omega)
  have r13 := received_inside p stale (i := 13) (by omega)
  have r23 := received_inside p stale (i := 23) (by omega)
  simp [Accepts, size, r12, r13, r23, e12, e13, e23]

theorem rejectAccesses_parsed (p : Packet) (stale : Nat → UInt8)
    (parsed : headerVerdict p = none) :
    rejectAccesses (received p stale) p.len = [12, 13, 23, 34] := by
  obtain ⟨long, e12, e13, e23⟩ := (headerVerdict_none_iff p).mp parsed
  have size : ¬ p.len < sizeofIphdr := by
    rw [UInt32.lt_iff_toNat_lt, p.len_toNat]
    change ¬ p.bytes.length < 20
    omega
  have ether : word (received p stale 12) (received p stale 13) = ETH_P_IP := by
    rw [received_inside p stale (by omega), received_inside p stale (by omega)]
    exact (word_eq_ETH_P_IP_iff _ _).mpr ⟨e12, e13⟩
  have icmp_proto : received p stale 23 = IPPROTO_ICMP := by
    rw [received_inside p stale (by omega), e23]
  simp [rejectAccesses, size, ether, icmp_proto]

theorem replyAccesses_lt : ∀ off ∈ replyAccesses, off < 38 := by decide

theorem replyAccesses_reach : 37 ∈ replyAccesses := by decide

theorem replyByte_congr {f g : Nat → UInt8} {n : Nat} (long : 38 ≤ n)
    (agree : ∀ i, i < n → f i = g i) {i : Nat} (inside : i < n) :
    replyByte f i = replyByte g i := by
  have checksum : hostChecksum f = hostChecksum g := by
    rw [hostChecksum, hostChecksum, agree 36 (by omega), agree 37 (by omega)]
  unfold replyByte
  rw [checksum]
  split_ifs <;> first | rfl | exact agree _ (by omega)

theorem accepted_long {p : Packet} {stale : Nat → UInt8} (parsed : headerVerdict p = none)
    (covered : Covered p) (accepts : Accepts (received p stale) p.len) :
    38 ≤ p.bytes.length := by
  rcases covered with enough | ⟨enough, other⟩
  · exact enough
  · have echo := (accepts_iff_echo p stale parsed).mp accepts
    rw [received_inside p stale (by omega)] at echo
    exact absurd echo other

theorem inBounds_iff (p : Packet) (parsed : headerVerdict p = none) :
    InBounds p ↔ Covered p := by
  have long := ((headerVerdict_none_iff p).mp parsed).1
  constructor
  · intro bounds
    by_contra short
    simp only [Covered, not_or, not_and, Decidable.not_not, Nat.not_le] at short
    obtain ⟨below, echo⟩ := short
    -- stale bytes that make a truncated packet look like an echo request
    have run := bounds (fun _ => ICMP_ECHO) ⟨0, 0, 0, 0, 0⟩ true
    have type : received p (fun _ => ICMP_ECHO) 34 = ICMP_ECHO := by
      by_cases inside : 35 ≤ p.bytes.length
      · rw [received_inside p _ (by omega), echo inside]
      · rw [received_outside p _ (by omega)]
    have accepts := (accepts_iff_echo p (fun _ => ICMP_ECHO) parsed).mpr type
    rw [processPacket_accepted true p.len (arrival p _ _) accepts] at run
    have reach := run 37 (by simp [arrival, replyAccesses_reach])
    omega
  · intro covered stale stats ok off touched
    by_cases accepts : Accepts (received p stale) p.len
    · rw [processPacket_accepted ok p.len (arrival p stale stats) accepts] at touched
      have bound := accepted_long parsed covered accepts
      simp only [arrival, List.nil_append, List.mem_append] at touched
      rcases touched with header | rewrite
      · simp only [List.mem_cons, List.not_mem_nil, or_false] at header
        omega
      · have := replyAccesses_lt off rewrite
        omega
    · rw [processPacket_rejected ok p.len (arrival p stale stats) accepts] at touched
      have bound : 35 ≤ p.bytes.length := by
        rcases covered with enough | enough <;> omega
      simp only [arrival, rejectAccesses_parsed p stale parsed, List.nil_append, List.mem_cons,
        List.not_mem_nil, or_false] at touched
      omega

theorem covered_staleIndependent (p : Packet) (parsed : headerVerdict p = none)
    (covered : Covered p) : StaleIndependent p := by
  intro stale stale' stats ok
  have same_type : received p stale 34 = received p stale' 34 := by
    have inside : 34 < p.bytes.length := by rcases covered with h | h <;> omega
    rw [received_inside p stale inside, received_inside p stale' inside]
  by_cases accepts : Accepts (received p stale) p.len
  · have accepts' : Accepts (received p stale') p.len := by
      rw [accepts_iff_echo p stale' parsed, ← same_type]
      exact (accepts_iff_echo p stale parsed).mp accepts
    have bound := accepted_long parsed covered accepts
    rw [processPacket_accepted ok p.len (arrival p stale stats) accepts,
      processPacket_accepted ok p.len (arrival p stale' stats) accepts']
    refine ⟨?_, rfl⟩
    simp only [arrival, List.nil_append, List.cons.injEq, and_true]
    apply List.map_congr_left
    intro i member
    have inside : i < p.bytes.length := by
      rw [List.mem_range, p.len_toNat] at member
      exact member
    refine replyByte_congr bound (fun j hj => ?_) inside
    rw [received_inside p stale hj, received_inside p stale' hj]
  · have rejects' : ¬ Accepts (received p stale') p.len := by
      intro accepts'
      apply accepts
      rw [accepts_iff_echo p stale parsed, same_type]
      exact (accepts_iff_echo p stale' parsed).mp accepts'
    rw [processPacket_rejected ok p.len (arrival p stale stats) accepts,
      processPacket_rejected ok p.len (arrival p stale' stats) rejects']
    exact ⟨rfl, rfl⟩

/-- For a packet the kernel program redirects, all accesses are inside the packet and
    nothing depends on stale bytes exactly when the packet is covered. -/
theorem packet_access_in_bounds_iff (xsksMap : Nat → Option Nat) (index : Nat) (p : Packet)
    (passed : xdpSockProg xsksMap index p = .redirectMap index) :
    (InBounds p ∧ StaleIndependent p) ↔ Covered p := by
  have parsed := xdpSockProg_redirected passed
  constructor
  · rintro ⟨bounds, -⟩
    exact (inBounds_iff p parsed).mp bounds
  · intro covered
    exact ⟨(inBounds_iff p parsed).mpr covered, covered_staleIndependent p parsed covered⟩

def icmpPacket (n : Nat) (short : n < 2 ^ 32) : Packet where
  bytes := (List.range n).map fun i =>
    if i = 12 then 0x08 else if i = 14 then 0x45 else if i = 23 then IPPROTO_ICMP else 0
  fits := by simpa using short

theorem packet_access_in_bounds_at_42 :
    xdpSockProg (fun _ => some 5) 0 (icmpPacket 42 (by decide)) = .redirectMap 0 ∧
      ((InBounds (icmpPacket 42 (by decide)) ∧ StaleIndependent (icmpPacket 42 (by decide))) ↔
        Covered (icmpPacket 42 (by decide))) :=
  ⟨by decide, packet_access_in_bounds_iff (fun _ => some 5) 0 _ (by decide)⟩

/-- A 34-byte packet reaches the socket, and the stale byte behind it decides whether
    process_packet answers. -/
theorem truncated_packet_reads_stale_bytes :
    xdpSockProg (fun _ => some 5) 0 (icmpPacket 34 (by decide)) = .redirectMap 0 ∧
      ¬ InBounds (icmpPacket 34 (by decide)) ∧ ¬ StaleIndependent (icmpPacket 34 (by decide)) := by
  have parsed : headerVerdict (icmpPacket 34 (by decide)) = none := by decide
  have size : (icmpPacket 34 (by decide)).bytes.length = 34 := by decide
  refine ⟨by decide, ?_, ?_⟩
  · rw [inBounds_iff _ parsed, Covered, size]
    omega
  · intro independent
    have differ := (independent (fun _ => ICMP_ECHO) (fun _ => 0) ⟨0, 0, 0, 0, 0⟩ true).1
    have answers : Accepts (received (icmpPacket 34 (by decide)) fun _ => ICMP_ECHO)
        (icmpPacket 34 (by decide)).len := by decide
    have silent : ¬ Accepts (received (icmpPacket 34 (by decide)) fun _ => 0)
        (icmpPacket 34 (by decide)).len := by decide
    rw [processPacket_accepted true _ (arrival _ _ _) answers,
      processPacket_rejected true _ (arrival _ _ _) silent] at differ
    simp [arrival] at differ

end XSKBounds
