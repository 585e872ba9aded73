import XSKNet.PacketBounds

/- The four parses of a packet against one classification: the three XDP programs, with the
   pointer comparisons of the source, and the checks at the start of process_packet. -/
namespace XSKPacketClass
open OnesComplement XSKPacket XSKKernel XSKBounds

inductive PacketClass where
  | dropped
  | stack
  | forwarded
  deriving DecidableEq, Repr

def IsIpv4 (p : Packet) : Prop := byteAt p 12 = 0x08 ∧ byteAt p 13 = 0x00
def IsIcmp (p : Packet) : Prop := byteAt p 23 = 1

instance decidableIsIpv4 (p : Packet) : Decidable (IsIpv4 p) := inferInstanceAs (Decidable (_ ∧ _))
instance decidableIsIcmp (p : Packet) : Decidable (IsIcmp p) := inferInstanceAs (Decidable (_ = _))

def packetClass (p : Packet) : PacketClass :=
  if p.bytes.length < 14 ∨ (IsIpv4 p ∧ p.bytes.length < 34) then .dropped
  else if ¬ IsIpv4 p ∨ ¬ IsIcmp p then .stack
  else .forwarded

/-- What a program does with each class, given its own way of forwarding. -/
def act (forward : XdpAction) : PacketClass → XdpAction
  | .dropped => .drop
  | .stack => .pass
  | .forwarded => forward

/- The programs on the context they are given. -/

/-- The packet lies at data and ends before dataEnd; what lies behind is not to be read. -/
structure XdpMd where
  memory : Nat → UInt8
  data : Nat
  dataEnd : Nat
  rxQueueIndex : Nat
  ordered : data ≤ dataEnd
  fits : dataEnd - data < 2 ^ 32

def XdpMd.packet (ctx : XdpMd) : Packet where
  bytes := (List.range (ctx.dataEnd - ctx.data)).map fun i => ctx.memory (ctx.data + i)
  fits := by simpa using ctx.fits

/-- OVER(x, d) for a struct of the given size at x. -/
def overEnd (x size d : Nat) : Bool := decide (d < x + size)

def ethHProto (ctx : XdpMd) (eth : Nat) : UInt16 :=
  word (ctx.memory (eth + hProto + 1)) (ctx.memory (eth + hProto))

def iphProtocol (ctx : XdpMd) (iph : Nat) : UInt8 := ctx.memory (iph + 9)

/-- phy_xdp.c. -/
def xdpRedirectCtx (xdpDevmap : Nat → Option Nat) (ctx : XdpMd) : XdpAction :=
  let eth := ctx.data
  let iph := eth + 14
  if overEnd eth 14 ctx.dataEnd then .drop
  else if ethHProto ctx eth ≠ ntohs ETH_P_IP then .pass
  else if overEnd iph 20 ctx.dataEnd then .drop
  else if iphProtocol ctx iph ≠ IPPROTO_ICMP then .pass
  else
    let port := 0
    match xdpDevmap port with
    | none => .drop
    | some ifindex => .redirect ifindex

/-- outer_xdp.c. -/
def xdpRedirectDummyProgCtx (ctx : XdpMd) : XdpAction :=
  let eth := ctx.data
  let iph := eth + 14
  if overEnd eth 14 ctx.dataEnd then .drop
  else if ethHProto ctx eth ≠ ntohs ETH_P_IP then .pass
  else if overEnd iph 20 ctx.dataEnd then .drop
  else if iphProtocol ctx iph ≠ IPPROTO_ICMP then .pass
  else .pass

/-- inner_xdp.c. -/
def xdpSockProgCtx (xsksMap : Nat → Option Nat) (ctx : XdpMd) : XdpAction :=
  let index := ctx.rxQueueIndex
  let eth := ctx.data
  let iph := eth + 14
  if overEnd eth 14 ctx.dataEnd then .drop
  else if ethHProto ctx eth ≠ ntohs ETH_P_IP then .pass
  else if overEnd iph 20 ctx.dataEnd then .drop
  else if iphProtocol ctx iph ≠ IPPROTO_ICMP then .pass
  else if (xsksMap index).isSome then .redirectMap index
  else .drop

/- The parts of process_packet. -/

def headerChecks (len : UInt32) : PacketM Bool := do
  if len < sizeofEthhdr then return false
  if len < sizeofIphdr then return false
  if len < sizeofIcmphdr then return false
  let proto ← load16 hProto
  if ntohs proto ≠ ETH_P_IP then return false
  let ipProto ← load8 protocol
  if ipProto ≠ IPPROTO_ICMP then return false
  return true

def answerEcho (sendOk : Bool) (len : UInt32) : PacketM Bool := do
  let type ← load8 icmpType
  if type ≠ ICMP_ECHO then return false
  makeReply
  logReply
  let ret ← sendto sendOk len
  if !ret then return false
  countTx len
  return false

theorem headerChecks_value (len : UInt32) (s : PacketState) :
    (headerChecks len s).1 = true ↔
      sizeofIphdr ≤ len ∧ word (s.byte 12) (s.byte 13) = ETH_P_IP ∧ s.byte 23 = IPPROTO_ICMP := by
  by_cases long : sizeofIphdr ≤ len
  · have tests := length_tests len long
    by_cases ether : word (s.byte 12) (s.byte 13) = ETH_P_IP
    · by_cases icmp_proto : s.byte 23 = IPPROTO_ICMP
      · simp [headerChecks, tests, load16_eq, load8, ntohs_word, ether, icmp_proto, long]
      · simp [headerChecks, tests, load16_eq, load8, ntohs_word, ether, icmp_proto]
    · simp [headerChecks, tests, load16_eq, ntohs_word, ether]
  · have short : len < sizeofIphdr := UInt32.not_le.mp long
    by_cases tiny : len < sizeofEthhdr
    · simp [headerChecks, tiny, long]
    · simp [headerChecks, tiny, short, long]

/-- process_packet is its checks, and behind them the answer to an echo request. -/
theorem processPacket_checks (sendOk : Bool) (len : UInt32) :
    processPacket sendOk len = (do
      if ← headerChecks len then answerEcho sendOk len else return false) := by
  funext s
  by_cases tiny : len < sizeofEthhdr
  · simp only [processPacket, headerChecks, bind_apply, pure_apply, tiny, if_true]
    rfl
  by_cases short : len < sizeofIphdr
  · simp only [processPacket, headerChecks, bind_apply, pure_apply, tiny, short, if_true, if_false]
    rfl
  by_cases small : len < sizeofIcmphdr
  · simp only [processPacket, headerChecks, bind_apply, pure_apply, tiny, short, small, if_true,
      if_false]
    rfl
  by_cases ether : ntohs (word (s.byte 13) (s.byte 12)) = ETH_P_IP
  · by_cases icmp_proto : s.byte 23 = IPPROTO_ICMP
    · simp only [processPacket, headerChecks, answerEcho, bind_apply, pure_apply, load16_eq, load8,
        tiny, short, small, ether, icmp_proto, ne_eq, not_true_eq_false, if_true, if_false]
    · simp only [processPacket, headerChecks, bind_apply, pure_apply, load16_eq, load8,
        tiny, short, small, ether, icmp_proto, ne_eq, not_true_eq_false, not_false_eq_true,
        if_true, if_false]
      rfl
  · simp only [processPacket, headerChecks, bind_apply, pure_apply, load16_eq,
      tiny, short, small, ether, ne_eq, not_false_eq_true, if_true, if_false]
    rfl

/- Pointers and lengths. -/

theorem packet_length (ctx : XdpMd) : ctx.packet.bytes.length = ctx.dataEnd - ctx.data := by
  simp [XdpMd.packet]

theorem byteAt_packet (ctx : XdpMd) {i : Nat} (inside : i < ctx.packet.bytes.length) :
    byteAt ctx.packet i = ctx.memory (ctx.data + i) := by
  rw [packet_length] at inside
  simp [byteAt, XdpMd.packet, inside]

theorem overEnd_iff (ctx : XdpMd) (offset size : Nat) :
    overEnd (ctx.data + offset) size ctx.dataEnd = true ↔
      ctx.packet.bytes.length < offset + size := by
  have ordered := ctx.ordered
  rw [packet_length]
  simp only [overEnd, decide_eq_true_eq]
  omega

theorem ether_iff (p : Packet) :
    word (byteAt p 13) (byteAt p 12) = ntohs ETH_P_IP ↔ IsIpv4 p := by
  have swapped : ntohs ETH_P_IP = word 0x00 0x08 := by decide
  unfold IsIpv4
  rw [swapped, ← UInt16.toNat_inj, ← UInt8.toNat_inj, ← UInt8.toNat_inj, word_toNat, word_toNat]
  have h13 := (byteAt p 13).toNat_lt
  have h12 := (byteAt p 12).toNat_lt
  simp only [UInt8.reduceToNat]
  omega

theorem parse_verdict (ctx : XdpMd) (forward : XdpAction) :
    (if overEnd ctx.data 14 ctx.dataEnd then .drop
      else if ethHProto ctx ctx.data ≠ ntohs ETH_P_IP then .pass
      else if overEnd (ctx.data + 14) 20 ctx.dataEnd then .drop
      else if iphProtocol ctx (ctx.data + 14) ≠ IPPROTO_ICMP then .pass
      else forward) = (headerVerdict ctx.packet).getD forward := by
  have eth_end := overEnd_iff ctx 0 14
  have iph_end := overEnd_iff ctx 14 20
  rw [Nat.add_zero, Nat.zero_add] at eth_end
  simp only [Nat.reduceAdd] at iph_end
  unfold headerVerdict
  simp only [pastEnd, ipv4, icmp, eth, hProto, protocol, Nat.reduceAdd]
  by_cases short : ctx.packet.bytes.length < 14
  · simp [eth_end, short]
  · have ether : ethHProto ctx ctx.data = word (byteAt ctx.packet 13) (byteAt ctx.packet 12) := by
      rw [byteAt_packet ctx (by omega), byteAt_packet ctx (by omega)]
      rfl
    by_cases truncated : ctx.packet.bytes.length < 34
    · by_cases ip : ethHProto ctx ctx.data = ntohs ETH_P_IP
      · simp [eth_end, iph_end, short, truncated, ← ether, ip]
      · simp [eth_end, short, ← ether, ip]
    · have proto : iphProtocol ctx (ctx.data + 14) = byteAt ctx.packet 23 := by
        rw [byteAt_packet ctx (by omega)]
        rfl
      by_cases ip : ethHProto ctx ctx.data = ntohs ETH_P_IP
      · by_cases icmp_proto : byteAt ctx.packet 23 = IPPROTO_ICMP
        · simp [eth_end, iph_end, short, truncated, ← ether, ip, proto, icmp_proto]
        · simp [eth_end, iph_end, short, truncated, ← ether, ip, proto, icmp_proto]
      · simp [eth_end, short, ← ether, ip]

theorem headerVerdict_class (p : Packet) (forward : XdpAction) :
    (headerVerdict p).getD forward = act forward (packetClass p) := by
  have ether := ether_iff p
  unfold headerVerdict packetClass
  simp only [pastEnd, ipv4, icmp, eth, hProto, protocol, Nat.reduceAdd, ne_eq, ether]
  by_cases short : p.bytes.length < 14
  · simp [short, act]
  · by_cases ip : IsIpv4 p
    · by_cases truncated : p.bytes.length < 34
      · simp [short, ip, truncated, act]
      · by_cases icmp_proto : byteAt p 23 = IPPROTO_ICMP
        · have is_icmp : IsIcmp p := icmp_proto
          simp [short, ip, truncated, icmp_proto, is_icmp, act]
        · have not_icmp : ¬ IsIcmp p := icmp_proto
          simp [short, ip, truncated, icmp_proto, not_icmp, act]
    · simp [short, ip, act]

theorem parse_classifies (ctx : XdpMd) (forward : XdpAction) :
    (if overEnd ctx.data 14 ctx.dataEnd then .drop
      else if ethHProto ctx ctx.data ≠ ntohs ETH_P_IP then .pass
      else if overEnd (ctx.data + 14) 20 ctx.dataEnd then .drop
      else if iphProtocol ctx (ctx.data + 14) ≠ IPPROTO_ICMP then .pass
      else forward) = act forward (packetClass ctx.packet) :=
  (parse_verdict ctx forward).trans (headerVerdict_class ctx.packet forward)

/- The programs. -/

/-- How the physical interface forwards: to the port in slot 0. -/
def redirectToPort (xdpDevmap : Nat → Option Nat) : XdpAction :=
  match xdpDevmap 0 with
  | none => .drop
  | some ifindex => .redirect ifindex

def redirectToSocket (xsksMap : Nat → Option Nat) (index : Nat) : XdpAction :=
  if (xsksMap index).isSome then .redirectMap index else .drop

theorem xdpRedirectCtx_class (xdpDevmap : Nat → Option Nat) (ctx : XdpMd) :
    xdpRedirectCtx xdpDevmap ctx = act (redirectToPort xdpDevmap) (packetClass ctx.packet) :=
  parse_classifies ctx (redirectToPort xdpDevmap)

theorem xdpRedirectDummyProgCtx_class (ctx : XdpMd) :
    xdpRedirectDummyProgCtx ctx = act .pass (packetClass ctx.packet) :=
  parse_classifies ctx .pass

theorem xdpSockProgCtx_class (xsksMap : Nat → Option Nat) (ctx : XdpMd) :
    xdpSockProgCtx xsksMap ctx =
      act (redirectToSocket xsksMap ctx.rxQueueIndex) (packetClass ctx.packet) :=
  parse_classifies ctx (redirectToSocket xsksMap ctx.rxQueueIndex)

theorem programs_on_bytes (xdpDevmap xsksMap : Nat → Option Nat) (ctx : XdpMd) :
    xdpRedirectCtx xdpDevmap ctx = xdpRedirect xdpDevmap ctx.packet ∧
      xdpRedirectDummyProgCtx ctx = xdpRedirectDummyProg ctx.packet ∧
      xdpSockProgCtx xsksMap ctx = xdpSockProg xsksMap ctx.rxQueueIndex ctx.packet := by
  have verdict := headerVerdict_class ctx.packet
  rw [xdpRedirectCtx_class, xdpRedirectDummyProgCtx_class, xdpSockProgCtx_class, ← verdict,
    ← verdict, ← verdict]
  unfold xdpRedirect xdpRedirectDummyProg xdpSockProg
  cases headerVerdict ctx.packet with
  | none => exact ⟨rfl, rfl, rfl⟩
  | some action => exact ⟨rfl, rfl, rfl⟩

theorem forwarded_iff (p : Packet) :
    packetClass p = .forwarded ↔ 34 ≤ p.bytes.length ∧ IsIpv4 p ∧ IsIcmp p := by
  unfold packetClass
  by_cases ip : IsIpv4 p
  · by_cases icmp_proto : IsIcmp p
    · by_cases truncated : p.bytes.length < 34
      · simp [ip, truncated]
      · have long : ¬ p.bytes.length < 14 := by omega
        simp [ip, icmp_proto, truncated, long, Nat.not_lt.mp truncated]
    · by_cases short : p.bytes.length < 14 ∨ p.bytes.length < 34
      · simp [ip, icmp_proto, short]
      · simp [ip, icmp_proto, short]
  · by_cases short : p.bytes.length < 14
    · simp [ip, short]
    · simp [ip, short]

theorem checks_iff_forwarded {p : Packet} (long : 34 ≤ p.bytes.length) (stale : Nat → UInt8)
    (stats : StatsRecord) :
    (headerChecks p.len (arrival p stale stats)).1 = true ↔ packetClass p = .forwarded := by
  have size : sizeofIphdr ≤ p.len := by
    rw [UInt32.le_iff_toNat_le, p.len_toNat]
    exact Nat.le_trans (by decide) long
  have r12 : (arrival p stale stats).byte 12 = byteAt p 12 := received_inside p stale (by omega)
  have r13 : (arrival p stale stats).byte 13 = byteAt p 13 := received_inside p stale (by omega)
  have r23 : (arrival p stale stats).byte 23 = byteAt p 23 := received_inside p stale (by omega)
  rw [headerChecks_value, forwarded_iff, r12, r13, r23, word_eq_ETH_P_IP_iff]
  constructor
  · intro ⟨_, ip, icmp_proto⟩
    exact ⟨long, ip, icmp_proto⟩
  · intro ⟨_, ip, icmp_proto⟩
    exact ⟨size, ip, icmp_proto⟩

theorem redirectMap_forwarded {xsksMap : Nat → Option Nat} {ctx : XdpMd} {index : Nat}
    (redirected : xdpSockProgCtx xsksMap ctx = .redirectMap index) :
    packetClass ctx.packet = .forwarded := by
  rw [xdpSockProgCtx_class] at redirected
  cases parsed : packetClass ctx.packet with
  | forwarded => rfl
  | dropped =>
    rw [parsed] at redirected
    cases redirected
  | stack =>
    rw [parsed] at redirected
    cases redirected

/-- The three programs classify every packet alike, each with its own way of forwarding.
    process_packet is its checks and then the answer; they agree with the programs on every
    packet that holds both headers, so none that reaches it through the socket fails them,
    whatever else the frame holds. -/
theorem filters_agree (xdpDevmap xsksMap : Nat → Option Nat) (ctx : XdpMd) (stale : Nat → UInt8)
    (stats : StatsRecord) :
    xdpRedirectCtx xdpDevmap ctx = act (redirectToPort xdpDevmap) (packetClass ctx.packet) ∧
    xdpRedirectDummyProgCtx ctx = act .pass (packetClass ctx.packet) ∧
    xdpSockProgCtx xsksMap ctx =
      act (redirectToSocket xsksMap ctx.rxQueueIndex) (packetClass ctx.packet) ∧
    (34 ≤ ctx.packet.bytes.length →
      ((headerChecks ctx.packet.len (arrival ctx.packet stale stats)).1 = true ↔
        packetClass ctx.packet = .forwarded)) ∧
    (∀ index, xdpSockProgCtx xsksMap ctx = .redirectMap index →
      (headerChecks ctx.packet.len (arrival ctx.packet stale stats)).1 = true) ∧
    ∀ sendOk len, processPacket sendOk len =
      headerChecks len >>= fun passed => if passed then answerEcho sendOk len else pure false := by
  refine ⟨xdpRedirectCtx_class xdpDevmap ctx, xdpRedirectDummyProgCtx_class ctx,
    xdpSockProgCtx_class xsksMap ctx, ?_, ?_, processPacket_checks⟩
  · intro long
    exact checks_iff_forwarded long stale stats
  · intro index redirected
    have forwarded := redirectMap_forwarded redirected
    obtain ⟨long, -⟩ := (forwarded_iff ctx.packet).mp forwarded
    exact (checks_iff_forwarded long stale stats).mpr forwarded

def pingCtx : XdpMd where
  memory a := if a = 1012 then 0x08 else if a = 1023 then 1 else 0
  data := 1000
  dataEnd := 1034
  rxQueueIndex := 0
  ordered := by decide
  fits := by decide

theorem filters_agree_on_ping :
    (headerChecks pingCtx.packet.len (arrival pingCtx.packet (fun _ => 0) ⟨0, 0, 0, 0, 0⟩)).1 =
      true := by
  have agree := filters_agree (fun _ => none) (fun _ => none) pingCtx (fun _ => 0) ⟨0, 0, 0, 0, 0⟩
  obtain ⟨-, -, -, checks, -, -⟩ := agree
  exact (checks (by decide)).mpr (by decide)

end XSKPacketClass
