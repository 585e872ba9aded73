import XSKNet.Packet

/- The XDP programs of src/kern. A packet is the list of bytes between ctx->data and
   ctx->data_end; OVER(x, d) holds when the struct at x does not end before d. -/
namespace XSKKernel
open OnesComplement XSKPacket

inductive XdpAction where
  | drop
  | pass
  | redirect (ifindex : Nat)
  | redirectMap (index : Nat)
  deriving DecidableEq, Repr

/-- A received packet; its length fits the 32-bit len of a descriptor. -/
structure Packet where
  bytes : List UInt8
  fits : bytes.length < 2 ^ 32

def Packet.len (p : Packet) : UInt32 := UInt32.ofNat p.bytes.length

theorem Packet.len_toNat (p : Packet) : p.len.toNat = p.bytes.length := by
  have fits := p.fits
  rw [Packet.len, UInt32.toNat_ofNat']
  omega

def byteAt (p : Packet) (off : Nat) : UInt8 := p.bytes.getD off 0

/-- OVER: the first size bytes are not all inside the packet. -/
def pastEnd (p : Packet) (size : Nat) : Bool := decide (p.bytes.length < size)

/-- The parse the three programs share: a verdict, or none for an ICMP packet. -/
def headerVerdict (p : Packet) : Option XdpAction :=
  if pastEnd p ipv4 then some .drop
  else if word (byteAt p (hProto + 1)) (byteAt p hProto) ≠ ntohs ETH_P_IP then some .pass
  else if pastEnd p icmp then some .drop
  else if byteAt p protocol ≠ IPPROTO_ICMP then some .pass
  else none

/-- inner_xdp.c: index is ctx->rx_queue_index. -/
def xdpSockProg (xsksMap : Nat → Option Nat) (index : Nat) (p : Packet) : XdpAction :=
  match headerVerdict p with
  | some verdict => verdict
  | none => if (xsksMap index).isSome then .redirectMap index else .drop

/-- outer_xdp.c. -/
def xdpRedirectDummyProg (p : Packet) : XdpAction :=
  match headerVerdict p with
  | some verdict => verdict
  | none => .pass

/-- phy_xdp.c: every ICMP packet goes to the interface in slot 0 of xdp_devmap. -/
def xdpRedirect (xdpDevmap : Nat → Option Nat) (p : Packet) : XdpAction :=
  match headerVerdict p with
  | some verdict => verdict
  | none =>
    let port := 0
    match xdpDevmap port with
    | none => .drop
    | some ifindex => .redirect ifindex

theorem headerVerdict_none_iff (p : Packet) :
    headerVerdict p = none ↔ 34 ≤ p.bytes.length ∧ byteAt p 12 = 0x08 ∧
      byteAt p 13 = 0x00 ∧ byteAt p 23 = IPPROTO_ICMP := by
  have ether : word (byteAt p 13) (byteAt p 12) = ntohs ETH_P_IP ↔
      byteAt p 12 = 0x08 ∧ byteAt p 13 = 0x00 := by
    have swapped : ntohs ETH_P_IP = word 0x00 0x08 := by decide
    rw [swapped, ← UInt16.toNat_inj, ← UInt8.toNat_inj, ← UInt8.toNat_inj, word_toNat, word_toNat]
    have h13 := (byteAt p 13).toNat_lt
    have h12 := (byteAt p 12).toNat_lt
    simp only [UInt8.reduceToNat]
    omega
  unfold headerVerdict
  simp only [pastEnd, ipv4, icmp, eth, hProto, protocol, Nat.reduceAdd, ne_eq, ether]
  by_cases short : p.bytes.length < 14
  · have truncated : ¬ 34 ≤ p.bytes.length := by omega
    simp [short, truncated]
  · by_cases ip : byteAt p 12 = 0x08 ∧ byteAt p 13 = 0x00
    · by_cases truncated : p.bytes.length < 34
      · simp [short, ip, truncated]
      · simp [short, ip, truncated, Nat.not_lt.mp truncated]
    · have other : ¬ (34 ≤ p.bytes.length ∧ byteAt p 12 = 0x08 ∧ byteAt p 13 = 0x00 ∧
          byteAt p 23 = IPPROTO_ICMP) := fun all => ip ⟨all.2.1, all.2.2.1⟩
      simp [short, ip, other]

theorem xdpSockProg_redirected {xsksMap : Nat → Option Nat} {index : Nat} {p : Packet}
    (passed : xdpSockProg xsksMap index p = .redirectMap index) : headerVerdict p = none := by
  unfold xdpSockProg at passed
  cases verdict : headerVerdict p with
  | none => rfl
  | some action =>
    rw [verdict] at passed
    unfold headerVerdict at verdict
    split_ifs at verdict <;> simp_all

end XSKKernel
