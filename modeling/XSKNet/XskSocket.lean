import XSKNet.Packet
import XSKNet.SharedRing
import Mathlib.Data.List.Perm.Basic

/- struct xsk_socket_info with the UMEM it owns, the stack of free frames, and the state
   that xsk_configure_socket leaves. The fields xsk->tx, xsk->xsk and prev_stats are not
   used by the receive path. -/
namespace XSKSocket
open XSKPacket SharedRing

abbrev NUM_FRAMES : Nat := 4096
abbrev FRAME_SIZE : Nat := 4096
abbrev RX_BATCH_SIZE : UInt32 := 64
abbrev NUM_DESCS : Nat := 2048
def INVALID_UMEM_FRAME : UInt64 := 0xFFFFFFFFFFFFFFFF

instance : RingSize NUM_DESCS := ⟨by decide, by decide, by decide⟩

structure XdpDesc where
  addr : UInt64
  len : UInt32
  deriving DecidableEq

structure XskSocketInfo where
  rx : Ring NUM_DESCS XdpDesc
  fq : Ring NUM_DESCS UInt64
  cq : Ring NUM_DESCS UInt64
  buffer : Nat → UInt8
  umemFrameAddr : Nat → UInt64
  umemFrameFree : UInt32
  outstandingTx : UInt32
  stats : StatsRecord

def xskAllocUmemFrame (x : XskSocketInfo) : UInt64 × XskSocketInfo :=
  if x.umemFrameFree = 0 then (INVALID_UMEM_FRAME, x)
  else
    let free := x.umemFrameFree - 1
    (x.umemFrameAddr free.toNat, { x with
      umemFrameFree := free
      umemFrameAddr := fun i => if i = free.toNat then INVALID_UMEM_FRAME else x.umemFrameAddr i })

/-- none when the assert fails. -/
def xskFreeUmemFrame (x : XskSocketInfo) (frame : UInt64) : Option XskSocketInfo :=
  if x.umemFrameFree.toNat < NUM_FRAMES then
    some { x with
      umemFrameAddr := fun i => if i = x.umemFrameFree.toNat then frame else x.umemFrameAddr i
      umemFrameFree := x.umemFrameFree + 1 }
  else none

def xskUmemFreeFrames (x : XskSocketInfo) : UInt64 := x.umemFrameFree.toUInt64

/-- *xsk_ring_prod__fill_addr(&fq, idx) = xsk_alloc_umem_frame(xsk). -/
def fillOne (idx : UInt32) (x : XskSocketInfo) : XskSocketInfo :=
  let (frame, x') := xskAllocUmemFrame x
  { x' with fq := x'.fq.write idx frame }

def fillMany : Nat → UInt32 → XskSocketInfo → XskSocketInfo
  | 0, _, x => x
  | k + 1, idx, x => fillMany k (idx + 1) (fillOne idx x)

/- Configuration. -/

structure UmemArea where
  buffer : Nat → UInt8
  fqSlot : Nat → UInt64
  cqSlot : Nat → UInt64
  rxSlot : Nat → XdpDesc

/-- The library and kernel calls of xsk_configure_socket that can fail. -/
structure SetupCalls where
  socketCreated : Bool
  mapOpened : Bool
  mapUpdated : Bool

/-- The rings as libxdp creates them: a producer ring starts with its whole size cached
    as room, a consumer ring with nothing seen. -/
def freshSocket (mem : UmemArea) : XskSocketInfo where
  rx := ⟨mem.rxSlot, 0, 0, 0, 0⟩
  fq := ⟨mem.fqSlot, 0, 0, 0, UInt32.ofNat NUM_DESCS⟩
  cq := ⟨mem.cqSlot, 0, 0, 0, 0⟩
  buffer := mem.buffer
  umemFrameAddr _ := 0
  umemFrameFree := 0
  outstandingTx := 0
  stats := ⟨0, 0, 0, 0, 0⟩

def initFrames (x : XskSocketInfo) : XskSocketInfo :=
  { x with
    umemFrameAddr := fun i =>
      if i < NUM_FRAMES then UInt64.ofNat (i * FRAME_SIZE) else x.umemFrameAddr i
    umemFrameFree := UInt32.ofNat NUM_FRAMES }

def xskConfigureSocket (calls : SetupCalls) (mem : UmemArea) : Option XskSocketInfo :=
  if !calls.socketCreated then none
  else if !calls.mapOpened then none
  else if !calls.mapUpdated then none
  else
    let x := initFrames (freshSocket mem)
    let (ret, idx, fq) := x.fq.prodReserve (UInt32.ofNat NUM_DESCS) 0
    if ret ≠ UInt32.ofNat NUM_DESCS then none
    else
      let x := fillMany NUM_DESCS idx { x with fq := fq }
      some { x with fq := x.fq.prodSubmit (UInt32.ofNat NUM_DESCS) }

/- The stack of free frames. -/

def freeStack (x : XskSocketInfo) : List UInt64 :=
  (List.range x.umemFrameFree.toNat).map x.umemFrameAddr

def TailInvalid (x : XskSocketInfo) : Prop :=
  ∀ i, x.umemFrameFree.toNat ≤ i → i < NUM_FRAMES → x.umemFrameAddr i = INVALID_UMEM_FRAME

@[simp] theorem freeStack_length (x : XskSocketInfo) :
    (freeStack x).length = x.umemFrameFree.toNat := by
  simp [freeStack]

theorem alloc_empty {x : XskSocketInfo} (empty : x.umemFrameFree = 0) :
    xskAllocUmemFrame x = (INVALID_UMEM_FRAME, x) := by
  simp [xskAllocUmemFrame, empty]

theorem alloc_frame (x : XskSocketInfo) :
    (xskAllocUmemFrame x).2.fq = x.fq ∧ (xskAllocUmemFrame x).2.rx = x.rx ∧
      (xskAllocUmemFrame x).2.cq = x.cq ∧ (xskAllocUmemFrame x).2.buffer = x.buffer ∧
      (xskAllocUmemFrame x).2.outstandingTx = x.outstandingTx ∧
      (xskAllocUmemFrame x).2.stats = x.stats := by
  unfold xskAllocUmemFrame
  split
  · exact ⟨rfl, rfl, rfl, rfl, rfl, rfl⟩
  · exact ⟨rfl, rfl, rfl, rfl, rfl, rfl⟩

theorem pop_toNat {x : XskSocketInfo} (some_free : x.umemFrameFree ≠ 0) :
    x.umemFrameFree.toNat = (x.umemFrameFree - 1).toNat + 1 := by
  rw [ne_eq, ← UInt32.toNat_inj] at some_free
  have bound := x.umemFrameFree.toNat_lt
  simp only [UInt32.toNat_sub, UInt32.toNat_one, UInt32.toNat_zero] at some_free ⊢
  omega

theorem alloc_pops {x : XskSocketInfo} (some_free : x.umemFrameFree ≠ 0) :
    freeStack x = freeStack (xskAllocUmemFrame x).2 ++ [(xskAllocUmemFrame x).1] := by
  have popped := pop_toNat some_free
  simp only [freeStack, xskAllocUmemFrame, some_free, if_false]
  rw [popped, List.range_succ, List.map_append]
  congr 1
  apply List.map_congr_left
  intro i member
  have below := List.mem_range.mp member
  rw [if_neg (by omega)]

theorem alloc_free_count (x : XskSocketInfo) :
    (xskAllocUmemFrame x).2.umemFrameFree.toNat = x.umemFrameFree.toNat - 1 := by
  by_cases empty : x.umemFrameFree = 0
  · rw [alloc_empty empty, empty]
    rfl
  · have popped := pop_toNat empty
    simp only [xskAllocUmemFrame, empty, if_false]
    omega

theorem alloc_tail {x : XskSocketInfo} (tail : TailInvalid x) :
    TailInvalid (xskAllocUmemFrame x).2 := by
  by_cases empty : x.umemFrameFree = 0
  · rwa [alloc_empty empty]
  · have popped := pop_toNat empty
    intro i above inside
    simp only [xskAllocUmemFrame, empty, if_false] at above ⊢
    split
    · rfl
    · exact tail i (by omega) inside

theorem push_toNat {x : XskSocketInfo} (room : x.umemFrameFree.toNat < NUM_FRAMES) :
    (x.umemFrameFree + 1).toNat = x.umemFrameFree.toNat + 1 := by
  unfold NUM_FRAMES at room
  simp only [UInt32.toNat_add, UInt32.toNat_one]
  omega

theorem free_pushes (x : XskSocketInfo) (frame : UInt64)
    (room : x.umemFrameFree.toNat < NUM_FRAMES) :
    ∃ x', xskFreeUmemFrame x frame = some x' ∧ freeStack x' = freeStack x ++ [frame] ∧
      x'.fq = x.fq ∧ x'.rx = x.rx ∧ x'.cq = x.cq ∧ x'.buffer = x.buffer ∧
      x'.outstandingTx = x.outstandingTx ∧ x'.stats = x.stats := by
  refine ⟨_, if_pos room, ?_, rfl, rfl, rfl, rfl, rfl, rfl⟩
  simp only [freeStack, push_toNat room, List.range_succ, List.map_append, List.map_cons,
    List.map_nil, if_true]
  congr 1
  apply List.map_congr_left
  intro i member
  have below := List.mem_range.mp member
  rw [if_neg (by omega)]

theorem free_tail {x x' : XskSocketInfo} {frame : UInt64} (tail : TailInvalid x)
    (freed : xskFreeUmemFrame x frame = some x') : TailInvalid x' := by
  unfold xskFreeUmemFrame at freed
  split at freed
  · rename_i room
    obtain rfl := Option.some.inj freed
    intro i above inside
    simp only [push_toNat room] at above
    change (if i = _ then _ else _) = _
    rw [if_neg (by omega)]
    exact tail i (by omega) inside
  · cases freed

/- Frames and addresses. -/

/-- The chunk an address lies in: the address rounded down to FRAME_SIZE, by number. -/
def frameOf (a : UInt64) : Nat := a.toNat / FRAME_SIZE

def InUmem (a : UInt64) : Prop := a.toNat < NUM_FRAMES * FRAME_SIZE

instance (a : UInt64) : Decidable (InUmem a) := inferInstanceAs (Decidable (_ < _))

theorem inUmem_iff (a : UInt64) : InUmem a ↔ frameOf a < NUM_FRAMES := by
  unfold InUmem frameOf NUM_FRAMES FRAME_SIZE
  omega

theorem invalid_outside : ¬ InUmem INVALID_UMEM_FRAME := by decide

def framesIn (l : List UInt64) : List Nat := (l.filter fun a => decide (InUmem a)).map frameOf

@[simp] theorem framesIn_append (l k : List UInt64) :
    framesIn (l ++ k) = framesIn l ++ framesIn k := by
  simp [framesIn]

theorem framesIn_valid {a : UInt64} (valid : InUmem a) (l : List UInt64) :
    framesIn (a :: l) = frameOf a :: framesIn l := by
  simp [framesIn, valid]

theorem framesIn_invalid {a : UInt64} (outside : ¬ InUmem a) (l : List UInt64) :
    framesIn (a :: l) = framesIn l := by
  simp [framesIn, outside]

theorem framesIn_length_of_valid {l : List UInt64} (valid : ∀ a ∈ l, InUmem a) :
    (framesIn l).length = l.length := by
  rw [framesIn, List.length_map, List.filter_eq_self.mpr]
  intro a member
  exact decide_eq_true (valid a member)

end XSKSocket
