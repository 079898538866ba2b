import Mathlib.Tactic
import Hprd.Common.FrameBuffer
import Hprd.Core.Machine

/-!
# The buffer pool of `common/buffer_pool.c`

A table of 64 slots, each empty or with a buffer that is free or taken. An access outside
the table, and the `memset` of a framebuffer whose `mmap` failed, have no result. The calls
of `calloc` for a `raw_buffer` succeed.
-/

namespace Hprd.Common

open Hprd.Core

def maxBufferCount : Nat := 64

/-- `__buffers`, `none` for `NULL`. -/
abbrev MemPool := Nat → Option RawBuffer

/-- The first index of a `for` loop over the slots at which it returns. -/
def firstSlot (p : Nat → Bool) : Option Nat := (List.range maxBufferCount).find? p

/-! ## `common/drm_allocator.c` -/

structure DrmBuffer where
  width : UInt32
  height : UInt32
  pitch : UInt32
  handle : UInt32
  size : UInt32
  vaddr : Nat

/-- What the calls of `create_framebuffer` return: whether the device opens and `calloc` finds
memory, what the two `ioctl`s fill in, and the address `mmap` returns, unless they fail. -/
structure DrmCalls where
  openDrm : Bool
  calloc : Bool
  createDumb : UInt32 → UInt32 → UInt16 → Option (UInt32 × UInt32 × UInt32)
  mapDumb : Bool
  mmap : Option Nat

/-- `create_framebuffer`, with `some none` for `NULL`. The `width` and the `height` of what it
returns stay as `calloc` left them. A failed `mmap` does not return `NULL`. -/
def createFramebuffer (width height : UInt32) (bpp : UInt16) (drm : DrmCalls) :
    Option (Option DrmBuffer) :=
  if bpp ≠ 16 ∧ bpp ≠ 24 ∧ bpp ≠ 32 then some none
  else if !drm.openDrm then some none
  else if !drm.calloc then some none
  else match drm.createDumb width height bpp with
    | none => some none
    | some (pitch, size, handle) =>
        if !drm.mapDumb then some none
        else match drm.mmap with
          | none => none
          | some vaddr =>
              if vaddr = 0 then some none else some (some ⟨0, 0, pitch, handle, size, vaddr⟩)

/-! ## The operations -/

def allocBuffer (pool : MemPool) : Int × MemPool :=
  match firstSlot fun i => (pool i).isNone with
  | some i => (i, Function.update pool i (some { RawBuffer.zero with isFree := true }))
  | none => (-1, pool)

/-- The members that `alloc_buffer2` fills in; `ref` is the address of the `drm_buffer`. -/
def RawBuffer.ofDrm (drmBuffer : DrmBuffer) (format : UInt32) (bpp : UInt16) (ref : Nat) :
    RawBuffer where
  width := drmBuffer.width
  height := drmBuffer.height
  horStride := drmBuffer.width
  verStride := drmBuffer.height
  format := format
  bpp := bpp
  size := drmBuffer.size
  ptrs := Function.update (fun _ => 0) 0 drmBuffer.vaddr
  priv := ref
  isFree := true

def allocBuffer2 (pool : MemPool) (width height format : UInt32) (drm : DrmCalls) (ref : Nat) :
    Option (Int × MemPool) :=
  match firstSlot fun i => (pool i).isNone with
  | some i =>
      let bpp := UInt16.ofNat ((formatToBpp format) % 2 ^ 16).toNat
      (createFramebuffer width height bpp drm).map fun
        | none => (-1, Function.update pool i (some .zero))
        | some drmBuffer =>
            (i, Function.update pool i (some (.ofDrm drmBuffer format bpp ref)))
  | none => some (-1, pool)

def checkoutBufId (pool : MemPool) (bufId : Int) : Option Int :=
  if maxBufferCount ≤ bufId then some (-1)
  else if bufId < 0 then none
  else if (pool bufId.toNat).isNone then some (-1) else some 0

def getFb (pool : MemPool) : Int × MemPool :=
  match firstSlot fun i => (pool i).any (·.isFree) with
  | some i => (i, Function.update pool i ((pool i).map fun b => { b with isFree := false }))
  | none => (-1, pool)

def putFb (pool : MemPool) (bufId : Int) : Option (Int × MemPool) :=
  (checkoutBufId pool bufId).map fun ret =>
    if ret ≠ 0 then (-1, pool)
    else (0, Function.update pool bufId.toNat
      ((pool bufId.toNat).map fun b => { b with isFree := true }))

def releaseBuffer (pool : MemPool) (bufId : Int) : Option (Int × MemPool) :=
  (checkoutBufId pool bufId).map fun ret =>
    if ret ≠ 0 then (-1, pool) else (0, Function.update pool bufId.toNat none)

def releaseAllBuffer (pool : MemPool) : Int × MemPool :=
  (0, fun i => if i < maxBufferCount then none else pool i)

def getRawBuffer (pool : MemPool) (bufId : Int) : Option (Option RawBuffer) :=
  (checkoutBufId pool bufId).map fun ret => if ret ≠ 0 then none else pool bufId.toNat

end Hprd.Common
