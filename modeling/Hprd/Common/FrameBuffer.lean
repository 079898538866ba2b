import Mathlib.Logic.Function.Basic

/-!
# Frame buffers

`struct raw_buffer` and the formats of `common/frame_buffer.c`.
-/

namespace Hprd.Common

inductive FramebufferFormat where
  | rgb555 | rgb565 | rgb888 | bgr888 | argb8888 | abgr8888 | rgba8888 | bgra8888 | yuv420p | nv12
  deriving DecidableEq, Repr

namespace FramebufferFormat

def code : FramebufferFormat → UInt32
  | rgb555 => 0
  | rgb565 => 1
  | rgb888 => 2
  | bgr888 => 3
  | argb8888 => 4
  | abgr8888 => 5
  | rgba8888 => 6
  | bgra8888 => 7
  | yuv420p => 8
  | nv12 => 9

/-- The `case` a format selects. -/
def ofCode (format : UInt32) : Option FramebufferFormat :=
  [rgb555, rgb565, rgb888, bgr888, argb8888, abgr8888, rgba8888, bgra8888, yuv420p, nv12].find?
    (·.code = format)

theorem ofCode_code (format : FramebufferFormat) : ofCode format.code = some format := by
  cases format <;> rfl

end FramebufferFormat

def formatToBpp (format : UInt32) : Int :=
  match FramebufferFormat.ofCode format with
  | some .rgb555 | some .rgb565 => 16
  | some .rgb888 | some .bgr888 => 24
  | some .argb8888 | some .abgr8888 | some .rgba8888 | some .bgra8888 => 32
  | some .yuv420p | some .nv12 => 12
  | none => -1

/-- `struct raw_buffer`. The addresses in `ptrs` and `priv` are numbers, 0 for `NULL`. -/
structure RawBuffer where
  width : UInt32
  horStride : UInt32
  height : UInt32
  verStride : UInt32
  format : UInt32
  bpp : UInt16
  size : UInt32
  priv : Nat
  ptrs : Fin 4 → Nat
  isFree : Bool

/-- What `calloc` leaves. -/
def RawBuffer.zero : RawBuffer := ⟨0, 0, 0, 0, 0, 0, 0, 0, fun _ => 0, false⟩

end Hprd.Common
