import Mathlib.Logic.Function.Basic
import Hprd.Input.XlibInput

/-!
# What `xlib_push_key` leaves pressed

A key is pressed for the X server as its keysym. A code that `get_xkeycode` does not
know, and no character code either, is the left control key.
-/

namespace Hprd.Input

open Hprd.Core Common

def XK_Shift_L : Nat := 0xffe1

def XK_Control_L : Nat := 0xffe3

def XK_Alt_L : Nat := 0xffe9

/-- The cases of `get_xkeycode`, with the numbers of their keysyms. -/
def xkeycodes : List (Nat × Nat) :=
  [(1, 0xffeb), (8, 0xff08), (9, 0xff09), (13, 0xff0d), (16, XK_Shift_L), (17, XK_Control_L),
    (18, XK_Alt_L), (20, 0xffe5), (27, 0xff1b), (32, 0x20), (33, 0xff55), (34, 0xff56),
    (35, 0xff57), (36, 0xff50), (37, 0xff51), (38, 0xff52), (39, 0xff53), (40, 0xff54),
    (46, 0xffff), (108, 0xff0d),
    -- the function keys
    (112, 0xffbe), (113, 0xffbf), (114, 0xffc0), (115, 0xffc1), (116, 0xffc2), (117, 0xffc3),
    (118, 0xffc4), (119, 0xffc5), (120, 0xffc6), (121, 0xffc7), (122, 0xffc8), (123, 0xffc9),
    (186, 0x3a), (187, 0x3d), (188, 0x2c), (189, 0x2d), (190, 0x2e), (191, 0x2f), (220, 0x5c),
    (219, 0x5b), (221, 0x5d), (222, 0x27)]

def getXkeycode (keycode : Nat) : Nat :=
  match xkeycodes.lookup keycode with
  | some keysym => keysym
  | none => if 32 < keycode ∧ keycode ≤ 200 then keycode else XK_Control_L

structure InputEvent where
  type : EventType
  keyCode : UInt32
  x : UInt32
  y : UInt32

/-- The memory of an event whose `state` and padding nobody set. -/
def InputEvent.bytes (e : InputEvent) (state : UInt8) (pad : UInt8 × UInt8) : Bytes :=
  [e.type.code, state, pad.1, pad.2] ++ (leBytes 4 e.keyCode.toNat ++
    (leBytes 4 e.x.toNat ++ leBytes 4 e.y.toNat))

theorem InputEvent.bytes_length (e : InputEvent) (state : UInt8) (pad : UInt8 × UInt8) :
    (e.bytes state pad).length = 16 := rfl

/-- What `xlib_push_key` asks for an event. -/
def InputEvent.requests (e : InputEvent) : List XRequest :=
  let keyed := fun requests : List XRequest => if e.keyCode = 0 then [] else requests ++ [.flush]
  match e.type with
  | .mouseMove => [.motion e.x e.y, .flush]
  | .keyUp => keyed [.key e.keyCode false]
  | .keyDown => keyed [.key e.keyCode true]
  | .mouseUp => keyed [.button e.keyCode false]
  | .mouseDown => keyed [.button e.keyCode true]
  | .mouseWheel => keyed [.button e.keyCode true, .button e.keyCode false]
  | .buttonUp => []
  | .buttonDown => []

theorem xlibPushKey_requests {pkt : Bytes} {e : InputEvent} (htype : eventType pkt = some e.type.code)
    (hkey : eventKeyCode pkt = some e.keyCode) (hx : eventX pkt = some e.x)
    (hy : eventY pkt = some e.y) : (xlibPushKey pkt).map Prod.snd = some e.requests := by
  have hof : EventType.ofCode e.type.code = some e.type := by cases e.type <;> rfl
  unfold xlibPushKey InputEvent.requests
  rw [htype, Option.bind_eq_bind, Option.bind_some, hof]
  cases e.type <;> simp only [pushKeyCode, hkey, hx, hy, Option.bind_eq_bind, Option.bind_some] <;>
    first | rfl | (split <;> rfl)

/-- The keysyms and buttons that are down. -/
structure Pressed where
  key : Nat → Bool
  button : UInt32 → Bool

namespace Pressed

def nothing : Pressed := ⟨fun _ => false, fun _ => false⟩

def request (p : Pressed) : XRequest → Pressed
  | .key keyCode down => { p with key := Function.update p.key (getXkeycode keyCode.toNat) down }
  | .button button down => { p with button := Function.update p.button button down }
  | _ => p

/-- An event arrives at the input device. -/
def push (p : Pressed) (e : InputEvent) : Pressed := e.requests.foldl request p

variable {p : Pressed} {keyCode x y : UInt32}

theorem push_zero {type : EventType} : p.push ⟨type, 0, x, y⟩ = p := by
  cases type <;> rfl

theorem push_key {down : Bool} (h : keyCode ≠ 0) :
    p.push ⟨if down then .keyDown else .keyUp, keyCode, x, y⟩ =
      { p with key := Function.update p.key (getXkeycode keyCode.toNat) down } := by
  cases down
  · simp only [push, InputEvent.requests, h]
    rfl
  · simp only [push, InputEvent.requests, h]
    rfl

theorem push_button {down : Bool} (h : keyCode ≠ 0) :
    p.push ⟨if down then .mouseDown else .mouseUp, keyCode, x, y⟩ =
      { p with button := Function.update p.button keyCode down } := by
  cases down
  · simp only [push, InputEvent.requests, h]
    rfl
  · simp only [push, InputEvent.requests, h]
    rfl

theorem push_key_button {down : Bool} :
    (p.push ⟨if down then .keyDown else .keyUp, keyCode, x, y⟩).button = p.button := by
  by_cases h : keyCode = 0
  · rw [h, push_zero]
  · rw [push_key h]

theorem push_button_key {down : Bool} :
    (p.push ⟨if down then .mouseDown else .mouseUp, keyCode, x, y⟩).key = p.key := by
  by_cases h : keyCode = 0
  · rw [h, push_zero]
  · rw [push_button h]

end Pressed

end Hprd.Input
