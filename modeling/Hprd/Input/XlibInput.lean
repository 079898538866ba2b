import Hprd.Common.Protocol

/-!
# The input device of `input_dev/xlib_input.c`

`xlib_push_key` and `xlib_push_clip` work on a packet whose length they do not
know. Here every access is checked, so that a packet they read behind its end, or
copy behind the end of a buffer, has no result.
-/

namespace Hprd.Input

open Hprd.Core Common

/-- `struct xlib_input`; `rootWin` says whether there is a window. -/
structure XlibInput where
  clipType : Block 64
  clipData : Block 10240
  clipLen : Nat
  rootWin : Bool

inductive XRequest where
  | motion (x y : UInt32)
  | key (keyCode : UInt32) (down : Bool)
  | button (button : UInt32) (down : Bool)
  | setSelectionOwner
  | flush
  deriving DecidableEq

/-- What `xlib_dev_init` leaves of the clipboard. -/
def XlibInput.init (rootWin : Bool) : XlibInput := ⟨.zero 64, .zero 10240, 0, rootWin⟩

inductive EventType where
  | mouseMove | keyUp | keyDown | mouseUp | mouseDown | mouseWheel | buttonUp | buttonDown
  deriving DecidableEq, Repr

namespace EventType

def code : EventType → UInt8
  | mouseMove => 1
  | keyUp => 2
  | keyDown => 3
  | mouseUp => 4
  | mouseDown => 5
  | mouseWheel => 6
  | buttonUp => 7
  | buttonDown => 8

def ofCode (type : UInt8) : Option EventType :=
  [mouseMove, keyUp, keyDown, mouseUp, mouseDown, mouseWheel, buttonUp, buttonDown].find?
    (·.code = type)

end EventType

/-! ## Fields of a packet -/

def loadByte (pkt : Bytes) (i : Nat) : Option UInt8 := pkt[i]?

def loadLe32 (pkt : Bytes) (i : Nat) : Option UInt32 :=
  (load pkt i 4).map fun bs => UInt32.ofNat (ofLeBytes bs)

/-- The members of the `struct input_event` behind the packet's header. -/
def eventType (pkt : Bytes) : Option UInt8 := loadByte pkt 8

def eventKeyCode (pkt : Bytes) : Option UInt32 := loadLe32 pkt 12

def eventX (pkt : Bytes) : Option UInt32 := loadLe32 pkt 16

def eventY (pkt : Bytes) : Option UInt32 := loadLe32 pkt 20

/-! ## The two operations -/

/-- The cases of `xlib_push_key` that work on a key code. -/
def pushKeyCode (pkt : Bytes) (requests : UInt32 → List XRequest) : Option (Int × List XRequest) := do
  let keyCode ← eventKeyCode pkt
  if keyCode = 0 then some (-1, []) else some (0, requests keyCode ++ [.flush])

def xlibPushKey (pkt : Bytes) : Option (Int × List XRequest) := do
  let type ← eventType pkt
  match EventType.ofCode type with
  | some .mouseMove =>
      let x ← eventX pkt
      let y ← eventY pkt
      some (0, [.motion x y, .flush])
  | some .keyUp => pushKeyCode pkt fun k => [.key k false]
  | some .keyDown => pushKeyCode pkt fun k => [.key k true]
  | some .mouseUp => pushKeyCode pkt fun k => [.button k false]
  | some .mouseDown => pushKeyCode pkt fun k => [.button k true]
  | some .mouseWheel => pushKeyCode pkt fun k => [.button k true, .button k false]
  | some .buttonUp => some (-1, [])
  | some .buttonDown => some (-1, [])
  | none => some (-1, [])

/-- The device after a clip, what it asks of the X server, and the error it logs. -/
structure ClipPush where
  priv : XlibInput
  requests : List XRequest
  error : Option String

def xlibPushClip (priv : XlibInput) (pkt : Bytes) : Option ClipPush := do
  let clipLen ← loadBe16 pkt 8
  let type ← cString pkt 10
  let clipType ← priv.clipType.store 0 (type ++ [0])
  let copied ← cString clipType.bytes 0
  let typeLen := UInt16.ofNat (copied.length + 1)
  if (clipLen.toNat : Int) - typeLen.toNat > 0 then
    let data ← load pkt (10 + typeLen.toNat) (clipLen.toNat - typeLen.toNat)
    let clipData ← priv.clipData.store 0 data
    some
      { priv := { priv with
          clipType, clipData, clipLen := clipLen.toNat - typeLen.toNat }
        requests := if priv.rootWin then [.setSelectionOwner] else []
        error := none }
  else some ⟨{ priv with clipType }, [], some "clip len to small."⟩

/-! ## What they need of a packet -/

/-- The packet reaches as far as the members its event type uses. -/
def KeyFits (pkt : Bytes) : Prop :=
  ∃ type, eventType pkt = some type ∧
    match EventType.ofCode type with
    | some .mouseMove => 24 ≤ pkt.length
    | some .buttonUp => True
    | some .buttonDown => True
    | none => True
    | some _ => 16 ≤ pkt.length

/-- The type ends in the packet and is shorter than its buffer, and so is the data behind it when
the length the packet gives leaves any. -/
def ClipFits (pkt : Bytes) : Prop :=
  ∃ clipLen type, loadBe16 pkt 8 = some clipLen ∧ cString pkt 10 = some type ∧
    type.length < 64 ∧
    (type.length + 1 < clipLen.toNat →
      10 + clipLen.toNat ≤ pkt.length ∧ clipLen.toNat - (type.length + 1) ≤ 10240)

theorem loadLe32_isSome (pkt : Bytes) (i : Nat) : (loadLe32 pkt i).isSome ↔ i + 4 ≤ pkt.length := by
  simp [loadLe32, load]

theorem pushKeyCode_isSome {pkt : Bytes} {requests : UInt32 → List XRequest} :
    (pushKeyCode pkt requests).isSome ↔ 16 ≤ pkt.length := by
  rw [← loadLe32_isSome pkt 12, pushKeyCode, eventKeyCode]
  cases loadLe32 pkt 12 with
  | none => simp
  | some keyCode =>
      by_cases h : keyCode = 0
      · simp [h]
      · simp [h]

theorem xlibPushKey_isSome {pkt : Bytes} : (xlibPushKey pkt).isSome ↔ KeyFits pkt := by
  unfold xlibPushKey KeyFits
  cases eventType pkt with
  | none => simp
  | some type =>
      simp only [Option.bind_eq_bind, Option.bind_some, Option.some.injEq, exists_eq_left']
      cases EventType.ofCode type with
      | none => simp
      | some t =>
          cases t with
          | mouseMove =>
              have hx := loadLe32_isSome pkt 16
              have hy := loadLe32_isSome pkt 20
              simp only [eventX, eventY]
              cases hlx : loadLe32 pkt 16 with
              | none =>
                  rw [hlx] at hx
                  simp at hx ⊢
                  omega
              | some x =>
                  cases hly : loadLe32 pkt 20 with
                  | none =>
                      rw [hly] at hy
                      simp at hy ⊢
                      omega
                  | some y =>
                      rw [hly] at hy
                      simp at hy ⊢
                      omega
          | buttonUp => simp
          | buttonDown => simp
          | _ => exact pushKeyCode_isSome

theorem cString_of_store {n : Nat} {b c : Block n} {s : Bytes} (h : b.store 0 (s ++ [0]) = some c)
    (h0 : 0 ∉ s) : cString c.bytes 0 = some s := by
  apply cString_eq_some_iff.mpr
  refine ⟨h0, b.bytes.drop (0 + (s ++ [0]).length), ?_⟩
  rw [Block.bytes_of_store h]
  simp

/-- The type's length with its terminator is no larger than the buffer, so 16 bits hold it. -/
theorem toNat_typeLen {n : Nat} (h : n < 64) : (UInt16.ofNat (n + 1)).toNat = n + 1 := by
  rw [UInt16.toNat_ofNat']
  omega

theorem xlibPushClip_of_type {priv : XlibInput} {pkt type : Bytes} {clipLen : UInt16}
    {clipType : Block 64} (hlen : loadBe16 pkt 8 = some clipLen) (htype : cString pkt 10 = some type)
    (hstore : priv.clipType.store 0 (type ++ [0]) = some clipType) :
    xlibPushClip priv pkt =
      if type.length + 1 < clipLen.toNat then do
        let data ← load pkt (10 + (type.length + 1)) (clipLen.toNat - (type.length + 1))
        let clipData ← priv.clipData.store 0 data
        some
          { priv := { priv with
              clipType, clipData, clipLen := clipLen.toNat - (type.length + 1) }
            requests := if priv.rootWin then [.setSelectionOwner] else []
            error := none }
      else some ⟨{ priv with clipType }, [], some "clip len to small."⟩ := by
  have hcopied := cString_of_store hstore (cString_eq_some_iff.mp htype).1
  have hshort : type.length < 64 := by
    have hle := Block.le_of_store hstore
    simp only [List.length_append, List.length_singleton] at hle
    omega
  have hgt : ((clipLen.toNat : Int) - ((type.length + 1 : Nat) : Int) > 0) =
      (type.length + 1 < clipLen.toNat) := by
    apply propext
    omega
  simp only [xlibPushClip, hlen, htype, hstore, hcopied, Option.bind_eq_bind, Option.bind_some,
    toNat_typeLen hshort, hgt]

theorem clipFits_iff {pkt type : Bytes} {clipLen : UInt16} (hlen : loadBe16 pkt 8 = some clipLen)
    (htype : cString pkt 10 = some type) :
    ClipFits pkt ↔ type.length < 64 ∧ (type.length + 1 < clipLen.toNat →
      10 + clipLen.toNat ≤ pkt.length ∧ clipLen.toNat - (type.length + 1) ≤ 10240) := by
  constructor
  · rintro ⟨clipLen', type', hlen', htype', hfit⟩
    cases hlen.symm.trans hlen'
    cases htype.symm.trans htype'
    exact hfit
  · intro hfit
    exact ⟨clipLen, type, hlen, htype, hfit⟩

theorem xlibPushClip_isSome {priv : XlibInput} {pkt : Bytes} :
    (xlibPushClip priv pkt).isSome ↔ ClipFits pkt := by
  cases hlen : loadBe16 pkt 8 with
  | none => simp [xlibPushClip, ClipFits, hlen]
  | some clipLen =>
      cases htype : cString pkt 10 with
      | none => simp [xlibPushClip, ClipFits, hlen, htype]
      | some type =>
          rw [clipFits_iff hlen htype]
          by_cases hshort : type.length < 64
          · have hfit : 0 + (type ++ [0]).length ≤ 64 := by
              simp only [List.length_append, List.length_singleton]
              omega
            rcases priv.clipType.exists_store _ _ hfit with ⟨clipType, hstore⟩
            rw [xlibPushClip_of_type hlen htype hstore]
            by_cases hgt : type.length + 1 < clipLen.toNat
            · rw [if_pos hgt]
              cases hdata : load pkt (10 + (type.length + 1)) (clipLen.toNat - (type.length + 1)) with
              | none =>
                  have hlt := load_eq_none_iff.mp hdata
                  simp only [Option.bind_eq_bind, Option.bind_none, Option.isSome_none,
                    Bool.false_eq_true, false_iff]
                  rintro ⟨-, h⟩
                  have hle := (h hgt).1
                  omega
              | some data =>
                  have hle := (load_eq_some_iff.mp hdata).1
                  have hn := length_of_load hdata
                  simp only [Option.bind_eq_bind, Option.bind_some]
                  cases hclip : priv.clipData.store 0 data with
                  | none =>
                      have hbig := Block.store_eq_none_iff.mp hclip
                      simp only [Option.bind_none, Option.isSome_none, Bool.false_eq_true, false_iff]
                      rintro ⟨-, h⟩
                      have hle' := (h hgt).2
                      omega
                  | some clipData =>
                      have hroom := Block.le_of_store hclip
                      simp only [Option.bind_some, Option.isSome_some, true_iff]
                      exact ⟨hshort, fun _ => ⟨by omega, by omega⟩⟩
            · rw [if_neg hgt]
              simp [hshort, hgt]
          · have hstore : priv.clipType.store 0 (type ++ [0]) = none := by
              apply Block.store_eq_none_iff.mpr
              simp only [List.length_append, List.length_singleton]
              omega
            simp [xlibPushClip, hlen, htype, hstore, hshort]

/-- The buffers are no larger than what is said to be in them. -/
theorem clipLen_le_of_push {priv : XlibInput} {pkt : Bytes} {out : ClipPush}
    (h : xlibPushClip priv pkt = some out) (hp : priv.clipLen ≤ 10240) :
    out.priv.clipLen ≤ 10240 := by
  rcases xlibPushClip_isSome.mp (Option.isSome_of_eq_some h) with
    ⟨clipLen, type, hlen, htype, hshort, hfit⟩
  have hroom : 0 + (type ++ [0]).length ≤ 64 := by
    simp only [List.length_append, List.length_singleton]
    omega
  rcases priv.clipType.exists_store _ _ hroom with ⟨clipType, hstore⟩
  rw [xlibPushClip_of_type hlen htype hstore] at h
  split at h
  next hgt =>
    simp only [Option.bind_eq_bind, Option.bind_eq_some_iff, Option.some.injEq] at h
    rcases h with ⟨data, -, clipData, -, rfl⟩
    exact (hfit hgt).2
  next =>
    cases h
    exact hp

end Hprd.Input
