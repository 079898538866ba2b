import Hprd.Core.Block

/-!
# Packets of `include/protocol.h`

Multi-byte fields are given by their value in network order, so that `htonl` and
`ntohl` are the two directions of `be32`. A struct overlaid on a packet is loaded
field by field at the offsets of its x86-64 layout.
-/

namespace Hprd.Common

open Hprd.Core

inductive NetChannel where
  | video | audio | input | clip | request | response | usb
  deriving DecidableEq, Repr

def NetChannel.code : NetChannel → Nat
  | video => 0
  | audio => 1
  | input => 2
  | clip => 3
  | request => 4
  | response => 5
  | usb => 6

/-- `struct data_pkt` with `data` behind it; the enum is in host order. -/
def dataPkt (channel : NetChannel) (data : Bytes) : Bytes :=
  leBytes 4 channel.code ++ (be32 (UInt32.ofNat data.length) ++ data)

def pktChannel (pkt : Bytes) : Option Nat := (load pkt 0 4).map ofLeBytes

def loadBe32 (pkt : Bytes) (i : Nat) : Option UInt32 := (load pkt i 4).map ofBe32

def loadBe16 (pkt : Bytes) (i : Nat) : Option UInt16 :=
  (load pkt i 2).map fun bs => UInt16.ofNat (ofLeBytes bs.reverse)

/-- `htons`, as the two bytes it leaves in memory. -/
def be16 (w : UInt16) : Bytes := (leBytes 2 w.toNat).reverse

@[simp] theorem be16_length (w : UInt16) : (be16 w).length = 2 := by simp [be16]

inductive RequestCmd where
  | setBitRate | setFrameRate | setShareClipboard | getBitRate | getFrameRate | getFps
  | getClientId | ping
  deriving DecidableEq, Repr

namespace RequestCmd

def code : RequestCmd → UInt8
  | setBitRate => 0
  | setFrameRate => 1
  | setShareClipboard => 2
  | getBitRate => 3
  | getFrameRate => 4
  | getFps => 5
  | getClientId => 6
  | ping => 7

/-- The `case` a `cmd` byte selects. -/
def ofCode (cmd : UInt8) : Option RequestCmd :=
  [setBitRate, setFrameRate, setShareClipboard, getBitRate, getFrameRate, getFps, getClientId,
    ping].find? (·.code = cmd)

theorem ofCode_eq_some_iff {cmd : UInt8} {c : RequestCmd} : ofCode cmd = some c ↔ c.code = cmd := by
  constructor
  · intro h
    simpa using List.find?_some h
  · rintro rfl
    cases c with
    | _ => rfl

end RequestCmd

def retSuccess : UInt8 := 1

def retFail : UInt8 := 2

structure RequestEvent where
  cmd : UInt8
  id : UInt32
  value : UInt32
  deriving DecidableEq, Repr

/-- `struct response_event`; `pad` are the bytes the compiler leaves between `ret` and `id`. -/
structure ResponseEvent where
  ret : UInt8
  pad : UInt8 × UInt8 × UInt8
  id : UInt32
  value : UInt32
  deriving DecidableEq, Repr

def ResponseEvent.bytes (r : ResponseEvent) : Bytes :=
  [r.ret, r.pad.1, r.pad.2.1, r.pad.2.2] ++ (be32 r.id ++ be32 r.value)

theorem ResponseEvent.bytes_injective : Function.Injective ResponseEvent.bytes := by
  rintro ⟨ret, ⟨p, q, s⟩, id, value⟩ ⟨ret', ⟨p', q', s'⟩, id', value'⟩ h
  simp only [bytes, List.cons_append, List.nil_append, List.cons.injEq] at h
  rcases h with ⟨hret, hp, hq, hs, htail⟩
  rcases List.append_inj htail (by simp) with ⟨hid, hvalue⟩
  rw [hret, hp, hq, hs, be32_injective hid, be32_injective hvalue]

theorem loadBe32_isSome (pkt : Bytes) (i : Nat) : (loadBe32 pkt i).isSome ↔ i + 4 ≤ pkt.length := by
  simp [loadBe32, load]

theorem loadBe16_of_append (p q : Bytes) (w : UInt16) :
    loadBe16 (p ++ (be16 w ++ q)) p.length = some w := by
  have hload := load_append p (be16 w) q
  rw [be16_length] at hload
  have hw : w.toNat < 2 ^ 16 := w.toNat_lt
  rw [loadBe16, hload, Option.map_some]
  congr 1
  apply UInt16.toNat_inj.mp
  rw [be16, List.reverse_reverse, ofLeBytes_leBytes, UInt16.toNat_ofNat']
  omega

theorem pktChannel_dataPkt (channel : NetChannel) (data : Bytes) :
    pktChannel (dataPkt channel data) = some channel.code := by
  have hload := load_append [] (leBytes 4 channel.code) (be32 (UInt32.ofNat data.length) ++ data)
  simp only [List.nil_append, List.length_nil, leBytes_length] at hload
  rw [pktChannel, dataPkt, hload, Option.map_some, ofLeBytes_leBytes]
  cases channel with
  | _ => rfl

end Hprd.Common
