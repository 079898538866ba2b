import Hprd.Clients.EventPackets
import Hprd.Server.PktHandler

/-!
# What the calls of clients are for

A seat is what a client works on: the settings of the stream, and a keyboard, a mouse
and a clipboard while there is an input device. It knows no packets and no buffers.
What `on_server_pkt` makes of a packet of `protocol_client.c` is the call itself.
-/

namespace Hprd.Server

open Hprd.Core Common Input Clients

/-- What the input device offers to other programs, and whether it has a window to own it with. -/
structure Clipboard where
  type : CString
  data : Bytes
  rootWin : Bool

/-- Without an input device there is no clipboard. -/
structure Seat where
  globals : Globals
  clipboard : Option Clipboard

def emptyType : CString := ⟨[], List.not_mem_nil⟩

namespace Seat

def start : Seat := ⟨⟨minBitRate, 58, none⟩, none⟩

/-- A clip without data brings its type only. -/
def apply (seat : Seat) (client : NetClient) (stack : ResponseEvent) :
    ClientCall → Seat × PktEffect
  | .input e _ _ => (seat, ⟨[], if seat.clipboard.isSome then e.requests else []⟩)
  | .request cmd value id =>
      let (globals, sent) := onRequest seat.globals client ⟨cmd.toUInt8, id, value⟩ stack
      ({ seat with globals }, ⟨sent, []⟩)
  | .clip type data =>
      match seat.clipboard with
      | none => (seat, ⟨[], []⟩)
      | some c =>
          ({ seat with clipboard := some { c with type, data := if data = [] then c.data else data } },
            ⟨[], if data ≠ [] ∧ c.rootWin then [.setSelectionOwner] else []⟩)

end Seat

/-- The server is in the state of the seat. -/
structure Shows (s : ServerState) (seat : Seat) : Prop where
  globals : s.globals = seat.globals
  device : Option.Rel (fun priv c => Stores priv c.type c.data ∧ priv.rootWin = c.rootWin)
    s.inObj seat.clipboard

section

variable {s : ServerState} {seat : Seat} {c : ClientCall}

/-! ## Packets read back -/

theorem load_dataPkt (channel : NetChannel) (front bs rest : Bytes) :
    load (dataPkt channel (front ++ (bs ++ rest))) (8 + front.length) bs.length = some bs := by
  have hload := load_append (leBytes 4 channel.code ++
    (be32 (UInt32.ofNat (front ++ (bs ++ rest)).length) ++ front)) bs rest
  have hlen : (leBytes 4 channel.code ++
      (be32 (UInt32.ofNat (front ++ (bs ++ rest)).length) ++ front)).length = 8 + front.length := by
    simp only [List.length_append, leBytes_length, be32_length]
    omega
  rw [hlen] at hload
  rw [← hload, dataPkt]
  simp only [List.append_assoc]

theorem loadLe32_dataPkt (channel : NetChannel) (front rest : Bytes) (w : UInt32) :
    loadLe32 (dataPkt channel (front ++ (leBytes 4 w.toNat ++ rest))) (8 + front.length) =
      some w := by
  have hload := load_dataPkt channel front (leBytes 4 w.toNat) rest
  rw [leBytes_length] at hload
  have hw : w.toNat < 2 ^ 32 := w.toNat_lt
  rw [loadLe32, hload, Option.map_some]
  congr 1
  apply UInt32.toNat_inj.mp
  rw [ofLeBytes_leBytes, UInt32.toNat_ofNat']
  omega

theorem loadBe32_field (channel : NetChannel) (front rest : Bytes) (w : UInt32) :
    loadBe32 (dataPkt channel (front ++ (be32 w ++ rest))) (8 + front.length) = some w := by
  have hload := load_dataPkt channel front (be32 w) rest
  rw [be32_length] at hload
  rw [loadBe32, hload, Option.map_some, ofBe32_be32]

theorem xlibPushKey_bytes (e : InputEvent) (state : UInt8) (pad : UInt8 × UInt8) :
    (xlibPushKey (dataPkt .input (e.bytes state pad))).map Prod.snd = some e.requests := by
  refine xlibPushKey_requests rfl ?_ ?_ ?_
  · exact loadLe32_dataPkt .input [e.type.code, state, pad.1, pad.2]
      (leBytes 4 e.x.toNat ++ leBytes 4 e.y.toNat) e.keyCode
  · exact loadLe32_dataPkt .input ([e.type.code, state, pad.1, pad.2] ++ leBytes 4 e.keyCode.toNat)
      (leBytes 4 e.y.toNat) e.x
  · have hy := loadLe32_dataPkt .input ([e.type.code, state, pad.1, pad.2] ++
      (leBytes 4 e.keyCode.toNat ++ leBytes 4 e.x.toNat)) [] e.y
    rw [List.append_nil] at hy
    exact hy

theorem loadRequest_bytes (cmd value id : UInt32) :
    loadRequest (dataPkt .request ([cmd.toUInt8, 0, 0, 0] ++ (be32 id ++ be32 value))) =
      some ⟨cmd.toUInt8, id, value⟩ := by
  have hid : loadBe32 (dataPkt .request ([cmd.toUInt8, 0, 0, 0] ++ (be32 id ++ be32 value))) 12 =
      some id := loadBe32_field .request [cmd.toUInt8, 0, 0, 0] (be32 value) id
  have hvalue : loadBe32 (dataPkt .request ([cmd.toUInt8, 0, 0, 0] ++ (be32 id ++ be32 value))) 16 =
      some value := by
    have hload := loadBe32_field .request ([cmd.toUInt8, 0, 0, 0] ++ be32 id) [] value
    rw [List.append_nil, List.append_assoc] at hload
    exact hload
  rw [loadRequest, hvalue, hid]
  rfl

theorem xlibPushClip_data (priv : XlibInput) {type : CString} {data : Bytes}
    (htype : type.strlen < 64) (hpos : data ≠ []) (hdata : data.length ≤ 10200) :
    ∃ clipType clipData, priv.clipType.store 0 type.bytes = some clipType ∧
      priv.clipData.store 0 data = some clipData ∧
      xlibPushClip priv (dataPkt .clip (clipBody type data)) = some
        ⟨{ priv with clipType, clipData, clipLen := data.length },
          if priv.rootWin then [.setSelectionOwner] else [], none⟩ := by
  have hlong : 0 < data.length := List.length_pos_iff.mpr hpos
  obtain ⟨clipLen, hlen, hval⟩ := loadBe16_clipBody type data (by omega)
  obtain ⟨clipType, hstore⟩ := priv.clipType.exists_store 0 type.bytes (by simp; omega)
  obtain ⟨clipData, hclip⟩ := priv.clipData.exists_store 0 data (by omega)
  have hgt : type.chars.length + 1 < clipLen.toNat := by
    rw [hval]
    show type.strlen + 1 < data.length + type.strlen + 1
    omega
  have hrest : clipLen.toNat - (type.chars.length + 1) = data.length := by
    rw [hval]
    show data.length + type.strlen + 1 - (type.strlen + 1) = data.length
    omega
  have hload : load (dataPkt .clip (clipBody type data)) (10 + (type.chars.length + 1)) data.length =
      some data := load_clipBody
  refine ⟨clipType, clipData, hstore, hclip, ?_⟩
  rw [xlibPushClip_of_type hlen cString_clipBody hstore, if_pos hgt, hrest, hload,
    Option.bind_eq_bind, Option.bind_some, hclip]
  rfl

theorem Shows.clip {priv : XlibInput} {b : Clipboard} (h : Stores priv b.type b.data)
    (hroot : priv.rootWin = b.rootWin) {type : CString} {data : Bytes} (htype : type.strlen < 64)
    (hdata : data.length ≤ 10200) :
    ∃ push, xlibPushClip priv (dataPkt .clip (clipBody type data)) = some push ∧
      push.requests = (if data ≠ [] ∧ b.rootWin then [.setSelectionOwner] else []) ∧
      Stores push.priv type (if data = [] then b.data else data) ∧
      push.priv.rootWin = b.rootWin := by
  by_cases hempty : data = []
  · subst hempty
    obtain ⟨clipType, hstore, hpush⟩ := push_empty priv htype
    refine ⟨_, hpush, (if_neg fun hne => hne.1 rfl).symm, ⟨?_, ?_, ?_⟩, hroot⟩
    · simpa using Block.read_store hstore
    · exact h.2.1
    · exact h.2.2
  · obtain ⟨clipType, clipData, hstore, hclip, hpush⟩ := xlibPushClip_data priv htype hempty hdata
    refine ⟨_, hpush, ?_, ?_, hroot⟩
    · rw [hroot]
      simp [hempty]
    · rw [if_neg hempty]
      refine ⟨?_, Block.read_store hclip, rfl⟩
      simpa using Block.read_store hstore

/-! ## One packet -/

/-- A packet is handled as the call that it was sent by. -/
theorem Shows.onServerPkt (h : Shows s seat) (client : NetClient) (stack : ResponseEvent)
    (hfits : c.Fits) (hacc : c.Accepted) :
    ∃ s', onServerPkt s client c.bytes stack = some (s', (seat.apply client stack c).2) ∧
      Shows s' (seat.apply client stack c).1 := by
  obtain ⟨globals, inObj⟩ := s
  obtain ⟨_, clipboard⟩ := seat
  obtain ⟨rfl, hdevice⟩ := h
  cases c with
  | input e state pad =>
      refine ⟨⟨globals, inObj⟩, ?_, rfl, hdevice⟩
      have hkey := xlibPushKey_bytes e state pad
      rw [Server.onServerPkt, ClientCall.bytes, pktChannel_dataPkt, Option.bind_eq_bind,
        Option.bind_some, if_pos rfl, onKey]
      cases hdevice with
      | none => rfl
      | some _ =>
          obtain ⟨out, hout, heq⟩ := Option.map_eq_some_iff.mp hkey
          dsimp only
          rw [hout, Option.map_some, heq]
          rfl
  | request cmd value id =>
      refine ⟨⟨(onRequest globals client ⟨cmd.toUInt8, id, value⟩ stack).1, inObj⟩, ?_, rfl, hdevice⟩
      rw [Server.onServerPkt, ClientCall.bytes, pktChannel_dataPkt, Option.bind_eq_bind,
        Option.bind_some, if_neg (by decide), if_neg (by decide), if_pos rfl, loadRequest_bytes]
      rfl
  | clip type data =>
      rw [Server.onServerPkt, ClientCall.bytes, pktChannel_dataPkt, Option.bind_eq_bind,
        Option.bind_some, if_neg (by decide), if_pos rfl, onClip]
      cases hdevice with
      | none => exact ⟨_, rfl, rfl, .none⟩
      | some hpriv =>
          obtain ⟨push, hpush, hrequests, hstores, hroot⟩ :=
            Shows.clip hpriv.1 hpriv.2 hfits.2.1 hacc
          dsimp only
          rw [hpush, Option.map_some, hrequests]
          exact ⟨_, rfl, rfl, .some ⟨hstores, hroot⟩⟩

end

end Hprd.Server
