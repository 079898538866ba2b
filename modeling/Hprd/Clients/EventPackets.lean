import Hprd.Clients.ClipEvent
import Hprd.Input.XlibKeys

/-!
# The packets of a client

The three functions of `common/protocol_client.c` build their packets in a static
buffer each, which keeps what earlier calls left in it. Their callers put an event
together on the stack and set the members that its type uses.
-/

namespace Hprd.Clients

open Hprd.Core Common Input

/-- `send_input_event` with the `len` bytes of `buf`: the static `event_pkt` after it and what
goes to `client_send_pkt`. -/
def sendInputEvent (eventPkt : Option (Block 24)) (buf : Bytes) : Option (Block 24 × Bytes) := do
  let pkt := eventPkt.getD (.zero 24)
  let pkt ← pkt.store 0 (leBytes 4 NetChannel.input.code)
  let pkt ← pkt.store 8 buf
  let pkt ← pkt.store 4 (be32 (UInt32.ofNat buf.length))
  let out ← load pkt.bytes 0 (8 + buf.length)
  some (pkt, out)

/-- `send_request_event`. Only the first byte of `cmd` is kept. -/
def sendRequestEvent (eventPkt : Option (Block 20)) (cmd value id : UInt32) :
    Option (Block 20 × Bytes) := do
  let pkt := eventPkt.getD (.zero 20)
  let pkt ← pkt.store 8 [cmd.toUInt8]
  let pkt ← pkt.store 12 (be32 id)
  let pkt ← pkt.store 16 (be32 value)
  let pkt ← pkt.store 0 (leBytes 4 NetChannel.request.code)
  let pkt ← pkt.store 4 (be32 12)
  let out ← load pkt.bytes 0 20
  some (pkt, out)

inductive ClientCall where
  | input (e : InputEvent) (state : UInt8) (pad : UInt8 × UInt8)
  | request (cmd value id : UInt32)
  | clip (type : CString) (data : Bytes)

/-- The static packets, which are null up to the first call. -/
structure ClientPkts where
  input : Option (Block 24) := none
  request : Option (Block 20) := none
  clip : Option (Block 10240) := none

/-- A call: the packets after it and what goes to `client_send_pkt`. -/
def ClientPkts.call (p : ClientPkts) : ClientCall → Option (ClientPkts × List Bytes)
  | .input e state pad => (sendInputEvent p.input (e.bytes state pad)).map fun (pkt, out) =>
      ({ p with input := some pkt }, [out])
  | .request cmd value id => (sendRequestEvent p.request cmd value id).map fun (pkt, out) =>
      ({ p with request := some pkt }, [out])
  | .clip type data =>
      (sendClipEvent p.clip true type data (UInt16.ofNat data.length)).map fun out =>
        ({ p with clip := out.eventPkt }, out.sent)

/-! ## What is sent -/

namespace ClientCall

/-- The packet of a call that is not refused. The padding of a request is what `calloc` left. -/
def bytes : ClientCall → Bytes
  | input e state pad => dataPkt .input (e.bytes state pad)
  | request cmd value id =>
      dataPkt .request ([cmd.toUInt8, 0, 0, 0] ++ (be32 id ++ be32 value))
  | clip type data => dataPkt .clip (clipBody type data)

/-- `send_clip_event` takes no more than 10200 bytes. -/
def Accepted : ClientCall → Prop
  | clip _ data => data.length ≤ 10200
  | _ => True

/-- The length of a clip is a `uint16_t`, its type fits the device's buffer, and both together fit
the packet. -/
def Fits : ClientCall → Prop
  | clip type data => data.length < 65536 ∧ type.strlen < 64 ∧
      (data.length ≤ 10200 → type.strlen + data.length ≤ 10229)
  | _ => True

instance : DecidablePred Accepted
  | input .. => inferInstanceAs (Decidable True)
  | request .. => inferInstanceAs (Decidable True)
  | clip _ data => inferInstanceAs (Decidable (data.length ≤ 10200))

instance : DecidablePred Fits
  | input .. => inferInstanceAs (Decidable True)
  | request .. => inferInstanceAs (Decidable True)
  | clip type data => inferInstanceAs (Decidable (data.length < 65536 ∧ type.strlen < 64 ∧
      (data.length ≤ 10200 → type.strlen + data.length ≤ 10229)))

end ClientCall

/-- Nothing has been written between the `cmd` of a request and its `id`. -/
def ClientPkts.Clean (p : ClientPkts) : Prop := (p.request.getD (.zero 20)).read 9 3 = [0, 0, 0]

variable {p : ClientPkts} {c : ClientCall}

theorem sendInputEvent_spec (eventPkt : Option (Block 24)) {buf : Bytes} (h : buf.length = 16) :
    ∃ pkt, sendInputEvent eventPkt buf = some (pkt, dataPkt .input buf) := by
  obtain ⟨p₁, h₁⟩ := (eventPkt.getD (.zero 24)).exists_store 0 (leBytes 4 NetChannel.input.code)
    (by simp)
  obtain ⟨p₂, h₂⟩ := p₁.exists_store 8 buf (by omega)
  obtain ⟨p₃, h₃⟩ := p₂.exists_store 4 (be32 (UInt32.ofNat buf.length)) (by simp)
  have hchannel : p₃.read 0 4 = leBytes 4 NetChannel.input.code := by
    rw [Block.read_store_before h₃ (by omega), Block.read_store_before h₂ (by omega)]
    exact Block.read_store h₁
  have hlen : p₃.read 4 4 = be32 (UInt32.ofNat buf.length) := by
    simpa using Block.read_store h₃
  have hdata : p₃.read 8 buf.length = buf := by
    rw [Block.read_store_behind h₃ (by simp)]
    exact Block.read_store h₂
  have hout : load p₃.bytes 0 (8 + buf.length) = some (dataPkt .input buf) := by
    rw [Block.load_bytes p₃ (by omega), show 8 + buf.length = 4 + (4 + buf.length) by omega,
      Block.read_add, Block.read_add]
    simp only [Nat.zero_add, Nat.reduceAdd, hchannel, hlen, hdata]
    rfl
  refine ⟨p₃, ?_⟩
  simp only [sendInputEvent, h₁, h₂, h₃, hout, Option.bind_eq_bind, Option.bind_some]

theorem sendRequestEvent_spec (eventPkt : Option (Block 20)) (cmd value id : UInt32)
    (h : (eventPkt.getD (.zero 20)).read 9 3 = [0, 0, 0]) :
    ∃ pkt, sendRequestEvent eventPkt cmd value id =
      some (pkt, dataPkt .request ([cmd.toUInt8, 0, 0, 0] ++ (be32 id ++ be32 value))) ∧
      pkt.read 9 3 = [0, 0, 0] := by
  obtain ⟨p₁, h₁⟩ := (eventPkt.getD (.zero 20)).exists_store 8 [cmd.toUInt8] (by simp)
  obtain ⟨p₂, h₂⟩ := p₁.exists_store 12 (be32 id) (by simp)
  obtain ⟨p₃, h₃⟩ := p₂.exists_store 16 (be32 value) (by simp)
  obtain ⟨p₄, h₄⟩ := p₃.exists_store 0 (leBytes 4 NetChannel.request.code) (by simp)
  obtain ⟨p₅, h₅⟩ := p₄.exists_store 4 (be32 12) (by simp)
  have hchannel : p₅.read 0 4 = leBytes 4 NetChannel.request.code := by
    rw [Block.read_store_before h₅ (by omega)]
    exact Block.read_store h₄
  have hlen : p₅.read 4 4 = be32 12 := Block.read_store h₅
  have hcmd : p₅.read 8 1 = [cmd.toUInt8] := by
    rw [Block.read_store_behind h₅ (by simp), Block.read_store_behind h₄ (by simp),
      Block.read_store_before h₃ (by omega), Block.read_store_before h₂ (by omega)]
    exact Block.read_store h₁
  have hpad : p₅.read 9 3 = [0, 0, 0] := by
    rw [Block.read_store_behind h₅ (by simp), Block.read_store_behind h₄ (by simp),
      Block.read_store_before h₃ (by omega), Block.read_store_before h₂ (by omega),
      Block.read_store_behind h₁ (by simp)]
    exact h
  have hid : p₅.read 12 4 = be32 id := by
    rw [Block.read_store_behind h₅ (by simp), Block.read_store_behind h₄ (by simp),
      Block.read_store_before h₃ (by omega)]
    exact Block.read_store h₂
  have hvalue : p₅.read 16 4 = be32 value := by
    rw [Block.read_store_behind h₅ (by simp), Block.read_store_behind h₄ (by simp)]
    exact Block.read_store h₃
  have hout : load p₅.bytes 0 20 =
      some (dataPkt .request ([cmd.toUInt8, 0, 0, 0] ++ (be32 id ++ be32 value))) := by
    rw [Block.load_bytes p₅ (by omega)]
    congr 1
    calc p₅.read 0 20
        = p₅.read 0 (4 + (4 + (1 + (3 + (4 + 4))))) := rfl
      _ = dataPkt .request ([cmd.toUInt8, 0, 0, 0] ++ (be32 id ++ be32 value)) := by
        rw [Block.read_add, Block.read_add, Block.read_add, Block.read_add, Block.read_add]
        simp only [Nat.zero_add, Nat.reduceAdd, hchannel, hlen, hcmd, hpad, hid, hvalue]
        rfl
  refine ⟨p₅, ?_, hpad⟩
  simp only [sendRequestEvent, h₁, h₂, h₃, h₄, h₅, hout, Option.bind_eq_bind, Option.bind_some]

/-- Whatever was sent before, a call sends its packet, or nothing if it is refused. -/
theorem ClientPkts.call_spec (h : p.Clean) (hfits : c.Fits) :
    ∃ p', p.call c = some (p', if c.Accepted then [c.bytes] else []) ∧ p'.Clean := by
  cases c with
  | input e state pad =>
      obtain ⟨pkt, hsend⟩ := sendInputEvent_spec p.input (e.bytes_length state pad)
      refine ⟨{ p with input := some pkt }, ?_, h⟩
      rw [ClientPkts.call, hsend]
      rfl
  | request cmd value id =>
      obtain ⟨pkt, hsend, hpad⟩ := sendRequestEvent_spec p.request cmd value id h
      refine ⟨{ p with request := some pkt }, ?_, hpad⟩
      rw [ClientPkts.call, hsend]
      rfl
  | clip type data =>
      obtain ⟨hword, -, hroom⟩ := hfits
      have hlen : (UInt16.ofNat data.length).toNat = data.length := by
        rw [UInt16.toNat_ofNat']
        omega
      by_cases hle : data.length ≤ 10200
      · obtain ⟨pkt, hsend⟩ := sendClipEvent_fits p.clip true hlen.symm (hlen.trans_le hle)
          (by rw [hlen]; exact hroom hle)
        refine ⟨{ p with clip := some pkt }, ?_, h⟩
        have hacc : (ClientCall.clip type data).Accepted := hle
        rw [ClientPkts.call, hsend, if_pos hacc]
        rfl
      · refine ⟨p, ?_, h⟩
        have hrefused : ¬(ClientCall.clip type data).Accepted := hle
        rw [ClientPkts.call, sendClipEvent_refused (by rw [hlen]; omega), if_neg hrefused]
        rfl

end Hprd.Clients
