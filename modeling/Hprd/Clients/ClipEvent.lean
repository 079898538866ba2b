import Hprd.Input.XlibInput

/-!
# Clipboard packets from client to server

`send_clip_event` of `common/protocol_client.c` builds every packet in one static
buffer. A store behind its end has no result.
-/

namespace Hprd.Clients

open Hprd.Core Common Input

/-- A string that ends with its first NUL byte. -/
structure CString where
  chars : Bytes
  nonzero : 0 ∉ chars

namespace CString

def strlen (s : CString) : Nat := s.chars.length

def bytes (s : CString) : Bytes := s.chars ++ [0]

@[simp] theorem bytes_length (s : CString) : s.bytes.length = s.strlen + 1 := by
  simp [bytes, strlen]

end CString

/-- The value of a call, the static `event_pkt` after it, and what `client_send_pkt` took. -/
structure ClipSend where
  ret : Int
  eventPkt : Option (Block 10240)
  sent : List Bytes

/-- `send_clip_event`; `accept` says that `client_send_pkt` takes the packet. -/
def sendClipEvent (eventPkt : Option (Block 10240)) (accept : Bool) (type : CString) (data : Bytes)
    (len : UInt16) : Option ClipSend :=
  if len > 10200 then some ⟨-1, eventPkt, []⟩
  else do
    let pkt := eventPkt.getD (.zero 10240)
    let pkt ← pkt.store 8 (be16 (UInt16.ofNat (len.toNat + type.strlen + 1)))
    let pkt ← pkt.store 10 type.bytes
    let block ← load data 0 len.toNat
    let pkt ← pkt.store (10 + (type.strlen + 1)) block
    let sendLen := len.toNat + 2 + (type.strlen + 1)
    let pkt ← pkt.store 0 (leBytes 4 NetChannel.clip.code)
    let pkt ← pkt.store 4 (be32 (UInt32.ofNat sendLen))
    let out ← load pkt.bytes 0 (sendLen + 8)
    some (if accept then ⟨0, some pkt, [out]⟩ else ⟨-1, some pkt, []⟩)

/-- `type` and `data` are what the device has. -/
def Stores (priv : XlibInput) (type : CString) (data : Bytes) : Prop :=
  priv.clipType.read 0 (type.strlen + 1) = type.bytes ∧
    priv.clipData.read 0 data.length = data ∧ priv.clipLen = data.length

/-- The three members a clip is kept in. -/
def SameClip (priv priv' : XlibInput) : Prop :=
  priv.clipType = priv'.clipType ∧ priv.clipData = priv'.clipData ∧ priv.clipLen = priv'.clipLen

/-- A call that stays in its buffer and sends nothing, or sends a packet of the length it says that
the device stores as it was, or rejects with nothing changed. -/
def RoundTrips (eventPkt : Option (Block 10240)) (accept : Bool) (type : CString) (data : Bytes)
    (len : UInt16) (priv : XlibInput) : Prop :=
  ∃ out, sendClipEvent eventPkt accept type data len = some out ∧
    (out.ret = -1 ∧ out.sent = [] ∨
      ∃ pkt push, out.sent = [pkt] ∧ loadBe32 pkt 4 = some (UInt32.ofNat (pkt.length - 8)) ∧
        xlibPushClip priv pkt = some push ∧
        match push.error with
        | none => Stores push.priv type data
        | some _ => SameClip push.priv priv)

/-! ## The sender -/

def clipBody (type : CString) (data : Bytes) : Bytes :=
  be16 (UInt16.ofNat (data.length + type.strlen + 1)) ++ (type.bytes ++ data)

theorem clipBody_length (type : CString) (data : Bytes) :
    (clipBody type data).length = data.length + 2 + (type.strlen + 1) := by
  simp only [clipBody, List.length_append, be16_length, CString.bytes_length]
  omega

variable {eventPkt : Option (Block 10240)} {accept : Bool} {type : CString} {data : Bytes}
  {len : UInt16}

/-- The stores of a packet that fits leave the packet in the buffer. -/
theorem exists_stored (pkt : Block 10240) (type : CString) (data : Bytes)
    (h : type.strlen + data.length ≤ 10229) :
    ∃ p₁ p₂ p₃ p₄ p₅,
      pkt.store 8 (be16 (UInt16.ofNat (data.length + type.strlen + 1))) = some p₁ ∧
      p₁.store 10 type.bytes = some p₂ ∧ p₂.store (10 + (type.strlen + 1)) data = some p₃ ∧
      p₃.store 0 (leBytes 4 NetChannel.clip.code) = some p₄ ∧
      p₄.store 4 (be32 (UInt32.ofNat (data.length + 2 + (type.strlen + 1)))) = some p₅ ∧
      load p₅.bytes 0 (data.length + 2 + (type.strlen + 1) + 8) =
        some (dataPkt .clip (clipBody type data)) := by
  rcases pkt.exists_store 8 (be16 (UInt16.ofNat (data.length + type.strlen + 1))) (by simp) with
    ⟨p₁, h₁⟩
  rcases p₁.exists_store 10 type.bytes (by simp; omega) with ⟨p₂, h₂⟩
  rcases p₂.exists_store (10 + (type.strlen + 1)) data (by omega) with ⟨p₃, h₃⟩
  rcases p₃.exists_store 0 (leBytes 4 NetChannel.clip.code) (by simp) with ⟨p₄, h₄⟩
  rcases p₄.exists_store 4 (be32 (UInt32.ofNat (data.length + 2 + (type.strlen + 1)))) (by simp) with
    ⟨p₅, h₅⟩
  refine ⟨p₁, p₂, p₃, p₄, p₅, h₁, h₂, h₃, h₄, h₅, ?_⟩
  have hchannel : p₅.read 0 4 = leBytes 4 NetChannel.clip.code := by
    rw [Block.read_store_before h₅ (by omega)]
    simpa using Block.read_store h₄
  have hlen : p₅.read 4 4 = be32 (UInt32.ofNat (clipBody type data).length) := by
    rw [clipBody_length]
    simpa using Block.read_store h₅
  have hclip : p₅.read 8 2 = be16 (UInt16.ofNat (data.length + type.strlen + 1)) := by
    rw [Block.read_store_behind h₅ (by simp), Block.read_store_behind h₄ (by simp),
      Block.read_store_before h₃ (by omega), Block.read_store_before h₂ (by omega)]
    simpa using Block.read_store h₁
  have htype : p₅.read 10 (type.strlen + 1) = type.bytes := by
    rw [Block.read_store_behind h₅ (by simp), Block.read_store_behind h₄ (by simp),
      Block.read_store_before h₃ (by omega)]
    simpa using Block.read_store h₂
  have hdata : p₅.read (10 + (type.strlen + 1)) data.length = data := by
    rw [Block.read_store_behind h₅ (by rw [be32_length]; omega),
      Block.read_store_behind h₄ (by rw [leBytes_length]; omega)]
    exact Block.read_store h₃
  rw [Block.load_bytes p₅ (by omega)]
  congr 1
  calc p₅.read 0 (data.length + 2 + (type.strlen + 1) + 8)
      = p₅.read 0 (4 + (4 + (2 + ((type.strlen + 1) + data.length)))) := by
        congr 1
        omega
    _ = dataPkt .clip (clipBody type data) := by
        rw [Block.read_add, Block.read_add, Block.read_add, Block.read_add]
        simp only [Nat.zero_add, Nat.reduceAdd, hchannel, hlen, hclip, htype, hdata]
        rfl

theorem sendClipEvent_fits (eventPkt : Option (Block 10240)) (accept : Bool)
    (hdata : data.length = len.toNat) (hlen : len.toNat ≤ 10200)
    (h : type.strlen + len.toNat ≤ 10229) :
    ∃ pkt, sendClipEvent eventPkt accept type data len =
      some (if accept then ⟨0, some pkt, [dataPkt .clip (clipBody type data)]⟩
        else ⟨-1, some pkt, []⟩) := by
  have hle : ¬len > 10200 := by
    rw [gt_iff_lt, UInt16.lt_iff_toNat_lt]
    exact Nat.not_lt.mpr hlen
  rcases exists_stored (eventPkt.getD (.zero 10240)) type data (by rwa [hdata]) with
    ⟨p₁, p₂, p₃, p₄, p₅, h₁, h₂, h₃, h₄, h₅, hout⟩
  have hblock : load data 0 data.length = some data := by
    rw [load_of_le (by omega), List.drop_zero, List.take_length]
  refine ⟨p₅, ?_⟩
  simp only [sendClipEvent, if_neg hle, ← hdata, hblock, h₁, h₂, h₃, h₄, h₅, hout,
    Option.bind_eq_bind, Option.bind_some]

theorem sendClipEvent_overrun (hdata : data.length = len.toNat) (hlen : len.toNat ≤ 10200)
    (h : 10229 < type.strlen + len.toNat) : sendClipEvent eventPkt accept type data len = none := by
  have hle : ¬len > 10200 := by
    rw [gt_iff_lt, UInt16.lt_iff_toNat_lt]
    exact Nat.not_lt.mpr hlen
  have hblock : load data 0 data.length = some data := by
    rw [load_of_le (by omega), List.drop_zero, List.take_length]
  simp only [sendClipEvent, if_neg hle, ← hdata, hblock, Option.bind_eq_bind, Option.bind_some]
  rw [Option.bind_eq_none_iff]
  intro p₁ _
  rw [Option.bind_eq_none_iff]
  intro p₂ _
  have hover : p₂.store (10 + (type.strlen + 1)) data = none :=
    Block.store_eq_none_iff.mpr (by omega)
  rw [hover, Option.bind_none]

/-! ## The device -/

def clipHead (type : CString) (data : Bytes) : Bytes :=
  leBytes 4 NetChannel.clip.code ++ (be32 (UInt32.ofNat (clipBody type data).length) ++
    be16 (UInt16.ofNat (data.length + type.strlen + 1)))

@[simp] theorem clipHead_length (type : CString) (data : Bytes) :
    (clipHead type data).length = 10 := by
  simp [clipHead]

theorem dataPkt_clipBody (type : CString) (data : Bytes) :
    dataPkt .clip (clipBody type data) = clipHead type data ++ (type.chars ++ 0 :: data) := by
  simp [dataPkt, clipBody, clipHead, CString.bytes]

theorem length_dataPkt_clipBody (type : CString) (data : Bytes) :
    (dataPkt .clip (clipBody type data)).length = 8 + (clipBody type data).length := by
  simp only [dataPkt, List.length_append, leBytes_length, be32_length]
  omega

theorem loadBe16_clipBody (type : CString) (data : Bytes)
    (h : type.strlen + data.length + 1 < 65536) :
    ∃ clipLen : UInt16, loadBe16 (dataPkt .clip (clipBody type data)) 8 = some clipLen ∧
      clipLen.toNat = data.length + type.strlen + 1 := by
  refine ⟨_, loadBe16_of_append (leBytes 4 NetChannel.clip.code ++
    be32 (UInt32.ofNat (clipBody type data).length)) (type.bytes ++ data) _, ?_⟩
  rw [UInt16.toNat_ofNat']
  omega

theorem cString_clipBody : cString (dataPkt .clip (clipBody type data)) 10 = some type.chars := by
  rw [dataPkt_clipBody, ← clipHead_length type data]
  exact cString_append _ _ type.nonzero

theorem load_clipBody :
    load (dataPkt .clip (clipBody type data)) (10 + (type.strlen + 1)) data.length = some data := by
  have hload := load_append (clipHead type data ++ type.bytes) data []
  simp only [List.append_nil, List.length_append, clipHead_length, CString.bytes_length] at hload
  rw [← hload, dataPkt_clipBody]
  simp [CString.bytes]

theorem loadBe32_dataPkt (channel : NetChannel) (body : Bytes) :
    loadBe32 (dataPkt channel body) 4 = some (UInt32.ofNat body.length) := by
  have hload := load_append (leBytes 4 channel.code) (be32 (UInt32.ofNat body.length)) body
  simp only [leBytes_length, be32_length] at hload
  rw [loadBe32, dataPkt, hload, Option.map_some, ofBe32_be32]

theorem push_data (priv : XlibInput) (type : CString) (data : Bytes) (htype : type.strlen < 64)
    (hpos : 0 < data.length) (hdata : data.length ≤ 10240) :
    ∃ push, xlibPushClip priv (dataPkt .clip (clipBody type data)) = some push ∧
      push.error = none ∧ Stores push.priv type data := by
  rcases loadBe16_clipBody type data (by omega) with ⟨clipLen, hlen, hval⟩
  rcases priv.clipType.exists_store 0 type.bytes (by simp; omega) with
    ⟨clipType, hstore⟩
  rcases priv.clipData.exists_store 0 data (by omega) with ⟨clipData, hclip⟩
  have hgt : type.strlen + 1 < clipLen.toNat := by omega
  have hrest : clipLen.toNat - (type.strlen + 1) = data.length := by omega
  rw [xlibPushClip_of_type hlen cString_clipBody hstore]
  change ∃ push, (if type.strlen + 1 < clipLen.toNat then _ else _) = some push ∧ _
  rw [if_pos hgt]
  change ∃ push, (load _ (10 + (type.strlen + 1)) (clipLen.toNat - (type.strlen + 1))).bind _ =
    some push ∧ _
  rw [hrest, load_clipBody, Option.bind_some]
  change ∃ push, (priv.clipData.store 0 data).bind _ = some push ∧ _
  rw [hclip, Option.bind_some]
  refine ⟨_, rfl, rfl, ?_, Block.read_store hclip, hrest⟩
  simpa using Block.read_store hstore

theorem push_empty (priv : XlibInput) (htype : type.strlen < 64) :
    ∃ clipType, priv.clipType.store 0 type.bytes = some clipType ∧
      xlibPushClip priv (dataPkt .clip (clipBody type [])) =
        some ⟨{ priv with clipType }, [], some "clip len to small."⟩ := by
  rcases loadBe16_clipBody type [] (by simp; omega) with ⟨clipLen, hlen, hval⟩
  rcases priv.clipType.exists_store 0 type.bytes (by simp; omega) with
    ⟨clipType, hstore⟩
  refine ⟨clipType, hstore, ?_⟩
  have hgt : ¬type.strlen + 1 < clipLen.toNat := by
    rw [List.length_nil] at hval
    omega
  rw [xlibPushClip_of_type hlen cString_clipBody hstore]
  exact if_neg hgt

/-- What the device does with a packet, as `RoundTrips` asks for it. -/
def Delivered (priv : XlibInput) (type : CString) (data pkt : Bytes) : Prop :=
  ∃ push, xlibPushClip priv pkt = some push ∧
    match push.error with
    | none => Stores push.priv type data
    | some _ => SameClip push.priv priv

theorem delivered_iff (priv : XlibInput) (data : Bytes) (htype : type.strlen < 64)
    (hdata : data.length ≤ 10240) :
    Delivered priv type data (dataPkt .clip (clipBody type data)) ↔
      0 < data.length ∨ priv.clipType.read 0 (type.strlen + 1) = type.bytes := by
  by_cases hpos : 0 < data.length
  · rcases push_data priv type data htype hpos hdata with ⟨push, hpush, herr, hstores⟩
    refine ⟨fun _ => .inl hpos, fun _ => ⟨push, hpush, ?_⟩⟩
    rw [herr]
    exact hstores
  · have hnil : data = [] := List.eq_nil_of_length_eq_zero (by omega)
    subst hnil
    rcases push_empty priv htype with ⟨clipType, hstore, hpush⟩
    have hsame := Block.store_same_iff hstore
    rw [CString.bytes_length] at hsame
    constructor
    · rintro ⟨push, hpush', hkept⟩
      cases hpush.symm.trans hpush'
      exact .inr (hsame.mp hkept.1)
    · intro h
      have hread := h.resolve_left hpos
      exact ⟨_, hpush, hsame.mpr hread, rfl, rfl⟩

theorem sendClipEvent_refused (hlen : 10200 < len.toNat) :
    sendClipEvent eventPkt accept type data len = some ⟨-1, eventPkt, []⟩ := by
  have hgt : len > 10200 := by
    rw [gt_iff_lt, UInt16.lt_iff_toNat_lt]
    exact hlen
  exact if_pos hgt

/-- A call round trips just if its length is not accepted, or its packet fits in the buffer and,
where it is sent, has data or a type the device has already. -/
theorem roundTrips_iff (priv : XlibInput) (htype : type.strlen < 64)
    (hdata : data.length = len.toNat) :
    RoundTrips eventPkt accept type data len priv ↔
      10200 < len.toNat ∨ type.strlen + len.toNat ≤ 10229 ∧
        (accept = true → 0 < len.toNat ∨ priv.clipType.read 0 (type.strlen + 1) = type.bytes) := by
  by_cases hbig : 10200 < len.toNat
  · refine ⟨fun _ => .inl hbig, fun _ => ⟨_, sendClipEvent_refused hbig, .inl ⟨rfl, rfl⟩⟩⟩
  · have hle : len.toNat ≤ 10200 := Nat.le_of_not_lt hbig
    by_cases hfit : type.strlen + len.toNat ≤ 10229
    · rcases sendClipEvent_fits eventPkt accept hdata hle hfit with
        ⟨pkt, hsend⟩
      have hdel := delivered_iff priv data htype (by omega)
      rw [hdata] at hdel
      cases accept with
      | false =>
          refine ⟨fun _ => .inr ⟨hfit, nofun⟩, fun _ => ⟨_, hsend, .inl ⟨rfl, rfl⟩⟩⟩
      | true =>
          constructor
          · rintro ⟨out, hout, hcase⟩
            cases hsend.symm.trans hout
            rcases hcase with ⟨hret, -⟩ | ⟨pkt', push, hsent, -, hpush⟩
            · cases hret
            · cases hsent
              exact .inr ⟨hfit, fun _ => hdel.mp ⟨push, hpush⟩⟩
          · intro h
            have hstate := (h.resolve_left hbig).2 rfl
            rcases hdel.mpr hstate with ⟨push, hpush⟩
            refine ⟨_, hsend, .inr ⟨_, push, rfl, ?_, hpush⟩⟩
            rw [loadBe32_dataPkt, length_dataPkt_clipBody, Nat.add_sub_cancel_left]
    · constructor
      · rintro ⟨out, hout, -⟩
        rw [sendClipEvent_overrun hdata hle (by omega)] at hout
        cases hout
      · rintro (h | ⟨h, -⟩)
        · exact absurd h hbig
        · exact absurd h hfit

/-- The type of shared text. -/
def textPlain : CString := ⟨[116, 101, 120, 116, 47, 112, 108, 97, 105, 110], by decide⟩

/-- A text reaches a new device, and a clip of the same type without data is rejected there. -/
theorem roundTrips_hello : ∃ pkt push,
    sendClipEvent none true textPlain [104, 101, 108, 108, 111] 5 =
      some ⟨0, some pkt, [dataPkt .clip (clipBody textPlain [104, 101, 108, 108, 111])]⟩ ∧
    xlibPushClip (.init true) (dataPkt .clip (clipBody textPlain [104, 101, 108, 108, 111])) =
      some push ∧ push.error = none ∧
    RoundTrips none true textPlain [104, 101, 108, 108, 111] 5 (.init true) ∧
    RoundTrips (some pkt) true textPlain [] 0 push.priv := by
  obtain ⟨pkt, hsend⟩ := @sendClipEvent_fits textPlain [104, 101, 108, 108, 111] 5 none true rfl
    (by decide) (by decide)
  obtain ⟨push, hpush, hok, htype, -, -⟩ :=
    push_data (.init true) textPlain [104, 101, 108, 108, 111] (by decide) (by decide) (by decide)
  refine ⟨pkt, push, hsend, hpush, hok, ?_, ?_⟩
  · exact (roundTrips_iff _ (by decide) rfl).mpr (.inr ⟨by decide, fun _ => .inl (by decide)⟩)
  · exact (roundTrips_iff _ (by decide) rfl).mpr (.inr ⟨by decide, fun _ => .inr htype⟩)

def typeOfThirty : CString := ⟨List.replicate 30 97, by decide⟩

/-- A packet of the greatest accepted length with a type of thirty bytes does not fit, and one
without data leaves its type behind. -/
theorem clips_not_roundTrip :
    ¬RoundTrips none true typeOfThirty (List.replicate 10200 98) 10200 (.init true) ∧
      ¬RoundTrips none true textPlain [] 0 (.init true) := by
  constructor
  · rintro ⟨out, hout, -⟩
    have hover : sendClipEvent none true typeOfThirty (List.replicate 10200 98) 10200 = none :=
      sendClipEvent_overrun List.length_replicate (by decide) (by decide)
    rw [hover] at hout
    cases hout
  · rintro ⟨out, hout, hcase⟩
    have hfits : textPlain.strlen + (0 : UInt16).toNat ≤ 10229 := by decide
    have hnil : ([] : Bytes).length = (0 : UInt16).toNat := rfl
    rcases sendClipEvent_fits none true hnil (by decide) hfits with ⟨pkt, hsend⟩
    cases hsend.symm.trans hout
    rcases hcase with ⟨hret, -⟩ | ⟨pkt', push, hsent, -, hpush⟩
    · cases hret
    · cases hsent
      have hstate := (delivered_iff _ _ (by decide) (by decide)).mp ⟨push, hpush⟩
      exact absurd hstate (by decide)

end Hprd.Clients
