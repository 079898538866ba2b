import Hprd.Clients.ClipEvent

/-!
# Sharing the clipboard's text

`_focus_in` of `clients/pyqt/RenderWidget.py` encodes the text in UTF-8 and passes
one more than its number of characters as the length of the encoding. The packet
goes through `py_clip_event` and `send_clip_event` to the device of the server.
-/

namespace Hprd.Clients

open Hprd.Core Common Input

abbrev Text := List Char

def utf8 (t : Text) : Bytes := t.flatMap String.utf8EncodeChar

/-- What `_focus_in` uses of the widget. -/
structure RenderWidget where
  enableClip : Bool
  textClip : Text

/-- The call of `py_clip_event`: the memory of its two pointers, where Python ends every object
with a NUL byte, and the length before it becomes a `c_ushort`. -/
structure ClipCall where
  type : CString
  data : Bytes
  len : Nat

/-- `_focus_in` over a clipboard with `text`, if it has the format `text/plain`. -/
def RenderWidget.focusIn (w : RenderWidget) (text : Option Text) :
    RenderWidget × Option ClipCall :=
  if !w.enableClip then (w, none)
  else match text with
    | none => (w, none)
    | some t =>
        if w.textClip ≠ t then
          let w := { w with textClip := t }
          if t ≠ [] ∧ t.length < 10240 then
            (w, some ⟨textPlain, utf8 t ++ [0], t.length + 1⟩)
          else (w, none)
        else (w, none)

def pyClipEvent (eventPkt : Option (Block 10240)) (accept : Bool) (call : ClipCall) :
    Option ClipSend :=
  sendClipEvent eventPkt accept call.type call.data (UInt16.ofNat call.len)

/-- The device after the packets that were sent. -/
def pushAll (priv : XlibInput) : List Bytes → Option XlibInput
  | [] => some priv
  | pkt :: pkts => (xlibPushClip priv pkt).bind fun push => pushAll push.priv pkts

/-- The device after `_focus_in` over `t` and what follows from it, with a transport that takes
every packet. -/
def shareText (w : RenderWidget) (eventPkt : Option (Block 10240)) (t : Text) (priv : XlibInput) :
    Option XlibInput :=
  match (w.focusIn (some t)).2 with
  | none => some priv
  | some call => (pyClipEvent eventPkt true call).bind fun out => pushAll priv out.sent

/-- The device has the text with one NUL byte behind it. -/
def Intact (priv : XlibInput) (t : Text) : Prop := Stores priv textPlain (utf8 t ++ [0])

structure Forwards (w : RenderWidget) (t : Text) : Prop where
  enabled : w.enableClip = true
  changed : w.textClip ≠ t
  nonempty : t ≠ []
  short : t.length < 10240

/-- Every character has an encoding of one byte. -/
def Ascii (t : Text) : Prop := ∀ c ∈ t, c.val ≤ 0x7f

/-! ## Lengths -/

theorem utf8Size_eq_one_iff (c : Char) : c.utf8Size = 1 ↔ c.val ≤ 0x7f := by
  simp only [Char.utf8Size]
  constructor
  · intro h
    split at h
    next hle => exact hle
    next =>
      split at h
      next => cases h
      next => split at h <;> cases h
  · intro h
    exact if_pos h

theorem utf8_length (t : Text) : (utf8 t).length = (t.map Char.utf8Size).sum := by
  simp [utf8, List.length_flatMap]

theorem length_le_utf8 (t : Text) : t.length ≤ (utf8 t).length := by
  rw [utf8_length]
  induction t with
  | nil => exact Nat.le_refl _
  | cons c t ih =>
      have hc := c.utf8Size_pos
      simp only [List.map_cons, List.sum_cons, List.length_cons]
      omega

theorem utf8_length_eq_iff (t : Text) : (utf8 t).length = t.length ↔ Ascii t := by
  induction t with
  | nil => simp [utf8, Ascii]
  | cons c t ih =>
      have hc := c.utf8Size_pos
      have hle := length_le_utf8 t
      have hlen : (utf8 (c :: t)).length = c.utf8Size + (utf8 t).length := by
        simp [utf8_length]
      have hsplit : Ascii (c :: t) ↔ c.utf8Size = 1 ∧ (utf8 t).length = t.length := by
        rw [ih, utf8Size_eq_one_iff]
        exact List.forall_mem_cons
      rw [hsplit, hlen, List.length_cons]
      omega

/-! ## The text on its way -/

theorem focusIn_of_forwards {w : RenderWidget} {t : Text} (h : Forwards w t) :
    (w.focusIn (some t)).2 = some ⟨textPlain, utf8 t ++ [0], t.length + 1⟩ := by
  simp [RenderWidget.focusIn, h.enabled, h.changed, h.nonempty, h.short]

theorem sendClipEvent_take (eventPkt : Option (Block 10240)) (accept : Bool) (type : CString)
    {data : Bytes} {len : UInt16} (h : len.toNat ≤ data.length) :
    sendClipEvent eventPkt accept type data len =
      sendClipEvent eventPkt accept type (data.take len.toNat) len := by
  have hload : load data 0 len.toNat = load (data.take len.toNat) 0 len.toNat := by
    rw [load_of_le (by omega), load_of_le (by rw [List.length_take]; omega)]
    simp
  simp only [sendClipEvent, hload]

theorem toNat_len {n : Nat} (h : n < 10240) : (UInt16.ofNat (n + 1)).toNat = n + 1 := by
  rw [UInt16.toNat_ofNat']
  omega

variable {w : RenderWidget} {eventPkt : Option (Block 10240)} {t : Text} {priv : XlibInput}

theorem shareText_long (h : Forwards w t) (hlong : 10200 ≤ t.length) :
    shareText w eventPkt t priv = some priv := by
  have hlen := toNat_len h.short
  simp only [shareText, focusIn_of_forwards h, pyClipEvent]
  rw [sendClipEvent_refused (by omega)]
  rfl

/-- Of any other text as many bytes arrive as it has characters, and one more. -/
theorem shareText_short (eventPkt : Option (Block 10240)) (priv : XlibInput) (h : Forwards w t)
    (hshort : t.length < 10200) :
    ∃ priv', shareText w eventPkt t priv = some priv' ∧
      Stores priv' textPlain ((utf8 t ++ [0]).take (t.length + 1)) := by
  have hlen := toNat_len h.short
  have hle := length_le_utf8 t
  have htake : ((utf8 t ++ [0]).take (t.length + 1)).length = t.length + 1 := by
    rw [List.length_take, List.length_append, List.length_singleton]
    omega
  rcases push_data priv textPlain ((utf8 t ++ [0]).take (t.length + 1))
    (by decide) (by omega) (by omega) with ⟨push, hpush, -, hstores⟩
  have hfits : textPlain.strlen + (UInt16.ofNat (t.length + 1)).toNat ≤ 10229 := by
    change 10 + _ ≤ 10229
    omega
  rcases sendClipEvent_fits eventPkt true (htake.trans hlen.symm) (by omega) hfits with
    ⟨pkt, hsend⟩
  refine ⟨push.priv, ?_, hstores⟩
  simp only [shareText, focusIn_of_forwards h, pyClipEvent]
  rw [sendClipEvent_take _ _ _ (by rw [hlen, List.length_append, List.length_singleton]; omega),
    hlen, hsend]
  simp [pushAll, hpush]

/-- The text arrives intact just if it is an ASCII text that is short enough for a packet, or one
that is not sent and that the device has already. -/
theorem text_intact_iff (h : Forwards w t) :
    (∃ priv', shareText w eventPkt t priv = some priv' ∧ Intact priv' t) ↔
      t.length < 10200 ∧ Ascii t ∨ 10200 ≤ t.length ∧ Intact priv t := by
  by_cases hshort : t.length < 10200
  · rcases shareText_short eventPkt priv h hshort with ⟨priv', hshare, hst⟩
    have hle := length_le_utf8 t
    rw [← utf8_length_eq_iff]
    constructor
    · rintro ⟨priv'', hshare', hint⟩
      cases hshare.symm.trans hshare'
      have hn := hst.2.2.symm.trans hint.2.2
      rw [List.length_take, List.length_append, List.length_singleton] at hn
      exact .inl ⟨hshort, by omega⟩
    · rintro (⟨-, hascii⟩ | ⟨hlong, -⟩)
      · refine ⟨priv', hshare, ?_⟩
        rwa [List.take_of_length_le (by simp; omega)] at hst
      · omega
  · rw [shareText_long h (by omega)]
    constructor
    · rintro ⟨priv', heq, hint⟩
      cases heq
      exact .inr ⟨by omega, hint⟩
    · rintro (⟨hlt, -⟩ | ⟨-, hint⟩)
      · omega
      · exact ⟨priv, rfl, hint⟩

/-- A short greeting. -/
theorem text_intact_hi :
    (∃ priv', shareText ⟨true, []⟩ none ['h', 'i'] (.init true) = some priv' ∧
        Intact priv' ['h', 'i']) ↔
      ['h', 'i'].length < 10200 ∧ Ascii ['h', 'i'] ∨
        10200 ≤ ['h', 'i'].length ∧ Intact (.init true) ['h', 'i'] :=
  text_intact_iff ⟨rfl, by decide, by decide, by decide⟩

/-- Of a letter with an encoding of two bytes the NUL byte behind it is lost. -/
theorem umlaut_not_intact :
    Forwards ⟨true, []⟩ ['ü'] ∧
      ¬∃ priv', shareText ⟨true, []⟩ none ['ü'] (.init true) = some priv' ∧ Intact priv' ['ü'] := by
  have hfwd : Forwards ⟨true, []⟩ ['ü'] := ⟨rfl, by decide, by decide, by decide⟩
  refine ⟨hfwd, ?_⟩
  rintro ⟨priv', hshare, hint⟩
  rcases shareText_short none (.init true) hfwd (by decide) with
    ⟨priv'', hshare', hst⟩
  cases hshare.symm.trans hshare'
  have hn := hst.2.2.symm.trans hint.2.2
  exact absurd hn (by decide)

end Hprd.Clients
