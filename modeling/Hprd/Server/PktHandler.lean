import Hprd.Input.XlibInput
import Hprd.Server.Requests

/-!
# Packets of clients

`on_server_pkt` of `server.c` overlays the struct of a packet's channel on the
packet, without a look at either of its lengths. A packet that is read behind its
end, or that overruns a clipboard buffer, has no result, so a run ends before it.
-/

namespace Hprd.Server

open Hprd.Core Common Input

/-- What `on_server_pkt` works on: the globals of `server.c` with the device `in_obj`. -/
structure ServerState where
  globals : Globals
  inObj : Option XlibInput

/-- What the handling of a packet sends to clients and asks of the X server. -/
structure PktEffect where
  sent : List Sent
  requests : List XRequest

def onKey (s : ServerState) (pkt : Bytes) : Option (ServerState × PktEffect) :=
  match s.inObj with
  | none => some (s, ⟨[], []⟩)
  | some _ => (xlibPushKey pkt).map fun out => (s, ⟨[], out.2⟩)

def onClip (s : ServerState) (pkt : Bytes) : Option (ServerState × PktEffect) :=
  match s.inObj with
  | none => some (s, ⟨[], []⟩)
  | some priv => (xlibPushClip priv pkt).map fun out =>
      ({ s with inObj := some out.priv }, ⟨[], out.requests⟩)

def loadRequest (pkt : Bytes) : Option RequestEvent := do
  let value ← loadBe32 pkt 16
  let id ← loadBe32 pkt 12
  let cmd ← loadByte pkt 8
  some ⟨cmd, id, value⟩

/-- `on_server_pkt`, whose `len` is the length of `pkt`. -/
def onServerPkt (s : ServerState) (client : NetClient) (pkt : Bytes) (stack : ResponseEvent) :
    Option (ServerState × PktEffect) := do
  let channel ← pktChannel pkt
  if channel = NetChannel.input.code then onKey s pkt
  else if channel = NetChannel.clip.code then onClip s pkt
  else if channel = NetChannel.request.code then
    let event ← loadRequest pkt
    let (globals, sent) := onRequest s.globals client event stack
    some ({ s with globals }, ⟨sent, []⟩)
  else some (s, ⟨[], []⟩)

inductive PktAction where
  | pkt (client : NetClient) (pkt : Bytes) (stack : ResponseEvent)
  | capture (capObj : Option CaptureObj)
  | openInput (rootWin : Bool)
  | closeInput

def pktStep (s : ServerState) : PktAction → Option ServerState
  | .pkt client pkt stack => (onServerPkt s client pkt stack).map Prod.fst
  | .capture capObj => some { s with globals := { s.globals with capObj := capObj } }
  | .openInput rootWin => some { s with inObj := some (.init rootWin) }
  | .closeInput => some { s with inObj := none }

def pktMachine : Machine ServerState PktAction where
  init s := s = ⟨⟨minBitRate, 58, none⟩, none⟩
  step := pktStep

/-- What `clip_len` says lies in the buffer. -/
def ServerState.ClipBounded (s : ServerState) : Prop :=
  ∀ priv, s.inObj = some priv → priv.clipLen ≤ 10240

/-- Every access of the handling is inside the packet or the buffer it is for, and `clip_len` stays
inside its buffer. -/
def SafePkt (s : ServerState) (client : NetClient) (pkt : Bytes) (stack : ResponseEvent) : Prop :=
  ∃ t out, onServerPkt s client pkt stack = some (t, out) ∧ t.ClipBounded

/-- The packet has all that its channel's handler takes from it. -/
def WellFormed (s : ServerState) (pkt : Bytes) : Prop :=
  4 ≤ pkt.length ∧
    (pktChannel pkt = some NetChannel.input.code → s.inObj.isSome → KeyFits pkt) ∧
    (pktChannel pkt = some NetChannel.clip.code → s.inObj.isSome → ClipFits pkt) ∧
    (pktChannel pkt = some NetChannel.request.code → 20 ≤ pkt.length)

/-! ## One packet -/

theorem pktChannel_isSome (pkt : Bytes) : (pktChannel pkt).isSome ↔ 4 ≤ pkt.length := by
  simp [pktChannel, load]

theorem loadRequest_isSome {pkt : Bytes} : (loadRequest pkt).isSome ↔ 20 ≤ pkt.length := by
  have hvalue := loadBe32_isSome pkt 16
  have hid := loadBe32_isSome pkt 12
  unfold loadRequest
  cases hv : loadBe32 pkt 16 with
  | none =>
      rw [hv] at hvalue
      simp at hvalue ⊢
      omega
  | some value =>
      rw [hv] at hvalue
      have hlen : 20 ≤ pkt.length := hvalue.mp rfl
      rcases Option.isSome_iff_exists.mp (hid.mpr (by omega)) with ⟨id, hi⟩
      have hcmd : loadByte pkt 8 = some pkt[8] := List.getElem?_eq_getElem (by omega)
      simp [hi, hcmd, hlen]

theorem onKey_isSome {s : ServerState} {pkt : Bytes} :
    (onKey s pkt).isSome ↔ (s.inObj.isSome → KeyFits pkt) := by
  unfold onKey
  cases s.inObj with
  | none => simp
  | some priv => simp [xlibPushKey_isSome]

theorem onClip_isSome {s : ServerState} {pkt : Bytes} :
    (onClip s pkt).isSome ↔ (s.inObj.isSome → ClipFits pkt) := by
  unfold onClip
  cases s.inObj with
  | none => simp
  | some priv => simp [xlibPushClip_isSome]

theorem onServerPkt_isSome (s : ServerState) (client : NetClient) (pkt : Bytes)
    (stack : ResponseEvent) : (onServerPkt s client pkt stack).isSome ↔ WellFormed s pkt := by
  have hlen := pktChannel_isSome pkt
  unfold onServerPkt WellFormed
  cases hc : pktChannel pkt with
  | none =>
      rw [hc] at hlen
      simp at hlen ⊢
      omega
  | some channel =>
      rw [hc] at hlen
      have hle : 4 ≤ pkt.length := hlen.mp rfl
      simp only [Option.bind_eq_bind, Option.bind_some, Option.some.injEq, hle, true_and]
      by_cases hkey : channel = NetChannel.input.code
      · subst hkey
        simp [onKey_isSome, NetChannel.code]
      · by_cases hclip : channel = NetChannel.clip.code
        · subst hclip
          simp [onClip_isSome, NetChannel.code]
        · by_cases hreq : channel = NetChannel.request.code
          · subst hreq
            rw [← loadRequest_isSome]
            cases loadRequest pkt with
            | _ => simp [NetChannel.code]
          · simp [hkey, hclip, hreq]

/-! ## Every run -/

theorem clipBounded_of_onClip {s t : ServerState} {pkt : Bytes} {out : PktEffect}
    (h : s.ClipBounded) (ht : onClip s pkt = some (t, out)) : t.ClipBounded := by
  unfold onClip at ht
  split at ht
  next =>
    cases ht
    exact h
  next priv hp =>
    rcases Option.map_eq_some_iff.mp ht with ⟨push, hpush, heq⟩
    cases heq
    rintro _ ⟨rfl⟩
    exact clipLen_le_of_push hpush (h priv hp)

theorem inObj_of_onKey {s t : ServerState} {pkt : Bytes} {out : PktEffect}
    (ht : onKey s pkt = some (t, out)) : t.inObj = s.inObj := by
  unfold onKey at ht
  split at ht
  next =>
    cases ht
    rfl
  next =>
    rcases Option.map_eq_some_iff.mp ht with ⟨push, -, heq⟩
    cases heq
    rfl

theorem clipBounded_of_onServerPkt {s t : ServerState} {client : NetClient} {pkt : Bytes}
    {stack : ResponseEvent} {out : PktEffect} (h : s.ClipBounded)
    (ht : onServerPkt s client pkt stack = some (t, out)) : t.ClipBounded := by
  rcases Option.bind_eq_some_iff.mp ht with ⟨channel, -, ht⟩
  split at ht
  next =>
    intro priv hp
    exact h priv ((inObj_of_onKey ht).symm.trans hp)
  next =>
    split at ht
    next => exact clipBounded_of_onClip h ht
    next =>
      split at ht
      next =>
        rcases Option.bind_eq_some_iff.mp ht with ⟨event, -, ht⟩
        cases ht
        exact h
      next =>
        cases ht
        exact h

theorem clipBounded_of_reachable {s : ServerState} (h : pktMachine.Reachable s) :
    s.ClipBounded := by
  refine h.invariant ?_ fun s a t hs _ ht => ?_
  · rintro _ rfl priv hp
    cases hp
  · cases a with
    | pkt client pkt stack =>
        rcases Option.map_eq_some_iff.mp ht with ⟨⟨u, out⟩, hu, rfl⟩
        exact clipBounded_of_onServerPkt hs hu
    | capture capObj =>
        cases ht
        exact hs
    | openInput rootWin =>
        cases ht
        rintro _ ⟨rfl⟩
        exact Nat.zero_le _
    | closeInput =>
        cases ht
        rintro _ ⟨⟩

/-- In every state a packet is handled safely just if it has all that its handler takes. -/
theorem safePkt_iff {s : ServerState} (h : pktMachine.Reachable s) (client : NetClient)
    (pkt : Bytes) (stack : ResponseEvent) : SafePkt s client pkt stack ↔ WellFormed s pkt := by
  rw [← onServerPkt_isSome s client pkt stack, Option.isSome_iff_exists]
  constructor
  · rintro ⟨t, out, ht, -⟩
    exact ⟨(t, out), ht⟩
  · rintro ⟨⟨t, out⟩, ht⟩
    exact ⟨t, out, ht, clipBounded_of_onServerPkt (clipBounded_of_reachable h) ht⟩

/-- A client's text of five bytes reaches the device. -/
theorem safePkt_text :
    SafePkt ⟨⟨minBitRate, 58, none⟩, some (.init true)⟩ ⟨0, some 1⟩
        (dataPkt .clip (be16 7 ++ ([120, 0] ++ [72, 101, 108, 108, 111]))) zeroStack ↔
      WellFormed ⟨⟨minBitRate, 58, none⟩, some (.init true)⟩
        (dataPkt .clip (be16 7 ++ ([120, 0] ++ [72, 101, 108, 108, 111]))) :=
  safePkt_iff (.next (.start rfl) trivial (a := .openInput true) rfl) ..

/-- A clip packet that is as long as it says, with a type of as many bytes as the buffer for it. -/
def longType : Bytes := dataPkt .clip (be16 66 ++ (List.replicate 64 65 ++ [0, 66]))

/-- The terminator of a long type is written behind its buffer, and the channel of a packet of one
byte is read behind its end. -/
theorem unsafe_pkts :
    ∃ s, pktMachine.Reachable s ∧ ¬SafePkt s ⟨0, some 1⟩ longType zeroStack ∧
      ¬SafePkt s ⟨0, some 1⟩ [2] zeroStack := by
  refine ⟨_, .next (.start rfl) trivial (a := .openInput true) rfl, ?_, ?_⟩
  · rintro ⟨t, out, ht, -⟩
    have hnone : (onServerPkt ⟨⟨minBitRate, 58, none⟩, some (.init true)⟩ ⟨0, some 1⟩ longType
        zeroStack).isSome = false := by decide
    rw [ht] at hnone
    cases hnone
  · rintro ⟨t, out, ht, -⟩
    cases ht

end Hprd.Server
