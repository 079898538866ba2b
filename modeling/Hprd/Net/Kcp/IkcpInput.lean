import Hprd.Net.Kcp.Ikcp

/-!
# Reading a datagram

`ikcp_encode_seg` and the loop of `ikcp_input`. The buffer is the list of the bytes
from the data pointer on, so a read behind its end has no value. The bookkeeping
takes 24 bytes for a header; the encoding has 26.
-/

namespace Hprd.Net.Kcp

open Hprd.Core

def encode16u (w : UInt16) : Bytes := leBytes 2 w.toNat

def encode32u (l : UInt32) : Bytes := leBytes 4 l.toNat

/-- `ikcp_encode_seg` and the `memcpy` of the data behind it. -/
def encodeSeg (seg : IkcpSeg) : Bytes :=
  encode32u seg.conv ++ encode16u seg.cmd.toUInt16 ++ encode16u seg.frg.toUInt16 ++
    encode16u seg.wnd.toUInt16 ++ encode32u seg.ts ++ encode32u seg.sn ++ encode32u seg.una ++
    encode32u seg.len ++ seg.data

def encodeSegs (segs : List IkcpSeg) : Bytes := (segs.map encodeSeg).flatten

def decode16u (p : Bytes) : Option (UInt16 × Bytes) :=
  if p.length < 2 then none else some (UInt16.ofNat (ofLeBytes (p.take 2)), p.drop 2)

def decode32u (p : Bytes) : Option (UInt32 × Bytes) :=
  if p.length < 4 then none else some (UInt32.ofNat (ofLeBytes (p.take 4)), p.drop 4)

/-! ## One segment -/

/-- The running averages of `ikcp_update_ack`. -/
def smoothRtt (kcp : Ikcpcb) (rtt : Int32) : Ikcpcb :=
  if kcp.rxSrtt = 0 then { kcp with rxSrtt := rtt, rxRttval := rtt / 2 }
  else
    let delta := (rtt - kcp.rxSrtt).toInt64
    let delta := if delta < 0 then -delta else delta
    let srtt := (7 * kcp.rxSrtt + rtt) / 8
    { kcp with
      rxRttval := (((3 * kcp.rxRttval).toInt64 + delta) / 4).toInt32
      rxSrtt := if srtt < 1 then 1 else srtt }

def updateAck (kcp : Ikcpcb) (rtt : Int32) : Ikcpcb :=
  let kcp := smoothRtt kcp rtt
  let rto := kcp.rxSrtt.toUInt32 + max kcp.interval (4 * kcp.rxRttval).toUInt32
  { kcp with rxRto := (ibound kcp.rxMinrto.toUInt32 rto rtoMax).toInt32 }

def shrinkBuf (kcp : Ikcpcb) : Ikcpcb :=
  match kcp.sndBuf with
  | seg :: _ => { kcp with sndUna := seg.sn }
  | [] => { kcp with sndUna := kcp.sndNxt }

/-- `sn` is not between `snd_una` and `snd_nxt`. -/
def outsideSent (kcp : Ikcpcb) (sn : UInt32) : Bool :=
  itimediff sn kcp.sndUna < 0 ∨ 0 ≤ itimediff sn kcp.sndNxt

def parseAckLoop (sn : UInt32) : List IkcpSeg → List IkcpSeg
  | [] => []
  | seg :: buf =>
      if sn = seg.sn then buf
      else if itimediff sn seg.sn < 0 then seg :: buf
      else seg :: parseAckLoop sn buf

def parseAck (kcp : Ikcpcb) (sn : UInt32) : Ikcpcb :=
  if outsideSent kcp sn then kcp else { kcp with sndBuf := parseAckLoop sn kcp.sndBuf }

def parseUna (kcp : Ikcpcb) (una : UInt32) : Ikcpcb :=
  { kcp with sndBuf := kcp.sndBuf.dropWhile fun seg => 0 < itimediff una seg.sn }

def parseFastackLoop (sn : UInt32) : List IkcpSeg → List IkcpSeg
  | [] => []
  | seg :: buf =>
      if itimediff sn seg.sn < 0 then seg :: buf
      else if sn ≠ seg.sn then { seg with fastack := seg.fastack + 1 } :: parseFastackLoop sn buf
      else seg :: parseFastackLoop sn buf

def parseFastack (kcp : Ikcpcb) (sn : UInt32) : Ikcpcb :=
  if outsideSent kcp sn then kcp else { kcp with sndBuf := parseFastackLoop sn kcp.sndBuf }

def ackPush (kcp : Ikcpcb) (sn ts : UInt32) : Ikcpcb :=
  { kcp with acklist := kcp.acklist ++ [(sn, ts)] }

/-- The search of `ikcp_parse_data` from the back, and the insertion; `none` is a repeated one. -/
def insertBehind (newseg : IkcpSeg) : List IkcpSeg → Option (List IkcpSeg)
  | [] => some [newseg]
  | seg :: buf =>
      if seg.sn = newseg.sn then none
      else if 0 < itimediff newseg.sn seg.sn then some (newseg :: seg :: buf)
      else (insertBehind newseg buf).map (seg :: ·)

def parseData (kcp : Ikcpcb) (newseg : IkcpSeg) : Ikcpcb :=
  if 0 ≤ itimediff newseg.sn (kcp.rcvNxt + kcp.rcvWnd) ∨ itimediff newseg.sn kcp.rcvNxt < 0 then
    kcp
  else
    moveToQueue { kcp with
      rcvBuf := ((insertBehind newseg kcp.rcvBuf.reverse).map List.reverse).getD kcp.rcvBuf }

/-- The data of a segment is read only for a push inside the receive window. -/
def takesData (kcp : Ikcpcb) (seg : IkcpSeg) : Bool :=
  seg.cmd = cmdPush ∧ itimediff seg.sn (kcp.rcvNxt + kcp.rcvWnd) < 0 ∧
    0 ≤ itimediff seg.sn kcp.rcvNxt

/-- `maxack`, once `flag` is set. -/
abbrev MaxAck := Option UInt32

/-- What the loop of `ikcp_input` does with a segment that it has decoded. -/
def inputSeg (st : Ikcpcb × MaxAck) (seg : IkcpSeg) : Ikcpcb × MaxAck :=
  let (kcp, maxack) := st
  let kcp := shrinkBuf (parseUna { kcp with rmtWnd := seg.wnd } seg.una)
  if seg.cmd = cmdAck then
    let rtt := itimediff kcp.current seg.ts
    let kcp := if 0 ≤ rtt then updateAck kcp rtt else kcp
    let kcp := shrinkBuf (parseAck kcp seg.sn)
    match maxack with
    | none => (kcp, some seg.sn)
    | some m => (kcp, if 0 < itimediff seg.sn m then some seg.sn else some m)
  else if seg.cmd = cmdPush then
    if itimediff seg.sn (kcp.rcvNxt + kcp.rcvWnd) < 0 then
      let kcp := ackPush kcp seg.sn seg.ts
      (if 0 ≤ itimediff seg.sn kcp.rcvNxt then parseData kcp seg else kcp, maxack)
    else (kcp, maxack)
  else if seg.cmd = cmdWask then ({ kcp with probe := kcp.probe ||| askTell }, maxack)
  else (kcp, maxack)

/-! ## The loop -/

def knownCmd (cmd : UInt32) : Bool :=
  cmd = cmdPush ∨ cmd = cmdAck ∨ cmd = cmdWask ∨ cmd = cmdWins

/-- The header at the data pointer, with `len`, and the bytes behind it. -/
def decodeHeader (data : Bytes) : Option (IkcpSeg × UInt32 × Bytes) := do
  let (conv, data) ← decode32u data
  let (cmd, data) ← decode16u data
  let (frg, data) ← decode16u data
  let (wnd, data) ← decode16u data
  let (ts, data) ← decode32u data
  let (sn, data) ← decode32u data
  let (una, data) ← decode32u data
  let (len, data) ← decode32u data
  return ({ conv, cmd := cmd.toUInt32, frg := frg.toUInt32, wnd := wnd.toUInt32, ts, sn, una },
    len, data)

/-- The `while (1)` of `ikcp_input`; 0 stands for its `break`. -/
def inputLoop (st : Ikcpcb × MaxAck) (data : Bytes) (size : Nat) :
    Option (Int × (Ikcpcb × MaxAck)) :=
  if _ : size < overhead then some (0, st)
  else
    match decode32u data with
    | none => none
    | some (conv, _) =>
        if conv ≠ st.1.conv then some (-1, st)
        else
          match decodeHeader data with
          | none => none
          | some (seg, len, data) =>
              if size - overhead < len.toNat ∨ len.toInt32 < 0 then some (-2, st)
              else if ¬knownCmd seg.cmd then some (-3, st)
              else if takesData st.1 seg ∧ data.length < len.toNat then none
              else
                inputLoop (inputSeg st { seg with data := data.take len.toNat })
                  (data.drop len.toNat) (size - overhead - len.toNat)
  termination_by size
  decreasing_by
    unfold overhead at *
    omega

def growWindow (kcp : Ikcpcb) : Ikcpcb :=
  let mss := kcp.mss
  if kcp.cwnd < kcp.ssthresh then { kcp with cwnd := kcp.cwnd + 1, incr := kcp.incr + mss }
  else
    let incr := max kcp.incr mss
    let incr := incr + (mss * mss / incr + mss / 16)
    { kcp with
      incr := incr
      cwnd := if (kcp.cwnd + 1) * mss ≤ incr then (incr + mss - 1) / (if 0 < mss then mss else 1)
        else kcp.cwnd }

/-- The congestion window after the loop. -/
def openWindow (kcp : Ikcpcb) : Ikcpcb :=
  if kcp.cwnd < kcp.rmtWnd then
    let kcp := growWindow kcp
    if kcp.rmtWnd < kcp.cwnd then { kcp with cwnd := kcp.rmtWnd, incr := kcp.rmtWnd * kcp.mss }
    else kcp
  else kcp

def closeFastack (st : Ikcpcb × MaxAck) : Ikcpcb :=
  match st.2 with
  | none => st.1
  | some maxack => parseFastack st.1 maxack

/-- The fast ack and the window update that close `ikcp_input`. -/
def closeInput (prevUna : UInt32) (st : Ikcpcb × MaxAck) : Ikcpcb :=
  let kcp := closeFastack st
  if 0 < itimediff kcp.sndUna prevUna then openWindow kcp else kcp

def ikcpInput (kcp : Ikcpcb) (data : Bytes) (size : Nat) : Option (Int × Ikcpcb) :=
  if size < overhead then some (-1, kcp)
  else
    (inputLoop (kcp, none) data size).map fun (ret, st) =>
      if ret = 0 then (0, closeInput kcp.sndUna st) else (ret, st.1)

end Hprd.Net.Kcp
