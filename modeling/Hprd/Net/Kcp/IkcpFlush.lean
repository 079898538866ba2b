import Hprd.Net.Kcp.IkcpInput

/-!
# Writing datagrams

`ikcp_flush` packs acks, window probes and data segments into `kcp->buffer` and
passes the buffer on when `size + IKCP_OVERHEAD + len` would go past the mtu.
-/

namespace Hprd.Net.Kcp

open Hprd.Core

/-- The segments encoded into `buffer` up to `ptr`, and the datagrams that were output. -/
structure FlushBuf where
  cur : List IkcpSeg := []
  out : List (List IkcpSeg) := []

/-- `ikcp_output` of the buffer, which drops an empty one. -/
def FlushBuf.output (b : FlushBuf) : FlushBuf :=
  if (encodeSegs b.cur).length = 0 then { b with cur := [] }
  else { cur := [], out := b.out ++ [b.cur] }

/-- The mtu test and the encoding of one segment. -/
def FlushBuf.put (mtu : UInt32) (b : FlushBuf) (seg : IkcpSeg) : FlushBuf :=
  let b := if mtu.toNat < (encodeSegs b.cur).length + (overhead + seg.data.length) then b.output
    else b
  { b with cur := b.cur ++ [seg] }

def wndUnused (kcp : Ikcpcb) : UInt32 :=
  if nrcvQue kcp < kcp.rcvWnd then kcp.rcvWnd - nrcvQue kcp else 0

/-- The local `seg`, which carries the acks and the probes. -/
def ackSeg (kcp : Ikcpcb) : IkcpSeg :=
  { conv := kcp.conv, cmd := cmdAck, wnd := wndUnused kcp, una := kcp.rcvNxt }

def flushAcks (mtu : UInt32) (seg : IkcpSeg) (b : FlushBuf) :
    List (UInt32 × UInt32) → IkcpSeg × FlushBuf
  | [] => (seg, b)
  | (sn, ts) :: acks =>
      flushAcks mtu { seg with sn := sn, ts := ts } (b.put mtu { seg with sn := sn, ts := ts }) acks

def probeWindow (kcp : Ikcpcb) : Ikcpcb :=
  if kcp.rmtWnd = 0 then
    if kcp.probeWait = 0 then
      { kcp with probeWait := probeInit, tsProbe := kcp.current + probeInit }
    else if 0 ≤ itimediff kcp.current kcp.tsProbe then
      let wait := max kcp.probeWait probeInit
      let wait := min (wait + wait / 2) probeLimit
      { kcp with probeWait := wait, tsProbe := kcp.current + wait, probe := kcp.probe ||| askSend }
    else kcp
  else { kcp with tsProbe := 0, probeWait := 0 }

def flushProbes (kcp : Ikcpcb) (seg : IkcpSeg) (b : FlushBuf) : FlushBuf :=
  let b := if kcp.probe &&& askSend ≠ 0 then b.put kcp.mtu { seg with cmd := cmdWask } else b
  if kcp.probe &&& askTell ≠ 0 then b.put kcp.mtu { seg with cmd := cmdWins } else b

/-- The congestion window that `ikcp_flush` goes by. -/
def sendWindow (kcp : Ikcpcb) : UInt32 :=
  let cwnd := min kcp.sndWnd kcp.rmtWnd
  if kcp.nocwnd = 0 then min kcp.cwnd cwnd else cwnd

/-- Moves segments from `snd_queue` to `snd_buf`: what is moved, what stays, the next number. -/
def fillWindow (kcp : Ikcpcb) (wnd cwnd : UInt32) :
    List IkcpSeg → UInt32 → List IkcpSeg × List IkcpSeg × UInt32
  | [], nxt => ([], [], nxt)
  | newseg :: queue, nxt =>
      if itimediff nxt (kcp.sndUna + cwnd) < 0 then
        let (moved, stay, nxt') := fillWindow kcp wnd cwnd queue (nxt + 1)
        ({ newseg with
          conv := kcp.conv, cmd := cmdPush, wnd := wnd, ts := kcp.current, sn := nxt,
          una := kcp.rcvNxt, resendts := kcp.current, rto := kcp.rxRto.toUInt32, fastack := 0,
          xmit := 0 } :: moved, stay, nxt')
      else ([], newseg :: queue, nxt)

def fillSndBuf (kcp : Ikcpcb) (wnd cwnd : UInt32) : Ikcpcb :=
  let (moved, stay, nxt) := fillWindow kcp wnd cwnd kcp.sndQueue kcp.sndNxt
  { kcp with sndBuf := kcp.sndBuf ++ moved, sndQueue := stay, sndNxt := nxt }

/-- Why a data segment is sent: for the first time, after its timeout, after fast acks. -/
inductive Needsend where
  | no
  | first
  | lost
  | fast
  deriving DecidableEq

def needsend (kcp : Ikcpcb) (resent : UInt32) (segment : IkcpSeg) : Needsend :=
  if segment.xmit = 0 then .first
  else if 0 ≤ itimediff kcp.current segment.resendts then .lost
  else if resent ≤ segment.fastack then
    if segment.xmit.toInt32 ≤ kcp.fastlimit ∨ kcp.fastlimit ≤ 0 then .fast else .no
  else .no

/-- The bookkeeping of a sent segment. -/
def restamp (kcp : Ikcpcb) (rtomin : UInt32) (segment : IkcpSeg) : Needsend → IkcpSeg
  | .no => segment
  | .first =>
      { segment with
        xmit := segment.xmit + 1, rto := kcp.rxRto.toUInt32,
        resendts := kcp.current + kcp.rxRto.toUInt32 + rtomin }
  | .lost =>
      let rto := if kcp.nodelay = 0 then segment.rto + max segment.rto kcp.rxRto.toUInt32
        else
          let step := if kcp.nodelay < 2 then segment.rto.toInt32 else kcp.rxRto
          segment.rto + (step / 2).toUInt32
      { segment with xmit := segment.xmit + 1, rto := rto, resendts := kcp.current + rto }
  | .fast =>
      { segment with
        xmit := segment.xmit + 1, fastack := 0, resendts := kcp.current + segment.rto }

/-- What the data loop has counted: `kcp->xmit`, `kcp->state`, `change` and `lost`. -/
structure FlushCount where
  xmit : UInt32
  state : UInt32
  change : Bool := false
  lost : Bool := false

/-- The loop over `snd_buf`, which it leaves restamped. -/
def flushData (kcp : Ikcpcb) (wnd resent rtomin : UInt32) :
    List IkcpSeg → FlushCount → FlushBuf → List IkcpSeg × FlushCount × FlushBuf
  | [], c, b => ([], c, b)
  | segment :: buf, c, b =>
      let need := needsend kcp resent segment
      if need = .no then
        let (buf', c', b') := flushData kcp wnd resent rtomin buf c b
        (segment :: buf', c', b')
      else
        let segment := { restamp kcp rtomin segment need with
          ts := kcp.current, wnd := wnd, una := kcp.rcvNxt }
        let c := { c with
          xmit := if need = .lost then c.xmit + 1 else c.xmit
          lost := c.lost || need = .lost
          change := c.change || need = .fast
          state := if kcp.deadLink ≤ segment.xmit then 0xffffffff else c.state }
        let (buf', c', b') := flushData kcp wnd resent rtomin buf c (b.put kcp.mtu segment)
        (segment :: buf', c', b')

def onChange (kcp : Ikcpcb) (resent : UInt32) : Ikcpcb :=
  let ssthresh := max ((kcp.sndNxt - kcp.sndUna) / 2) threshMin
  { kcp with
    ssthresh := ssthresh, cwnd := ssthresh + resent, incr := (ssthresh + resent) * kcp.mss }

def onLost (kcp : Ikcpcb) (cwnd : UInt32) : Ikcpcb :=
  { kcp with ssthresh := max (cwnd / 2) threshMin, cwnd := 1, incr := kcp.mss }

def updateSsthresh (kcp : Ikcpcb) (c : FlushCount) (resent cwnd : UInt32) : Ikcpcb :=
  let kcp : Ikcpcb := if c.change then onChange kcp resent else kcp
  let kcp : Ikcpcb := if c.lost then onLost kcp cwnd else kcp
  if kcp.cwnd < 1 then { kcp with cwnd := 1, incr := kcp.mss } else kcp

def resentLimit (kcp : Ikcpcb) : UInt32 :=
  if 0 < kcp.fastresend then kcp.fastresend.toUInt32 else 0xffffffff

def rtoMargin (kcp : Ikcpcb) : UInt32 :=
  if kcp.nodelay = 0 then (kcp.rxRto >>> 3).toUInt32 else 0

/-- `ikcp_flush` and the datagrams it outputs. -/
def ikcpFlush (kcp : Ikcpcb) : Ikcpcb × List (List IkcpSeg) :=
  if kcp.updated = false then (kcp, [])
  else
    let wnd := wndUnused kcp
    let (seg, b) := flushAcks kcp.mtu (ackSeg kcp) {} kcp.acklist
    let kcp : Ikcpcb := probeWindow { kcp with acklist := [] }
    let b := flushProbes kcp seg b
    let cwnd := sendWindow kcp
    let kcp : Ikcpcb := fillSndBuf { kcp with probe := 0 } wnd cwnd
    let (buf, c, b) := flushData kcp wnd (resentLimit kcp) (rtoMargin kcp) kcp.sndBuf
      { xmit := kcp.xmit, state := kcp.state } b
    (updateSsthresh { kcp with sndBuf := buf, xmit := c.xmit, state := c.state } c
      (resentLimit kcp) cwnd, b.output.out)

def ikcpUpdate (kcp : Ikcpcb) (current : UInt32) : Ikcpcb × List (List IkcpSeg) :=
  let kcp : Ikcpcb := { kcp with current := current }
  let kcp : Ikcpcb := if kcp.updated = false then { kcp with updated := true, tsFlush := current } else kcp
  let slap := itimediff current kcp.tsFlush
  let kcp : Ikcpcb := if 10000 ≤ slap ∨ slap < -10000 then { kcp with tsFlush := current } else kcp
  if 10000 ≤ slap ∨ slap < -10000 ∨ 0 ≤ slap then
    let flushed := kcp.tsFlush + kcp.interval
    ikcpFlush { kcp with
      tsFlush := if 0 ≤ itimediff current flushed then current + kcp.interval else flushed }
  else (kcp, [])

end Hprd.Net.Kcp
