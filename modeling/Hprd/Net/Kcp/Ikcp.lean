import Hprd.Core.Bytes
import Hprd.Core.Machine

/-!
# The KCP control block of `net/kcp/ikcp.c`

The four intrusive queues are lists, and `nrcv_que` and the other counters of
their lengths are read off them. A segment's `len` is the length of its data. The
allocations succeed. `ikcp_flush` gives the datagrams it passes to the output
callback as the segments it has packed into them.
-/

namespace Hprd.Net.Kcp

open Hprd.Core

def rtoNdl : Int32 := 30

def rtoMin : Int32 := 100

def rtoDef : Int32 := 200

def rtoMax : UInt32 := 60000

def cmdPush : UInt32 := 81

def cmdAck : UInt32 := 82

def cmdWask : UInt32 := 83

def cmdWins : UInt32 := 84

def askSend : UInt32 := 1

def askTell : UInt32 := 2

def wndSnd : UInt32 := 4096

def wndRcv : UInt32 := 8192

def mtuDef : UInt32 := 1400

def interval : UInt32 := 100

def overhead : Nat := 24

def deadlink : UInt32 := 20

def threshInit : UInt32 := 2

def threshMin : UInt32 := 2

def probeInit : UInt32 := 7000

def probeLimit : UInt32 := 120000

def fastackLimit : Int32 := 5

structure IkcpSeg where
  conv : UInt32 := 0
  cmd : UInt32 := 0
  frg : UInt32 := 0
  wnd : UInt32 := 0
  ts : UInt32 := 0
  sn : UInt32 := 0
  una : UInt32 := 0
  resendts : UInt32 := 0
  rto : UInt32 := 0
  fastack : UInt32 := 0
  xmit : UInt32 := 0
  data : Bytes := []

def IkcpSeg.len (seg : IkcpSeg) : UInt32 := UInt32.ofNat seg.data.length

/-- `struct IKCPCB`, the fields that the functions below read. -/
structure Ikcpcb where
  conv : UInt32
  mtu : UInt32
  mss : UInt32
  state : UInt32
  sndUna : UInt32
  sndNxt : UInt32
  rcvNxt : UInt32
  ssthresh : UInt32
  rxRttval : Int32
  rxSrtt : Int32
  rxRto : Int32
  rxMinrto : Int32
  sndWnd : UInt32
  rcvWnd : UInt32
  rmtWnd : UInt32
  cwnd : UInt32
  probe : UInt32
  current : UInt32
  interval : UInt32
  tsFlush : UInt32
  xmit : UInt32
  nodelay : UInt32
  updated : Bool
  tsProbe : UInt32
  probeWait : UInt32
  deadLink : UInt32
  incr : UInt32
  sndQueue : List IkcpSeg
  rcvQueue : List IkcpSeg
  sndBuf : List IkcpSeg
  rcvBuf : List IkcpSeg
  acklist : List (UInt32 × UInt32)
  fastresend : Int32
  fastlimit : Int32
  nocwnd : Int32
  stream : Int32

def itimediff (later earlier : UInt32) : Int32 := (later - earlier).toInt32

def ibound (lower middle upper : UInt32) : UInt32 := min (max lower middle) upper

def nrcvQue (kcp : Ikcpcb) : UInt32 := UInt32.ofNat kcp.rcvQueue.length

def ikcpCreate (conv : UInt32) : Ikcpcb where
  conv := conv
  mtu := mtuDef
  mss := mtuDef - UInt32.ofNat overhead
  state := 0
  sndUna := 0
  sndNxt := 0
  rcvNxt := 0
  ssthresh := threshInit
  rxRttval := 0
  rxSrtt := 0
  rxRto := rtoDef
  rxMinrto := rtoMin
  sndWnd := wndSnd
  rcvWnd := wndRcv
  rmtWnd := wndRcv
  cwnd := 0
  probe := 0
  current := 0
  interval := Kcp.interval
  tsFlush := Kcp.interval
  xmit := 0
  nodelay := 0
  updated := false
  tsProbe := 0
  probeWait := 0
  deadLink := deadlink
  incr := 0
  sndQueue := []
  rcvQueue := []
  sndBuf := []
  rcvBuf := []
  acklist := []
  fastresend := 0
  fastlimit := fastackLimit
  nocwnd := 0
  stream := 0

def ikcpNodelay (kcp : Ikcpcb) (nodelay interval resend nc : Int32) : Ikcpcb :=
  let kcp := if 0 ≤ nodelay then
      { kcp with
        nodelay := nodelay.toUInt32, rxMinrto := if nodelay ≠ 0 then rtoNdl else rtoMin }
    else kcp
  let kcp := if 0 ≤ interval then
      { kcp with interval := (min (max interval 10) 5000).toUInt32 }
    else kcp
  let kcp := if 0 ≤ resend then { kcp with fastresend := resend } else kcp
  if 0 ≤ nc then { kcp with nocwnd := nc } else kcp

/-- The control block as `_new_client` and `kcp_client_init` set it up. -/
def newContext (conv : UInt32) : Ikcpcb :=
  { ikcpNodelay (ikcpCreate conv) 2 10 2 1 with rxMinrto := 10, fastresend := 1 }

/-! ## Sending and receiving messages -/

/-- The fragments of `ikcp_send`. -/
def fragments (mss : Nat) (stream : Int32) : Nat → Bytes → List IkcpSeg
  | 0, _ => []
  | count + 1, buffer =>
      { data := buffer.take mss, frg := if stream = 0 then UInt32.ofNat count else 0 } ::
        fragments mss stream count (buffer.drop mss)

def fragmentCount (mss len : Nat) : Nat := if len ≤ mss then 1 else (len + mss - 1) / mss

/-- In stream mode the last queued segment is filled up first. -/
def fillLast (kcp : Ikcpcb) (buffer : Bytes) : Nat × Ikcpcb :=
  match kcp.sndQueue.getLast? with
  | none => (0, kcp)
  | some old =>
      if kcp.stream ≠ 0 ∧ old.len < kcp.mss then
        let extend := min buffer.length (kcp.mss - old.len).toNat
        (extend, { kcp with
          sndQueue := kcp.sndQueue.dropLast ++ [{ data := old.data ++ buffer.take extend }] })
      else (0, kcp)

/-- `ikcp_send`; its `int len` is the length of the buffer. -/
def ikcpSend (kcp : Ikcpcb) (buffer : Bytes) : Int × Ikcpcb :=
  let len := (Int32.ofNat buffer.length).toInt
  if len < 0 then (-1, kcp)
  else
    let buffer := buffer.take len.toNat
    let (sent, kcp) := fillLast kcp buffer
    let buffer := buffer.drop sent
    if kcp.stream ≠ 0 ∧ buffer = [] then (sent, kcp)
    else
      let count := fragmentCount kcp.mss.toNat buffer.length
      if wndRcv.toNat ≤ count then
        (if kcp.stream ≠ 0 ∧ 0 < sent then sent else -2, kcp)
      else
        (sent + buffer.length, { kcp with
          sndQueue := kcp.sndQueue ++ fragments kcp.mss.toNat kcp.stream count buffer })

/-- The fragments up to the first with `frg == 0`, and what is behind it. -/
def firstMessage : List IkcpSeg → List IkcpSeg × List IkcpSeg
  | [] => ([], [])
  | seg :: queue =>
      if seg.frg = 0 then ([seg], queue)
      else (seg :: (firstMessage queue).1, (firstMessage queue).2)

def messageData (segs : List IkcpSeg) : Bytes := (segs.map IkcpSeg.data).flatten

def ikcpPeeksize (kcp : Ikcpcb) : Int :=
  match kcp.rcvQueue with
  | [] => -1
  | seg :: _ =>
      if seg.frg = 0 then seg.data.length
      else if nrcvQue kcp < seg.frg + 1 then -1
      else (messageData (firstMessage kcp.rcvQueue).1).length

/-- The loop that moves what is next from `rcv_buf` to `rcv_queue`. -/
def moveAvailable (rcvWnd : UInt32) :
    List IkcpSeg → List IkcpSeg → UInt32 → List IkcpSeg × List IkcpSeg × UInt32
  | [], queue, nxt => ([], queue, nxt)
  | seg :: buf, queue, nxt =>
      if seg.sn = nxt ∧ UInt32.ofNat queue.length < rcvWnd then
        moveAvailable rcvWnd buf (queue ++ [seg]) (nxt + 1)
      else (seg :: buf, queue, nxt)

def moveToQueue (kcp : Ikcpcb) : Ikcpcb :=
  let (buf, queue, nxt) := moveAvailable kcp.rcvWnd kcp.rcvBuf kcp.rcvQueue kcp.rcvNxt
  { kcp with rcvBuf := buf, rcvQueue := queue, rcvNxt := nxt }

/-- `ikcp_recv` with room for `len` bytes: its result, the message and the control block. -/
def ikcpRecv (kcp : Ikcpcb) (len : Nat) : Int × Bytes × Ikcpcb :=
  if kcp.rcvQueue = [] then (-1, [], kcp)
  else
    let peeksize := ikcpPeeksize kcp
    if peeksize < 0 then (-2, [], kcp)
    else if len < peeksize then (-3, [], kcp)
    else
      let recover := kcp.rcvWnd ≤ nrcvQue kcp
      let (segs, queue) := firstMessage kcp.rcvQueue
      let kcp := moveToQueue { kcp with rcvQueue := queue }
      let kcp := if nrcvQue kcp < kcp.rcvWnd ∧ recover then
          { kcp with probe := kcp.probe ||| askTell }
        else kcp
      ((messageData segs).length, messageData segs, kcp)

end Hprd.Net.Kcp
