import Hprd.Common.DataQueueSteps
import Hprd.Common.Protocol
import Hprd.Net.TransportSwitch
import Hprd.Net.TcpClient

/-!
# The video queue of the Python client

Two receive threads put whole packets into `recv_queue` and count them in
`recv_pkt_count`; the UI thread takes a header and a payload where the counter says
that there is a packet. One action is one access to the queue or to the counter.
-/

namespace Hprd.Clients

open Hprd.Core Common Net

/-- Where a receive thread stands in `_on_client_recv`. -/
inductive RecvPc where
  | idle
  /-- before a call of `enqueue_data` -/
  | call (buf : Bytes)
  | enqueue (buf : Bytes) (pc : Pc Bytes)
  /-- before `atomic_fetch_add(&recv_pkt_count, 1)` -/
  | count (buf : Bytes)
deriving DecidableEq

/-- Where the UI thread stands in `_decode_pkt`. A call of `dequeue_data` has copied `filled`
bytes. -/
inductive UiPc where
  | idle
  | test
  | header (filled : Nat) (pc : Pc UInt64)
  | payload (len : UInt64) (filled : Nat) (pc : Pc UInt64)
  /-- before `atomic_fetch_sub(&recv_pkt_count, 1)` -/
  | finish
deriving DecidableEq

/-- `recvPkt` is the memory of `client.recv_pkt`. `delivered` are the packets the receive threads
were given and `accepted` those that found room in the queue, both for bookkeeping. -/
structure VideoQueue where
  recvQueue : DataQueue
  recvPktCount : Int
  recvPkt : Nat → UInt8
  thread : Transport → RecvPc
  ui : UiPc
  decoded : List Bytes
  delivered : Transport → List Bytes
  accepted : List (Transport × Bytes)

inductive VideoAction where
  /-- `_on_client_recv` is called -/
  | deliver (t : Transport) (buf : Bytes)
  | recv (t : Transport) (c : Counter)
  /-- `_decode_pkt` is called -/
  | frame
  | decode (c : Counter)

/-- `sizeof(struct data_pkt)`. -/
def dataPktSize : Nat := 8

/-- The packet of a call whose room test has just passed. -/
def acceptedBy (t : Transport) (buf : Bytes) (pc : Pc Bytes) :
    Ends Bytes → List (Transport × Bytes)
  | .inl pc' => if pc'.found = pc.found then [] else [(t, buf)]
  | .inr _ => []

namespace VideoQueue

def setThread (s : VideoQueue) (t : Transport) (pc : RecvPc) : VideoQueue :=
  { s with thread := Function.update s.thread t pc }

/-- `while ((ret = enqueue_data(..)) == 0);` and the exit on -1. -/
def afterEnqueue (s : VideoQueue) (t : Transport) (buf : Bytes) : Ends Bytes → Option VideoQueue
  | .inl pc => some (s.setThread t (.enqueue buf pc))
  | .inr r =>
      if r = 0 then some (s.setThread t (.call buf))
      else if r = -1 then none
      else some (s.setThread t (.count buf))

/-- Other packets than those of the video channel leave the queue alone. -/
def onClientRecv (s : VideoQueue) (t : Transport) (buf : Bytes) : Option VideoQueue :=
  match s.thread t with
  | .idle => (pktChannel buf).map fun channel =>
      { s with delivered := Function.update s.delivered t (s.delivered t ++ [buf]) }.setThread t
        (if channel = NetChannel.video.code then .call buf else .idle)
  | _ => none

def recvStep (s : VideoQueue) (t : Transport) (c : Counter) : Option VideoQueue :=
  match s.thread t with
  | .idle => none
  | .call buf => s.afterEnqueue t buf (DataQueue.enqueueEntry buf)
  | .enqueue buf pc => (s.recvQueue.enqueueStep buf c pc).bind fun r =>
      { s with recvQueue := r.1, accepted := s.accepted ++ acceptedBy t buf pc r.2 }.afterEnqueue
        t buf r.2
  | .count _ => some ({ s with recvPktCount := s.recvPktCount + 1 }.setThread t .idle)

def fill (s : VideoQueue) (off : Nat) (bs : Bytes) : Option VideoQueue :=
  if off + bs.length ≤ bufLen then some { s with recvPkt := Ring.store s.recvPkt off bs } else none

def afterPayload (s : VideoQueue) (len : UInt64) (filled : Nat) : Ends UInt64 → VideoQueue
  | .inl pc => { s with ui := .payload len filled pc }
  | .inr _ => { s with ui := .finish }

/-- `recv_pkt->data_len = ntohl(recv_pkt->data_len)` and the call for the payload. -/
def afterHeader (s : VideoQueue) (filled : Nat) : Ends UInt64 → VideoQueue
  | .inl pc => { s with ui := .header filled pc }
  | .inr _ =>
      let dataLen := (ofBe32 (Ring.block s.recvPkt 4 4)).toNat
      let len := UInt64.ofNat dataLen
      { s with recvPkt := Ring.store s.recvPkt 4 (leBytes 4 dataLen) }.afterPayload len 0
        (DataQueue.dequeueEntry len)

/-- The `switch` behind the decrement. -/
def finishPkt (s : VideoQueue) : Option VideoQueue :=
  let channel := ofLeBytes (Ring.block s.recvPkt 0 4)
  let dataLen := ofLeBytes (Ring.block s.recvPkt 4 4)
  if channel = NetChannel.video.code then
    if dataPktSize + dataLen ≤ bufLen then
      some { s with
        ui := .idle, decoded := s.decoded ++ [Ring.block s.recvPkt dataPktSize dataLen] }
    else none
  else some { s with ui := .test }

def decodeStep (s : VideoQueue) (c : Counter) : Option VideoQueue :=
  match s.ui with
  | .idle => none
  | .test =>
      if 0 < s.recvPktCount then
        some (s.afterHeader 0 (DataQueue.dequeueEntry (UInt64.ofNat dataPktSize)))
      else some { s with ui := .idle }
  | .header filled pc =>
      (s.recvQueue.dequeueStep (UInt64.ofNat dataPktSize) c pc).bind fun r =>
      ({ s with recvQueue := r.1 }.fill filled r.2.1).map fun t =>
        afterHeader t (filled + r.2.1.length) r.2.2
  | .payload len filled pc => (s.recvQueue.dequeueStep len c pc).bind fun r =>
      ({ s with recvQueue := r.1 }.fill (dataPktSize + filled) r.2.1).map fun t =>
        afterPayload t len (filled + r.2.1.length) r.2.2
  | .finish => { s with recvPktCount := s.recvPktCount - 1 }.finishPkt

def step (s : VideoQueue) : VideoAction → Option VideoQueue
  | .deliver t buf => s.onClientRecv t buf
  | .recv t c => s.recvStep t c
  | .frame => match s.ui with
      | .idle => some { s with ui := .test }
      | _ => none
  | .decode c => s.decodeStep c

def start : VideoQueue :=
  { recvQueue := ⟨fun _ => 0, 0, 0⟩, recvPktCount := 0, recvPkt := fun _ => 0
    thread := fun _ => .idle, ui := .idle, decoded := [], delivered := fun _ => [], accepted := [] }

end VideoQueue

def videoMachine : Machine VideoQueue VideoAction where
  init s := s = .start
  step := VideoQueue.step

end Hprd.Clients
