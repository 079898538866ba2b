import Hprd.Net.SendPath
import Hprd.Net.TcpClient
import Hprd.Net.Kcp.Datagram

/-!
# From `on_enc_package` to the callback of one client

The buffers on the way have sizes of their own. A package that the transport takes
and the client has no room for ends the client, or the reading of its KCP session.
-/

namespace Hprd.Net

open Hprd.Core Common

def encDataSize : Nat := 1024 * 1024 * 10

/-- `kcp_enable` of the client. -/
inductive VideoTransport where
  | tcp
  | kcp

/-- `encData` has the first `enc_data_len` bytes of its buffer, `stream` what was sent and the
client has not read, `messages` what `ikcp_send` took and `ikcp_recv` has not returned. `accepted`
are the packets the transport took, `overflow` is set by a copy past the end of its buffer. -/
structure VideoState where
  encData : Bytes
  sendQueue : DataQueue
  stream : Bytes
  kcp : Kcp.Ikcpcb
  messages : List Bytes
  accepted : List Bytes
  received : List Bytes
  overflow : Bool
  exited : Bool

inductive VideoAction where
  | package (buf : Bytes)
  | bradcast
  | drain (n : Nat)
  | recv (cuts : List RecvCut)
  | kcp (a : Kcp.KcpAction)

/-- `struct data_pkt` with the bytes behind it; `VIDEO_CHANNEL` is 0. -/
def videoPkt (buf : Bytes) : Bytes := leBytes 4 0 ++ be32 (UInt32.ofNat buf.length) ++ buf

/-- `tcp_send_data_safe`; a call that waits has no result. -/
def tcpSendDataSafe (q : DataQueue) (buf : Bytes) : Option (Int × DataQueue) := do
  let (ret, q) ← q.enqueueData (be32 (UInt32.ofNat buf.length))
  if ret = 0 then none
  else if ret = -1 then return (-1, q)
  else
    let (ret, q) ← q.enqueueData buf
    if ret = 0 then none
    else if ret = -1 then return (-1, q)
    else return (0, q)

def tcpSendDataUnsafe (q : DataQueue) (buf : Bytes) : Option (Int × DataQueue) :=
  if unsafeFails q buf.length then some (-1, q) else tcpSendDataSafe q buf

def kcpServerSendPkt (kcp : Kcp.Ikcpcb) (buf : Bytes) : Int × Kcp.Ikcpcb :=
  let (ret, kcp) := Kcp.ikcpSend kcp buf
  if ret ≠ buf.length then (-1, kcp) else (buf.length, (Kcp.ikcpFlush kcp).1)

/-- `_foreach_bradcast` on this client. -/
def foreachBradcast (t : VideoTransport) (s : VideoState) (buf : Bytes) : Option VideoState :=
  match t with
  | .tcp =>
      (tcpSendDataUnsafe s.sendQueue buf).map fun (ret, q) =>
        if ret = -1 then { s with sendQueue := q }
        else { s with sendQueue := q, accepted := s.accepted ++ [buf] }
  | .kcp =>
      let (ret, kcp) := kcpServerSendPkt s.kcp buf
      if ret = -1 then some { s with kcp := kcp }
      else some { s with
        kcp := kcp, messages := s.messages ++ [buf], accepted := s.accepted ++ [buf] }

/-- One turn of the client's receive loop that ends with a packet. -/
def clientRecv (t : VideoTransport) (s : VideoState) (cuts : List RecvCut) : Option VideoState :=
  match t with
  | .tcp =>
      match tcpRecvPkt cuts s.stream with
      | .returned call _ stream =>
          some { s with stream := stream, received := s.received ++ call.toList }
      | .exit => some { s with exited := true }
      | _ => none
  | .kcp =>
      match s.messages with
      | [] => none
      | msg :: messages =>
          if bufLen < msg.length then none
          else some { s with messages := messages, received := s.received ++ [msg] }

def videoStep (t : VideoTransport) (s : VideoState) : VideoAction → Option VideoState
  | .package buf =>
      if s.encData ≠ [] then none
      else if encDataSize < buf.length then some { s with overflow := true }
      else some { s with encData := buf }
  | .bradcast =>
      if s.encData = [] then none
      else if videoPktSize < (videoPkt s.encData).length then
        some { s with encData := [], overflow := true }
      else foreachBradcast t { s with encData := [] } (videoPkt s.encData)
  | .drain n =>
      if 0 < n ∧ (n : Int) ≤ s.sendQueue.queueGetEndDataCount.toInt then
        (s.sendQueue.copyOut s.sendQueue.queueGetReadPtr n).map fun bs =>
          { s with
            sendQueue := (s.sendQueue.queueTailPointForward (UInt64.ofNat n)).2
            stream := s.stream ++ bs }
      else none
  | .recv cuts => if s.exited then none else clientRecv t s cuts
  | .kcp (.send _) => none
  | .kcp a => (Kcp.kcpStep s.kcp a).map fun kcp => { s with kcp := kcp }

/-- Nothing is on the way and `buf` is in `enc_data`. -/
def VideoState.loaded (conv : UInt32) (buf : Bytes) : VideoState where
  encData := buf
  sendQueue := .empty
  stream := []
  kcp := Kcp.newContext conv
  messages := []
  accepted := []
  received := []
  overflow := false
  exited := false

def videoMachine (t : VideoTransport) : Machine VideoState VideoAction where
  init s := ∃ conv, s = .loaded conv []
  step := videoStep t

/-- The server has nothing to send that it could, the client nothing to read that it could. -/
def Quiet (t : VideoTransport) (s : VideoState) : Prop :=
  (∀ n, videoStep t s (.drain n) = none) ∧ ∀ cuts, videoStep t s (.recv cuts) = none

/-- Every copy stayed inside its buffer, the client runs, it was called back with accepted packets
in order, and with all of them once nothing is on the way. -/
structure Delivers (t : VideoTransport) (s : VideoState) : Prop where
  copies : s.overflow = false
  alive : s.exited = false
  order : s.received <+: s.accepted
  whole : Quiet t s → s.received = s.accepted

/-- `enc_data` takes the package. With its header it is no longer than `BUFLEN`, or it fits into
`video_pkt` and the TCP client's ring has no room for it. -/
def FitsWay (t : VideoTransport) (s : VideoState) : VideoAction → Prop
  | .package buf => buf.length ≤ encDataSize
  | .bradcast =>
      8 + s.encData.length ≤ bufLen ∨
      t = .tcp ∧ 8 + s.encData.length ≤ videoPktSize ∧
        unsafeFails s.sendQueue (8 + s.encData.length) = true
  | _ => True

/-- The 64-bit counter of the ring does not wrap with this packet. -/
def Counted (s : VideoState) (a : VideoAction) : Prop :=
  a = .bradcast → s.sendQueue.bufferHead.toNat + 12 + s.encData.length < 2 ^ 64

/-- A step that brings no new package. -/
def VideoAction.onWay : VideoAction → Prop
  | .package _ => False
  | .bradcast => False
  | _ => True

/-! ## Sending -/

@[simp] theorem videoPkt_length (buf : Bytes) : (videoPkt buf).length = 8 + buf.length := by
  simp [videoPkt, leBytes_length]
  omega

/-- The check of the unsafe variant asks for the room of the frame. -/
theorem unsafeFails_iff {q : DataQueue} {len : Nat} (h : q.WellFormed) (hlen : len ≤ capacity) :
    unsafeFails q len = true ↔ q.free < 4 + len := by
  have hcap := capacity_eq
  have hfree := DataQueue.free_eq (DataQueue.used_le_capacity h)
  have hcount : q.queueGetFreeCount.toUInt32.toNat = q.free := by
    have hadd : queueDataSize + q.bufferTail - q.bufferHead
        = q.bufferTail + queueDataSize - q.bufferHead := by rw [UInt64.add_comm]
    rw [DataQueue.queueGetFreeCount, toCInt, UInt32.toUInt32_toInt32, hadd, UInt64.toNat_toUInt32]
    exact Nat.mod_eq_of_lt (show q.free < 2 ^ 32 by omega)
  have hneed : (UInt32.ofNat len + 4).toNat = 4 + len := by
    rw [UInt32.toNat_add, UInt32.toNat_ofNat']
    show (len % 2 ^ 32 + 4) % 2 ^ 32 = 4 + len
    omega
  rw [unsafeFails, decide_eq_true_iff, UInt32.lt_iff_toNat_lt, hcount, hneed]

/-- With room for the frame the call returns without waiting and has put the frame behind what is
in the ring. -/
theorem tcpSendDataSafe_room {q : DataQueue} {buf : Bytes} (h : q.WellFormed) (hne : buf ≠ [])
    (hroom : 4 + buf.length ≤ q.free)
    (hcount : q.bufferHead.toNat + 4 + buf.length < 2 ^ 64) :
    ∃ q', tcpSendDataSafe q buf = some (0, q') ∧ q'.WellFormed ∧
      q'.contents = q.contents ++ frame buf ∧
      q'.bufferHead.toNat = q.bufferHead.toNat + 4 + buf.length := by
  have hhdr : (be32 (UInt32.ofNat buf.length)).length = 4 := be32_length _
  have hnil : be32 (UInt32.ofNat buf.length) ≠ [] := by
    intro he
    rw [he] at hhdr
    cases hhdr
  rcases DataQueue.Enqueued.of_room h hnil (by omega) (by omega) with
    ⟨q₁, hput₁, hwf₁, hc₁, hh₁, -⟩
  have hfree₁ := hput₁.free
  rcases DataQueue.Enqueued.of_room hwf₁ hne (by omega) (by omega) with
    ⟨q₂, hput₂, hwf₂, hc₂, hh₂, -⟩
  have hpos := List.length_pos_iff.2 hne
  refine ⟨q₂, ?_, hwf₂, ?_, by omega⟩
  · rw [tcpSendDataSafe, hput₁.returns]
    dsimp only [Option.bind_eq_bind, Option.bind_some]
    rw [if_neg (DataQueue.int32_ofNat_ne_zero (by omega) hput₁.short),
      if_neg (DataQueue.int32_ofNat_ne_neg_one hput₁.short), hput₂.returns]
    dsimp only [Option.bind_some]
    rw [if_neg (DataQueue.int32_ofNat_ne_zero hpos hput₂.short),
      if_neg (DataQueue.int32_ofNat_ne_neg_one hput₂.short)]
    rfl
  · rw [hc₂, hc₁, List.append_assoc]
    rfl

theorem kcpServerSendPkt_eq {kcp : Kcp.Ikcpcb} {buf : Bytes} (h : Kcp.Context kcp)
    (hlen : buf.length ≤ 8191 * 1376) :
    ∃ kcp', kcpServerSendPkt kcp buf = ((buf.length : Int), kcp') ∧ Kcp.Context kcp' := by
  refine ⟨(Kcp.ikcpFlush (Kcp.ikcpSend kcp buf).2).1, ?_, h.send.flush.1⟩
  have hret := h.send_ret hlen
  unfold kcpServerSendPkt
  dsimp only
  rw [if_neg (not_not.2 hret)]

/-! ## Receiving -/

theorem tcpRecvAll_once {len : Nat} {stream : Bytes} (cuts : List RecvCut)
    (hpos : 0 < len) (hlen : len ≤ stream.length) :
    tcpRecvAll (.upTo len :: cuts) len stream = .full (stream.take len) cuts (stream.drop len) := by
  rcases Nat.exists_eq_succ_of_ne_zero (Nat.pos_iff_ne_zero.1 hpos) with ⟨k, rfl⟩
  have hcount : recvCount (k + 1) (k + 1) stream.length = k + 1 := by
    unfold recvCount
    omega
  rw [tcpRecvAll, hcount, if_neg (by omega), Nat.sub_self]
  simp [tcpRecvAll, RecvAll.push]

theorem tcpRecvPkt_whole {p rest : Bytes} (hpos : 0 < p.length) (hmax : p.length ≤ bufLen) :
    tcpRecvPkt [.upTo 4, .upTo p.length] (frame p ++ rest) = .returned (some p) [] rest := by
  have hbuf := bufLen_eq
  have hhdr : (be32 (UInt32.ofNat p.length)).length = 4 := be32_length _
  have hlen : (ofBe32 (be32 (UInt32.ofNat p.length))).toNat = p.length := by
    rw [ofBe32_be32, UInt32.toNat_ofNat']
    omega
  rw [tcpRecvPkt, frame, List.append_assoc, tcpRecvAll_once _ (by omega) (by simp),
    List.take_left' hhdr, List.drop_left' hhdr]
  dsimp only
  rw [hlen, if_neg (by omega), if_pos hpos, tcpRecvAll_once _ hpos (by simp),
    List.take_left, List.drop_left]

/-- A packet that is returned has used up its length field and is no longer than the buffer. -/
theorem tcpRecvPkt_returned {cuts cuts' : List RecvCut} {stream rest : Bytes}
    {call : Option Bytes} (h : tcpRecvPkt cuts stream = .returned call cuts' rest) :
    rest.length < stream.length ∧ ∀ p ∈ call, p.length ≤ bufLen := by
  rw [tcpRecvPkt] at h
  cases hhdr : tcpRecvAll cuts 4 stream with
  | blocked rest => simp [hhdr] at h
  | failed => simp [hhdr] at h
  | full hdr cuts₁ s₁ =>
      rcases tcpRecvAll_full hhdr with ⟨hs₁, hlen₁, -, -⟩
      have hshort : s₁.length < stream.length := by
        rw [hs₁, List.length_append]
        omega
      simp only [hhdr] at h
      split at h
      · cases h
      next hmax =>
          split at h
          · cases hbody : tcpRecvAll cuts₁ (ofBe32 hdr).toNat s₁ with
            | blocked rest => simp [hbody] at h
            | failed => simp [hbody] at h
            | full buf cuts₂ s₂ =>
                rcases tcpRecvAll_full hbody with ⟨hs₂, hlen₂, -, -⟩
                simp only [hbody] at h
                cases h
                constructor
                · rw [hs₂, List.length_append] at hshort
                  omega
                · rintro p ⟨⟩
                  omega
          · cases h
            exact ⟨hshort, nofun⟩

theorem tcpRecvPkt_nil (cuts : List RecvCut) :
    tcpRecvPkt cuts [] = .blocked [] ∨ tcpRecvPkt cuts [] = .closed := by
  rcases cuts with _ | ⟨_ | n, cuts⟩
  · exact .inl rfl
  · exact .inr rfl
  · simp [tcpRecvPkt, tcpRecvAll, recvCount]

/-! ## One step -/

section

variable {t : VideoTransport} {s s' : VideoState}

theorem step_package {buf : Bytes} (h : s.encData = []) (hlen : buf.length ≤ encDataSize) :
    videoStep t s (.package buf) = some { s with encData := buf } := by
  rw [videoStep, if_neg (not_not.2 h), if_neg (Nat.not_lt.2 hlen)]

theorem step_bradcast (h : s.encData ≠ []) (hlen : (videoPkt s.encData).length ≤ videoPktSize) :
    videoStep t s .bradcast =
      foreachBradcast t { s with encData := [] } (videoPkt s.encData) := by
  rw [videoStep, if_neg h, if_neg (Nat.not_lt.2 hlen)]

theorem drain_cases {n : Nat} (h : s.sendQueue.WellFormed)
    (hs : videoStep t s (.drain n) = some s') :
    ∃ q bs, s' = { s with sendQueue := q, stream := s.stream ++ bs } ∧ bs.length = n ∧ 0 < n ∧
      q.WellFormed ∧ bs ++ q.contents = s.sendQueue.contents ∧
      q.bufferHead = s.sendQueue.bufferHead := by
  rw [videoStep] at hs
  split at hs
  next hn =>
      rcases Option.map_eq_some_iff.1 hs with ⟨bs, hbs, rfl⟩
      rcases DataQueue.drain_contents h hn.2 hbs with ⟨hwf, hc, hh⟩
      exact ⟨_, bs, rfl, (DataQueue.copyOut_length hbs).1, hn.1, hwf, hc, hh⟩
  · cases hs

theorem drain_possible (h : s.sendQueue.WellFormed) (hne : s.sendQueue.contents ≠ []) :
    videoStep t s (.drain 1) ≠ none := by
  have hcap := capacity_eq
  have hu := DataQueue.used_le_capacity h
  have hpos : 0 < s.sendQueue.used := by
    rw [← DataQueue.contents_length]
    exact List.length_pos_iff.2 hne
  have hmod := Nat.mod_lt s.sendQueue.bufferTail.toNat (show 0 < capacity by decide)
  have hcount : ((1 : Nat) : Int) ≤ s.sendQueue.queueGetEndDataCount.toInt := by
    rw [DataQueue.queueGetEndDataCount_toInt (by omega)]
    omega
  have hstraight : Straight s.sendQueue.bufferTail 1 :=
    ⟨by omega, s.sendQueue.bufferTail.toNat_lt⟩
  rw [videoStep, if_pos ⟨Nat.one_pos, hcount⟩, DataQueue.direct_read hpos hstraight]
  exact nofun

/-! ## What is on the way -/

/-- The packets between the transport and the callback. -/
def OnWay (t : VideoTransport) (s : VideoState) (ps : List Bytes) : Prop :=
  match t with
  | .tcp => s.stream ++ s.sendQueue.contents = frames ps
  | .kcp => s.messages = ps

structure PathInv (t : VideoTransport) (s : VideoState) : Prop where
  ring : s.sendQueue.WellFormed
  context : Kcp.Context s.kcp
  copies : s.overflow = false
  alive : s.exited = false
  short : ∀ p ∈ s.received, p.length ≤ bufLen
  pending : ∃ ps, s.accepted = s.received ++ ps ∧
    (∀ p ∈ ps, 0 < p.length ∧ p.length ≤ bufLen) ∧ OnWay t s ps

theorem foreachBradcast_taken {buf : Bytes} {ps : List Bytes} (hring : s.sendQueue.WellFormed)
    (hctx : Kcp.Context s.kcp) (hway : OnWay t s ps) (hne : buf ≠ [])
    (hlen : buf.length ≤ videoPktSize)
    (hroom : ¬(t = .tcp ∧ unsafeFails s.sendQueue buf.length = true))
    (hcount : s.sendQueue.bufferHead.toNat + 4 + buf.length < 2 ^ 64) :
    ∃ q kcp stream messages, foreachBradcast t s buf =
        some { s with
          sendQueue := q, kcp := kcp, stream := stream, messages := messages
          accepted := s.accepted ++ [buf] } ∧
      q.WellFormed ∧ Kcp.Context kcp ∧
      OnWay t { s with sendQueue := q, stream := stream, messages := messages } (ps ++ [buf]) := by
  have hcap := capacity_eq
  have hsize : videoPktSize = 10485760 := rfl
  cases t with
  | tcp =>
      have hway : s.stream ++ s.sendQueue.contents = frames ps := hway
      have hfails : ¬unsafeFails s.sendQueue buf.length = true := fun hf => hroom ⟨rfl, hf⟩
      have hfree := hfails
      rw [unsafeFails_iff hring (by omega)] at hfree
      rcases tcpSendDataSafe_room hring hne (by omega) hcount with ⟨q, hq, hwf, hc, -⟩
      refine ⟨q, s.kcp, s.stream, s.messages, ?_, hwf, hctx, ?_⟩
      · rw [foreachBradcast, tcpSendDataUnsafe, if_neg hfails, hq]
        rfl
      · show s.stream ++ q.contents = _
        rw [hc, ← List.append_assoc, hway, frames_append]
        simp
  | kcp =>
      have hway : s.messages = ps := hway
      rcases kcpServerSendPkt_eq hctx (show buf.length ≤ 8191 * 1376 by omega) with
        ⟨kcp, hkcp, hctx'⟩
      refine ⟨s.sendQueue, kcp, s.stream, s.messages ++ [buf], ?_, hring, hctx', ?_⟩
      · rw [foreachBradcast, hkcp]
        dsimp only
        rw [if_neg (by omega)]
      · show s.messages ++ [buf] = _
        rw [hway]

theorem videoPkt_ne_nil (buf : Bytes) : videoPkt buf ≠ [] := by
  intro he
  have hlen := videoPkt_length buf
  rw [he, List.length_nil] at hlen
  omega

theorem PathInv.bradcast (h : PathInv t s) (hfit : FitsWay t s .bradcast)
    (hcount : Counted s .bradcast) (hs : videoStep t s .bradcast = some s') : PathInv t s' := by
  have hbuf := bufLen_eq
  have hsize : videoPktSize = 10485760 := rfl
  have hcount := hcount rfl
  have hlen := videoPkt_length s.encData
  rcases h.pending with ⟨ps, hacc, hps, hway⟩
  rw [videoStep] at hs
  split at hs
  · cases hs
  · by_cases hrefused : t = .tcp ∧ unsafeFails s.sendQueue (8 + s.encData.length) = true
    · rcases hrefused with ⟨rfl, hfails⟩
      have hmax : 8 + s.encData.length ≤ videoPktSize := by
        rcases hfit with hfit | ⟨-, hfit, -⟩ <;> omega
      rw [if_neg (by omega), foreachBradcast, tcpSendDataUnsafe, hlen, if_pos hfails] at hs
      cases hs
      exact { h with pending := ⟨ps, hacc, hps, hway⟩ }
    · have hfit : 8 + s.encData.length ≤ bufLen := by
        rcases hfit with hfit | ⟨htcp, -, hfull⟩
        · exact hfit
        · exact absurd ⟨htcp, hfull⟩ hrefused
      rw [if_neg (by omega)] at hs
      rw [← hlen] at hrefused
      have htaken := @foreachBradcast_taken t { s with encData := [] } (videoPkt s.encData) ps
        h.ring h.context hway (videoPkt_ne_nil _) (by omega) hrefused
        (show s.sendQueue.bufferHead.toNat + 4 + _ < 2 ^ 64 by omega)
      rcases htaken with ⟨q, kcp, stream, messages, htaken, hwf, hctx, hway'⟩
      rw [htaken] at hs
      cases hs
      refine ⟨hwf, hctx, h.copies, h.alive, h.short, ps ++ [videoPkt s.encData], ?_, ?_, hway'⟩
      · show s.accepted ++ _ = _
        rw [hacc, List.append_assoc]
      · intro p hp
        rcases List.mem_append.1 hp with hp | hp
        · exact hps p hp
        · rw [List.mem_singleton.1 hp]
          omega

theorem PathInv.drain {n : Nat} (h : PathInv t s) (hs : videoStep t s (.drain n) = some s') :
    PathInv t s' := by
  rcases drain_cases h.ring hs with ⟨q, bs, rfl, -, -, hwf, hc, -⟩
  rcases h.pending with ⟨ps, hacc, hps, hway⟩
  refine { h with ring := hwf, pending := ⟨ps, hacc, hps, ?_⟩ }
  cases t with
  | tcp =>
      show (s.stream ++ bs) ++ q.contents = _
      rw [List.append_assoc, hc]
      exact hway
  | kcp => exact hway

theorem PathInv.recv {cuts : List RecvCut} (h : PathInv t s)
    (hs : videoStep t s (.recv cuts) = some s') : PathInv t s' := by
  rw [videoStep, h.alive] at hs
  rcases h.pending with ⟨ps, hacc, hps, hway⟩
  cases t with
  | tcp =>
      have hway : s.stream ++ s.sendQueue.contents = frames ps := hway
      have hs : clientRecv .tcp s cuts = some s' := hs
      cases ps with
      | nil =>
          have hnil : s.stream = [] := (List.append_eq_nil_iff.1 hway).1
          rw [clientRecv, hnil] at hs
          rcases tcpRecvPkt_nil cuts with he | he <;> rw [he] at hs <;> cases hs
      | cons p ps =>
          rcases hps p (List.mem_cons_self ..) with ⟨hpos, hmax⟩
          have hpre : s.stream <+: frame p ++ frames ps := ⟨_, hway⟩
          rw [clientRecv] at hs
          rcases tcpRecvPkt_frame hpos hmax hpre with
            ⟨got, rest, he, -, -⟩ | he | ⟨cuts', rest, he, hrest, -⟩
          · rw [he] at hs
            cases hs
          · rw [he] at hs
            cases hs
          · rw [he] at hs
            cases hs
            refine { h with short := ?_, pending := ⟨ps, ?_, ?_, ?_⟩ }
            · intro x hx
              rcases List.mem_append.1 hx with hx | hx
              · exact h.short x hx
              · rw [List.mem_singleton.1 hx]
                exact hmax
            · rw [hacc, List.append_assoc]
              rfl
            · exact fun x hx => hps x (List.mem_cons_of_mem _ hx)
            · rw [hrest, List.append_assoc, frames_cons] at hway
              exact List.append_cancel_left hway
  | kcp =>
      have hway : s.messages = ps := hway
      have hs : clientRecv .kcp s cuts = some s' := hs
      rw [clientRecv, hway] at hs
      cases ps with
      | nil => cases hs
      | cons p ps =>
          rcases hps p (List.mem_cons_self ..) with ⟨hpos, hmax⟩
          dsimp only at hs
          rw [if_neg (by omega)] at hs
          cases hs
          refine { h with short := ?_, pending := ⟨ps, ?_, ?_, rfl⟩ }
          · intro x hx
            rcases List.mem_append.1 hx with hx | hx
            · exact h.short x hx
            · rw [List.mem_singleton.1 hx]
              exact hmax
          · rw [hacc, List.append_assoc]
            rfl
          · exact fun x hx => hps x (List.mem_cons_of_mem _ hx)

theorem kcp_cases {a : Kcp.KcpAction} (hs : videoStep t s (.kcp a) = some s') :
    ∃ kcp, Kcp.kcpStep s.kcp a = some kcp ∧ s' = { s with kcp := kcp } := by
  cases a with
  | send => cases hs
  | _ =>
      unfold videoStep at hs
      rcases Option.map_eq_some_iff.1 hs with ⟨kcp, hk, hs⟩
      exact ⟨kcp, hk, hs.symm⟩

theorem PathInv.step {a : VideoAction} (h : PathInv t s) (hfit : FitsWay t s a)
    (hcount : Counted s a) (hs : videoStep t s a = some s') : PathInv t s' := by
  cases a with
  | package buf =>
      rw [videoStep] at hs
      split at hs
      · cases hs
      · rw [if_neg (Nat.not_lt.2 hfit)] at hs
        cases hs
        exact { h with pending := h.pending }
  | bradcast => exact h.bradcast hfit hcount hs
  | drain n => exact h.drain hs
  | recv cuts => exact h.recv hs
  | kcp a =>
      rcases kcp_cases hs with ⟨kcp, hk, rfl⟩
      exact { h with context := h.context.step hk, pending := h.pending }

theorem pathInv_start (t : VideoTransport) : ∀ s, (videoMachine t).init s → PathInv t s := by
  rintro _ ⟨conv, rfl⟩
  refine ⟨DataQueue.empty_wellFormed, Kcp.Context.new conv, rfl, rfl, nofun, [], rfl, nofun, ?_⟩
  cases t with
  | tcp =>
      show [] ++ DataQueue.empty.contents = []
      exact List.eq_nil_of_length_eq_zero (DataQueue.contents_length _)
  | kcp => rfl

/-- Where nothing moves any more nothing is on the way. -/
theorem PathInv.delivers (h : PathInv t s) : Delivers t s := by
  rcases h.pending with ⟨ps, hacc, hps, hway⟩
  refine ⟨h.copies, h.alive, ⟨ps, hacc.symm⟩, fun hquiet => ?_⟩
  have hnil : ps = [] := by
    by_contra hne
    rcases List.exists_cons_of_ne_nil hne with ⟨p, ps, rfl⟩
    rcases hps p (List.mem_cons_self ..) with ⟨hpos, hmax⟩
    cases t with
    | tcp =>
        have hway : s.stream ++ s.sendQueue.contents = frames (p :: ps) := hway
        have hempty : s.sendQueue.contents = [] := by
          by_contra hc
          exact drain_possible h.ring hc (hquiet.1 1)
        rw [hempty, List.append_nil, frames_cons] at hway
        have hrecv := hquiet.2 [.upTo 4, .upTo p.length]
        rw [videoStep, h.alive] at hrecv
        have hrecv : clientRecv .tcp s [.upTo 4, .upTo p.length] = none := hrecv
        rw [clientRecv, hway, tcpRecvPkt_whole hpos hmax] at hrecv
        cases hrecv
    | kcp =>
        have hway : s.messages = p :: ps := hway
        have hrecv := hquiet.2 []
        rw [videoStep, h.alive] at hrecv
        have hrecv : clientRecv .kcp s [] = none := hrecv
        rw [clientRecv, hway] at hrecv
        dsimp only at hrecv
        rw [if_neg (by omega)] at hrecv
        cases hrecv
  rw [hacc, hnil, List.append_nil]

/-! ## A packet the client has no room for -/

/-- What reading and draining keep. -/
structure Settling (accepted : List Bytes) (s : VideoState) : Prop where
  ring : s.sendQueue.WellFormed
  accepted : s.accepted = accepted
  short : ∀ p ∈ s.received, p.length ≤ bufLen

/-- A byte in the ring has two ways to go, a byte in the stream and a message one. -/
def VideoState.rank (s : VideoState) : Nat :=
  2 * s.sendQueue.used + s.stream.length + s.messages.length + if s.exited then 0 else 1

theorem Settling.step {acc : List Bytes} {a : VideoAction} (h : Settling acc s)
    (ha : (∃ n, a = .drain n) ∨ ∃ cuts, a = .recv cuts) (hs : videoStep t s a = some s') :
    Settling acc s' ∧ s'.rank < s.rank := by
  rcases ha with ⟨n, rfl⟩ | ⟨cuts, rfl⟩
  · rcases drain_cases h.ring hs with ⟨q, bs, rfl, hlen, hpos, hwf, hc, -⟩
    refine ⟨⟨hwf, h.accepted, h.short⟩, ?_⟩
    have hused := congrArg List.length hc
    rw [List.length_append, DataQueue.contents_length, DataQueue.contents_length] at hused
    simp only [VideoState.rank, List.length_append]
    omega
  · rw [videoStep] at hs
    split at hs
    · cases hs
    next hrun =>
        cases t with
        | tcp =>
            rw [clientRecv] at hs
            split at hs
            next call cuts' stream he =>
                rcases tcpRecvPkt_returned he with ⟨hshort, hmax⟩
                cases hs
                constructor
                · refine ⟨h.ring, h.accepted, fun p hp => ?_⟩
                  rcases List.mem_append.1 hp with hp | hp
                  · exact h.short p hp
                  · exact hmax p (Option.mem_toList.1 hp)
                · simp only [VideoState.rank]
                  omega
            · cases hs
              refine ⟨⟨h.ring, h.accepted, h.short⟩, ?_⟩
              simp [VideoState.rank, hrun]
            · cases hs
        | kcp =>
            rw [clientRecv] at hs
            split at hs
            · cases hs
            next msg messages he =>
                split at hs
                · cases hs
                next hmax =>
                    cases hs
                    constructor
                    · refine ⟨h.ring, h.accepted, fun p hp => ?_⟩
                      rcases List.mem_append.1 hp with hp | hp
                      · exact h.short p hp
                      · rw [List.mem_singleton.1 hp]
                        exact Nat.not_lt.1 hmax
                    · simp only [VideoState.rank, he, List.length_cons]
                      omega

/-- An accepted packet longer than `BUFLEN` never comes out. -/
theorem Settling.not_delivered {acc : List Bytes} {p : Bytes} (h : Settling acc s) (hp : p ∈ acc)
    (hlong : bufLen < p.length) :
    ∃ as u, (∀ a ∈ as, a.onWay) ∧ (videoMachine t).exec s as = some u ∧ ¬Delivers t u := by
  rcases Machine.exists_quiet (M := videoMachine t) (P := Settling acc)
      (fun a => (∃ n, a = .drain n) ∨ ∃ cuts, a = .recv cuts) VideoState.rank
      (fun _ _ _ hi ha hs => hi.step ha hs) h with ⟨as, u, has, hu, hset, hquiet⟩
  refine ⟨as, u, ?_, hu, fun hd => ?_⟩
  · intro a ha
    rcases has a ha with ⟨n, rfl⟩ | ⟨cuts, rfl⟩ <;> trivial
  · have hall := hd.whole
      ⟨fun n => hquiet _ (.inl ⟨n, rfl⟩), fun cuts => hquiet _ (.inr ⟨cuts, rfl⟩)⟩
    rw [hset.accepted] at hall
    exact absurd (hset.short p (hall ▸ hp)) (Nat.not_le.2 hlong)

/-- A package that does not fit is copied past a buffer, or taken and not delivered. -/
theorem PathInv.unfit {a : VideoAction} (h : PathInv t s) (hcount : Counted s a)
    (hs : videoStep t s a = some s') (hfit : ¬FitsWay t s a) :
    ∃ as u, (∀ b ∈ as, b.onWay) ∧ (videoMachine t).exec s' as = some u ∧ ¬Delivers t u := by
  have hbuf := bufLen_eq
  have hhere : s'.overflow = true →
      ∃ as u, (∀ b ∈ as, b.onWay) ∧ (videoMachine t).exec s' as = some u ∧ ¬Delivers t u :=
    fun ho => ⟨[], s', fun _ hb => absurd hb List.not_mem_nil, rfl,
      fun hd => Bool.noConfusion (ho.symm.trans hd.copies)⟩
  cases a with
  | package buf =>
      rw [videoStep] at hs
      split at hs
      · cases hs
      · rw [if_pos (Nat.not_le.1 hfit)] at hs
        cases hs
        exact hhere rfl
  | bradcast =>
      have hcount := hcount rfl
      have hlen := videoPkt_length s.encData
      simp only [FitsWay, not_or] at hfit
      rw [videoStep] at hs
      split at hs
      · cases hs
      · split at hs
        · cases hs
          exact hhere rfl
        next hmax =>
            rw [← hlen] at hfit
            rcases h.pending with ⟨ps, -, -, hway⟩
            have htaken := @foreachBradcast_taken t { s with encData := [] } (videoPkt s.encData)
              ps h.ring h.context hway (videoPkt_ne_nil _) (by omega)
              (fun hr => hfit.2 ⟨hr.1, by omega, hr.2⟩)
              (show s.sendQueue.bufferHead.toNat + 4 + _ < 2 ^ 64 by omega)
            rcases htaken with ⟨q, kcp, stream, messages, htaken, hwf, -, -⟩
            rw [htaken] at hs
            cases hs
            have hset : Settling (s.accepted ++ [videoPkt s.encData]) { s with
                encData := [], sendQueue := q, kcp := kcp, stream := stream, messages := messages
                accepted := s.accepted ++ [videoPkt s.encData] } :=
              ⟨hwf, rfl, h.short⟩
            exact hset.not_delivered (List.mem_append_right _ (List.mem_singleton_self _)) (by omega)
  | _ => exact absurd trivial hfit

theorem fitsWay_of_onWay {a : VideoAction} (ha : a.onWay) : FitsWay t s a ∧ Counted s a := by
  cases a with
  | package => exact ha.elim
  | bradcast => exact ha.elim
  | _ => exact ⟨trivial, nofun⟩

theorem PathInv.onWay {as : List VideoAction} (h : PathInv t s) (has : ∀ a ∈ as, a.onWay)
    (hs : (videoMachine t).exec s as = some s') : PathInv t s' := by
  induction as generalizing s with
  | nil =>
      cases hs
      exact h
  | cons a as ih =>
      rw [Machine.exec, Option.bind_eq_some_iff] at hs
      rcases hs with ⟨u, hu, hs⟩
      have hfit : FitsWay t s a ∧ Counted s a := fitsWay_of_onWay (has a (List.mem_cons_self ..))
      exact ih (h.step hfit.1 hfit.2 hu) (fun b hb => has b (List.mem_cons_of_mem _ hb)) hs

end

/-- While every package fits, what the server takes is delivered, and one more package is
delivered, or refused, exactly when it fits. -/
theorem delivers_iff_fits {t : VideoTransport} {s : VideoState}
    (h : (videoMachine t).Run (fun s a => FitsWay t s a ∧ Counted s a) s) :
    Delivers t s ∧ ∀ a s', Counted s a → videoStep t s a = some s' →
      ((∀ as u, (∀ b ∈ as, b.onWay) → (videoMachine t).exec s' as = some u → Delivers t u) ↔
        FitsWay t s a) := by
  have hinv : PathInv t s :=
    h.invariant (pathInv_start t) fun _ _ _ hi hok hs => hi.step hok.1 hok.2 hs
  refine ⟨hinv.delivers, fun a s' hcount hs => ⟨fun hall => ?_, fun hfit as u has hu => ?_⟩⟩
  · by_contra hfit
    rcases hinv.unfit hcount hs hfit with ⟨as, u, has, hu, hbad⟩
    exact hbad (hall as u has hu)
  · exact ((hinv.step hfit hcount hs).onWay has hu).delivers

/-- A package that `enc_data`, the client's buffer and the counter of the ring have room for. -/
def Short (s : VideoState) : VideoAction → Prop
  | .package buf => buf.length ≤ encDataSize
  | .bradcast => 8 + s.encData.length ≤ bufLen ∧
      s.sendQueue.bufferHead.toNat + 12 + s.encData.length < 2 ^ 64
  | _ => True

instance (s : VideoState) : (a : VideoAction) → Decidable (Short s a)
  | .package buf => inferInstanceAs (Decidable (buf.length ≤ encDataSize))
  | .bradcast => inferInstanceAs (Decidable (_ ∧ _))
  | .drain _ | .recv _ | .kcp _ => inferInstanceAs (Decidable True)

theorem fitsWay_of_short (t : VideoTransport) (s : VideoState) (a : VideoAction) (h : Short s a) :
    FitsWay t s a ∧ Counted s a := by
  cases a with
  | package buf => exact ⟨h, nofun⟩
  | bradcast => exact ⟨.inl h.1, fun _ => h.2⟩
  | drain n => exact ⟨trivial, nofun⟩
  | recv cuts => exact ⟨trivial, nofun⟩
  | kcp a => exact ⟨trivial, nofun⟩

/-- Two packages go out in three pieces, the client has read the first, and a third one waits in
`enc_data`. -/
def tcpPackages : List VideoAction :=
  [.package [1, 2, 3], .bradcast, .drain 5, .package [4], .drain 6, .bradcast, .drain 10,
    .recv [.upTo 4, .upTo 7, .upTo 9], .package [5, 6]]

/-- The same over KCP, with an update of the context between the two. -/
def kcpPackages : List VideoAction :=
  [.package [1, 2, 3], .bradcast, .kcp (.update 10), .package [4], .recv [], .bradcast]

/-- The third package is delivered too. One that `enc_data` has no room for is not. -/
theorem delivers_packages :
    (∃ s, (videoMachine .tcp).Run (fun s a => FitsWay .tcp s a ∧ Counted s a) s ∧
      s.accepted = [videoPkt [1, 2, 3], videoPkt [4]] ∧ s.received = [videoPkt [1, 2, 3]] ∧
      Delivers .tcp s ∧ ∃ s', videoStep .tcp s .bradcast = some s' ∧
        ∀ as u, (∀ b ∈ as, b.onWay) → (videoMachine .tcp).exec s' as = some u → Delivers .tcp u) ∧
    (∃ s, (videoMachine .kcp).Run (fun s a => FitsWay .kcp s a ∧ Counted s a) s ∧
      s.accepted = [videoPkt [1, 2, 3], videoPkt [4]] ∧ s.received = [videoPkt [1, 2, 3]] ∧
      Delivers .kcp s ∧ ∀ buf : Bytes, encDataSize < buf.length →
        ∃ s', videoStep .kcp s (.package buf) = some s' ∧ ¬∀ as u, (∀ b ∈ as, b.onWay) →
          (videoMachine .kcp).exec s' as = some u → Delivers .kcp u) := by
  constructor
  · obtain ⟨s, hs, hview⟩ := Option.map_eq_some_iff.mp (by decide +kernel :
      (((videoMachine .tcp).guarded Short).exec (.loaded 0 []) tcpPackages).map (fun s =>
        (s.accepted, s.received, s.encData, s.sendQueue.bufferHead,
          (videoStep .tcp s .bradcast).isSome)) =
        some ([videoPkt [1, 2, 3], videoPkt [4]], [videoPkt [1, 2, 3]], [5, 6], 28, true))
    simp only [Prod.mk.injEq] at hview
    obtain ⟨haccepted, hreceived, hdata, hhead, hsome⟩ := hview
    have hrun := (Machine.run_of_exec hs ⟨0, rfl⟩).mono (fitsWay_of_short .tcp)
    obtain ⟨hd, hnext⟩ := delivers_iff_fits hrun
    have hshort : Short s .bradcast := by
      rw [Short, hdata, hhead]
      decide
    obtain ⟨hfit, hcount⟩ := fitsWay_of_short .tcp s .bradcast hshort
    obtain ⟨s', hs'⟩ := Option.isSome_iff_exists.mp hsome
    exact ⟨s, hrun, haccepted, hreceived, hd, s', hs', (hnext _ s' hcount hs').mpr hfit⟩
  · obtain ⟨s, hs, hview⟩ := Option.map_eq_some_iff.mp (by decide +kernel :
      (((videoMachine .kcp).guarded Short).exec (.loaded 0 []) kcpPackages).map (fun s =>
        (s.accepted, s.received, s.encData)) =
        some ([videoPkt [1, 2, 3], videoPkt [4]], [videoPkt [1, 2, 3]], []))
    simp only [Prod.mk.injEq] at hview
    obtain ⟨haccepted, hreceived, hdata⟩ := hview
    have hrun := (Machine.run_of_exec hs ⟨0, rfl⟩).mono (fitsWay_of_short .kcp)
    obtain ⟨hd, hnext⟩ := delivers_iff_fits hrun
    refine ⟨s, hrun, haccepted, hreceived, hd, fun buf hlong => ?_⟩
    have hs' : videoStep .kcp s (.package buf) = some { s with overflow := true } := by
      rw [videoStep, if_neg (not_not.2 hdata), if_pos hlong]
    have hcount : Counted s (.package buf) := nofun
    exact ⟨_, hs', fun hall => Nat.not_le.2 hlong ((hnext _ _ hcount hs').mp hall)⟩

/-- A package that is with its header one byte longer than `BUFLEN` stays in the KCP session. -/
theorem long_package_stuck : ∃ s, (videoMachine .kcp).Reachable s ∧ ¬Delivers .kcp s := by
  have hbuf := bufLen_eq
  have hbytes : ∀ n, ∃ buf : Bytes, buf.length = n :=
    fun n => ⟨List.replicate n 0, List.length_replicate⟩
  rcases hbytes 4194297 with ⟨buf, hlen⟩
  have hne : buf ≠ [] := List.length_pos_iff.1 (by omega)
  have hpkt : (videoPkt buf).length = 4194305 := by rw [videoPkt_length, hlen]
  have hsize : videoPktSize = 10485760 := rfl
  have hinv : PathInv .kcp (.loaded 0 []) := pathInv_start .kcp _ ⟨0, rfl⟩
  have hfit : FitsWay .kcp (.loaded 0 []) (.package buf) :=
    show buf.length ≤ 10485760 by omega
  have hpackage : videoStep .kcp (.loaded 0 []) (.package buf) = some (.loaded 0 buf) :=
    step_package rfl hfit
  have htaken : ∃ s, foreachBradcast .kcp (.loaded 0 []) (videoPkt buf) = some s := by
    rcases @foreachBradcast_taken .kcp (.loaded 0 []) (videoPkt buf) [] hinv.ring hinv.context rfl
        (videoPkt_ne_nil _) (by omega) (fun h => by cases h.1)
        (show 0 + 4 + _ < 2 ^ 64 by omega) with ⟨q, kcp, stream, messages, htaken, -⟩
    exact ⟨_, htaken⟩
  rcases htaken with ⟨s, htaken⟩
  have hbradcast : videoStep .kcp (.loaded 0 buf) .bradcast = some s := by
    rw [step_bradcast (show (VideoState.loaded 0 buf).encData ≠ [] from hne)
      (show (videoPkt buf).length ≤ videoPktSize by omega)]
    exact htaken
  have hunfit : ¬FitsWay .kcp (.loaded 0 buf) .bradcast := by
    rintro (hshort | ⟨htcp, -⟩)
    · have hshort : 8 + buf.length ≤ bufLen := hshort
      omega
    · cases htcp
  rcases (hinv.step hfit nofun hpackage).unfit
      (fun _ => show 0 + 12 + buf.length < 2 ^ 64 by omega) hbradcast hunfit with
    ⟨as, u, -, hu, hbad⟩
  have hstart : (videoMachine .kcp).Reachable (.loaded 0 []) := .start ⟨0, rfl⟩
  have hloaded : (videoMachine .kcp).Reachable (.loaded 0 buf) :=
    .next hstart trivial (show (videoMachine .kcp).step _ (.package buf) = _ from hpackage)
  have hsent : (videoMachine .kcp).Reachable s :=
    .next hloaded trivial (show (videoMachine .kcp).step _ .bradcast = _ from hbradcast)
  exact ⟨u, hsent.exec hu, hbad⟩

end Hprd.Net
