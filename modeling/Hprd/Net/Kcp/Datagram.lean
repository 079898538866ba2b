import Hprd.Net.Kcp.IkcpFlush

/-!
# Datagrams of one conversation

What `ikcp_flush` packs and what `ikcp_input` makes of it. A header takes two bytes
more than `IKCP_OVERHEAD`, so `size` is two too large behind every segment and the
loop goes on behind the datagram once there are twelve.
-/

namespace Hprd.Net.Kcp

open Hprd.Core

/-! ## Runs of a control block -/

inductive KcpAction where
  | send (buffer : Bytes)
  | input (data : Bytes) (size : Nat)
  | update (current : UInt32)
  | flush
  | recv (len : Nat)

def kcpStep (kcp : Ikcpcb) : KcpAction → Option Ikcpcb
  | .send buffer => some (ikcpSend kcp buffer).2
  | .input data size => (ikcpInput kcp data size).map Prod.snd
  | .update current => some (ikcpUpdate kcp current).1
  | .flush => some (ikcpFlush kcp).1
  | .recv len => some (ikcpRecv kcp len).2.2

/-- The datagrams that the step passes to the output callback. -/
def datagrams (kcp : Ikcpcb) : KcpAction → List (List IkcpSeg)
  | .update current => (ikcpUpdate kcp current).2
  | .flush => (ikcpFlush kcp).2
  | _ => []

def kcpMachine : Machine Ikcpcb KcpAction where
  init kcp := ∃ conv, kcp = newContext conv
  step := kcpStep

/-- A segment as `ikcp_input` allocates it. -/
def IkcpSeg.received (seg : IkcpSeg) : IkcpSeg :=
  { conv := seg.conv, cmd := seg.cmd, frg := seg.frg, wnd := seg.wnd, ts := seg.ts, sn := seg.sn,
    una := seg.una, data := seg.data }

/-- The receiver after exactly these segments in this order, the fast ack and the window update. -/
def processed (kcp : Ikcpcb) (segs : List IkcpSeg) : Ikcpcb :=
  closeInput kcp.sndUna ((segs.map IkcpSeg.received).foldl inputSeg (kcp, none))

/-- `ikcp_input` processes the segments whatever lies behind the datagram, also when nothing does
(a byte looked at there has no value), and the datagram is not longer than the mtu. -/
structure ReadsBack (kcp : Ikcpcb) (mtu : UInt32) (segs : List IkcpSeg) : Prop where
  input : ∀ after : Bytes,
    ikcpInput kcp (encodeSegs segs ++ after) (encodeSegs segs).length =
      some (0, processed kcp segs)
  mtu : (encodeSegs segs).length ≤ mtu.toNat

/-! ## One segment and back -/

/-- What the fields of a segment that is sent are like. -/
structure Sendable (conv : UInt32) (seg : IkcpSeg) : Prop where
  conv : seg.conv = conv
  cmd : knownCmd seg.cmd
  frg : seg.frg.toNat < 8192
  wnd : seg.wnd.toNat ≤ 8192
  data : seg.data.length ≤ 1376

@[simp] theorem encode16u_length (w : UInt16) : (encode16u w).length = 2 := leBytes_length ..

@[simp] theorem encode32u_length (l : UInt32) : (encode32u l).length = 4 := leBytes_length ..

theorem encodeSeg_length (seg : IkcpSeg) : (encodeSeg seg).length = 26 + seg.data.length := by
  simp [encodeSeg]
  omega

theorem decode16u_encode16u (w : UInt16) (rest : Bytes) :
    decode16u (encode16u w ++ rest) = some (w, rest) := by
  have hw : w.toNat < 2 ^ 16 := w.toNat_lt
  have hback : UInt16.ofNat (ofLeBytes (encode16u w)) = w := by
    apply UInt16.toNat_inj.mp
    rw [encode16u, ofLeBytes_leBytes, UInt16.toNat_ofNat']
    omega
  have htake : (encode16u w ++ rest).take 2 = encode16u w :=
    List.take_left' (encode16u_length w)
  have hdrop : (encode16u w ++ rest).drop 2 = rest := List.drop_left' (encode16u_length w)
  rw [decode16u, if_neg (by simp; omega), htake, hdrop, hback]

theorem decode32u_encode32u (l : UInt32) (rest : Bytes) :
    decode32u (encode32u l ++ rest) = some (l, rest) := by
  have hl : l.toNat < 2 ^ 32 := l.toNat_lt
  have hback : UInt32.ofNat (ofLeBytes (encode32u l)) = l := by
    apply UInt32.toNat_inj.mp
    rw [encode32u, ofLeBytes_leBytes, UInt32.toNat_ofNat']
    omega
  have htake : (encode32u l ++ rest).take 4 = encode32u l :=
    List.take_left' (encode32u_length l)
  have hdrop : (encode32u l ++ rest).drop 4 = rest := List.drop_left' (encode32u_length l)
  rw [decode32u, if_neg (by simp), htake, hdrop, hback]

theorem toUInt16_toUInt32 {w : UInt32} (h : w.toNat < 65536) : w.toUInt16.toUInt32 = w := by
  apply UInt32.toNat_inj.mp
  rw [UInt16.toNat_toUInt32, UInt32.toNat_toUInt16]
  omega

section

variable {conv : UInt32} {seg : IkcpSeg} {segs : List IkcpSeg}

theorem knownCmd_lt {cmd : UInt32} (h : knownCmd cmd) : cmd.toNat < 65536 := by
  simp only [knownCmd, decide_eq_true_eq] at h
  rcases h with rfl | rfl | rfl | rfl <;> decide

theorem Sendable.len (h : Sendable conv seg) : seg.len.toNat = seg.data.length := by
  have := h.data
  rw [IkcpSeg.len, UInt32.toNat_ofNat']
  omega

theorem decodeHeader_encodeSeg (h : Sendable conv seg) (rest : Bytes) :
    decodeHeader (encodeSeg seg ++ rest) =
      some ({ seg.received with data := [] }, seg.len, seg.data ++ rest) := by
  have hfrg := h.frg
  have hwnd := h.wnd
  simp only [decodeHeader, encodeSeg, List.append_assoc, decode32u_encode32u, decode16u_encode16u,
    Option.bind_eq_bind, Option.bind_some, toUInt16_toUInt32 (knownCmd_lt h.cmd),
    toUInt16_toUInt32 (by omega : seg.frg.toNat < 65536),
    toUInt16_toUInt32 (by omega : seg.wnd.toNat < 65536)]
  rfl

theorem decode32u_encodeSeg (seg : IkcpSeg) (rest : Bytes) :
    ∃ p, decode32u (encodeSeg seg ++ rest) = some (seg.conv, p) := by
  simp only [encodeSeg, List.append_assoc]
  exact ⟨_, decode32u_encode32u ..⟩

/-- One turn of the loop takes one segment; `size` goes down by two less than the bytes read. -/
theorem inputLoop_encodeSeg {st : Ikcpcb × MaxAck} {size : Nat} (h : Sendable st.1.conv seg)
    (hsize : overhead + seg.data.length ≤ size) (rest : Bytes) :
    inputLoop st (encodeSeg seg ++ rest) size =
      inputLoop (inputSeg st seg.received) rest (size - overhead - seg.data.length) := by
  obtain ⟨p, hconv⟩ := decode32u_encodeSeg seg rest
  have hlen := h.len
  have hdata := h.data
  have hpos : ¬seg.len.toInt32 < 0 := by
    intro hneg
    have hneg' : seg.len.toBitVec.toInt < 0 := Int32.lt_iff_toInt_lt.mp hneg
    have hval : seg.len.toBitVec.toNat = seg.data.length := hlen
    rw [BitVec.toInt_eq_toNat_of_lt (by omega)] at hneg'
    omega
  have hread : ¬(takesData st.1 { seg.received with data := [] } ∧
      (seg.data ++ rest).length < seg.len.toNat) := by
    rw [hlen, List.length_append]
    omega
  have hcmd : knownCmd seg.received.cmd := h.cmd
  have hfits : ¬(size - overhead < seg.len.toNat ∨ seg.len.toInt32 < 0) := by
    rintro (hlt | hneg)
    · omega
    · exact hpos hneg
  rw [inputLoop, dif_neg (by omega), hconv]
  dsimp only
  rw [if_neg (not_not.mpr h.conv), decodeHeader_encodeSeg h]
  dsimp only
  rw [if_neg hfits, if_neg (not_not.mpr hcmd), if_neg hread, hlen, List.take_left,
    List.drop_left]
  rfl

/-! ## What reading leaves alone -/

/-- What a segment carries from `ikcp_send` and the move to `snd_buf` on. -/
def IkcpSeg.content (seg : IkcpSeg) : UInt32 × UInt32 × UInt32 × Bytes :=
  (seg.conv, seg.cmd, seg.frg, seg.data)

/-- The settings and the send queue are the same; `snd_buf` loses segments and counts acks. -/
structure Keeps (kcp kcp' : Ikcpcb) : Prop where
  conv : kcp'.conv = kcp.conv
  mtu : kcp'.mtu = kcp.mtu
  mss : kcp'.mss = kcp.mss
  stream : kcp'.stream = kcp.stream
  rcvWnd : kcp'.rcvWnd = kcp.rcvWnd
  sndQueue : kcp'.sndQueue = kcp.sndQueue
  sndBuf : kcp'.sndBuf.map IkcpSeg.content ⊆ kcp.sndBuf.map IkcpSeg.content

variable {kcp kcp' kcp'' : Ikcpcb}

theorem Keeps.refl (kcp : Ikcpcb) : Keeps kcp kcp :=
  ⟨rfl, rfl, rfl, rfl, rfl, rfl, List.Subset.refl _⟩

theorem Keeps.trans (h : Keeps kcp kcp') (h' : Keeps kcp' kcp'') : Keeps kcp kcp'' :=
  ⟨h'.conv.trans h.conv, h'.mtu.trans h.mtu, h'.mss.trans h.mss, h'.stream.trans h.stream,
    h'.rcvWnd.trans h.rcvWnd, h'.sndQueue.trans h.sndQueue, List.Subset.trans h'.sndBuf h.sndBuf⟩

theorem Keeps.of_sndBuf {buf : List IkcpSeg}
    (h : buf.map IkcpSeg.content ⊆ kcp.sndBuf.map IkcpSeg.content) :
    Keeps kcp { kcp with sndBuf := buf } :=
  ⟨rfl, rfl, rfl, rfl, rfl, rfl, h⟩

theorem parseAckLoop_subset (sn : UInt32) (buf : List IkcpSeg) :
    (parseAckLoop sn buf).map IkcpSeg.content ⊆ buf.map IkcpSeg.content := by
  induction buf with
  | nil => exact List.Subset.refl _
  | cons seg buf ih =>
      rw [parseAckLoop]
      split
      · exact List.subset_cons_self ..
      · split
        · exact List.Subset.refl _
        · exact List.cons_subset_cons _ ih

theorem parseFastackLoop_content (sn : UInt32) (buf : List IkcpSeg) :
    (parseFastackLoop sn buf).map IkcpSeg.content = buf.map IkcpSeg.content := by
  induction buf with
  | nil => rfl
  | cons seg buf ih =>
      rw [parseFastackLoop]
      split
      · rfl
      · split
        · rw [List.map_cons, List.map_cons, ih]
          rfl
        · rw [List.map_cons, List.map_cons, ih]

theorem keeps_parseAck (kcp : Ikcpcb) (sn : UInt32) : Keeps kcp (parseAck kcp sn) := by
  unfold parseAck
  split
  · exact Keeps.refl _
  · exact Keeps.of_sndBuf (parseAckLoop_subset ..)

theorem keeps_parseFastack (kcp : Ikcpcb) (sn : UInt32) : Keeps kcp (parseFastack kcp sn) := by
  unfold parseFastack
  split
  · exact Keeps.refl _
  · exact Keeps.of_sndBuf (by rw [parseFastackLoop_content]; exact List.Subset.refl _)

theorem keeps_parseUna (kcp : Ikcpcb) (una : UInt32) : Keeps kcp (parseUna kcp una) :=
  Keeps.of_sndBuf (((List.dropWhile_sublist _).map _).subset)

theorem keeps_shrinkBuf (kcp : Ikcpcb) : Keeps kcp (shrinkBuf kcp) := by
  unfold shrinkBuf
  split <;> exact ⟨rfl, rfl, rfl, rfl, rfl, rfl, List.Subset.refl _⟩

theorem keeps_smoothRtt (kcp : Ikcpcb) (rtt : Int32) : Keeps kcp (smoothRtt kcp rtt) := by
  unfold smoothRtt
  split <;> exact ⟨rfl, rfl, rfl, rfl, rfl, rfl, List.Subset.refl _⟩

theorem keeps_updateAck (kcp : Ikcpcb) (rtt : Int32) : Keeps kcp (updateAck kcp rtt) :=
  (keeps_smoothRtt kcp rtt).trans ⟨rfl, rfl, rfl, rfl, rfl, rfl, List.Subset.refl _⟩

theorem keeps_parseData (kcp : Ikcpcb) (newseg : IkcpSeg) : Keeps kcp (parseData kcp newseg) := by
  unfold parseData
  split
  · exact Keeps.refl _
  · exact ⟨rfl, rfl, rfl, rfl, rfl, rfl, List.Subset.refl _⟩

theorem keeps_growWindow (kcp : Ikcpcb) : Keeps kcp (growWindow kcp) := by
  unfold growWindow
  dsimp only
  split <;> exact ⟨rfl, rfl, rfl, rfl, rfl, rfl, List.Subset.refl _⟩

theorem keeps_openWindow (kcp : Ikcpcb) : Keeps kcp (openWindow kcp) := by
  unfold openWindow
  split
  · refine (keeps_growWindow kcp).trans ?_
    dsimp only
    split
    · exact ⟨rfl, rfl, rfl, rfl, rfl, rfl, List.Subset.refl _⟩
    · exact Keeps.refl _
  · exact Keeps.refl _

theorem keeps_inputSeg (st : Ikcpcb × MaxAck) (seg : IkcpSeg) : Keeps st.1 (inputSeg st seg).1 := by
  obtain ⟨kcp, maxack⟩ := st
  have hpre : Keeps kcp (shrinkBuf (parseUna { kcp with rmtWnd := seg.wnd } seg.una)) :=
    ((show Keeps kcp { kcp with rmtWnd := seg.wnd } from
      ⟨rfl, rfl, rfl, rfl, rfl, rfl, List.Subset.refl _⟩).trans (keeps_parseUna ..)).trans
      (keeps_shrinkBuf _)
  simp only [inputSeg]
  refine hpre.trans ?_
  generalize shrinkBuf (parseUna { kcp with rmtWnd := seg.wnd } seg.una) = kcp
  split
  · have hack : Keeps kcp (shrinkBuf (parseAck
        (if 0 ≤ itimediff kcp.current seg.ts then updateAck kcp (itimediff kcp.current seg.ts)
          else kcp) seg.sn)) := by
      refine Keeps.trans ?_ ((keeps_parseAck ..).trans (keeps_shrinkBuf _))
      split
      · exact keeps_updateAck ..
      · exact Keeps.refl _
    cases maxack with
    | none => exact hack
    | some m => exact hack
  · split
    · split
      · have hpush : Keeps kcp (ackPush kcp seg.sn seg.ts) :=
          ⟨rfl, rfl, rfl, rfl, rfl, rfl, List.Subset.refl _⟩
        dsimp only
        split
        · exact hpush.trans (keeps_parseData ..)
        · exact hpush
      · exact Keeps.refl _
    · split
      · exact ⟨rfl, rfl, rfl, rfl, rfl, rfl, List.Subset.refl _⟩
      · exact Keeps.refl _

theorem keeps_closeFastack (st : Ikcpcb × MaxAck) : Keeps st.1 (closeFastack st) := by
  unfold closeFastack
  split
  · exact Keeps.refl _
  · exact keeps_parseFastack ..

theorem keeps_closeInput (prevUna : UInt32) (st : Ikcpcb × MaxAck) :
    Keeps st.1 (closeInput prevUna st) := by
  unfold closeInput
  refine (keeps_closeFastack st).trans ?_
  dsimp only
  split
  · exact keeps_openWindow _
  · exact Keeps.refl _

theorem keeps_inputLoop {st st' : Ikcpcb × MaxAck} {data : Bytes} {size : Nat} {ret : Int}
    (h : inputLoop st data size = some (ret, st')) : Keeps st.1 st'.1 := by
  fun_induction inputLoop st data size with
  | case1 => cases h; exact Keeps.refl _
  | case2 => cases h
  | case3 => cases h; exact Keeps.refl _
  | case4 => cases h
  | case5 => cases h; exact Keeps.refl _
  | case6 => cases h; exact Keeps.refl _
  | case7 => cases h
  | case8 _ _ _ _ _ _ _ _ _ _ _ _ _ _ _ ih => exact (keeps_inputSeg ..).trans (ih h)

theorem keeps_ikcpInput {data : Bytes} {size : Nat} {ret : Int}
    (h : ikcpInput kcp data size = some (ret, kcp')) : Keeps kcp kcp' := by
  unfold ikcpInput at h
  split at h
  · cases h
    exact Keeps.refl _
  · obtain ⟨⟨ret', st⟩, hloop, hout⟩ := Option.map_eq_some_iff.mp h
    have hkeeps := keeps_inputLoop hloop
    dsimp only at hout
    split at hout
    · cases hout
      exact hkeeps.trans (keeps_closeInput ..)
    · cases hout
      exact hkeeps

/-! ## A datagram -/

/-- The loop over whole segments: `size` gains two for each. -/
theorem inputLoop_encodeSegs {st : Ikcpcb × MaxAck} (h : ∀ seg ∈ segs, Sendable st.1.conv seg)
    (rest : Bytes) (extra : Nat) :
    inputLoop st (encodeSegs segs ++ rest) ((encodeSegs segs).length + extra) =
      inputLoop ((segs.map IkcpSeg.received).foldl inputSeg st) rest
        (2 * segs.length + extra) := by
  induction segs generalizing st extra with
  | nil => simp [encodeSegs]
  | cons seg segs ih =>
      have hseg := h seg (List.mem_cons_self ..)
      have hrest : ∀ seg' ∈ segs, Sendable (inputSeg st seg.received).1.conv seg' := by
        intro seg' hmem
        rw [(keeps_inputSeg st seg.received).conv]
        exact h seg' (List.mem_cons_of_mem _ hmem)
      have hlen : (encodeSegs (seg :: segs)).length =
          26 + seg.data.length + (encodeSegs segs).length := by
        rw [encodeSegs, List.map_cons, List.flatten_cons, List.length_append, encodeSeg_length]
        rfl
      have hbytes : encodeSegs (seg :: segs) ++ rest =
          encodeSeg seg ++ (encodeSegs segs ++ rest) := by
        rw [encodeSegs, List.map_cons, List.flatten_cons, List.append_assoc]
        rfl
      have hsize : 26 + seg.data.length + (encodeSegs segs).length + extra - overhead -
          seg.data.length = (encodeSegs segs).length + (extra + 2) := by
        unfold overhead
        omega
      rw [hlen, hbytes, inputLoop_encodeSeg hseg (by unfold overhead; omega), hsize, ih hrest,
        List.map_cons, List.foldl_cons, List.length_cons]
      congr 1
      omega

theorem encodeSegs_length (segs : List IkcpSeg) :
    (encodeSegs segs).length = 26 * segs.length + (segs.map fun seg => seg.data.length).sum := by
  induction segs with
  | nil => rfl
  | cons seg segs ih =>
      rw [encodeSegs, List.map_cons, List.flatten_cons, List.length_append, encodeSeg_length,
        List.map_cons, List.sum_cons, List.length_cons]
      rw [encodeSegs] at ih
      omega

theorem ikcpInput_encodeSegs (hne : segs ≠ []) (h : ∀ seg ∈ segs, Sendable kcp.conv seg)
    (rest : Bytes) :
    ikcpInput kcp (encodeSegs segs ++ rest) (encodeSegs segs).length =
      (inputLoop ((segs.map IkcpSeg.received).foldl inputSeg (kcp, none)) rest
        (2 * segs.length)).map fun (ret, st) =>
          if ret = 0 then (0, closeInput kcp.sndUna st) else (ret, st.1) := by
  have hlen := encodeSegs_length segs
  have hpos := List.length_pos_iff.mpr hne
  have hst : ∀ seg ∈ segs, Sendable ((kcp, none) : Ikcpcb × MaxAck).1.conv seg := h
  have hloop := inputLoop_encodeSegs hst rest 0
  rw [Nat.add_zero, Nat.add_zero] at hloop
  rw [ikcpInput, if_neg (by unfold overhead; omega), hloop]

theorem readsBack_iff {mtu : UInt32} (hne : segs ≠ [])
    (h : ∀ seg ∈ segs, Sendable kcp.conv seg) :
    ReadsBack kcp mtu segs ↔ segs.length ≤ 11 ∧
      26 * segs.length + (segs.map fun seg => seg.data.length).sum ≤ mtu.toNat := by
  rw [← encodeSegs_length]
  constructor
  · intro hread
    refine ⟨?_, hread.mtu⟩
    by_contra hmany
    have hin := hread.input []
    rw [ikcpInput_encodeSegs hne h, inputLoop, dif_neg (by unfold overhead; omega)] at hin
    cases hin
  · rintro ⟨hfew, hmtu⟩
    refine ⟨fun after => ?_, hmtu⟩
    rw [ikcpInput_encodeSegs hne h, inputLoop, dif_pos (by unfold overhead; omega)]
    rfl

/-! ## What is flushed -/

/-- A segment of a message of the upper layer. -/
def Fits (seg : IkcpSeg) : Prop := seg.frg.toNat < 8192 ∧ seg.data.length ≤ 1376

/-- The control block keeps the settings it is created with. -/
structure Context (kcp : Ikcpcb) : Prop where
  mtu : kcp.mtu = 1400
  mss : kcp.mss = 1376
  stream : kcp.stream = 0
  rcvWnd : kcp.rcvWnd = 8192
  queued : ∀ seg ∈ kcp.sndQueue, Fits seg
  buffered : ∀ seg ∈ kcp.sndBuf, seg.conv = kcp.conv ∧ seg.cmd = cmdPush ∧ Fits seg

theorem Context.keeps (h : Context kcp) (hk : Keeps kcp kcp') : Context kcp' := by
  constructor
  · exact hk.mtu.trans h.mtu
  · exact hk.mss.trans h.mss
  · exact hk.stream.trans h.stream
  · exact hk.rcvWnd.trans h.rcvWnd
  · rw [hk.sndQueue]
    exact h.queued
  · intro seg hseg
    obtain ⟨seg', hmem, hcontent⟩ := List.mem_map.mp (hk.sndBuf (List.mem_map_of_mem hseg))
    have hfields := h.buffered seg' hmem
    simp only [IkcpSeg.content, Prod.mk.injEq] at hcontent
    obtain ⟨hconv, hcmd, hfrg, hdata⟩ := hcontent
    rw [hk.conv, ← hconv, ← hcmd, Fits, ← hfrg, ← hdata]
    exact hfields

/-- Every segment of the buffer and of the datagrams is sendable, and no datagram is empty. -/
structure FlushBuf.Good (conv : UInt32) (b : FlushBuf) : Prop where
  cur : ∀ seg ∈ b.cur, Sendable conv seg
  out : ∀ d ∈ b.out, d ≠ [] ∧ ∀ seg ∈ d, Sendable conv seg

theorem FlushBuf.Good.output {b : FlushBuf} (h : b.Good conv) : b.output.Good conv := by
  unfold FlushBuf.output
  split
  next => exact ⟨(fun seg hseg => by cases hseg), h.out⟩
  next hlen =>
    refine ⟨(fun seg hseg => by cases hseg), fun d hd => ?_⟩
    rcases List.mem_append.mp hd with hd | hd
    · exact h.out d hd
    · rw [List.mem_singleton] at hd
      subst hd
      refine ⟨?_, h.cur⟩
      rintro hnil
      rw [hnil] at hlen
      exact hlen rfl

theorem FlushBuf.Good.put {b : FlushBuf} (h : b.Good conv) (mtu : UInt32)
    (hseg : Sendable conv seg) : (b.put mtu seg).Good conv := by
  have hb : (if mtu.toNat < (encodeSegs b.cur).length + (overhead + seg.data.length) then b.output
      else b).Good conv := by
    split
    · exact h.output
    · exact h
  unfold FlushBuf.put
  refine ⟨fun seg' hmem => ?_, hb.out⟩
  rcases List.mem_append.mp hmem with hmem | hmem
  · exact hb.cur seg' hmem
  · rw [List.mem_singleton] at hmem
    rw [hmem]
    exact hseg

theorem good_flushAcks (mtu : UInt32) (acks : List (UInt32 × UInt32)) {b : FlushBuf}
    (hseg : Sendable conv seg) (hb : b.Good conv) :
    Sendable conv (flushAcks mtu seg b acks).1 ∧ (flushAcks mtu seg b acks).2.Good conv := by
  induction acks generalizing seg b with
  | nil => exact ⟨hseg, hb⟩
  | cons ack acks ih =>
      have hstamped : Sendable conv { seg with sn := ack.1, ts := ack.2 } :=
        ⟨hseg.conv, hseg.cmd, hseg.frg, hseg.wnd, hseg.data⟩
      exact ih hstamped (hb.put mtu hstamped)

theorem good_flushProbes (kcp : Ikcpcb) {b : FlushBuf} (hseg : Sendable conv seg) (hb : b.Good conv) :
    (flushProbes kcp seg b).Good conv := by
  have hprobe : ∀ cmd, knownCmd cmd → Sendable conv { seg with cmd := cmd } :=
    fun cmd hcmd => ⟨hseg.conv, hcmd, hseg.frg, hseg.wnd, hseg.data⟩
  have hask : (if kcp.probe &&& askSend ≠ 0 then b.put kcp.mtu { seg with cmd := cmdWask }
      else b).Good conv := by
    split
    · exact hb.put _ (hprobe _ rfl)
    · exact hb
  unfold flushProbes
  dsimp only
  split
  · exact hask.put _ (hprobe _ rfl)
  · exact hask

theorem wndUnused_le (h : Context kcp) : (wndUnused kcp).toNat ≤ 8192 := by
  unfold wndUnused
  rw [h.rcvWnd]
  split
  next hlt =>
    rw [UInt32.toNat_sub_of_le _ _ (UInt32.le_iff_toNat_le.mpr (UInt32.lt_iff_toNat_lt.mp hlt).le)]
    exact Nat.sub_le ..
  next => exact Nat.zero_le _

theorem sendable_ackSeg (h : Context kcp) : Sendable kcp.conv (ackSeg kcp) :=
  ⟨rfl, rfl, (by decide : (0 : UInt32).toNat < 8192), wndUnused_le h, Nat.zero_le _⟩

theorem keeps_probeWindow (kcp : Ikcpcb) : Keeps kcp (probeWindow kcp) := by
  unfold probeWindow
  split
  · split
    · exact ⟨rfl, rfl, rfl, rfl, rfl, rfl, List.Subset.refl _⟩
    · split
      · exact ⟨rfl, rfl, rfl, rfl, rfl, rfl, List.Subset.refl _⟩
      · exact Keeps.refl _
  · exact ⟨rfl, rfl, rfl, rfl, rfl, rfl, List.Subset.refl _⟩

theorem keeps_updateSsthresh (kcp : Ikcpcb) (c : FlushCount) (resent cwnd : UInt32) :
    Keeps kcp (updateSsthresh kcp c resent cwnd) := by
  have hchange : Keeps kcp (if c.change then onChange kcp resent else kcp) := by
    split
    · exact ⟨rfl, rfl, rfl, rfl, rfl, rfl, List.Subset.refl _⟩
    · exact Keeps.refl _
  unfold updateSsthresh
  refine hchange.trans ?_
  generalize (if c.change then onChange kcp resent else kcp) = kcp
  have hlost : Keeps kcp (if c.lost then onLost kcp cwnd else kcp) := by
    split
    · exact ⟨rfl, rfl, rfl, rfl, rfl, rfl, List.Subset.refl _⟩
    · exact Keeps.refl _
  refine hlost.trans ?_
  dsimp only
  generalize (if c.lost then onLost kcp cwnd else kcp) = kcp
  split
  · exact ⟨rfl, rfl, rfl, rfl, rfl, rfl, List.Subset.refl _⟩
  · exact Keeps.refl _

/-- What moves to `snd_buf` becomes a push of the conversation. -/
theorem fillWindow_fits (kcp : Ikcpcb) (wnd cwnd nxt : UInt32) {queue : List IkcpSeg}
    (h : ∀ seg ∈ queue, Fits seg) :
    (∀ seg ∈ (fillWindow kcp wnd cwnd queue nxt).1,
        seg.conv = kcp.conv ∧ seg.cmd = cmdPush ∧ Fits seg) ∧
      ∀ seg ∈ (fillWindow kcp wnd cwnd queue nxt).2.1, Fits seg := by
  induction queue generalizing nxt with
  | nil => exact ⟨(fun _ hseg => by cases hseg), (fun _ hseg => by cases hseg)⟩
  | cons newseg queue ih =>
      have hnew := h newseg (List.mem_cons_self ..)
      obtain ⟨hmoved, hstay⟩ := ih (nxt + 1) fun seg hseg =>
        h seg (List.mem_cons_of_mem _ hseg)
      rw [fillWindow]
      split
      · refine ⟨fun seg hseg => ?_, hstay⟩
        rcases List.mem_cons.mp hseg with rfl | hseg
        · exact ⟨rfl, rfl, hnew⟩
        · exact hmoved seg hseg
      · exact ⟨(fun _ hseg => by cases hseg), h⟩

theorem Context.fillSndBuf (h : Context kcp) (wnd cwnd : UInt32) :
    Context (fillSndBuf kcp wnd cwnd) := by
  obtain ⟨hmoved, hstay⟩ := fillWindow_fits kcp wnd cwnd kcp.sndNxt h.queued
  refine ⟨h.mtu, h.mss, h.stream, h.rcvWnd, hstay, fun seg hseg => ?_⟩
  rcases List.mem_append.mp hseg with hseg | hseg
  · exact h.buffered seg hseg
  · exact hmoved seg hseg

theorem restamp_content (kcp : Ikcpcb) (rtomin : UInt32) (seg : IkcpSeg) (need : Needsend) :
    (restamp kcp rtomin seg need).content = seg.content := by
  cases need <;> rfl

theorem good_flushData (resent rtomin : UInt32) (c : FlushCount) {wnd : UInt32}
    {buf : List IkcpSeg} {b : FlushBuf}
    (hbuf : ∀ seg ∈ buf, seg.conv = kcp.conv ∧ seg.cmd = cmdPush ∧ Fits seg)
    (hwnd : wnd.toNat ≤ 8192) (hb : b.Good kcp.conv) :
    (flushData kcp wnd resent rtomin buf c b).1.map IkcpSeg.content =
        buf.map IkcpSeg.content ∧
      (flushData kcp wnd resent rtomin buf c b).2.2.Good kcp.conv := by
  induction buf generalizing c b with
  | nil => exact ⟨rfl, hb⟩
  | cons segment buf ih =>
      have hrest : ∀ seg ∈ buf, seg.conv = kcp.conv ∧ seg.cmd = cmdPush ∧ Fits seg :=
        fun seg hseg => hbuf seg (List.mem_cons_of_mem _ hseg)
      rw [flushData]
      dsimp only
      split
      · obtain ⟨hcontent, hgood⟩ := ih c hrest hb
        exact ⟨by rw [List.map_cons, List.map_cons, hcontent], hgood⟩
      · have hsame := restamp_content kcp rtomin segment (needsend kcp resent segment)
        have hcontent : ({ restamp kcp rtomin segment (needsend kcp resent segment) with
            ts := kcp.current, wnd := wnd, una := kcp.rcvNxt } : IkcpSeg).content =
            segment.content := hsame
        generalize restamp kcp rtomin segment (needsend kcp resent segment) = stamped at *
        obtain ⟨hconv, hcmd, hfits⟩ := hbuf segment (List.mem_cons_self ..)
        simp only [IkcpSeg.content, Prod.mk.injEq] at hsame
        obtain ⟨h₁, h₂, h₃, h₄⟩ := hsame
        have hsend : Sendable kcp.conv
            { stamped with ts := kcp.current, wnd := wnd, una := kcp.rcvNxt } := by
          constructor
          · exact h₁.trans hconv
          · show knownCmd stamped.cmd
            rw [h₂, hcmd]
            rfl
          · show stamped.frg.toNat < 8192
            rw [h₃]
            exact hfits.1
          · exact hwnd
          · show stamped.data.length ≤ 1376
            rw [h₄]
            exact hfits.2
        obtain ⟨hrestc, hgood⟩ := ih _ hrest (hb.put kcp.mtu hsend)
        refine ⟨?_, hgood⟩
        rw [List.map_cons, List.map_cons, hcontent, hrestc]

theorem Context.flush (h : Context kcp) :
    Context (ikcpFlush kcp).1 ∧ (ikcpFlush kcp).1.conv = kcp.conv ∧
      ∀ d ∈ (ikcpFlush kcp).2, d ≠ [] ∧ ∀ seg ∈ d, Sendable kcp.conv seg := by
  unfold ikcpFlush
  split
  · exact ⟨h, rfl, fun _ hd => by cases hd⟩
  · have hwnd := wndUnused_le h
    have hempty : ({} : FlushBuf).Good kcp.conv :=
      ⟨(fun _ hseg => by cases hseg), (fun _ hd => by cases hd)⟩
    have hacks := good_flushAcks kcp.mtu kcp.acklist (sendable_ackSeg h) hempty
    dsimp only
    generalize flushAcks kcp.mtu (ackSeg kcp) {} kcp.acklist = acks at *
    obtain ⟨seg, b⟩ := acks
    generalize wndUnused kcp = wnd at *
    have hprobe : Keeps kcp (probeWindow { kcp with acklist := [] }) := by
      refine Keeps.trans ?_ (keeps_probeWindow _)
      exact ⟨rfl, rfl, rfl, rfl, rfl, rfl, List.Subset.refl _⟩
    have hgood := good_flushProbes (probeWindow { kcp with acklist := [] }) hacks.1 hacks.2
    dsimp only
    generalize probeWindow { kcp with acklist := [] } = kcp₁ at *
    have hprobed : Context { kcp₁ with probe := 0 } :=
      (h.keeps hprobe).keeps ⟨rfl, rfl, rfl, rfl, rfl, rfl, List.Subset.refl _⟩
    have hfilled := hprobed.fillSndBuf wnd (sendWindow kcp₁)
    have hconv : (Kcp.fillSndBuf { kcp₁ with probe := 0 } wnd (sendWindow kcp₁)).conv = kcp.conv :=
      hprobe.conv
    generalize Kcp.fillSndBuf { kcp₁ with probe := 0 } wnd (sendWindow kcp₁) = kcp₂ at *
    rw [← hconv] at hgood
    have hdata := good_flushData (resentLimit kcp₂) (rtoMargin kcp₂)
      { xmit := kcp₂.xmit, state := kcp₂.state } hfilled.buffered hwnd hgood
    generalize flushData kcp₂ wnd (resentLimit kcp₂) (rtoMargin kcp₂) kcp₂.sndBuf
      { xmit := kcp₂.xmit, state := kcp₂.state } (flushProbes kcp₁ seg b) = data at *
    obtain ⟨buf, c, b'⟩ := data
    have hk : Keeps kcp₂ (updateSsthresh { kcp₂ with
        sndBuf := buf, xmit := c.xmit, state := c.state } c (resentLimit kcp₂)
        (sendWindow kcp₁)) := by
      refine Keeps.trans ?_ (keeps_updateSsthresh ..)
      refine ⟨rfl, rfl, rfl, rfl, rfl, rfl, ?_⟩
      rw [hdata.1]
      exact List.Subset.refl _
    refine ⟨hfilled.keeps hk, hk.conv.trans hconv, ?_⟩
    rw [← hconv]
    exact hdata.2.output.out

/-- Only the clock moves before `ikcp_update` flushes, if it does. -/
theorem ikcpUpdate_clock (kcp : Ikcpcb) (current : UInt32) : ∃ tsFlush,
    ikcpUpdate kcp current = ikcpFlush { kcp with
      current := current, updated := true, tsFlush := tsFlush } ∨
    ikcpUpdate kcp current =
      ({ kcp with current := current, updated := true, tsFlush := tsFlush }, []) := by
  have hfirst : ∃ tsFlush, (if kcp.updated = false then
      { kcp with current := current, updated := true, tsFlush := current }
      else { kcp with current := current }) =
      { kcp with current := current, updated := true, tsFlush := tsFlush } := by
    split
    · exact ⟨current, rfl⟩
    next hidle =>
      have hupdated : kcp.updated = true := by simpa using hidle
      exact ⟨kcp.tsFlush, by rw [← hupdated]⟩
  obtain ⟨tsFlush, hfirst⟩ := hfirst
  unfold ikcpUpdate
  dsimp only
  rw [hfirst]
  dsimp only
  have hslap : ∃ tsFlush', (if 10000 ≤ itimediff current tsFlush ∨
      itimediff current tsFlush < -10000 then
      { kcp with current := current, updated := true, tsFlush := current }
      else { kcp with current := current, updated := true, tsFlush := tsFlush }) =
      { kcp with current := current, updated := true, tsFlush := tsFlush' } := by
    split
    · exact ⟨current, rfl⟩
    · exact ⟨tsFlush, rfl⟩
  obtain ⟨tsFlush', hslap⟩ := hslap
  rw [hslap]
  dsimp only
  split
  · exact ⟨_, .inl rfl⟩
  · exact ⟨tsFlush', .inr rfl⟩

theorem Context.update {current : UInt32} (h : Context kcp) :
    Context (ikcpUpdate kcp current).1 ∧
      ∀ d ∈ (ikcpUpdate kcp current).2, d ≠ [] ∧ ∀ seg ∈ d, Sendable kcp.conv seg := by
  obtain ⟨tsFlush, heq⟩ := ikcpUpdate_clock kcp current
  have hclock : Context { kcp with current := current, updated := true, tsFlush := tsFlush } :=
    h.keeps ⟨rfl, rfl, rfl, rfl, rfl, rfl, List.Subset.refl _⟩
  rcases heq with hflush | hidle
  · rw [hflush]
    exact ⟨hclock.flush.1, hclock.flush.2.2⟩
  · rw [hidle]
    exact ⟨hclock, fun _ hd => by cases hd⟩

theorem fragments_fit {count : Nat} {buffer : Bytes} (h : count ≤ 8192) :
    ∀ seg ∈ fragments 1376 0 count buffer, Fits seg := by
  induction count generalizing buffer with
  | zero => exact fun _ hseg => by cases hseg
  | succ count ih =>
      intro seg hseg
      rcases List.mem_cons.mp hseg with rfl | hseg
      · constructor
        · show (UInt32.ofNat count).toNat < 8192
          rw [UInt32.toNat_ofNat']
          omega
        · exact List.length_take_le ..
      · exact ih (by omega) seg hseg

theorem Context.fillLast (h : Context kcp) (buffer : Bytes) : fillLast kcp buffer = (0, kcp) := by
  unfold Kcp.fillLast
  split
  · rfl
  · rw [if_neg (by simp [h.stream])]

theorem Context.send {buffer : Bytes} (h : Context kcp) : Context (ikcpSend kcp buffer).2 := by
  have hmss : kcp.mss.toNat = 1376 := by rw [h.mss]; rfl
  unfold ikcpSend
  dsimp only
  split
  · exact h
  · rw [h.fillLast]
    dsimp only
    rw [if_neg (by simp [h.stream]), hmss, h.stream]
    split
    · exact h
    next hcount =>
      refine ⟨h.mtu, h.mss, rfl, h.rcvWnd, fun seg hseg => ?_, h.buffered⟩
      rcases List.mem_append.mp hseg with hseg | hseg
      · exact h.queued seg hseg
      · have hwnd : wndRcv.toNat = 8192 := rfl
        exact fragments_fit (by omega) seg hseg

/-- A message of at most 8191 fragments is taken whole. -/
theorem Context.send_ret {buffer : Bytes} (h : Context kcp) (hlen : buffer.length ≤ 8191 * 1376) :
    (ikcpSend kcp buffer).1 = buffer.length := by
  have hmss : kcp.mss.toNat = 1376 := by rw [h.mss]; rfl
  have hint : (Int32.ofNat buffer.length).toInt = buffer.length :=
    Int32.toInt_ofNat_of_lt (by omega)
  have hwnd : wndRcv.toNat = 8192 := rfl
  have hcount : fragmentCount 1376 buffer.length < 8192 := by
    unfold fragmentCount
    split <;> omega
  unfold ikcpSend
  dsimp only
  rw [hint, if_neg (by omega), Int.toNat_natCast, List.take_length, h.fillLast]
  dsimp only
  rw [if_neg (by simp [h.stream]), hmss, List.drop_zero, if_neg (by omega)]
  simp

theorem keeps_ikcpRecv (kcp : Ikcpcb) (len : Nat) : Keeps kcp (ikcpRecv kcp len).2.2 := by
  unfold ikcpRecv
  split
  · exact Keeps.refl _
  · dsimp only
    split
    · exact Keeps.refl _
    · split
      · exact Keeps.refl _
      · have hmove : Keeps kcp (moveToQueue { kcp with
            rcvQueue := (firstMessage kcp.rcvQueue).2 }) :=
          ⟨rfl, rfl, rfl, rfl, rfl, rfl, List.Subset.refl _⟩
        refine hmove.trans ?_
        dsimp only
        split
        · exact ⟨rfl, rfl, rfl, rfl, rfl, rfl, List.Subset.refl _⟩
        · exact Keeps.refl _

theorem Context.step {a : KcpAction} (h : Context kcp) (hs : kcpStep kcp a = some kcp') :
    Context kcp' := by
  cases a with
  | send buffer =>
      cases hs
      exact h.send
  | input data size =>
      obtain ⟨⟨ret, st⟩, hin, rfl⟩ := Option.map_eq_some_iff.mp hs
      exact h.keeps (keeps_ikcpInput hin)
  | update current =>
      cases hs
      exact h.update.1
  | flush =>
      cases hs
      exact h.flush.1
  | recv len =>
      cases hs
      exact h.keeps (keeps_ikcpRecv ..)

theorem Context.new (conv : UInt32) : Context (newContext conv) :=
  ⟨rfl, rfl, rfl, rfl, (fun _ hseg => by cases hseg), (fun _ hseg => by cases hseg)⟩

theorem reachable_new (conv : UInt32) : kcpMachine.Reachable (newContext conv) :=
  .start (show ∃ c, newContext conv = newContext c from ⟨conv, rfl⟩)

theorem Context.of_reachable (h : kcpMachine.Reachable kcp) : Context kcp := by
  refine Machine.Run.invariant (P := Context) ?_ (fun _ _ _ hi _ hs => hi.step hs) h
  rintro _ ⟨conv, rfl⟩
  exact Context.new conv

theorem Context.datagrams {a : KcpAction} (h : Context kcp) :
    ∀ d ∈ datagrams kcp a, d ≠ [] ∧ ∀ seg ∈ d, Sendable kcp.conv seg := by
  cases a with
  | update current => exact h.update.2
  | flush => exact h.flush.2.2
  | send => exact fun _ hd => by cases hd
  | input => exact fun _ hd => by cases hd
  | recv => exact fun _ hd => by cases hd

/-- A datagram of the conversation is read back, and not longer than the mtu, exactly when it has
at most eleven segments and the segments with 26 bytes of header each fit into 1400 bytes. -/
theorem datagram_readsBack_iff {rcv : Ikcpcb} {a : KcpAction} {d : List IkcpSeg}
    (h : kcpMachine.Reachable kcp) (hd : d ∈ datagrams kcp a) (hconv : rcv.conv = kcp.conv) :
    ReadsBack rcv kcp.mtu d ↔
      d.length ≤ 11 ∧ 26 * d.length + (d.map fun seg => seg.data.length).sum ≤ 1400 := by
  have hcontext := Context.of_reachable h
  obtain ⟨hne, hsend⟩ := hcontext.datagrams d hd
  rw [← hconv] at hsend
  rw [readsBack_iff hne hsend, hcontext.mtu]
  rfl

end

/-- A datagram of the peer, with two messages. -/
def twoPushes : List IkcpSeg :=
  [{ conv := 5, cmd := cmdPush, wnd := 128, ts := 40, sn := 0, data := [1, 2] },
    { conv := 5, cmd := cmdPush, wnd := 128, ts := 40, sn := 1, data := [3] }]

theorem reachable_twoPushes :
    kcpMachine.Reachable (processed (newContext 5) twoPushes) := by
  have hsend : ∀ seg ∈ twoPushes, Sendable (newContext 5).conv seg := by
    intro seg hseg
    rcases List.mem_pair.mp hseg with rfl | rfl
    · exact ⟨rfl, by decide, by decide, by decide, by decide⟩
    · exact ⟨rfl, by decide, by decide, by decide, by decide⟩
  have hread : ReadsBack (newContext 5) 1400 twoPushes :=
    (readsBack_iff (List.cons_ne_nil _ _) hsend).mpr ⟨by decide, by decide⟩
  refine (reachable_new 5).next
    (a := .input (encodeSegs twoPushes ++ []) (encodeSegs twoPushes).length) trivial ?_
  show (ikcpInput _ _ _).map Prod.snd = _
  rw [hread.input []]
  rfl

/-- Two pushes of the peer have arrived, two messages are sent, and the update answers with one
datagram: both acks, then both pushes. -/
theorem datagram_readsBack_exchange :
    ∃ snd d, kcpMachine.Reachable snd ∧ d ∈ datagrams snd (.update 1000) ∧
      d.map (fun seg => (seg.cmd, seg.sn)) = [(cmdAck, 0), (cmdAck, 1), (cmdPush, 0), (cmdPush, 1)] ∧
      ReadsBack (newContext 5) snd.mtu d := by
  obtain ⟨snd, hs, hview⟩ := Option.map_eq_some_iff.mp (by decide +kernel :
    (kcpMachine.exec (processed (newContext 5) twoPushes) [.send [7], .send [8, 9]]).map
        (fun kcp => (kcp.conv, (datagrams kcp (.update 1000)).map fun d =>
          (d.map (fun seg => (seg.cmd, seg.sn)), d.map fun seg => seg.data.length))) =
      some (5, [([(cmdAck, 0), (cmdAck, 1), (cmdPush, 0), (cmdPush, 1)], [0, 0, 1, 2])]))
  obtain ⟨hconv, hdatagrams⟩ := Prod.mk.inj hview
  have hreach := Machine.Reachable.exec reachable_twoPushes hs
  obtain ⟨d, hd, hshape⟩ := List.mem_map.mp (hdatagrams ▸ List.mem_cons_self ..)
  obtain ⟨hcmds, hlens⟩ := Prod.mk.inj hshape
  have hcount : d.length = 4 := by
    rw [← d.length_map (f := fun seg => seg.data.length), hlens]
    rfl
  refine ⟨snd, d, hreach, hd, hcmds, (datagram_readsBack_iff hreach hd hconv.symm).mpr ?_⟩
  rw [hcount, hlens]
  decide

/-- Twelve messages of one byte make a datagram that no receiver reads back. -/
theorem twelve_segments_not_read :
    ∃ snd d, kcpMachine.Reachable snd ∧ d ∈ datagrams snd (.update 1000) ∧
      ∀ rcv, rcv.conv = snd.conv → ¬ReadsBack rcv snd.mtu d := by
  have hrun : (kcpMachine.exec (newContext 5) (List.replicate 12 (.send [7]))).map
      (fun kcp => (datagrams kcp (.update 1000)).map List.length) = some [12] := by
    decide +kernel
  obtain ⟨snd, hs, hview⟩ := Option.map_eq_some_iff.mp hrun
  have hreach := Machine.Reachable.exec (reachable_new 5) hs
  obtain ⟨d, hd, hlen⟩ : ∃ d ∈ datagrams snd (.update 1000), d.length = 12 :=
    List.mem_map.mp (hview ▸ List.mem_cons_self ..)
  refine ⟨snd, d, hreach, hd, fun rcv hconv hread => ?_⟩
  obtain ⟨hne, hsend⟩ := (Context.of_reachable hreach).datagrams d hd
  rw [← hconv] at hsend
  have := ((readsBack_iff hne hsend).mp hread).1
  omega

end Hprd.Net.Kcp
