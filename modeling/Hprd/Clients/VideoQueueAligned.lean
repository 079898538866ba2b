import Hprd.Clients.VideoQueueOrder

/-!
# What the video queue is relied on for

The payloads come out in the order of the accepted packets, and the counter is ahead of the
queue by at most the packet that is being taken. Behind 2 ^ 64 bytes this is no longer so.
-/

namespace Hprd.Clients

open Hprd.Core Common Net

namespace VideoQueue

section

variable {s : VideoQueue}

theorem Inv.tail_le (h : s.Inv) :
    s.recvQueue.bufferTail.toNat ≤ offset s.pkts (s.decoded.length + s.taking) := by
  have hdecoding := h.decoding
  unfold taking
  cases hui : s.ui with
  | idle =>
      rw [hui] at hdecoding
      exact hdecoding.le
  | test =>
      rw [hui] at hdecoding
      exact hdecoding.le
  | header filled pc =>
      rw [hui] at hdecoding
      obtain ⟨pkt, htaking⟩ := hdecoding
      have hend := offset_succ htaking.next
      have hat := htaking.position
      have hleft := htaking.left
      have hin := htaking.inside
      dsimp only
      omega
  | payload len filled pc =>
      rw [hui] at hdecoding
      obtain ⟨pkt, -, -, htaking⟩ := hdecoding
      have hend := offset_succ htaking.next
      have hat := htaking.position
      have hleft := htaking.left
      have hin := htaking.inside
      dsimp only
      omega
  | finish =>
      rw [hui] at hdecoding
      obtain ⟨pkt, -, -, hend, -⟩ := hdecoding
      exact hend.le

theorem Inv.count_le (h : s.Inv) : s.recvPktCount ≤ s.stored + s.taking := by
  obtain ⟨m, hm, hn, hhead⟩ := h.published
  have htail := h.tail_le
  have hcount := h.count
  have hsub : Finset.Ico (s.decoded.length + s.taking) m ⊆
      (Finset.range s.pkts.length).filter fun i =>
        s.recvQueue.bufferTail.toNat ≤ offset s.pkts i ∧
          offset s.pkts (i + 1) ≤ s.recvQueue.bufferHead.toNat := by
    intro i hi
    obtain ⟨hlo, hhi⟩ := Finset.mem_Ico.mp hi
    rw [Finset.mem_filter, Finset.mem_range]
    exact ⟨by omega, htail.trans (offset_mono hlo), (offset_mono hhi).trans hhead⟩
  have hcard := Finset.card_le_card hsub
  rw [Nat.card_Ico] at hcard
  have hstored : m - (s.decoded.length + s.taking) ≤ s.stored := hcard
  omega

theorem Inv.aligned (h : s.Inv) : s.Aligned := by
  have hpayloads : s.decoded <+: s.pkts.map (List.drop dataPktSize) := by
    rw [h.decoded]
    exact (List.take_prefix _ _).map _
  constructor
  case inOrder => exact hpayloads
  case own =>
    intro t
    rw [h.delivered t]
    exact List.prefix_append _ _
  case complete =>
    intro hquiet
    have hcount := h.count
    have hun : s.uncounted = 0 := by
      rw [uncounted, hquiet.threads, hquiet.threads]
      rfl
    have hlen : s.decoded.length = s.pkts.length := by
      have h0 := hquiet.count
      omega
    refine ⟨?_, fun t => ?_⟩
    · rw [h.decoded, hlen, List.take_length]
    · rw [h.delivered t, hquiet.threads t]
      exact (List.append_nil _).symm
  case count => exact h.count_le

end

end VideoQueue

/-- In every run in which the calls of `enqueue_data` do not overlap the queue stays aligned. -/
theorem aligned_of_run {s : VideoQueue} (h : videoMachine.Run VideoQueue.Proper s) : s.Aligned := by
  have hinv : s.Inv := by
    apply Machine.Run.invariant (P := VideoQueue.Inv) _ _ h
    · rintro _ rfl
      exact VideoQueue.inv_start
    · intro s a t hinv ha hs
      exact hinv.step ha hs
  exact hinv.aligned

/-- A packet on each transport; the thread that is not to be overtaken has yet to count its own. -/
def oneByOne : List VideoAction :=
  [.deliver .tcp (dataPkt .video [1]), .deliver .kcp (dataPkt .video [2])] ++
    List.replicate 7 (VideoAction.recv .tcp .tail) ++
    List.replicate 8 (VideoAction.recv .kcp .tail) ++ [.frame] ++
    List.replicate 14 (VideoAction.decode .head) ++ [.recv .tcp .tail, .frame] ++
    List.replicate 14 (VideoAction.decode .head)

theorem aligned_oneByOne : ∃ s : VideoQueue, s.decoded = [[1], [2]] ∧ s.Aligned := by
  have hrun : ((videoMachine.guarded VideoQueue.Proper).exec .start oneByOne).map
      (fun s => s.decoded) = some [[1], [2]] := by decide +kernel
  obtain ⟨s, hs, hd⟩ := Option.map_eq_some_iff.mp hrun
  exact ⟨s, hd, aligned_of_run (Machine.run_of_exec hs rfl)⟩

/-! ## One packet after the other

The TCP thread and the UI thread in turn, with both counters at any value.
-/

namespace VideoQueue

section

variable {mem rp : Nat → UInt8} {h e : UInt64} {dec : List Bytes} {del : Transport → List Bytes}
  {acc : List (Transport × Bytes)}

def alone (q : DataQueue) (cnt : Int) (rp : Nat → UInt8) (ui : UiPc) (dec : List Bytes)
    (del : Transport → List Bytes) (acc : List (Transport × Bytes)) : VideoQueue :=
  ⟨q, cnt, rp, fun _ => .idle, ui, dec, del, acc⟩

/-- A call of `dequeue_data` whose bytes lie in one piece, up to its last access. -/
theorem copy_exec (ui : Nat → Pc UInt64 → UiPc) (rp : Nat → UInt8) {size : UInt64} {off : Nat}
    {bs : Bytes}
    (hstep : ∀ (q q' : DataQueue) (rp : Nat → UInt8) (filled : Nat) (pc pc' : Pc UInt64) (bs : Bytes),
      q.dequeueStep size .head pc = some (q', bs, .inl pc') → off + filled + bs.length ≤ bufLen →
      videoMachine.step (alone q 1 rp (ui filled pc) dec del acc) (.decode .head) = some
        (alone q' 1 (Ring.store rp (off + filled) bs) (ui (filled + bs.length) pc') dec del acc))
    (hbuf : off + size.toNat ≤ bufLen)
    (hroom : size ≤ e - h) (hone : size ≤ queueDataSize - h % queueDataSize)
    (hcells : (h % queueDataSize).toNat + size.toNat ≤ capacity)
    (hbs : Ring.block mem (h % queueDataSize).toNat size.toNat = bs) :
    videoMachine.exec (alone ⟨mem, e, h⟩ 1 rp (ui 0 (.room none)) dec del acc)
        (List.replicate 5 (.decode .head)) = some
      (alone ⟨mem, e, h⟩ 1 (Ring.store rp off bs) (ui size.toNat (.publish [size])) dec del acc) := by
  have hquiet : ∀ pc pc', DataQueue.dequeueStep ⟨mem, e, h⟩ size .head pc =
        some (⟨mem, e, h⟩, [], .inl pc') →
      videoMachine.step (alone ⟨mem, e, h⟩ 1 rp (ui 0 pc) dec del acc) (.decode .head) =
        some (alone ⟨mem, e, h⟩ 1 rp (ui 0 pc') dec del acc) := by
    intro pc pc' hs
    have h0 := hstep _ _ rp 0 pc pc' [] hs (by rw [List.length_nil]; omega)
    rwa [Ring.store_nil] at h0
  have h1 := hquiet (.room none) (.room (some (.head, e))) rfl
  have h2 := hquiet (.room (some (.head, e))) .straight (by
    rw [DataQueue.dequeueStep, DataQueue.dequeueRoom, if_pos hroom])
  have h3 := hquiet .straight (.aim [size]) (by rw [DataQueue.dequeueStep, if_pos hone])
  have h4 := hquiet (.aim [size]) (.copy (h % queueDataSize).toNat [size]) rfl
  have hlen : bs.length = size.toNat := by rw [← hbs, Ring.block_length]
  have h5 := hstep ⟨mem, e, h⟩ ⟨mem, e, h⟩ rp 0 (.copy (h % queueDataSize).toNat [size])
    (.publish [size]) bs (by
      rw [DataQueue.dequeueStep, DataQueue.copyOut, if_pos hcells, hbs]
      rfl) (by rw [hlen]; exact hbuf)
  rw [Nat.zero_add, hlen] at h5
  rw [List.replicate, Machine.exec_cons h1, List.replicate, Machine.exec_cons h2, List.replicate,
    Machine.exec_cons h3, List.replicate, Machine.exec_cons h4, List.replicate,
    Machine.exec_cons h5]
  rfl

theorem fill_eq (s : VideoQueue) {off : Nat} {bs : Bytes} (h : off + bs.length ≤ bufLen) :
    s.fill off bs = some { s with recvPkt := Ring.store s.recvPkt off bs } := if_pos h

theorem header_step (q q' : DataQueue) (rp : Nat → UInt8) (filled : Nat) (pc pc' : Pc UInt64)
    (bs : Bytes)
    (hs : q.dequeueStep (UInt64.ofNat dataPktSize) .head pc = some (q', bs, .inl pc'))
    (hle : 0 + filled + bs.length ≤ bufLen) :
    videoMachine.step (alone q 1 rp (.header filled pc) dec del acc) (.decode .head) =
      some (alone q' 1 (Ring.store rp (0 + filled) bs) (.header (filled + bs.length) pc')
        dec del acc) := by
  rw [Nat.zero_add] at *
  simp only [videoMachine, VideoQueue.step, decodeStep, alone, hs, Option.bind_some,
    fill_eq _ hle, Option.map_some, afterHeader]

theorem payload_step (len : UInt64) (q q' : DataQueue) (rp : Nat → UInt8) (filled : Nat)
    (pc pc' : Pc UInt64) (bs : Bytes)
    (hs : q.dequeueStep len .head pc = some (q', bs, .inl pc'))
    (hle : dataPktSize + filled + bs.length ≤ bufLen) :
    videoMachine.step (alone q 1 rp (.payload len filled pc) dec del acc) (.decode .head) =
      some (alone q' 1 (Ring.store rp (dataPktSize + filled) bs)
        (.payload len (filled + bs.length) pc') dec del acc) := by
  simp only [videoMachine, VideoQueue.step, decodeStep, alone, hs, Option.bind_some,
    fill_eq _ hle, Option.map_some, afterPayload]

theorem header_end {len : Nat} (hlen : (ofBe32 (Ring.block rp 4 4)).toNat = len)
    (hentry : DataQueue.dequeueEntry (UInt64.ofNat len) = .inl (.room none)) :
    videoMachine.step (alone ⟨mem, e, h⟩ 1 rp
        (.header (UInt64.ofNat dataPktSize).toNat (.publish [UInt64.ofNat dataPktSize]))
        dec del acc) (.decode .head) =
      some (alone ⟨mem, e, h + UInt64.ofNat dataPktSize⟩ 1 (Ring.store rp 4 (leBytes 4 len))
        (.payload (UInt64.ofNat len) 0 (.room none)) dec del acc) := by
  have hfill : ∀ s : VideoQueue, s.fill (UInt64.ofNat dataPktSize).toNat [] = some s := by
    intro s
    rw [fill_eq s (by decide), Ring.store_nil]
  simp only [videoMachine, VideoQueue.step, decodeStep, alone, DataQueue.dequeueStep,
    Option.bind_some, hfill, Option.map_some, if_true, afterHeader, hlen, hentry, afterPayload]

theorem payload_end {len : UInt64} (hle : dataPktSize + len.toNat ≤ bufLen) :
    videoMachine.step (alone ⟨mem, e, h⟩ 1 rp (.payload len len.toNat (.publish [len])) dec del acc)
        (.decode .head) =
      some (alone ⟨mem, e, h + len⟩ 1 rp .finish dec del acc) := by
  have hfill : ∀ s : VideoQueue, s.fill (dataPktSize + len.toNat) [] = some s := by
    intro s
    rw [fill_eq s (by simpa using hle), Ring.store_nil]
  simp only [videoMachine, VideoQueue.step, decodeStep, alone, DataQueue.dequeueStep,
    Option.bind_some, hfill, Option.map_some, if_true, afterPayload]

theorem finish_step {q : DataQueue} {pkt : Bytes} (h : Headed rp pkt) (hpkt : VideoPkt pkt) :
    videoMachine.step (alone q 1 rp .finish dec del acc) (.decode .head) =
      some (alone q 0 rp .idle (dec ++ [Ring.block rp dataPktSize (pkt.length - dataPktSize)])
        del acc) := by
  obtain ⟨hchannel, hlen⟩ := fields_of_headed h hpkt
  have hin : dataPktSize + (pkt.length - dataPktSize) ≤ bufLen := by
    have := hpkt.length
    omega
  simp only [videoMachine, VideoQueue.step, decodeStep, alone, finishPkt, hchannel, hlen,
    if_pos hin, if_true, Int.sub_self]

def putLabels (pkt : Bytes) : List VideoAction :=
  .deliver .tcp pkt :: List.replicate 8 (.recv .tcp .tail)

theorem put_exec {pkt : Bytes} (hpkt : VideoPkt pkt)
    (hroom : UInt64.ofNat pkt.length ≤ h + queueDataSize - h)
    (hone : UInt64.ofNat pkt.length ≤ queueDataSize - h % queueDataSize)
    (hcells : (h % queueDataSize).toNat + pkt.length ≤ capacity) :
    videoMachine.exec (alone ⟨mem, h, h⟩ 0 rp .idle dec del acc) (putLabels pkt) = some
      (alone ⟨Ring.store mem (h % queueDataSize).toNat pkt, h + UInt64.ofNat pkt.length, h⟩ 1 rp
        .idle dec (Function.update del .tcp (del .tcp ++ [pkt])) (acc ++ [(.tcp, pkt)])) := by
  have hentry : DataQueue.enqueueEntry pkt = .inl (.room none) :=
    if_neg (Nat.not_lt.mpr hpkt.length_le)
  obtain ⟨hz, hm⟩ := hpkt.ret_ne
  have hself : Function.update (fun _ : Transport => RecvPc.idle) .tcp .idle = fun _ => .idle :=
    Function.update_eq_self ..
  simp only [putLabels, alone, List.replicate, Machine.exec, videoMachine, VideoQueue.step,
    onClientRecv, hpkt.pktChannel, setThread, recvStep, hentry, afterEnqueue, DataQueue.enqueueStep,
    DataQueue.enqueueRoom, DataQueue.load, if_pos hroom, if_pos hone, DataQueue.copyIn,
    if_pos hcells, if_neg hz, if_neg hm, acceptedBy, Pc.found, Option.map_some, Option.bind_some,
    Function.update_self, Function.update_idem, if_true, hself, List.append_nil, reduceCtorEq,
    if_false]
  rfl

def takeLabels : List VideoAction :=
  .frame :: .decode .head :: (List.replicate 5 (.decode .head) ++ .decode .head ::
    (List.replicate 5 (.decode .head) ++ List.replicate 2 (.decode .head)))

theorem straight_room {n : UInt64} {c : UInt64} (hone : c.toNat % capacity + n.toNat ≤ capacity) :
    n ≤ queueDataSize - c % queueDataSize ∧ (c % queueDataSize).toNat + n.toNat ≤ capacity := by
  constructor
  · rw [UInt64.le_iff_toNat_le, DataQueue.directSpace_toNat]
    omega
  · rw [UInt64.toNat_mod, queueDataSize_toNat, ← capacity_eq]
    exact hone

/-- The UI thread takes a packet whose two parts lie in one piece each. -/
theorem take_exec {pkt bs : Bytes} {len h' : UInt64} (hpkt : VideoPkt pkt)
    (hlen : len.toNat = pkt.length - dataPktSize) (hh : h + UInt64.ofNat dataPktSize = h')
    (hroom : UInt64.ofNat dataPktSize ≤ e - h) (hroom' : len ≤ e - h')
    (hone : h.toNat % capacity + dataPktSize ≤ capacity)
    (hone' : h'.toNat % capacity + len.toNat ≤ capacity)
    (hhead : Ring.block mem (h % queueDataSize).toNat dataPktSize = pkt.take dataPktSize)
    (hbs : Ring.block mem (h' % queueDataSize).toNat len.toNat = bs) :
    ∃ rp', videoMachine.exec (alone ⟨mem, e, h⟩ 1 rp .idle dec del acc) takeLabels = some
      (alone ⟨mem, e, h' + len⟩ 0 rp' .idle (dec ++ [bs]) del acc) := by
  obtain ⟨hlong, hshort⟩ := hpkt.length
  have hle : dataPktSize + len.toNat ≤ bufLen := by omega
  have hofNat : UInt64.ofNat (pkt.length - dataPktSize) = len := by rw [← hlen, UInt64.ofNat_toNat]
  have hentry : DataQueue.dequeueEntry len = .inl (.room none) := by
    rw [DataQueue.dequeueEntry, if_neg]
    rw [UInt64.lt_iff_toNat_lt, queueDataSize_toNat]
    rw [bufLen_eq] at hle
    omega
  obtain ⟨hs, hc⟩ := @straight_room (UInt64.ofNat dataPktSize) h hone
  obtain ⟨hs', hc'⟩ := straight_room hone'
  have hdata : Ring.block (Ring.store rp 0 (pkt.take dataPktSize)) 0 dataPktSize =
      pkt.take dataPktSize := by
    have hstore := Ring.block_store rp 0 (pkt.take dataPktSize)
    rwa [List.length_take, Nat.min_eq_left hlong] at hstore
  obtain ⟨hdataLen, hheaded⟩ := headed_of_header hpkt hdata
  have htest : videoMachine.step (alone ⟨mem, e, h⟩ 1 rp .test dec del acc) (.decode .head) =
      some (alone ⟨mem, e, h⟩ 1 rp (.header 0 (.room none)) dec del acc) := rfl
  have hcopy := copy_exec .header rp (@header_step dec del acc)
    (show 0 + (UInt64.ofNat dataPktSize).toNat ≤ bufLen by decide) hroom hs hc hhead
  generalize hrp₁ : Ring.store rp 0 (pkt.take dataPktSize) = rp₁ at *
  have hend := @header_end mem rp₁ h e dec del acc _ hdataLen (by rw [hofNat]; exact hentry)
  rw [hofNat, hh] at hend
  generalize hrp₂ : Ring.store rp₁ 4 (leBytes 4 (pkt.length - dataPktSize)) = rp₂ at *
  have hcopy' := copy_exec (.payload len) rp₂ (@payload_step dec del acc len)
    hle hroom' hs' hc' hbs
  have hend' := @payload_end mem (Ring.store rp₂ dataPktSize bs) h' e dec del acc _ hle
  have hheaded' : Headed (Ring.store rp₂ dataPktSize bs) pkt := by
    constructor
    · rw [Ring.block_store_of_le _ (by decide), hheaded.channel]
    · rw [Ring.block_store_of_le _ (by decide), hheaded.dataLen]
  have hfinish := @finish_step _ dec del acc ⟨mem, e, h' + len⟩ pkt hheaded' hpkt
  have hbsLen : bs.length = pkt.length - dataPktSize := by rw [← hbs, Ring.block_length, hlen]
  have hstored : Ring.block (Ring.store rp₂ dataPktSize bs) dataPktSize
      (pkt.length - dataPktSize) = bs := by
    have hstore := Ring.block_store rp₂ dataPktSize bs
    rwa [hbsLen] at hstore
  rw [hstored] at hfinish
  refine ⟨Ring.store rp₂ dataPktSize bs, ?_⟩
  have hframe : videoMachine.step (alone ⟨mem, e, h⟩ 1 rp .idle dec del acc) .frame =
    some (alone ⟨mem, e, h⟩ 1 rp .test dec del acc) := rfl
  rw [takeLabels, Machine.exec_cons hframe, Machine.exec_cons htest, Machine.exec_append, hcopy,
    Option.bind_some, Machine.exec_cons hend, Machine.exec_append, hcopy', Option.bind_some,
    List.replicate, Machine.exec_cons hend', List.replicate, Machine.exec_cons hfinish]
  rfl

theorem pass_exec {pkt bs : Bytes} {len h' : UInt64} (hpkt : VideoPkt pkt)
    (hlen : len.toNat = pkt.length - dataPktSize) (hh : h + UInt64.ofNat dataPktSize = h')
    (hone : h.toNat % capacity + pkt.length ≤ capacity)
    (hone' : h'.toNat % capacity + len.toNat ≤ capacity)
    (hbs : Ring.block (Ring.store mem (h % queueDataSize).toNat pkt) (h' % queueDataSize).toNat
      len.toNat = bs) :
    ∃ mem' rp', videoMachine.exec (alone ⟨mem, h, h⟩ 0 rp .idle dec del acc)
        (putLabels pkt ++ takeLabels) = some
      (alone ⟨mem', h' + len, h' + len⟩ 0 rp' .idle (dec ++ [bs])
        (Function.update del .tcp (del .tcp ++ [pkt])) (acc ++ [(.tcp, pkt)])) := by
  obtain ⟨hlong, hshort⟩ := hpkt.length
  have hsize : (UInt64.ofNat pkt.length).toNat = pkt.length :=
    DataQueue.ofNat_length_toNat hpkt.length_le
  have hsum : UInt64.ofNat pkt.length = UInt64.ofNat dataPktSize + len := by
    rw [← UInt64.toNat_inj, hsize, UInt64.toNat_add, hlen]
    rw [bufLen_eq] at hshort
    show _ = (dataPktSize + _) % _
    omega
  obtain ⟨hs, hc⟩ := @straight_room (UInt64.ofNat pkt.length) h (by rw [hsize]; exact hone)
  rw [hsize] at hc
  have hcap : UInt64.ofNat pkt.length ≤ h + queueDataSize - h := by
    rw [UInt64.add_comm, UInt64.add_sub_cancel, UInt64.le_iff_toNat_le, hsize, queueDataSize_toNat,
      ← capacity_eq]
    exact hpkt.length_le
  have hput := @put_exec mem rp h dec del acc pkt hpkt hcap hs hc
  have hhead : Ring.block (Ring.store mem (h % queueDataSize).toNat pkt) (h % queueDataSize).toNat
      dataPktSize = pkt.take dataPktSize := by
    have hstore := Ring.block_store mem (h % queueDataSize).toNat pkt
    have hsplit : pkt.length = dataPktSize + len.toNat := by omega
    rw [hsplit, Ring.block_add] at hstore
    conv_rhs => rw [← hstore]
    rw [List.take_left' (Ring.block_length ..)]
  have he : h + UInt64.ofNat pkt.length = h' + len := by rw [hsum, ← UInt64.add_assoc, hh]
  have hroom : UInt64.ofNat dataPktSize ≤ h' + len - h := by
    rw [← he, UInt64.add_comm, UInt64.add_sub_cancel, UInt64.le_iff_toNat_le, hsize]
    exact hlong
  have hroom' : len ≤ h' + len - h' := by
    rw [UInt64.add_comm, UInt64.add_sub_cancel]
    exact UInt64.le_refl _
  rw [he] at hput
  obtain ⟨rp', htake⟩ := @take_exec _ rp h (h' + len) dec _ _ pkt bs len h' hpkt hlen hh hroom hroom'
    (by omega) hone' hhead hbs
  exact ⟨_, rp', by rw [Machine.exec_append, hput, Option.bind_some, htake]⟩

end

/-- Without a payload the packets go round for as long as one likes. -/
theorem rounds_run (n : Nat) : ∃ mem rp dec del acc,
    videoMachine.Run Fed (alone ⟨mem, UInt64.ofNat (n * dataPktSize),
      UInt64.ofNat (n * dataPktSize)⟩ 0 rp .idle dec del acc) ∧ del .kcp = [] := by
  induction n with
  | zero => exact ⟨_, _, _, _, _, .start rfl, rfl⟩
  | succ n ih =>
      obtain ⟨mem, rp, dec, del, acc, hrun, hkcp⟩ := ih
      have hpkt : VideoPkt (dataPkt .video []) := by decide
      have hnext : UInt64.ofNat (n * dataPktSize) + UInt64.ofNat dataPktSize =
          UInt64.ofNat ((n + 1) * dataPktSize) := by
        rw [Nat.add_mul, Nat.one_mul, UInt64.ofNat_add]
      have hone : (UInt64.ofNat (n * dataPktSize)).toNat % capacity +
          (dataPkt .video []).length ≤ capacity := by
        show _ + 8 ≤ _
        rw [UInt64.toNat_ofNat', capacity_eq, dataPktSize]
        omega
      have hone' : (UInt64.ofNat ((n + 1) * dataPktSize)).toNat % capacity +
          (0 : UInt64).toNat ≤ capacity := by
        exact Nat.le_of_lt (Nat.mod_lt _ (by decide))
      obtain ⟨mem', rp', hpass⟩ :=
        @pass_exec mem rp _ dec del acc _ _ 0 _ hpkt rfl hnext hone hone' rfl
      rw [UInt64.add_zero] at hpass
      refine ⟨mem', rp', _, _, _, hrun.exec ?_ hpass, ?_⟩
      · simp [putLabels, takeLabels, Fed, hpkt]
      · rw [Function.update_of_ne (by decide)]
        exact hkcp

/-- Behind 2 ^ 64 bytes the payload is read from other cells than it was written to. -/
theorem wrapped_run : ∃ s, videoMachine.Run Fed s ∧ s.Quiet ∧ s.delivered .kcp = [] ∧
    s.decoded ≠ (s.delivered .tcp).map (List.drop dataPktSize) := by
  obtain ⟨mem, rp, dec, del, acc, hrun, hkcp⟩ := rounds_run (2 ^ 61 - 1)
  obtain ⟨data, hlen, hdata⟩ : ∃ data : Bytes, data.length = 8 ∧ Ring.block mem 0 8 ≠ data := by
    by_cases h : Ring.block mem 0 8 = List.replicate 8 0
    · exact ⟨List.replicate 8 1, rfl, by rw [h]; decide⟩
    · exact ⟨List.replicate 8 0, rfl, h⟩
  have hpktLen : (dataPkt .video data).length = 16 := by simp [dataPkt, hlen]
  have hdrop : (dataPkt .video data).drop dataPktSize = data := by
    rw [dataPkt, ← List.append_assoc]
    exact List.drop_left' (by simp [dataPktSize])
  have hpkt : VideoPkt (dataPkt .video data) := by
    constructor
    · rw [hdrop]
    · rw [hpktLen]
      decide
  have hcell : (UInt64.ofNat ((2 ^ 61 - 1) * dataPktSize) % queueDataSize).toNat = 6291448 := by
    rw [UInt64.toNat_mod, UInt64.toNat_ofNat', queueDataSize_toNat, dataPktSize]
    decide
  have hone : (UInt64.ofNat ((2 ^ 61 - 1) * dataPktSize)).toNat % capacity +
      (dataPkt .video data).length ≤ capacity := by
    rw [hpktLen, capacity_eq, ← queueDataSize_toNat, ← UInt64.toNat_mod, hcell]
    decide
  have hnext : UInt64.ofNat ((2 ^ 61 - 1) * dataPktSize) + UInt64.ofNat dataPktSize = 0 := by
    rw [← UInt64.ofNat_add]
    rfl
  have hread : Ring.block (Ring.store mem (UInt64.ofNat ((2 ^ 61 - 1) * dataPktSize) %
      queueDataSize).toNat (dataPkt .video data)) ((0 : UInt64) % queueDataSize).toNat
      (8 : UInt64).toNat = Ring.block mem 0 8 := by
    rw [hcell]
    exact Ring.block_store_of_le _ (by decide)
  obtain ⟨mem', rp', hpass⟩ := @pass_exec mem rp _ dec del acc _ _ 8 0 hpkt
    (by rw [hpktLen]; rfl) hnext hone (by decide) hread
  refine ⟨_, hrun.exec ?_ hpass, ⟨fun _ => rfl, rfl, rfl⟩, ?_, ?_⟩
  · simp [putLabels, takeLabels, Fed, hpkt]
  · show Function.update del .tcp (del .tcp ++ [dataPkt .video data]) .kcp = []
    rw [Function.update_of_ne (by decide)]
    exact hkcp
  · intro h
    have hlast : dec ++ [Ring.block mem 0 8] = (del .tcp).map (List.drop dataPktSize) ++ [data] := by
      rw [← hdrop]
      simpa [alone] using h
    have hboth := List.append_inj_right' hlast rfl
    exact hdata (List.singleton_inj.mp hboth)

end VideoQueue

/-- A packet that was taken and is not discounted. -/
def takenUncounted : List VideoAction :=
  .deliver .tcp (dataPkt .video [1]) :: List.replicate 8 (VideoAction.recv .tcp .tail) ++
    .frame :: List.replicate 13 (VideoAction.decode .head)

/-- Both threads aim at the same cells before either of them publishes. -/
def overlapping : List VideoAction :=
  [.deliver .tcp (dataPkt .video [1]), .deliver .kcp (dataPkt .video [2])] ++
    List.replicate 5 (VideoAction.recv .tcp .tail) ++
    List.replicate 5 (VideoAction.recv .kcp .tail) ++
    List.replicate 3 (VideoAction.recv .tcp .tail) ++
    List.replicate 3 (VideoAction.recv .kcp .tail) ++
    .frame :: List.replicate 14 (VideoAction.decode .head) ++
    .frame :: List.replicate 14 (VideoAction.decode .head)

/-- The counter is ahead while a packet is taken; where both threads are inside `enqueue_data`
at once, the packet of one of them is lost and bytes that are no packet are decoded; and one
thread alone has its payloads decoded wrongly behind 2 ^ 64 bytes. -/
theorem misaligned_runs :
    (∃ s, videoMachine.Run VideoQueue.Proper s ∧ s.recvPktCount = 1 ∧ s.stored = 0) ∧
      (∃ s, videoMachine.Run VideoQueue.Fed s ∧ s.Quiet ∧ s.decoded = [[2], []] ∧
        s.delivered .tcp = [dataPkt .video [1]] ∧ s.delivered .kcp = [dataPkt .video [2]]) ∧
      ∃ s, videoMachine.Run VideoQueue.Fed s ∧ s.Quiet ∧ s.delivered .kcp = [] ∧
        s.decoded ≠ (s.delivered .tcp).map (List.drop dataPktSize) := by
  have htaken : ((videoMachine.guarded VideoQueue.Proper).exec .start takenUncounted).map
      (fun s => (s.recvPktCount, s.stored)) = some (1, 0) := by decide +kernel
  have hoverlap : ((videoMachine.guarded VideoQueue.Fed).exec .start overlapping).any (fun s =>
      s.thread .tcp = .idle ∧ s.thread .kcp = .idle ∧ s.ui = .idle ∧ s.recvPktCount = 0 ∧
        s.decoded = [[2], []] ∧ s.delivered .tcp = [dataPkt .video [1]] ∧
        s.delivered .kcp = [dataPkt .video [2]]) = true := by
    decide +kernel
  obtain ⟨s, hs, hv⟩ := Option.map_eq_some_iff.mp htaken
  simp only [Prod.mk.injEq] at hv
  rw [Option.any_eq_true_iff_get] at hoverlap
  obtain ⟨hsome, hw⟩ := hoverlap
  obtain ⟨u, hu⟩ := Option.isSome_iff_exists.mp hsome
  simp only [hu, Option.get_some] at hw
  obtain ⟨htcp, hkcp, hui, hcount, hdecoded, hdtcp, hdkcp⟩ := of_decide_eq_true hw
  have hthreads : ∀ t, u.thread t = .idle := by
    intro t
    cases t with
    | tcp => exact htcp
    | kcp => exact hkcp
  exact ⟨⟨s, Machine.run_of_exec hs rfl, hv⟩,
    ⟨u, Machine.run_of_exec hu rfl, ⟨hthreads, hui, hcount⟩, hdecoded, hdtcp, hdkcp⟩, VideoQueue.wrapped_run⟩

end Hprd.Clients
