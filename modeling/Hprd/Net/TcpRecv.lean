import Hprd.Core.Framing
import Hprd.Core.Machine
import Hprd.Common.DataQueueSpec

/-!
# The receive loop of `net/tcp_server.c`

`_check_recv_pkt` reads the length and hands out the payload through one raw
pointer into the ring, so a read past the physical end is a read outside the
array and has no result here. The length is an `int`, and so is `4 + pkt_len`.
-/

namespace Hprd.Net

open Hprd.Core Common

/-! ## The code -/

/-- What `server_on_pkg` gets: a pointer into `recv_queue`, as an index, and a length. -/
structure Slice where
  start : Nat
  len : UInt64

/-- `_check_recv_pkt` returns -1, or it calls `server_on_pkg` and returns 0. -/
inductive CheckRecv where
  | stop
  | pkg (slice : Slice) (q : DataQueue)

/-- An `int` passed as `size_t`. -/
def sizeT (n : Int32) : UInt64 := n.toInt64.toUInt64

/-- `ntohl(*(uint32_t *)(buf_ptr))` as an `int`. -/
def recvPktLen (q : DataQueue) : Option Int32 :=
  (q.copyOut q.queueGetReadPtr 4).map fun bs => (ofBe32 bs).toInt32

def checkRecvPkt (q : DataQueue) : Option CheckRecv :=
  if 4 < q.getQueueDataCount then do
    let pktLen ← recvPktLen q
    if 0 < pktLen then
      if 4 + pktLen ≤ q.getQueueDataCount then
        return .pkg ⟨q.queueGetReadPtr + 4, sizeT pktLen⟩
          (q.queueTailPointForward (sizeT (4 + pktLen))).2
      else return .stop
    else return .stop
  else return .stop

/-- One call of `server_on_pkg`, with the queue before and after the iteration. -/
structure Call where
  before : DataQueue
  slice : Slice
  after : DataQueue

inductive LoopEnd where
  | running
  | fault
  | done (calls : List Call) (q : DataQueue)

def LoopEnd.push (c : Call) : LoopEnd → LoopEnd
  | .done calls q => .done (c :: calls) q
  | e => e

/-- `while(_check_recv_pkt(ev) == 0);` -/
def recvLoop : Nat → DataQueue → LoopEnd
  | 0, _ => .running
  | fuel + 1, q =>
      match checkRecvPkt q with
      | none => .fault
      | some .stop => .done [] q
      | some (.pkg s q') => (recvLoop fuel q').push ⟨q, s, q'⟩

/-- A positive `recv`: the bytes go to the write pointer and the head moves over them. -/
def recvData (q : DataQueue) (bs : Bytes) : Option DataQueue :=
  (q.copyIn q.queueGetWritePtr bs).map fun q =>
    (q.queueHeadPointForward (UInt64.ofNat bs.length)).2

/-! ## One iteration -/

/-- The length field at the read pointer keeps the loop from calling `server_on_pkg`. -/
def HeaderWaits (q : DataQueue) : Prop :=
  ∃ len, recvPktLen q = some len ∧ ¬(0 < len ∧ 4 + len ≤ q.getQueueDataCount)

theorem toNat_sizeT {n : Int32} {k : Nat} (h : n.toInt = k) : sizeT n = UInt64.ofNat k := by
  have hlt : n.toInt < 2 ^ 31 := n.toInt_lt
  have hi : (n.toBitVec.signExtend 64).toInt = n.toInt :=
    BitVec.toInt_signExtend_of_le (by decide)
  apply UInt64.toNat_inj.mp
  rw [UInt64.toNat_ofNat']
  show (n.toBitVec.signExtend 64).toNat = k % 2 ^ 64
  rw [BitVec.toInt_eq_toNat_cond] at hi
  split at hi <;> omega

/-- `4 + pkt_len` wraps for the four largest lengths. -/
theorem four_add_toInt {n : Int32} (h : 0 < n.toInt) :
    (4 + n).toInt = if 4 + n.toInt < 2 ^ 31 then 4 + n.toInt else 4 + n.toInt - 2 ^ 32 := by
  have hlt : n.toInt < 2 ^ 31 := n.toInt_lt
  have h4 : (4 : Int32).toInt = 4 := rfl
  rw [Int32.toInt_add, h4, Int.bmod_def]
  split <;> split <;> omega

section

variable {q : DataQueue}

theorem four_lt_count (h : q.used ≤ capacity) : 4 < q.getQueueDataCount ↔ 4 < q.used := by
  rw [capacity_eq] at h
  have hc := DataQueue.getQueueDataCount_toInt (q := q) (by omega)
  have h4 : (4 : Int32).toInt = 4 := rfl
  rw [Int32.lt_iff_toInt_lt, hc, h4]
  omega

theorem checkRecvPkt_short (h : q.used ≤ 4) : checkRecvPkt q = some .stop := by
  have hc : ¬4 < q.getQueueDataCount := by
    rw [four_lt_count (by rw [capacity_eq]; omega)]
    omega
  rw [checkRecvPkt, if_neg hc]
  rfl

theorem checkRecvPkt_none (h : q.used ≤ capacity) (h4 : 4 < q.used) (hn : recvPktLen q = none) :
    checkRecvPkt q = none := by
  rw [checkRecvPkt, if_pos ((four_lt_count h).mpr h4), hn]
  rfl

theorem checkRecvPkt_waits (h : q.used ≤ capacity) (h4 : 4 < q.used) (hw : HeaderWaits q) :
    checkRecvPkt q = some .stop := by
  obtain ⟨len, hlen, hno⟩ := hw
  rw [checkRecvPkt, if_pos ((four_lt_count h).mpr h4), hlen]
  by_cases hpos : 0 < len
  · have hle : ¬4 + len ≤ q.getQueueDataCount := fun hle => hno ⟨hpos, hle⟩
    simp [hpos, hle]
  · simp [hpos]

theorem checkRecvPkt_pkg (h : q.used ≤ capacity) (h4 : 4 < q.used) {len : Int32}
    (hlen : recvPktLen q = some len) (hpos : 0 < len) (hle : 4 + len ≤ q.getQueueDataCount) :
    checkRecvPkt q = some (.pkg ⟨q.queueGetReadPtr + 4, sizeT len⟩
      (q.queueTailPointForward (sizeT (4 + len))).2) := by
  rw [checkRecvPkt, if_pos ((four_lt_count h).mpr h4), hlen]
  simp [hpos, hle]

/-- A length that passes the test is there whole, or the addition has wrapped. -/
theorem fits_or_wraps (h : q.used ≤ capacity) {len : Int32} (hpos : 0 < len)
    (hle : 4 + len ≤ q.getQueueDataCount) :
    ∃ n : Nat, len.toInt = n ∧ 0 < n ∧ (4 + n ≤ q.used ∨ 2 ^ 31 ≤ 4 + n) := by
  have hc := DataQueue.getQueueDataCount_toInt (q := q) (by rw [capacity_eq] at h; omega)
  have h0 : (0 : Int32).toInt = 0 := rfl
  rw [Int32.lt_iff_toInt_lt, h0] at hpos
  rw [Int32.le_iff_toInt_le, hc, four_add_toInt hpos] at hle
  refine ⟨len.toInt.toNat, by omega, by omega, ?_⟩
  split at hle <;> omega

theorem le_count_of_fits (h : q.used ≤ capacity) {len : Int32} {n : Nat} (hn : len.toInt = n)
    (hpos : 0 < n) (hfit : 4 + n ≤ q.used) : 0 < len ∧ 4 + len ≤ q.getQueueDataCount := by
  rw [capacity_eq] at h
  have hc := DataQueue.getQueueDataCount_toInt (q := q) (by omega)
  have h0 : (0 : Int32).toInt = 0 := rfl
  have hp : 0 < len.toInt := by omega
  rw [Int32.lt_iff_toInt_lt, h0, Int32.le_iff_toInt_le, hc, four_add_toInt hp]
  refine ⟨hp, ?_⟩
  split <;> omega

theorem tailForward_fits (h : q.used ≤ capacity) {len : Int32} {n : Nat} (hn : len.toInt = n)
    (hpos : 0 < n) (hfit : 4 + n ≤ q.used) :
    (q.queueTailPointForward (sizeT (4 + len))).2 = q.skip (UInt64.ofNat (4 + n)) := by
  have hsum : (4 + len).toInt = (4 + n : Nat) := by
    rw [capacity_eq] at h
    rw [four_add_toInt (by omega)]
    split <;> omega
  have hto : (UInt64.ofNat (4 + n)).toNat = 4 + n := by
    rw [capacity_eq] at h
    rw [UInt64.toNat_ofNat']
    omega
  rw [toNat_sizeT hsum, DataQueue.queueTailPointForward_used (by omega) (by omega)]

/-! ## The length field -/

theorem toInt_toInt32 (w : UInt32) :
    w.toInt32.toInt = if w.toNat < 2 ^ 31 then (w.toNat : Int) else w.toNat - 2 ^ 32 := by
  have hlt := w.toNat_lt
  show w.toBitVec.toInt = _
  rw [BitVec.toInt_eq_toNat_cond]
  show (if 2 * w.toNat < 2 ^ 32 then (w.toNat : Int) else (w.toNat : Int) - (2 ^ 32 : Nat)) = _
  split <;> split <;> omega

theorem recvPktLen_straight (h4 : 4 ≤ q.used) (hs : Straight q.bufferTail 4) :
    recvPktLen q = some (ofBe32 (q.contents.take 4)).toInt32 := by
  rw [recvPktLen, DataQueue.direct_read h4 hs]
  rfl

theorem declared_of_toInt {bs : Bytes} {n : Nat} (h : (ofBe32 (bs.take 4)).toInt32.toInt = n) :
    declared bs = n := by
  rw [toInt_toInt32] at h
  have hlt := declared_lt bs
  unfold declared at *
  split at h <;> omega

theorem toInt_of_declared {bs : Bytes} (h : declared bs < 2 ^ 31) :
    (ofBe32 (bs.take 4)).toInt32.toInt = declared bs := by
  rw [toInt_toInt32]
  unfold declared at *
  rw [if_pos h]

/-- A whole frame with its header in consecutive cells is handed out and consumed. -/
theorem checkRecvPkt_frame (h : q.used ≤ capacity) {p rest : Bytes}
    (hc : q.contents = frame p ++ rest) (hpos : 0 < p.length) (hs : Straight q.bufferTail 4) :
    checkRecvPkt q = some (.pkg ⟨q.queueGetReadPtr + 4, UInt64.ofNat p.length⟩
      (q.skip (UInt64.ofNat (4 + p.length)))) := by
  have hlen := congrArg List.length hc
  rw [DataQueue.contents_length, List.length_append, frame_length] at hlen
  have hcap := capacity_eq
  have hd : declared q.contents = p.length := by
    rw [hc, declared_append _ (by simp), declared_frame (by omega)]
  have hn : (ofBe32 (q.contents.take 4)).toInt32.toInt = p.length := by
    rw [toInt_of_declared (by omega), hd]
  have hread := recvPktLen_straight (by omega) hs
  obtain ⟨hp, hle⟩ := le_count_of_fits h hn hpos (by omega)
  rw [checkRecvPkt_pkg h (by omega) hread hp hle, toNat_sizeT hn,
    tailForward_fits h hn hpos (by omega)]

/-- With its header in consecutive cells, a partial frame makes the loop wait. -/
theorem headerWaits_of_short (h : q.used ≤ capacity) (h4 : 4 ≤ q.used)
    (hs : Straight q.bufferTail 4) (hp : PartialFrame (capacity - 4) q.contents) :
    HeaderWaits q := by
  have hcap := capacity_eq
  obtain ⟨hpos, hmax, hlt⟩ := hp.lt_declared (by omega) (by rw [DataQueue.contents_length]; omega)
  rw [DataQueue.contents_length] at hlt
  refine ⟨_, recvPktLen_straight h4 hs, ?_⟩
  rintro ⟨hlen, hle⟩
  obtain ⟨n, hn, -, hfit⟩ := fits_or_wraps h hlen hle
  have hd := declared_of_toInt hn
  omega

/-- While the counters have not wrapped, waiting means that the header is inside the array. -/
theorem headerWaits_iff (h : q.WellFormed) (h4 : 4 ≤ q.used)
    (hp : PartialFrame (capacity - 4) q.contents) :
    HeaderWaits q ↔ q.bufferTail.toNat % capacity + 4 ≤ capacity := by
  constructor
  · rintro ⟨len, hlen, -⟩
    obtain ⟨bs, hbs, -⟩ := Option.map_eq_some_iff.mp hlen
    rw [← DataQueue.queueGetReadPtr_eq]
    exact (DataQueue.copyOut_length hbs).2
  · intro hend
    have ho := h.ordered
    have hused := DataQueue.used_eq h
    have hh := q.bufferHead.toNat_lt
    exact headerWaits_of_short (DataQueue.used_le_capacity h) h4 ⟨hend, by omega⟩ hp

end

/-! ## The whole loop -/

/-- The slice is the unread bytes behind the length, and the iteration consumes both. -/
structure Call.Exact (c : Call) : Prop where
  fits : 4 + c.slice.len.toNat ≤ c.before.used
  slice : ∀ i, i < c.slice.len.toNat → c.slice.start + i = c.before.cell (4 + i)
  consumed : c.after.contents = c.before.contents.drop (4 + c.slice.len.toNat)

/-- The loop ends, calls only with unread bytes, consumes what it hands out and leaves
the beginning of a frame. -/
def RecvLoopSafe (q : DataQueue) : Prop :=
  ∃ fuel calls r, recvLoop fuel q = .done calls r ∧ (∀ c ∈ calls, c.Exact) ∧
    PartialFrame (capacity - 4) r.contents

/-- Frames from a counter on, none of which meets the physical end of the ring. -/
def Contiguous : UInt64 → List Bytes → Prop
  | _, [] => True
  | c, p :: ps => Straight c (4 + p.length) ∧ Contiguous (c + UInt64.ofNat (4 + p.length)) ps

def WellFramed (q : DataQueue) : Prop :=
  ∃ ps rest, q.contents = frames ps ++ rest ∧
    (∀ p ∈ ps, 0 < p.length ∧ p.length ≤ capacity - 4) ∧ Contiguous q.bufferTail ps ∧
    PartialFrame (capacity - 4) rest ∧
    (4 < rest.length → HeaderWaits (q.skip (UInt64.ofNat (frames ps).length)))

theorem recvLoop_stop {q : DataQueue} (fuel : Nat) (h : checkRecvPkt q = some .stop) :
    recvLoop (fuel + 1) q = .done [] q := by
  rw [recvLoop, h]

theorem recvLoop_pkg {q q' : DataQueue} {s : Slice} (fuel : Nat)
    (h : checkRecvPkt q = some (.pkg s q')) :
    recvLoop (fuel + 1) q = (recvLoop fuel q').push ⟨q, s, q'⟩ := by
  rw [recvLoop, h]

theorem push_eq_done {c : Call} {e : LoopEnd} {calls : List Call} {r : DataQueue}
    (h : e.push c = .done calls r) : ∃ cs, calls = c :: cs ∧ e = .done cs r := by
  cases e with
  | running => cases h
  | fault => cases h
  | done cs q =>
      cases h
      exact ⟨cs, rfl, rfl⟩

theorem toNat_ofNat_of_le {n : Nat} (h : n ≤ capacity) : (UInt64.ofNat n).toNat = n := by
  rw [capacity_eq] at h
  rw [UInt64.toNat_ofNat']
  omega

theorem skip_frame {q : DataQueue} (h : q.used ≤ capacity) {n : Nat} (hn : n ≤ q.used) :
    (q.skip (UInt64.ofNat n)).contents = q.contents.drop n ∧
      (q.skip (UInt64.ofNat n)).used ≤ capacity := by
  have hto := toNat_ofNat_of_le (Nat.le_trans hn h)
  obtain ⟨hc, hu⟩ := DataQueue.contents_skip q (by rw [hto]; exact hn)
  rw [hto] at hc hu
  exact ⟨hc, by omega⟩

theorem frame_call_exact {q : DataQueue} (h : q.used ≤ capacity) {p : Bytes}
    (hfit : 4 + p.length ≤ q.used) (hs : Straight q.bufferTail (4 + p.length)) :
    Call.Exact ⟨q, ⟨q.queueGetReadPtr + 4, UInt64.ofNat p.length⟩,
      q.skip (UInt64.ofNat (4 + p.length))⟩ := by
  have hto := toNat_ofNat_of_le (show p.length ≤ capacity by omega)
  obtain ⟨hend, hcount⟩ := hs
  constructor
  · simp only [hto]
    exact hfit
  · intro i hi
    simp only [hto] at hi
    simp only [DataQueue.queueGetReadPtr_eq]
    have hmod : (q.bufferTail.toNat + (4 + i)) % capacity
        = q.bufferTail.toNat % capacity + (4 + i) := by
      rw [capacity_eq] at *
      omega
    rw [DataQueue.cell_of_lt (by omega), hmod]
    omega
  · simp only [hto]
    exact (skip_frame h hfit).1

theorem recvLoopSafe_of_frames {q : DataQueue} {ps : List Bytes} {rest : Bytes}
    (h : q.used ≤ capacity) (hc : q.contents = frames ps ++ rest)
    (hsize : ∀ p ∈ ps, 0 < p.length ∧ p.length ≤ capacity - 4)
    (hcont : Contiguous q.bufferTail ps) (hrest : PartialFrame (capacity - 4) rest)
    (hwait : 4 < rest.length → HeaderWaits (q.skip (UInt64.ofNat (frames ps).length))) :
    RecvLoopSafe q := by
  induction ps generalizing q with
  | nil =>
      have hq : q.contents = rest := hc
      have hu : q.used = rest.length := by
        rw [← DataQueue.contents_length, hq]
      have hstop : checkRecvPkt q = some .stop := by
        by_cases h4 : 4 < q.used
        · have hw := hwait (by omega)
          rw [frames_nil, List.length_nil, DataQueue.skip_zero] at hw
          exact checkRecvPkt_waits h h4 hw
        · exact checkRecvPkt_short (by omega)
      refine ⟨1, [], q, recvLoop_stop 0 hstop, by simp, ?_⟩
      rw [hq]
      exact hrest
  | cons p ps ih =>
      obtain ⟨hpos, -⟩ := hsize p (List.mem_cons_self ..)
      obtain ⟨hs, hcont⟩ := hcont
      rw [frames_cons, List.append_assoc] at hc
      have hlen := congrArg List.length hc
      rw [DataQueue.contents_length, List.length_append, frame_length] at hlen
      have hstep := checkRecvPkt_frame h hc hpos (hs.mono (Nat.le_add_right 4 _))
      obtain ⟨hc', hu'⟩ := skip_frame h (show 4 + p.length ≤ q.used by omega)
      have hdrop : q.contents.drop (4 + p.length) = frames ps ++ rest := by
        rw [hc, ← frame_length p, List.drop_left]
      obtain ⟨fuel, calls, r, hloop, hcalls, hr⟩ := ih hu' (hc'.trans hdrop)
        (fun p' hp' => hsize p' (List.mem_cons_of_mem _ hp')) hcont (by
          intro h4
          have hw := hwait h4
          rw [frames_cons, List.length_append, frame_length] at hw
          rw [DataQueue.skip_skip]
          exact hw)
      refine ⟨fuel + 1, ⟨q, ⟨q.queueGetReadPtr + 4, UInt64.ofNat p.length⟩,
        q.skip (UInt64.ofNat (4 + p.length))⟩ :: calls, r, ?_, ?_, hr⟩
      · rw [recvLoop_pkg fuel hstep, hloop]
        rfl
      · intro c hmem
        rcases List.mem_cons.mp hmem with rfl | hmem
        · exact frame_call_exact h (by omega) hs
        · exact hcalls c hmem

/-- A counter below `lim` whose cells from the fourth on are consecutive crosses
neither the end of the ring nor its own limit. -/
theorem no_lap {cap lim t m : Nat} (ht : t < lim) (hcap : cap < lim) (hfit : 4 + (m + 1) ≤ cap)
    (h : t % cap + 4 + m = (t + (4 + m)) % lim % cap) :
    t % cap + (4 + (m + 1)) ≤ cap ∧ t + (4 + (m + 1)) ≤ lim := by
  have hlt : (t + (4 + m)) % lim % cap < cap := Nat.mod_lt _ (by omega)
  refine ⟨by omega, ?_⟩
  by_contra hover
  have hw : (t + (4 + m)) % lim = t + (4 + m) - lim := by
    rw [Nat.mod_eq_sub_mod (by omega), Nat.mod_eq_of_lt (by omega)]
  rw [hw, Nat.mod_eq_of_lt (a := t + (4 + m) - lim) (by omega)] at h
  omega

/-- A slice that is unread bytes all the way lies in consecutive cells. -/
theorem straight_of_exact {q : DataQueue} {n : Nat} (h : q.used ≤ capacity) (hpos : 0 < n)
    (hfit : 4 + n ≤ q.used)
    (hslice : ∀ i, i < n → q.queueGetReadPtr + 4 + i = q.cell (4 + i)) :
    Straight q.bufferTail (4 + n) := by
  obtain ⟨m, rfl⟩ : ∃ m, n = m + 1 := ⟨n - 1, by omega⟩
  have hlast := hslice m (Nat.lt_succ_self m)
  rw [DataQueue.queueGetReadPtr_eq, DataQueue.cell_eq] at hlast
  exact no_lap q.bufferTail.toNat_lt (by decide) (Nat.le_trans hfit h) hlast

theorem frames_of_recvLoopSafe {q : DataQueue} {fuel : Nat} {calls : List Call} {r : DataQueue}
    (h : q.used ≤ capacity) (hloop : recvLoop fuel q = .done calls r)
    (hcalls : ∀ c ∈ calls, c.Exact) (hr : PartialFrame (capacity - 4) r.contents) :
    WellFramed q := by
  induction fuel generalizing q calls with
  | zero => cases hloop
  | succ fuel ih =>
      by_cases h4 : 4 < q.used
      · cases hlen : recvPktLen q with
        | none =>
            rw [recvLoop, checkRecvPkt_none h h4 hlen] at hloop
            cases hloop
        | some len =>
            by_cases hgo : 0 < len ∧ 4 + len ≤ q.getQueueDataCount
            · obtain ⟨hpos, hle⟩ := hgo
              rw [recvLoop_pkg fuel (checkRecvPkt_pkg h h4 hlen hpos hle)] at hloop
              obtain ⟨cs, rfl, hcs⟩ := push_eq_done hloop
              obtain ⟨hfit, hslice, -⟩ := hcalls _ (List.mem_cons_self ..)
              obtain ⟨n, hn, hn0, hor⟩ := fits_or_wraps h hpos hle
              have hto : (sizeT len).toNat = n := by
                have hlt : len.toInt < 2 ^ 31 := len.toInt_lt
                rw [toNat_sizeT hn, UInt64.toNat_ofNat']
                omega
              simp only [hto] at hfit hslice
              have hs := straight_of_exact h hn0 hfit hslice
              rw [tailForward_fits h hn hn0 hfit] at hcs
              rw [recvPktLen_straight (by omega) (hs.mono (Nat.le_add_right 4 n))] at hlen
              cases hlen
              have hd := declared_of_toInt hn
              obtain ⟨hc', hu'⟩ := skip_frame h hfit
              obtain ⟨ps, rest, hps, hsize, hcont, hrest, hwait⟩ :=
                ih hu' hcs (fun c hc => hcalls c (List.mem_cons_of_mem _ hc))
              have hfirst :
                  q.contents = frame ((q.contents.drop 4).take n) ++ (frames ps ++ rest) := by
                have hwhole : 4 + declared q.contents ≤ q.contents.length := by
                  rw [hd, DataQueue.contents_length]
                  exact hfit
                have hsplit := eq_frame_append hwhole
                rw [hd, ← hc', hps] at hsplit
                exact hsplit
              have hp : ((q.contents.drop 4).take n).length = n := by
                rw [List.length_take, List.length_drop, DataQueue.contents_length]
                omega
              refine ⟨(q.contents.drop 4).take n :: ps, rest, ?_, ?_, ?_, hrest, ?_⟩
              · rw [frames_cons, List.append_assoc]
                exact hfirst
              · intro p hmem
                rcases List.mem_cons.mp hmem with rfl | hmem
                · omega
                · exact hsize p hmem
              · rw [Contiguous, hp]
                exact ⟨hs, hcont⟩
              · intro hlong
                have hw := hwait hlong
                rw [DataQueue.skip_skip] at hw
                rw [frames_cons, List.length_append, frame_length, hp]
                exact hw
            · have hw : HeaderWaits q := ⟨len, hlen, hgo⟩
              rw [recvLoop_stop fuel (checkRecvPkt_waits h h4 hw)] at hloop
              cases hloop
              refine ⟨[], r.contents, rfl, by simp, trivial, hr, fun _ => ?_⟩
              rw [frames_nil, List.length_nil, DataQueue.skip_zero]
              exact hw
      · rw [recvLoop_stop fuel (checkRecvPkt_short (by omega))] at hloop
        cases hloop
        refine ⟨[], r.contents, rfl, by simp, trivial, hr, fun hlong => ?_⟩
        rw [DataQueue.contents_length] at hlong
        omega

theorem declared_of_wellFramed {q : DataQueue} (h : WellFramed q) (h4 : 4 ≤ q.used) :
    0 < declared q.contents ∧ declared q.contents ≤ capacity - 4 := by
  have hcap := capacity_eq
  rcases h with ⟨ps, rest, hc, hsize, -, hrest, -⟩
  rw [hc]
  cases ps with
  | nil =>
      have hlen : 4 ≤ rest.length := by
        rw [← DataQueue.contents_length, hc] at h4
        exact h4
      obtain ⟨hpos, hle, -⟩ := hrest.lt_declared (by omega) hlen
      exact ⟨hpos, hle⟩
  | cons p ps =>
      have hp := hsize p (List.mem_cons_self ..)
      rw [frames_cons, List.append_assoc, declared_append _ (by simp), declared_frame (by omega)]
      exact hp

/-! ## Reachable queues -/

structure RecvState where
  queue : DataQueue
  parsing : Bool

/-- A failed `recv`, a `recv` of some bytes, and one evaluation of the loop condition. -/
inductive RecvAction where
  | again
  | recv (bs : Bytes)
  | check

def recvStep (s : RecvState) : RecvAction → Option RecvState
  | .again => if s.parsing then none else some { s with parsing := true }
  | .recv bs =>
      if s.parsing = false ∧ 0 < bs.length ∧
          (bs.length : Int) ≤ s.queue.queueGetEndFreeCount.toInt then
        (recvData s.queue bs).map fun q => ⟨q, true⟩
      else none
  | .check =>
      if s.parsing then
        match checkRecvPkt s.queue with
        | none => none
        | some .stop => some { s with parsing := false }
        | some (.pkg _ q) => some { s with queue := q }
      else none

/-- `_callback_recvdata` on one connection, from the queue `calloc` leaves. -/
def recvMachine : Machine RecvState RecvAction where
  init s := s = ⟨DataQueue.empty, false⟩
  step := recvStep

theorem recvData_used_le {q q' : DataQueue} {bs : Bytes} (h : q.used ≤ capacity)
    (hr : recvData q bs = some q') : q'.used ≤ capacity := by
  obtain ⟨q₁, hq₁, rfl⟩ := Option.map_eq_some_iff.mp hr
  have hcount : q₁.used = q.used := by
    unfold DataQueue.copyIn at hq₁
    split at hq₁
    · cases hq₁
      rfl
    · cases hq₁
  exact DataQueue.queueHeadPointForward_used_le (by rw [hcount]; exact h) _

theorem checkRecvPkt_used_le {q q' : DataQueue} {s : Slice} (h : q.used ≤ capacity)
    (hs : checkRecvPkt q = some (.pkg s q')) : q'.used ≤ capacity := by
  by_cases h4 : 4 < q.used
  · cases hlen : recvPktLen q with
    | none =>
        rw [checkRecvPkt_none h h4 hlen] at hs
        cases hs
    | some len =>
        by_cases hgo : 0 < len ∧ 4 + len ≤ q.getQueueDataCount
        · rw [checkRecvPkt_pkg h h4 hlen hgo.1 hgo.2] at hs
          cases hs
          exact DataQueue.queueTailPointForward_used_le h _
        · rw [checkRecvPkt_waits h h4 ⟨len, hlen, hgo⟩] at hs
          cases hs
  · rw [checkRecvPkt_short (by omega)] at hs
    cases hs

theorem recvMachine_start : recvMachine.Reachable ⟨DataQueue.empty, false⟩ := .start rfl

/-- At most a full ring is unread, however many bytes have passed. -/
theorem reachable_used_le {s : RecvState} (h : recvMachine.Reachable s) :
    s.queue.used ≤ capacity := by
  refine Machine.Run.invariant (P := fun s => s.queue.used ≤ capacity) ?_ ?_ h
  · rintro s rfl
    exact Nat.zero_le _
  · intro s a t hs _ hstep
    cases a with
    | again =>
        simp only [recvMachine, recvStep] at hstep
        split at hstep
        · cases hstep
        · cases hstep
          exact hs
    | recv bs =>
        simp only [recvMachine, recvStep] at hstep
        split at hstep
        · obtain ⟨q, hq, rfl⟩ := Option.map_eq_some_iff.mp hstep
          exact recvData_used_le hs hq
        · cases hstep
    | check =>
        simp only [recvMachine, recvStep] at hstep
        split at hstep
        · cases hc : checkRecvPkt s.queue with
          | none =>
              rw [hc] at hstep
              cases hstep
          | some r =>
              rw [hc] at hstep
              cases r with
              | stop =>
                  cases hstep
                  exact hs
              | pkg slice q =>
                  cases hstep
                  exact checkRecvPkt_used_le hs hc
        · cases hstep

/-- The loop is safe exactly on frames of legal length that do not meet the physical end. -/
theorem recvLoop_safe_iff {s : RecvState} (h : recvMachine.Reachable s) :
    RecvLoopSafe s.queue ↔ WellFramed s.queue := by
  have hu := reachable_used_le h
  constructor
  · rintro ⟨fuel, calls, r, hloop, hcalls, hr⟩
    exact frames_of_recvLoopSafe hu hloop hcalls hr
  · rintro ⟨ps, rest, hc, hsize, hcont, hrest, hwait⟩
    exact recvLoopSafe_of_frames hu hc hsize hcont hrest hwait

/-- Two `recv`s cut a stream of three frames: the first frame has been handed out, the second is
there whole, of the third all but two bytes. -/
def cutFrames : List RecvAction :=
  [.recv [0, 0, 0, 3, 1, 2, 3, 0, 0, 0], .check, .check, .again, .check,
    .recv [1, 9, 0, 0, 0, 2, 7, 8, 0, 0, 0, 4, 5, 6]]

theorem recvLoop_safe_cutFrames : ∃ s, recvMachine.Reachable s ∧
    s.queue.contents = frames [[9], [7, 8]] ++ [0, 0, 0, 4, 5, 6] ∧
    RecvLoopSafe s.queue ∧ WellFramed s.queue := by
  obtain ⟨s, hs, hview⟩ := Option.map_eq_some_iff.mp (by decide +kernel :
    (recvMachine.exec ⟨DataQueue.empty, false⟩ cutFrames).map (fun s =>
      (s.queue.contents, s.queue.bufferTail, recvPktLen (s.queue.skip 11),
        (s.queue.skip 11).getQueueDataCount)) =
      some (frames [[9], [7, 8]] ++ [0, 0, 0, 4, 5, 6], 7, some 4, 6))
  simp only [Prod.mk.injEq] at hview
  obtain ⟨hc, htail, hlen, hcount⟩ := hview
  have hreach := recvMachine_start.exec hs
  have hframed : WellFramed s.queue := by
    refine ⟨[[9], [7, 8]], [0, 0, 0, 4, 5, 6], hc, by decide, ?_, ?_, fun _ => ?_⟩
    · rw [htail]
      exact ⟨⟨by decide, by decide⟩, ⟨by decide, by decide⟩, trivial⟩
    · exact ⟨[5, 6, 0, 0], by decide, by decide, ⟨[0, 0], rfl⟩, by decide⟩
    · refine ⟨4, hlen, ?_⟩
      rw [show UInt64.ofNat (frames [[9], [7, 8]]).length = 11 from rfl, hcount]
      decide
  exact ⟨s, hreach, hc, (recvLoop_safe_iff hreach).mpr hframed, hframed⟩

/-- Bytes that fit before the physical end of the fresh ring reach the loop. -/
theorem reachable_received {bs : Bytes} (hpos : 0 < bs.length) (hle : bs.length ≤ capacity) :
    ∃ s, recvMachine.Reachable s ∧ s.queue.WellFormed ∧ s.queue.contents = bs := by
  have hcap := capacity_eq
  have hfree : DataQueue.empty.free = 10485760 := by decide
  have hhead : DataQueue.empty.bufferHead.toNat = 0 := rfl
  have hroom : (bs.length : Int) ≤ DataQueue.empty.queueGetEndFreeCount.toInt := by
    rw [DataQueue.queueGetEndFreeCount_toInt (by omega), hfree, hhead, Nat.zero_mod]
    omega
  obtain ⟨q, hq, hwf, hc, -, -⟩ := DataQueue.direct_write DataQueue.empty_wellFormed bs
    (by rw [hhead, Nat.zero_mod]; omega) (by omega) (by omega)
  refine ⟨⟨_, true⟩, .next (a := .recv bs) recvMachine_start trivial ?_, hwf, hc⟩
  simp only [recvMachine, recvStep, recvData, hq, hpos, hroom]
  rfl

/-- A zero length leaves the connection open and wedged; a length just below `2 ^ 31`
makes `4 + pkt_len` negative. -/
theorem recvLoop_hostile :
    (∃ s, recvMachine.Reachable s ∧ s.queue.contents = [0, 0, 0, 0, 1] ∧
      ¬RecvLoopSafe s.queue) ∧
    (∃ s, recvMachine.Reachable s ∧ s.queue.contents = [0x7f, 0xff, 0xff, 0xff, 0] ∧
      ¬RecvLoopSafe s.queue) := by
  have hbad : ∀ bs : Bytes, 4 ≤ bs.length → bs.length ≤ capacity →
      ¬(0 < declared bs ∧ declared bs ≤ capacity - 4) →
      ∃ s, recvMachine.Reachable s ∧ s.queue.contents = bs ∧ ¬RecvLoopSafe s.queue := by
    intro bs h4 hle hno
    obtain ⟨s, hs, hwf, hc⟩ := reachable_received (by omega) hle
    refine ⟨s, hs, hc, ?_⟩
    rintro ⟨fuel, calls, r, hloop, hcalls, hr⟩
    have hframed := frames_of_recvLoopSafe (reachable_used_le hs) hloop hcalls hr
    have hd := declared_of_wellFramed hframed (by rw [← DataQueue.contents_length, hc]; exact h4)
    rw [hc] at hd
    exact hno hd
  exact ⟨hbad _ (by decide) (by decide) (by decide),
    hbad _ (by decide) (by decide) (by decide)⟩

end Hprd.Net
