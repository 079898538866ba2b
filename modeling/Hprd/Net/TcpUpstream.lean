import Hprd.Net.TcpClient
import Hprd.Net.TcpRecv

/-!
# From the client's packets to `server_on_pkg`

One connection: the wire holds what `_tcp_send_pkt` wrote, and each readiness of
the socket runs `_callback_recvdata` on as many of its bytes as the kernel hands
over. A packet arrives as sent exactly where its frame does not meet the physical
end of `recv_queue`.
-/

namespace Hprd.Net

open Hprd.Core Common

/-! ## The connection -/

/-- A `recv` that fails, or one that returns at most `n + 1` bytes. -/
inductive Cut where
  | again
  | upTo (n : Nat)

inductive Conn where
  | opened (q : DataQueue)
  | removed
  | running
  | fault

/-- The server's end, the packets it was called with and the bytes still in the kernel. -/
structure Upstream where
  conn : Conn
  calls : List (Option Bytes)
  stream : Bytes

/-- The bytes `server_on_pkg` finds behind its pointer. -/
def Call.payload (c : Call) : Option Bytes := c.before.copyOut c.slice.start c.slice.len.toNat

def Upstream.start (wire : Bytes) : Upstream := ⟨.opened DataQueue.empty, [], wire⟩

def Upstream.parse (fuel : Nat) (u : Upstream) (q : DataQueue) : Upstream :=
  match recvLoop fuel q with
  | .running => { u with conn := .running }
  | .fault => { u with conn := .fault }
  | .done calls r =>
      { u with conn := .opened r, calls := u.calls ++ calls.map Call.payload }

/-- `_callback_recvdata`; a `recv` of no bytes at all returns 0 and removes the client. -/
def callbackRecvdata (fuel : Nat) (u : Upstream) (cut : Cut) : Upstream :=
  match u.conn, cut with
  | .opened q, .again => u.parse fuel q
  | .opened q, .upTo n =>
      let asked := q.queueGetEndFreeCount.toInt.toNat
      let got := u.stream.take (min (n + 1) asked)
      if asked = 0 then { u with conn := .removed }
      else if got = [] then u.parse fuel q
      else
        match recvData q got with
        | none => { u with conn := .fault }
        | some q => { u with stream := u.stream.drop got.length }.parse fuel q
  | _, _ => u

def Upstream.run (fuel : Nat) (u : Upstream) (cuts : List Cut) : Upstream :=
  cuts.foldl (callbackRecvdata fuel) u

/-- However the client's sends and the server's reads are cut, the connection stays open,
the calls are the first packets in order, and all of them once the wire is empty. -/
def Lossless (packets : List Bytes) : Prop :=
  ∀ results wire, tcpSendPkts packets results = some wire →
    ∀ fuel, capacity ≤ fuel → ∀ cuts, ∃ q,
      ((Upstream.start wire).run fuel cuts).conn = .opened q ∧
      ((Upstream.start wire).run fuel cuts).calls <+: packets.map some ∧
      (((Upstream.start wire).run fuel cuts).stream = [] →
        ((Upstream.start wire).run fuel cuts).calls = packets.map some)

/-! ## Frames in the ring -/

/-- The ring and the wire together hold the frames of `ps`. -/
structure Flow (q : DataQueue) (stream : Bytes) (ps : List Bytes) : Prop where
  wf : q.WellFormed
  bytes : q.contents ++ stream = frames ps
  size : ∀ p ∈ ps, 0 < p.length ∧ p.length ≤ bufLen

/-- Of the first frame only a proper prefix is in the ring. -/
def Parked (q : DataQueue) (ps : List Bytes) : Prop := ∀ p ∈ ps.head?, q.used < 4 + p.length

theorem partial_of_parked {q : DataQueue} {stream : Bytes} {ps : List Bytes}
    (hf : Flow q stream ps) (hp : Parked q ps) : PartialFrame (capacity - 4) q.contents := by
  cases ps with
  | nil =>
      have hnil : q.contents = [] := (List.append_eq_nil_iff.mp hf.bytes).1
      rw [hnil]
      exact partialFrame_nil (by decide)
  | cons p ps =>
      have hlt := hp p rfl
      rcases hf.size p (List.mem_cons_self ..) with ⟨hpos, hmax⟩
      have hle : p.length ≤ capacity - 4 := Nat.le_trans hmax (by decide)
      refine ⟨p, hpos, hle, ?_, ?_⟩
      · have hq : q.contents <+: frames (p :: ps) := ⟨stream, hf.bytes⟩
        have hfr : frame p <+: frames (p :: ps) := ⟨frames ps, rfl⟩
        apply List.prefix_of_prefix_length_le hq hfr
        rw [DataQueue.contents_length, frame_length]
        omega
      · intro he
        have := congrArg List.length he
        rw [DataQueue.contents_length, frame_length] at this
        omega

/-- The loop waits on a proper prefix whose header it can read. -/
theorem recvLoop_parked {q : DataQueue} {stream : Bytes} {ps : List Bytes} (fuel : Nat)
    (hf : Flow q stream ps) (hp : Parked q ps) (hs : 4 < q.used → Straight q.bufferTail 4) :
    recvLoop (fuel + 1) q = .done [] q := by
  have hu := DataQueue.used_le_capacity hf.wf
  apply recvLoop_stop
  by_cases h4 : 4 < q.used
  · exact checkRecvPkt_waits hu h4
      (headerWaits_of_short hu (by omega) (hs h4) (partial_of_parked hf hp))
  · exact checkRecvPkt_short (by omega)

theorem first_frame {q : DataQueue} {stream p : Bytes} {ps : List Bytes}
    (hf : Flow q stream (p :: ps)) (hfit : 4 + p.length ≤ q.used) :
    q.contents = frame p ++ q.contents.drop (4 + p.length) := by
  have hpre : frame p <+: q.contents := by
    have hq : q.contents <+: frames (p :: ps) := ⟨stream, hf.bytes⟩
    have hfr : frame p <+: frames (p :: ps) := ⟨frames ps, rfl⟩
    apply List.prefix_of_prefix_length_le hfr hq
    rw [DataQueue.contents_length, frame_length]
    exact hfit
  rcases hpre with ⟨rest, hrest⟩
  rw [← hrest, ← frame_length p, List.drop_left]

theorem Flow.skip {q : DataQueue} {stream p : Bytes} {ps : List Bytes}
    (hf : Flow q stream (p :: ps)) (hfit : 4 + p.length ≤ q.used) :
    Flow (q.skip (UInt64.ofNat (4 + p.length))) stream ps := by
  have hu := DataQueue.used_le_capacity hf.wf
  have hto := toNat_ofNat_of_le (Nat.le_trans hfit hu)
  have hfirst := first_frame hf hfit
  refine ⟨(DataQueue.wellFormed_skip hf.wf (by omega)).1, ?_, ?_⟩
  · have hb := hf.bytes
    rw [hfirst, frames_cons, List.append_assoc] at hb
    rw [(skip_frame hu hfit).1]
    exact List.append_cancel_left hb
  · exact fun p' hp' => hf.size p' (List.mem_cons_of_mem _ hp')

theorem payload_frame {q : DataQueue} {stream p : Bytes} {ps : List Bytes} {q' : DataQueue}
    (hf : Flow q stream (p :: ps)) (hfit : 4 + p.length ≤ q.used)
    (hend : q.bufferTail.toNat % capacity + (4 + p.length) ≤ capacity) :
    Call.payload ⟨q, ⟨q.queueGetReadPtr + 4, UInt64.ofNat p.length⟩, q'⟩ = some p := by
  have hu := DataQueue.used_le_capacity hf.wf
  have hto := toNat_ofNat_of_le (show p.length ≤ capacity by omega)
  have hfirst := first_frame hf hfit
  have hread := DataQueue.direct_read hfit ⟨hend, by
    have := hf.wf.ordered
    have := DataQueue.used_eq hf.wf
    have := q.bufferHead.toNat_lt
    omega⟩
  have hread' : Ring.block q.bufferQueue q.queueGetReadPtr (4 + p.length) = frame p := by
    rw [DataQueue.queueGetReadPtr_eq] at hread ⊢
    rw [DataQueue.copyOut_eq hend] at hread
    rw [Option.some.inj hread, hfirst, ← frame_length p, List.take_left]
  have hdrop : Ring.block q.bufferQueue (q.queueGetReadPtr + 4) p.length = p := by
    have := congrArg (List.drop 4) hread'
    rw [frame_drop, Ring.block_drop] at this
    exact this
  show q.copyOut (q.queueGetReadPtr + 4) (UInt64.ofNat p.length).toNat = some p
  rw [hto, DataQueue.copyOut_eq, hdrop]
  rw [DataQueue.queueGetReadPtr_eq]
  omega

/-! ## Frames that stay before the physical end -/

/-- The loop hands out the whole frames in the ring and parks on the next one. -/
theorem recvLoop_flow {q : DataQueue} {stream : Bytes} {ps : List Bytes} {fuel : Nat}
    (hf : Flow q stream ps) (hcont : Contiguous q.bufferTail ps) (hfuel : q.used < 5 * fuel) :
    ∃ calls r now later, ps = now ++ later ∧ recvLoop fuel q = .done calls r ∧
      calls.map Call.payload = now.map some ∧ Flow r stream later ∧
      Contiguous r.bufferTail later ∧ Parked r later ∧ r.bufferHead = q.bufferHead := by
  obtain ⟨fuel, rfl⟩ : ∃ n, fuel = n + 1 := ⟨fuel - 1, by omega⟩
  induction ps generalizing q fuel with
  | nil =>
      have hp : Parked q [] := by simp [Parked]
      have hnil : q.contents = [] := (List.append_eq_nil_iff.mp hf.bytes).1
      have hu : q.used = 0 := by
        rw [← DataQueue.contents_length, hnil]
        rfl
      exact ⟨[], q, [], [], rfl, recvLoop_parked fuel hf hp (by omega), rfl, hf, trivial, hp, rfl⟩
  | cons p ps ih =>
      rcases hcont with ⟨hs, hcont⟩
      by_cases hfit : 4 + p.length ≤ q.used
      · have hpos := (hf.size p (List.mem_cons_self ..)).1
        have hu := DataQueue.used_le_capacity hf.wf
        have hused := (DataQueue.contents_skip q
          (by rw [toNat_ofNat_of_le (Nat.le_trans hfit hu)]; exact hfit)).2
        rw [toNat_ofNat_of_le (Nat.le_trans hfit hu)] at hused
        have hstep := checkRecvPkt_frame hu (first_frame hf hfit) hpos
          (hs.mono (Nat.le_add_right 4 _))
        obtain ⟨fuel, rfl⟩ : ∃ n, fuel = n + 1 := ⟨fuel - 1, by omega⟩
        obtain ⟨calls, r, now, later, hps, hloop, hcalls, hr, hc, hp, hh⟩ :=
          ih (hf.skip hfit) hcont fuel (by omega)
        refine ⟨⟨q, ⟨q.queueGetReadPtr + 4, UInt64.ofNat p.length⟩,
          q.skip (UInt64.ofNat (4 + p.length))⟩ :: calls, r, p :: now, later, ?_, ?_, ?_, hr, hc,
          hp, hh⟩
        · rw [hps, List.cons_append]
        · rw [recvLoop_pkg (fuel + 1) hstep, hloop]
          rfl
        · rw [List.map_cons, List.map_cons, hcalls, payload_frame hf hfit hs.1]
      · have hp : Parked q (p :: ps) := by
          intro p' hp'
          cases hp'
          omega
        have hloop := recvLoop_parked fuel hf hp fun _ => hs.mono (Nat.le_add_right 4 _)
        exact ⟨[], q, [], p :: ps, rfl, hloop, rfl, hf, ⟨hs, hcont⟩, hp, rfl⟩

/-- The packets called so far, the frame the ring has begun and the rest on the wire. -/
def Steady (packets : List Bytes) (u : Upstream) : Prop :=
  ∃ q past rest, u.conn = .opened q ∧ packets = past ++ rest ∧ u.calls = past.map some ∧
    Flow q u.stream rest ∧ Contiguous q.bufferTail rest ∧ Parked q rest ∧
    q.bufferHead.toNat + u.stream.length = (frames packets).length

theorem steady_parse {packets past rest : List Bytes} {u : Upstream} {q : DataQueue} {fuel : Nat}
    (hfuel : capacity ≤ fuel) (hp : packets = past ++ rest) (hcalls : u.calls = past.map some)
    (hf : Flow q u.stream rest) (hcont : Contiguous q.bufferTail rest)
    (hcount : q.bufferHead.toNat + u.stream.length = (frames packets).length) :
    Steady packets (u.parse fuel q) := by
  have hcap := capacity_eq
  have hu := DataQueue.used_le_capacity hf.wf
  obtain ⟨calls, r, now, later, hrest, hloop, hnow, hr, hc, hpark, hh⟩ :=
    recvLoop_flow hf hcont (show q.used < 5 * fuel by omega)
  rw [Upstream.parse, hloop]
  refine ⟨r, past ++ now, later, rfl, ?_, ?_, hr, hc, hpark, ?_⟩
  · rw [hp, hrest, List.append_assoc]
  · show u.calls ++ calls.map Call.payload = _
    rw [hcalls, hnow, List.map_append]
  · rw [hh]
    exact hcount

theorem frames_length_le (p : Bytes) (ps : List Bytes) : 4 + p.length ≤ (frames (p :: ps)).length := by
  rw [frames_cons, List.length_append, frame_length]
  omega

theorem flow_recvData {q : DataQueue} {stream : Bytes} {ps : List Bytes} {k : Nat}
    (hf : Flow q stream ps) (hk : k ≤ stream.length) (hfree : k ≤ q.free)
    (hend : q.bufferHead.toNat % capacity + k ≤ capacity)
    (hcount : q.bufferHead.toNat + k < 2 ^ 64) :
    ∃ q', recvData q (stream.take k) = some q' ∧ Flow q' (stream.drop k) ps ∧
      q'.contents = q.contents ++ stream.take k ∧ q'.bufferTail = q.bufferTail ∧
      q'.bufferHead.toNat = q.bufferHead.toNat + k := by
  have hlen : (stream.take k).length = k := by
    rw [List.length_take]
    omega
  obtain ⟨q₁, hq₁, hwf, hc, hh, ht⟩ := DataQueue.direct_write hf.wf (stream.take k)
    (by rw [hlen]; exact hend) (by omega) (by omega)
  refine ⟨_, ?_, ⟨hwf, ?_, hf.size⟩, hc, ht, hh.trans (by rw [hlen])⟩
  · rw [recvData, hq₁]
    rfl
  · rw [hc, List.append_assoc, List.take_append_drop]
    exact hf.bytes

theorem endFree_toNat {q : DataQueue} (h : q.used ≤ capacity) :
    q.queueGetEndFreeCount.toInt.toNat =
      min (capacity - q.used) (capacity - q.bufferHead.toNat % capacity) := by
  have hcap := capacity_eq
  have hfree := DataQueue.free_eq h
  rw [DataQueue.queueGetEndFreeCount_toInt (by omega), hfree]
  omega

theorem steady_step {packets : List Bytes} {u : Upstream} {fuel : Nat} (cut : Cut)
    (hfuel : capacity ≤ fuel) (htotal : (frames packets).length < 2 ^ 64)
    (h : Steady packets u) : Steady packets (callbackRecvdata fuel u cut) := by
  rcases h with ⟨q, past, rest, hq, hp, hcalls, hf, hcont, hpark, hcount⟩
  have hagain : Steady packets (u.parse fuel q) :=
    steady_parse hfuel hp hcalls hf hcont hcount
  cases cut with
  | again =>
      unfold callbackRecvdata
      rw [hq]
      exact hagain
  | upTo n =>
      have hu := DataQueue.used_le_capacity hf.wf
      have hfree := DataQueue.free_eq hu
      have hmod : q.bufferHead.toNat % capacity < capacity := Nat.mod_lt _ (by decide)
      unfold callbackRecvdata
      rw [hq]
      dsimp only
      rw [endFree_toNat hu]
      generalize hasked : min (capacity - q.used) (capacity - q.bufferHead.toNat % capacity) = asked
      by_cases hnil : u.stream = []
      · have hroom : asked ≠ 0 := by
          -- Without bytes on the wire the ring holds less than one frame.
          cases rest with
          | nil =>
              have hempty := (List.append_eq_nil_iff.mp hf.bytes).1
              have hzero : q.used = 0 := by
                rw [← DataQueue.contents_length, hempty]
                rfl
              have hcap := capacity_eq
              omega
          | cons p ps =>
              have hlt := hpark p rfl
              have hmax := (hf.size p (List.mem_cons_self ..)).2
              have hcap := capacity_eq
              have hbuf := bufLen_eq
              omega
        rw [if_neg hroom, hnil, List.take_nil, if_pos rfl]
        exact hagain
      · have hroom : asked ≠ 0 := by
          cases rest with
          | nil => exact absurd (List.append_eq_nil_iff.mp hf.bytes).2 hnil
          | cons p ps =>
              have hlt := hpark p rfl
              have hmax := (hf.size p (List.mem_cons_self ..)).2
              have hcap := capacity_eq
              have hbuf := bufLen_eq
              omega
        have hpos : 0 < u.stream.length := List.length_pos_iff.mpr hnil
        generalize hk : min (min (n + 1) asked) u.stream.length = k
        have htake : u.stream.take (min (n + 1) asked) = u.stream.take k := by
          rw [← hk, List.take_eq_take_iff]
          omega
        have hlen : (u.stream.take k).length = k := by
          rw [List.length_take]
          omega
        have hsome : u.stream.take k ≠ [] := by
          intro he
          rw [he] at hlen
          simp at hlen
          omega
        obtain ⟨q', hr, hf', -, ht, hh⟩ :=
          flow_recvData hf (show k ≤ u.stream.length by omega) (by omega) (by omega) (by omega)
        rw [if_neg hroom, htake, if_neg hsome, hr, hlen]
        refine steady_parse hfuel hp hcalls hf' (by rw [ht]; exact hcont) ?_
        show q'.bufferHead.toNat + (u.stream.drop k).length = _
        rw [List.length_drop]
        omega

theorem steady_run {packets : List Bytes} {u : Upstream} {fuel : Nat} (cuts : List Cut)
    (hfuel : capacity ≤ fuel) (htotal : (frames packets).length < 2 ^ 64)
    (h : Steady packets u) : Steady packets (u.run fuel cuts) := by
  induction cuts generalizing u with
  | nil => exact h
  | cons cut cuts ih => exact ih (steady_step cut hfuel htotal h)

theorem lossless_of_contiguous {packets : List Bytes}
    (hsize : ∀ p ∈ packets, 0 < p.length ∧ p.length ≤ bufLen)
    (htotal : (frames packets).length < 2 ^ 64) (hcont : Contiguous 0 packets) :
    Lossless packets := by
  intro results wire hwire fuel hfuel cuts
  have hw := tcpSendPkts_wire hwire
  have hempty : DataQueue.empty.contents = [] := rfl
  have hstart : Steady packets (Upstream.start wire) := by
    refine ⟨DataQueue.empty, [], packets, rfl, rfl, rfl, ⟨DataQueue.empty_wellFormed, ?_, hsize⟩,
      hcont, ?_, ?_⟩
    · rw [hempty, hw]
      rfl
    · intro p hp
      show 0 < 4 + p.length
      omega
    · show 0 + wire.length = _
      rw [hw, Nat.zero_add]
  rcases steady_run cuts hfuel htotal hstart with ⟨q, past, rest, hq, hp, hcalls, hf, -, hpark, -⟩
  refine ⟨q, hq, ?_, ?_⟩
  · rw [hcalls, hp, List.map_append]
    exact List.prefix_append ..
  · intro hnil
    have hrest : rest = [] := by
      cases rest with
      | nil => rfl
      | cons p ps =>
          have hlt := hpark p rfl
          have hb := congrArg List.length hf.bytes
          rw [hnil, List.append_nil, DataQueue.contents_length] at hb
          have := frames_length_le p ps
          omega
    rw [hcalls, hp, hrest, List.append_nil]

/-! ## Frames that meet the physical end -/

theorem contiguous_append (c : UInt64) (ps qs : List Bytes) :
    Contiguous c (ps ++ qs) ↔
      Contiguous c ps ∧ Contiguous (c + UInt64.ofNat (frames ps).length) qs := by
  induction ps generalizing c with
  | nil => simp [Contiguous]
  | cons p ps ih =>
      have hsum : c + UInt64.ofNat (frames (p :: ps)).length
          = c + UInt64.ofNat (4 + p.length) + UInt64.ofNat (frames ps).length := by
        rw [frames_cons, List.length_append, frame_length, UInt64.ofNat_add (4 + p.length),
          UInt64.add_assoc]
      rw [List.cons_append, Contiguous, Contiguous, ih, hsum, and_assoc]

theorem feed_byte {u : Upstream} {q : DataQueue} {ps : List Bytes} (fuel : Nat)
    (hq : u.conn = .opened q) (hf : Flow q u.stream ps) (hroom : q.used < capacity)
    (hpos : 0 < u.stream.length) (hcount : q.bufferHead.toNat + 1 < 2 ^ 64) :
    ∃ q', callbackRecvdata fuel u (.upTo 0) =
        { u with stream := u.stream.drop 1 }.parse fuel q' ∧
      Flow q' (u.stream.drop 1) ps ∧ q'.used = q.used + 1 ∧
      q'.bufferTail = q.bufferTail ∧ q'.bufferHead.toNat = q.bufferHead.toNat + 1 := by
  have hu := DataQueue.used_le_capacity hf.wf
  have hfree := DataQueue.free_eq hu
  have hmod : q.bufferHead.toNat % capacity < capacity := Nat.mod_lt _ (by decide)
  obtain ⟨q', hr, hf', hc, ht, hh⟩ := flow_recvData hf hpos (by omega) hmod hcount
  have hlen : (u.stream.take 1).length = 1 := by
    rw [List.length_take]
    omega
  have hused := congrArg List.length hc
  rw [List.length_append, DataQueue.contents_length, DataQueue.contents_length, hlen] at hused
  refine ⟨q', ?_, hf', hused, ht, hh⟩
  have hasked : ¬min (capacity - q.used) (capacity - q.bufferHead.toNat % capacity) = 0 := by
    omega
  have hone :
      min (0 + 1) (min (capacity - q.used) (capacity - q.bufferHead.toNat % capacity)) = 1 := by
    omega
  have hsome : u.stream.take 1 ≠ [] := by
    intro he
    rw [he] at hlen
    simp at hlen
  unfold callbackRecvdata
  rw [hq]
  dsimp only
  rw [endFree_toNat hu, if_neg hasked, hone, if_neg hsome, hr, hlen]

theorem run_replicate_succ (fuel : Nat) (u : Upstream) (k : Nat) (cut : Cut) :
    u.run fuel (List.replicate (k + 1) cut) =
      callbackRecvdata fuel (u.run fuel (List.replicate k cut)) cut := by
  simp only [Upstream.run, List.replicate_succ', List.foldl_append, List.foldl_cons,
    List.foldl_nil]

/-- Byte by byte, the loop waits for the rest of a frame whose header it can read. -/
theorem feed_parked {u : Upstream} {q : DataQueue} {p : Bytes} {ps : List Bytes} {k : Nat}
    (fuel : Nat) (hq : u.conn = .opened q) (hf : Flow q u.stream (p :: ps)) (hu : q.used = 0)
    (hk : k < 4 + p.length) (hs : 4 < k → Straight q.bufferTail 4)
    (hcount : q.bufferHead.toNat + k < 2 ^ 64) :
    ∃ q', u.run (fuel + 1) (List.replicate k (.upTo 0)) =
        ⟨.opened q', u.calls, u.stream.drop k⟩ ∧
      Flow q' (u.stream.drop k) (p :: ps) ∧ q'.used = k ∧ q'.bufferTail = q.bufferTail ∧
      q'.bufferHead.toNat = q.bufferHead.toNat + k := by
  induction k with
  | zero =>
      refine ⟨q, ?_, hf, hu, rfl, (Nat.add_zero _).symm⟩
      rw [← hq]
      rfl
  | succ k ih =>
      obtain ⟨q₁, hrun, hf₁, hu₁, ht₁, hh₁⟩ := ih (by omega) (fun h => hs (by omega)) (by omega)
      have hmax := (hf.size p (List.mem_cons_self ..)).2
      have hcap := capacity_eq
      have hbuf := bufLen_eq
      have hlen := congrArg List.length hf₁.bytes
      rw [List.length_append, DataQueue.contents_length] at hlen
      have hfr := frames_length_le p ps
      obtain ⟨q₂, hstep, hf₂, hu₂, ht₂, hh₂⟩ := feed_byte (fuel + 1)
        (u := ⟨.opened q₁, u.calls, u.stream.drop k⟩) rfl hf₁ (by omega)
        (by show 0 < (u.stream.drop k).length; omega) (by omega)
      have hpark : Parked q₂ (p :: ps) := by
        intro p' hp'
        cases hp'
        omega
      have hloop := recvLoop_parked fuel hf₂ hpark
        (fun h4 => by rw [ht₂, ht₁]; exact hs (by omega))
      simp only [List.drop_drop] at hf₂
      refine ⟨q₂, ?_, hf₂, by omega, ht₂.trans ht₁, by omega⟩
      rw [run_replicate_succ, hrun, hstep, Upstream.parse, hloop]
      simp [List.drop_drop]

theorem recvLoop_fault {q : DataQueue} (fuel : Nat) (hu : q.used ≤ capacity) (h4 : 4 < q.used)
    (hend : capacity < q.bufferTail.toNat % capacity + 4) : recvLoop (fuel + 1) q = .fault := by
  have hnone : recvPktLen q = none := by
    rw [recvPktLen, DataQueue.queueGetReadPtr_eq, DataQueue.copyOut_none hend]
    rfl
  rw [recvLoop, checkRecvPkt_none hu h4 hnone]

theorem recvLoop_last {q : DataQueue} {stream p : Bytes} {ps : List Bytes} (fuel : Nat)
    (hf : Flow q stream (p :: ps)) (hu : q.used = 4 + p.length) (hs : Straight q.bufferTail 4) :
    ∃ c r, recvLoop (fuel + 2) q = .done [c] r ∧
      (∀ bs, c.payload = some bs → q.bufferTail.toNat % capacity + (4 + p.length) ≤ capacity) ∧
      Flow r stream ps ∧ r.used = 0 ∧ r = q.skip (UInt64.ofNat (4 + p.length)) := by
  have hcap := DataQueue.used_le_capacity hf.wf
  have hfit : 4 + p.length ≤ q.used := by omega
  have hto := toNat_ofNat_of_le (Nat.le_trans hfit hcap)
  have hpos := (hf.size p (List.mem_cons_self ..)).1
  have hstep := checkRecvPkt_frame hcap (first_frame hf hfit) hpos hs
  have hused := (DataQueue.contents_skip q (by rw [hto]; exact hfit)).2
  rw [hto] at hused
  have hstop := checkRecvPkt_short (q := q.skip (UInt64.ofNat (4 + p.length))) (by omega)
  refine ⟨⟨q, ⟨q.queueGetReadPtr + 4, UInt64.ofNat p.length⟩,
    q.skip (UInt64.ofNat (4 + p.length))⟩, _, ?_, ?_, hf.skip hfit, by omega, rfl⟩
  · rw [recvLoop_pkg (fuel + 1) hstep, recvLoop_stop fuel hstop]
    rfl
  · intro bs hbs
    have hin : q.queueGetReadPtr + 4 + (UInt64.ofNat p.length).toNat ≤ capacity :=
      (DataQueue.copyOut_length hbs).2
    rw [toNat_ofNat_of_le (show p.length ≤ capacity by omega), DataQueue.queueGetReadPtr_eq] at hin
    omega

theorem frames_cons_drop (p : Bytes) (ps : List Bytes) :
    (frames (p :: ps)).drop (3 + p.length + 1) = frames ps := by
  have hlen : 3 + p.length + 1 = (frame p).length := by
    rw [frame_length]
    omega
  rw [frames_cons, hlen, List.drop_left]

/-- A frame with a readable header is handed out when its last byte arrives. -/
theorem feed_frame {q : DataQueue} {p : Bytes} {ps : List Bytes} (fuel : Nat)
    (calls : List (Option Bytes)) (hf : Flow q (frames (p :: ps)) (p :: ps)) (hu : q.used = 0)
    (hs : Straight q.bufferTail 4) (hcount : q.bufferHead.toNat + (4 + p.length) < 2 ^ 64) :
    ∃ (c : Call) (r : DataQueue), Upstream.run (fuel + 2) ⟨.opened q, calls, frames (p :: ps)⟩
        (List.replicate (3 + p.length + 1) (.upTo 0)) =
          ⟨.opened r, calls ++ [c.payload], frames ps⟩ ∧
      (∀ bs, c.payload = some bs → q.bufferTail.toNat % capacity + (4 + p.length) ≤ capacity) ∧
      Flow r (frames ps) ps ∧ r.used = 0 ∧
      r.bufferTail = q.bufferTail + UInt64.ofNat (4 + p.length) ∧
      r.bufferHead.toNat = q.bufferHead.toNat + (4 + p.length) := by
  have hle := frames_length_le p ps
  obtain ⟨q₁, hrun₁, hf₁, hu₁, ht₁, hh₁⟩ := feed_parked (k := 3 + p.length) (fuel + 1)
    (u := ⟨.opened q, calls, frames (p :: ps)⟩) rfl hf hu (by omega) (fun _ => hs) (by omega)
  dsimp only at hrun₁ hf₁
  have hmax := (hf.size p (List.mem_cons_self ..)).2
  have hcap := capacity_eq
  have hbuf := bufLen_eq
  have hrest : 0 < ((frames (p :: ps)).drop (3 + p.length)).length := by
    rw [List.length_drop]
    omega
  obtain ⟨q₂, hstep, hf₂, hu₂, ht₂, hh₂⟩ := feed_byte (fuel + 2)
    (u := ⟨.opened q₁, calls, (frames (p :: ps)).drop (3 + p.length)⟩) rfl hf₁ (by omega) hrest
    (by omega)
  dsimp only at hstep hf₂
  obtain ⟨c, r, hloop, hpay, hfr, hur, rfl⟩ := recvLoop_last fuel hf₂ (by omega)
    (by rw [ht₂, ht₁]; exact hs)
  rw [List.drop_drop, frames_cons_drop] at hfr
  rw [ht₂, ht₁] at hpay
  refine ⟨c, _, ?_, hpay, hfr, hur, ?_, ?_⟩
  · rw [run_replicate_succ, hrun₁, hstep, Upstream.parse, hloop]
    simp only [List.drop_drop, frames_cons_drop, List.map_cons, List.map_nil]
  · rw [← ht₁, ← ht₂]
    rfl
  · show q₂.bufferHead.toNat = _
    omega

/-- A header over the physical end stops the server as soon as a fifth byte is there. -/
theorem feed_fault {q : DataQueue} {p : Bytes} {ps : List Bytes} (fuel : Nat)
    (calls : List (Option Bytes)) (hf : Flow q (frames (p :: ps)) (p :: ps)) (hu : q.used = 0)
    (hcross : capacity < q.bufferTail.toNat % capacity + 4)
    (hcount : q.bufferHead.toNat + 5 < 2 ^ 64) :
    (Upstream.run (fuel + 2) ⟨.opened q, calls, frames (p :: ps)⟩
      (List.replicate 5 (.upTo 0))).conn = .fault := by
  have hle := frames_length_le p ps
  have hpos := (hf.size p (List.mem_cons_self ..)).1
  obtain ⟨q₁, hrun₁, hf₁, hu₁, ht₁, hh₁⟩ := feed_parked (k := 4) (fuel + 1)
    (u := ⟨.opened q, calls, frames (p :: ps)⟩) rfl hf hu (by omega)
    (fun h => absurd h (Nat.lt_irrefl 4)) (by omega)
  dsimp only at hrun₁ hf₁
  have hcap := capacity_eq
  have hrest : 0 < ((frames (p :: ps)).drop 4).length := by
    rw [List.length_drop]
    omega
  obtain ⟨q₂, hstep, hf₂, hu₂, ht₂, -⟩ := feed_byte (fuel + 2)
    (u := ⟨.opened q₁, calls, (frames (p :: ps)).drop 4⟩) rfl hf₁ (by omega) hrest (by omega)
  have hloop := recvLoop_fault (fuel + 1) (DataQueue.used_le_capacity hf₂.wf) (by omega)
    (by rw [ht₂, ht₁]; exact hcross)
  rw [run_replicate_succ, hrun₁, hstep, Upstream.parse, hloop]

/-- What a lossless connection does with the first packets, received byte by byte. -/
theorem contiguous_of_lossless {packets ps more : List Bytes}
    (hsize : ∀ p ∈ packets, 0 < p.length ∧ p.length ≤ bufLen) (hl : Lossless packets)
    (hp : packets = ps ++ more) (htotal : (frames ps).length < 2 ^ 64) :
    Contiguous 0 ps ∧ ∃ q, (Upstream.start (frames packets)).run capacity
        (List.replicate (frames ps).length (.upTo 0)) = ⟨.opened q, ps.map some, frames more⟩ ∧
      Flow q (frames more) more ∧ q.used = 0 ∧ q.bufferTail = UInt64.ofNat (frames ps).length ∧
      q.bufferHead.toNat = (frames ps).length := by
  induction ps using List.reverseRecOn generalizing more with
  | nil =>
      refine ⟨trivial, DataQueue.empty, ?_, ⟨DataQueue.empty_wellFormed, rfl, ?_⟩, rfl, rfl, rfl⟩
      · rw [hp]
        rfl
      · rw [hp] at hsize
        exact hsize
  | append_singleton ps p ih =>
      rw [List.append_assoc, List.singleton_append] at hp
      have hlen : (frames (ps ++ [p])).length = (frames ps).length + (3 + p.length + 1) := by
        rw [frames_append, List.length_append, frames_cons, List.length_append, frame_length,
          frames_nil, List.length_nil]
        omega
      rw [hlen] at htotal
      obtain ⟨hcont, q, hrun, hf, hu, ht, hh⟩ := ih hp (by omega)
      have htail : q.bufferTail.toNat = (frames ps).length := by
        rw [ht, UInt64.toNat_ofNat']
        omega
      have hwire := tcpSendPkts_whole fun p' hp' => (hsize p' hp').1
      obtain ⟨m, hm⟩ : ∃ m, capacity = m + 2 := ⟨capacity - 2, by decide⟩
      -- The run of the earlier packets, followed by more single bytes.
      have hmore : ∀ k, (Upstream.start (frames packets)).run capacity
          (List.replicate ((frames ps).length + k) (.upTo 0)) =
            Upstream.run (m + 2) ⟨.opened q, ps.map some, frames (p :: more)⟩
              (List.replicate k (.upTo 0)) := by
        intro k
        rw [List.replicate_add, Upstream.run, List.foldl_append, ← hm]
        exact congrArg (fun u => Upstream.run capacity u (List.replicate k (.upTo 0))) hrun
      by_cases hs : Straight q.bufferTail 4
      · obtain ⟨c, r, hfeed, hpay, hfr, hur, htr, hhr⟩ :=
          feed_frame m (ps.map some) hf hu hs (by omega)
        rw [← hmore, ← hlen] at hfeed
        obtain ⟨-, -, hpre, -⟩ :=
          hl _ _ hwire capacity (Nat.le_refl _) (List.replicate (frames (ps ++ [p])).length (.upTo 0))
        rw [hfeed, hp] at hpre
        have hpay' : c.payload = some p := by
          simpa [List.prefix_append_right_inj] using hpre
        refine ⟨?_, r, ?_, hfr, hur, ?_, by omega⟩
        · rw [contiguous_append, UInt64.zero_add, ← ht]
          exact ⟨hcont, ⟨hpay p hpay', by omega⟩, trivial⟩
        · rw [hfeed, hpay', List.map_append, List.map_cons, List.map_nil]
        · rw [htr, ht, hlen, ← UInt64.ofNat_add, Nat.add_right_comm 3]
      · have hcross : capacity < q.bufferTail.toNat % capacity + 4 := by
          by_contra hno
          exact hs ⟨by omega, by omega⟩
        have hpos := (hf.size p (List.mem_cons_self ..)).1
        have hfault := feed_fault m (ps.map some) hf hu hcross (by omega)
        rw [← hmore] at hfault
        obtain ⟨q', hopened, -⟩ :=
          hl _ _ hwire capacity (Nat.le_refl _) (List.replicate ((frames ps).length + 5) (.upTo 0))
        rw [hfault] at hopened
        cases hopened

/-! ## The exact condition -/

/-- Packets of legal size arrive as sent exactly where no frame meets the physical end of
the ring. The second part covers connections that have passed `2 ^ 64` bytes as well. -/
theorem lossless_iff_contiguous (packets : List Bytes)
    (hsize : ∀ p ∈ packets, 0 < p.length ∧ p.length ≤ bufLen) :
    ((frames packets).length < 2 ^ 64 → (Lossless packets ↔ Contiguous 0 packets)) ∧
    (Lossless packets → ∀ ps, ps <+: packets → (frames ps).length < 2 ^ 64 → Contiguous 0 ps) := by
  constructor
  · intro htotal
    refine ⟨fun hl => ?_, lossless_of_contiguous hsize htotal⟩
    exact (contiguous_of_lossless hsize hl (List.append_nil _).symm htotal).1
  · rintro hl ps ⟨more, rfl⟩ htotal
    exact (contiguous_of_lossless hsize hl rfl htotal).1

theorem lossless_iff_contiguous_single :
    ((frames [[1], [2, 3]]).length < 2 ^ 64 →
      (Lossless [[1], [2, 3]] ↔ Contiguous 0 [[1], [2, 3]])) ∧
    (Lossless [[1], [2, 3]] →
      ∀ ps, ps <+: [[1], [2, 3]] → (frames ps).length < 2 ^ 64 → Contiguous 0 ps) :=
  lossless_iff_contiguous [[1], [2, 3]] (by decide)

/-- Three packets of `BUFLEN` bytes: the third frame lies over the physical end. -/
theorem not_lossless_three :
    (∀ p ∈ List.replicate 3 (List.replicate bufLen (0 : UInt8)),
      0 < p.length ∧ p.length ≤ bufLen) ∧
    ¬Lossless (List.replicate 3 (List.replicate bufLen 0)) := by
  have hsize : ∀ p ∈ List.replicate 3 (List.replicate bufLen (0 : UInt8)),
      0 < p.length ∧ p.length ≤ bufLen := by
    intro p hp
    rw [List.eq_of_mem_replicate hp, List.length_replicate]
    exact ⟨by decide, Nat.le_refl _⟩
  refine ⟨hsize, fun hl => ?_⟩
  generalize hp : List.replicate bufLen (0 : UInt8) = p at *
  have hlen : p.length = 4194304 := by
    rw [← hp, List.length_replicate]
    rfl
  have htotal : (frames [p, p, p]).length < 2 ^ 64 := by
    simp [hlen]
  have hcont := (contiguous_of_lossless hsize hl (List.append_nil [p, p, p]).symm htotal).1
  obtain ⟨-, -, ⟨hend, -⟩, -⟩ := hcont
  rw [hlen] at hend
  revert hend
  decide

end Hprd.Net
