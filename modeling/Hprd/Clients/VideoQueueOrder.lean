import Mathlib.Data.List.Flatten
import Hprd.Clients.VideoQueue

/-!
# The order of the video packets

Where the two receive threads do not call `enqueue_data` at the same time, the bytes in
the ring are those of the accepted packets one behind the other, and the counter never
promises a packet that is not wholly there.
-/

namespace Hprd.Clients

open Hprd.Core Common Net

def offset (pkts : List Bytes) (i : Nat) : Nat := ((pkts.map List.length).take i).sum

/-- A packet of the video channel with its declared length. -/
def VideoPkt (buf : Bytes) : Prop :=
  buf = dataPkt .video (buf.drop dataPktSize) ∧ buf.length ≤ bufLen

instance : DecidablePred VideoPkt := fun _ => inferInstanceAs (Decidable (_ ∧ _))

namespace RecvPc

def waiting : RecvPc → List Bytes
  | call buf => [buf]
  | enqueue buf pc => if pc.found then [] else [buf]
  | _ => []

def rest : RecvPc → Bytes
  | enqueue buf pc => pc.rest buf
  | _ => []

def ahead : RecvPc → Nat
  | enqueue _ pc => pc.ahead List.length
  | _ => 0

/-- The packet that is in the queue and not counted yet. -/
def uncounted : RecvPc → Nat
  | enqueue _ pc => if pc.found then 1 else 0
  | count _ => 1
  | _ => 0

def isCall : RecvPc → Bool
  | call _ => true
  | _ => false

def inside : RecvPc → Bool
  | enqueue _ _ => true
  | _ => false

def buffer : RecvPc → Option Bytes
  | idle => none
  | call buf => some buf
  | enqueue buf _ => some buf
  | count buf => some buf

end RecvPc

namespace VideoQueue

def pkts (s : VideoQueue) : List Bytes := s.accepted.map Prod.snd

def acceptedOf (s : VideoQueue) (t : Transport) : List Bytes :=
  (s.accepted.filter fun p => p.1 = t).map Prod.snd

/-- The number of whole packets in `recv_queue`. -/
def stored (s : VideoQueue) : Nat :=
  ((Finset.range s.pkts.length).filter fun i =>
    s.recvQueue.bufferTail.toNat ≤ offset s.pkts i ∧
      offset s.pkts (i + 1) ≤ s.recvQueue.bufferHead.toNat).card

/-- The UI thread has not yet discounted the packet that it takes. -/
def taking (s : VideoQueue) : Nat :=
  match s.ui with
  | .idle => 0
  | .test => 0
  | _ => 1

/-- Nothing is under way and the counter is down. -/
structure Quiet (s : VideoQueue) : Prop where
  threads : ∀ t, s.thread t = .idle
  ui : s.ui = .idle
  count : s.recvPktCount = 0

/-- The bytes of all packets that were delivered. -/
def bytes (s : VideoQueue) : Nat := (s.delivered .tcp ++ s.delivered .kcp).flatten.length

/-- What the queue and the counter are relied on for. -/
structure Aligned (s : VideoQueue) : Prop where
  /-- the payloads come out in the order in which the packets went in -/
  inOrder : s.decoded <+: s.pkts.map (List.drop dataPktSize)
  own : ∀ t, s.acceptedOf t <+: s.delivered t
  complete : s.Quiet → s.decoded = s.pkts.map (List.drop dataPktSize) ∧
    ∀ t, s.acceptedOf t = s.delivered t
  count : s.recvPktCount ≤ s.stored + s.taking

def Fed (_ : VideoQueue) : VideoAction → Prop
  | .deliver _ buf => VideoPkt buf
  | _ => True

instance (s : VideoQueue) : DecidablePred s.Fed := fun a => by
  cases a <;> (unfold Fed; infer_instance)

/-- The threads are given video packets, and a call of `enqueue_data` begins while no thread is
inside one. -/
def Proper (s : VideoQueue) : VideoAction → Prop
  | .deliver _ buf => VideoPkt buf ∧ s.bytes + buf.length < 2 ^ 64
  | .recv t _ => (s.thread t).isCall = true →
      (s.thread .tcp).inside = false ∧ (s.thread .kcp).inside = false
  | _ => True

instance (s : VideoQueue) : DecidablePred s.Proper := fun a => by
  cases a <;> (unfold Proper; infer_instance)

end VideoQueue

/-! ## Packets one behind the other -/

section

variable {ps more : List Bytes} {i k : Nat} {p : Bytes}

theorem offset_succ (h : ps[i]? = some p) : offset ps (i + 1) = offset ps i + p.length := by
  have hlen : (ps.map List.length)[i]? = some p.length := by rw [List.getElem?_map, h]; rfl
  rw [offset, List.take_add_one, hlen, List.sum_append]
  rfl

theorem offset_length (ps : List Bytes) : offset ps ps.length = ps.flatten.length := by
  rw [offset, List.take_of_length_le (by simp), List.length_flatten]

theorem offset_append (h : i ≤ ps.length) : offset (ps ++ more) i = offset ps i := by
  rw [offset, List.map_append, List.take_append_of_le_length (by simpa using h)]
  rfl

theorem offset_mono (h : i ≤ k) : offset ps i ≤ offset ps k := by
  obtain ⟨d, rfl⟩ := Nat.exists_eq_add_of_le h
  rw [offset, offset, List.take_add, List.sum_append]
  exact Nat.le_add_right _ _

theorem take_drop_flatten {off n : Nat} (h : ps[i]? = some p) (hle : off + n ≤ p.length) :
    (ps.flatten.drop (offset ps i + off)).take n = (p.drop off).take n := by
  obtain ⟨hi, hp⟩ := List.getElem?_eq_some_iff.mp h
  have hdrop : ps.flatten.drop (offset ps i) = p ++ (ps.drop (i + 1)).flatten := by
    rw [offset, List.drop_sum_flatten, List.drop_eq_getElem_cons hi, hp, List.flatten_cons]
  rw [← List.drop_drop, hdrop, List.drop_append_of_le_length (by omega),
    List.take_append_of_le_length (by rw [List.length_drop]; omega)]

end

/-! ## The packet that is taken -/

/-- A call of `dequeue_data` for `len` bytes at `off` of packet `k`, which is wholly in the ring. -/
structure Taking (q : DataQueue) (ps : List Bytes) (mem : Nat → UInt8) (k : Nat) (pkt : Bytes)
    (off : Nat) (len : UInt64) (filled : Nat) (pc : Pc UInt64) : Prop where
  next : ps[k]? = some pkt
  whole : offset ps (k + 1) ≤ q.bufferHead.toNat
  inside : off + len.toNat ≤ pkt.length
  consuming : q.Consuming len pc
  finds : q.Finds len pc
  left : filled + pc.left len = len.toNat
  position : q.bufferTail.toNat + pc.ahead UInt64.toNat = offset ps k + off + filled
  read : Ring.block mem off filled = (pkt.drop off).take filled

section

variable {q q' : DataQueue} {ps : List Bytes} {mem : Nat → UInt8} {k off filled : Nat}
  {pkt bs : Bytes} {len : UInt64} {pc : Pc UInt64} {o : Ends UInt64}

theorem Taking.frame {more : List Bytes} (h : Taking q ps mem k pkt off len filled pc)
    (htail : q'.bufferTail = q.bufferTail) (hhead : q.bufferHead.toNat ≤ q'.bufferHead.toNat) :
    Taking q' (ps ++ more) mem k pkt off len filled pc := by
  obtain ⟨hk, -⟩ := List.getElem?_eq_some_iff.mp h.next
  constructor
  case next =>
    rw [List.getElem?_append_left hk]
    exact h.next
  case whole =>
    rw [offset_append hk]
    exact h.whole.trans hhead
  case inside => exact h.inside
  case consuming =>
    show Placed .tail 0 q'.bufferTail.toNat _ _ _ _
    rw [htail]
    exact Placed.mono h.consuming hhead
  case finds => exact h.finds.mono htail hhead
  case left => exact h.left
  case position =>
    rw [offset_append (Nat.le_of_lt hk), htail]
    exact h.position
  case read => exact h.read

theorem Taking.step {rest : Bytes} {n : Nat} {c : Counter}
    (h : Taking q ps mem k pkt off len filled pc) (hc : Carries 0 q ps.flatten rest n)
    (hlen : len.toNat ≤ capacity) (hs : q.dequeueStep len c pc = some (q', bs, o)) :
    (∀ pc', o = .inl pc' →
      Taking q' ps (Ring.store mem (off + filled) bs) k pkt off len (filled + bs.length) pc') ∧
    (∀ r, o = .inr r → bs = [] ∧ filled = len.toNat ∧
      q'.bufferTail.toNat = offset ps k + off + len.toNat) ∧
    Carries 0 q' ps.flatten rest n ∧ q'.bufferHead = q.bufferHead ∧
      q.bufferTail.toNat ≤ q'.bufferTail.toNat := by
  obtain ⟨hm, hnext⟩ := DataQueue.dequeueStep_moves hc.wellFormed hlen h.consuming hs
  obtain ⟨hfinds, hdone⟩ := h.finds.step h.consuming hs
  obtain ⟨hc', hread, hhead, htail⟩ := hc.dequeue rfl hm
  have hpos := hm.position
  have hend := offset_succ h.next
  refine ⟨?_, ?_, hc', hhead, htail⟩
  · rintro pc' rfl
    have hleft := hm.left_inl
    have hfill := h.left
    have hin := h.inside
    have hat := h.position
    have hbs : bs = (pkt.drop (off + filled)).take bs.length := by
      have hprefix : ps.flatten.take (offset ps k + off + filled) ++ bs <+:
          ps.flatten.take (offset ps k + off + filled) ++
            ps.flatten.drop (offset ps k + off + filled) := by
        rw [List.take_append_drop, ← hat, ← Nat.sub_zero (q.bufferTail.toNat + _), hread]
        exact List.take_prefix _ _
      rw [List.prefix_append_right_inj] at hprefix
      rw [Nat.add_assoc] at hprefix
      rw [← take_drop_flatten h.next (by omega)]
      exact List.prefix_iff_eq_take.mp hprefix
    constructor
    case next => exact h.next
    case whole =>
      rw [hhead]
      exact h.whole
    case inside => exact h.inside
    case consuming => exact hnext pc' rfl
    case finds => exact hfinds pc' rfl
    case left => omega
    case position =>
      show q'.bufferTail.toNat + Ends.ahead UInt64.toNat (.inl pc') = _
      omega
    case read =>
      rw [Ring.block_store_append, h.read, List.take_add, List.drop_drop, ← hbs]
  · rintro r rfl
    have hfill := h.left
    have hzero := hdone r rfl
    have hbs := hm.left_inr.1
    subst hbs
    have hat := h.position
    refine ⟨rfl, by omega, ?_⟩
    have : q'.bufferTail.toNat + 0 = _ := hpos
    rw [List.length_nil] at this
    omega

end

theorem VideoPkt.exists_data {buf : Bytes} (h : VideoPkt buf) :
    ∃ data, buf = dataPkt .video data ∧ buf.length ≤ bufLen :=
  ⟨_, h⟩

theorem VideoPkt.length {buf : Bytes} (h : VideoPkt buf) :
    dataPktSize ≤ buf.length ∧ buf.length ≤ bufLen := by
  obtain ⟨data, rfl, hle⟩ := h.exists_data
  refine ⟨?_, hle⟩
  simp [dataPkt, dataPktSize]
  omega

theorem VideoPkt.length_le {buf : Bytes} (h : VideoPkt buf) : buf.length ≤ capacity :=
  h.length.2.trans (by decide)

/-- `enqueue_data` cannot return 0 or -1 for a packet it has put. -/
theorem VideoPkt.ret_ne {buf : Bytes} (h : VideoPkt buf) :
    Int32.ofNat buf.length ≠ 0 ∧ Int32.ofNat buf.length ≠ -1 := by
  have hret := DataQueue.toInt_ofNat_length h.length_le
  have hpos : 8 ≤ buf.length := h.length.1
  constructor
  · intro h0
    rw [h0, show (0 : Int32).toInt = 0 from rfl] at hret
    omega
  · intro h1
    rw [h1, show (-1 : Int32).toInt = -1 from rfl] at hret
    omega

theorem VideoPkt.pktChannel {buf : Bytes} (h : VideoPkt buf) :
    pktChannel buf = some NetChannel.video.code := by
  obtain ⟨data, rfl, -⟩ := h.exists_data
  have hload := load_append [] (leBytes 4 NetChannel.video.code)
    (be32 (UInt32.ofNat data.length) ++ data)
  rw [leBytes_length] at hload
  show (load (dataPkt .video data) 0 4).map ofLeBytes = _
  rw [dataPkt]
  exact congrArg (Option.map ofLeBytes) hload

theorem VideoPkt.header {buf : Bytes} (h : VideoPkt buf) :
    buf.take dataPktSize =
      leBytes 4 NetChannel.video.code ++ be32 (UInt32.ofNat (buf.length - dataPktSize)) := by
  obtain ⟨data, rfl, -⟩ := h.exists_data
  have hlen : (dataPkt .video data).length - dataPktSize = data.length := by
    simp [dataPkt, dataPktSize]
    omega
  rw [hlen, dataPkt, ← List.append_assoc]
  exact List.take_left' (by simp [dataPktSize])

/-! ## The invariant -/

/-- `recv_pkt` has the header of a packet, with `data_len` in host order. -/
structure Headed (mem : Nat → UInt8) (pkt : Bytes) : Prop where
  channel : Ring.block mem 0 4 = leBytes 4 NetChannel.video.code
  dataLen : Ring.block mem 4 4 = leBytes 4 (pkt.length - dataPktSize)

namespace VideoQueue

def rest (s : VideoQueue) : Bytes := (s.thread .tcp).rest ++ (s.thread .kcp).rest

def ahead (s : VideoQueue) : Nat := (s.thread .tcp).ahead + (s.thread .kcp).ahead

def uncounted (s : VideoQueue) : Nat := (s.thread .tcp).uncounted + (s.thread .kcp).uncounted

/-- Where the UI thread has got to in the packet behind those decoded. -/
def Decoding (s : VideoQueue) : UiPc → Prop
  | .idle => s.recvQueue.bufferTail.toNat = offset s.pkts s.decoded.length
  | .test => s.recvQueue.bufferTail.toNat = offset s.pkts s.decoded.length
  | .header filled pc => ∃ pkt, Taking s.recvQueue s.pkts s.recvPkt s.decoded.length pkt 0
      (UInt64.ofNat dataPktSize) filled pc
  | .payload len filled pc => ∃ pkt, len.toNat = pkt.length - dataPktSize ∧
      Headed s.recvPkt pkt ∧
      Taking s.recvQueue s.pkts s.recvPkt s.decoded.length pkt dataPktSize len filled pc
  | .finish => ∃ pkt, s.pkts[s.decoded.length]? = some pkt ∧
      offset s.pkts (s.decoded.length + 1) ≤ s.recvQueue.bufferHead.toNat ∧
      s.recvQueue.bufferTail.toNat = offset s.pkts (s.decoded.length + 1) ∧
      Headed s.recvPkt pkt ∧
      Ring.block s.recvPkt dataPktSize (pkt.length - dataPktSize) = pkt.drop dataPktSize

structure Inv (s : VideoQueue) : Prop where
  carries : Carries 0 s.recvQueue s.pkts.flatten s.rest s.ahead
  producing : ∀ t buf pc, s.thread t = .enqueue buf pc →
    s.recvQueue.Producing buf pc ∧ pc.rest buf <:+ buf
  alone : ∀ t u buf pc buf' pc', s.thread t = .enqueue buf pc → s.thread u = .enqueue buf' pc' →
    t = u
  buffer : ∀ t buf, (s.thread t).buffer = some buf → VideoPkt buf
  videoPkts : ∀ p ∈ s.pkts, VideoPkt p
  last : ∀ t buf pc, s.thread t = .enqueue buf pc → pc.found = true →
    ∃ before, s.accepted = before ++ [(t, buf)]
  delivered : ∀ t, s.delivered t = s.acceptedOf t ++ (s.thread t).waiting
  small : s.bytes < 2 ^ 64
  count : s.recvPktCount + s.uncounted + s.decoded.length = s.pkts.length
  decoded : s.decoded = (s.pkts.take s.decoded.length).map (List.drop dataPktSize)
  decoding : s.Decoding s.ui

section

variable {s : VideoQueue} {t : Transport} {x : RecvPc}

theorem rest_setThread (h : x.rest = (s.thread t).rest) : (s.setThread t x).rest = s.rest := by
  cases t with
  | tcp => simp [rest, setThread, h]
  | kcp => simp [rest, setThread, h]

theorem ahead_setThread (h : x.ahead = (s.thread t).ahead) : (s.setThread t x).ahead = s.ahead := by
  cases t with
  | tcp => simp [ahead, setThread, h]
  | kcp => simp [ahead, setThread, h]

theorem uncounted_setThread (s : VideoQueue) (t : Transport) (x : RecvPc) :
    (s.setThread t x).uncounted + (s.thread t).uncounted = s.uncounted + x.uncounted := by
  cases t with
  | tcp =>
      simp [uncounted, setThread]
      omega
  | kcp =>
      simp [uncounted, setThread]
      omega

theorem setThread_thread (s : VideoQueue) (t : Transport) (x : RecvPc) :
    (s.setThread t x).thread t = x := Function.update_self ..

theorem setThread_thread_of_ne {u : Transport} (h : u ≠ t) :
    (s.setThread t x).thread u = s.thread u := Function.update_of_ne h ..

/-- Where a thread stands is where it stood, or it is the thread that has moved. -/
theorem of_setThread {u : Transport} {p : RecvPc} (h : (s.setThread t x).thread u = p) :
    u = t ∧ x = p ∨ u ≠ t ∧ s.thread u = p := by
  by_cases hut : u = t
  · rw [hut, setThread_thread] at h
    exact Or.inl ⟨hut, h⟩
  · rw [setThread_thread_of_ne hut] at h
    exact Or.inr ⟨hut, h⟩

/-- The packet a moved thread is busy with. -/
theorem buffer_setThread {P : Bytes → Prop} (h : ∀ u buf, (s.thread u).buffer = some buf → P buf)
    (hx : ∀ buf, x.buffer = some buf → P buf) (u : Transport) (buf : Bytes)
    (hu : ((s.setThread t x).thread u).buffer = some buf) : P buf := by
  rcases of_setThread (t := t) (x := x) (s := s) (u := u) rfl with ⟨-, hmoved⟩ | ⟨-, hkept⟩
  · rw [← hmoved] at hu
    exact hx buf hu
  · rw [← hkept] at hu
    exact h u buf hu

theorem Inv.rest_eq (h : s.Inv) {buf : Bytes} {pc : Pc Bytes} (ht : s.thread t = .enqueue buf pc) :
    s.rest = pc.rest buf ∧ s.ahead = pc.ahead List.length ∧
      ∀ u, u ≠ t → (s.thread u).rest = [] ∧ (s.thread u).ahead = 0 := by
  have hother : ∀ u, u ≠ t → (s.thread u).rest = [] ∧ (s.thread u).ahead = 0 := by
    intro u hu
    cases hs : s.thread u with
    | enqueue buf' pc' => exact absurd (h.alone u t _ _ _ _ hs ht) hu
    | _ => exact ⟨rfl, rfl⟩
  refine ⟨?_, ?_, hother⟩
  · cases t with
    | tcp => rw [rest, ht, (hother .kcp (by decide)).1, List.append_nil]; rfl
    | kcp => rw [rest, ht, (hother .tcp (by decide)).1, List.nil_append]; rfl
  · cases t with
    | tcp => rw [ahead, ht, (hother .kcp (by decide)).2]; rfl
    | kcp => rw [ahead, ht, (hother .tcp (by decide)).2, Nat.zero_add]; rfl

theorem rest_setThread_of_alone
    (h : ∀ u, u ≠ t → (s.thread u).rest = [] ∧ (s.thread u).ahead = 0) (x : RecvPc) :
    (s.setThread t x).rest = x.rest ∧ (s.setThread t x).ahead = x.ahead := by
  cases t with
  | tcp =>
      obtain ⟨hrest, hahead⟩ := h .kcp (by decide)
      simp [rest, ahead, setThread, hrest, hahead]
  | kcp =>
      obtain ⟨hrest, hahead⟩ := h .tcp (by decide)
      simp [rest, ahead, setThread, hrest, hahead]

/-- A thread goes on outside the queue: it takes packets `news` and counts `d` of its packets. -/
theorem Inv.setThread (h : s.Inv) {news : List Bytes} {d : Nat} (hrest : x.rest = (s.thread t).rest)
    (hahead : x.ahead = (s.thread t).ahead)
    (hproducing : ∀ buf pc, x = .enqueue buf pc → s.recvQueue.Producing buf pc ∧
      pc.rest buf <:+ buf ∧ pc.found = false ∧ ∀ u buf' pc', s.thread u ≠ .enqueue buf' pc')
    (hbuffer : ∀ buf, x.buffer = some buf → VideoPkt buf)
    (hwaiting : x.waiting = (s.thread t).waiting ++ news)
    (huncounted : x.uncounted + d = (s.thread t).uncounted)
    (hsmall : s.bytes + news.flatten.length < 2 ^ 64) :
    ({ s with
      delivered := Function.update s.delivered t (s.delivered t ++ news)
      recvPktCount := s.recvPktCount + d }.setThread t x).Inv := by
  constructor
  case carries =>
    show Carries 0 s.recvQueue s.pkts.flatten (s.setThread t x).rest (s.setThread t x).ahead
    rw [rest_setThread hrest, ahead_setThread hahead]
    exact h.carries
  case producing =>
    intro u buf pc hu
    rcases of_setThread hu with ⟨-, hx⟩ | ⟨-, hu⟩
    · exact ⟨(hproducing buf pc hx).1, (hproducing buf pc hx).2.1⟩
    · exact h.producing u buf pc hu
  case alone =>
    intro u v buf pc buf' pc' hu hv
    rcases of_setThread hu with ⟨rfl, hx⟩ | ⟨-, hu⟩
    · rcases of_setThread hv with ⟨rfl, -⟩ | ⟨-, hv⟩
      · rfl
      · exact absurd hv ((hproducing buf pc hx).2.2.2 v buf' pc')
    · rcases of_setThread hv with ⟨-, hx⟩ | ⟨-, hv⟩
      · exact absurd hu ((hproducing buf' pc' hx).2.2.2 u buf pc)
      · exact h.alone u v buf pc buf' pc' hu hv
  case buffer => exact buffer_setThread h.buffer hbuffer
  case videoPkts => exact h.videoPkts
  case last =>
    intro u buf pc hu hfound
    rcases of_setThread hu with ⟨-, hx⟩ | ⟨-, hu⟩
    · rw [(hproducing buf pc hx).2.2.1] at hfound
      cases hfound
    · exact h.last u buf pc hu hfound
  case delivered =>
    intro u
    show Function.update s.delivered t _ u = s.acceptedOf u ++ _
    by_cases hut : u = t
    · subst hut
      rw [Function.update_self, setThread_thread, hwaiting, h.delivered u, List.append_assoc]
    · rw [Function.update_of_ne hut, setThread_thread_of_ne hut]
      exact h.delivered u
  case small =>
    have hbytes : { s with delivered := Function.update s.delivered t (s.delivered t ++ news) }.bytes
        = s.bytes + news.flatten.length := by
      cases t with
      | tcp =>
          simp [bytes]
          omega
      | kcp =>
          simp [bytes]
          omega
    exact hbytes.trans_lt hsmall
  case count =>
    have hsum := uncounted_setThread s t x
    have hcount := h.count
    show s.recvPktCount + d + (s.setThread t x).uncounted + s.decoded.length = s.pkts.length
    omega
  case decoded => exact h.decoded
  case decoding => exact h.decoding

/-- What a call of `enqueue_data` returns or goes on with. -/
theorem afterEnqueue_eq {s' : VideoQueue} {q q' : DataQueue} {buf : Bytes} {pc : Pc Bytes}
    {o : Ends Bytes} (hbuf : VideoPkt buf) (hm : q.EnqueueMove buf pc q' o)
    (hs : s.afterEnqueue t buf o = some s') :
    ∃ x, s' = s.setThread t x ∧ x.rest = o.rest buf ∧ x.ahead = o.ahead List.length ∧
      x.buffer = some buf ∧ (∀ buf' pc', x = .enqueue buf' pc' → buf' = buf ∧ o = .inl pc') ∧
      (acceptedBy t buf pc o).map Prod.snd ++ x.waiting = (RecvPc.enqueue buf pc).waiting ∧
      x.uncounted = (RecvPc.enqueue buf pc).uncounted + (acceptedBy t buf pc o).length := by
  cases hm with
  | look hrest hfound hbefore hafter hplain =>
      cases hs
      refine ⟨.enqueue buf _, rfl, rfl, rfl, rfl, ?_, ?_, ?_⟩
      · intro buf' pc' hx
        cases hx
        exact ⟨rfl, rfl⟩
      · simp [acceptedBy, RecvPc.waiting, hfound]
      · simp [acceptedBy, RecvPc.uncounted, hfound]
  | accept =>
      cases hs
      refine ⟨.enqueue buf _, rfl, rfl, rfl, rfl, ?_, rfl, rfl⟩
      intro buf' pc' hx
      cases hx
      exact ⟨rfl, rfl⟩
  | refuse =>
      cases hs
      exact ⟨.call buf, rfl, rfl, rfl, rfl, nofun, rfl, rfl⟩
  | copied hend =>
      cases hs
      refine ⟨.enqueue buf _, rfl, rfl, rfl, rfl, ?_, rfl, rfl⟩
      intro buf' pc' hx
      cases hx
      exact ⟨rfl, rfl⟩
  | published hmore =>
      cases hs
      refine ⟨.enqueue buf _, rfl, rfl, rfl, rfl, ?_, rfl, rfl⟩
      intro buf' pc' hx
      cases hx
      exact ⟨rfl, rfl⟩
  | returned =>
      obtain ⟨hzero, hminus⟩ := hbuf.ret_ne
      rw [afterEnqueue, if_neg hzero, if_neg hminus] at hs
      cases hs
      exact ⟨.count buf, rfl, rfl, rfl, rfl, nofun, rfl, rfl⟩

theorem acceptedBy_flatten (t : Transport) (buf : Bytes) (pc : Pc Bytes) (o : Ends Bytes) :
    ((acceptedBy t buf pc o).map Prod.snd).flatten = Ends.accepts buf pc o := by
  cases o with
  | inl pc' =>
      by_cases hfound : pc'.found = pc.found
      · rw [acceptedBy, if_pos hfound, Ends.accepts, if_pos hfound]
        rfl
      · rw [acceptedBy, if_neg hfound, Ends.accepts, if_neg hfound]
        exact List.append_nil buf
  | inr r => rfl

theorem mem_acceptedBy {p : Transport × Bytes} {buf : Bytes} {pc : Pc Bytes} {o : Ends Bytes}
    (h : p ∈ acceptedBy t buf pc o) : p = (t, buf) := by
  cases o with
  | inl pc' =>
      rw [acceptedBy] at h
      split at h
      · cases h
      · exact List.mem_singleton.mp h
  | inr r => cases h

/-- The packets accepted from thread `u`, when `t` has made a step. -/
theorem acceptedBy_filter (t u : Transport) (buf : Bytes) (pc : Pc Bytes) (o : Ends Bytes) :
    (acceptedBy t buf pc o).filter (fun p => p.1 = u) =
      if u = t then acceptedBy t buf pc o else [] := by
  split
  · next hut =>
      refine List.filter_eq_self.mpr fun p hp => ?_
      rw [mem_acceptedBy hp, hut]
      exact decide_eq_true rfl
  · next hut =>
      refine List.filter_eq_nil_iff.mpr fun p hp => ?_
      rw [mem_acceptedBy hp]
      simpa using Ne.symm hut

theorem flatten_length (accepted : List (Transport × Bytes)) :
    (accepted.map Prod.snd).flatten.length =
      ((accepted.filter fun p => p.1 = .tcp).map Prod.snd).flatten.length +
        ((accepted.filter fun p => p.1 = .kcp).map Prod.snd).flatten.length := by
  induction accepted with
  | nil => rfl
  | cons p accepted ih =>
      obtain ⟨t, buf⟩ := p
      cases t with
      | tcp =>
          simp at ih ⊢
          omega
      | kcp =>
          simp at ih ⊢
          omega

theorem Inv.stream_lt (h : s.Inv) : s.pkts.flatten.length < 2 ^ 64 := by
  have hsmall := h.small
  have hsum := flatten_length s.accepted
  rw [bytes, List.flatten_append, List.length_append, h.delivered, h.delivered,
    List.flatten_append, List.flatten_append, List.length_append, List.length_append] at hsmall
  unfold pkts acceptedOf at *
  omega

theorem Inv.decoded_le (h : s.Inv) : s.decoded.length ≤ s.pkts.length := by
  have hlen := congrArg List.length h.decoded
  rw [List.length_map, List.length_take] at hlen
  omega

/-- The UI thread does not notice what the receive threads do. -/
theorem Decoding.frame {ui : UiPc} {s' : VideoQueue} {more : List Bytes} (h : s.Decoding ui)
    (hle : s.decoded.length ≤ s.pkts.length)
    (htail : s'.recvQueue.bufferTail = s.recvQueue.bufferTail)
    (hhead : s.recvQueue.bufferHead.toNat ≤ s'.recvQueue.bufferHead.toNat)
    (hpkts : s'.pkts = s.pkts ++ more) (hmem : s'.recvPkt = s.recvPkt)
    (hdecoded : s'.decoded = s.decoded) : s'.Decoding ui := by
  cases ui with
  | idle =>
      show s'.recvQueue.bufferTail.toNat = offset s'.pkts s'.decoded.length
      rw [htail, hpkts, hdecoded, offset_append hle]
      exact h
  | test =>
      show s'.recvQueue.bufferTail.toNat = offset s'.pkts s'.decoded.length
      rw [htail, hpkts, hdecoded, offset_append hle]
      exact h
  | header filled pc =>
      obtain ⟨pkt, htaking⟩ := h
      refine ⟨pkt, ?_⟩
      rw [hpkts, hmem, hdecoded]
      exact htaking.frame htail hhead
  | payload len filled pc =>
      obtain ⟨pkt, hlen, hheaded, htaking⟩ := h
      refine ⟨pkt, hlen, ?_, ?_⟩
      · rw [hmem]
        exact hheaded
      · rw [hpkts, hmem, hdecoded]
        exact htaking.frame htail hhead
  | finish =>
      obtain ⟨pkt, hnext, hwhole, hend, hheaded, hread⟩ := h
      obtain ⟨hk, -⟩ := List.getElem?_eq_some_iff.mp hnext
      refine ⟨pkt, ?_, ?_, ?_, ?_, ?_⟩
      · rw [hpkts, hdecoded, List.getElem?_append_left hk]
        exact hnext
      · rw [hpkts, hdecoded, offset_append hk]
        exact hwhole.trans hhead
      · rw [hpkts, hdecoded, offset_append hk, htail]
        exact hend
      · rw [hmem]
        exact hheaded
      · rw [hmem]
        exact hread

theorem Inv.enqueue (h : s.Inv) {s' : VideoQueue} {buf : Bytes} {pc : Pc Bytes} {c : Counter}
    (ht : s.thread t = .enqueue buf pc) (hs : s.recvStep t c = some s') : s'.Inv := by
  rw [recvStep, ht] at hs
  obtain ⟨⟨q', o⟩, hq, hs⟩ := Option.bind_eq_some_iff.mp hs
  obtain ⟨hproducing, hsuffix⟩ := h.producing t buf pc ht
  have hbuf := h.buffer t buf (by rw [ht]; rfl)
  obtain ⟨hrest, hahead, hother⟩ := h.rest_eq ht
  have hc := h.carries
  rw [hrest, hahead] at hc
  have hstream := h.stream_lt
  have hpub := hc.published
  obtain ⟨hm, hnext⟩ := DataQueue.enqueueStep_moves hc.wellFormed hbuf.length_le hproducing
    (by omega) hq
  obtain ⟨hc', htail, hhead⟩ := hc.enqueue hproducing hm (by omega)
  obtain ⟨x, rfl, hxrest, hxahead, hxbuffer, hxpc, hxwaiting, hxuncounted⟩ :=
    afterEnqueue_eq hbuf hm hs
  have hinto : ∀ u buf' pc', (s.setThread t x).thread u = .enqueue buf' pc' →
      u = t ∧ buf' = buf ∧ o = .inl pc' := by
    intro u buf' pc' hu
    rcases of_setThread hu with ⟨rfl, hx⟩ | ⟨hut, hu⟩
    · exact ⟨rfl, hxpc buf' pc' hx⟩
    · exact absurd (h.alone u t _ _ _ _ hu ht) hut
  have hpkts : (s.accepted ++ acceptedBy t buf pc o).map Prod.snd =
      s.pkts ++ (acceptedBy t buf pc o).map Prod.snd := List.map_append
  constructor
  case carries =>
    show Carries 0 q' ((s.accepted ++ acceptedBy t buf pc o).map Prod.snd).flatten
      (s.setThread t x).rest (s.setThread t x).ahead
    rw [hpkts, List.flatten_append, acceptedBy_flatten, (rest_setThread_of_alone hother x).1,
      (rest_setThread_of_alone hother x).2, hxrest, hxahead]
    exact hc'
  case producing =>
    intro u buf' pc' hu
    obtain ⟨-, rfl, rfl⟩ := hinto u buf' pc' hu
    exact ⟨hnext pc' rfl, hm.rest_suffix hsuffix⟩
  case alone =>
    intro u v buf' pc' buf'' pc'' hu hv
    exact (hinto u buf' pc' hu).1.trans (hinto v buf'' pc'' hv).1.symm
  case buffer =>
    refine buffer_setThread h.buffer fun buf' hb => ?_
    rw [hxbuffer] at hb
    cases hb
    exact hbuf
  case videoPkts =>
    intro p hp
    replace hp : p ∈ (s.accepted ++ acceptedBy t buf pc o).map Prod.snd := hp
    rw [hpkts] at hp
    rcases List.mem_append.mp hp with hp | hp
    · exact h.videoPkts p hp
    · obtain ⟨p', hp', rfl⟩ := List.mem_map.mp hp
      rw [mem_acceptedBy hp']
      exact hbuf
  case last =>
    intro u buf' pc' hu hfound
    obtain ⟨rfl, rfl, rfl⟩ := hinto u buf' pc' hu
    by_cases hsame : pc'.found = pc.found
    · obtain ⟨before, hbefore⟩ := h.last u buf' pc ht (hsame ▸ hfound)
      refine ⟨before, ?_⟩
      show s.accepted ++ (if pc'.found = pc.found then [] else [(u, buf')]) = _
      rw [if_pos hsame, List.append_nil, hbefore]
    · refine ⟨s.accepted, ?_⟩
      show s.accepted ++ (if pc'.found = pc.found then [] else [(u, buf')]) = _
      rw [if_neg hsame]
  case delivered =>
    intro u
    show s.delivered u = ((s.accepted ++ acceptedBy t buf pc o).filter fun p => p.1 = u).map
      Prod.snd ++ _
    rw [List.filter_append, List.map_append, h.delivered u, acceptedBy_filter]
    by_cases hut : u = t
    · rw [if_pos hut, hut, setThread_thread, List.append_assoc, hxwaiting, ht]
      rfl
    · rw [if_neg hut, setThread_thread_of_ne hut, List.map_nil, List.append_nil]
      rfl
  case small => exact h.small
  case count =>
    have hsum := uncounted_setThread s t x
    have hcount := h.count
    rw [ht, hxuncounted] at hsum
    show s.recvPktCount + (s.setThread t x).uncounted + s.decoded.length =
      ((s.accepted ++ acceptedBy t buf pc o).map Prod.snd).length
    rw [hpkts, List.length_append, List.length_map]
    omega
  case decoded =>
    show s.decoded = (((s.accepted ++ acceptedBy t buf pc o).map Prod.snd).take
      s.decoded.length).map _
    rw [hpkts, List.take_append_of_le_length h.decoded_le]
    exact h.decoded
  case decoding =>
    exact h.decoding.frame h.decoded_le htail hhead hpkts rfl rfl

theorem Inv.deliver (h : s.Inv) {s' : VideoQueue} {buf : Bytes} (hbuf : VideoPkt buf)
    (hsmall : s.bytes + buf.length < 2 ^ 64) (hs : s.onClientRecv t buf = some s') : s'.Inv := by
  cases ht : s.thread t with
  | idle =>
      simp only [onClientRecv, ht, hbuf.pktChannel, Option.map_some, if_true] at hs
      cases hs
      have hinv : ({ s with
          delivered := Function.update s.delivered t (s.delivered t ++ [buf])
          recvPktCount := s.recvPktCount + (0 : Nat) }.setThread t (.call buf)).Inv := by
        apply h.setThread
        · rw [ht]
          rfl
        · rw [ht]
          rfl
        · exact nofun
        · intro buf' hb
          cases hb
          exact hbuf
        · rw [ht]
          rfl
        · rw [ht]
          rfl
        · simpa using hsmall
      rw [Nat.cast_zero, add_zero] at hinv
      exact hinv
  | _ => simp [onClientRecv, ht] at hs

theorem Inv.call (h : s.Inv) {s' : VideoQueue} {buf : Bytes} {c : Counter}
    (ht : s.thread t = .call buf) (halone : ∀ u buf' pc, s.thread u ≠ .enqueue buf' pc)
    (hs : s.recvStep t c = some s') : s'.Inv := by
  have hbuf := h.buffer t buf (by rw [ht]; rfl)
  have hentry : DataQueue.enqueueEntry buf = .inl (.room none) :=
    if_neg (Nat.not_lt.mpr hbuf.length_le)
  simp only [recvStep, ht, hentry, afterEnqueue] at hs
  cases hs
  have hinv : ({ s with
      delivered := Function.update s.delivered t (s.delivered t ++ [])
      recvPktCount := s.recvPktCount + (0 : Nat) }.setThread t (.enqueue buf (.room none))).Inv := by
    apply h.setThread
    · rw [ht]
      rfl
    · rw [ht]
      rfl
    · intro buf' pc hx
      cases hx
      exact ⟨trivial, List.nil_suffix, rfl, halone⟩
    · intro buf' hb
      cases hb
      exact hbuf
    · rw [ht]
      rfl
    · rw [ht]
      rfl
    · exact h.small
  rw [Nat.cast_zero, add_zero, List.append_nil, Function.update_eq_self] at hinv
  exact hinv

theorem Inv.count_step (h : s.Inv) {s' : VideoQueue} {buf : Bytes} {c : Counter}
    (ht : s.thread t = .count buf) (hs : s.recvStep t c = some s') : s'.Inv := by
  simp only [recvStep, ht] at hs
  cases hs
  have hinv : ({ s with
      delivered := Function.update s.delivered t (s.delivered t ++ [])
      recvPktCount := s.recvPktCount + (1 : Nat) }.setThread t .idle).Inv := by
    apply h.setThread
    · rw [ht]
      rfl
    · rw [ht]
      rfl
    · exact nofun
    · exact nofun
    · rw [ht]
      rfl
    · rw [ht]
      rfl
    · exact h.small
  rw [Nat.cast_one, List.append_nil, Function.update_eq_self] at hinv
  exact hinv

theorem uncounted_le (s : VideoQueue) (t : Transport) : (s.thread t).uncounted ≤ s.uncounted := by
  cases t with
  | tcp => exact Nat.le_add_right _ _
  | kcp => exact Nat.le_add_left _ _

/-- All packets but those not counted are wholly in the ring. -/
theorem Inv.published (h : s.Inv) : ∃ m, m ≤ s.pkts.length ∧ s.pkts.length ≤ m + s.uncounted ∧
    offset s.pkts m ≤ s.recvQueue.bufferHead.toNat := by
  have hpub := h.carries.published
  rw [Nat.zero_add, ← offset_length] at hpub
  by_cases hin : ∃ t buf pc, s.thread t = .enqueue buf pc ∧ pc.found = true
  · obtain ⟨t, buf, pc, ht, hfound⟩ := hin
    obtain ⟨before, hbefore⟩ := h.last t buf pc ht hfound
    have hrest : s.rest.length ≤ buf.length := by
      rw [(h.rest_eq ht).1]
      exact (h.producing t buf pc ht).2.length_le
    have hone : 1 ≤ s.uncounted := by
      have hle := uncounted_le s t
      rw [ht, RecvPc.uncounted, if_pos hfound] at hle
      exact hle
    have hpkts : s.pkts = before.map Prod.snd ++ [buf] := by
      rw [pkts, hbefore, List.map_append]
      rfl
    have hlast : s.pkts[before.length]? = some buf := by
      rw [hpkts, List.getElem?_append_right (by simp)]
      simp
    have hlen : s.pkts.length = before.length + 1 := by
      rw [hpkts]
      simp
    have hend := offset_succ hlast
    rw [hlen] at hpub
    exact ⟨before.length, by omega, by omega, by omega⟩
  · have hrest : ∀ t, (s.thread t).rest = [] := by
      intro t
      cases ht : s.thread t with
      | enqueue buf pc =>
          cases pc with
          | room loaded => rfl
          | _ => exact absurd ⟨t, buf, _, ht, rfl⟩ hin
      | _ => rfl
    rw [rest, hrest, hrest, List.append_nil, List.length_nil, Nat.add_zero] at hpub
    exact ⟨s.pkts.length, le_rfl, Nat.le_add_right _ _, hpub.ge⟩

/-- Where the counter is positive the next packet is wholly in the ring. -/
theorem Inv.next_whole (h : s.Inv) (hpos : 0 < s.recvPktCount) :
    ∃ pkt, s.pkts[s.decoded.length]? = some pkt ∧ VideoPkt pkt ∧
      offset s.pkts (s.decoded.length + 1) ≤ s.recvQueue.bufferHead.toNat := by
  obtain ⟨m, hm, hn, hhead⟩ := h.published
  have hcount := h.count
  have hlt : s.decoded.length < s.pkts.length := by omega
  refine ⟨s.pkts[s.decoded.length], List.getElem?_eq_getElem hlt,
    h.videoPkts _ (List.getElem_mem hlt), ?_⟩
  exact (offset_mono (by omega)).trans hhead

/-- The UI thread goes on in the queue. -/
theorem Inv.withUi (h : s.Inv) {q' : DataQueue} {mem : Nat → UInt8} {ui : UiPc}
    (hc : Carries 0 q' s.pkts.flatten s.rest s.ahead)
    (htail : s.recvQueue.bufferTail.toNat ≤ q'.bufferTail.toNat)
    (hhead : q'.bufferHead = s.recvQueue.bufferHead)
    (hui : { s with recvQueue := q', recvPkt := mem, ui := ui }.Decoding ui) :
    { s with recvQueue := q', recvPkt := mem, ui := ui }.Inv := by
  constructor
  case carries => exact hc
  case producing =>
    intro t buf pc ht
    obtain ⟨hproducing, hsuffix⟩ := h.producing t buf pc ht
    refine ⟨?_, hsuffix⟩
    show Placed .head capacity q'.bufferHead.toNat (q'.bufferTail.toNat + capacity) _ _ _
    rw [hhead]
    exact Placed.mono hproducing (Nat.add_le_add_right htail _)
  case alone => exact h.alone
  case buffer => exact h.buffer
  case videoPkts => exact h.videoPkts
  case last => exact h.last
  case delivered => exact h.delivered
  case small => exact h.small
  case count => exact h.count
  case decoded => exact h.decoded
  case decoding => exact hui

theorem Inv.frame (h : s.Inv) {s' : VideoQueue} (hs : s.step .frame = some s') : s'.Inv := by
  have hdecoding := h.decoding
  cases hui : s.ui with
  | idle =>
      simp only [step, hui] at hs
      cases hs
      rw [hui] at hdecoding
      exact h.withUi h.carries le_rfl rfl hdecoding
  | _ => simp [step, hui] at hs

theorem Inv.test (h : s.Inv) {s' : VideoQueue} {c : Counter} (hui : s.ui = .test)
    (hs : s.decodeStep c = some s') : s'.Inv := by
  have htail := h.decoding
  rw [hui] at htail
  have htail : s.recvQueue.bufferTail.toNat = offset s.pkts s.decoded.length := htail
  simp only [decodeStep, hui] at hs
  split at hs
  · next hpos =>
      obtain ⟨pkt, hnext, hpkt, hwhole⟩ := h.next_whole hpos
      have hend := offset_succ hnext
      have hsize : (UInt64.ofNat dataPktSize).toNat = 8 := rfl
      have hlen : 8 ≤ pkt.length := hpkt.length.1
      cases hs
      refine h.withUi h.carries le_rfl rfl ⟨pkt, ?_⟩
      constructor
      case next => exact hnext
      case whole => exact hwhole
      case inside =>
        rw [hsize]
        omega
      case consuming => trivial
      case finds =>
        show s.recvQueue.bufferTail.toNat + (UInt64.ofNat dataPktSize).toNat ≤ _
        rw [hsize]
        show _ ≤ s.recvQueue.bufferHead.toNat
        omega
      case left => exact Nat.zero_add _
      case position => exact htail
      case read => rfl
  · cases hs
    exact h.withUi h.carries le_rfl rfl htail

theorem headed_of_header {mem : Nat → UInt8} {pkt : Bytes} (hpkt : VideoPkt pkt)
    (hread : Ring.block mem 0 dataPktSize = pkt.take dataPktSize) :
    (ofBe32 (Ring.block mem 4 4)).toNat = pkt.length - dataPktSize ∧
      Headed (Ring.store mem 4 (leBytes 4 (pkt.length - dataPktSize))) pkt := by
  have hlt : pkt.length - dataPktSize < 2 ^ 32 := by
    have hle := hpkt.length.2
    rw [bufLen_eq] at hle
    omega
  rw [hpkt.header] at hread
  have hsplit : Ring.block mem 0 dataPktSize = Ring.block mem 0 4 ++ Ring.block mem 4 4 :=
    Ring.block_add mem 0 4 4
  rw [hsplit] at hread
  obtain ⟨hchannel, hlen⟩ := List.append_inj hread (by simp)
  refine ⟨?_, ?_, ?_⟩
  · rw [hlen, ofBe32_be32, UInt32.toNat_ofNat', Nat.mod_eq_of_lt hlt]
  · rw [Ring.block_store_of_le _ (by decide), hchannel]
  · have hstore := Ring.block_store mem 4 (leBytes 4 (pkt.length - dataPktSize))
    rw [leBytes_length] at hstore
    exact hstore

theorem fields_of_headed {mem : Nat → UInt8} {pkt : Bytes} (h : Headed mem pkt)
    (hpkt : VideoPkt pkt) : ofLeBytes (Ring.block mem 0 4) = NetChannel.video.code ∧
      ofLeBytes (Ring.block mem 4 4) = pkt.length - dataPktSize := by
  have hshort := hpkt.length.2
  rw [bufLen_eq] at hshort
  constructor
  · rw [h.channel]
    rfl
  · rw [h.dataLen, ofLeBytes_leBytes]
    exact Nat.mod_eq_of_lt (by omega)

theorem Inv.header (h : s.Inv) {s' : VideoQueue} {c : Counter} {filled : Nat} {pc : Pc UInt64}
    (hui : s.ui = .header filled pc) (hs : s.decodeStep c = some s') : s'.Inv := by
  have hdecoding := h.decoding
  rw [hui] at hdecoding
  obtain ⟨pkt, htaking⟩ := hdecoding
  simp only [decodeStep, hui] at hs
  obtain ⟨⟨q', bs, o⟩, hq, hs⟩ := Option.bind_eq_some_iff.mp hs
  obtain ⟨u, hfill, hs⟩ := Option.map_eq_some_iff.mp hs
  obtain ⟨-, hu⟩ := Option.ite_none_right_eq_some.mp hfill
  cases hu
  have hsize : (UInt64.ofNat dataPktSize).toNat = 8 := rfl
  obtain ⟨hinl, hinr, hc, hhead, htail⟩ := htaking.step h.carries (by rw [hsize]; decide) hq
  have hpkt : VideoPkt pkt := h.videoPkts pkt (List.mem_of_getElem? htaking.next)
  cases o with
  | inl pc' =>
      cases hs
      have hnext := hinl pc' rfl
      rw [Nat.zero_add] at hnext
      exact h.withUi hc htail hhead ⟨pkt, hnext⟩
  | inr r =>
      obtain ⟨rfl, hfilled, hend⟩ := hinr r rfl
      have hread := htaking.read
      rw [hfilled, hsize, List.drop_zero] at hread
      obtain ⟨hlen, hheaded⟩ := headed_of_header hpkt hread
      have hlong : 8 ≤ pkt.length := hpkt.length.1
      have hshort := hpkt.length_le
      rw [capacity_eq] at hshort
      have hto : (UInt64.ofNat (pkt.length - dataPktSize)).toNat = pkt.length - dataPktSize := by
        rw [UInt64.toNat_ofNat']
        exact Nat.mod_eq_of_lt (by omega)
      have hdeq : DataQueue.dequeueEntry (UInt64.ofNat (pkt.length - dataPktSize)) =
          .inl (.room none) := by
        apply if_neg
        rw [UInt64.lt_iff_toNat_lt, hto, queueDataSize_toNat]
        omega
      have hnext := offset_succ htaking.next
      have hwhole := htaking.whole
      simp only [Ring.store_nil, afterHeader, hlen, hdeq, afterPayload] at hs
      cases hs
      refine h.withUi hc htail hhead ⟨pkt, hto, hheaded, ?_⟩
      constructor
      case next => exact htaking.next
      case whole =>
        rw [hhead]
        exact hwhole
      case inside =>
        rw [hto]
        show 8 + (pkt.length - 8) ≤ _
        omega
      case consuming => trivial
      case finds =>
        show q'.bufferTail.toNat + _ ≤ q'.bufferHead.toNat
        rw [hhead, hto, hend, hsize]
        show _ + (pkt.length - 8) ≤ _
        omega
      case left => exact Nat.zero_add _
      case position =>
        rw [hsize] at hend
        exact hend
      case read => rfl

theorem Inv.payload (h : s.Inv) {s' : VideoQueue} {c : Counter} {len : UInt64} {filled : Nat}
    {pc : Pc UInt64} (hui : s.ui = .payload len filled pc) (hs : s.decodeStep c = some s') :
    s'.Inv := by
  have hdecoding := h.decoding
  rw [hui] at hdecoding
  obtain ⟨pkt, hlen, hheaded, htaking⟩ := hdecoding
  simp only [decodeStep, hui] at hs
  obtain ⟨⟨q', bs, o⟩, hq, hs⟩ := Option.bind_eq_some_iff.mp hs
  obtain ⟨u, hfill, hs⟩ := Option.map_eq_some_iff.mp hs
  obtain ⟨-, hu⟩ := Option.ite_none_right_eq_some.mp hfill
  cases hu
  have hpkt : VideoPkt pkt := h.videoPkts pkt (List.mem_of_getElem? htaking.next)
  have hcap := hpkt.length_le
  have hlong := hpkt.length.1
  obtain ⟨hinl, hinr, hc, hhead, htail⟩ := htaking.step h.carries (by omega) hq
  have hkept : Headed (Ring.store s.recvPkt (dataPktSize + filled) bs) pkt := by
    constructor
    · rw [Ring.block_store_of_le _ (by simp [dataPktSize]; omega)]
      exact hheaded.channel
    · rw [Ring.block_store_of_le _ (by simp [dataPktSize])]
      exact hheaded.dataLen
  cases o with
  | inl pc' =>
      cases hs
      exact h.withUi hc htail hhead ⟨pkt, hlen, hkept, hinl pc' rfl⟩
  | inr r =>
      obtain ⟨rfl, hfilled, hend⟩ := hinr r rfl
      cases hs
      have hnext := offset_succ htaking.next
      have hlong : 8 ≤ pkt.length := hlong
      have hlen : len.toNat = pkt.length - 8 := hlen
      refine h.withUi hc htail hhead ⟨pkt, htaking.next, ?_, ?_, hkept, ?_⟩
      · show _ ≤ q'.bufferHead.toNat
        rw [hhead]
        exact htaking.whole
      · show q'.bufferTail.toNat = offset s.pkts (s.decoded.length + 1)
        have hend : q'.bufferTail.toNat = offset s.pkts s.decoded.length + 8 + len.toNat := hend
        omega
      · have hread := htaking.read
        rw [hfilled, hlen] at hread
        rw [Ring.store_nil, show pkt.length - dataPktSize = pkt.length - 8 from rfl, hread]
        exact List.take_of_length_le (by rw [List.length_drop]; exact le_rfl)

theorem Inv.finish (h : s.Inv) {s' : VideoQueue} {c : Counter} (hui : s.ui = .finish)
    (hs : s.decodeStep c = some s') : s'.Inv := by
  have hdecoding := h.decoding
  rw [hui] at hdecoding
  obtain ⟨pkt, hnext, hwhole, hend, hheaded, hread⟩ := hdecoding
  have hpkt : VideoPkt pkt := h.videoPkts pkt (List.mem_of_getElem? hnext)
  obtain ⟨hlong, hshort⟩ := hpkt.length
  obtain ⟨hchannel, hlen⟩ := fields_of_headed hheaded hpkt
  have hin : dataPktSize + (pkt.length - dataPktSize) ≤ bufLen := by omega
  simp only [decodeStep, hui, finishPkt, hchannel, hlen, if_true, if_pos hin] at hs
  cases hs
  rw [hread]
  obtain ⟨hk, hget⟩ := List.getElem?_eq_some_iff.mp hnext
  have hcount := h.count
  constructor
  case carries => exact h.carries
  case producing => exact h.producing
  case alone => exact h.alone
  case buffer => exact h.buffer
  case videoPkts => exact h.videoPkts
  case last => exact h.last
  case delivered => exact h.delivered
  case small => exact h.small
  case count =>
    show s.recvPktCount - 1 + s.uncounted + (s.decoded ++ [_]).length = s.pkts.length
    rw [List.length_append, List.length_singleton]
    omega
  case decoded =>
    show s.decoded ++ [_] = (s.pkts.take (s.decoded ++ [_]).length).map _
    rw [List.length_append, List.length_singleton, List.take_add_one, hnext, List.map_append,
      ← h.decoded]
    rfl
  case decoding =>
    show _ = offset s.pkts (s.decoded ++ [_]).length
    rw [List.length_append, List.length_singleton]
    exact hend

theorem Inv.step (h : s.Inv) {s' : VideoQueue} {a : VideoAction} (ha : s.Proper a)
    (hs : s.step a = some s') : s'.Inv := by
  cases a with
  | deliver t buf => exact h.deliver ha.1 ha.2 hs
  | recv t c =>
      replace hs : s.recvStep t c = some s' := hs
      cases ht : s.thread t with
      | idle => simp [recvStep, ht] at hs
      | call buf =>
          obtain ⟨htcp, hkcp⟩ := ha (by rw [ht]; rfl)
          refine h.call ht (fun u buf' pc hu => ?_) hs
          cases u with
          | tcp =>
              rw [hu] at htcp
              cases htcp
          | kcp =>
              rw [hu] at hkcp
              cases hkcp
      | enqueue buf pc => exact h.enqueue ht hs
      | count buf => exact h.count_step ht hs
  | frame => exact h.frame hs
  | decode c =>
      replace hs : s.decodeStep c = some s' := hs
      cases hui : s.ui with
      | idle => simp [decodeStep, hui] at hs
      | test => exact h.test hui hs
      | header filled pc => exact h.header hui hs
      | payload len filled pc => exact h.payload hui hs
      | finish => exact h.finish hui hs

theorem inv_start : start.Inv := by
  constructor
  case carries =>
    refine ⟨⟨le_rfl, Nat.zero_le _⟩, le_rfl, rfl, List.suffix_refl _, ?_⟩
    intro p hlo hhi
    exact absurd hhi (Nat.not_lt.mpr hlo)
  case producing => exact nofun
  case alone => exact nofun
  case buffer => exact nofun
  case videoPkts => exact nofun
  case last => exact nofun
  case delivered => exact fun _ => rfl
  case small => decide
  case count => rfl
  case decoded => rfl
  case decoding => rfl

end

end VideoQueue

end Hprd.Clients
