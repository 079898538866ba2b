import Hprd.Net.Kcp.WindowSteps

/-!
# Messages and their fragments

`frg` counts the fragments that are still to come, so the first segment of a message
says how many there are and the last one has 0. What `ikcp_recv` puts together is the
message that was cut, whatever comes behind it.
-/

namespace Hprd.Net.Kcp

open Hprd.Core

/-- The pieces that `ikcp_send` cuts a message into. -/
def messagePieces (msg : Bytes) : List Piece :=
  (fragments 1376 0 (fragmentCount 1376 msg.length) msg).map IkcpSeg.piece

/-- The pieces of the messages one after the other. -/
def pieces (msgs : List Bytes) : List Piece := msgs.flatMap messagePieces

variable {msg : Bytes} {msgs : List Bytes} {queue : List IkcpSeg} {rest : List Piece}

@[simp] theorem pieces_append (msgs msgs' : List Bytes) :
    pieces (msgs ++ msgs') = pieces msgs ++ pieces msgs' := List.flatMap_append

@[simp] theorem pieces_singleton (msg : Bytes) : pieces [msg] = messagePieces msg :=
  List.flatMap_singleton ..

theorem fragments_length (mss : Nat) (stream : Int32) (count : Nat) (buffer : Bytes) :
    (fragments mss stream count buffer).length = count := by
  induction count generalizing buffer with
  | zero => rfl
  | succ count ih => rw [fragments, List.length_cons, ih]

theorem fragmentCount_pos (len : Nat) : 0 < fragmentCount 1376 len := by
  unfold fragmentCount
  split <;> omega

theorem le_fragmentCount (len : Nat) : len ≤ fragmentCount 1376 len * 1376 := by
  unfold fragmentCount
  split <;> omega

theorem messagePieces_length (msg : Bytes) :
    (messagePieces msg).length = fragmentCount 1376 msg.length := by
  rw [messagePieces, List.length_map, fragments_length]

theorem messagePieces_ne_nil (msg : Bytes) : messagePieces msg ≠ [] := by
  have hpos := fragmentCount_pos msg.length
  rw [← messagePieces_length] at hpos
  exact List.ne_nil_of_length_pos hpos

theorem pieces_eq_nil (h : pieces msgs = []) : msgs = [] := by
  cases msgs with
  | nil => rfl
  | cons msg msgs =>
      rw [pieces, List.flatMap_cons, List.append_eq_nil_iff] at h
      exact absurd h.1 (messagePieces_ne_nil msg)

theorem fragments_data {count : Nat} {buffer : Bytes} (h : buffer.length ≤ count * 1376) :
    messageData (fragments 1376 0 count buffer) = buffer := by
  induction count generalizing buffer with
  | zero =>
      rw [List.eq_nil_of_length_eq_zero (by omega : buffer.length = 0)]
      rfl
  | succ count ih =>
      have hrest : messageData (fragments 1376 0 count (buffer.drop 1376)) = buffer.drop 1376 := by
        apply ih
        rw [List.length_drop]
        omega
      rw [fragments, messageData, List.map_cons, List.flatten_cons, ← messageData, hrest,
        List.take_append_drop]

theorem messageData_piece (segs : List IkcpSeg) :
    messageData segs = ((segs.map IkcpSeg.piece).map Prod.snd).flatten := by
  rw [messageData, List.map_map]
  rfl

theorem ofNat_ne_zero {count : Nat} (hpos : count ≠ 0) (hlt : count < 8192) :
    UInt32.ofNat count ≠ 0 := by
  intro he
  have hval := congrArg UInt32.toNat he
  rw [UInt32.toNat_ofNat'] at hval
  change count % 2 ^ 32 = 0 at hval
  omega

/-- The search for `frg == 0` ends with the message. -/
theorem firstMessage_fragments {count : Nat} {buffer : Bytes} (hcount : count < 8192)
    (hpre : queue.map IkcpSeg.piece <+:
      (fragments 1376 0 (count + 1) buffer).map IkcpSeg.piece ++ rest)
    (hlen : count < queue.length) :
    (firstMessage queue).1.map IkcpSeg.piece =
      (fragments 1376 0 (count + 1) buffer).map IkcpSeg.piece := by
  induction count generalizing queue buffer with
  | zero =>
      cases queue with
      | nil => cases hlen
      | cons seg queue =>
          obtain ⟨hseg, -⟩ := List.cons_prefix_cons.mp hpre
          have hfrg : seg.frg = 0 := congrArg Prod.fst hseg
          rw [firstMessage, if_pos hfrg, List.map_singleton, hseg]
          rfl
  | succ count ih =>
      cases queue with
      | nil => cases hlen
      | cons seg queue =>
          obtain ⟨hseg, hrest⟩ := List.cons_prefix_cons.mp hpre
          have hfrg : seg.frg = UInt32.ofNat (count + 1) := congrArg Prod.fst hseg
          have hne : seg.frg ≠ 0 := hfrg ▸ ofNat_ne_zero (Nat.succ_ne_zero count) hcount
          rw [firstMessage, if_neg hne, fragments, List.map_cons, List.map_cons, hseg,
            ih (Nat.lt_of_succ_lt hcount) hrest (Nat.lt_of_succ_lt_succ hlen)]

/-- `ikcp_peeksize` waits for as many segments as the first one announces. -/
theorem lt_length_of_peeksize {kcp : Ikcpcb} {count : Nat} {buffer : Bytes} (hcount : count < 8192)
    (hqueue : kcp.rcvQueue.length ≤ 8192) (hne : kcp.rcvQueue ≠ [])
    (hpre : kcp.rcvQueue.map IkcpSeg.piece <+:
      (fragments 1376 0 (count + 1) buffer).map IkcpSeg.piece ++ rest)
    (hpeek : 0 ≤ ikcpPeeksize kcp) : count < kcp.rcvQueue.length := by
  unfold ikcpPeeksize at hpeek
  unfold nrcvQue at hpeek
  generalize kcp.rcvQueue = queue at *
  cases queue with
  | nil => exact absurd rfl hne
  | cons seg queue =>
      obtain ⟨hseg, -⟩ := List.cons_prefix_cons.mp hpre
      have hfrg : seg.frg = UInt32.ofNat count := congrArg Prod.fst hseg
      dsimp only at hpeek
      split at hpeek
      next hzero =>
          have hnone : count = 0 := by
            by_contra hpos
            exact ofNat_ne_zero hpos hcount (hfrg.symm.trans hzero)
          rw [hnone]
          exact Nat.succ_pos _
      next =>
          split at hpeek
          next => exact absurd hpeek (by omega)
          next hmany =>
              have hnext : seg.frg + 1 = UInt32.ofNat (count + 1) := by
                rw [hfrg, UInt32.ofNat_add]
                rfl
              rw [hnext, UInt32.lt_iff_toNat_lt, UInt32.toNat_ofNat', UInt32.toNat_ofNat'] at hmany
              omega

/-- A queue that continues with the pieces of messages has the first of them in front. -/
theorem firstMessage_pieces {kcp : Ikcpcb} (hsmall : fragmentCount 1376 msg.length < 8192)
    (hqueue : kcp.rcvQueue.length ≤ 8192) (hne : kcp.rcvQueue ≠ [])
    (hpre : kcp.rcvQueue.map IkcpSeg.piece <+: pieces (msg :: msgs))
    (hpeek : 0 ≤ ikcpPeeksize kcp) :
    (firstMessage kcp.rcvQueue).1.map IkcpSeg.piece = messagePieces msg ∧
      messageData (firstMessage kcp.rcvQueue).1 = msg := by
  obtain ⟨count, hcount⟩ := Nat.exists_eq_add_one.mpr (fragmentCount_pos msg.length)
  rw [pieces, List.flatMap_cons, messagePieces, hcount] at hpre
  have hlen := lt_length_of_peeksize (by omega) hqueue hne hpre hpeek
  have hfirst := firstMessage_fragments (by omega) hpre hlen
  rw [← hcount] at hfirst
  refine ⟨hfirst, ?_⟩
  rw [messageData_piece, hfirst, ← messageData_piece]
  exact fragments_data (le_fragmentCount msg.length)

/-- A message that is there to its last fragment can be read. -/
theorem peeksize_nonneg {kcp : Ikcpcb} (hsmall : fragmentCount 1376 msg.length < 8192)
    (hqueue : kcp.rcvQueue.length ≤ 8192)
    (hpre : kcp.rcvQueue.map IkcpSeg.piece <+: pieces (msg :: msgs))
    (hlen : fragmentCount 1376 msg.length ≤ kcp.rcvQueue.length) : 0 ≤ ikcpPeeksize kcp := by
  obtain ⟨count, hcount⟩ := Nat.exists_eq_add_one.mpr (fragmentCount_pos msg.length)
  rw [pieces, List.flatMap_cons, messagePieces, hcount] at hpre
  rw [hcount] at hsmall hlen
  unfold ikcpPeeksize nrcvQue
  generalize kcp.rcvQueue = queue at *
  cases queue with
  | nil => cases hlen
  | cons seg queue =>
      obtain ⟨hseg, -⟩ := List.cons_prefix_cons.mp hpre
      have hfrg : seg.frg = UInt32.ofNat count := congrArg Prod.fst hseg
      have hnext : seg.frg + 1 = UInt32.ofNat (count + 1) := by
        rw [hfrg, UInt32.ofNat_add]
        rfl
      have hmany : ¬UInt32.ofNat (seg :: queue).length < seg.frg + 1 := by
        rw [hnext, UInt32.lt_iff_toNat_lt, UInt32.toNat_ofNat', UInt32.toNat_ofNat']
        omega
      dsimp only
      split
      · exact Int.natCast_nonneg _
      · exact Int.natCast_nonneg _

theorem peeksize_eq {kcp : Ikcpcb} (hpeek : 0 ≤ ikcpPeeksize kcp) :
    ikcpPeeksize kcp = (messageData (firstMessage kcp.rcvQueue).1).length := by
  unfold ikcpPeeksize nrcvQue at hpeek ⊢
  generalize kcp.rcvQueue = queue at *
  cases queue with
  | nil => exact absurd hpeek (by decide)
  | cons seg queue =>
      dsimp only at hpeek ⊢
      split
      next hzero => simp [firstMessage, hzero, messageData]
      next hzero =>
          rw [if_neg hzero] at hpeek
          split
          next hfew =>
              rw [if_pos hfew] at hpeek
              exact absurd hpeek (by decide)
          · rfl

theorem ikcpRecv_nonneg {kcp : Ikcpcb} {len : Nat} (hne : kcp.rcvQueue ≠ [])
    (hpeek : 0 ≤ ikcpPeeksize kcp) (hlen : ikcpPeeksize kcp ≤ len) : 0 ≤ (ikcpRecv kcp len).1 := by
  unfold ikcpRecv
  dsimp only
  rw [if_neg hne, if_neg (not_lt.mpr hpeek), if_neg (not_lt.mpr hlen)]
  exact Int.natCast_nonneg _

end Hprd.Net.Kcp
