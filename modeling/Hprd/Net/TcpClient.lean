import Hprd.Core.Framing

/-!
# The client's side of the TCP stream, `net/tcp_client.c`

The kernel's answers are lists of results: what `send` and `recv` return, call by
call. A list that runs out is a call that has not returned, which has no value.
-/

namespace Hprd.Net

open Hprd.Core

def bufLen : Nat := 4 * 1024 * 1024

theorem bufLen_eq : bufLen = 4194304 := rfl

/-! ## Sending -/

/-- What a send function returned, what it put on the wire and the results left over. -/
structure SendEnd where
  ret : Int
  wire : Bytes
  results : List Int

def tcpSendAll (buf : Bytes) : Nat → List Int → Option SendEnd
  | sumCount, [] => if sumCount < buf.length then none else some ⟨sumCount, [], []⟩
  | sumCount, r :: rs =>
      if sumCount < buf.length then
        if r ≤ 0 then some ⟨-1, [], rs⟩
        else (tcpSendAll buf (sumCount + r.toNat) rs).map fun e =>
          { e with wire := (buf.drop sumCount).take r.toNat ++ e.wire }
      else some ⟨sumCount, [], r :: rs⟩

def tcpSendPkt (buf : Bytes) (rs : List Int) : Option SendEnd := do
  let e ← tcpSendAll (be32 (UInt32.ofNat buf.length)) 0 rs
  if e.ret ≠ 4 then return ⟨-1, e.wire, e.results⟩
  let e' ← tcpSendAll buf 0 e.results
  if e'.ret ≠ buf.length then return ⟨-1, e.wire ++ e'.wire, e'.results⟩
  return ⟨0, e.wire ++ e'.wire, e'.results⟩

/-- The wire once every packet of a list was sent with result 0. -/
def tcpSendPkts : List Bytes → List Int → Option Bytes
  | [], _ => some []
  | p :: ps, rs => do
      let e ← tcpSendPkt p rs
      if e.ret ≠ 0 then none
      let wire ← tcpSendPkts ps e.results
      return e.wire ++ wire

theorem tcpSendAll_wire {buf : Bytes} {sumCount : Nat} {rs : List Int} {e : SendEnd}
    (hle : sumCount ≤ buf.length) (h : tcpSendAll buf sumCount rs = some e)
    (hret : e.ret = buf.length) : e.wire = buf.drop sumCount := by
  induction rs generalizing sumCount e with
  | nil =>
      rw [tcpSendAll] at h
      split at h
      · cases h
      · cases h
        rw [List.drop_of_length_le (by omega)]
  | cons r rs ih =>
      rw [tcpSendAll] at h
      split at h
      · split at h
        · cases h
          simp at hret
        · obtain ⟨e', he', rfl⟩ := Option.map_eq_some_iff.mp h
          by_cases hin : sumCount + r.toNat ≤ buf.length
          · show _ ++ e'.wire = _
            rw [ih hin he' hret, ← List.drop_drop, List.take_append_drop]
          · -- A result beyond the buffer would be reported as a longer send.
            cases rs with
            | nil =>
                rw [tcpSendAll, if_neg (by omega)] at he'
                cases he'
                simp at hret
                omega
            | cons r' rs =>
                rw [tcpSendAll, if_neg (by omega)] at he'
                cases he'
                simp at hret
                omega
      · cases h
        rw [List.drop_of_length_le (by omega)]

theorem tcpSendPkt_wire {buf : Bytes} {rs : List Int} {e : SendEnd}
    (h : tcpSendPkt buf rs = some e) (hret : e.ret = 0) : e.wire = frame buf := by
  simp only [tcpSendPkt, Option.bind_eq_bind, Option.bind_eq_some_iff] at h
  obtain ⟨e₁, h₁, h⟩ := h
  split at h
  · cases h
    simp at hret
  · next hfour =>
      simp only [Option.bind_eq_some_iff] at h
      obtain ⟨e₂, h₂, h⟩ := h
      split at h
      · cases h
        simp at hret
      · next hall =>
          cases h
          have hw₁ := tcpSendAll_wire (Nat.zero_le _) h₁ (by simpa using not_not.mp hfour)
          have hw₂ := tcpSendAll_wire (Nat.zero_le _) h₂ (not_not.mp hall)
          simp [hw₁, hw₂, frame]

theorem tcpSendPkts_wire {ps : List Bytes} {rs : List Int} {wire : Bytes}
    (h : tcpSendPkts ps rs = some wire) : wire = frames ps := by
  induction ps generalizing rs wire with
  | nil =>
      cases h
      rfl
  | cons p ps ih =>
      simp only [tcpSendPkts, Option.bind_eq_bind, Option.bind_eq_some_iff] at h
      obtain ⟨e, he, h⟩ := h
      split at h
      · cases h
      · next hzero =>
          simp only [Option.bind_eq_some_iff] at h
          obtain ⟨w, hw, h⟩ := h
          cases h
          rw [tcpSendPkt_wire he (not_not.mp hzero), ih hw, frames_cons]

theorem tcpSendAll_whole {buf : Bytes} (hpos : 0 < buf.length) (rs : List Int) :
    tcpSendAll buf 0 (buf.length :: rs) = some ⟨buf.length, buf, rs⟩ := by
  have hend : ∀ rs, tcpSendAll buf buf.length rs = some ⟨buf.length, [], rs⟩ := by
    intro rs
    cases rs <;> simp [tcpSendAll]
  have hp : ¬(buf.length : Int) ≤ 0 := by omega
  simp only [tcpSendAll, hpos, if_true, hp, if_false, Int.toNat_natCast, Nat.zero_add, hend]
  simp

theorem tcpSendPkts_whole {ps : List Bytes} (h : ∀ p ∈ ps, 0 < p.length) :
    tcpSendPkts ps (ps.flatMap fun p => [4, (p.length : Int)]) = some (frames ps) := by
  induction ps with
  | nil => rfl
  | cons p ps ih =>
      have hp := h p (List.mem_cons_self ..)
      have ih := ih fun p' hp' => h p' (List.mem_cons_of_mem _ hp')
      have hlen : (be32 (UInt32.ofNat p.length)).length = 4 := be32_length _
      have h4 : ∀ rs, tcpSendAll (be32 (UInt32.ofNat p.length)) 0 (4 :: rs) =
          some ⟨4, be32 (UInt32.ofNat p.length), rs⟩ := by
        intro rs
        have hw := tcpSendAll_whole (by rw [hlen]; omega) rs
        rw [hlen] at hw
        exact hw
      have hn := tcpSendAll_whole hp
      simp only [tcpSendPkts, List.flatMap_cons, List.cons_append, List.nil_append, tcpSendPkt, h4]
      simp [hn, ih, frame]

/-! ## Receiving -/

/-- A `recv` that fails or finds the connection closed, or one that returns at most `n + 1`
bytes once there are some. -/
inductive RecvCut where
  | closed
  | upTo (n : Nat)

/-- `_tcp_recv_all` waits for bytes, returns -1, or returns 0 with the buffer filled. -/
inductive RecvAll where
  | blocked (stream : Bytes)
  | failed
  | full (buf : Bytes) (cuts : List RecvCut) (stream : Bytes)

def RecvAll.push (got : Bytes) : RecvAll → RecvAll
  | .full buf cuts stream => .full (got ++ buf) cuts stream
  | e => e

/-- How many bytes a `recv` for `asked` returns when so many are there. -/
def recvCount (n asked available : Nat) : Nat := min (n + 1) (min asked available)

def tcpRecvAll : List RecvCut → Nat → Bytes → RecvAll
  | cuts, 0, stream => .full [] cuts stream
  | [], _ + 1, stream => .blocked stream
  | .closed :: _, _ + 1, _ => .failed
  | .upTo n :: cuts, len + 1, stream =>
      if recvCount n (len + 1) stream.length = 0 then .blocked stream
      else
        (tcpRecvAll cuts (len + 1 - recvCount n (len + 1) stream.length)
          (stream.drop (recvCount n (len + 1) stream.length))).push
          (stream.take (recvCount n (len + 1) stream.length))

/-- `_tcp_recv_pkt`: what its callback was given and whether it returned 0. -/
inductive PktEnd where
  | blocked (stream : Bytes)
  | closed
  | exit
  | returned (call : Option Bytes) (cuts : List RecvCut) (stream : Bytes)

def tcpRecvPkt (cuts : List RecvCut) (stream : Bytes) : PktEnd :=
  match tcpRecvAll cuts 4 stream with
  | .blocked stream => .blocked stream
  | .failed => .closed
  | .full hdr cuts stream =>
      let pktLen := (ofBe32 hdr).toNat
      if bufLen < pktLen then .exit
      else if 0 < pktLen then
        match tcpRecvAll cuts pktLen stream with
        | .blocked stream => .blocked stream
        | .failed => .closed
        | .full buf cuts stream => .returned (some buf) cuts stream
      else .returned none cuts stream

inductive ThreadEnd where
  | running
  | blocked (stream : Bytes)
  | closed
  | exit

/-- The callbacks of `_recv_thread` and how far it came. -/
structure Received where
  calls : List Bytes
  state : ThreadEnd

def recvThread : Nat → List RecvCut → Bytes → Received
  | 0, _, _ => ⟨[], .running⟩
  | fuel + 1, cuts, stream =>
      match tcpRecvPkt cuts stream with
      | .blocked stream => ⟨[], .blocked stream⟩
      | .closed => ⟨[], .closed⟩
      | .exit => ⟨[], .exit⟩
      | .returned call cuts stream =>
          let r := recvThread fuel cuts stream
          ⟨call.toList ++ r.calls, r.state⟩

theorem push_eq_full {got buf stream : Bytes} {cuts : List RecvCut} {e : RecvAll}
    (h : e.push got = .full buf cuts stream) :
    ∃ b, e = .full b cuts stream ∧ buf = got ++ b := by
  cases e with
  | blocked s => cases h
  | failed => cases h
  | full b cuts' s =>
      cases h
      exact ⟨b, rfl, rfl⟩

theorem push_eq_blocked {got stream : Bytes} {e : RecvAll} (h : e.push got = .blocked stream) :
    e = .blocked stream := by
  cases e with
  | blocked s =>
      cases h
      rfl
  | failed => cases h
  | full b cuts s => cases h

theorem tcpRecvAll_full {cuts cuts' : List RecvCut} {len : Nat} {stream buf rest : Bytes}
    (h : tcpRecvAll cuts len stream = .full buf cuts' rest) :
    stream = buf ++ rest ∧ buf.length = len ∧ cuts'.length ≤ cuts.length ∧
      (0 < len → cuts'.length < cuts.length) := by
  fun_induction tcpRecvAll cuts len stream generalizing buf with
  | case1 cuts stream =>
      cases h
      simp
  | case2 len stream => cases h
  | case3 cuts len stream => cases h
  | case4 n cuts len stream hzero => cases h
  | case5 n cuts len stream hpos ih =>
      obtain ⟨b, hb, rfl⟩ := push_eq_full h
      obtain ⟨hs, hlen, hle, -⟩ := ih hb
      generalize hcount : recvCount n (len + 1) stream.length = k at *
      have hk : k ≤ len + 1 ∧ k ≤ stream.length := by
        rw [recvCount] at hcount
        omega
      refine ⟨?_, ?_, ?_, fun _ => ?_⟩
      · rw [List.append_assoc, ← hs, List.take_append_drop]
      · rw [List.length_append, List.length_take, hlen]
        omega
      · rw [List.length_cons]
        omega
      · rw [List.length_cons]
        omega

theorem tcpRecvAll_blocked {cuts : List RecvCut} {len : Nat} {stream rest : Bytes}
    (h : tcpRecvAll cuts len stream = .blocked rest) :
    ∃ got, stream = got ++ rest ∧ got.length < len := by
  fun_induction tcpRecvAll cuts len stream with
  | case1 cuts stream => cases h
  | case2 len stream =>
      cases h
      exact ⟨[], rfl, Nat.succ_pos _⟩
  | case3 cuts len stream => cases h
  | case4 n cuts len stream hzero =>
      cases h
      exact ⟨[], rfl, Nat.succ_pos _⟩
  | case5 n cuts len stream hpos ih =>
      obtain ⟨got, hs, hlt⟩ := ih (push_eq_blocked h)
      generalize hcount : recvCount n (len + 1) stream.length = k at *
      have hk : k ≤ len + 1 := by
        rw [recvCount] at hcount
        omega
      refine ⟨stream.take k ++ got, ?_, ?_⟩
      · rw [List.append_assoc, ← hs, List.take_append_drop]
      · rw [List.length_append, List.length_take]
        omega

/-- On a stream that begins with a frame, as far as it has come, one `_tcp_recv_pkt` waits
inside the frame, gives up, or calls back with the payload. -/
theorem tcpRecvPkt_frame {cuts : List RecvCut} {stream p tail : Bytes} (hpos : 0 < p.length)
    (hmax : p.length ≤ bufLen) (hpre : stream <+: frame p ++ tail) :
    (∃ got rest, tcpRecvPkt cuts stream = .blocked rest ∧ stream = got ++ rest ∧
      got.length < 4 + p.length) ∨
    tcpRecvPkt cuts stream = .closed ∨
    ∃ cuts' rest, tcpRecvPkt cuts stream = .returned (some p) cuts' rest ∧
      stream = frame p ++ rest ∧ cuts'.length < cuts.length := by
  have hbuf := bufLen_eq
  unfold tcpRecvPkt
  cases h₁ : tcpRecvAll cuts 4 stream with
  | blocked rest =>
      obtain ⟨got, hs, hlt⟩ := tcpRecvAll_blocked h₁
      exact Or.inl ⟨got, rest, rfl, hs, by omega⟩
  | failed => exact Or.inr (Or.inl rfl)
  | full hdr cuts₁ s₁ =>
      obtain ⟨hs₁, hlen₁, hle₁, hlt₁⟩ := tcpRecvAll_full h₁
      have hhdr : hdr = be32 (UInt32.ofNat p.length) := by
        have hp : hdr <+: be32 (UInt32.ofNat p.length) ++ (p ++ tail) := by
          rw [← List.append_assoc]
          exact List.IsPrefix.trans ⟨s₁, hs₁.symm⟩ hpre
        have hq : be32 (UInt32.ofNat p.length) <+: be32 (UInt32.ofNat p.length) ++ (p ++ tail) :=
          List.prefix_append ..
        have hle := List.prefix_of_prefix_length_le hp hq (by rw [hlen₁, be32_length])
        exact hle.eq_of_length (by rw [hlen₁, be32_length])
      have hlen : (ofBe32 hdr).toNat = p.length := by
        rw [hhdr, ofBe32_be32, UInt32.toNat_ofNat']
        omega
      dsimp only
      rw [hlen, if_neg (by omega), if_pos hpos]
      have hpre₁ : s₁ <+: p ++ tail := by
        rw [hs₁, hhdr, frame, List.append_assoc, List.prefix_append_right_inj] at hpre
        exact hpre
      cases h₂ : tcpRecvAll cuts₁ p.length s₁ with
      | blocked rest =>
          obtain ⟨got, hs, hlt⟩ := tcpRecvAll_blocked h₂
          refine Or.inl ⟨hdr ++ got, rest, rfl, ?_, ?_⟩
          · rw [hs₁, hs, List.append_assoc]
          · rw [List.length_append]
            omega
      | failed => exact Or.inr (Or.inl rfl)
      | full buf cuts₂ s₂ =>
          obtain ⟨hs₂, hlen₂, hle₂, hlt₂⟩ := tcpRecvAll_full h₂
          have hp : buf = p := by
            have hb : buf <+: p ++ tail := List.IsPrefix.trans ⟨s₂, hs₂.symm⟩ hpre₁
            have hle := List.prefix_of_prefix_length_le hb (List.prefix_append p tail)
              (by rw [hlen₂])
            exact hle.eq_of_length hlen₂
          refine Or.inr (Or.inr ⟨cuts₂, s₂, by rw [hp], ?_, ?_⟩)
          · rw [hs₁, hs₂, hhdr, hp, frame, List.append_assoc]
          · have := hlt₁ (by omega)
            omega

/-- On a stream that begins with frames the callbacks are their payloads, as many as have
come, and all of them once the stream is used up. -/
theorem recvThread_frames {ps : List Bytes} {last stream : Bytes} {fuel : Nat}
    {cuts : List RecvCut} (hsize : ∀ p ∈ ps, 0 < p.length ∧ p.length ≤ bufLen)
    (hlast : PartialFrame bufLen last) (hpre : stream <+: frames ps ++ last) :
    (recvThread fuel cuts stream).calls <+: ps ∧ (recvThread fuel cuts stream).state ≠ .exit ∧
      (cuts.length < fuel → (recvThread fuel cuts stream).state ≠ .running) ∧
      ((recvThread fuel cuts stream).state = .blocked [] → stream = frames ps ++ last →
        (recvThread fuel cuts stream).calls = ps) := by
  induction fuel generalizing ps cuts stream with
  | zero => simp [recvThread]
  | succ fuel ih =>
      rw [recvThread]
      cases ps with
      | nil =>
          obtain ⟨p, hpos, hmax, hlp, hne⟩ := hlast
          have hshort : last.length < 4 + p.length := by
            have hle := hlp.length_le
            rw [frame_length] at hle
            refine Nat.lt_of_le_of_ne hle fun he => hne (hlp.eq_of_length ?_)
            rw [frame_length, he]
          have hstream : stream <+: frame p ++ [] := by
            rw [List.append_nil]
            exact List.IsPrefix.trans hpre hlp
          rcases tcpRecvPkt_frame hpos hmax hstream with
            ⟨got, rest, h, -, -⟩ | h | ⟨cuts', rest, h, hs, -⟩
          · rw [h]
            simp
          · rw [h]
            simp
          · have hlen := hpre.length_le
            rw [hs, List.length_append, frame_length, frames_nil, List.nil_append] at hlen
            omega
      | cons p ps =>
          obtain ⟨hpos, hmax⟩ := hsize p (List.mem_cons_self ..)
          rw [frames_cons, List.append_assoc] at hpre
          rcases tcpRecvPkt_frame hpos hmax hpre with
            ⟨got, rest, h, hs, hlt⟩ | h | ⟨cuts', rest, h, hs, hcuts⟩
          · rw [h]
            refine ⟨List.nil_prefix, by simp, by simp, ?_⟩
            rintro hb rfl
            cases hb
            have hlen := congrArg List.length hs
            rw [frames_cons, List.append_assoc, List.length_append, frame_length,
              List.append_nil] at hlen
            omega
          · rw [h]
            simp
          · rw [h]
            rw [hs, List.prefix_append_right_inj] at hpre
            obtain ⟨hcalls, hexit, hrun, hall⟩ := @ih ps rest cuts'
              (fun p' hp' => hsize p' (List.mem_cons_of_mem _ hp')) hpre
            refine ⟨?_, hexit, fun hf => hrun (by omega), fun hb he => ?_⟩
            · exact List.prefix_append_right_inj [p] |>.mpr hcalls
            · have hrest : rest = frames ps ++ last := by
                rw [hs, frames_cons, List.append_assoc] at he
                exact List.append_cancel_left he
              show [p] ++ _ = p :: ps
              rw [hall hb hrest, List.singleton_append]

end Hprd.Net
