import Hprd.Net.SendPath

/-!
# Frames of concurrent senders

Length and payload are enqueued in two loops, and the wait of the second one
gives the lock away. The bytes of a client's queue stay whole frames in every run
where a payload finds room behind its length, or waits for it while no other call
on that client is under way.
-/

namespace Hprd.Net

open Hprd.Core Common

/-- Whole frames, each of one call, and the beginning of one more. -/
def Unmixed (xs : List (Nat × UInt8)) : Prop :=
  ∃ ks last k, xs = List.flatMap SendCall.framed ks ++ last ∧ last <+: SendCall.framed k

/-- The call whose length is in the queue and whose payload is not. -/
def SendPc.midFrame : SendPc → Option SendCall
  | .put k .payload => some k
  | .wait k .payload => some k
  | .relock k .payload => some k
  | _ => none

def SendPc.call : SendPc → Option SendCall
  | .idle => none
  | .check k => some k
  | .lock k => some k
  | .put k _ => some k
  | .wait k _ => some k
  | .relock k _ => some k

theorem call_of_midFrame {p : SendPc} {k : SendCall} (h : p.midFrame = some k) :
    p.call = some k := by
  cases p with
  | put l part => cases part <;> simp_all [SendPc.midFrame, SendPc.call]
  | wait l part => cases part <;> simp_all [SendPc.midFrame, SendPc.call]
  | relock l part => cases part <;> simp_all [SendPc.midFrame, SendPc.call]
  | idle => cases h
  | check l => cases h
  | lock l => cases h

/-- A step that enqueues a length on client `c` finds no other call on `c` inside its frame. -/
def LengthAloneOn (c : Nat) (s : SendState) (a : SendAction) : Prop :=
  ∀ t k, a = .run t → s.pc t = .put k .length → k.client = c → 4 ≤ (s.client c).queue.free →
    ∀ u l, (s.pc u).midFrame = some l → l.client ≠ c

/-- A payload finds room behind its length (one longer than the ring is refused at once), or no
other thread is inside a call on its client; and no call begins while a payload waits there. -/
def WaitsAlone (s : SendState) : SendAction → Prop
  | .run t => ∀ k, s.pc t = .put k .payload →
      k.buf ≠ [] ∧ (k.buf.length ≤ (s.client k.client).queue.free ∨ capacity < k.buf.length) ∨
        ∀ u l, u ≠ t → (s.pc u).call = some l → l.client ≠ k.client
  | .call _ c _ _ => ∀ u l, (s.pc u).midFrame = some l → l.client = c → s.pc u = .put l .payload
  | _ => True

/-- What follows the whole frames of client `c`: nothing, the length of the one call inside its
frame, or the length of a call that gave up with the lock taken. -/
inductive MidFrame (s : SendState) (c : Nat) : List (Nat × UInt8) → Prop where
  | between : (∀ t k, (s.pc t).midFrame = some k → k.client ≠ c) → MidFrame s c []
  | inside {t : Nat} {k : SendCall} : (s.pc t).midFrame = some k → k.client = c →
      (∀ u l, (s.pc u).midFrame = some l → l.client = c → u = t) → MidFrame s c (k.marked .length)
  | stuck {t : Nat} {k : SendCall} : (s.client c).owner = some (.sender t) →
      (∀ l part, s.pc t = .put l part → l.client ≠ c) → MidFrame s c (k.marked .length)

def FramesInv (s : SendState) (c : Nat) : Prop :=
  ∃ last, (s.client c).entered = (s.client c).sent.flatMap SendCall.framed ++ last ∧
    MidFrame s c last

/-! ## One step -/

/-- A step that leaves the owner of `c`, the calls inside their frames and the threads at an
`enqueue_data` on `c` alone keeps what follows the frames of `c`. -/
theorem MidFrame.congr {s s' : SendState} {c : Nat} {last : List (Nat × UInt8)}
    (hmid : ∀ t, (s'.pc t).midFrame = (s.pc t).midFrame)
    (howner : ∀ t, (s.client c).owner = some (.sender t) → (s'.client c).owner = some (.sender t))
    (hput : ∀ t l part, s'.pc t = .put l part → l.client = c →
      s.pc t = .put l part ∨ ∀ u, (s.client c).owner ≠ some (.sender u))
    (h : MidFrame s c last) : MidFrame s' c last := by
  cases h with
  | between hno => exact .between fun t k hk => hno t k (by rw [← hmid]; exact hk)
  | inside hk hc huniq =>
      refine .inside (by rw [hmid]; exact hk) hc fun u l hl hlc => ?_
      exact huniq u l (by rw [← hmid]; exact hl) hlc
  | @stuck t k ho hno =>
      refine .stuck (howner t ho) fun l part hpc hlc => ?_
      rcases hput t l part hpc hlc with hold | hfree
      · exact hno l part hold hlc
      · exact hfree t ho

/-- A thread at an `enqueue_data` shows that no call gave up with the lock taken. -/
theorem not_stuck {s : SendState} (hi : SendInv s) {t : Nat} {k : SendCall} {part : Part}
    (hpc : s.pc t = .put k part) {u : Nat}
    (ho : (s.client k.client).owner = some (.sender u))
    (hno : ∀ l part, s.pc u = .put l part → l.client ≠ k.client) : False := by
  have hl := hi.locked t k part hpc
  rw [hl] at ho
  cases ho
  exact hno k part hpc rfl

section

variable {s : SendState} {c : Nat} {last : List (Nat × UInt8)}

theorem midFrame_setPc {t : Nat} {p : SendPc} (hold : (s.pc t).midFrame = none)
    (hnew : p.midFrame = none) (hput : ∀ l part, p ≠ .put l part) (h : MidFrame s c last) :
    MidFrame (s.setPc t p) c last := by
  refine h.congr ?_ ?_ ?_
  · intro u
    by_cases hu : u = t
    · simp [hu, hold, hnew]
    · simp [hu]
  · exact fun u hu => hu
  · intro u l part hpc _
    by_cases hu : u = t
    · subst hu
      simp at hpc
      exact absurd hpc (hput l part)
    · simp [hu] at hpc
      exact Or.inl hpc

theorem midFrame_acquire {t : Nat} {k : SendCall} {part : Part}
    (hpc : (s.pc t = .lock k ∧ part = .length) ∨ s.pc t = .relock k part)
    (ho : (s.client k.client).owner = none) (h : MidFrame s c last) :
    MidFrame (s.acquire t k part) c last := by
  refine h.congr ?_ ?_ ?_
  · intro u
    by_cases hu : u = t
    · subst hu
      rcases hpc with ⟨hpc, rfl⟩ | hpc
      · simp [SendState.acquire, hpc, SendPc.midFrame]
      · cases part <;> simp [SendState.acquire, hpc, SendPc.midFrame]
    · simp [SendState.acquire, hu]
  · intro u hu
    by_cases hc : c = k.client
    · rw [hc, ho] at hu
      cases hu
    · simpa [SendState.acquire, hc] using hu
  · intro u l part' hput hlc
    by_cases hu : u = t
    · subst hu
      simp [SendState.acquire] at hput
      rcases hput with ⟨rfl, -⟩
      refine Or.inr fun v hv => ?_
      rw [← hlc, ho] at hv
      cases hv
    · simp [SendState.acquire, hu] at hput
      exact Or.inl hput

theorem midFrame_park (hi : SendInv s) {t : Nat} {k : SendCall} {part : Part}
    (hpc : s.pc t = .put k part) (h : MidFrame s c last) : MidFrame (s.park t k part) c last := by
  have hmid : ∀ u, ((s.park t k part).pc u).midFrame = (s.pc u).midFrame := by
    intro u
    by_cases hu : u = t
    · subst hu
      cases part <;> simp [SendState.park, hpc, SendPc.midFrame]
    · simp [SendState.park, hu]
  by_cases hc : c = k.client
  · subst hc
    cases h with
    | between hno => exact .between fun u l hl => hno u l (by rw [← hmid]; exact hl)
    | inside hk hkc huniq =>
        refine .inside (by rw [hmid]; exact hk) hkc fun u l hl hlc => ?_
        exact huniq u l (by rw [← hmid]; exact hl) hlc
    | stuck ho hno => exact (not_stuck hi hpc ho hno).elim
  · refine h.congr hmid (fun u hu => by simpa [SendState.park, hc] using hu) ?_
    intro u l part' hput hlc
    by_cases hu : u = t
    · subst hu
      simp [SendState.park] at hput
    · simp [SendState.park, hu] at hput
      exact Or.inl hput

theorem midFrame_unpark {t : Nat} {k : SendCall} {part : Part} (hpc : s.pc t = .wait k part)
    (h : MidFrame s c last) : MidFrame (s.unpark t k part) c last := by
  refine h.congr ?_ ?_ ?_
  · intro u
    by_cases hu : u = t
    · subst hu
      cases part <;> simp [SendState.unpark, hpc, SendPc.midFrame]
    · simp [SendState.unpark, hu]
  · intro u hu
    by_cases hc : c = k.client
    · subst hc
      simpa [SendState.unpark] using hu
    · simpa [SendState.unpark, hc] using hu
  · intro u l part' hput hlc
    by_cases hu : u = t
    · subst hu
      simp [SendState.unpark] at hput
    · simp [SendState.unpark, hu] at hput
      exact Or.inl hput

end

theorem FramesInv.keep {s s' : SendState} {c : Nat} (h : FramesInv s c)
    (hentered : ∀ d, (s'.client d).entered = (s.client d).entered)
    (hsent : ∀ d, (s'.client d).sent = (s.client d).sent)
    (hmid : ∀ last, MidFrame s c last → MidFrame s' c last) : FramesInv s' c := by
  obtain ⟨last, he, hm⟩ := h
  exact ⟨last, by rw [hentered, hsent, he], hmid last hm⟩

/-- The network thread moves no sender; the lock it takes was free and the lock it gives back
was its own. -/
theorem FramesInv.net {s s' : SendState} {c : Nat} (h : FramesInv s c) (hpc : s'.pc = s.pc)
    (hentered : ∀ d, (s'.client d).entered = (s.client d).entered)
    (hsent : ∀ d, (s'.client d).sent = (s.client d).sent)
    (howner : ∀ t, (s.client c).owner = some (.sender t) →
      (s'.client c).owner = some (.sender t)) : FramesInv s' c := by
  refine h.keep hentered hsent fun last hm => hm.congr (fun u => by rw [hpc]) howner ?_
  intro u l part hput _
  rw [hpc] at hput
  exact Or.inl hput

theorem MidFrame.elsewhere {s s' : SendState} {c d : Nat} {last : List (Nat × UInt8)}
    (h : MidFrame s c last) (t : Nat) (hd : d ≠ c) (hother : ∀ u, u ≠ t → s'.pc u = s.pc u)
    (hold : ∀ k, (s.pc t).call = some k → k.client = d)
    (hnew : ∀ k, (s'.pc t).call = some k → k.client = d)
    (howner : (s'.client c).owner = (s.client c).owner) : MidFrame s' c last := by
  have hback : ∀ u k, (s'.pc u).midFrame = some k → k.client = c → (s.pc u).midFrame = some k := by
    intro u k hk hkc
    by_cases hu : u = t
    · subst hu
      exact absurd ((hnew k (call_of_midFrame hk)).symm.trans hkc) hd
    · rwa [hother u hu] at hk
  cases h with
  | between hno => exact .between fun u k hk hkc => hno u k (hback u k hk hkc) hkc
  | @inside u k hk hkc huniq =>
      have hu : u ≠ t := by
        rintro rfl
        exact hd ((hold k (call_of_midFrame hk)).symm.trans hkc)
      refine .inside (by rw [hother u hu]; exact hk) hkc fun v l hl hlc => ?_
      exact huniq v l (hback v l hl hlc) hlc
  | @stuck u k ho hno =>
      refine .stuck (howner.trans ho) fun l part hpc hlc => ?_
      by_cases hu : u = t
      · subst hu
        exact hd ((hnew l (by rw [hpc]; rfl)).symm.trans hlc)
      · rw [hother u hu] at hpc
        exact hno l part hpc hlc

theorem framesInv_putLength {s : SendState} {c : Nat} (hi : SendInv s) (h : FramesInv s c)
    {t : Nat} {k : SendCall} {q : DataQueue} (hpc : s.pc t = .put k .length)
    (halone : k.client = c → ∀ u l, (s.pc u).midFrame = some l → l.client ≠ c) :
    FramesInv (s.putLength t k q) c := by
  obtain ⟨last, hent, hm⟩ := h
  by_cases hc : c = k.client
  · subst hc
    have halone := halone rfl
    have hnil : last = [] := by
      cases hm with
      | between _ => rfl
      | inside hk hkc _ => exact absurd hkc (halone _ _ hk)
      | stuck ho hno => exact (not_stuck hi hpc ho hno).elim
    subst hnil
    refine ⟨k.marked .length, ?_, ?_⟩
    · simpa [SendState.putLength] using hent
    · refine .inside (t := t) (by simp [SendState.putLength, SendPc.midFrame]) rfl ?_
      intro u l hl hlc
      by_contra hu
      simp [SendState.putLength, hu] at hl
      exact halone u l hl hlc
  · refine ⟨last, by simpa [SendState.putLength, hc] using hent, ?_⟩
    refine hm.elsewhere t (Ne.symm hc) ?_ ?_ ?_ ?_
    · intro u hu
      simp [SendState.putLength, hu]
    · intro l hl
      rw [hpc] at hl
      cases hl
      rfl
    · intro l hl
      simp [SendState.putLength] at hl
      cases hl
      rfl
    · simp [SendState.putLength, hc]

theorem framesInv_putPayload {s : SendState} {c : Nat} (hi : SendInv s) (h : FramesInv s c)
    {t : Nat} {k : SendCall} {q : DataQueue} (hpc : s.pc t = .put k .payload) :
    FramesInv (s.putPayload t k q) c := by
  obtain ⟨last, hent, hm⟩ := h
  have hmid : (s.pc t).midFrame = some k := by rw [hpc]; rfl
  by_cases hc : c = k.client
  · subst hc
    cases hm with
    | between hno => exact absurd rfl (hno t k hmid)
    | stuck ho hno => exact (not_stuck hi hpc ho hno).elim
    | @inside u l hl hlc huniq =>
        -- The frame that `k` completes is the one that was begun.
        have hu := huniq t k hmid rfl
        subst hu
        rw [hmid] at hl
        cases hl
        refine ⟨[], ?_, .between fun u l hl hlc => ?_⟩
        · simp [SendState.putPayload, hent, SendCall.framed]
        · by_cases hu : u = t
          · subst hu
            simp [SendState.putPayload, SendPc.midFrame] at hl
          · simp [SendState.putPayload, hu] at hl
            exact hu (huniq u l hl hlc)
  · refine ⟨last, by simpa [SendState.putPayload, hc] using hent, ?_⟩
    refine hm.elsewhere t (Ne.symm hc) ?_ ?_ ?_ ?_
    · intro u hu
      simp [SendState.putPayload, hu]
    · intro l hl
      rw [hpc] at hl
      cases hl
      rfl
    · intro l hl
      simp [SendState.putPayload, SendPc.call] at hl
    · simp [SendState.putPayload, hc]

/-- A payload that no ring can take leaves the lock with its thread for good. -/
theorem framesInv_refuse {s : SendState} {c : Nat} (hi : SendInv s) (h : FramesInv s c) {t : Nat}
    {k : SendCall} {part : Part} (hpc : s.pc t = .put k part)
    (hlong : capacity < (k.bytes part).length) : FramesInv (s.setPc t .idle) c := by
  have hpart : part = .payload := by
    cases part with
    | length =>
        have h4 : (k.bytes .length).length = 4 := be32_length _
        rw [h4, capacity_eq] at hlong
        omega
    | payload => rfl
  subst hpart
  obtain ⟨last, hent, hm⟩ := h
  have hmid : (s.pc t).midFrame = some k := by rw [hpc]; rfl
  refine ⟨last, hent, ?_⟩
  by_cases hc : c = k.client
  · subst hc
    cases hm with
    | between hno => exact absurd rfl (hno t k hmid)
    | stuck ho hno => exact (not_stuck hi hpc ho hno).elim
    | @inside u l hl hlc huniq =>
        exact .stuck (hi.locked t k .payload hpc) fun l' part' hput _ => by simp at hput
  · refine hm.elsewhere t (Ne.symm hc) ?_ ?_ ?_ rfl
    · intro u hu
      simp [hu]
    · intro l hl
      rw [hpc] at hl
      cases hl
      rfl
    · intro l hl
      simp [SendPc.call] at hl

theorem framesInv_step {s s' : SendState} {a : SendAction} {d : Nat} (hi : SendInv s)
    (h : FramesInv s d) (hok : LengthAloneOn d s a) (hs : Stepped s a s') : FramesInv s' d := by
  cases hs with
  | @call t c buf safe hpc hlen hr =>
      have h' : FramesInv { s with calls := s.calls + 1 } d :=
        h.net rfl (fun _ => rfl) (fun _ => rfl) (fun _ hu => hu)
      have hidle : (s.pc t).midFrame = none := by rw [hpc]; rfl
      refine h'.keep (fun _ => rfl) (fun _ => rfl) fun last hm => ?_
      cases safe
      · exact midFrame_setPc hidle rfl (by exact nofun) hm
      · exact midFrame_setPc hidle rfl (by exact nofun) hm
  | skip hpc =>
      refine h.keep (fun _ => rfl) (fun _ => rfl) fun last hm => ?_
      exact midFrame_setPc (by rw [hpc]; rfl) rfl (by exact nofun) hm
  | checked hpc =>
      refine h.keep (fun _ => rfl) (fun _ => rfl) fun last hm => ?_
      exact midFrame_setPc (by rw [hpc]; rfl) rfl (by exact nofun) hm
  | acquire hpc ho =>
      exact h.keep (member_update_same SendClient.entered (by rfl))
        (member_update_same SendClient.sent (by rfl)) fun last => midFrame_acquire hpc ho
  | park hpc hr =>
      exact h.keep (member_update_same SendClient.entered (by rfl))
        (member_update_same SendClient.sent (by rfl)) fun last => midFrame_park hi hpc
  | refuse hpc hlong => exact framesInv_refuse hi h hpc hlong
  | @putLength t k q hpc hq =>
      have h4 : (k.bytes .length).length = 4 := be32_length _
      have hfit := hq.fits
      rw [h4] at hfit
      exact framesInv_putLength hi h hpc fun hd => hok t k rfl hpc hd (by rw [← hd]; exact hfit)
  | putPayload hpc hq => exact framesInv_putPayload hi h hpc
  | wake hpc =>
      exact h.keep (member_update_same SendClient.entered (by rfl))
        (member_update_same SendClient.sent (by rfl)) fun last => midFrame_unpark hpc
  | drain hnet hc hr => exact h.net rfl (fun _ => rfl) (fun _ => rfl) (fun _ hu => hu)
  | netLock hnet ho =>
      refine h.net rfl (member_update_same SendClient.entered (by rfl))
        (member_update_same SendClient.sent (by rfl)) fun u hu => owner_update_of_eq hu ?_
      rintro rfl
      cases ho.symm.trans hu
  | sendFail hnet =>
      refine h.net rfl (member_update_same SendClient.entered (by rfl))
        (member_update_same SendClient.sent (by rfl)) fun u hu => owner_update_of_eq hu ?_
      rintro rfl
      cases (hi.netLocked _ hnet).symm.trans hu
  | sendZero hnet =>
      refine h.net rfl (member_update_same SendClient.entered (by rfl))
        (member_update_same SendClient.sent (by rfl)) fun u hu => owner_update_of_eq hu ?_
      rintro rfl
      exact hu
  | sendSome hnet hpos hn hbs =>
      refine h.net rfl (member_update_same SendClient.entered (by rfl))
        (member_update_same SendClient.sent (by rfl)) fun u hu => owner_update_of_eq hu ?_
      rintro rfl
      cases (hi.netLocked _ hnet).symm.trans hu
  | quiet hnet hno => exact h.net rfl (fun _ => rfl) (fun _ => rfl) (fun _ hu => hu)
  | signal hnet hret ht hmem hpc =>
      have h' : FramesInv { s with time := s.time + 1, net := .idle } d :=
        h.net rfl (fun _ => rfl) (fun _ => rfl) (fun _ hu => hu)
      exact h'.keep (member_update_same SendClient.entered (by rfl))
        (member_update_same SendClient.sent (by rfl)) fun last => midFrame_unpark hpc

/-! ## Waiting alone -/

/-- A call inside its frame on client `c` is at the `enqueue_data` of its payload, or no other thread
is inside a call on `c`. -/
def Sole (s : SendState) (c : Nat) : Prop :=
  ∀ u l, (s.pc u).midFrame = some l → l.client = c →
    s.pc u = .put l .payload ∨ ∀ t k, t ≠ u → (s.pc t).call = some k → k.client ≠ c

theorem Sole.move {s s' : SendState} {c t : Nat} {p : SendPc} (h : Sole s c)
    (hpc : s'.pc = Function.update s.pc t p)
    (hcall : ∀ k, p.call = some k → k.client = c → (s.pc t).call = some k ∨
      ∀ u l, (s.pc u).midFrame = some l → l.client = c → s.pc u = .put l .payload)
    (hself : ∀ l, p.midFrame = some l → l.client = c → p = .put l .payload ∨
      ∀ u k, u ≠ t → (s.pc u).call = some k → k.client ≠ c) : Sole s' c := by
  intro u l hl hlc
  rw [hpc] at hl ⊢
  by_cases hu : u = t
  · subst hu
    rw [Function.update_self] at hl ⊢
    refine (hself l hl hlc).imp_right fun halone v k hv hk => ?_
    rw [Function.update_of_ne hv] at hk
    exact halone v k hv hk
  · rw [Function.update_of_ne hu] at hl ⊢
    rcases h u l hl hlc with hput | halone
    · exact .inl hput
    · by_cases hnew : ∃ k, p.call = some k ∧ k.client = c
      · obtain ⟨k, hk, hkc⟩ := hnew
        rcases hcall k hk hkc with hold | hnone
        · exact absurd hkc (halone t k (Ne.symm hu) hold)
        · exact .inl (hnone u l hl hlc)
      · refine .inr fun v k hv hk => ?_
        by_cases hvt : v = t
        · rw [hvt, Function.update_self] at hk
          exact fun hkc => hnew ⟨k, hk, hkc⟩
        · rw [Function.update_of_ne hvt] at hk
          exact halone v k hv hk

theorem Sole.unpark {s s' : SendState} {c t : Nat} {k : SendCall} {part : Part} (h : Sole s c)
    (hpc : s.pc t = .wait k part) (hpc' : s'.pc = Function.update s.pc t (.relock k part)) :
    Sole s' c := by
  refine h.move hpc' (fun l hl _ => .inl ?_) fun l hl hlc => .inr ?_
  · rw [hpc]
    exact hl
  · have hmid : (s.pc t).midFrame = some l := by
      rw [hpc]
      cases part <;> exact hl
    refine (h t l hmid hlc).resolve_left ?_
    rw [hpc]
    exact nofun

theorem sole_step {s s' : SendState} {a : SendAction} {c : Nat} (h : Sole s c)
    (hok : WaitsAlone s a) (hs : Stepped s a s') : Sole s' c := by
  cases hs with
  | @call t d buf safe hpc hlen hr =>
      have hidle : ∀ p : SendPc, p.call = some ⟨s.calls, d, buf⟩ → p.midFrame = none →
          Sole ({ s with calls := s.calls + 1 }.setPc t p) c := by
        intro p hp hmid
        refine h.move rfl (fun k hk hkc => .inr ?_) fun l hl => ?_
        · cases hp.symm.trans hk
          rw [← hkc]
          exact hok
        · cases hmid.symm.trans hl
      cases safe
      · exact hidle _ rfl rfl
      · exact hidle _ rfl rfl
  | skip hpc => exact h.move rfl nofun nofun
  | checked hpc => exact h.move rfl (fun k hk _ => .inl (by rw [hpc]; exact hk)) nofun
  | @acquire t k part hpc ho =>
      refine h.move rfl (fun l hl _ => .inl ?_) fun l hl _ => .inl ?_
      · rcases hpc with ⟨hpc, -⟩ | hpc
        · rw [hpc]
          exact hl
        · rw [hpc]
          exact hl
      · cases part
        · cases hl
        · cases hl
          rfl
  | @park t k part hpc hr =>
      refine h.move rfl (fun l hl _ => .inl (by rw [hpc]; exact hl)) fun l hl hlc => .inr ?_
      cases part with
      | length => cases hl
      | payload =>
          cases hl
          rw [← hlc]
          refine (hok k hpc).resolve_left ?_
          rintro ⟨hne, hroom⟩
          rcases hr with hnil | ⟨hle, hfull⟩
          · exact hne hnil
          · exact hroom.elim (Nat.not_le.mpr hfull) (Nat.not_lt.mpr hle)
  | refuse hpc hlong => exact h.move rfl nofun nofun
  | putLength hpc hq =>
      exact h.move rfl (fun l hl _ => .inl (by rw [hpc]; exact hl))
        fun l hl _ => .inl (by cases hl; rfl)
  | putPayload hpc hq => exact h.move rfl nofun nofun
  | wake hpc => exact h.unpark hpc rfl
  | drain hnet hc hr => exact h
  | netLock hnet ho => exact h
  | sendFail hnet => exact h
  | sendZero hnet => exact h
  | sendSome hnet hpos hn hbs => exact h
  | quiet hnet hno => exact h
  | signal hnet hret ht hmem hpc => exact h.unpark hpc rfl

/-- The lock keeps a length out of a frame whose payload is at its `enqueue_data`. -/
theorem Sole.lengthAloneOn {s : SendState} {c : Nat} (h : Sole s c) (hi : SendInv s)
    (a : SendAction) : LengthAloneOn c s a := by
  intro t k _ hpc hkc _ u l hl hlc
  have hlock := hi.locked t k .length hpc
  have hne : t ≠ u := by
    rintro rfl
    rw [hpc] at hl
    cases hl
  rcases h u l hl hlc with hput | halone
  · have hlock' := hi.locked u l .payload hput
    rw [hlc, ← hkc, hlock] at hlock'
    exact hne (Owner.sender.inj (Option.some.inj hlock'))
  · exact halone t k hne (by rw [hpc]; rfl) hkc

/-! ## Whole runs -/

theorem framesInv_startAt (mem : Nat → UInt8) (start : UInt64) (c : Nat) :
    FramesInv (.startAt mem start) c :=
  ⟨[], rfl, .between fun t k hk => by cases hk⟩

theorem framesInv_run {s : SendState} {c : Nat} (h : sendMachine.Run WaitsAlone s) :
    FramesInv s c := by
  have hinv : SendInv s ∧ Sole s c ∧ FramesInv s c := by
    refine h.invariant (P := fun s => SendInv s ∧ Sole s c ∧ FramesInv s c) ?_ ?_
    · rintro s rfl
      exact ⟨sendInv_fresh, (by rintro u l ⟨⟩), framesInv_startAt _ _ c⟩
    · rintro s a t ⟨hi, hsole, hf⟩ hok hstep
      have hs := stepped hstep
      exact ⟨sendInv_step hi hs, sole_step hsole hok hs,
        framesInv_step hi hf (hsole.lengthAloneOn hi a) hs⟩
  exact hinv.2.2

/-- Frames do not mix in a run where payloads find room or wait for it alone. -/
theorem unmixed_of_waitsAlone {s : SendState} (h : sendMachine.Run WaitsAlone s) (c : Nat) :
    Unmixed (s.client c).entered := by
  obtain ⟨last, hent, hm⟩ := framesInv_run h
  cases hm with
  | between _ => exact ⟨_, [], ⟨0, 0, []⟩, hent, List.nil_prefix⟩
  | @inside t k _ _ _ => exact ⟨_, _, k, hent, List.prefix_append ..⟩
  | @stuck t k _ _ => exact ⟨_, _, k, hent, List.prefix_append ..⟩

/-- A payload that is not empty and finds room behind its length, or anywhere else. -/
def SendPc.HasRoom (s : SendState) : SendPc → Prop
  | .put k .payload => k.buf ≠ [] ∧ k.buf.length ≤ (s.client k.client).queue.free
  | _ => True

instance (s : SendState) : (p : SendPc) → Decidable (p.HasRoom s)
  | .put _ .payload => inferInstanceAs (Decidable (_ ∧ _))
  | .put _ .length | .idle | .check _ | .lock _ | .wait .. | .relock .. =>
      inferInstanceAs (Decidable True)

/-- Every payload finds room behind its length. -/
def FindsRoom (s : SendState) : SendAction → Prop
  | .run t => (s.pc t).HasRoom s
  | _ => True

instance (s : SendState) : (a : SendAction) → Decidable (FindsRoom s a)
  | .run t => inferInstanceAs (Decidable ((s.pc t).HasRoom s))
  | .call .. | .wake _ | .drain _ | .netLock | .netSend _ | .netSignal _ =>
      inferInstanceAs (Decidable True)

/-- No payload waits. -/
def NobodyWaits (s : SendState) : Prop :=
  ∀ u l, (s.pc u).midFrame = some l → s.pc u = .put l .payload

theorem NobodyWaits.move {s s' : SendState} {t : Nat} {p : SendPc} (h : NobodyWaits s)
    (hpc : s'.pc = Function.update s.pc t p) (hp : ∀ l, p.midFrame = some l → p = .put l .payload) :
    NobodyWaits s' := by
  intro u l hl
  rw [hpc] at hl ⊢
  by_cases hu : u = t
  · rw [hu, Function.update_self] at hl ⊢
    exact hp l hl
  · rw [Function.update_of_ne hu] at hl ⊢
    exact h u l hl

theorem NobodyWaits.unpark {s s' : SendState} {t : Nat} {k : SendCall} {part : Part}
    (h : NobodyWaits s) (hpc : s.pc t = .wait k part)
    (hpc' : s'.pc = Function.update s.pc t (.relock k part)) : NobodyWaits s' := by
  refine h.move hpc' fun l hl => ?_
  have hwas : (s.pc t).midFrame = some l := by
    rw [hpc]
    cases part <;> exact hl
  cases hpc.symm.trans (h t l hwas)

theorem nobodyWaits_step {s s' : SendState} {a : SendAction} (h : NobodyWaits s)
    (hok : FindsRoom s a) (hs : Stepped s a s') : NobodyWaits s' := by
  cases hs with
  | @call t c buf safe hpc hlen hr =>
      refine h.move rfl fun l hl => ?_
      cases safe <;> cases hl
  | skip hpc => exact h.move rfl nofun
  | checked hpc => exact h.move rfl nofun
  | @acquire t k part hpc ho =>
      refine h.move rfl fun l hl => ?_
      cases part <;> cases hl
      rfl
  | @park t k part hpc hr =>
      refine h.move rfl fun l hl => ?_
      cases part with
      | length => cases hl
      | payload =>
          rw [FindsRoom, hpc] at hok
          rcases hr with hnil | ⟨-, hfull⟩
          · exact absurd hnil hok.1
          · exact absurd hok.2 (Nat.not_le.mpr hfull)
  | refuse hpc hlong => exact h.move rfl nofun
  | putLength hpc hq => exact h.move rfl fun l hl => by cases hl; rfl
  | putPayload hpc hq => exact h.move rfl nofun
  | wake hpc => exact h.unpark hpc rfl
  | drain hnet hc hr => exact h
  | netLock hnet ho => exact h
  | sendFail hnet => exact h
  | sendZero hnet => exact h
  | sendSome hnet hpos hn hbs => exact h
  | quiet hnet hno => exact h
  | signal hnet hret ht hmem hpc => exact h.unpark hpc rfl

theorem waitsAlone_of_findsRoom {s : SendState} (h : sendMachine.Run FindsRoom s) :
    sendMachine.Run WaitsAlone s ∧ NobodyWaits s := by
  induction h with
  | start hs =>
      cases hs
      exact ⟨.start rfl, by rintro u l ⟨⟩⟩
  | @next s a s' _ hok hs ih =>
      refine ⟨.next ih.1 ?_ hs, nobodyWaits_step ih.2 hok (stepped hs)⟩
      cases a with
      | run t =>
          intro k hk
          rw [FindsRoom, hk] at hok
          exact .inl ⟨hok.1, .inl hok.2⟩
      | call t c buf safe => exact fun u l hl _ => ih.2 u l hl
      | wake t => trivial
      | drain c => trivial
      | netLock => trivial
      | netSend r => trivial
      | netSignal woken => trivial

/-- Two threads send on client 7 while the network thread drains it. The second call begins when the
first has entered its length, and the third has entered no more than that. -/
def twoSenders : List SendAction :=
  [.call 0 7 [1, 2, 3] true, .run 0, .run 0, .call 1 7 [4, 5] false, .run 1, .run 0, .drain 7,
    .run 1, .call 0 7 [6] true, .run 1, .run 1, .netLock, .netSend (.some 9), .netSignal none,
    .run 0, .run 0]

theorem unmixed_twoSenders : ∃ s, sendMachine.Run WaitsAlone s ∧
    (s.client 7).sent.map SendCall.buf = [[1, 2, 3], [4, 5]] ∧
    (s.client 7).entered = [(0, 0), (0, 0), (0, 0), (0, 3), (0, 1), (0, 2), (0, 3),
      (1, 0), (1, 0), (1, 0), (1, 2), (1, 4), (1, 5), (2, 0), (2, 0), (2, 0), (2, 1)] ∧
    (s.client 7).wire = [0, 0, 0, 3, 1, 2, 3, 0, 0] ∧ Unmixed (s.client 7).entered := by
  obtain ⟨s, hs, hview⟩ := Option.map_eq_some_iff.mp (by decide +kernel :
    ((sendMachine.guarded FindsRoom).exec .fresh twoSenders).map (fun s =>
      ((s.client 7).sent.map SendCall.buf, (s.client 7).entered, (s.client 7).wire)) =
      some ([[1, 2, 3], [4, 5]], [(0, 0), (0, 0), (0, 0), (0, 3), (0, 1), (0, 2), (0, 3),
        (1, 0), (1, 0), (1, 0), (1, 2), (1, 4), (1, 5), (2, 0), (2, 0), (2, 0), (2, 1)],
        [0, 0, 0, 3, 1, 2, 3, 0, 0]))
  have hrun := (waitsAlone_of_findsRoom (Machine.run_of_exec hs rfl)).1
  simp only [Prod.mk.injEq] at hview
  exact ⟨s, hrun, hview.1, hview.2.1, hview.2.2, unmixed_of_waitsAlone hrun 7⟩

/-! ## A mixed run -/

theorem framed_map_snd (k : SendCall) : k.framed.map Prod.snd = frame k.buf := by
  simp [SendCall.framed, SendCall.marked, SendCall.bytes, frame, Function.comp_def]

theorem framed_length (k : SendCall) : k.framed.length = 4 + k.buf.length := by
  rw [← frame_length, ← framed_map_snd, List.length_map]

theorem marked_id {k : SendCall} {part : Part} {y : Nat × UInt8} (h : y ∈ k.marked part) :
    y.1 = k.id := by
  simp only [SendCall.marked, List.mem_map] at h
  obtain ⟨b, -, rfl⟩ := h
  rfl

theorem framed_id {k : SendCall} {y : Nat × UInt8} (h : y ∈ k.framed) : y.1 = k.id := by
  rcases List.mem_append.mp h with h | h
  · exact marked_id h
  · exact marked_id h

theorem unmixed_tail {k : SendCall} {ys : List (Nat × UInt8)}
    (hlen : (k.framed ++ ys).length < 2 ^ 32) (hdiff : ∃ y ∈ ys, y.1 ≠ k.id)
    (h : Unmixed (k.framed ++ ys)) : Unmixed ys := by
  obtain ⟨ks, last, l, heq, hlast⟩ := h
  obtain ⟨y, hy, hne⟩ := hdiff
  have hk := framed_length k
  rw [List.length_append] at hlen
  cases ks with
  | nil =>
      have hsub : ∀ x ∈ k.framed ++ ys, x.1 = l.id := by
        intro x hx
        rw [heq] at hx
        exact framed_id (hlast.subset hx)
      obtain ⟨x, hx⟩ := List.exists_mem_of_length_pos (show 0 < k.framed.length by omega)
      have h₁ := hsub x (List.mem_append_left _ hx)
      have h₂ := hsub y (List.mem_append_right _ hy)
      rw [framed_id hx] at h₁
      exact absurd (h₂.trans h₁.symm) hne
  | cons k' ks =>
      rw [List.flatMap_cons, List.append_assoc] at heq
      have hlens := congrArg List.length heq
      rw [List.length_append, List.length_append, framed_length k'] at hlens
      have hd := congrArg (fun xs => declared (xs.map Prod.snd)) heq
      simp only [List.map_append, framed_map_snd] at hd
      rw [declared_append _ (by simp), declared_append _ (by simp), declared_frame (by omega),
        declared_frame (by omega)] at hd
      have hsplit := List.append_inj heq (by rw [framed_length, framed_length, hd])
      exact ⟨ks, last, l, hsplit.2, hlast⟩

/-- Two lengths next to each other are no beginning of frames. -/
theorem not_unmixed_lengths {k l : SendCall} (hid : k.id ≠ l.id) (hk : 4 < k.buf.length)
    (hk' : k.buf.length < 2 ^ 32) : ¬Unmixed (k.marked .length ++ l.marked .length) := by
  rintro ⟨ks, last, m, heq, hlast⟩
  have hfour : ∀ k : SendCall, (k.marked .length).length = 4 := by
    intro k
    simp [SendCall.marked, SendCall.bytes]
  cases ks with
  | nil =>
      have hsub : ∀ x ∈ k.marked .length ++ l.marked .length, x.1 = m.id := by
        intro x hx
        rw [heq] at hx
        exact framed_id (hlast.subset hx)
      obtain ⟨x, hx⟩ := List.exists_mem_of_length_pos (by rw [hfour k]; omega)
      obtain ⟨y, hy⟩ := List.exists_mem_of_length_pos (by rw [hfour l]; omega)
      have h₁ := hsub x (List.mem_append_left _ hx)
      have h₂ := hsub y (List.mem_append_right _ hy)
      rw [marked_id hx] at h₁
      rw [marked_id hy] at h₂
      exact hid (h₁.trans h₂.symm)
  | cons k' ks =>
      rw [List.flatMap_cons, List.append_assoc] at heq
      have hlens := congrArg List.length heq
      rw [List.length_append, List.length_append, framed_length, hfour, hfour] at hlens
      have hd := congrArg (fun xs => declared (xs.map Prod.snd)) heq
      have hhdr : (k.marked .length).map Prod.snd = (frame k.buf).take 4 := by
        rw [frame, List.take_left' (be32_length _)]
        simp [SendCall.marked, SendCall.bytes, Function.comp_def]
      simp only [List.map_append, framed_map_snd, hhdr] at hd
      rw [declared_append _ (by simp), declared_append _ (by simp), declared_frame (by omega)] at hd
      have hk₀ : declared ((frame k.buf).take 4) = k.buf.length := by
        rw [← declared_frame hk', declared, declared, List.take_take, Nat.min_self]
      omega

/-- A call waits for room behind its length, and another call's length follows. -/
theorem frames_mix : ∃ s, sendMachine.Reachable s ∧ ¬Unmixed (s.client 0).entered := by
  obtain ⟨s, buf, b, q, e, hlen, hb, hpc, -, -, hcalls, hx, hwf, hu, hh⟩ := exists_parked
  have hfree := DataQueue.free_eq (DataQueue.used_le_capacity hwf)
  have hcap := capacity_eq
  obtain ⟨q', e', -⟩ := @exec_length s 2 0 b (by rw [hpc]; rfl)
    (by rw [hx]) (by rw [hx]) (by rw [hx]; exact hwf) (by omega)
    (by rw [hx]; show 4 ≤ q.free; omega) (by rw [hx]; show q.bufferHead.toNat + 4 < 2 ^ 64; omega)
  rw [hcalls] at e'
  refine ⟨_, (Machine.Reachable.exec (.start rfl) e).exec e', ?_⟩
  have hentered : ((s.begun 2 ⟨2, 0, b⟩ q').client 0).entered = SendCall.framed ⟨0, 0, buf⟩ ++
      (SendCall.marked ⟨1, 0, b⟩ .length ++ SendCall.marked ⟨2, 0, b⟩ .length) := by
    simp [hx]
  rw [hentered]
  intro hun
  refine not_unmixed_lengths (k := ⟨1, 0, b⟩) (l := ⟨2, 0, b⟩) (show 1 ≠ 2 by decide)
    (by show 4 < b.length; omega) (by show b.length < 2 ^ 32; omega) (unmixed_tail ?_ ?_ hun)
  · simp [framed_length, SendCall.marked, SendCall.bytes, hlen]
  · obtain ⟨y, hy⟩ := List.exists_mem_of_length_pos
      (show 0 < (SendCall.marked ⟨1, 0, b⟩ .length).length by simp [SendCall.marked, SendCall.bytes])
    refine ⟨y, List.mem_append_left _ hy, ?_⟩
    rw [marked_id hy]
    exact Nat.one_ne_zero

end Hprd.Net
