import Hprd.Net.SendFrames
import Hprd.Net.ServerThreads

/-!
# Waiting in a circle

The locks have an order: `net_cb_lock`, `tcp_server.lock`, a client's
`send_buf_lock`. A thread that waits for space in a queue, or for
`tcp_server.lock` after a `send` that returned 0, goes against it. In a run in
which neither happens no thread waits for itself; a reply to a client with a full
queue makes the epoll thread wait for the space it should make.
-/

namespace Hprd.Net

open Hprd.Core Common

/-- An `enqueue_data` finds room, and no `send` returns 0. -/
def Unobstructed (s : ServerState) (a : ServerAction) : Prop :=
  (∀ t k part, a = .run t → s.send.pc t.sender = .put k part →
    (k.bytes part).length ≤ (s.send.client k.client).queue.free) ∧ a ≠ .netSend (.some 0)

/-! ## The send path without waits -/

/-- The holder of a `send_buf_lock` uses it, and nobody is parked. -/
structure Flowing (s : SendState) : Prop where
  held : ∀ c t, (s.client c).owner = some (.sender t) →
    ∃ k part, s.pc t = .put k part ∧ k.client = c
  netHeld : ∀ c, (s.client c).owner = some .net → s.net = .send c
  unparked : ∀ t k part, s.pc t ≠ .wait k part
  size : ∀ t k, (s.pc t).call = some k → 0 < k.buf.length ∧ k.buf.length ≤ capacity

theorem flowing_fresh : Flowing .fresh where
  held := by
    intro c t h
    cases h
  netHeld := by
    intro c h
    cases h
  unparked := by
    intro t k part h
    cases h
  size := by
    intro t k h
    cases h

section

variable {s s' : SendState} {t c : Nat} {p : SendPc}

theorem Flowing.sender_step (h : Flowing s) (hheld : ∀ c, HoldsAt c s')
    (hpc : s'.pc = Function.update s.pc t p) (hnet : s'.net = s.net)
    (hkept : ∀ c, (s'.client c).owner = some .net → (s.client c).owner = some .net)
    (hwait : ∀ k part, p ≠ .wait k part)
    (hsize : ∀ k, p.call = some k → 0 < k.buf.length ∧ k.buf.length ≤ capacity) : Flowing s' := by
  constructor
  case held => exact hheld
  case netHeld =>
    intro c ho
    rw [hnet]
    exact h.netHeld c (hkept c ho)
  case unparked =>
    intro u
    rw [hpc, Function.update_apply]
    split
    next => exact hwait
    next => exact h.unparked u
  case size =>
    intro u
    rw [hpc, Function.update_apply]
    split
    next => exact hsize
    next => exact h.size u

theorem Flowing.net_step (h : Flowing s) (hheld : ∀ c, HoldsAt c s') (hpc : s'.pc = s.pc)
    (hnet : ∀ c, (s'.client c).owner = some .net → s'.net = .send c) : Flowing s' := by
  constructor
  case held => exact hheld
  case netHeld => exact hnet
  case unparked =>
    rw [hpc]
    exact h.unparked
  case size =>
    rw [hpc]
    exact h.size

/-- Outside its lock the network thread has none. -/
theorem Flowing.not_net (h : Flowing s) (hnet : ∀ c, s.net ≠ .send c) :
    (s.client c).owner ≠ some .net := fun ho => hnet c (h.netHeld c ho)

/-- The network thread gives the lock back. -/
theorem Flowing.release (h : Flowing s) {x : SendClient} {net : NetPc}
    (hheld : ∀ d, HoldsAt d { s.setClient c x with net := net }) (hsend : s.net = .send c)
    (hx : x.owner = none) : Flowing { s.setClient c x with net := net } := by
  refine h.net_step hheld rfl fun d ho => ?_
  obtain ⟨hne, ho⟩ := owner_of_update (by rw [hx]; exact nofun) ho
  cases hsend.symm.trans (h.netHeld d ho)
  exact absurd rfl hne

theorem flowing_step {a : SendAction} (h : Flowing s)
    (hcall : ∀ t c buf safe, a = .call t c buf safe → 0 < buf.length ∧ buf.length ≤ capacity)
    (hroom : ∀ t k part, a = .run t → s.pc t = .put k part →
      (k.bytes part).length ≤ (s.client k.client).queue.free)
    (hzero : a ≠ .netSend (.some 0)) (hs : Stepped s a s') : Flowing s' := by
  have hsize : ∀ {t k} {p : SendPc}, s.pc t = p → p.call = some k →
      0 < k.buf.length ∧ k.buf.length ≤ capacity := by
    rintro t k p rfl hk
    exact h.size t k hk
  have hheld : ∀ c, HoldsAt c s' := fun c =>
    holdsAt_step (h.held c) (fun t k part hpc _ _ => bytes_length_le (hsize hpc rfl).2 part) hs
  cases hs with
  | @call t c buf safe hpc hlen hr =>
      have hnew := hcall t c buf safe rfl
      refine h.sender_step hheld rfl rfl (fun _ ho => ho) ?_ ?_
      · cases safe <;> exact nofun
      · intro k hk
        cases safe <;> cases hk <;> exact hnew
  | skip hpc => exact h.sender_step hheld rfl rfl (fun _ ho => ho) nofun nofun
  | checked hpc =>
      refine h.sender_step hheld rfl rfl (fun _ ho => ho) nofun fun l hl => ?_
      cases hl
      exact hsize hpc rfl
  | @acquire t k part hpc ho =>
      have hkept : ∀ c, ((s.acquire t k part).client c).owner = some .net →
          (s.client c).owner = some .net := fun c hc => (owner_of_update (by exact nofun) hc).2
      refine h.sender_step hheld rfl rfl hkept nofun fun l hl => ?_
      cases hl
      rcases hpc with ⟨hpc, -⟩ | hpc
      · exact hsize hpc rfl
      · exact hsize hpc rfl
  | @park t k part hpc hr =>
      have hne := bytes_ne_nil (List.length_pos_iff.mp (hsize hpc rfl).1) part
      have hfull := (hr.resolve_left hne).2
      exact absurd (hroom t k part rfl hpc) (Nat.not_le.mpr hfull)
  | @refuse t k part hpc hlong =>
      exact absurd (bytes_length_le (hsize hpc rfl).2 part) (Nat.not_le.mpr hlong)
  | @putLength t k q hpc hq =>
      have hkept : ∀ c, ((s.putLength t k q).client c).owner = some .net →
          (s.client c).owner = some .net := fun c hc =>
        (member_update_same SendClient.owner (by rfl) c).symm.trans hc
      refine h.sender_step hheld rfl rfl hkept nofun fun l hl => ?_
      cases hl
      exact hsize hpc rfl
  | @putPayload t k q hpc hq =>
      have hkept : ∀ c, ((s.putPayload t k q).client c).owner = some .net →
          (s.client c).owner = some .net := fun c hc => (owner_of_update (by exact nofun) hc).2
      exact h.sender_step hheld rfl rfl hkept nofun nofun
  | wake hpc => exact absurd hpc (h.unparked _ _ _)
  | drain hidle hc hr =>
      refine h.net_step hheld rfl fun c ho => absurd ho (h.not_net ?_)
      rw [hidle]
      exact nofun
  | @netLock c hlock ho =>
      refine h.net_step hheld rfl fun d hd => ?_
      rcases owner_update hd with ⟨rfl, -⟩ | ⟨-, hold⟩
      · rfl
      · exact absurd hold (h.not_net (by rw [hlock]; exact nofun))
  | sendFail hsend => exact h.release hheld hsend rfl
  | sendZero hsend => exact absurd rfl hzero
  | sendSome hsend hpos hn hbs => exact h.release hheld hsend rfl
  | quiet hsig hno =>
      refine h.net_step hheld rfl fun c ho => absurd ho (h.not_net ?_)
      rw [hsig]
      exact nofun
  | signal hsig hret ht hmem hpc => exact absurd hpc (h.unparked _ _ _)

end

theorem stepped_run_frame {s s' : SendState} {t : Nat} (hs : Stepped s (.run t) s') :
    s'.net = s.net ∧ ∀ u, u ≠ t → s'.pc u = s.pc u := by
  cases hs with
  | acquire hpc ho => exact ⟨rfl, fun u hu => by simp [SendState.acquire, hu]⟩
  | park hpc hr => exact ⟨rfl, fun u hu => by simp [SendState.park, hu]⟩
  | putLength hpc hq => exact ⟨rfl, fun u hu => by simp [SendState.putLength, hu]⟩
  | putPayload hpc hq => exact ⟨rfl, fun u hu => by simp [SendState.putPayload, hu]⟩
  | skip hpc => exact ⟨rfl, fun u hu => by simp [hu]⟩
  | checked hpc => exact ⟨rfl, fun u hu => by simp [hu]⟩
  | refuse hpc hlong => exact ⟨rfl, fun u hu => by simp [hu]⟩

theorem stepped_net_frame {s s' : SendState} {a : SendAction} (h : Flowing s)
    (ha : (∃ c, a = .drain c) ∨ a = .netLock ∨ (∃ r, a = .netSend r) ∨ ∃ w, a = .netSignal w)
    (hs : Stepped s a s') (u : Nat) : s'.pc u = s.pc u := by
  cases hs with
  | drain hnet hc hr => rfl
  | netLock hnet ho => rfl
  | sendFail hnet => rfl
  | sendZero hnet => rfl
  | sendSome hnet hpos hn hbs => rfl
  | quiet hnet hno => rfl
  | signal hnet hret ht hmem hpc => exact absurd hpc (h.unparked _ _ _)
  | call hpc hlen hr => simp at ha
  | skip hpc => simp at ha
  | checked hpc => simp at ha
  | acquire hpc ho => simp at ha
  | park hpc hr => simp at ha
  | refuse hpc hlong => simp at ha
  | putLength hpc hq => simp at ha
  | putPayload hpc hq => simp at ha
  | wake hpc => simp at ha

theorem stepped_call_frame {s s' : SendState} {t c : Nat} {buf : Bytes} {safe : Bool}
    (hs : Stepped s (.call t c buf safe) s') :
    s'.net = s.net ∧ ∀ u, u ≠ t → s'.pc u = s.pc u := by
  cases hs with
  | call hpc hlen hr => exact ⟨rfl, fun u hu => by simp [hu]⟩

/-! ## Who holds what -/

/-- Between taking and giving back `tcp_server.lock`. -/
def EpollPc.inTable : EpollPc → Bool
  | .table _ => true
  | _ => false

def BradcastPc.inTable : BradcastPc → Bool
  | .foreach _ _ => true
  | .send _ _ => true
  | _ => false

def KcpPc.inTable : KcpPc → Bool
  | .table => true
  | _ => false

/-- Between taking and giving back `net_cb_lock`. -/
def EpollPc.inCallback : EpollPc → Bool
  | .callback _ _ => true
  | .reply => true
  | _ => false

def KcpPc.inCallback : KcpPc → Bool
  | .callback => true
  | _ => false

def EpollPc.buf : EpollPc → Option Bytes
  | .lockCallback _ r => r
  | .callback _ r => r
  | _ => none

def BradcastPc.buf : BradcastPc → Option Bytes
  | .idle => none
  | .lockTable buf => some buf
  | .foreach buf _ => some buf
  | .send buf _ => some buf

/-- The holders of the two server locks are where they hold them, and packets have their size. -/
structure LocksHeld (s : ServerState) : Prop where
  tableEpoll : s.tableLock = some .epoll → s.epoll.inTable
  tableBradcast : s.tableLock = some .bradcast → s.bradcast.inTable
  tableKcp : s.tableLock = some .kcp → s.kcp.inTable
  callbackEpoll : s.callbackLock = some .epoll → s.epoll.inCallback
  callbackBradcast : s.callbackLock ≠ some .bradcast
  callbackKcp : s.callbackLock = some .kcp → s.kcp.inCallback
  noRemove : ∀ c, s.epoll ≠ .lockRemove c ∧ s.epoll ≠ .remove c
  responseBuf : ∀ buf, s.epoll.buf = some buf → buf.length = responseSize
  videoBuf : ∀ buf, s.bradcast.buf = some buf → 0 < buf.length ∧ buf.length ≤ videoPktSize

section

variable {s s' : ServerState}

/-- What a step of the thread `t` does with a lock, given whether it is inside before and after. -/
inductive LockMove (t : Thread) (l l' : Option Thread) (inside inside' : Bool) : Prop where
  | keep : l' = l → inside' = inside → LockMove t l l' inside inside'
  | take : l' = some t → inside' = true → LockMove t l l' inside inside'
  | leave : l' = none → LockMove t l l' inside inside'

section

variable {t u : Thread} {l l' : Option Thread} {inside inside' : Bool}

theorem LockMove.held (h : LockMove t l l' inside inside') (hold : l = some t → inside = true)
    (hl : l' = some t) : inside' = true := by
  cases h with
  | keep heq hin => exact hin.trans (hold (heq.symm.trans hl))
  | take _ hin => exact hin
  | leave hnone => cases hnone.symm.trans hl

theorem LockMove.other (h : LockMove t l l' inside inside') (hne : u ≠ t) (hl : l' = some u) :
    l = some u := by
  cases h with
  | keep heq => exact heq.symm.trans hl
  | take heq =>
      cases heq.symm.trans hl
      exact absurd rfl hne
  | leave hnone => cases hnone.symm.trans hl

end

theorem LocksHeld.epoll_step (h : LocksHeld s) (hb : s'.bradcast = s.bradcast)
    (hk : s'.kcp = s.kcp)
    (htable : LockMove .epoll s.tableLock s'.tableLock s.epoll.inTable s'.epoll.inTable)
    (hcallback :
      LockMove .epoll s.callbackLock s'.callbackLock s.epoll.inCallback s'.epoll.inCallback)
    (hremove : ∀ c, s'.epoll ≠ .lockRemove c ∧ s'.epoll ≠ .remove c)
    (hbuf : ∀ buf, s'.epoll.buf = some buf → buf.length = responseSize) : LocksHeld s' where
  tableEpoll := htable.held h.tableEpoll
  tableBradcast := fun hl => hb ▸ h.tableBradcast (htable.other (by decide) hl)
  tableKcp := fun hl => hk ▸ h.tableKcp (htable.other (by decide) hl)
  callbackEpoll := hcallback.held h.callbackEpoll
  callbackBradcast := fun hl => h.callbackBradcast (hcallback.other (by decide) hl)
  callbackKcp := fun hl => hk ▸ h.callbackKcp (hcallback.other (by decide) hl)
  noRemove := hremove
  responseBuf := hbuf
  videoBuf := hb ▸ h.videoBuf

theorem LocksHeld.bradcast_step (h : LocksHeld s) (he : s'.epoll = s.epoll) (hk : s'.kcp = s.kcp)
    (htable :
      LockMove .bradcast s.tableLock s'.tableLock s.bradcast.inTable s'.bradcast.inTable)
    (hcallback : s'.callbackLock = s.callbackLock)
    (hbuf : ∀ buf, s'.bradcast.buf = some buf → 0 < buf.length ∧ buf.length ≤ videoPktSize) :
    LocksHeld s' where
  tableEpoll := fun hl => he ▸ h.tableEpoll (htable.other (by decide) hl)
  tableBradcast := htable.held h.tableBradcast
  tableKcp := fun hl => hk ▸ h.tableKcp (htable.other (by decide) hl)
  callbackEpoll := fun hl => he ▸ h.callbackEpoll (hcallback ▸ hl)
  callbackBradcast := hcallback ▸ h.callbackBradcast
  callbackKcp := fun hl => hk ▸ h.callbackKcp (hcallback ▸ hl)
  noRemove := he ▸ h.noRemove
  responseBuf := he ▸ h.responseBuf
  videoBuf := hbuf

theorem LocksHeld.kcp_step (h : LocksHeld s) (he : s'.epoll = s.epoll)
    (hb : s'.bradcast = s.bradcast)
    (htable : LockMove .kcp s.tableLock s'.tableLock s.kcp.inTable s'.kcp.inTable)
    (hcallback : LockMove .kcp s.callbackLock s'.callbackLock s.kcp.inCallback s'.kcp.inCallback) :
    LocksHeld s' where
  tableEpoll := fun hl => he ▸ h.tableEpoll (htable.other (by decide) hl)
  tableBradcast := fun hl => hb ▸ h.tableBradcast (htable.other (by decide) hl)
  tableKcp := htable.held h.tableKcp
  callbackEpoll := fun hl => he ▸ h.callbackEpoll (hcallback.other (by decide) hl)
  callbackBradcast := fun hl => h.callbackBradcast (hcallback.other (by decide) hl)
  callbackKcp := hcallback.held h.callbackKcp
  noRemove := he ▸ h.noRemove
  responseBuf := he ▸ h.responseBuf
  videoBuf := hb ▸ h.videoBuf

theorem locksHeld_step {a : ServerAction} (h : LocksHeld s) (hok : Unobstructed s a)
    (hs : ServerStepped s a s') : LocksHeld s' := by
  cases hs with
  | useTable hpc =>
      exact h.epoll_step rfl rfl (.keep rfl (by rw [hpc]; rfl)) (.keep rfl (by rw [hpc]; rfl))
        (fun _ => ⟨nofun, nofun⟩) nofun
  | packet hpc hlen =>
      refine h.epoll_step rfl rfl (.keep rfl (by rw [hpc]; rfl)) (.keep rfl (by rw [hpc]; rfl))
        (fun _ => ⟨nofun, nofun⟩) ?_
      exact fun buf hbuf => hlen buf hbuf
  | senddata hpc hx =>
      exact h.epoll_step rfl rfl (.keep rfl (by rw [hpc]; rfl)) (.keep rfl (by rw [hpc]; rfl))
        (fun _ => ⟨nofun, nofun⟩) nofun
  | takeTable hpc hfree =>
      exact h.epoll_step rfl rfl (.take rfl rfl) (.keep rfl (by rw [hpc]; rfl))
        (fun _ => ⟨nofun, nofun⟩) nofun
  | @leaveTable use hpc =>
      cases use <;>
        exact h.epoll_step rfl rfl (.leave rfl) (.keep rfl (by rw [hpc]; rfl))
          (fun _ => ⟨nofun, nofun⟩) nofun
  | takeCallback hpc hfree =>
      refine h.epoll_step rfl rfl (.keep rfl (by rw [hpc]; rfl)) (.take rfl rfl)
        (fun _ => ⟨nofun, nofun⟩) ?_
      exact fun buf hbuf => h.responseBuf buf (by rw [hpc]; exact hbuf)
  | leaveCallback hpc =>
      exact h.epoll_step rfl rfl (.keep rfl (by rw [hpc]; rfl)) (.leave rfl)
        (fun _ => ⟨nofun, nofun⟩) nofun
  | beginReply hpc hx =>
      exact h.epoll_step rfl rfl (.keep rfl (by rw [hpc]; rfl)) (.keep rfl (by rw [hpc]; rfl))
        (fun _ => ⟨nofun, nofun⟩) nofun
  | reply hpc hx => exact { h with }
  | endReply hpc hidle =>
      exact h.epoll_step rfl rfl (.keep rfl (by rw [hpc]; rfl)) (.leave rfl)
        (fun _ => ⟨nofun, nofun⟩) nofun
  | netLock hpc hx => exact { h with }
  | netSend hpc hx => exact { h with }
  | netSignal hpc hx => exact { h with }
  | endSenddata hpc hidle =>
      exact h.epoll_step rfl rfl (.keep rfl (by rw [hpc]; rfl)) (.keep rfl (by rw [hpc]; rfl))
        (fun _ => ⟨nofun, nofun⟩) nofun
  | sendZero hpc hsend => exact absurd rfl hok.2
  | takeRemove hpc hfree => exact absurd hpc (h.noRemove _).1
  | leaveRemove hpc hx => exact absurd hpc (h.noRemove _).2
  | bradcast hpc hpos hmax =>
      refine h.bradcast_step rfl rfl (.keep rfl (by rw [hpc]; rfl)) rfl fun buf hbuf => ?_
      cases hbuf
      exact ⟨hpos, hmax⟩
  | foreach hpc hfree =>
      refine h.bradcast_step rfl rfl (.take rfl rfl) rfl fun buf hbuf => ?_
      exact h.videoBuf buf (by rw [hpc]; exact hbuf)
  | endForeach hpc => exact h.bradcast_step rfl rfl (.leave rfl) rfl nofun
  | skip hpc =>
      refine h.bradcast_step rfl rfl (.keep rfl (by rw [hpc]; rfl)) rfl fun buf hbuf => ?_
      exact h.videoBuf buf (by rw [hpc]; exact hbuf)
  | beginSend hpc hx =>
      refine h.bradcast_step rfl rfl (.keep rfl (by rw [hpc]; rfl)) rfl fun buf hbuf => ?_
      exact h.videoBuf buf (by rw [hpc]; exact hbuf)
  | send hpc hx => exact { h with }
  | endSend hpc hidle =>
      refine h.bradcast_step rfl rfl (.keep rfl (by rw [hpc]; rfl)) rfl fun buf hbuf => ?_
      exact h.videoBuf buf (by rw [hpc]; exact hbuf)
  | kcpFind hpc =>
      exact h.kcp_step rfl rfl (.keep rfl (by rw [hpc]; rfl)) (.keep rfl (by rw [hpc]; rfl))
  | kcpConnect => exact { h with }
  | kcpPacket hpc =>
      exact h.kcp_step rfl rfl (.keep rfl (by rw [hpc]; rfl)) (.keep rfl (by rw [hpc]; rfl))
  | kcpTakeTable hpc hfree =>
      exact h.kcp_step rfl rfl (.take rfl rfl) (.keep rfl (by rw [hpc]; rfl))
  | kcpLeaveTable hpc => exact h.kcp_step rfl rfl (.leave rfl) (.keep rfl (by rw [hpc]; rfl))
  | kcpTakeCallback hpc hfree =>
      exact h.kcp_step rfl rfl (.keep rfl (by rw [hpc]; rfl)) (.take rfl rfl)
  | kcpLeaveCallback hpc => exact h.kcp_step rfl rfl (.keep rfl (by rw [hpc]; rfl)) (.leave rfl)
  | wake hx => exact { h with }

end

/-- The calls and drains of the send path are those of the two threads inside them. -/
structure CallsPlaced (s : ServerState) : Prop where
  flowing : Flowing s.send
  reply : s.send.pc 0 ≠ .idle → s.epoll = .reply
  net : s.send.net ≠ .idle → s.epoll = .senddata
  sending : s.send.pc 1 ≠ .idle → ∃ buf todo, s.bradcast = .send buf todo
  others : ∀ t, t ≠ 0 → t ≠ 1 → s.send.pc t = .idle

section

variable {s s' : ServerState}

theorem CallsPlaced.same_send (h : CallsPlaced s) (hsend : s'.send = s.send)
    (hreply : s.send.pc 0 ≠ .idle → s'.epoll = .reply)
    (hnet : s.send.net ≠ .idle → s'.epoll = .senddata)
    (hsending : s.send.pc 1 ≠ .idle → ∃ buf todo, s'.bradcast = .send buf todo) :
    CallsPlaced s' where
  flowing := hsend ▸ h.flowing
  reply := hsend ▸ hreply
  net := hsend ▸ hnet
  sending := hsend ▸ hsending
  others := hsend ▸ h.others

theorem CallsPlaced.outside (h : CallsPlaced s) (hsend : s'.send = s.send)
    (he : s'.epoll = s.epoll ∨ s.epoll ≠ .reply ∧ s.epoll ≠ .senddata)
    (hb : s'.bradcast = s.bradcast ∨ ∀ buf todo, s.bradcast ≠ .send buf todo) :
    CallsPlaced s' := by
  refine h.same_send hsend ?_ ?_ ?_
  · intro hpc
    rcases he with he | he
    · exact he.trans (h.reply hpc)
    · exact absurd (h.reply hpc) he.1
  · intro hpc
    rcases he with he | he
    · exact he.trans (h.net hpc)
    · exact absurd (h.net hpc) he.2
  · intro hpc
    obtain ⟨buf, todo, hsend⟩ := h.sending hpc
    rcases hb with hb | hb
    · exact ⟨buf, todo, hb.trans hsend⟩
    · exact absurd hsend (hb buf todo)

theorem CallsPlaced.net_step (h : CallsPlaced s) (hflow : Flowing s'.send)
    (hframe : ∀ u, s'.send.pc u = s.send.pc u) (hpc : s.epoll ≠ .reply)
    (he : s'.epoll = .senddata) (hb : s'.bradcast = s.bradcast) : CallsPlaced s' where
  flowing := hflow
  reply := fun hne => absurd (h.reply (hframe 0 ▸ hne)) hpc
  net := fun _ => he
  sending := fun hne => hb ▸ h.sending (hframe 1 ▸ hne)
  others := fun t h0 h1 => (hframe t).trans (h.others t h0 h1)

theorem CallsPlaced.reply_step (h : CallsPlaced s) (hflow : Flowing s'.send)
    (hframe : s'.send.net = s.send.net ∧ ∀ u, u ≠ 0 → s'.send.pc u = s.send.pc u)
    (hpc : s.epoll ≠ .senddata) (he : s'.epoll = .reply) (hb : s'.bradcast = s.bradcast) :
    CallsPlaced s' where
  flowing := hflow
  reply := fun _ => he
  net := fun hne => absurd (h.net (hframe.1 ▸ hne)) hpc
  sending := fun hne => hb ▸ h.sending (hframe.2 1 (by decide) ▸ hne)
  others := fun t h0 h1 => (hframe.2 t h0).trans (h.others t h0 h1)

theorem CallsPlaced.bradcast_step (h : CallsPlaced s) (hflow : Flowing s'.send)
    (hframe : s'.send.net = s.send.net ∧ ∀ u, u ≠ 1 → s'.send.pc u = s.send.pc u)
    (he : s'.epoll = s.epoll) (hb : ∃ buf todo, s'.bradcast = .send buf todo) :
    CallsPlaced s' where
  flowing := hflow
  reply := fun hne => he.trans (h.reply (hframe.2 0 (by decide) ▸ hne))
  net := fun hne => he.trans (h.net (hframe.1 ▸ hne))
  sending := fun _ => hb
  others := fun t h0 h1 => (hframe.2 t h1).trans (h.others t h0 h1)

theorem callsPlaced_step {a : ServerAction} (hl : LocksHeld s) (h : CallsPlaced s)
    (hok : Unobstructed s a) (hs : ServerStepped s a s') : CallsPlaced s' := by
  have hflow := h.flowing
  cases hs with
  | useTable hpc => exact h.outside rfl (by simp [hpc]) (by simp)
  | packet hpc hlen => exact h.outside rfl (by simp [hpc]) (by simp)
  | senddata hpc hx =>
      have hflow' := flowing_step hflow (by simp) (by simp) (by simp) hx
      exact h.net_step hflow' (stepped_net_frame hflow (.inl ⟨_, rfl⟩) hx) (by rw [hpc]; exact nofun)
        rfl rfl
  | takeTable hpc hfree => exact h.outside rfl (by simp [hpc]) (by simp)
  | @leaveTable use hpc =>
      have hsend : (use.apply s).send = s.send := by cases use <;> rfl
      have hb : (use.apply s).bradcast = s.bradcast := by cases use <;> rfl
      exact h.outside hsend (by simp [hpc]) (Or.inl hb)
  | takeCallback hpc hfree => exact h.outside rfl (by simp [hpc]) (by simp)
  | leaveCallback hpc => exact h.outside rfl (by simp [hpc]) (by simp)
  | @beginReply c buf x hpc hx =>
      have hlen := hl.responseBuf buf (by rw [hpc]; rfl)
      have hcap := capacity_eq
      have hsize : 0 < buf.length ∧ buf.length ≤ capacity := by
        rw [hlen, responseSize]
        omega
      have hflow' : Flowing x := by
        refine flowing_step hflow ?_ (by simp) (by simp) hx
        intro t c buf' safe ha
        cases ha
        exact hsize
      exact h.reply_step hflow' (stepped_call_frame hx) (by rw [hpc]; exact nofun) rfl rfl
  | @reply x hpc hx =>
      have hflow' : Flowing x := by
        refine flowing_step hflow (by simp) ?_ (by simp) hx
        intro t k part ha hput
        cases ha
        exact hok.1 .epoll k part rfl hput
      exact h.reply_step hflow' (stepped_run_frame hx) (by rw [hpc]; exact nofun) hpc rfl
  | endReply hpc hidle =>
      exact h.same_send rfl (absurd hidle) (fun hne => nomatch hpc.symm.trans (h.net hne)) h.sending
  | netLock hpc hx =>
      have hflow' := flowing_step hflow (by simp) (by simp) (by simp) hx
      exact h.net_step hflow' (stepped_net_frame hflow (.inr (.inl rfl)) hx)
        (by rw [hpc]; exact nofun) hpc rfl
  | @netSend r x hpc hx =>
      have hflow' : Flowing x := by
        refine flowing_step hflow (by simp) (by simp) ?_ hx
        rintro ⟨⟩
        exact hok.2 rfl
      exact h.net_step hflow' (stepped_net_frame hflow (.inr (.inr (.inl ⟨_, rfl⟩))) hx)
        (by rw [hpc]; exact nofun) hpc rfl
  | netSignal hpc hx =>
      have hflow' := flowing_step hflow (by simp) (by simp) (by simp) hx
      exact h.net_step hflow' (stepped_net_frame hflow (.inr (.inr (.inr ⟨_, rfl⟩))) hx)
        (by rw [hpc]; exact nofun) hpc rfl
  | endSenddata hpc hidle =>
      exact h.same_send rfl (fun hne => nomatch hpc.symm.trans (h.reply hne)) (absurd hidle)
        h.sending
  | sendZero hpc hsend => exact absurd rfl hok.2
  | takeRemove hpc hfree => exact absurd hpc (hl.noRemove _).1
  | leaveRemove hpc hx => exact absurd hpc (hl.noRemove _).2
  | bradcast hpc hpos hmax => exact h.outside rfl (by simp) (by simp [hpc])
  | foreach hpc hfree => exact h.outside rfl (by simp) (by simp [hpc])
  | endForeach hpc => exact h.outside rfl (by simp) (by simp [hpc])
  | skip hpc => exact h.outside rfl (by simp) (by simp [hpc])
  | @beginSend buf c todo x hpc hx =>
      have hlen := hl.videoBuf buf (by rw [hpc]; rfl)
      have hflow' : Flowing x := by
        refine flowing_step hflow ?_ (by simp) (by simp) hx
        intro t c buf' safe ha
        cases ha
        exact hlen
      exact h.bradcast_step hflow' (stepped_call_frame hx) rfl ⟨_, _, rfl⟩
  | @send buf todo x hpc hx =>
      have hflow' : Flowing x := by
        refine flowing_step hflow (by simp) ?_ (by simp) hx
        intro t k part ha hput
        cases ha
        exact hok.1 .bradcast k part rfl hput
      exact h.bradcast_step hflow' (stepped_run_frame hx) rfl ⟨_, _, hpc⟩
  | endSend hpc hidle => exact h.same_send rfl h.reply h.net (absurd hidle)
  | kcpFind hpc => exact h.outside rfl (by simp) (by simp)
  | kcpConnect => exact h.outside rfl (by simp) (by simp)
  | kcpPacket hpc => exact h.outside rfl (by simp) (by simp)
  | kcpTakeTable hpc hfree => exact h.outside rfl (by simp) (by simp)
  | kcpLeaveTable hpc => exact h.outside rfl (by simp) (by simp)
  | kcpTakeCallback hpc hfree => exact h.outside rfl (by simp) (by simp)
  | kcpLeaveCallback hpc => exact h.outside rfl (by simp) (by simp)
  | wake hx =>
      cases hx with
      | wake hpc => exact absurd hpc (hflow.unparked _ _ _)

end

/-! ## The order of the locks -/

def Resource.level : Resource → Nat
  | .space _ => 0
  | .callback => 1
  | .table => 2
  | .sendBuf _ => 3

/-- A thread that has a client's `send_buf_lock` is at an `enqueue_data` or a `send`. -/
theorem sendBuf_holder {s : ServerState} (h : CallsPlaced s) {t : Thread} {c : Nat}
    (hh : s.holds t (.sendBuf c)) :
    (∃ k part, s.send.pc t.sender = .put k part) ∨ t = .epoll ∧ s.send.net = .send c := by
  rcases hh with ho | ⟨rfl, ho⟩
  · obtain ⟨k, part, hpc, -⟩ := h.flowing.held c _ ho
    exact Or.inl ⟨k, part, hpc⟩
  · exact Or.inr ⟨rfl, h.flowing.netHeld c ho⟩

/-- A thread inside a call waits for a `send_buf_lock` at most and has none. -/
theorem call_waits {s : SendState} (h : Flowing s) {t : Nat} {r : Resource}
    (hw : (s.pc t).waits = some r) :
    r.level = 3 ∧ s.pc t ≠ .idle ∧ ∀ k part, s.pc t ≠ .put k part := by
  cases hpc : s.pc t with
  | lock k =>
      rw [hpc] at hw
      cases hw
      simp [Resource.level]
  | relock k part =>
      rw [hpc] at hw
      cases hw
      simp [Resource.level]
  | wait k part => exact absurd hpc (h.unparked _ _ _)
  | idle => simp [hpc, SendPc.waits] at hw
  | check k => simp [hpc, SendPc.waits] at hw
  | put k part => simp [hpc, SendPc.waits] at hw

theorem epoll_waits_above {s : ServerState} (hl : LocksHeld s) (hc : CallsPlaced s)
    {r r' : Resource} (hw : s.waits .epoll = some r) (hh : s.holds .epoll r') :
    r'.level < r.level := by
  have hput : ∀ c, r' = .sendBuf c →
      (∃ k part, s.send.pc 0 = .put k part) ∧ s.epoll = .reply ∨
        s.send.net = .send c ∧ s.epoll = .senddata := by
    rintro c rfl
    rcases sendBuf_holder hc hh with ⟨k, part, hpc⟩ | ⟨-, hnet⟩
    · exact Or.inl ⟨⟨k, part, hpc⟩, hc.reply fun he => by cases hpc.symm.trans he⟩
    · exact Or.inr ⟨hnet, hc.net fun he => by cases hnet.symm.trans he⟩
  have htable : r' = .table → s.epoll.inTable := by
    rintro rfl
    exact hl.tableEpoll hh
  have hcallback : r' = .callback → s.epoll.inCallback := by
    rintro rfl
    exact hl.callbackEpoll hh
  unfold ServerState.waits at hw
  dsimp only at hw
  split at hw
  · next hpc =>
      cases hw
      cases r' <;> simp_all [Resource.level, EpollPc.inTable]
  · next hpc =>
      cases hw
      cases r' <;> simp_all [Resource.level, EpollPc.inTable, EpollPc.inCallback]
  · next hpc =>
      obtain ⟨hlevel, -, hno⟩ := call_waits hc.flowing hw
      cases r' <;> simp_all [Resource.level]
  · next hpc =>
      split at hw
      · next hnet =>
          cases hw
          cases r' <;> simp_all [Resource.level]
      · cases hw
  · next hpc => exact absurd hpc (hl.noRemove _).1
  · cases hw

theorem bradcast_waits_above {s : ServerState} (hl : LocksHeld s) (hc : CallsPlaced s)
    {r r' : Resource} (hw : s.waits .bradcast = some r) (hh : s.holds .bradcast r') :
    r'.level < r.level := by
  have hput : ∀ c, r' = .sendBuf c →
      (∃ k part, s.send.pc 1 = .put k part) ∧ ∃ buf todo, s.bradcast = .send buf todo := by
    rintro c rfl
    rcases sendBuf_holder hc hh with ⟨k, part, hpc⟩ | ⟨he, -⟩
    · exact ⟨⟨k, part, hpc⟩, hc.sending fun he => by cases hpc.symm.trans he⟩
    · cases he
  have htable : r' = .table → s.bradcast.inTable := by
    rintro rfl
    exact hl.tableBradcast hh
  have hcallback : r' ≠ .callback := by
    rintro rfl
    exact hl.callbackBradcast hh
  have hspace : ∀ c, r' ≠ .space c := by
    rintro c rfl
    cases hh
  unfold ServerState.waits at hw
  dsimp only at hw
  split at hw
  · next hpc =>
      cases hw
      cases r' <;> simp_all [BradcastPc.inTable]
  · next hpc =>
      obtain ⟨hlevel, -, hno⟩ := call_waits hc.flowing hw
      cases r' <;> simp_all [Resource.level]
  · cases hw

theorem kcp_waits_above {s : ServerState} (hl : LocksHeld s) (hc : CallsPlaced s)
    {r r' : Resource} (hw : s.waits .kcp = some r) (hh : s.holds .kcp r') :
    r'.level < r.level := by
  have hnobuf : ∀ c, r' ≠ .sendBuf c := by
    rintro c rfl
    rcases sendBuf_holder hc hh with ⟨k, part, hpc⟩ | ⟨he, -⟩
    · rw [hc.others _ (by decide) (by decide)] at hpc
      cases hpc
    · cases he
  have htable : r' = .table → s.kcp.inTable := by
    rintro rfl
    exact hl.tableKcp hh
  have hcallback : r' = .callback → s.kcp.inCallback := by
    rintro rfl
    exact hl.callbackKcp hh
  have hspace : ∀ c, r' ≠ .space c := by
    rintro c rfl
    cases hh
  unfold ServerState.waits at hw
  dsimp only at hw
  split at hw
  · next hpc =>
      cases hw
      cases r' <;> simp_all [Resource.level, KcpPc.inTable]
  · next hpc =>
      cases hw
      cases r' <;> simp_all [KcpPc.inTable, KcpPc.inCallback]
  · cases hw

/-! ## Whole runs -/

theorem locksHeld_fresh : LocksHeld .fresh := by
  constructor <;> simp [ServerState.fresh, EpollPc.buf, BradcastPc.buf]

theorem callsPlaced_fresh : CallsPlaced .fresh := by
  constructor <;> simp [ServerState.fresh, SendState.fresh, SendState.startAt]
  exact flowing_fresh

theorem server_run {s : ServerState} (h : serverMachine.Run Unobstructed s) :
    LocksHeld s ∧ CallsPlaced s := by
  refine Machine.Run.invariant (P := fun s => LocksHeld s ∧ CallsPlaced s) ?_ ?_ h
  · rintro s rfl
    exact ⟨locksHeld_fresh, callsPlaced_fresh⟩
  · rintro s a t ⟨hl, hc⟩ hok hstep
    have hs := serverStepped hstep
    exact ⟨locksHeld_step hl hok hs, callsPlaced_step hl hc hok hs⟩

/-- No thread waits for itself in a run whose `enqueue_data` calls find room and whose `send`
calls do not return 0. -/
theorem not_deadlocked_of_unobstructed {s : ServerState}
    (h : serverMachine.Run Unobstructed s) (t : Thread) : ¬Deadlocked s.waitsFor t := by
  obtain ⟨hl, hc⟩ := server_run h
  refine not_deadlocked_of_levels Resource.level ?_ t
  intro t r r' hw hh
  cases t with
  | epoll => exact epoll_waits_above hl hc hw hh
  | bradcast => exact bradcast_waits_above hl hc hw hh
  | kcp => exact kcp_waits_above hl hc hw hh

/-- At an `enqueue_data` that finds room, or anywhere else. -/
def SendPc.Fits (s : SendState) : SendPc → Prop
  | .put k part => (k.bytes part).length ≤ (s.client k.client).queue.free
  | _ => True

instance (s : SendState) : (p : SendPc) → Decidable (p.Fits s)
  | .put _ _ => inferInstanceAs (Decidable (_ ≤ _))
  | .idle | .check _ | .lock _ | .wait .. | .relock .. => inferInstanceAs (Decidable True)

/-- `Unobstructed`, read off the action. -/
def Unhindered (s : ServerState) : ServerAction → Prop
  | .run t => (s.send.pc t.sender).Fits s.send
  | .netSend (.some n) => n ≠ 0
  | _ => True

instance (s : ServerState) : (a : ServerAction) → Decidable (Unhindered s a)
  | .run t => inferInstanceAs (Decidable ((s.send.pc t.sender).Fits s.send))
  | .netSend (.some n) => inferInstanceAs (Decidable (n ≠ 0))
  | .netSend .fail | .useTable _ | .packet .. | .senddata _ | .netLock | .netSignal _ | .bradcast _
  | .foreach _ | .kcpFind | .kcpConnect _ | .kcpPacket | .wake _ => inferInstanceAs (Decidable True)

theorem unobstructed_of_unhindered (s : ServerState) (a : ServerAction) (h : Unhindered s a) :
    Unobstructed s a := by
  refine ⟨?_, ?_⟩
  · rintro t k part rfl hpc
    rw [Unhindered, hpc] at h
    exact h
  · rintro rfl
    exact h rfl

/-- A client is accepted, and a broadcast to it is sent. Another broadcast has the client's
`send_buf_lock` when a reply wants it and the KCP thread wants the lock that the reply has. -/
def bradcastAndReply : List ServerAction :=
  [.useTable .accept, .run .epoll, .run .epoll, .bradcast [1, 2, 3], .foreach [0]] ++
    List.replicate 7 (.run .bradcast) ++
    [.senddata 0, .netLock, .netSend (.some 7), .netSignal none, .run .epoll,
      .bradcast [4, 5], .packet 0 (some (List.replicate 20 0)), .foreach [0], .run .bradcast,
      .run .epoll, .run .bradcast, .run .epoll, .kcpPacket, .run .bradcast, .run .bradcast]

theorem not_deadlocked_bradcastAndReply : ∃ s, serverMachine.Run Unobstructed s ∧
    (s.send.client 0).wire = [0, 0, 0, 3, 1, 2, 3] ∧
    s.waitsFor .kcp .epoll ∧ s.waitsFor .epoll .bradcast ∧ ∀ t, ¬Deadlocked s.waitsFor t := by
  obtain ⟨s, hs, hview⟩ := Option.map_eq_some_iff.mp (by decide +kernel :
    ((serverMachine.guarded Unhindered).exec .fresh bradcastAndReply).map (fun s =>
      ((s.send.client 0).wire, [s.waits .kcp, s.waits .epoll], s.callbackLock,
        (s.send.client 0).owner)) =
      some ([0, 0, 0, 3, 1, 2, 3], [some .callback, some (.sendBuf 0)], some .epoll,
        some (.sender 1)))
  simp only [Prod.mk.injEq, List.cons.injEq] at hview
  obtain ⟨hwire, ⟨hkcp, hepoll, -⟩, hcallback, howner⟩ := hview
  have hrun := (Machine.run_of_exec hs rfl).mono unobstructed_of_unhindered
  exact ⟨s, hrun, hwire, ⟨.callback, hkcp, hcallback⟩, ⟨.sendBuf 0, hepoll, .inl howner⟩,
    not_deadlocked_of_unobstructed hrun⟩

/-! ## A reply to a full queue -/

/-- Steps of a sender inside its call are steps of its thread. -/
theorem exec_sends {t : Thread} {s : ServerState} {x : SendState} {n : Nat}
    (hstep : ∀ y z, step y (.run t.sender) = some z →
      serverStep { s with send := y } (.run t) = some { s with send := z })
    (h : sendMachine.exec s.send (List.replicate n (.run t.sender)) = some x) :
    serverMachine.exec s (List.replicate n (.run t)) = some { s with send := x } := by
  induction n generalizing s with
  | zero =>
      cases h
      rfl
  | succ n ih =>
      rw [List.replicate_succ, Machine.exec, Option.bind_eq_some_iff] at h
      obtain ⟨y, hy, h⟩ := h
      have hs : serverMachine.step s (.run t) = some { s with send := y } := hstep s.send y hy
      rw [List.replicate_succ, Machine.exec_cons hs]
      exact @ih { s with send := y } hstep h

theorem serverStep_reply {s : ServerState} (hpc : s.epoll = .reply) (y z : SendState)
    (h : step y (.run 0) = some z) :
    serverStep { s with send := y } (.run .epoll) = some { s with send := z } := by
  show epollStep { s with send := y } = _
  unfold epollStep
  dsimp only
  rw [hpc]
  dsimp only
  split
  · next hidle => simp [step, runStep, hidle] at h
  · rw [h]
    rfl

theorem serverStep_send {s : ServerState} {buf : Bytes} {todo : List Nat}
    (hpc : s.bradcast = .send buf todo) (y z : SendState) (h : step y (.run 1) = some z) :
    serverStep { s with send := y } (.run .bradcast) = some { s with send := z } := by
  show bradcastStep { s with send := y } = _
  unfold bradcastStep
  dsimp only
  rw [hpc]
  dsimp only
  split
  · next hidle => simp [step, runStep, hidle] at h
  · rw [h]
    rfl

/-- A call of the unsafe variant that finds room goes on like one of the safe variant. -/
theorem exec_checked {s : SendState} {t c : Nat} {buf : Bytes} (hpc : s.pc t = .idle)
    (hlen : buf.length < 2 ^ 32) (hr : (s.client c).removed = false)
    (hroom : unsafeFails (s.client c).queue buf.length = false) :
    ∃ y, step s (.call t c buf false) = some y ∧
      step y (.run t) = step s (.call t c buf true) := by
  refine ⟨{ s with calls := s.calls + 1 }.setPc t (.check ⟨s.calls, c, buf⟩), ?_, ?_⟩
  · simp only [step, hpc, hlen, hr]
    rfl
  · rw [step_call hpc hlen hr]
    simp [step, runStep, hroom, SendState.setPc]

/-- A broadcast to the only client, which takes the packet at once. -/
theorem exec_bradcast {s : ServerState} {buf : Bytes} {x : SendState} (hidle : s.bradcast = .idle)
    (htable : s.table = [0]) (hlock : s.tableLock = none) (hkcp : s.kcpEnable 0 = false)
    (hpos : 0 < buf.length) (hmax : buf.length ≤ videoPktSize) (hpc : s.send.pc 1 = .idle)
    (hr : (s.send.client 0).removed = false)
    (hroom : unsafeFails (s.send.client 0).queue buf.length = false)
    (hx : sendMachine.exec s.send [.call 1 0 buf true, .run 1, .run 1, .run 1] = some x)
    (hpc' : x.pc 1 = .idle) :
    serverMachine.exec s ([.bradcast buf, .foreach [0], .run .bradcast] ++
      (List.replicate 4 (.run .bradcast) ++ [.run .bradcast, .run .bradcast])) =
        some { s with send := x } := by
  have hlen : buf.length < 2 ^ 32 := by
    rw [videoPktSize] at hmax
    omega
  obtain ⟨y, hy, hcheck⟩ := exec_checked hpc hlen hr hroom
  have e₁ : serverMachine.exec s [.bradcast buf, .foreach [0], .run .bradcast] =
      some { s with send := y, tableLock := some .bradcast, bradcast := .send buf [] } := by
    simp [Machine.exec, serverMachine, serverStep, bradcastStep, hidle, hpos, hmax, hlock, htable,
      hkcp, hy]
  have e₂ : sendMachine.exec y (List.replicate 4 (.run 1)) = some x := by
    rw [← hx]
    show (step y (.run 1)).bind _ = (step s.send (.call 1 0 buf true)).bind _
    rw [hcheck]
    rfl
  have e₃ := exec_sends (t := .bradcast)
    (s := { s with send := y, tableLock := some .bradcast, bradcast := .send buf [] })
    (fun y z h => serverStep_send rfl y z h) e₂
  rw [Machine.exec_append, e₁, Option.bind_some, Machine.exec_append, e₃, Option.bind_some]
  simp [Machine.exec, serverMachine, serverStep, bradcastStep, hpc', ← hidle, ← hlock]

/-- The epoll thread takes a request and begins its reply. -/
theorem exec_packet {s : ServerState} {buf : Bytes} {y : SendState} (hidle : s.epoll = .idle)
    (hmem : 0 ∈ s.table) (hlock : s.callbackLock = none) (hkcp : s.kcpEnable 0 = false)
    (hlen : buf.length = responseSize) (hy : step s.send (.call 0 0 buf true) = some y) :
    serverMachine.exec s [.packet 0 (some buf), .run .epoll, .run .epoll] =
      some { s with send := y, callbackLock := some .epoll, epoll := .reply } := by
  simp [Machine.exec, serverMachine, serverStep, epollStep, hidle, hmem, hlock, hkcp, hlen, hy]

def ServerState.connected : ServerState := { ServerState.fresh with table := [0], accepted := 1 }

theorem reachable_connected : serverMachine.Reachable .connected :=
  Machine.Reachable.exec (.start rfl)
    (show serverMachine.exec .fresh [.useTable .accept, .run .epoll, .run .epoll] = _ from rfl)

/-- After a packet of 10485748 bytes the epoll thread waits for room for its own reply. -/
theorem epoll_deadlocks : ∃ s, serverMachine.Reachable s ∧ Deadlocked s.waitsFor .epoll := by
  obtain ⟨buf, hlen⟩ : ∃ buf : Bytes, buf.length = 10485748 :=
    ⟨List.replicate 10485748 0, List.length_replicate⟩
  obtain ⟨b, hb⟩ : ∃ b : Bytes, b.length = 20 := ⟨List.replicate 20 0, rfl⟩
  have hcap := capacity_eq
  have hfree : (SendState.fresh.client 0).queue.free = 10485760 := by decide
  have hhead : (SendState.fresh.client 0).queue.bufferHead.toNat = 0 := rfl
  have hzero : (SendState.fresh.client 0).queue.used = 0 := rfl
  obtain ⟨q, hx, hwf, -, hu, hh⟩ :=
    exec_send (s := .fresh) (t := 1) (c := 0) rfl rfl rfl DataQueue.empty_wellFormed
      (show 0 < buf.length by omega) (by omega) (by omega)
  generalize hsend : ({ SendState.fresh with client := _, calls := _ } : SendState) = x at hx
  have hpc : x.pc = fun _ => .idle := by rw [← hsend]; rfl
  have hq : (x.client 0).queue = q := by simp [← hsend]
  have ho : (x.client 0).owner = none := by simp [← hsend]
  have hr : (x.client 0).removed = false := by
    rw [← hsend]
    simp only [Function.update_self]
    rfl
  have hroom : unsafeFails (SendState.fresh.client 0).queue buf.length = false := by
    rw [hlen]
    decide
  have e₁ := @exec_bradcast .connected buf x rfl rfl rfl rfl (by omega)
    (by rw [videoPktSize]; omega) rfl rfl hroom hx (by rw [hpc])
  have hfree₁ := DataQueue.free_eq (DataQueue.used_le_capacity hwf)
  obtain ⟨q₂, e₂, hwf₂, hu₂, -⟩ := @exec_length x 0 0 b
    (by rw [hpc]) ho hr (by rw [hq]; exact hwf) (by omega) (by rw [hq]; omega) (by rw [hq]; omega)
  rw [hq] at hu₂
  rw [Machine.exec, Option.bind_eq_some_iff] at e₂
  obtain ⟨y, hy, e₂⟩ := e₂
  have e₃ := exec_packet (s := { ServerState.connected with send := x }) rfl
    (List.mem_singleton_self 0) rfl rfl hb hy
  generalize hk : (⟨x.calls, 0, b⟩ : SendCall) = k at e₂
  have hfull : ((x.begun 0 k q₂).client k.client).queue.free < (k.bytes .payload).length := by
    have hfree₂ := DataQueue.free_eq (DataQueue.used_le_capacity hwf₂)
    have hq₂ : ((x.begun 0 k q₂).client k.client).queue = q₂ := by simp
    have hk' : (k.bytes .payload).length = 20 := by rw [← hk]; exact hb
    rw [hq₂, hk']
    omega
  have hpark : step (x.begun 0 k q₂) (.run 0) = some ((x.begun 0 k q₂).park 0 k .payload) :=
    step_park (by simp) (by rw [← hk]; show b.length ≤ capacity; omega) hfull
  have e₄ : sendMachine.exec y (List.replicate 3 (.run 0)) =
      some ((x.begun 0 k q₂).park 0 k .payload) := by
    have hsplit : List.replicate 3 (SendAction.run 0) = [.run 0, .run 0] ++ [.run 0] := rfl
    have hlast : sendMachine.exec (x.begun 0 k q₂) [.run 0] =
        some ((x.begun 0 k q₂).park 0 k .payload) := Machine.exec_cons hpark
    rw [hsplit, Machine.exec_append, e₂, Option.bind_some, hlast]
  have e₅ := exec_sends (t := .epoll)
    (s := { ServerState.connected with send := y, callbackLock := some .epoll, epoll := .reply })
    (fun y z h => serverStep_reply rfl y z h) e₄
  refine ⟨_, ((reachable_connected.exec e₁).exec e₃).exec e₅, ?_⟩
  refine Relation.TransGen.single ⟨.space k.client, ?_, rfl⟩
  show (((x.begun 0 k q₂).park 0 k .payload).pc 0).waits = _
  simp [SendState.park, SendPc.waits]

end Hprd.Net
