import Mathlib.Logic.Function.Basic
import Hprd.Core.Machine

/-!
# TCP clients, server clients and KCP sessions

The objects of `net/tcp_server.c`, `net/net_server.c` and `net/kcp_server.c` that
point to each other. The epoll thread makes and frees TCP clients; the KCP thread makes
sessions, which stay for ever. A session of a client that goes, or that is linked before
the client is, points to nothing.
-/

namespace Hprd.Net

open Hprd.Core

/-- `priv` is null until `tcp_server_client_connect`. -/
structure TcpServerClient where
  clientId : UInt32
  priv : Option Nat

/-- A session is named by its id, as none is ever removed. -/
structure ServerClient where
  kcpEnable : Bool
  tcpServerClient : Nat
  kcpServerClient : Option UInt32

/-- Between the insertion into the table and `tcp_server_client_connect`. -/
inductive ConnectPc where
  | idle
  | inserted (client : Nat)

/-- `_kcp_server_thread` behind `server_has_client`, behind `g_hash_table_insert`, behind the
`tcp_find_client` of `kcp_server_client_connect`, and in `_kcp_recvdata`. -/
inductive SessionPc where
  | idle
  | checked (id : UInt32)
  | inserted (id : UInt32)
  | found (id : UInt32) (client : Nat)
  | serving (id : UInt32)

/-- A freed object is `none`, and no address is used again. `kcpTable` has the `priv` of each
session; `client` is the variable of the KCP thread. `fault` is set when a handler follows a null
or freed pointer, `late` when a packet of a removed client is handled. -/
structure LifeState where
  tcpHeap : Nat → Option TcpServerClient
  serHeap : Nat → Option ServerClient
  tcpNext : Nat
  serNext : Nat
  newId : UInt32
  tcpTable : UInt32 → Option Nat
  kcpTable : UInt32 → Option (Option Nat)
  client : Option UInt32
  epoll : ConnectPc
  kcp : SessionPc
  fault : Bool
  late : Bool

/-- A packet that looks at no client, the request `GET_CLIENT_ID`, another request. -/
inductive Handler where
  | plain
  | getClientId
  | request
  deriving DecidableEq

inductive LifeAction where
  | accept
  | acceptConnect
  | tcpPacket (client : Nat) (handler : Handler)
  | remove (client : Nat)
  | bradcast (id : UInt32)
  | datagram (id : UInt32)
  | kcpInsert
  | kcpFind
  | kcpLink
  | kcpPacket (handler : Handler)
  | kcpDone

/-- `server_client_getid` follows a freed client. -/
def getidFaults (s : LifeState) (ser : ServerClient) : Bool :=
  (s.tcpHeap ser.tcpServerClient).isNone

/-- `server_send_pkt` follows a freed client or a null session. -/
def sendFaults (s : LifeState) (ser : ServerClient) : Bool :=
  if ser.kcpEnable then ser.kcpServerClient.isNone else (s.tcpHeap ser.tcpServerClient).isNone

/-- `server_on_pkg` with this `priv`. -/
def handlerFaults (s : LifeState) (priv : Option Nat) (handler : Handler) : Bool :=
  match handler, priv.bind s.serHeap with
  | .plain, _ => false
  | _, none => true
  | .getClientId, some ser => getidFaults s ser || sendFaults s ser
  | .request, some ser => sendFaults s ser

/-- A new session is in `client_table` with a null `priv` until `kcp_server_client_connect` sets
it. -/
def lifeStep (s : LifeState) : LifeAction → Option LifeState
  | .accept =>
      match s.epoll with
      | .idle =>
          some { s with
            tcpHeap := Function.update s.tcpHeap s.tcpNext (some ⟨s.newId + 1, none⟩)
            tcpNext := s.tcpNext + 1
            newId := s.newId + 1
            tcpTable := Function.update s.tcpTable (s.newId + 1) (some s.tcpNext)
            epoll := .inserted s.tcpNext }
      | .inserted _ => none
  | .acceptConnect =>
      match s.epoll with
      | .idle => none
      | .inserted c =>
          (s.tcpHeap c).map fun ev =>
            { s with
              serHeap := Function.update s.serHeap s.serNext (some ⟨false, c, none⟩)
              serNext := s.serNext + 1
              tcpHeap := Function.update s.tcpHeap c (some { ev with priv := some s.serNext })
              epoll := .idle }
  | .tcpPacket c handler =>
      match s.epoll, s.tcpHeap c with
      | .idle, some ev =>
          some { s with
            fault := s.fault || handlerFaults s ev.priv handler
            late := s.late || s.tcpTable ev.clientId ≠ some c }
      | _, _ => none
  | .remove c =>
      match s.epoll, s.tcpHeap c with
      | .idle, some ev =>
          if s.tcpTable ev.clientId = none then some s
          else
            some { s with
              tcpTable := Function.update s.tcpTable ev.clientId none
              tcpHeap := Function.update s.tcpHeap c none }
      | _, _ => none
  | .bradcast id =>
      match s.tcpTable id with
      | none => none
      | some c =>
          match s.tcpHeap c with
          | none => some { s with fault := true }
          | some ev =>
              match ev.priv.bind s.serHeap with
              | none => some s
              | some ser =>
                  some { s with fault := s.fault || (!ser.kcpEnable && sendFaults s ser) }
  | .datagram id =>
      match s.kcp with
      | .idle =>
          if s.kcpTable id ≠ none then some { s with client := some id, kcp := .serving id }
          else if s.tcpTable id ≠ none then some { s with kcp := .checked id }
          else s.client.map fun last => { s with kcp := .serving last }
      | _ => none
  | .kcpInsert =>
      match s.kcp with
      | .checked id =>
          some { s with
            kcpTable := Function.update s.kcpTable id (some none)
            client := some id
            kcp := .inserted id }
      | _ => none
  | .kcpFind =>
      match s.kcp with
      | .inserted id =>
          match s.tcpTable id with
          | none => some { s with kcp := .serving id }
          | some c => some { s with kcp := .found id c }
      | _ => none
  | .kcpLink =>
      match s.kcp with
      | .found id c =>
          match s.tcpHeap c with
          | none => some { s with fault := true }
          | some ev =>
              match ev.priv with
              | none => some { s with fault := true }
              | some a =>
                  (s.serHeap a).map fun ser =>
                    { s with
                      serHeap := Function.update s.serHeap a
                        (some { ser with kcpEnable := true, kcpServerClient := some id })
                      kcpTable := Function.update s.kcpTable id (some (some a))
                      kcp := .serving id }
      | _ => none
  | .kcpPacket handler =>
      match s.kcp with
      | .serving id =>
          (s.kcpTable id).map fun priv =>
            { s with
              fault := s.fault || handlerFaults s priv handler
              late := s.late || s.tcpTable id = none }
      | _ => none
  | .kcpDone =>
      match s.kcp with
      | .serving _ => some { s with kcp := .idle }
      | _ => none

def LifeState.start : LifeState :=
  ⟨fun _ => none, fun _ => none, 0, 0, 0, fun _ => none, fun _ => none, none, .idle, .idle, false,
    false⟩

def lifeMachine : Machine LifeState LifeAction where
  init s := s = .start
  step := lifeStep

/-- The session is linked to a server client whose TCP client is in the table under the same id. -/
def Linked (s : LifeState) (id : UInt32) (priv : Option Nat) : Prop :=
  ∃ a ser ev, priv = some a ∧ s.serHeap a = some ser ∧
    s.tcpTable id = some ser.tcpServerClient ∧ s.tcpHeap ser.tcpServerClient = some ev ∧
    ev.clientId = id

def SessionPc.opening : SessionPc → Option UInt32
  | .checked id => some id
  | .inserted id => some id
  | .found id _ => some id
  | _ => none

def SessionPc.client : SessionPc → Option Nat
  | .found _ c => some c
  | _ => none

/-- Every session is linked, and nobody has followed a null or freed pointer or handled a packet
too late. -/
structure Bound (s : LifeState) : Prop where
  linked : ∀ id priv, s.kcpTable id = some priv → Linked s id priv
  sound : s.fault = false
  current : s.late = false

/-- The same, but for the session that the KCP thread is opening, which is not linked yet. -/
structure Attached (s : LifeState) : Prop where
  linked : ∀ id priv, s.kcpTable id = some priv →
    Linked s id priv ∨ priv = none ∧ s.kcp.opening = some id
  sound : s.fault = false
  current : s.late = false

/-- No client is removed that has a session or is getting one, a session is linked when its client
is connected, and a new id is not one of the table. -/
def Lasting (s : LifeState) : LifeAction → Prop
  | .remove c => ∀ ev ∈ s.tcpHeap c,
      s.kcpTable ev.clientId = none ∧ s.kcp.opening ≠ some ev.clientId
  | .kcpLink => ∀ c ∈ s.kcp.client, ∀ ev ∈ s.tcpHeap c, ev.priv ≠ none
  | .accept => s.tcpTable (s.newId + 1) = none
  | _ => True

instance (s : LifeState) (a : LifeAction) : Decidable (Lasting s a) :=
  match a with
  | .remove c => inferInstanceAs (Decidable (∀ ev ∈ s.tcpHeap c, _ ∧ _))
  | .kcpLink => inferInstanceAs (Decidable (∀ c ∈ s.kcp.client, ∀ ev ∈ s.tcpHeap c, _))
  | .accept => inferInstanceAs (Decidable (_ = none))
  | .acceptConnect | .tcpPacket _ _ | .bradcast _ | .datagram _ | .kcpInsert | .kcpFind
  | .kcpPacket _ | .kcpDone => inferInstanceAs (Decidable True)

/-! ## Tables and heaps -/

section

variable {α β : Type} [DecidableEq α] {f : α → Option β} {a b : α} {x : Option β} {y : β}

theorem lookup_update (h : Function.update f a x b = some y) :
    b = a ∧ x = some y ∨ b ≠ a ∧ f b = some y := by
  by_cases hb : b = a
  · rw [hb, Function.update_self] at h
    exact .inl ⟨hb, h⟩
  · rw [Function.update_of_ne hb] at h
    exact .inr ⟨hb, h⟩

theorem lookup_insert (hb : f b = some y) (ha : f a = none) :
    Function.update f a x b = some y := by
  have hne : b ≠ a := by
    rintro rfl
    cases ha.symm.trans hb
  rw [Function.update_of_ne hne, hb]

theorem lookup_remove (h : Function.update f a none b = some y) : b ≠ a ∧ f b = some y :=
  (lookup_update h).resolve_left fun hb => nomatch hb.2

theorem lookup_replace (hb : f b = none) (ha : f a = some y) : Function.update f a x b = none := by
  have hne : b ≠ a := by
    rintro rfl
    cases hb.symm.trans ha
  rw [Function.update_of_ne hne, hb]

theorem lookup_next {g : Nat → Option β} {n m : Nat} (h : ∀ c, n ≤ c → g c = none) (hm : n + 1 ≤ m) :
    Function.update g n x m = none :=
  (Function.update_of_ne (Nat.ne_of_gt hm) ..).trans (h m (Nat.le_of_succ_le hm))

end

/-! ## The objects over a run -/

/-- The links that hold between the objects besides those of `Attached`. -/
structure LifeInv (s : LifeState) : Prop where
  attached : Attached s
  table : ∀ id c, s.tcpTable id = some c → ∃ ev, s.tcpHeap c = some ev ∧ ev.clientId = id
  heap : ∀ c ev, s.tcpHeap c = some ev → s.tcpTable ev.clientId = some c
  priv : ∀ c ev a, s.tcpHeap c = some ev → ev.priv = some a →
    ∃ ser, s.serHeap a = some ser ∧ ser.tcpServerClient = c
  enabled : ∀ a ser, s.serHeap a = some ser → ser.kcpEnable = true → ser.kcpServerClient ≠ none
  unborn : ∀ c, s.tcpNext ≤ c → s.tcpHeap c = none
  unmade : ∀ a, s.serNext ≤ a → s.serHeap a = none
  inserted : ∀ c, s.epoll = .inserted c → ∃ ev, s.tcpHeap c = some ev ∧ ev.priv = none
  connected : ∀ c ev, s.tcpHeap c = some ev → s.epoll ≠ .inserted c → ev.priv ≠ none
  checked : ∀ id, s.kcp = .checked id → s.tcpTable id ≠ none ∧ s.kcpTable id = none
  opened : ∀ id, s.kcp = .inserted id → s.tcpTable id ≠ none ∧ s.kcpTable id = some none
  found : ∀ id c, s.kcp = .found id c → s.tcpTable id = some c ∧ s.kcpTable id = some none
  serving : ∀ id, s.kcp = .serving id → s.kcpTable id ≠ none
  last : ∀ id, s.client = some id → s.kcpTable id ≠ none

theorem lifeInv_start : LifeInv .start := by
  constructor
  case attached => exact ⟨nofun, rfl, rfl⟩
  case table => exact nofun
  case heap => exact nofun
  case priv => exact nofun
  case enabled => exact nofun
  case unborn => exact fun _ _ => rfl
  case unmade => exact fun _ _ => rfl
  case inserted => exact nofun
  case connected => exact nofun
  case checked => exact nofun
  case opened => exact nofun
  case found => exact nofun
  case serving => exact nofun
  case last => exact nofun

variable {s t : LifeState}

theorem LifeInv.linked (h : LifeInv s) (hpc : s.kcp.opening = none) {id : UInt32}
    {priv : Option Nat} (hid : s.kcpTable id = some priv) : Linked s id priv := by
  refine (h.attached.linked id priv hid).resolve_right ?_
  rw [hpc]
  exact fun hopen => nomatch hopen.2

theorem LifeInv.accept (h : LifeInv s) (hok : s.tcpTable (s.newId + 1) = none)
    (hs : lifeStep s .accept = some t) : LifeInv t := by
  rw [lifeStep] at hs
  split at hs
  next hpc =>
      cases hs
      have hfresh := h.unborn s.tcpNext (Nat.le_refl _)
      exact
        { h with
          attached := by
            refine ⟨fun id priv hid => (h.attached.linked id priv hid).imp_left ?_,
              h.attached.sound, h.attached.current⟩
            rintro ⟨a, ser, ev, ha, hser, htable, hev, hid'⟩
            exact ⟨a, ser, ev, ha, hser, lookup_insert htable hok, lookup_insert hev hfresh, hid'⟩
          table := by
            intro id c hc
            rcases lookup_update hc with ⟨rfl, hnew⟩ | ⟨-, hc⟩
            · cases hnew
              exact ⟨_, Function.update_self .., rfl⟩
            · rcases h.table id c hc with ⟨ev, hev, hid⟩
              exact ⟨ev, lookup_insert hev hfresh, hid⟩
          heap := by
            intro c ev hc
            rcases lookup_update hc with ⟨rfl, hnew⟩ | ⟨-, hc⟩
            · cases hnew
              exact Function.update_self ..
            · exact lookup_insert (h.heap c ev hc) hok
          priv := by
            intro c ev a hc ha
            rcases lookup_update hc with ⟨-, hnew⟩ | ⟨-, hc⟩
            · cases hnew
              cases ha
            · exact h.priv c ev a hc ha
          unborn := fun _ => lookup_next h.unborn
          inserted := by
            intro c hc
            cases hc
            exact ⟨_, Function.update_self .., rfl⟩
          connected := by
            intro c ev hc hne
            rcases lookup_update hc with ⟨rfl, -⟩ | ⟨-, hc⟩
            · exact absurd rfl hne
            · exact h.connected c ev hc (by rw [hpc]; exact nofun)
          checked := by
            intro id hk
            rcases h.checked id hk with ⟨hin, hno⟩
            rcases Option.ne_none_iff_exists'.1 hin with ⟨c, hc⟩
            exact ⟨Option.ne_none_iff_exists'.2 ⟨c, lookup_insert hc hok⟩, hno⟩
          opened := by
            intro id hk
            rcases h.opened id hk with ⟨hin, hsession⟩
            rcases Option.ne_none_iff_exists'.1 hin with ⟨c, hc⟩
            exact ⟨Option.ne_none_iff_exists'.2 ⟨c, lookup_insert hc hok⟩, hsession⟩
          found := fun id c hk => (h.found id c hk).imp_left fun hc => lookup_insert hc hok }
  · cases hs

theorem LifeInv.acceptConnect (h : LifeInv s) (hs : lifeStep s .acceptConnect = some t) :
    LifeInv t := by
  rw [lifeStep] at hs
  split at hs
  · cases hs
  next c hpc =>
      rw [Option.map_eq_some_iff] at hs
      rcases hs with ⟨ev, hev, rfl⟩
      have hfresh := h.unmade s.serNext (Nat.le_refl _)
      have hkept : ∀ d ev', s.tcpHeap d = some ev' → ∃ ev'',
          Function.update s.tcpHeap c (some { ev with priv := some s.serNext }) d = some ev'' ∧
            ev''.clientId = ev'.clientId := by
        intro d ev' hd
        by_cases hdc : d = c
        · subst hdc
          cases hev.symm.trans hd
          exact ⟨_, Function.update_self .., rfl⟩
        · exact ⟨ev', (Function.update_of_ne hdc ..).trans hd, rfl⟩
      exact
        { h with
          attached := by
            refine ⟨fun id priv hid => (h.attached.linked id priv hid).imp_left ?_,
              h.attached.sound, h.attached.current⟩
            rintro ⟨a, ser, ev', ha, hser, htable, hev', hid'⟩
            rcases hkept _ ev' hev' with ⟨ev'', hev'', hsame⟩
            exact ⟨a, ser, ev'', ha, lookup_insert hser hfresh, htable, hev'', hsame.trans hid'⟩
          table := by
            intro id d hd
            rcases h.table id d hd with ⟨ev', hev', hid⟩
            rcases hkept d ev' hev' with ⟨ev'', hev'', hsame⟩
            exact ⟨ev'', hev'', hsame.trans hid⟩
          heap := by
            intro d ev' hd
            rcases lookup_update hd with ⟨rfl, hnew⟩ | ⟨-, hd⟩
            · cases hnew
              exact h.heap _ ev hev
            · exact h.heap d ev' hd
          priv := by
            intro d ev' a hd ha
            rcases lookup_update hd with ⟨rfl, hnew⟩ | ⟨-, hd⟩
            · cases hnew
              cases ha
              exact ⟨_, Function.update_self .., rfl⟩
            · rcases h.priv d ev' a hd ha with ⟨ser, hser, hback⟩
              exact ⟨ser, lookup_insert hser hfresh, hback⟩
          enabled := by
            intro a ser ha hen
            rcases lookup_update ha with ⟨-, hnew⟩ | ⟨-, ha⟩
            · cases hnew
              cases hen
            · exact h.enabled a ser ha hen
          unborn := fun d hd => lookup_replace (h.unborn d hd) hev
          unmade := fun _ => lookup_next h.unmade
          inserted := nofun
          connected := by
            intro d ev' hd _
            rcases lookup_update hd with ⟨-, hnew⟩ | ⟨hdc, hd⟩
            · cases hnew
              exact nofun
            · refine h.connected d ev' hd ?_
              rw [hpc]
              rintro ⟨⟩
              exact hdc rfl }

/-- The handler finds a server client behind the pointer, and behind that a client. -/
theorem LifeInv.handlerFaults_eq (h : LifeInv s) {priv : Option Nat} {ser : ServerClient}
    (hser : priv.bind s.serHeap = some ser) (hev : s.tcpHeap ser.tcpServerClient ≠ none)
    (handler : Handler) : handlerFaults s priv handler = false := by
  rcases Option.bind_eq_some_iff.1 hser with ⟨a, -, ha⟩
  have hkcp := h.enabled a ser ha
  rcases Option.ne_none_iff_exists'.1 hev with ⟨ev, hev⟩
  have hsend : sendFaults s ser = false := by
    rw [sendFaults]
    split
    next hen =>
        rcases Option.ne_none_iff_exists'.1 (hkcp hen) with ⟨id, hid⟩
        rw [hid]
        rfl
    · rw [hev]
      rfl
  cases handler with
  | plain => rfl
  | getClientId => simp [handlerFaults, hser, hsend, getidFaults, hev]
  | request => simp [handlerFaults, hser, hsend]

theorem LifeInv.tcpPacket (h : LifeInv s) {c : Nat} {handler : Handler}
    (hs : lifeStep s (.tcpPacket c handler) = some t) : LifeInv t := by
  rw [lifeStep] at hs
  split at hs
  next ev hpc hev =>
      cases hs
      rcases Option.ne_none_iff_exists'.1 (h.connected c ev hev (by rw [hpc]; exact nofun)) with
        ⟨a, ha⟩
      rcases h.priv c ev a hev ha with ⟨ser, hser, hback⟩
      have hfault : handlerFaults s ev.priv handler = false :=
        h.handlerFaults_eq (by rw [ha]; exact hser) (by rw [hback, hev]; exact nofun) handler
      exact
        { h with
          attached := ⟨h.attached.linked, by simp [hfault, h.attached.sound],
            by simp [h.heap c ev hev, h.attached.current]⟩ }
  · cases hs

/-- The freed client is the one the table had, and no session is linked to it. -/
theorem LifeInv.remove (h : LifeInv s) {c : Nat}
    (hok : ∀ ev ∈ s.tcpHeap c, s.kcpTable ev.clientId = none ∧
      s.kcp.opening ≠ some ev.clientId)
    (hs : lifeStep s (.remove c) = some t) : LifeInv t := by
  rw [lifeStep] at hs
  split at hs
  next ev hpc hev =>
      rw [if_neg (by rw [h.heap c ev hev]; exact nofun)] at hs
      cases hs
      rcases hok ev hev with ⟨hsession, hopen⟩
      exact
        { h with
          attached := by
            refine ⟨fun id priv hid => (h.attached.linked id priv hid).imp_left ?_,
              h.attached.sound, h.attached.current⟩
            rintro ⟨a, ser, ev', ha, hser, htable, hev', hid'⟩
            have hne : id ≠ ev.clientId := by
              rintro rfl
              cases hsession.symm.trans hid
            have hother : ser.tcpServerClient ≠ c := by
              intro hc
              rw [hc] at hev'
              cases hev.symm.trans hev'
              exact hne hid'.symm
            exact ⟨a, ser, ev', ha, hser, (Function.update_of_ne hne ..).trans htable,
              (Function.update_of_ne hother ..).trans hev', hid'⟩
          table := by
            intro id d hd
            rcases lookup_remove hd with ⟨hne, hd⟩
            rcases h.table id d hd with ⟨ev', hev', hid⟩
            have hdc : d ≠ c := by
              rintro rfl
              cases hev.symm.trans hev'
              exact hne hid.symm
            exact ⟨ev', (Function.update_of_ne hdc ..).trans hev', hid⟩
          heap := by
            intro d ev' hd
            rcases lookup_remove hd with ⟨hdc, hd⟩
            have htable := h.heap d ev' hd
            have hne : ev'.clientId ≠ ev.clientId := by
              intro heq
              rw [heq, h.heap c ev hev] at htable
              cases htable
              exact hdc rfl
            exact (Function.update_of_ne hne ..).trans htable
          priv := fun d ev' a hd => h.priv d ev' a (lookup_remove hd).2
          unborn := fun d hd => lookup_replace (h.unborn d hd) hev
          inserted := fun d hd => nomatch hpc.symm.trans hd
          connected := fun d ev' hd => h.connected d ev' (lookup_remove hd).2
          checked := by
            intro id hk
            have hne : id ≠ ev.clientId := fun heq => hopen (by rw [hk, heq]; rfl)
            refine (h.checked id hk).imp_left fun hin => ?_
            show Function.update s.tcpTable ev.clientId none id ≠ none
            rwa [Function.update_of_ne hne]
          opened := by
            intro id hk
            have hne : id ≠ ev.clientId := fun heq => hopen (by rw [hk, heq]; rfl)
            refine (h.opened id hk).imp_left fun hin => ?_
            show Function.update s.tcpTable ev.clientId none id ≠ none
            rwa [Function.update_of_ne hne]
          found := by
            intro id d hk
            have hne : id ≠ ev.clientId := fun heq => hopen (by rw [hk, heq]; rfl)
            exact (h.found id d hk).imp_left (Function.update_of_ne hne ..).trans }
  · cases hs

theorem LifeInv.bradcast (h : LifeInv s) {id : UInt32}
    (hs : lifeStep s (.bradcast id) = some t) : LifeInv t := by
  rw [lifeStep] at hs
  split at hs
  · cases hs
  next c hc =>
      rcases h.table id c hc with ⟨ev, hev, -⟩
      rw [hev] at hs
      dsimp only at hs
      split at hs
      · cases hs
        exact h
      next ser hser =>
          cases hs
          rcases Option.bind_eq_some_iff.1 hser with ⟨a, hpriv, ha⟩
          rcases h.priv c ev a hev hpriv with ⟨ser', hser', hback⟩
          cases ha.symm.trans hser'
          have hsend : (!ser.kcpEnable && sendFaults s ser) = false := by
            rw [sendFaults, hback, hev]
            cases ser.kcpEnable <;> rfl
          exact
            { h with
              attached :=
                ⟨h.attached.linked, by simp [hsend, h.attached.sound], h.attached.current⟩ }

theorem LifeInv.datagram (h : LifeInv s) {id : UInt32}
    (hs : lifeStep s (.datagram id) = some t) : LifeInv t := by
  rw [lifeStep] at hs
  split at hs
  next hpc =>
      have hlinked : ∀ id priv, s.kcpTable id = some priv → Linked s id priv := fun _ _ =>
        h.linked (by rw [hpc]; rfl)
      split at hs
      next hsession =>
          cases hs
          exact
            { h with
              attached := { h.attached with linked := fun id priv hid => .inl (hlinked id priv hid) }
              checked := nofun
              opened := nofun
              found := nofun
              serving := by
                rintro _ ⟨⟩
                exact hsession
              last := by
                rintro _ ⟨⟩
                exact hsession }
      next hsession =>
          split at hs
          next hclient =>
              cases hs
              exact
                { h with
                  attached :=
                    { h.attached with linked := fun id priv hid => .inl (hlinked id priv hid) }
                  checked := by
                    rintro _ ⟨⟩
                    exact ⟨hclient, not_not.1 hsession⟩
                  opened := nofun
                  found := nofun
                  serving := nofun }
          next hclient =>
              rw [Option.map_eq_some_iff] at hs
              rcases hs with ⟨last, hlast, rfl⟩
              exact
                { h with
                  attached :=
                    { h.attached with linked := fun id priv hid => .inl (hlinked id priv hid) }
                  checked := nofun
                  opened := nofun
                  found := nofun
                  serving := by
                    rintro _ ⟨⟩
                    exact h.last last hlast }
  · cases hs

theorem LifeInv.kcpInsert (h : LifeInv s) (hs : lifeStep s .kcpInsert = some t) : LifeInv t := by
  rw [lifeStep] at hs
  split at hs
  next id hpc =>
      cases hs
      rcases h.checked id hpc with ⟨hclient, hsession⟩
      exact
        { h with
          attached := by
            refine { h.attached with linked := fun id' priv hid' => ?_ }
            rcases lookup_update hid' with ⟨rfl, hnew⟩ | ⟨-, hold⟩
            · cases hnew
              exact .inr ⟨rfl, rfl⟩
            · refine .inl ((h.attached.linked id' priv hold).resolve_right fun hopen => ?_)
              rw [hpc] at hopen
              cases hopen.2
              cases hsession.symm.trans hold
          checked := nofun
          opened := by
            rintro _ ⟨⟩
            exact ⟨hclient, Function.update_self ..⟩
          found := nofun
          serving := nofun
          last := by
            rintro _ ⟨⟩
            simp }
  · cases hs

theorem LifeInv.kcpFind (h : LifeInv s) (hs : lifeStep s .kcpFind = some t) : LifeInv t := by
  rw [lifeStep] at hs
  split at hs
  next id hpc =>
      rcases h.opened id hpc with ⟨hclient, hsession⟩
      split at hs
      next hgone => exact absurd hgone hclient
      next c hc =>
          cases hs
          exact
            { h with
              attached := by
                refine { h.attached with linked := fun id' priv hid' => ?_ }
                have hlinked := h.attached.linked id' priv hid'
                rw [hpc] at hlinked
                exact hlinked
              checked := nofun
              opened := nofun
              found := by
                rintro _ _ ⟨⟩
                exact ⟨hc, hsession⟩
              serving := nofun }
  · cases hs

/-- The session is linked to the server client of the TCP client with its id. -/
theorem LifeInv.kcpLink (h : LifeInv s)
    (hok : ∀ c ∈ s.kcp.client, ∀ ev ∈ s.tcpHeap c, ev.priv ≠ none)
    (hs : lifeStep s .kcpLink = some t) : LifeInv t := by
  rw [lifeStep] at hs
  split at hs
  next id c hpc =>
      rcases h.found id c hpc with ⟨hc, hsession⟩
      rcases h.table id c hc with ⟨ev, hev, hid⟩
      rcases Option.ne_none_iff_exists'.1 (hok c (by rw [hpc]; rfl) ev hev) with ⟨a, ha⟩
      rcases h.priv c ev a hev ha with ⟨ser, hser, hback⟩
      rw [hev] at hs
      dsimp only at hs
      rw [ha] at hs
      dsimp only at hs
      rw [hser] at hs
      cases hs
      have hlinked : ∀ id' priv, s.kcpTable id' = some priv → id' ≠ id →
          Linked s id' priv := by
        intro id' priv hid' hne
        refine (h.attached.linked id' priv hid').resolve_right fun hopen => ?_
        rw [hpc] at hopen
        cases hopen.2
        exact hne rfl
      have hpriv := h.priv
      exact
        { h with
          attached := by
            refine ⟨?_, h.attached.sound, h.attached.current⟩
            intro id' priv hid'
            left
            unfold Linked
            simp only [Function.update_apply] at hid' ⊢
            split at hid'
            next heq =>
                cases hid'
                exact ⟨a, _, ev, rfl, if_pos rfl, by rw [heq, hc, hback], by rw [hback, hev],
                  hid.trans heq.symm⟩
            next hne =>
                rcases hlinked id' priv hid' hne with
                  ⟨b, ser', ev', hb, hser', htable, hev', hid''⟩
                have hba : b ≠ a := by
                  rintro rfl
                  cases hser.symm.trans hser'
                  rw [hback, hev] at hev'
                  cases hev'
                  exact hne (hid''.symm.trans hid)
                refine ⟨b, ser', ev', hb, ?_, htable, hev', hid''⟩
                rw [if_neg hba]
                exact hser'
          priv := by
            intro d ev' b hd hb
            rcases hpriv d ev' b hd hb with ⟨ser', hser', hback'⟩
            simp only [Function.update_apply]
            split
            next hba =>
                rw [hba] at hser'
                cases hser.symm.trans hser'
                exact ⟨_, rfl, hback'⟩
            next hba => exact ⟨ser', hser', hback'⟩
          enabled := by
            intro b ser' hb hen
            rcases lookup_update hb with ⟨-, hnew⟩ | ⟨-, hb⟩
            · cases hnew
              exact nofun
            · exact h.enabled b ser' hb hen
          unmade := fun b hb => lookup_replace (h.unmade b hb) hser
          checked := nofun
          opened := nofun
          found := nofun
          serving := by
            rintro _ ⟨⟩
            simp
          last := by
            intro id' hlast
            show Function.update s.kcpTable id (some (some a)) id' ≠ none
            rw [Function.update_apply]
            split
            · exact nofun
            · exact h.last id' hlast }
  · cases hs

theorem LifeInv.kcpPacket (h : LifeInv s) {handler : Handler}
    (hs : lifeStep s (.kcpPacket handler) = some t) : LifeInv t := by
  rw [lifeStep] at hs
  split at hs
  next id hpc =>
      rw [Option.map_eq_some_iff] at hs
      rcases hs with ⟨priv, hpriv, rfl⟩
      rcases h.linked (by rw [hpc]; rfl) hpriv with ⟨a, ser, ev, rfl, hser, htable, hev, -⟩
      have hfault : handlerFaults s (some a) handler = false := by
        have hbind : (some a).bind s.serHeap = some ser := hser
        exact h.handlerFaults_eq hbind (by rw [hev]; exact nofun) handler
      exact
        { h with
          attached := ⟨h.attached.linked, by simp [hfault, h.attached.sound],
            by simp [htable, h.attached.current]⟩ }
  · cases hs

theorem LifeInv.kcpDone (h : LifeInv s) (hs : lifeStep s .kcpDone = some t) : LifeInv t := by
  rw [lifeStep] at hs
  split at hs
  next id hpc =>
      cases hs
      exact
        { h with
          attached :=
            { h.attached with
              linked := fun id' priv hid' => .inl (h.linked (by rw [hpc]; rfl) hid') }
          checked := nofun
          opened := nofun
          found := nofun
          serving := nofun }
  · cases hs

theorem LifeInv.step (h : LifeInv s) {a : LifeAction} (hok : Lasting s a)
    (hs : lifeStep s a = some t) : LifeInv t := by
  cases a with
  | accept => exact h.accept hok hs
  | acceptConnect => exact h.acceptConnect hs
  | tcpPacket c handler => exact h.tcpPacket hs
  | remove c => exact h.remove hok hs
  | bradcast id => exact h.bradcast hs
  | datagram id => exact h.datagram hs
  | kcpInsert => exact h.kcpInsert hs
  | kcpFind => exact h.kcpFind hs
  | kcpLink => exact h.kcpLink hok hs
  | kcpPacket handler => exact h.kcpPacket hs
  | kcpDone => exact h.kcpDone hs

/-- While every removed client is without a session, sessions are linked for connected clients
only and ids are not used again, no linked session precedes or outlives its client. -/
theorem attached_of_lasting {s : LifeState} (h : lifeMachine.Run Lasting s) : Attached s := by
  have hinv : LifeInv s := by
    refine h.invariant ?_ fun s a t hs hok hstep => hs.step hok hstep
    rintro _ rfl
    exact lifeInv_start
  exact hinv.attached

/-- A client opens its session and is answered over it while another comes and goes. -/
def comeAndGo : List LifeAction :=
  [.accept, .acceptConnect, .datagram 1, .accept, .kcpInsert, .bradcast 1, .kcpFind,
    .acceptConnect, .kcpLink, .kcpPacket .getClientId, .tcpPacket 1 .request, .kcpDone, .remove 1,
    .datagram 1, .kcpPacket .request, .kcpDone, .datagram 2]

theorem attached_comeAndGo : ∃ s, lifeMachine.Run Lasting s ∧ s.kcpTable 1 = some (some 0) ∧
    s.tcpTable 2 = none ∧ Attached s := by
  have hrun : ((lifeMachine.guarded Lasting).exec .start comeAndGo).map
      (fun s => (s.kcpTable 1, s.tcpTable 2)) = some (some (some 0), none) := by decide +kernel
  obtain ⟨s, hs, hview⟩ := Option.map_eq_some_iff.mp hrun
  simp only [Prod.mk.injEq] at hview
  have hrun := Machine.run_of_exec hs rfl
  exact ⟨s, hrun, hview.1, hview.2, attached_of_lasting hrun⟩

/-- A new session is in the table before it is linked, whatever else happens; and one of a client
that has gone stays there, so that the next request for its id follows the freed client. -/
theorem session_before_and_after : (∃ s, lifeMachine.Run Lasting s ∧ ¬Bound s) ∧
    ∃ s, lifeMachine.Reachable s ∧ s.fault = true ∧ ¬Bound s := by
  have hopen : ((lifeMachine.guarded Lasting).exec .start
      [.accept, .acceptConnect, .datagram 1, .kcpInsert]).map (fun s => s.kcpTable 1) =
      some (some none) := by decide +kernel
  have hgone : (lifeMachine.exec .start [.accept, .acceptConnect, .datagram 1, .kcpInsert, .kcpFind,
      .kcpLink, .kcpDone, .remove 0, .datagram 1, .kcpPacket .getClientId]).map
      (fun s => s.fault) = some true := by decide +kernel
  obtain ⟨s, hs, hpriv⟩ := Option.map_eq_some_iff.mp hopen
  obtain ⟨t, ht, hfault⟩ := Option.map_eq_some_iff.mp hgone
  refine ⟨⟨s, Machine.run_of_exec hs rfl, fun h => ?_⟩, t,
    .exec (.start rfl) ht, hfault, fun h => ?_⟩
  · obtain ⟨a, -, -, hnull, -⟩ := h.linked 1 none hpriv
    cases hnull
  · exact absurd (hfault.symm.trans h.sound) (by decide)

end Hprd.Net
