import Hprd.Core.Machine
import Hprd.Common.Protocol

/-!
# Requests and their answers

`on_request` of `server.c` with the globals it reads and writes. The response is
built in a struct on the stack that some branches fill only in part, so what lies
on the stack is an input. The log of a run has the latest request first.
-/

namespace Hprd.Server

open Hprd.Core Common

/-- What requests use of `struct capture_object`. -/
structure CaptureObj where
  fps : Int32
  quit : Bool
  deriving DecidableEq

structure Globals where
  bitRate : UInt32
  frameRate : UInt32
  capObj : Option CaptureObj
  deriving DecidableEq

/-- `struct server_client` at `addr`; `client_id` is in the TCP client it points to. -/
structure NetClient where
  addr : Nat
  tcpServerClient : Option UInt32
  deriving DecidableEq

def minBitRate : UInt32 := 1 * 1024 * 1024

def serverClientGetid (client : NetClient) : UInt32 := client.tcpServerClient.getD 0

def captureQuit (capObj : Option CaptureObj) : Option CaptureObj :=
  capObj.map fun obj => { obj with quit := true }

def captureGetFps : Option CaptureObj → Int32
  | none => -1
  | some obj => obj.fps

abbrev Sent := NetClient × Bytes

def serverSendEvent (client : NetClient) (channel : NetChannel) (buf : Bytes) : Sent :=
  (client, dataPkt channel buf)

/-- The switch of `on_request`, with `ret_event` as it is before. -/
def requestSwitch (g : Globals) (client : NetClient) (event : RequestEvent) (r : ResponseEvent) :
    Globals × ResponseEvent :=
  match RequestCmd.ofCode event.cmd with
  | some .setBitRate =>
      ({ g with
          bitRate := if event.value < minBitRate then minBitRate else event.value
          capObj := captureQuit g.capObj },
        { r with ret := retSuccess, value := event.value })
  | some .setFrameRate =>
      ({ g with frameRate := event.value, capObj := captureQuit g.capObj },
        { r with ret := retSuccess, value := event.value })
  | some .setShareClipboard => (g, { r with ret := retSuccess, value := event.value })
  | some .getBitRate => (g, { r with ret := retSuccess, value := g.bitRate })
  | some .getFrameRate => (g, { r with ret := retSuccess, value := g.frameRate })
  | some .getFps => (g, { r with ret := retSuccess, value := (captureGetFps g.capObj).toUInt32 })
  | some .getClientId =>
      if serverClientGetid client != 0 then
        (g, { r with ret := retSuccess, value := serverClientGetid client })
      else (g, r)
  | some .ping => (g, { r with ret := retSuccess, value := event.value })
  | none => (g, r)

/-- Whatever is not `RET_SUCCESS` becomes `RET_FAIL`. -/
def settleRet (r : ResponseEvent) : ResponseEvent :=
  if r.ret != retSuccess then { r with ret := retFail } else r

/-- `on_request`; `stack` is what `ret_event` holds before anything is written to it. -/
def onRequest (g : Globals) (client : NetClient) (event : RequestEvent) (stack : ResponseEvent) :
    Globals × List Sent :=
  let (g, r) := requestSwitch g client event { stack with id := event.id }
  (g, [serverSendEvent client .response (settleRet r).bytes])

/-- The request is one the server knows, and a client that asks for its id has one. -/
def supported (client : NetClient) (event : RequestEvent) : Bool :=
  match RequestCmd.ofCode event.cmd with
  | none => false
  | some .getClientId => serverClientGetid client != 0
  | some _ => true

/-! ## What is sent -/

/-- A request with the packets that were sent while it was handled. -/
structure Exchange where
  client : NetClient
  event : RequestEvent
  sent : List Sent

/-- The one packet sent is the response `r`, and it goes to the client that asked. -/
def Exchange.Answers (e : Exchange) (r : ResponseEvent) : Prop :=
  e.sent = [(e.client, dataPkt .response r.bytes)]

/-- One response, of the request's id, that says whether the request is supported. -/
def Exchange.Truthful (e : Exchange) : Prop :=
  ∃ r, e.Answers r ∧ r.id = e.event.id ∧
    r.ret = if supported e.client e.event then retSuccess else retFail

/-- The settings that a request sets and another one asks for. -/
inductive Setting where
  | bitRate
  | frameRate

namespace Setting

def set : Setting → RequestCmd
  | bitRate => .setBitRate
  | frameRate => .setFrameRate

def get : Setting → RequestCmd
  | bitRate => .getBitRate
  | frameRate => .getFrameRate

def stored (k : Setting) (g : Globals) : UInt32 :=
  match k with
  | bitRate => g.bitRate
  | frameRate => g.frameRate

/-- The server said that it set `k` to `v`. -/
def Accepted (k : Setting) (v : UInt32) (e : Exchange) : Prop :=
  RequestCmd.ofCode e.event.cmd = some k.set ∧
    ∃ r, e.Answers r ∧ r.ret = retSuccess ∧ r.value = v

/-- `v` is the last value the server said it set `k` to. -/
inductive Last (k : Setting) (v : UInt32) : List Exchange → Prop where
  | here {e older} : k.Accepted v e → Last k v (e :: older)
  | older {e older} : (∀ u, ¬k.Accepted u e) → Last k v older → Last k v (e :: older)

end Setting

/-- The latest exchange of a log is truthful, and where it asks for a setting that was set it
answers what the server said it set. -/
def Consistent : List Exchange → Prop
  | [] => True
  | e :: older => e.Truthful ∧
      ∀ k v, Setting.Last k v older → RequestCmd.ofCode e.event.cmd = some k.get →
        ∃ r, e.Answers r ∧ r.value = v

/-- So is every one of them. -/
def TruthfulLog (log : List Exchange) : Prop :=
  ∀ newer rest, log = newer ++ rest → Consistent rest

/-! ## Runs -/

structure RequestDesk where
  globals : Globals
  log : List Exchange

inductive DeskAction where
  | request (client : NetClient) (event : RequestEvent) (stack : ResponseEvent)
  | capture (capObj : Option CaptureObj)

def deskStep (s : RequestDesk) : DeskAction → Option RequestDesk
  | .request client event stack =>
      let (g, sent) := onRequest s.globals client event stack
      some ⟨g, ⟨client, event, sent⟩ :: s.log⟩
  | .capture capObj => some { s with globals := { s.globals with capObj := capObj } }

def RequestDesk.start : RequestDesk := ⟨⟨minBitRate, 58, none⟩, []⟩

def deskMachine : Machine RequestDesk DeskAction where
  init s := s = .start
  step := deskStep

/-- The stack does not read as a success where the response's `ret` stays unwritten, and no bit
rate below the least one is asked for. -/
def Settled (_ : RequestDesk) : DeskAction → Prop
  | .request client event stack =>
      (supported client event = true ∨ stack.ret ≠ retSuccess) ∧
        (RequestCmd.ofCode event.cmd = some .setBitRate → minBitRate ≤ event.value)
  | .capture _ => True

/-! ## One request -/

def response (g : Globals) (client : NetClient) (event : RequestEvent) (stack : ResponseEvent) :
    ResponseEvent :=
  settleRet (requestSwitch g client event { stack with id := event.id }).2

@[simp] theorem settleRet_id (r : ResponseEvent) : (settleRet r).id = r.id := by
  unfold settleRet
  split <;> rfl

@[simp] theorem settleRet_value (r : ResponseEvent) : (settleRet r).value = r.value := by
  unfold settleRet
  split <;> rfl

@[simp] theorem settleRet_ret (r : ResponseEvent) :
    (settleRet r).ret = if r.ret = retSuccess then retSuccess else retFail := by
  by_cases h : r.ret = retSuccess
  · simp [settleRet, h]
  · simp [settleRet, h]

theorem onRequest_eq (g : Globals) (client : NetClient) (event : RequestEvent)
    (stack : ResponseEvent) :
    onRequest g client event stack =
      ((requestSwitch g client event { stack with id := event.id }).1,
        [(client, dataPkt .response (response g client event stack).bytes)]) :=
  rfl

/-- Packets of different responses differ. -/
theorem Exchange.Answers.unique {e : Exchange} {r r' : ResponseEvent} (h : e.Answers r)
    (h' : e.Answers r') : r = r' := by
  have hpkt := h.symm.trans h'
  simp only [List.cons.injEq, Prod.mk.injEq, and_true, true_and] at hpkt
  apply ResponseEvent.bytes_injective
  exact (List.append_inj (List.append_inj hpkt rfl).2 (by simp)).2

theorem requestSwitch_id (g : Globals) (client : NetClient) (event : RequestEvent)
    (r : ResponseEvent) : (requestSwitch g client event r).2.id = r.id := by
  unfold requestSwitch
  split
  case h_7 => split <;> rfl
  all_goals rfl

/-- A supported request is answered with success, and any other leaves `ret` as it was. -/
theorem requestSwitch_ret (g : Globals) (client : NetClient) (event : RequestEvent)
    (r : ResponseEvent) :
    (requestSwitch g client event r).2.ret =
      if supported client event then retSuccess else r.ret := by
  unfold requestSwitch supported
  cases RequestCmd.ofCode event.cmd with
  | none => rfl
  | some c =>
      cases c with
      | getClientId =>
          by_cases hid : serverClientGetid client != 0
          · simp [hid]
          · simp [hid]
      | _ => rfl

theorem response_id (g : Globals) (client : NetClient) (event : RequestEvent)
    (stack : ResponseEvent) : (response g client event stack).id = event.id := by
  rw [response, settleRet_id, requestSwitch_id]

theorem response_ret (g : Globals) (client : NetClient) (event : RequestEvent)
    (stack : ResponseEvent) :
    (response g client event stack).ret =
      if supported client event = true ∨ stack.ret = retSuccess then retSuccess else retFail := by
  rw [response, settleRet_ret, requestSwitch_ret]
  by_cases hs : supported client event = true
  · simp [hs]
  · simp [hs]

theorem response_value (g : Globals) (client : NetClient) (event : RequestEvent)
    (stack : ResponseEvent) :
    (response g client event stack).value =
      (requestSwitch g client event { stack with id := event.id }).2.value :=
  settleRet_value _

theorem response_get {k : Setting} {event : RequestEvent} (g : Globals) (client : NetClient)
    (stack : ResponseEvent) (hc : RequestCmd.ofCode event.cmd = some k.get) :
    (response g client event stack).value = k.stored g := by
  rw [response_value, requestSwitch, hc]
  cases k with
  | bitRate => rfl
  | frameRate => rfl

theorem response_set {k : Setting} {event : RequestEvent} (g : Globals) (client : NetClient)
    (stack : ResponseEvent) (hc : RequestCmd.ofCode event.cmd = some k.set)
    (hmin : RequestCmd.ofCode event.cmd = some .setBitRate → minBitRate ≤ event.value) :
    (response g client event stack).value = k.stored (onRequest g client event stack).1 := by
  rw [response_value, onRequest_eq, requestSwitch, hc]
  cases k with
  | bitRate => exact (if_neg (UInt32.not_lt.mpr (hmin hc))).symm
  | frameRate => rfl

theorem stored_onRequest {k : Setting} {event : RequestEvent} (g : Globals) (client : NetClient)
    (stack : ResponseEvent) (hc : RequestCmd.ofCode event.cmd ≠ some k.set) :
    k.stored (onRequest g client event stack).1 = k.stored g := by
  rw [onRequest_eq, requestSwitch]
  cases hcmd : RequestCmd.ofCode event.cmd with
  | none => rfl
  | some c =>
      rw [hcmd] at hc
      cases c with
      | setBitRate =>
          cases k with
          | bitRate => exact absurd rfl hc
          | frameRate => rfl
      | setFrameRate =>
          cases k with
          | bitRate => rfl
          | frameRate => exact absurd rfl hc
      | getClientId => dsimp only; split <;> rfl
      | _ => rfl

def exchange (g : Globals) (client : NetClient) (event : RequestEvent) (stack : ResponseEvent) :
    Exchange :=
  ⟨client, event, (onRequest g client event stack).2⟩

theorem exchange_answers (g : Globals) (client : NetClient) (event : RequestEvent)
    (stack : ResponseEvent) :
    (exchange g client event stack).Answers (response g client event stack) :=
  rfl

theorem deskStep_request (s : RequestDesk) (client : NetClient) (event : RequestEvent)
    (stack : ResponseEvent) :
    deskStep s (.request client event stack) =
      some ⟨(onRequest s.globals client event stack).1,
        exchange s.globals client event stack :: s.log⟩ :=
  rfl

/-- A request is answered truthfully unless it is one that leaves `ret` unwritten over a stack
that reads as a success. -/
theorem exchange_truthful_iff (g : Globals) (client : NetClient) (event : RequestEvent)
    (stack : ResponseEvent) :
    (exchange g client event stack).Truthful ↔
      (supported client event = true ∨ stack.ret ≠ retSuccess) := by
  constructor
  · rintro ⟨r, hr, -, hret⟩
    rw [← (exchange_answers g client event stack).unique hr, response_ret] at hret
    by_contra hno
    rw [not_or, not_not] at hno
    rcases hno with ⟨hs, hstack⟩
    rw [if_pos (Or.inr hstack)] at hret
    change _ = if supported client event = true then _ else _ at hret
    rw [if_neg hs] at hret
    cases hret
  · intro h
    refine ⟨_, exchange_answers g client event stack, response_id .., ?_⟩
    change _ = if supported client event = true then _ else _
    rw [response_ret]
    by_cases hs : supported client event = true
    · rw [if_pos (Or.inl hs), if_pos hs]
    · have hstack := h.resolve_left hs
      rw [if_neg (not_or.mpr ⟨hs, hstack⟩), if_neg hs]

/-! ## Every run -/

/-- What is kept is what the server last said it set. -/
structure DeskInv (s : RequestDesk) : Prop where
  consistent : TruthfulLog s.log
  stored : ∀ k v, Setting.Last k v s.log → k.stored s.globals = v

theorem TruthfulLog.cons {e : Exchange} {log : List Exchange} (h : TruthfulLog log)
    (he : Consistent (e :: log)) : TruthfulLog (e :: log) := by
  intro newer rest heq
  cases newer with
  | nil =>
      cases heq
      exact he
  | cons d newer =>
      cases heq
      exact h newer rest rfl

theorem deskInv_start : DeskInv .start := by
  constructor
  · intro newer rest heq
    rcases List.append_eq_nil_iff.mp heq.symm with ⟨-, rfl⟩
    trivial
  · intro k v h
    cases h

theorem DeskInv.request {s : RequestDesk} {client : NetClient} {event : RequestEvent}
    {stack : ResponseEvent} (h : DeskInv s) (hok : Settled s (.request client event stack)) :
    DeskInv ⟨(onRequest s.globals client event stack).1,
      exchange s.globals client event stack :: s.log⟩ := by
  rcases hok with ⟨hret, hmin⟩
  constructor
  · apply h.consistent.cons
    refine ⟨(exchange_truthful_iff ..).mpr hret, fun k v hlast hc => ?_⟩
    change RequestCmd.ofCode event.cmd = some k.get at hc
    refine ⟨_, exchange_answers .., ?_⟩
    rw [response_get _ _ _ hc, h.stored k v hlast]
  · intro k v hlast
    cases hlast with
    | here hacc =>
        rcases hacc with ⟨hc, r, hr, -, rfl⟩
        rw [← (exchange_answers ..).unique hr]
        exact (response_set _ _ _ hc hmin).symm
    | older hno hlast =>
        have hc : RequestCmd.ofCode event.cmd ≠ some k.set := by
          intro hc
          have hsup : supported client event = true := by
            rw [supported, hc]
            cases k with
            | _ => rfl
          refine hno _ ⟨hc, _, exchange_answers .., ?_, rfl⟩
          rw [response_ret, if_pos (Or.inl hsup)]
        rw [stored_onRequest _ _ _ hc]
        exact h.stored k v hlast

theorem DeskInv.step {s t : RequestDesk} {a : DeskAction} (h : DeskInv s) (hok : Settled s a)
    (hs : deskStep s a = some t) : DeskInv t := by
  cases a with
  | request client event stack =>
      rw [deskStep_request] at hs
      cases hs
      exact h.request hok
  | capture capObj =>
      cases hs
      refine ⟨h.consistent, fun k v hlast => ?_⟩
      rw [← h.stored k v hlast]
      cases k with
      | _ => rfl

/-- Where no response is left to the stack and no bit rate is raised, every request of the run is
answered once and truthfully, and a setting is answered as it was last set. -/
theorem truthful_of_settled {s : RequestDesk} (h : deskMachine.Run Settled s) :
    TruthfulLog s.log := by
  have hinv : DeskInv s := by
    refine h.invariant ?_ fun _ _ _ hi hok hs => hi.step hok hs
    rintro _ rfl
    exact deskInv_start
  exact hinv.consistent

theorem run_request {ok : RequestDesk → DeskAction → Prop} {s : RequestDesk}
    (h : deskMachine.Run ok s) (client : NetClient) (event : RequestEvent) (stack : ResponseEvent)
    (hok : ok s (.request client event stack)) :
    deskMachine.Run ok ⟨(onRequest s.globals client event stack).1,
      exchange s.globals client event stack :: s.log⟩ :=
  h.next hok (deskStep_request ..)

def zeroStack : ResponseEvent := ⟨0, (0, 0, 0), 0, 0⟩

/-- One client sets a bit rate and another one asks for it. -/
theorem truthful_setThenGet :
    TruthfulLog [exchange ⟨2097152, 58, none⟩ ⟨1, some 2⟩ ⟨3, 8, 0⟩ zeroStack,
      exchange ⟨minBitRate, 58, none⟩ ⟨0, some 1⟩ ⟨0, 7, 2097152⟩ zeroStack] := by
  have hset := @run_request Settled _ (.start rfl) ⟨0, some 1⟩ ⟨0, 7, 2097152⟩ zeroStack
    ⟨by decide, by decide⟩
  have hget := run_request hset ⟨1, some 2⟩ ⟨3, 8, 0⟩ zeroStack ⟨by decide, by decide⟩
  exact truthful_of_settled hget

/-- A request of no known command over a stack that reads as a success, and a bit rate that is
raised after it was echoed. -/
theorem requests_not_truthful :
    (∃ s, deskMachine.Reachable s ∧ ¬TruthfulLog s.log) ∧
      ∃ s, deskMachine.Reachable s ∧ (∀ e ∈ s.log, e.Truthful) ∧ ¬TruthfulLog s.log := by
  constructor
  · refine ⟨_, run_request (.start rfl) ⟨0, some 1⟩ ⟨200, 7, 0⟩ ⟨1, (0, 0, 0), 0, 0⟩ trivial, ?_⟩
    intro h
    have he := (h [] _ rfl).1
    rw [exchange_truthful_iff] at he
    exact absurd he (by decide)
  · have hset : deskMachine.Reachable _ :=
      run_request (.start rfl) ⟨0, some 1⟩ ⟨0, 7, 5⟩ zeroStack trivial
    refine ⟨_, run_request hset ⟨1, some 2⟩ ⟨3, 8, 0⟩ zeroStack trivial, ?_, fun h => ?_⟩
    · intro e he
      rcases List.mem_cons.mp he with rfl | he
      · exact (exchange_truthful_iff ..).mpr (by decide)
      · rw [List.mem_singleton.mp he]
        exact (exchange_truthful_iff ..).mpr (by decide)
    · have hacc : Setting.bitRate.Accepted 5
          (exchange ⟨minBitRate, 58, none⟩ ⟨0, some 1⟩ ⟨0, 7, 5⟩ zeroStack) :=
        ⟨rfl, _, exchange_answers .., by decide, by decide⟩
      rcases (h [] _ rfl).2 .bitRate 5 (.here hacc) rfl with ⟨r, hr, hv⟩
      rw [← (exchange_answers ..).unique hr] at hv
      exact absurd hv (by decide)

end Hprd.Server
