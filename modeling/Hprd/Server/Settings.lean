import Mathlib.Logic.Function.Basic
import Hprd.Server.DeviceLife
import Hprd.Server.Requests

/-!
# Settings across restarts

A request that sets a rate writes the global first and quits the capture after it,
and `server_start` makes its capture object before it reads the globals. So what a
handler changes too late to be read is followed by a quit of the object that runs.
The label `out1` of `server_start` is reached without `net_cb_lock` when the encoder
fails, and unlocks it all the same; the argument does not use the lock.
-/

namespace Hprd.Server

open Hprd.Core Common

inductive SetRequest where
  | bitRate (value : UInt32)
  | frameRate (value : UInt32)
  deriving DecidableEq

/-- A handler of `on_server_pkt`: before its write, before the look at `MIN_BIT_RATE`, before it
reads `cap_obj`, before it sets the quit flag of the object it read, before it unlocks. -/
inductive SetPc where
  | idle
  | write (req : SetRequest)
  | clamp
  | readCap
  | quit (obj : Option Nat)
  | unlock
  deriving DecidableEq

/-- `server_start`, from the `calloc` of the capture object to the unlocking of `net_cb_lock`. -/
inductive StartPc where
  | calloc
  | assign (obj : Nat)
  | capInfo
  | encFrameRate
  | encBitRate
  | mainLoop
  | lock
  | clear
  | unlock
  deriving DecidableEq

/-- `quit` and `capFrameRate` are members of the private data of the capture object at an address;
`encFrameRate` and `encBitRate` are what the encoder is configured with. -/
structure SettingsState where
  bitRate : UInt32
  frameRate : UInt32
  capObj : Option Nat
  quit : Nat → Bool
  capFrameRate : Nat → UInt32
  encFrameRate : UInt32
  encBitRate : UInt32
  locked : Bool
  main : StartPc
  handler : NetThread → SetPc

def xextFrameRate (frameRate : UInt32) : UInt32 := if frameRate > 240 then 240 else frameRate

/-- A step of `server_start`: the address `calloc` returns, and whether the encoder takes its
settings. -/
def startStep (s : SettingsState) (addr : Nat) (success : Bool) : Option SettingsState :=
  match s.main with
  | .calloc => some { s with quit := Function.update s.quit addr false, main := .assign addr }
  | .assign obj => some { s with capObj := some obj, main := .capInfo }
  | .capInfo =>
      match s.capObj with
      | none => none
      | some obj =>
          some { s with
            capFrameRate := Function.update s.capFrameRate obj (xextFrameRate s.frameRate)
            main := .encFrameRate }
  | .encFrameRate => some { s with encFrameRate := s.frameRate, main := .encBitRate }
  | .encBitRate =>
      some { s with encBitRate := s.bitRate, main := if success then .mainLoop else .clear }
  | .mainLoop =>
      match s.capObj with
      | none => none
      | some obj => some { s with main := if s.quit obj then .lock else .mainLoop }
  | .lock => if s.locked then none else some { s with locked := true, main := .clear }
  | .clear => some { s with capObj := none, main := .unlock }
  | .unlock => some { s with locked := false, main := .calloc }

def setHandler (s : SettingsState) (t : NetThread) (pc : SetPc) : SettingsState :=
  { s with handler := Function.update s.handler t pc }

def handlerStep (s : SettingsState) (t : NetThread) : Option SettingsState :=
  match s.handler t with
  | .idle => none
  | .write (.bitRate value) => some (setHandler { s with bitRate := value } t .clamp)
  | .write (.frameRate value) => some (setHandler { s with frameRate := value } t .readCap)
  | .clamp =>
      some (setHandler
        { s with bitRate := if s.bitRate < minBitRate then minBitRate else s.bitRate } t .readCap)
  | .readCap => some (setHandler s t (.quit s.capObj))
  | .quit none => some (setHandler s t .unlock)
  | .quit (some obj) =>
      some (setHandler { s with quit := Function.update s.quit obj true } t .unlock)
  | .unlock => some (setHandler { s with locked := false } t .idle)

/-- A step of `server_start`, a request that a network thread takes under the lock, or a step of
its handler. -/
inductive SettingsAction where
  | main (addr : Nat) (success : Bool)
  | request (t : NetThread) (req : SetRequest)
  | handler (t : NetThread)

def settingsStep (s : SettingsState) : SettingsAction → Option SettingsState
  | .main addr success => startStep s addr success
  | .request t req =>
      if s.handler t = .idle ∧ s.locked = false then
        some (setHandler { s with locked := true } t (.write req))
      else none
  | .handler t => handlerStep s t

def SettingsState.start : SettingsState where
  bitRate := minBitRate
  frameRate := 58
  capObj := none
  quit _ := false
  capFrameRate _ := 0
  encFrameRate := 0
  encBitRate := 0
  locked := false
  main := .calloc
  handler _ := .idle

def settingsMachine : Machine SettingsState SettingsAction where
  init s := s = .start
  step := settingsStep

/-- The running device and encoder have the settings of the globals. -/
structure InForce (s : SettingsState) (obj : Nat) : Prop where
  capture : s.capFrameRate obj = min s.frameRate 240
  encFrame : s.encFrameRate = s.frameRate
  encBit : s.encBitRate = s.bitRate

/-- While the loop runs unquit and no handler is at work, the settings are in force. -/
def Kept (s : SettingsState) : Prop :=
  s.main = .mainLoop → ∀ obj, s.capObj = some obj → s.quit obj = false →
    (∀ t, s.handler t = .idle) → InForce s obj

/-! ## The invariant -/

/-- The handler has written a global and will still quit `obj`. -/
def SetPc.willQuit (pc : SetPc) (obj : Nat) : Prop :=
  pc = .clamp ∨ pc = .readCap ∨ pc = .quit (some obj)

def Quitting (s : SettingsState) (obj : Nat) : Prop :=
  s.quit obj = true ∨ ∃ t, (s.handler t).willQuit obj

/-- The pc has passed the read of the capture's frame rate, of the encoder's, of its bit rate. -/
def StartPc.readCapRate : StartPc → Bool
  | .encFrameRate | .encBitRate | .mainLoop => true
  | _ => false

def StartPc.readEncFrame : StartPc → Bool
  | .encBitRate | .mainLoop => true
  | _ => false

def StartPc.readEncBit : StartPc → Bool
  | .mainLoop => true
  | _ => false

/-- Where the capture object was assigned and not yet cleared. -/
def StartPc.running (pc : StartPc) : Bool := pc.readCapRate || pc = .capInfo

/-- What was read is what the global has, or the object will not run for long. -/
structure SettingsInv (s : SettingsState) : Prop where
  assigned : s.main.running = true → ∃ obj, s.capObj = some obj
  capture : ∀ obj, s.capObj = some obj → s.main.readCapRate = true →
    s.capFrameRate obj = xextFrameRate s.frameRate ∨ Quitting s obj
  encFrame : ∀ obj, s.capObj = some obj → s.main.readEncFrame = true →
    s.encFrameRate = s.frameRate ∨ Quitting s obj
  encBit : ∀ obj, s.capObj = some obj → s.main.readEncBit = true →
    s.encBitRate = s.bitRate ∨ Quitting s obj

theorem xextFrameRate_eq (frameRate : UInt32) : xextFrameRate frameRate = min frameRate 240 := by
  change _ = if frameRate ≤ 240 then frameRate else 240
  rw [xextFrameRate]
  by_cases h : frameRate > 240
  · have hle : ¬frameRate ≤ 240 := UInt32.not_le.mpr h
    rw [if_pos h, if_neg hle]
  · have hle : frameRate ≤ 240 := UInt32.not_lt.mp h
    rw [if_neg h, if_pos hle]

theorem handler_setHandler (s : SettingsState) (t u : NetThread) (pc : SetPc) :
    (setHandler s t pc).handler u = if u = t then pc else s.handler u :=
  Function.update_apply ..

/-- A handler that has yet to quit an object covers it. -/
theorem quitting_of_willQuit {s : SettingsState} {t : NetThread} {pc : SetPc} {obj : Nat}
    (h : pc.willQuit obj) : Quitting (setHandler s t pc) obj := by
  refine .inr ⟨t, ?_⟩
  rwa [handler_setHandler, if_pos rfl]

theorem Quitting.setHandler {s s' : SettingsState} {t : NetThread} {pc : SetPc} {obj : Nat}
    (h : Quitting s obj) (hflag : s.quit obj = true → s'.quit obj = true)
    (hhandler : s'.handler = s.handler) (hpc : (s.handler t).willQuit obj → pc.willQuit obj) :
    Quitting (setHandler s' t pc) obj := by
  rcases h with hq | ⟨u, hu⟩
  · exact .inl (hflag hq)
  · refine .inr ⟨u, ?_⟩
    rw [handler_setHandler, hhandler]
    split
    next hut =>
      subst hut
      exact hpc hu
    next => exact hu

/-- What a step of a handler leaves. -/
structure HandlerFrame (s s' : SettingsState) : Prop where
  capObj : s'.capObj = s.capObj
  main : s'.main = s.main
  capFrameRate : s'.capFrameRate = s.capFrameRate
  encFrameRate : s'.encFrameRate = s.encFrameRate
  encBitRate : s'.encBitRate = s.encBitRate

theorem handlerStep_frame {s s' : SettingsState} {t : NetThread}
    (hs : handlerStep s t = some s') : HandlerFrame s s' := by
  unfold handlerStep at hs
  split at hs
  case h_1 => cases hs
  all_goals
    cases hs
    exact ⟨rfl, rfl, rfl, rfl, rfl⟩

/-- The object that runs is going to be quit after a handler's step, or the step left both globals
and it was not going to be quit before. -/
theorem handlerStep_quitting {s s' : SettingsState} {t : NetThread}
    (hs : handlerStep s t = some s') {obj : Nat} (hobj : s.capObj = some obj) :
    Quitting s' obj ∨
      (s'.bitRate = s.bitRate ∧ s'.frameRate = s.frameRate) ∧ ¬Quitting s obj := by
  have hkeeps : ∀ {u : SettingsState} {pc : SetPc}, s' = setHandler u t pc →
      (s.quit obj = true → u.quit obj = true) → u.handler = s.handler →
      u.bitRate = s.bitRate → u.frameRate = s.frameRate →
      ((s.handler t).willQuit obj → pc.willQuit obj) →
      Quitting s' obj ∨
        (s'.bitRate = s.bitRate ∧ s'.frameRate = s.frameRate) ∧ ¬Quitting s obj := by
    rintro u pc rfl hflag hhandler hbit hframe hpc
    by_cases hq : Quitting s obj
    · exact .inl (hq.setHandler hflag hhandler hpc)
    · exact .inr ⟨⟨hbit, hframe⟩, hq⟩
  unfold handlerStep at hs
  split at hs
  next => cases hs
  next =>
    cases hs
    exact .inl (quitting_of_willQuit (.inl rfl))
  next =>
    cases hs
    exact .inl (quitting_of_willQuit (.inr (.inl rfl)))
  next =>
    cases hs
    exact .inl (quitting_of_willQuit (.inr (.inl rfl)))
  next =>
    cases hs
    exact .inl (quitting_of_willQuit (.inr (.inr (by rw [hobj]))))
  next hpc =>
    cases hs
    refine hkeeps rfl id rfl rfl rfl fun hwill => ?_
    rw [hpc] at hwill
    rcases hwill with h | h | h <;> cases h
  next o hpc =>
    cases hs
    by_cases ho : obj = o
    · subst ho
      exact .inl (.inl (Function.update_self ..))
    · refine hkeeps rfl (fun hq => ?_) rfl rfl rfl fun hwill => ?_
      · exact (Function.update_of_ne ho ..).trans hq
      · rw [hpc] at hwill
        rcases hwill with h | h | h
        · cases h
        · cases h
        · cases h
          exact absurd rfl ho
  next hpc =>
    cases hs
    refine hkeeps rfl id rfl rfl rfl fun hwill => ?_
    rw [hpc] at hwill
    rcases hwill with h | h | h <;> cases h

theorem SettingsInv.handler {s s' : SettingsState} {t : NetThread} (h : SettingsInv s)
    (hs : handlerStep s t = some s') : SettingsInv s' := by
  have hf := handlerStep_frame hs
  have hkept : ∀ (obj : Nat) (read : StartPc → Bool) (value : UInt32)
      (stored : SettingsState → UInt32), s'.capObj = some obj → read s'.main = true →
      (s'.bitRate = s.bitRate ∧ s'.frameRate = s.frameRate → stored s' = stored s) →
      (s.capObj = some obj → read s.main = true → value = stored s ∨ Quitting s obj) →
      value = stored s' ∨ Quitting s' obj := by
    intro obj read value stored hobj hread hsame hold
    rw [hf.capObj] at hobj
    rw [hf.main] at hread
    rcases handlerStep_quitting hs hobj with hq | ⟨hglobals, hno⟩
    · exact .inr hq
    · rw [hsame hglobals]
      exact .inl ((hold hobj hread).resolve_right hno)
  constructor
  · rw [hf.main, hf.capObj]
    exact h.assigned
  · intro obj hobj hread
    rw [hf.capFrameRate]
    exact hkept obj StartPc.readCapRate _ (fun s => xextFrameRate s.frameRate) hobj hread
      (fun hsame => by rw [hsame.2]) (h.capture obj)
  · intro obj hobj hread
    rw [hf.encFrameRate]
    exact hkept obj StartPc.readEncFrame _ SettingsState.frameRate hobj hread And.right
      (h.encFrame obj)
  · intro obj hobj hread
    rw [hf.encBitRate]
    exact hkept obj StartPc.readEncBit _ SettingsState.bitRate hobj hread And.left (h.encBit obj)

theorem readCapRate_of_readEncFrame {pc : StartPc} (h : pc.readEncFrame = true) :
    pc.readCapRate = true := by
  cases pc with
  | encBitRate => rfl
  | mainLoop => rfl
  | _ => cases h

theorem readEncFrame_of_readEncBit {pc : StartPc} (h : pc.readEncBit = true) :
    pc.readEncFrame = true := by
  cases pc with
  | mainLoop => rfl
  | _ => cases h

theorem settingsInv_of_idle {s : SettingsState} (h : s.main.running = false) : SettingsInv s := by
  have hcap : ¬s.main.readCapRate = true := by
    rw [(Bool.or_eq_false_iff.mp h).1]
    exact Bool.false_ne_true
  constructor
  · intro hrun
    rw [h] at hrun
    cases hrun
  · intro _ _ hread
    exact absurd hread hcap
  · intro _ _ hread
    exact absurd (readCapRate_of_readEncFrame hread) hcap
  · intro _ _ hread
    exact absurd (readCapRate_of_readEncFrame (readEncFrame_of_readEncBit hread)) hcap

theorem SettingsInv.main {s s' : SettingsState} {addr : Nat} {success : Bool} (h : SettingsInv s)
    (hs : startStep s addr success = some s') : SettingsInv s' := by
  unfold startStep at hs
  split at hs
  next =>
    cases hs
    exact settingsInv_of_idle rfl
  next obj hm =>
    cases hs
    exact ⟨fun _ => ⟨obj, rfl⟩, nofun, nofun, nofun⟩
  next hm =>
    split at hs
    next => cases hs
    next obj hobj =>
      cases hs
      refine ⟨fun _ => ⟨obj, hobj⟩, fun o ho _ => .inl ?_, nofun, nofun⟩
      cases hobj.symm.trans ho
      exact Function.update_self ..
  next hm =>
    cases hs
    have hcap := h.capture
    rw [hm] at hcap
    refine ⟨fun _ => h.assigned (by rw [hm]; rfl), hcap, fun _ _ _ => .inl rfl, nofun⟩
  next hm =>
    cases hs
    have hcap := h.capture
    have henc := h.encFrame
    rw [hm] at hcap henc
    cases success with
    | false => exact settingsInv_of_idle rfl
    | true => exact ⟨fun _ => h.assigned (by rw [hm]; rfl), hcap, henc, fun _ _ _ => .inl rfl⟩
  next hm =>
    split at hs
    next => cases hs
    next obj hobj =>
      cases hs
      by_cases hq : s.quit obj = true
      · rw [if_pos hq]
        exact settingsInv_of_idle rfl
      · rw [if_neg hq, ← hm]
        exact h
  next =>
    split at hs
    next => cases hs
    next =>
      cases hs
      exact settingsInv_of_idle rfl
  next =>
    cases hs
    exact settingsInv_of_idle rfl
  next =>
    cases hs
    exact settingsInv_of_idle rfl

theorem SettingsInv.step {s s' : SettingsState} {a : SettingsAction} (h : SettingsInv s)
    (hs : settingsStep s a = some s') : SettingsInv s' := by
  cases a with
  | main addr success => exact h.main hs
  | handler t => exact h.handler hs
  | request t req =>
      obtain ⟨⟨hidle, -⟩, hs⟩ := Option.ite_none_right_eq_some.mp hs
      cases hs
      have hkept : ∀ obj, Quitting s obj →
          Quitting (setHandler { s with locked := true } t (.write req)) obj := by
        intro obj hq
        refine hq.setHandler id rfl fun hwill => ?_
        rw [hidle] at hwill
        rcases hwill with h | h | h <;> cases h
      refine ⟨h.assigned, fun obj hobj hread => ?_, fun obj hobj hread => ?_,
        fun obj hobj hread => ?_⟩
      · exact (h.capture obj hobj hread).imp_right (hkept obj)
      · exact (h.encFrame obj hobj hread).imp_right (hkept obj)
      · exact (h.encBit obj hobj hread).imp_right (hkept obj)

/-- In every interleaving of requests with the restarts of the main thread the running device and
encoder have the settings of the globals, unless they are about to stop. -/
theorem settings_kept {s : SettingsState} (h : settingsMachine.Reachable s) : Kept s := by
  have hinv : SettingsInv s := by
    refine h.invariant ?_ fun _ _ _ hi _ hs => hi.step hs
    rintro _ rfl
    exact settingsInv_of_idle rfl
  intro hmain obj hobj hquit hidle
  have hno : ¬Quitting s obj := by
    rintro (hq | ⟨t, hwill⟩)
    · rw [hquit] at hq
      cases hq
    · rw [hidle t] at hwill
      rcases hwill with h | h | h <;> cases h
  have hcap := (hinv.capture obj hobj (by rw [hmain]; rfl)).resolve_right hno
  constructor
  · rw [hcap, xextFrameRate_eq]
  · exact (hinv.encFrame obj hobj (by rw [hmain]; rfl)).resolve_right hno
  · exact (hinv.encBit obj hobj (by rw [hmain]; rfl)).resolve_right hno

/-- The loop runs, a client sets the frame rate to 250, and the server restarts with it. -/
def restart : List SettingsAction :=
  let init (addr : Nat) : List SettingsAction := List.replicate 5 (.main addr true)
  init 0 ++ [.main 0 true, .request .tcp (.frameRate 250), .handler .tcp, .handler .tcp,
    .handler .tcp, .handler .tcp, .main 0 true, .main 0 true, .main 0 true, .main 0 true] ++ init 1

theorem settings_kept_restart :
    ∃ s, settingsMachine.exec .start restart = some s ∧ InForce s 1 := by
  have hrun : (settingsMachine.exec .start restart).map (fun s =>
      (s.main, s.capObj, s.quit 1, s.handler .tcp, s.handler .kcp)) =
        some (.mainLoop, some 1, false, .idle, .idle) := by
    decide
  rcases Option.map_eq_some_iff.1 hrun with ⟨s, hs, hout⟩
  simp only [Prod.mk.injEq] at hout
  rcases hout with ⟨hmain, hobj, hquit, htcp, hkcp⟩
  refine ⟨s, hs, settings_kept (.exec (.start rfl) hs) hmain 1 hobj hquit fun t => ?_⟩
  cases t with
  | tcp => exact htcp
  | kcp => exact hkcp

/-! ## One request -/

def SetRequest.event (id : UInt32) : SetRequest → RequestEvent
  | .bitRate value => ⟨RequestCmd.setBitRate.code, id, value⟩
  | .frameRate value => ⟨RequestCmd.setFrameRate.code, id, value⟩

def SetRequest.handling (t : NetThread) : SetRequest → List SettingsAction
  | .bitRate value => .request t (.bitRate value) :: List.replicate 5 (.handler t)
  | .frameRate value => .request t (.frameRate value) :: List.replicate 4 (.handler t)

/-- A handler that is not interrupted does to the globals what `on_request` does. -/
theorem exec_handling {s : SettingsState} {t : NetThread} (req : SetRequest)
    (hidle : s.handler t = .idle) (hlocked : s.locked = false) (client : NetClient) (id : UInt32)
    (stack : ResponseEvent) (capObj : Option CaptureObj) :
    ∃ s', settingsMachine.exec s (req.handling t) = some s' ∧ s'.handler t = .idle ∧
      (⟨s'.bitRate, s'.frameRate, captureQuit capObj⟩ : Globals) =
        (onRequest ⟨s.bitRate, s.frameRate, capObj⟩ client (req.event id) stack).1 ∧
      ∀ obj, s.capObj = some obj → s'.quit obj = true := by
  have hstart : settingsMachine.step s (.request t req) =
      some (setHandler { s with locked := true } t (.write req)) :=
    if_pos ⟨hidle, hlocked⟩
  rw [SetRequest.handling.eq_def]
  cases hobj : s.capObj with
  | _ =>
      cases req with
      | bitRate value =>
          simp only [Machine.exec_cons hstart]
          simp [Machine.exec, settingsMachine, settingsStep, handlerStep, setHandler, hobj,
            List.replicate, onRequest, requestSwitch, SetRequest.event, RequestCmd.ofCode,
            RequestCmd.code]
          rfl
      | frameRate value =>
          simp only [Machine.exec_cons hstart]
          simp [Machine.exec, settingsMachine, settingsStep, handlerStep, setHandler, hobj,
            List.replicate, onRequest, requestSwitch, SetRequest.event, RequestCmd.ofCode,
            RequestCmd.code]

end Hprd.Server
