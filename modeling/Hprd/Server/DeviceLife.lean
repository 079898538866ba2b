import Mathlib.Logic.Function.Basic
import Hprd.Core.Machine

/-!
# Device objects and network callbacks

`server_start` of `server.c` makes and releases the capture, the encoder and the input
device over and over while the two network threads run `on_server_pkt` and
`on_client_connect`. The label `out1` is reached without the lock when a `set_info`
fails, and `on_client_connect` never takes the lock.
-/

namespace Hprd.Server

open Hprd.Core

/-- `cap_obj`, `enc_obj` and `in_obj`. -/
inductive Device where
  | cap
  | enc
  | inp
  deriving DecidableEq

/-- What a thread that handles clients calls: `on_client_connect`, or `on_server_pkt` with a key,
a clip, a request that quits the capture, a request for its fps, anything else. -/
inductive NetCallback where
  | connect
  | key
  | clip
  | quit
  | getFps
  | other
  deriving DecidableEq

/-- `on_server_pkt` holds `net_cb_lock`. -/
def NetCallback.locks : NetCallback → Bool
  | .connect => false
  | _ => true

/-- The object the callback works on. -/
def NetCallback.device : NetCallback → Option Device
  | .connect => some .enc
  | .key => some .inp
  | .clip => some .inp
  | .quit => some .cap
  | .getFps => some .cap
  | .other => none

/-- `on_request` does not look whether there is a `cap_obj`. -/
def NetCallback.tests : NetCallback → Bool
  | .connect => true
  | .key => true
  | .clip => true
  | _ => false

/-- `capture_get_fps` reads a field and calls no operation. -/
def NetCallback.applies : NetCallback → Bool
  | .getFps => false
  | _ => true

/-- Before the lock, before the `if`, before the global is read as the argument, before `obj->ops`,
before the operation, and before the unlock or the return. -/
inductive NetPc where
  | idle
  | lock (cb : NetCallback)
  | test (cb : NetCallback) (d : Device)
  | arg (cb : NetCallback) (d : Device)
  | deref (cb : NetCallback) (d : Device) (obj : Nat)
  | apply (cb : NetCallback) (d : Device) (obj : Nat)
  | done (cb : NetCallback)

/-- `server_start`; the numbers count the turns of its loops that are left. -/
inductive MainPc where
  | init (d : Device)
  | getInfo
  | map (left : Nat)
  | setCap
  | setEnc
  | loop
  | lock
  | unmap (left : Nat)
  | release (d : Device)
  | clear (d : Device)
  | unlock
  | returned

inductive NetThread where
  | tcp
  | kcp
  deriving DecidableEq

inductive LockOwner where
  | main
  | net (t : NetThread)
  deriving DecidableEq

/-- Objects are numbered as they are made. `badUse` is set when a callback works on a released
object, `badUnlock` when a thread unlocks what it does not hold. -/
structure DeviceState where
  obj : Device → Option Nat
  released : Device → Nat → Bool
  next : Nat
  lock : Option LockOwner
  main : MainPc
  net : NetThread → NetPc
  badUse : Bool
  badUnlock : Bool

/-- A step of `server_start`, with the call in it succeeding or not, or of a network thread. -/
inductive DeviceAction where
  | main (success : Bool)
  | call (t : NetThread) (cb : NetCallback)
  | net (t : NetThread)

def Device.afterInit : Device → MainPc
  | .cap => .init .enc
  | .enc => .init .inp
  | .inp => .getInfo

def Device.afterRelease : Device → MainPc
  | .inp => .release .enc
  | .enc => .release .cap
  | .cap => .clear .inp

def Device.afterClear : Device → MainPc
  | .inp => .clear .enc
  | .enc => .clear .cap
  | .cap => .unlock

def unlockBy (s : DeviceState) (o : LockOwner) : DeviceState :=
  { s with lock := none, badUnlock := s.badUnlock || s.lock ≠ some o }

/-- A `return -1` ends the server, and so does the `exit` in the loop under `out1`. -/
def mainStep (s : DeviceState) (success : Bool) : Option DeviceState :=
  match s.main with
  | .init d =>
      some { s with
        obj := Function.update s.obj d (some s.next), next := s.next + 1, main := d.afterInit }
  | .getInfo => some { s with main := if success then .map 5 else .returned }
  | .map 0 => some { s with main := .setCap }
  | .map (left + 1) => some { s with main := if success then .map left else .returned }
  | .setCap => some { s with main := if success then .setEnc else .unmap 5 }
  | .setEnc => some { s with main := if success then .loop else .unmap 5 }
  | .loop => some { s with main := .lock }
  | .lock =>
      match s.lock with
      | none => some { s with lock := some .main, main := .unmap 5 }
      | some _ => none
  | .unmap 0 => some { s with main := .release .inp }
  | .unmap (left + 1) => some { s with main := if success then .unmap left else .returned }
  | .release d =>
      some { s with
        released := fun e o => s.released e o || (d = e ∧ s.obj d = some o)
        main := d.afterRelease }
  | .clear d => some { s with obj := Function.update s.obj d none, main := d.afterClear }
  | .unlock => some { unlockBy s .main with main := .init .cap }
  | .returned => none

/-- A callback that has the lock or needs none. -/
def NetCallback.enter (cb : NetCallback) : NetPc :=
  match cb.device with
  | none => .done cb
  | some d => if cb.tests then .test cb d else .arg cb d

def setNet (s : DeviceState) (t : NetThread) (pc : NetPc) : DeviceState :=
  { s with net := Function.update s.net t pc }

def netStep (s : DeviceState) (t : NetThread) : Option DeviceState :=
  match s.net t with
  | .idle => none
  | .lock cb =>
      match s.lock with
      | none => some (setNet { s with lock := some (.net t) } t cb.enter)
      | some _ => none
  | .test cb d => some (setNet s t (if s.obj d = none then .done cb else .arg cb d))
  | .arg cb d =>
      match s.obj d with
      | none => some (setNet s t (.done cb))
      | some o => some (setNet s t (.deref cb d o))
  | .deref cb d o =>
      some (setNet { s with badUse := s.badUse || s.released d o } t
        (if cb.applies then .apply cb d o else .done cb))
  | .apply cb d o =>
      some (setNet { s with badUse := s.badUse || s.released d o } t (.done cb))
  | .done cb => some (setNet (if cb.locks then unlockBy s (.net t) else s) t .idle)

def deviceStep (s : DeviceState) : DeviceAction → Option DeviceState
  | .main success => mainStep s success
  | .call t cb =>
      match s.net t with
      | .idle => some (setNet s t (if cb.locks then .lock cb else cb.enter))
      | _ => none
  | .net t => netStep s t

def DeviceState.start : DeviceState where
  obj _ := none
  released _ _ := false
  next := 0
  lock := none
  main := .init .cap
  net _ := .idle
  badUse := false
  badUnlock := false

def deviceMachine : Machine DeviceState DeviceAction where
  init s := s = .start
  step := deviceStep

structure Untouched (s : DeviceState) : Prop where
  use : s.badUse = false
  unlock : s.badUnlock = false

/-- Behind the release of the object, before its pointer is cleared. -/
def MainPc.tearing : MainPc → Device → Bool
  | .release .enc, .inp => true
  | .release .cap, .inp => true
  | .release .cap, .enc => true
  | .clear .inp, _ => true
  | .clear .enc, .enc => true
  | .clear .enc, .cap => true
  | .clear .cap, .cap => true
  | _, _ => false

/-- The thread has a pointer to this object. -/
def NetPc.holds (pc : NetPc) (cb : NetCallback) (d : Device) (obj : Nat) : Prop :=
  pc = .deref cb d obj ∨ pc = .apply cb d obj

/-- No `set_info` fails, no encoder is released while `on_client_connect` has its pointer, and
none is taken over by `on_client_connect` between its release and the clearing of `enc_obj`. -/
structure Apart (s : DeviceState) (a : DeviceAction) : Prop where
  setInfo : a = .main false → s.main ≠ .setCap ∧ s.main ≠ .setEnc
  release : ∀ success, a = .main success → s.main = .release .enc →
    ∀ t d obj, ¬(s.net t).holds .connect d obj
  connect : ∀ t d, a = .net t → s.net t = .arg .connect d → s.main.tearing .enc = false

/-! ## Who has the lock and which objects live -/

/-- In `server_start` behind `pthread_mutex_lock`. -/
def MainPc.locked : MainPc → Bool
  | .unmap _ => true
  | .release _ => true
  | .clear _ => true
  | .unlock => true
  | _ => false

/-- In `on_server_pkt` behind `pthread_mutex_lock`. -/
def NetPc.locked : NetPc → Bool
  | .idle => false
  | .lock _ => false
  | .test cb _ => cb.locks
  | .arg cb _ => cb.locks
  | .deref cb _ _ => cb.locks
  | .apply cb _ _ => cb.locks
  | .done cb => cb.locks

/-- The callback the thread is in and the object it works on. -/
def NetPc.worksOn : NetPc → Option (NetCallback × Device)
  | .test cb d => some (cb, d)
  | .arg cb d => some (cb, d)
  | .deref cb d _ => some (cb, d)
  | .apply cb d _ => some (cb, d)
  | _ => none

structure DeviceInv (s : DeviceState) : Prop where
  untouched : Untouched s
  mainLock : s.main.locked = true → s.lock = some .main
  netLock : ∀ t, (s.net t).locked = true → s.lock = some (.net t)
  device : ∀ t cb d, (s.net t).worksOn = some (cb, d) → cb.device = some d
  live : ∀ d o, s.obj d = some o → s.released d o = true → s.main.tearing d = true
  held : ∀ t cb d o, (s.net t).holds cb d o → s.released d o = false
  old : ∀ d o, s.obj d = some o → o < s.next
  fresh : ∀ d o, s.next ≤ o → s.released d o = false

theorem deviceInv_start : DeviceInv .start := by
  constructor
  · exact ⟨rfl, rfl⟩
  all_goals simp [DeviceState.start, MainPc.locked, NetPc.locked, NetPc.worksOn, NetPc.holds]

variable {s s' : DeviceState}

theorem DeviceInv.mainMoved {pc : MainPc} (h : DeviceInv s)
    (hlock : pc.locked = true → s.main.locked = true)
    (htear : ∀ d, s.main.tearing d = true → pc.tearing d = true) :
    DeviceInv { s with main := pc } :=
  { h with
    untouched := { h.untouched with }
    mainLock := fun hl => h.mainLock (hlock hl)
    live := fun d o ho hr => htear d (h.live d o ho hr) }

theorem DeviceInv.init {d : Device} (h : DeviceInv s) (hpc : s.main = .init d) :
    DeviceInv { s with
      obj := Function.update s.obj d (some s.next), next := s.next + 1, main := d.afterInit } := by
  have hlive := h.live
  have hfresh := h.fresh
  have hold := h.old
  exact
    { h with
      untouched := { h.untouched with }
      mainLock := by cases d <;> exact nofun
      live := by
        rw [hpc] at hlive
        intro e o ho hr
        grind [Function.update_apply, MainPc.tearing]
      old := by grind [Function.update_apply]
      fresh := fun e o ho => hfresh e o (Nat.le_of_succ_le ho) }

/-- Nobody has a pointer to what is released: a thread in `on_server_pkt` would have the lock, and
the condition excludes `on_client_connect`. -/
theorem DeviceInv.release {d : Device} (h : DeviceInv s) (hpc : s.main = .release d)
    (hok : d = .enc → ∀ t e obj, ¬(s.net t).holds .connect e obj) :
    DeviceInv { s with
      released := fun e o => s.released e o || (d = e ∧ s.obj d = some o)
      main := d.afterRelease } := by
  have hmain := h.mainLock (by rw [hpc]; rfl)
  have hlive := h.live
  rw [hpc] at hlive
  have hother : ∀ t cb e o, (s.net t).holds cb e o → d ≠ e := by
    rintro t cb e o hh rfl
    have hdev := h.device t cb d (by rcases hh with hh | hh <;> rw [hh] <;> rfl)
    cases hlocks : cb.locks with
    | true =>
        have hnet := h.netLock t (by rcases hh with hh | hh <;> rw [hh] <;> exact hlocks)
        rw [hmain] at hnet
        cases hnet
    | false =>
        cases cb <;> cases hlocks
        cases hdev
        exact hok rfl t _ o hh
  exact
    { h with
      untouched := { h.untouched with }
      mainLock := fun _ => hmain
      live := by
        intro e o ho hr
        have hl := hlive e o ho
        cases d <;> cases e <;> simp_all [MainPc.tearing, Device.afterRelease]
      held := by
        intro t cb e o hh
        simp [h.held t cb e o hh, hother t cb e o hh]
      fresh := by
        intro e o ho
        have hold := h.old e o
        have hfresh := h.fresh e o ho
        grind }

/-- Where the pointer is cleared the released object is gone. -/
theorem DeviceInv.clear {d : Device} (h : DeviceInv s) (hpc : s.main = .clear d) :
    DeviceInv { s with obj := Function.update s.obj d none, main := d.afterClear } := by
  have hlive := h.live
  rw [hpc] at hlive
  have hold := h.old
  exact
    { h with
      untouched := { h.untouched with }
      mainLock := fun _ => h.mainLock (by rw [hpc]; rfl)
      live := by
        intro e o ho hr
        dsimp only at ho
        have hne : e ≠ d := by
          rintro rfl
          rw [Function.update_self] at ho
          cases ho
        have ho : s.obj e = some o := by rwa [Function.update_of_ne hne] at ho
        have hl := hlive e o ho hr
        cases d <;> cases e <;> simp_all [MainPc.tearing, Device.afterClear]
      old := by grind [Function.update_apply] }

theorem DeviceInv.unlock (h : DeviceInv s) (hpc : s.main = .unlock) :
    DeviceInv { unlockBy s .main with main := .init .cap } := by
  have hmain := h.mainLock (by rw [hpc]; rfl)
  have hlive := h.live
  rw [hpc] at hlive
  exact
    { h with
      untouched := ⟨h.untouched.use, by simp [unlockBy, hmain, h.untouched.unlock]⟩
      mainLock := nofun
      netLock := by
        intro t ht
        have hnet := h.netLock t ht
        rw [hmain] at hnet
        cases hnet
      live := by
        intro d o ho hr
        exact absurd (hlive d o ho hr) (by cases d <;> exact nofun) }

theorem DeviceInv.mainStep {success : Bool} (h : DeviceInv s) (hok : Apart s (.main success))
    (hs : mainStep s success = some s') : DeviceInv s' := by
  rw [Server.mainStep] at hs
  split at hs
  next d hpc =>
      cases hs
      exact h.init hpc
  next hpc =>
      cases hs
      exact h.mainMoved (by cases success <;> exact nofun) (by rw [hpc]; exact nofun)
  next hpc =>
      cases hs
      exact h.mainMoved nofun (by rw [hpc]; exact nofun)
  next left hpc =>
      cases hs
      exact h.mainMoved (by cases success <;> exact nofun) (by rw [hpc]; exact nofun)
  next hpc =>
      cases hs
      cases success with
      | true => exact h.mainMoved nofun (by rw [hpc]; exact nofun)
      | false => exact absurd hpc (hok.setInfo rfl).1
  next hpc =>
      cases hs
      cases success with
      | true => exact h.mainMoved nofun (by rw [hpc]; exact nofun)
      | false => exact absurd hpc (hok.setInfo rfl).2
  next hpc =>
      cases hs
      exact h.mainMoved nofun (by rw [hpc]; exact nofun)
  next hpc =>
      split at hs
      next hfree =>
          cases hs
          have hlive := h.live
          rw [hpc] at hlive
          exact
            { h with
              untouched := { h.untouched with }
              mainLock := fun _ => rfl
              netLock := by
                intro t ht
                have hnet := h.netLock t ht
                rw [hfree] at hnet
                cases hnet
              live := fun d o ho hr => absurd (hlive d o ho hr) nofun }
      · cases hs
  next hpc =>
      cases hs
      exact h.mainMoved (fun _ => by rw [hpc]; rfl) (by rw [hpc]; exact nofun)
  next left hpc =>
      cases hs
      exact h.mainMoved (fun _ => by rw [hpc]; rfl) (by rw [hpc]; exact nofun)
  next d hpc =>
      cases hs
      refine h.release hpc ?_
      rintro rfl
      exact hok.release success rfl hpc
  next d hpc =>
      cases hs
      exact h.clear hpc
  next hpc =>
      cases hs
      exact h.unlock hpc
  · cases hs

theorem DeviceInv.netMoved {t : NetThread} {pc : NetPc} (h : DeviceInv s)
    (hlock : pc.locked = true → (s.net t).locked = true)
    (hdev : ∀ cb d, pc.worksOn = some (cb, d) → cb.device = some d)
    (hheld : ∀ cb d o, pc.holds cb d o → s.released d o = false) : DeviceInv (setNet s t pc) := by
  have hnet : ∀ u, (setNet s t pc).net u = if u = t then pc else s.net u := fun u => by
    simp [setNet, Function.update_apply]
  refine
    { h with
      untouched := { h.untouched with }
      netLock := ?_
      device := ?_
      held := ?_ }
  · intro u hu
    rw [hnet] at hu
    split at hu
    next hut =>
        rw [hut]
        exact h.netLock t (hlock hu)
    · exact h.netLock u hu
  · intro u cb d hu
    rw [hnet] at hu
    split at hu
    · exact hdev cb d hu
    · exact h.device u cb d hu
  · intro u cb d o hu
    rw [hnet] at hu
    split at hu
    · exact hheld cb d o hu
    · exact h.held u cb d o hu

theorem enter_locked (cb : NetCallback) : cb.enter.locked = cb.locks := by
  cases cb <;> rfl

theorem enter_worksOn {cb cb' : NetCallback} {d : Device}
    (h : cb.enter.worksOn = some (cb', d)) : cb'.device = some d := by
  cases cb <;> cases h <;> rfl

theorem not_holds_enter (cb cb' : NetCallback) (d : Device) (o : Nat) :
    ¬cb.enter.holds cb' d o := by
  cases cb <;> rintro (h | h) <;> cases h

theorem DeviceInv.netLocks {t : NetThread} (h : DeviceInv s) (hfree : s.lock = none)
    (cb : NetCallback) : DeviceInv (setNet { s with lock := some (.net t) } t cb.enter) := by
  have hmain : ¬s.main.locked = true := by
    intro hl
    have hlock := h.mainLock hl
    rw [hfree] at hlock
    cases hlock
  have hnone : ∀ u, ¬(s.net u).locked = true := by
    intro u hu
    have hlock := h.netLock u hu
    rw [hfree] at hlock
    cases hlock
  refine
    { h with
      untouched := { h.untouched with }
      mainLock := fun hl => absurd hl hmain
      netLock := ?_
      device := ?_
      held := ?_ }
  · intro u hu
    by_cases hut : u = t
    · rw [hut]
      rfl
    · simp only [setNet, Function.update_of_ne hut] at hu
      exact absurd hu (hnone u)
  · intro u cb' d hu
    by_cases hut : u = t
    · rw [hut] at hu
      simp only [setNet, Function.update_self] at hu
      exact enter_worksOn hu
    · simp only [setNet, Function.update_of_ne hut] at hu
      exact h.device u cb' d hu
  · intro u cb' d o hu
    by_cases hut : u = t
    · rw [hut] at hu
      simp only [setNet, Function.update_self] at hu
      exact absurd hu (not_holds_enter cb cb' d o)
    · simp only [setNet, Function.update_of_ne hut] at hu
      exact h.held u cb' d o hu

theorem DeviceInv.netUnlocks {t : NetThread} {cb : NetCallback} (h : DeviceInv s)
    (hpc : s.net t = .done cb) (hlocks : cb.locks = true) :
    DeviceInv (setNet (unlockBy s (.net t)) t .idle) := by
  have hlock := h.netLock t (by rw [hpc]; exact hlocks)
  have hidle : DeviceInv (setNet s t .idle) :=
    h.netMoved nofun nofun fun _ _ _ hh => by rcases hh with hh | hh <;> cases hh
  exact
    { hidle with
      untouched := ⟨h.untouched.use, by simp [setNet, unlockBy, hlock, h.untouched.unlock]⟩
      mainLock := by
        intro hl
        have hmain := h.mainLock hl
        rw [hlock] at hmain
        cases hmain
      netLock := by
        intro u hu
        by_cases hut : u = t
        · rw [hut] at hu
          simp [setNet, NetPc.locked] at hu
        · have hother := hidle.netLock u hu
          have hother : s.lock = some (.net u) := hother
          rw [hlock] at hother
          cases hother
          exact absurd rfl hut }

/-- An object that a callback takes over is not released: behind the lock the main thread is
outside the teardown. -/
theorem DeviceInv.arg_live {t : NetThread} {cb : NetCallback} {d : Device} {o : Nat}
    (h : DeviceInv s) (hpc : s.net t = .arg cb d) (ho : s.obj d = some o)
    (hok : cb = .connect → s.main.tearing .enc = false) : s.released d o = false := by
  by_contra hr
  have htear := h.live d o ho (by simpa using hr)
  have hdev := h.device t cb d (by rw [hpc]; rfl)
  cases hlocks : cb.locks with
  | true =>
      have hnet := h.netLock t (by rw [hpc]; exact hlocks)
      have hmain : s.main.locked = true := by
        cases hm : s.main <;> rw [hm] at htear <;> first | rfl | (cases d <;> cases htear)
      rw [h.mainLock hmain] at hnet
      cases hnet
  | false =>
      cases cb <;> cases hlocks
      cases hdev
      rw [hok rfl] at htear
      cases htear

theorem DeviceInv.netStep {t : NetThread} (h : DeviceInv s) (hok : Apart s (.net t))
    (hs : netStep s t = some s') : DeviceInv s' := by
  have hdone : ∀ cb cb' d o, ¬(NetPc.done cb).holds cb' d o := by
    rintro cb cb' d o (hh | hh) <;> cases hh
  have harg : ∀ cb e cb' d o, ¬(NetPc.arg cb e).holds cb' d o := by
    rintro cb e cb' d o (hh | hh) <;> cases hh
  rw [Server.netStep] at hs
  split at hs
  · cases hs
  next cb hpc =>
      split at hs
      next hfree =>
          cases hs
          exact h.netLocks hfree cb
      · cases hs
  next cb d hpc =>
      cases hs
      have hdev := h.device t cb d (by rw [hpc]; rfl)
      split
      · refine h.netMoved (by rw [hpc]; exact id) nofun fun cb' d' o hh => ?_
        exact absurd hh (hdone cb cb' d' o)
      · refine h.netMoved (by rw [hpc]; exact id) ?_ fun cb' d' o hh => ?_
        · rintro _ _ ⟨⟩
          exact hdev
        · exact absurd hh (harg cb d cb' d' o)
  next cb d hpc =>
      have hdev := h.device t cb d (by rw [hpc]; rfl)
      split at hs
      · cases hs
        refine h.netMoved (by rw [hpc]; exact id) nofun fun cb' d' o hh => ?_
        exact absurd hh (hdone cb cb' d' o)
      next o ho =>
          cases hs
          refine h.netMoved (by rw [hpc]; exact id) ?_ ?_
          · rintro _ _ ⟨⟩
            exact hdev
          · rintro cb' d' o' (hh | hh) <;> cases hh
            refine h.arg_live hpc ho ?_
            rintro rfl
            exact hok.connect t d rfl hpc
  next cb d o hpc =>
      cases hs
      have hlive := h.held t cb d o (by rw [hpc]; exact .inl rfl)
      have hdev := h.device t cb d (by rw [hpc]; rfl)
      have hsame : { s with badUse := s.badUse || s.released d o } = s := by simp [hlive]
      rw [hsame]
      split
      · refine h.netMoved (by rw [hpc]; exact id) ?_ ?_
        · rintro _ _ ⟨⟩
          exact hdev
        · rintro cb' d' o' (hh | hh) <;> cases hh
          exact hlive
      · refine h.netMoved (by rw [hpc]; exact id) nofun fun cb' d' o hh => ?_
        exact absurd hh (hdone cb cb' d' o)
  next cb d o hpc =>
      cases hs
      have hlive := h.held t cb d o (by rw [hpc]; exact .inr rfl)
      have hsame : { s with badUse := s.badUse || s.released d o } = s := by simp [hlive]
      rw [hsame]
      refine h.netMoved (by rw [hpc]; exact id) nofun fun cb' d' o hh => ?_
      exact absurd hh (hdone cb cb' d' o)
  next cb hpc =>
      cases hs
      split
      next hlocks => exact h.netUnlocks hpc hlocks
      next hlocks =>
          refine h.netMoved nofun nofun fun _ _ _ hh => ?_
          rcases hh with hh | hh <;> cases hh

theorem DeviceInv.step {a : DeviceAction} (h : DeviceInv s) (hok : Apart s a)
    (hs : deviceStep s a = some s') : DeviceInv s' := by
  cases a with
  | main success => exact h.mainStep hok hs
  | call t cb =>
      rw [deviceStep] at hs
      split at hs
      next hpc =>
          cases hs
          split
          · exact h.netMoved nofun nofun fun _ _ _ hh => by rcases hh with hh | hh <;> cases hh
          next hlocks =>
              refine h.netMoved ?_ (fun _ _ => enter_worksOn) fun cb' d o hh => ?_
              · rw [enter_locked]
                exact fun hl => absurd hl hlocks
              · exact absurd hh (not_holds_enter cb cb' d o)
      · cases hs
  | net t => exact h.netStep hok hs

/-- While no `set_info` fails and `on_client_connect` stays clear of the teardown, no callback
touches a released object and the lock is given back by its holder. -/
theorem untouched_of_apart {s : DeviceState} (h : deviceMachine.Run Apart s) : Untouched s := by
  have hinv : DeviceInv s := by
    refine h.invariant ?_ fun _ _ _ hi hok hs => hi.step hok hs
    rintro _ rfl
    exact deviceInv_start
  exact hinv.untouched

/-- `on_client_connect` has the pointer. -/
def NetPc.connecting : NetPc → Bool
  | .deref .connect _ _ => true
  | .apply .connect _ _ => true
  | _ => false

/-- `Apart`, read off the state and the action. -/
def apart (s : DeviceState) : DeviceAction → Bool
  | .main success =>
      match s.main with
      | .setCap | .setEnc => success
      | .release .enc => !(s.net .tcp).connecting && !(s.net .kcp).connecting
      | _ => true
  | .call .. => true
  | .net t =>
      match s.net t with
      | .arg .connect _ => !s.main.tearing .enc
      | _ => true

theorem apart_of_apart (s : DeviceState) (a : DeviceAction) (h : apart s a = true) : Apart s a where
  setInfo := by
    rintro rfl
    constructor
    · intro hpc
      simp [apart, hpc] at h
    · intro hpc
      simp [apart, hpc] at h
  release := by
    rintro success rfl hpc t d obj hh
    simp only [apart, hpc, Bool.and_eq_true, Bool.not_eq_true'] at h
    cases t with
    | tcp => rcases hh with hh | hh <;> simp [hh, NetPc.connecting] at h
    | kcp => rcases hh with hh | hh <;> simp [hh, NetPc.connecting] at h
  connect := by
    rintro t d rfl hpc
    simpa [apart, hpc] using h

/-- The devices are made, `on_client_connect` uses the encoder, a request quits the capture, and the
devices are made again. During the teardown a client connects, a key waits for the lock, and at the
end `on_client_connect` has the new encoder. -/
def releaseAndReinit : List DeviceAction :=
  List.replicate 12 (.main true) ++ .call .tcp .connect :: List.replicate 5 (.net .tcp) ++
    [.call .kcp .quit, .net .kcp, .main true] ++ List.replicate 4 (.net .kcp) ++
    [.main true, .call .kcp .key] ++ List.replicate 11 (.main true) ++
    [.call .tcp .connect, .net .tcp, .net .tcp, .main true, .main true, .net .kcp, .main true,
      .net .kcp, .main true, .net .kcp, .main true, .call .tcp .connect, .net .tcp, .net .tcp]

theorem untouched_releaseAndReinit : ∃ s, deviceMachine.Run Apart s ∧ s.released .enc 1 = true ∧
    s.obj .enc = some 4 ∧ s.net .tcp = .deref .connect .enc 4 ∧ Untouched s := by
  have hrun : ∃ s,
      (deviceMachine.guarded fun s a => apart s a = true).exec .start releaseAndReinit = some s ∧
      s.released .enc 1 = true ∧ s.obj .enc = some 4 ∧ s.net .tcp = .deref .connect .enc 4 :=
    ⟨_, rfl, rfl, rfl, rfl⟩
  obtain ⟨s, hs, hreleased, hobj, hnet⟩ := hrun
  have hapart := (Machine.run_of_exec hs rfl).mono apart_of_apart
  exact ⟨s, hapart, hreleased, hobj, hnet, untouched_of_apart hapart⟩

/-- The TCP thread reads `enc_obj` for `on_client_connect`, the main thread releases the encoder,
and `encodec_force_i` works on it. -/
theorem released_encoder_used : ∃ s, deviceMachine.Reachable s ∧ ¬Untouched s := by
  have hrun : ∃ s, deviceMachine.exec .start
      (List.replicate 13 (.main true) ++ [.call .tcp .connect, .net .tcp, .net .tcp] ++
        List.replicate 9 (.main true) ++ [.net .tcp]) = some s ∧ s.badUse = true :=
    ⟨_, rfl, rfl⟩
  rcases hrun with ⟨s, hs, hbad⟩
  refine ⟨s, .exec (.start rfl) hs, fun h => ?_⟩
  exact absurd (hbad.symm.trans h.use) (by decide)

end Hprd.Server
