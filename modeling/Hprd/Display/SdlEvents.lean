import Hprd.Core.Machine
import Hprd.Input.XlibInput

/-!
# Input events of `display_dev/sdl_display.c`

`_poll_event` runs in a thread of its own and leaves an event for `sdl_main_loop` in
`priv->event`, whose `type` says whether there is one. It writes `type` first and the
other members after it, and throws an event away that it takes while `type` is set.
What it does store reaches `on_event` once and in order.
-/

namespace Hprd.Display

open Hprd.Core Input

def SDLK_LCTRL : Int := 1073742048

/-- The events of SDL that `_poll_event` stores. -/
inductive SdlInput where
  | mouseMotion (x y : Int)
  | mouseButtonDown (button : UInt8) (x y : Int)
  | mouseButtonUp (button : UInt8) (x y : Int)
  | mouseWheel (x y : Int)
  | keyDown (sym : Int)
  | keyUp (sym : Int)
  deriving DecidableEq

inductive SdlEvent where
  | window
  | quit
  | input (e : SdlInput)
  | other
  deriving DecidableEq

/-- The event that `_poll_event` has a case for. -/
def SdlEvent.stores : SdlEvent → Option SdlInput
  | .input e => some e
  | _ => none

/-- `priv->event`; its member `state` is never written. -/
structure EventSlot where
  type : UInt8
  keyCode : UInt32
  x : UInt32
  y : UInt32
  deriving DecidableEq

/-- A write to a member other than `type`. -/
inductive FieldWrite where
  | keyCode (value : UInt32)
  | x (value : UInt32)
  | y (value : UInt32)
  deriving DecidableEq

def EventSlot.write (slot : EventSlot) : FieldWrite → EventSlot
  | .keyCode value => { slot with keyCode := value }
  | .x value => { slot with x := value }
  | .y value => { slot with y := value }

namespace SdlInput

def type : SdlInput → EventType
  | mouseMotion .. => .mouseMove
  | mouseButtonDown .. => .mouseDown
  | mouseButtonUp .. => .mouseUp
  | mouseWheel .. => .mouseWheel
  | keyDown _ => .keyDown
  | keyUp _ => .keyUp

def fields : SdlInput → List FieldWrite
  | mouseMotion x y => [.x (UInt32.ofInt x), .y (UInt32.ofInt y)]
  | mouseButtonDown button x y =>
      [.keyCode button.toUInt32, .x (UInt32.ofInt x), .y (UInt32.ofInt y)]
  | mouseButtonUp button x y =>
      [.keyCode button.toUInt32, .x (UInt32.ofInt x), .y (UInt32.ofInt y)]
  | mouseWheel x y =>
      (if 0 < y then [.keyCode 4] else if y < 0 then [.keyCode 5] else []) ++
        if x < 0 then [.keyCode 6] else if 0 < x then [.keyCode 7] else []
  | keyDown sym => [.keyCode (UInt32.ofInt (if sym = SDLK_LCTRL then 17 else sym))]
  | keyUp sym => [.keyCode (UInt32.ofInt sym)]

end SdlInput

/-- Where `_poll_event_thread` stands: `test` and `type` are before the test of `type` and the write
to it, `fields` before the rest of the writes. -/
inductive PollPc where
  | poll
  | test (e : SdlInput)
  | type (e : SdlInput)
  | fields (ws : List FieldWrite)
  | delay
  deriving DecidableEq

/-- Where `sdl_main_loop` stands: before the test, the call of `on_event`, the reset, and
`on_frame` with the delay. -/
inductive DisplayPc where
  | test
  | call
  | reset
  | frame
  deriving DecidableEq

/-- What `on_event` was given, and whether no store was under way then. -/
structure Passed where
  event : EventSlot
  whole : Bool
  deriving DecidableEq

/-- The two threads. `occurred` is all that was ever in the queue of SDL, `tested` the events taken
from it with whether the slot was empty, `passed` the calls of `on_event`. -/
structure SdlState where
  queue : List SdlEvent
  slot : EventSlot
  poller : PollPc
  display : DisplayPc
  exited : Bool
  occurred : List SdlEvent
  tested : List (SdlInput × Bool)
  passed : List Passed
  deriving DecidableEq

inductive SdlAction where
  | occur (e : SdlEvent)
  | poller
  | display
  deriving DecidableEq

/-- The writes a store has still to make after that to `type`. -/
def PollPc.rest : PollPc → List FieldWrite
  | .fields ws => ws
  | _ => []

namespace SdlState

def pollStep (s : SdlState) : SdlState :=
  match s.poller with
  | .poll =>
      match s.queue with
      | [] => { s with poller := .delay }
      | .window :: queue => { s with queue := queue }
      | .quit :: queue => { s with queue := queue, exited := true }
      | .input e :: queue => { s with queue := queue, poller := .test e }
      | .other :: queue => { s with queue := queue, poller := .delay }
  | .test e =>
      if s.slot.type = 0 then { s with poller := .type e, tested := s.tested ++ [(e, true)] }
      else { s with poller := .poll, tested := s.tested ++ [(e, false)] }
  | .type e => { s with slot := { s.slot with type := e.type.code }, poller := .fields e.fields }
  | .fields [] => { s with poller := .poll }
  | .fields (w :: ws) => { s with slot := s.slot.write w, poller := .fields ws }
  | .delay => { s with poller := .poll }

def displayStep (s : SdlState) : SdlState :=
  match s.display with
  | .test => { s with display := if s.slot.type ≠ 0 then .call else .frame }
  | .call =>
      { s with display := .reset, passed := s.passed ++ [⟨s.slot, s.poller.rest = []⟩] }
  | .reset => { s with slot := { s.slot with type := 0 }, display := .frame }
  | .frame => { s with display := .test }

/-- `exit(0)` ends both threads. -/
def step (s : SdlState) (a : SdlAction) : Option SdlState :=
  if s.exited then none
  else match a with
    | .occur e => some { s with queue := s.queue ++ [e], occurred := s.occurred ++ [e] }
    | .poller => some s.pollStep
    | .display => some s.displayStep

def start : SdlState := ⟨[], ⟨0, 0, 0, 0⟩, .poll, .test, false, [], [], []⟩

/-- The events that were taken with the slot empty. -/
def stored (s : SdlState) : List SdlInput := (s.tested.filter Prod.snd).map Prod.fst

/-- The event between its poll and its test. -/
def inHand (s : SdlState) : List SdlInput :=
  match s.poller with
  | .test e => [e]
  | _ => []

end SdlState

def sdlMachine : Machine SdlState SdlAction where
  init s := s = .start
  step := SdlState.step

/-- The slot has the key code and the coordinates of an event. A key has no coordinates, a motion no
key code, and nothing is asked of the release of the left control key. -/
def Carries : SdlInput → EventSlot → Prop
  | .mouseMotion x y, slot => slot.x = UInt32.ofInt x ∧ slot.y = UInt32.ofInt y
  | .mouseButtonDown button x y, slot =>
      slot.keyCode = button.toUInt32 ∧ slot.x = UInt32.ofInt x ∧ slot.y = UInt32.ofInt y
  | .mouseButtonUp button x y, slot =>
      slot.keyCode = button.toUInt32 ∧ slot.x = UInt32.ofInt x ∧ slot.y = UInt32.ofInt y
  | .mouseWheel x y, slot =>
      (x < 0 → slot.keyCode = 6) ∧ (0 < x → slot.keyCode = 7) ∧
        (x = 0 → (0 < y → slot.keyCode = 4) ∧ (y < 0 → slot.keyCode = 5))
  | .keyDown sym, slot => slot.keyCode = if sym = SDLK_LCTRL then 17 else UInt32.ofInt sym
  | .keyUp sym, slot => sym ≠ SDLK_LCTRL → slot.keyCode = UInt32.ofInt sym

/-- A call of `on_event` is for an event: with its type, and with all of it if the call was not in
the middle of a store. -/
def PassedOn (e : SdlInput) (p : Passed) : Prop :=
  p.event.type = e.type.code ∧ (p.whole = true → Carries e p.event)

/-- Events are taken in the order they occurred, and those taken with the slot empty are passed on
in that order, each by one call, but for at most one that still waits. -/
structure Forwards (s : SdlState) : Prop where
  inOrder : s.occurred.filterMap SdlEvent.stores =
    s.tested.map Prod.fst ++ s.inHand ++ s.queue.filterMap SdlEvent.stores
  passedOn : ∃ done waiting, s.stored = done ++ waiting ∧ waiting.length ≤ 1 ∧
    List.Forall₂ PassedOn done s.passed

inductive SdlThread where
  | poller
  | display
  deriving DecidableEq

def SdlThread.action : SdlThread → SdlAction
  | poller => .poller
  | display => .display

/-- Both threads go on for ever. -/
def BothRun (a : Nat → SdlAction) : Prop :=
  ∀ thread : SdlThread, ∀ n, ∃ m, n ≤ m ∧ a m = thread.action

/-- In every run from `s` on that does not end, what was stored by then is passed on. -/
def PassesStored (s : SdlState) : Prop :=
  ∀ (t : Nat → SdlState) (a : Nat → SdlAction), t 0 = s → Trace sdlMachine t a → BothRun a →
    ∃ n, List.Forall₂ PassedOn s.stored ((t n).passed.take s.stored.length)

/-! ## What waits in the slot -/

/-- The writes still to be made leave the slot with the members of an event. -/
def SdlState.Carrying (s : SdlState) (e : SdlInput) : Prop :=
  ∀ type, Carries e (s.poller.rest.foldl EventSlot.write { s.slot with type := type })

/-- The events that were stored and not passed on yet. -/
inductive Waiting (s : SdlState) : List SdlInput → Prop where
  | empty : (∀ e, s.poller ≠ .type e) → s.slot.type = 0 →
      s.display ≠ .call → s.display ≠ .reset → Waiting s []
  | typing (e) : s.poller = .type e → s.slot.type = 0 →
      s.display ≠ .call → s.display ≠ .reset → Waiting s [e]
  | full (e) : (∀ e, s.poller ≠ .type e) → s.slot.type = e.type.code → s.display ≠ .reset →
      s.Carrying e → Waiting s [e]
  | passed : (∀ e, s.poller ≠ .type e) → s.slot.type ≠ 0 → s.display = .reset → Waiting s []

section

variable {s s' : SdlState} {w : List SdlInput} {e : SdlInput}

theorem code_ne_zero (type : EventType) : type.code ≠ 0 := by
  cases type <;> decide

theorem write_type (slot : EventSlot) (w : FieldWrite) : (slot.write w).type = slot.type := by
  cases w <;> rfl

theorem write_with_type (slot : EventSlot) (w : FieldWrite) (type : UInt8) :
    EventSlot.write { slot with type := type } w = { slot.write w with type := type } := by
  cases w <;> rfl

theorem carries_fields (e : SdlInput) (slot : EventSlot) :
    Carries e (e.fields.foldl EventSlot.write slot) := by
  cases e with
  | mouseMotion x y => exact ⟨rfl, rfl⟩
  | mouseButtonDown button x y => exact ⟨rfl, rfl, rfl⟩
  | mouseButtonUp button x y => exact ⟨rfl, rfl, rfl⟩
  | mouseWheel x y =>
      unfold Carries SdlInput.fields
      rw [List.foldl_append]
      rcases lt_trichotomy x 0 with hx | hx | hx
      · rw [if_pos hx]
        exact ⟨fun _ => rfl, fun h => absurd h hx.not_gt, fun h => absurd h hx.ne⟩
      · rw [if_neg hx.not_lt, if_neg hx.not_gt]
        refine ⟨fun h => absurd hx h.ne, fun h => absurd hx h.ne', fun _ => ⟨?_, ?_⟩⟩
        · intro hy
          rw [if_pos hy]
          rfl
        · intro hy
          rw [if_neg hy.not_gt, if_pos hy]
          rfl
      · rw [if_neg hx.not_gt, if_pos hx]
        exact ⟨fun h => absurd h hx.not_gt, fun _ => rfl, fun h => absurd h hx.ne'⟩
  | keyDown sym =>
      show UInt32.ofInt (if sym = SDLK_LCTRL then 17 else sym) =
        if sym = SDLK_LCTRL then 17 else UInt32.ofInt sym
      split
      next => rfl
      next => rfl
  | keyUp sym => exact fun _ => rfl

theorem SdlState.Carrying.reset (h : s.Carrying e) (hrest : s.poller.rest = []) :
    Carries e s.slot := by
  have hslot := h s.slot.type
  rw [hrest] at hslot
  exact hslot

/-! ## One step -/

theorem Waiting.keep (h : Waiting s w) (hpoller : ∀ e, s.poller ≠ .type e)
    (hpoller' : ∀ e, s'.poller ≠ .type e) (hrest : s'.poller.rest = s.poller.rest)
    (hslot : s'.slot = s.slot) (hdisplay : s'.display = s.display) : Waiting s' w := by
  cases h with
  | empty _ hempty hcall hreset =>
      exact .empty hpoller' (hslot ▸ hempty) (hdisplay ▸ hcall) (hdisplay ▸ hreset)
  | typing e htype => exact absurd htype (hpoller e)
  | full e _ hfull hreset hcarry =>
      refine .full e hpoller' (hslot ▸ hfull) (hdisplay ▸ hreset) ?_
      unfold SdlState.Carrying
      rw [hrest, hslot]
      exact hcarry
  | passed _ hfull hreset => exact .passed hpoller' (hslot ▸ hfull) (hdisplay ▸ hreset)

theorem waiting_of_empty (h : Waiting s w) (hpoller : ∀ e, s.poller ≠ .type e)
    (hslot : s.slot.type = 0) : w = [] ∧ s.display ≠ .call ∧ s.display ≠ .reset := by
  cases h with
  | empty _ _ hcall hreset => exact ⟨rfl, hcall, hreset⟩
  | typing e htype => exact absurd htype (hpoller e)
  | full e _ hfull => exact absurd (hfull.symm.trans hslot) (code_ne_zero _)
  | passed _ hfull => exact absurd hslot hfull

/-- The poller takes an event into the empty slot, or leaves what waits there as it is. -/
theorem pollStep_waiting (h : Waiting s w) :
    (s.pollStep.stored = s.stored ∧ Waiting s.pollStep w) ∨
      ∃ e, s.pollStep.stored = s.stored ++ [e] ∧ w = [] ∧ Waiting s.pollStep [e] := by
  obtain ⟨queue, slot, poller, display, exited, occurred, tested, passed⟩ := s
  cases poller with
  | poll =>
      refine .inl ?_
      cases queue with
      | nil => exact ⟨rfl, h.keep nofun nofun rfl rfl rfl⟩
      | cons event queue =>
          cases event with
          | window => exact ⟨rfl, h.keep nofun nofun rfl rfl rfl⟩
          | quit => exact ⟨rfl, h.keep nofun nofun rfl rfl rfl⟩
          | input e => exact ⟨rfl, h.keep nofun nofun rfl rfl rfl⟩
          | other => exact ⟨rfl, h.keep nofun nofun rfl rfl rfl⟩
  | test e =>
      dsimp only [SdlState.pollStep]
      split
      next hempty =>
        obtain ⟨rfl, hcall, hreset⟩ := waiting_of_empty h nofun hempty
        refine .inr ⟨e, ?_, rfl, .typing e rfl hempty hcall hreset⟩
        simp [SdlState.stored]
      next =>
        refine .inl ⟨?_, h.keep nofun nofun rfl rfl rfl⟩
        simp [SdlState.stored]
  | type e =>
      refine .inl ⟨rfl, ?_⟩
      cases h with
      | empty hpoller => exact absurd rfl (hpoller e)
      | typing _ htype _ _ hreset =>
          cases htype
          exact .full e nofun rfl hreset fun type => carries_fields e _
      | full _ hpoller => exact absurd rfl (hpoller e)
      | passed hpoller => exact absurd rfl (hpoller e)
  | fields ws =>
      refine .inl ?_
      cases ws with
      | nil => exact ⟨rfl, h.keep nofun nofun rfl rfl rfl⟩
      | cons write ws =>
          refine ⟨rfl, ?_⟩
          cases h with
          | empty _ hempty hcall hreset =>
              exact .empty nofun ((write_type ..).trans hempty) hcall hreset
          | typing _ htype => cases htype
          | full e _ hfull hreset hcarry =>
              refine .full e nofun ((write_type ..).trans hfull) hreset fun type => ?_
              have hwritten := hcarry type
              rw [PollPc.rest, List.foldl_cons, write_with_type] at hwritten
              exact hwritten
          | passed _ hfull hreset =>
              exact .passed nofun (fun h0 => hfull ((write_type ..).symm.trans h0)) hreset
  | delay => exact .inl ⟨rfl, h.keep nofun nofun rfl rfl rfl⟩

/-- The display loop passes on what waits, or leaves it. -/
theorem displayStep_waiting (h : Waiting s w) :
    (s.displayStep.passed = s.passed ∧ Waiting s.displayStep w) ∨
      ∃ e p, s.displayStep.passed = s.passed ++ [p] ∧ PassedOn e p ∧ w = [e] ∧
        Waiting s.displayStep [] := by
  obtain ⟨queue, slot, poller, display, exited, occurred, tested, passed⟩ := s
  cases display with
  | test =>
      refine .inl ⟨rfl, ?_⟩
      dsimp only [SdlState.displayStep]
      split
      next hset =>
        cases h with
        | empty _ hempty => exact absurd hempty hset
        | typing _ _ hempty => exact absurd hempty hset
        | full e hpoller hfull _ hcarry => exact .full e hpoller hfull nofun hcarry
        | passed _ _ hreset => cases hreset
      next hunset =>
        cases h with
        | empty hpoller hempty => exact .empty hpoller hempty nofun nofun
        | typing e htype hempty => exact .typing e htype hempty nofun nofun
        | full e hpoller hfull _ hcarry => exact .full e hpoller hfull nofun hcarry
        | passed _ _ hreset => cases hreset
  | call =>
      refine .inr ?_
      cases h with
      | empty _ _ hcall => exact absurd rfl hcall
      | typing _ _ _ hcall => exact absurd rfl hcall
      | full e hpoller hfull _ hcarry =>
          refine ⟨e, _, rfl, ⟨hfull, fun hwhole => hcarry.reset (of_decide_eq_true hwhole)⟩, rfl,
            .passed hpoller (fun h0 => code_ne_zero _ (hfull.symm.trans h0)) rfl⟩
      | passed _ _ hreset => cases hreset
  | reset =>
      refine .inl ⟨rfl, ?_⟩
      cases h with
      | empty _ _ _ hreset => exact absurd rfl hreset
      | typing _ _ _ _ hreset => exact absurd rfl hreset
      | full _ _ _ hreset => exact absurd rfl hreset
      | passed hpoller => exact .empty hpoller rfl nofun nofun
  | frame =>
      refine .inl ⟨rfl, ?_⟩
      cases h with
      | empty hpoller hempty => exact .empty hpoller hempty nofun nofun
      | typing e htype hempty => exact .typing e htype hempty nofun nofun
      | full e hpoller hfull _ hcarry => exact .full e hpoller hfull nofun hcarry
      | passed _ _ hreset => cases hreset

/-! ## Runs -/

/-- What every run keeps. -/
structure SdlInv (s : SdlState) : Prop where
  inOrder : s.occurred.filterMap SdlEvent.stores =
    s.tested.map Prod.fst ++ s.inHand ++ s.queue.filterMap SdlEvent.stores
  passedOn : ∃ done w, s.stored = done ++ w ∧ List.Forall₂ PassedOn done s.passed ∧ Waiting s w

theorem pollStep_inOrder (h : s.occurred.filterMap SdlEvent.stores =
      s.tested.map Prod.fst ++ s.inHand ++ s.queue.filterMap SdlEvent.stores) :
    s.pollStep.occurred.filterMap SdlEvent.stores =
      s.pollStep.tested.map Prod.fst ++ s.pollStep.inHand ++
        s.pollStep.queue.filterMap SdlEvent.stores := by
  obtain ⟨queue, slot, poller, display, exited, occurred, tested, passed⟩ := s
  cases poller with
  | poll =>
      cases queue with
      | nil => exact h
      | cons event queue =>
          cases event with
          | window => exact h
          | quit => exact h
          | input e => exact h.trans (by simp [SdlState.pollStep, SdlState.inHand, SdlEvent.stores])
          | other => exact h
  | test e =>
      dsimp only [SdlState.pollStep]
      split
      next => exact h.trans (by simp [SdlState.inHand])
      next => exact h.trans (by simp [SdlState.inHand])
  | type e => exact h
  | fields ws =>
      cases ws with
      | nil => exact h
      | cons write ws => exact h
  | delay => exact h

theorem displayStep_rest (s : SdlState) : s.displayStep.poller = s.poller ∧
    s.displayStep.tested = s.tested ∧ s.displayStep.queue = s.queue ∧
    s.displayStep.occurred = s.occurred := by
  unfold SdlState.displayStep
  cases s.display <;> exact ⟨rfl, rfl, rfl, rfl⟩

theorem pollStep_rest (s : SdlState) :
    s.pollStep.passed = s.passed ∧ s.pollStep.display = s.display := by
  obtain ⟨queue, slot, poller, display, exited, occurred, tested, passed⟩ := s
  cases poller with
  | poll =>
      cases queue with
      | nil => exact ⟨rfl, rfl⟩
      | cons event queue => cases event <;> exact ⟨rfl, rfl⟩
  | test e =>
      dsimp only [SdlState.pollStep]
      split <;> exact ⟨rfl, rfl⟩
  | type e => exact ⟨rfl, rfl⟩
  | fields ws => cases ws <;> exact ⟨rfl, rfl⟩
  | delay => exact ⟨rfl, rfl⟩

theorem step_eq {a : SdlAction} (h : s.step a = some s') :
    (∃ event, a = .occur event ∧
      s' = { s with queue := s.queue ++ [event], occurred := s.occurred ++ [event] }) ∨
    a = .poller ∧ s' = s.pollStep ∨ a = .display ∧ s' = s.displayStep := by
  unfold SdlState.step at h
  split at h
  next => cases h
  next =>
    cases a with
    | occur event =>
        cases h
        exact .inl ⟨event, rfl, rfl⟩
    | poller =>
        cases h
        exact .inr (.inl ⟨rfl, rfl⟩)
    | display =>
        cases h
        exact .inr (.inr ⟨rfl, rfl⟩)

theorem Waiting.occur (h : Waiting s w) (event : SdlEvent) :
    Waiting { s with queue := s.queue ++ [event], occurred := s.occurred ++ [event] } w := by
  cases h with
  | empty hpoller hempty hcall hreset => exact .empty hpoller hempty hcall hreset
  | typing e htype hempty hcall hreset => exact .typing e htype hempty hcall hreset
  | full e hpoller hfull hreset hcarry => exact .full e hpoller hfull hreset hcarry
  | passed hpoller hfull hreset => exact .passed hpoller hfull hreset

theorem sdlInv_step {a : SdlAction} (h : SdlInv s) (hstep : s.step a = some s') : SdlInv s' := by
  obtain ⟨hin, done, w, hstored, hpassed, hw⟩ := h
  rcases step_eq hstep with ⟨event, rfl, rfl⟩ | ⟨rfl, rfl⟩ | ⟨rfl, rfl⟩
  · refine ⟨?_, done, w, hstored, hpassed, hw.occur event⟩
    show (s.occurred ++ [event]).filterMap _ = _ ++ (s.queue ++ [event]).filterMap _
    rw [List.filterMap_append, List.filterMap_append, hin]
    exact List.append_assoc ..
  · refine ⟨pollStep_inOrder hin, ?_⟩
    rw [(pollStep_rest s).1]
    rcases pollStep_waiting hw with ⟨hsame, hw'⟩ | ⟨e, hmore, rfl, hw'⟩
    · exact ⟨done, w, hsame.trans hstored, hpassed, hw'⟩
    · refine ⟨done, [e], ?_, hpassed, hw'⟩
      rw [hmore, hstored, List.append_nil]
  · obtain ⟨hpoller, htested, hqueue, hoccurred⟩ := displayStep_rest s
    have hstored' : s.displayStep.stored = done ++ w := by
      rw [← hstored, SdlState.stored, htested]
      rfl
    refine ⟨?_, ?_⟩
    · unfold SdlState.inHand
      rw [hoccurred, htested, hpoller, hqueue]
      exact hin
    · rcases displayStep_waiting hw with ⟨hsame, hw'⟩ | ⟨e, p, hmore, hp, rfl, hw'⟩
      · exact ⟨done, w, hstored', hsame ▸ hpassed, hw'⟩
      · refine ⟨done ++ [e], [], hstored'.trans (List.append_nil _).symm, ?_, hw'⟩
        rw [hmore]
        exact List.rel_append hpassed (.cons hp .nil)

theorem sdlInv_run (h : sdlMachine.Reachable s) : SdlInv s := by
  induction h with
  | start hs =>
      cases hs
      exact ⟨rfl, [], [], rfl, .nil, .empty nofun rfl nofun nofun⟩
  | next _ _ hstep ih => exact sdlInv_step ih hstep

theorem Waiting.length_le (h : Waiting s w) : w.length ≤ 1 := by
  cases h with
  | empty => exact Nat.zero_le 1
  | typing => exact Nat.le_refl 1
  | full => exact Nat.le_refl 1
  | passed => exact Nat.zero_le 1

theorem SdlInv.forwards (h : SdlInv s) : Forwards s := by
  obtain ⟨hin, done, w, hstored, hpassed, hw⟩ := h
  exact ⟨hin, done, w, hstored, hw.length_le, hpassed⟩

/-! ## What is stored is passed on -/

/-- The steps until what waits is passed on: the write to `type`, and those of the display loop. -/
def passRank (s : SdlState) : Nat :=
  match s.poller with
  | .type _ => 4
  | _ =>
      match s.display with
      | .frame => 3
      | .test => 2
      | .call => 1
      | .reset => 0

/-- The thread that has to take the next of these steps. -/
def passNeeds (s : SdlState) : SdlThread :=
  match s.poller with
  | .type _ => .poller
  | _ => .display

/-- Where the display loop stands, if the write to `type` is made. -/
def DisplayPc.rank : DisplayPc → Nat
  | .frame => 3
  | .test => 2
  | .call => 1
  | .reset => 0

theorem passRank_of_display (h : ∀ e, s.poller ≠ .type e) :
    passRank s = s.display.rank ∧ passNeeds s = .display := by
  unfold passRank passNeeds
  split
  next e htype => exact absurd htype (h e)
  next => exact ⟨by cases s.display <;> rfl, rfl⟩

theorem passRank_of_type (h : s.poller = .type e) : passRank s = 4 ∧ passNeeds s = .poller := by
  unfold passRank passNeeds
  rw [h]
  exact ⟨rfl, rfl⟩

/-- No store begins while the slot is full. -/
theorem pollStep_of_full (hpoller : ∀ e, s.poller ≠ .type e) (hfull : s.slot.type ≠ 0) :
    ∀ e, s.pollStep.poller ≠ .type e := by
  obtain ⟨queue, slot, poller, display, exited, occurred, tested, passed⟩ := s
  cases poller with
  | poll =>
      cases queue with
      | nil => exact nofun
      | cons event queue => cases event <;> exact nofun
  | test e =>
      dsimp only [SdlState.pollStep]
      split
      next hempty => exact absurd hempty hfull
      next => exact nofun
  | type e => exact absurd rfl (hpoller e)
  | fields ws => cases ws <;> exact nofun
  | delay => exact nofun

theorem pollStep_rank (h : Waiting s [e]) : passRank s.pollStep < passRank s ∨
    passRank s.pollStep = passRank s ∧ passNeeds s.pollStep = passNeeds s ∧
      passNeeds s = .display := by
  cases h with
  | typing _ htype =>
      refine .inl ?_
      have hpoller : s.pollStep.poller = .fields e.fields := by
        unfold SdlState.pollStep
        rw [htype]
      have hrank : passRank s.pollStep = s.pollStep.display.rank :=
        (passRank_of_display fun e' he' => nomatch hpoller.symm.trans he').1
      rw [hrank, (passRank_of_type htype).1]
      cases s.pollStep.display <;> decide
  | full _ hpoller hfull =>
      refine .inr ?_
      have hset : s.slot.type ≠ 0 := fun h0 => code_ne_zero _ (hfull.symm.trans h0)
      obtain ⟨hrank, hneeds⟩ := passRank_of_display hpoller
      obtain ⟨hrank', hneeds'⟩ := passRank_of_display (pollStep_of_full hpoller hset)
      rw [hrank, hrank', hneeds, hneeds', (pollStep_rest s).2]
      exact ⟨rfl, rfl, rfl⟩

theorem displayStep_rank (h : Waiting s [e]) :
    s.displayStep.passed.length = s.passed.length + 1 ∨ passRank s.displayStep < passRank s ∨
      passRank s.displayStep = passRank s ∧ passNeeds s.displayStep = passNeeds s ∧
        passNeeds s = .poller := by
  have hsame := (displayStep_rest s).1
  cases h with
  | typing _ htype =>
      obtain ⟨hrank, hneeds⟩ := passRank_of_type htype
      obtain ⟨hrank', hneeds'⟩ := passRank_of_type (hsame.trans htype)
      exact .inr (.inr ⟨hrank'.trans hrank.symm, hneeds'.trans hneeds.symm, hneeds⟩)
  | full _ hpoller hfull hreset =>
      have hset : s.slot.type ≠ 0 := fun h0 => code_ne_zero _ (hfull.symm.trans h0)
      rw [(passRank_of_display hpoller).1,
        (passRank_of_display fun e' he' => hpoller e' (hsame.symm.trans he')).1]
      unfold SdlState.displayStep
      cases hdisplay : s.display with
      | test =>
          refine .inr (.inl ?_)
          dsimp only
          rw [if_pos hset]
          decide
      | call => exact .inl List.length_append
      | reset => exact absurd hdisplay hreset
      | frame => exact .inr (.inl (show DisplayPc.rank .test < DisplayPc.rank .frame by decide))

theorem stored_step {a : SdlAction} (h : SdlInv s) (hstep : s.step a = some s') :
    s.stored <+: s'.stored := by
  obtain ⟨-, done, w, -, -, hw⟩ := h
  rcases step_eq hstep with ⟨event, rfl, rfl⟩ | ⟨rfl, rfl⟩ | ⟨rfl, rfl⟩
  · exact List.prefix_rfl
  · rcases pollStep_waiting hw with ⟨hsame, -⟩ | ⟨e, hmore, -⟩
    · exact hsame ▸ List.prefix_rfl
    · exact hmore ▸ List.prefix_append ..
  · unfold SdlState.stored
    rw [(displayStep_rest s).2.1]

theorem SdlInv.passes (h : SdlInv s) : PassesStored s := by
  intro t a h0 ht hfair
  have hinv : ∀ n, SdlInv (t n) := by
    intro n
    induction n with
    | zero => exact h0 ▸ h
    | succ n ih => exact sdlInv_step ih (ht n)
  have hgrows : ∀ n, s.stored <+: (t n).stored := by
    intro n
    induction n with
    | zero => exact h0 ▸ List.prefix_rfl
    | succ n ih => exact ih.trans (stored_step (hinv n) (ht n))
  have hlong : ∃ n, s.stored.length ≤ (t n).passed.length := by
    refine eventually_of_fair (s := t) (fun s' => s.stored.length ≤ s'.passed.length) passRank
      passNeeds (fun thread n => a n = thread.action) hfair ?_
    intro n hshort
    obtain ⟨-, done, w, hstored, hpassed, hw⟩ := hinv n
    -- Fewer calls than stored events: one waits.
    have hone : ∃ e, w = [e] := by
      have hle := (hgrows n).length_le
      have hlen := hpassed.length_eq
      rw [hstored, List.length_append] at hle
      have hw1 := hw.length_le
      exact List.length_eq_one_iff.mp (by omega)
    obtain ⟨e, rfl⟩ := hone
    rcases step_eq (ht n) with ⟨event, ha, hs'⟩ | ⟨ha, hs'⟩ | ⟨ha, hs'⟩
    · rw [hs', ha]
      exact .inr (.inr ⟨rfl, rfl, by cases passNeeds (t n) <;> exact nofun⟩)
    · rw [hs', ha]
      rcases pollStep_rank hw with hlt | ⟨hrank, hneeds, hthread⟩
      · exact .inr (.inl hlt)
      · refine .inr (.inr ⟨hrank, hneeds, ?_⟩)
        rw [hthread]
        exact nofun
    · rw [hs', ha]
      rcases displayStep_rank hw with hpass | hlt | ⟨hrank, hneeds, hthread⟩
      · refine .inl ?_
        have hle := (hgrows n).length_le
        have hlen := hpassed.length_eq
        rw [hstored, List.length_append, hlen] at hle
        exact hle.trans hpass.ge
      · exact .inr (.inl hlt)
      · refine .inr (.inr ⟨hrank, hneeds, ?_⟩)
        rw [hthread]
        exact nofun
  obtain ⟨n, hn⟩ := hlong
  obtain ⟨-, done, w, hstored, hpassed, -⟩ := hinv n
  refine ⟨n, ?_⟩
  have htake : s.stored = done.take s.stored.length := by
    refine (List.prefix_iff_eq_take.mp ?_)
    refine List.prefix_of_prefix_length_le (hgrows n) ?_ (hpassed.length_eq ▸ hn)
    rw [hstored]
    exact List.prefix_append ..
  have hforall := List.forall₂_take s.stored.length hpassed
  rw [← htake] at hforall
  exact hforall

end

/-- Whatever SDL brings and however the threads interleave, the events stored are passed on, once
and in order, and what is stored now is passed on some day. -/
theorem forwards_stored (s : SdlState) (h : sdlMachine.Reachable s) :
    Forwards s ∧ PassesStored s :=
  ⟨(sdlInv_run h).forwards, (sdlInv_run h).passes⟩

/-- A key goes down and up, and a button between. The motion behind the first event finds the slot
full, and `on_event` is called while the button is being stored. -/
def keyAndButton : List SdlAction :=
  [.occur (.input (.keyDown 97)), .occur (.input (.mouseMotion 5 6)), .poller, .poller, .poller,
    .display, .poller, .occur (.input (.mouseButtonDown 1 7 8)), .poller, .display, .poller,
    .poller, .display, .display, .poller, .poller, .poller, .poller, .display,
    .occur (.input (.keyUp 97)), .display, .display, .poller, .poller, .poller, .poller, .poller,
    .poller, .display, .display, .poller, .poller, .display]

theorem forwards_stored_keyAndButton : ∃ s, sdlMachine.Reachable s ∧
    s.stored = [.keyDown 97, .mouseButtonDown 1 7 8, .keyUp 97] ∧
    s.passed = [⟨⟨3, 97, 0, 0⟩, true⟩, ⟨⟨5, 1, 0, 0⟩, false⟩, ⟨⟨2, 97, 7, 8⟩, true⟩] ∧
    Forwards s ∧ PassesStored s := by
  have hrun : (sdlMachine.exec .start keyAndButton).map (fun s => (s.stored, s.passed)) =
      some ([.keyDown 97, .mouseButtonDown 1 7 8, .keyUp 97],
        [⟨⟨3, 97, 0, 0⟩, true⟩, ⟨⟨5, 1, 0, 0⟩, false⟩, ⟨⟨2, 97, 7, 8⟩, true⟩]) := by decide +kernel
  obtain ⟨s, hs, heq⟩ := Option.map_eq_some_iff.mp hrun
  have hreach : sdlMachine.Reachable s := Machine.Reachable.exec (.start rfl) hs
  obtain ⟨hstored, hpassed⟩ := Prod.mk.inj heq
  exact ⟨s, hreach, hstored, hpassed, forwards_stored s hreach⟩

/-! ## What is not stored -/

/-- Nothing is under way: what was not passed on will never be. -/
def SdlState.Quiet (s : SdlState) : Prop :=
  s.queue = [] ∧ s.poller = .poll ∧ s.slot.type = 0

/-- Keys, buttons and the wheel. -/
def SdlInput.keyOrButton : SdlInput → Bool
  | mouseMotion .. => false
  | _ => true

/-- Every event of a key, a button or the wheel is passed on once, in order and unchanged. -/
def ForwardsAll (s : SdlState) : Prop :=
  s.Quiet → List.Forall₂ PassedOn
    ((s.occurred.filterMap SdlEvent.stores).filter SdlInput.keyOrButton)
    (s.passed.filter fun p => p.event.type ≠ EventType.mouseMove.code)

/-- A key that goes up in the same burst that it goes down in stays down. -/
theorem not_forwardsAll : ∃ s, sdlMachine.Reachable s ∧ s.Quiet ∧
    s.occurred = [.input (.keyDown 97), .input (.keyUp 97)] ∧
    s.passed = [⟨⟨3, 97, 0, 0⟩, true⟩] ∧ ¬ForwardsAll s := by
  have hrun : (sdlMachine.exec .start
      [.occur (.input (.keyDown 97)), .occur (.input (.keyUp 97)), .poller, .poller, .poller,
        .poller, .poller, .poller, .poller, .display, .display, .display]).map
        (fun s => (s.queue, s.poller, s.slot.type, s.occurred, s.passed)) =
      some ([], .poll, 0, [.input (.keyDown 97), .input (.keyUp 97)],
        [⟨⟨3, 97, 0, 0⟩, true⟩]) := by decide +kernel
  obtain ⟨s, hs, heq⟩ := Option.map_eq_some_iff.mp hrun
  have hreach : sdlMachine.Reachable s := Machine.Reachable.exec (.start rfl) hs
  simp only [Prod.mk.injEq] at heq
  obtain ⟨hqueue, hpoller, hslot, hoccurred, hpassed⟩ := heq
  refine ⟨s, hreach, ⟨hqueue, hpoller, hslot⟩, hoccurred, hpassed, fun hall => ?_⟩
  have hlength := (hall ⟨hqueue, hpoller, hslot⟩).length_eq
  rw [hoccurred, hpassed] at hlength
  exact absurd hlength (by decide)

end Hprd.Display
