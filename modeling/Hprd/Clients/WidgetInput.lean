import Hprd.Core.Machine
import Hprd.Input.XlibKeys

/-!
# Keys and buttons of the Python client

`clients/pyqt/RenderWidget.py` forwards keys while it holds the grab. The events go
to `xlib_push_key`. Leaving the widget gives the grab up and forwards nothing; the
releases that `_focus_out` and Ctrl+Alt+G send carry codes of Qt that were not mapped
by `get_key_code`, and the server takes each of them for the left control key.
-/

namespace Hprd.Clients

open Hprd.Core Input

def Key_Shift : Nat := 0x01000020

def Key_Control : Nat := 0x01000021

def Key_Alt : Nat := 0x01000023

def Key_G : Nat := 0x47

/-- The cases of `get_key_code`, with the numbers of `Qt::Key`. -/
def keyCodes : List (Nat × Nat) :=
  [(0x01000053, 1), (0x01000003, 8), (0x01000001, 9), (0x01000004, 13), (0x01000005, 108),
    (Key_Shift, 16), (Key_Control, 17), (Key_Alt, 18), (0x01000024, 20), (0x01000000, 27),
    (0x20, 32), (0x01000016, 33), (0x01000017, 34), (0x01000011, 35), (0x01000010, 36),
    (0x01000012, 37), (0x01000013, 38), (0x01000014, 39), (0x01000015, 40), (0x01000006, 45),
    (0x01000007, 46), (0x29, 48), (0xa1, 49), (0x40, 50), (0x23, 51), (0x24, 52), (0x25, 53),
    (0x5e, 54), (0x26, 55), (0x2a, 56), (0x28, 57),
    -- the function keys
    (0x01000030, 112), (0x01000031, 113), (0x01000032, 114), (0x01000033, 115),
    (0x01000034, 116), (0x01000035, 117), (0x01000036, 118), (0x01000037, 119),
    (0x01000038, 120), (0x01000039, 121), (0x0100003a, 122), (0x0100003b, 123),
    -- punctuation, with and without shift
    (0x3b, 186), (0x3a, 186), (0x3d, 187), (0x2b, 187), (0x2c, 188), (0x3c, 188), (0x2d, 189),
    (0x5f, 189), (0x2e, 190), (0x3e, 190), (0x2f, 191), (0x3f, 191), (0x5c, 220), (0x7c, 220),
    (0x5b, 219), (0x7b, 219), (0x5d, 221), (0x7d, 221), (0x27, 222), (0x22, 222)]

def getKeyCode (code : Nat) : Nat := (keyCodes.lookup code).getD code

structure Modifiers where
  shift : Bool
  control : Bool
  alt : Bool
  deriving DecidableEq

inductive MouseButton where
  | left
  | right
  | mid
  | extra (n : Nat)
  deriving DecidableEq

/-- What the handlers read and write of the widget. -/
structure RenderInput where
  grab : Bool
  modifiers : Modifiers
  mouseKey : UInt32
  streamWidth : Int
  streamHeight : Int
  deriving DecidableEq

/-- `py_key_event`; a key event has no position. -/
def pyKeyEvent (key : Nat) (down : Bool) : InputEvent :=
  ⟨if down then .keyDown else .keyUp, UInt32.ofNat key, 0, 0⟩

def pyMouseClick (x y : Int) (key : UInt32) (down : Bool) : InputEvent :=
  ⟨if down then .mouseDown else .mouseUp, key, UInt32.ofInt x, UInt32.ofInt y⟩

def pyMouseMove (x y : Int) : InputEvent := ⟨.mouseMove, 0, UInt32.ofInt x, UInt32.ofInt y⟩

/-- Ctrl+Alt+G -/
def Ungrabs (key : Nat) (modifiers : Modifiers) : Prop :=
  modifiers.alt = true ∧ modifiers.control = true ∧ key = Key_G

instance (key : Nat) (modifiers : Modifiers) : Decidable (Ungrabs key modifiers) :=
  inferInstanceAs (Decidable (_ ∧ _ ∧ _))

namespace RenderInput

/-- Whether a position, as `_get_remote_pos` gives it, is one of the stream. -/
def InStream (w : RenderInput) (x y : Int) : Prop :=
  0 ≤ x ∧ 0 ≤ y ∧ x ≤ w.streamWidth ∧ y ≤ w.streamHeight

instance (w : RenderInput) (x y : Int) : Decidable (w.InStream x y) :=
  inferInstanceAs (Decidable (_ ∧ _ ∧ _ ∧ _))

/-- `_ui_grab` with the cursor inside the widget or not. -/
def uiGrab (w : RenderInput) (contains : Bool) : RenderInput :=
  if w.grab = false ∧ contains then { w with grab := true } else w

def uiReleaseGrab (w : RenderInput) : RenderInput :=
  if w.grab then { w with grab := false } else w

def keyPressEvent (w : RenderInput) (key : Nat) (modifiers : Modifiers) :
    RenderInput × List InputEvent :=
  if w.grab then
    let w := { w with modifiers := modifiers }
    if Ungrabs key modifiers then
      (w.uiReleaseGrab, [pyKeyEvent Key_Control false, pyKeyEvent Key_Alt false])
    else (w, [pyKeyEvent (getKeyCode key) true])
  else (w, [])

def keyReleaseEvent (w : RenderInput) (key : Nat) (modifiers : Modifiers) :
    RenderInput × List InputEvent :=
  if w.grab then ({ w with modifiers := modifiers }, [pyKeyEvent (getKeyCode key) false])
  else (w, [])

/-- `mousePressEvent` with the buttons that are down now. -/
def mousePressEvent (w : RenderInput) (buttons : List MouseButton) (x y : Int) :
    RenderInput × List InputEvent :=
  if w.mouseKey ≠ 0 then (w, [])
  else
    let key : UInt32 :=
      if buttons = [.mid] then 2 else if buttons = [.right] then 3 else 1
    let w := { w with mouseKey := key }
    (w, if w.InStream x y then [pyMouseClick x y w.mouseKey true] else [])

/-- `due` says whether the last move was sent long enough ago. -/
def mouseMoveEvent (w : RenderInput) (contains due : Bool) (x y : Int) :
    RenderInput × List InputEvent :=
  let w := w.uiGrab contains
  (w, if due ∧ w.InStream x y then [pyMouseMove x y] else [])

def mouseReleaseEvent (w : RenderInput) (x y : Int) : RenderInput × List InputEvent :=
  ({ w with mouseKey := 0 }, [pyMouseClick x y w.mouseKey false])

def focusOut (w : RenderInput) : RenderInput × List InputEvent :=
  if w.grab then
    (w.uiReleaseGrab,
      (if w.modifiers.shift then [pyKeyEvent Key_Shift false] else []) ++
      (if w.modifiers.control then [pyKeyEvent Key_Control false] else []) ++
      if w.modifiers.alt then [pyKeyEvent Key_Alt false] else [])
  else (w, [])

end RenderInput

/-- An event of the widget. The modifiers of a key event are those after it; the positions are
those of `_get_remote_pos`. -/
inductive WidgetEvent where
  | keyPress (key : Nat) (modifiers : Modifiers)
  | keyRelease (key : Nat) (modifiers : Modifiers)
  | mousePress (button : MouseButton) (x y : Int)
  | mouseRelease (button : MouseButton) (x y : Int)
  | mouseMove (contains due : Bool) (x y : Int)
  | enter (contains : Bool)
  | leave
  | focusIn (contains : Bool)
  | focusOut
  | streamSize (width height : Int)

/-- The keysym that the server presses for a key of the widget. -/
def serverKey (key : Nat) : Option Nat :=
  let code := UInt32.ofNat (getKeyCode key)
  if code = 0 then none else some (getXkeycode code.toNat)

/-- What the events so far come to: whether they took the grab, the keysyms whose keys went down
with the grab and not up since, the modifiers of the last key event with the grab, and whether the
first button to go down since one went up did so in the stream. -/
structure InputHistory where
  grab : Bool
  down : Nat → Bool
  modifiers : Modifiers
  button : Option Bool
  width : Int
  height : Int

namespace InputHistory

def start : InputHistory := ⟨false, fun _ => false, ⟨false, false, false⟩, none, 0, 0⟩

def key (h : InputHistory) (key : Nat) (down : Bool) : Nat → Bool :=
  match serverKey key with
  | none => h.down
  | some keysym => Function.update h.down keysym down

/-- Ctrl+Alt+G, and a loss of the focus with a modifier, let Control go and give the grab up;
leaving only gives it up. -/
def after (h : InputHistory) : WidgetEvent → InputHistory
  | .keyPress key modifiers =>
      if h.grab then
        if Ungrabs key modifiers then
          { h with grab := false, modifiers, down := Function.update h.down XK_Control_L false }
        else { h with modifiers, down := h.key key true }
      else h
  | .keyRelease key modifiers =>
      if h.grab then { h with modifiers, down := h.key key false } else h
  | .mousePress _ x y =>
      if h.button.isSome then h
      else { h with button := some (0 ≤ x ∧ 0 ≤ y ∧ x ≤ h.width ∧ y ≤ h.height) }
  | .mouseRelease _ _ _ => { h with button := none }
  | .mouseMove contains _ _ _ => { h with grab := h.grab || contains }
  | .enter contains => { h with grab := h.grab || contains }
  | .leave => { h with grab := false }
  | .focusIn contains => { h with grab := h.grab || contains }
  | .focusOut =>
      if h.grab ∧ h.modifiers ≠ ⟨false, false, false⟩ then
        { h with grab := false, down := Function.update h.down XK_Control_L false }
      else { h with grab := false }
  | .streamSize width height => { h with width, height }

/-- When the grab is given up every modifier key that went down with it has gone up, but for the
Control that is let go on the way, and a button that goes up is the first to do so since one went
down in the stream. -/
def Careful (h : InputHistory) : WidgetEvent → Prop
  | .keyPress key modifiers => h.grab = true → Ungrabs key modifiers →
      h.down XK_Shift_L = false ∧ h.down XK_Alt_L = false
  | .leave => h.grab = true →
      h.down XK_Shift_L = false ∧ h.down XK_Control_L = false ∧ h.down XK_Alt_L = false
  | .focusOut => h.grab = true →
      h.down XK_Shift_L = false ∧ h.down XK_Alt_L = false ∧
        (h.down XK_Control_L = true → h.modifiers ≠ ⟨false, false, false⟩)
  | .mouseRelease _ _ _ => h.button = some true
  | _ => True

end InputHistory

/-- The widget, the buttons that are down in front of it, the events so far, and what is pressed
on the server. -/
structure InputSession where
  widget : RenderInput
  buttons : List MouseButton
  history : InputHistory
  pressed : Pressed

namespace InputSession

/-- The buttons after an event, which does not press one that is down or release one that is up. -/
def buttonsAfter (s : InputSession) : WidgetEvent → Option (List MouseButton)
  | .mousePress button _ _ => if button ∈ s.buttons then none else some (s.buttons ++ [button])
  | .mouseRelease button _ _ =>
      if button ∈ s.buttons then some (s.buttons.erase button) else none
  | _ => some s.buttons

def handle (w : RenderInput) (buttons : List MouseButton) :
    WidgetEvent → RenderInput × List InputEvent
  | .keyPress key modifiers => w.keyPressEvent key modifiers
  | .keyRelease key modifiers => w.keyReleaseEvent key modifiers
  | .mousePress _ x y => w.mousePressEvent buttons x y
  | .mouseRelease _ x y => w.mouseReleaseEvent x y
  | .mouseMove contains due x y => w.mouseMoveEvent contains due x y
  | .enter contains => (w.uiGrab contains, [])
  | .leave => (w.uiReleaseGrab, [])
  | .focusIn contains => (w.uiGrab contains, [])
  | .focusOut => w.focusOut
  | .streamSize width height => ({ w with streamWidth := width, streamHeight := height }, [])

def step (s : InputSession) (a : WidgetEvent) : Option InputSession :=
  (s.buttonsAfter a).map fun buttons =>
    let (widget, sent) := handle s.widget buttons a
    ⟨widget, buttons, s.history.after a, sent.foldl Pressed.push s.pressed⟩

def start : InputSession where
  widget := ⟨false, ⟨false, false, false⟩, 0, 0, 0⟩
  buttons := []
  history := .start
  pressed := .nothing

end InputSession

def widgetMachine : Machine InputSession WidgetEvent where
  init s := s = .start
  step := InputSession.step

/-- None of Shift, Control and Alt is pressed on the server. -/
def NoModifiers (p : Pressed) : Prop :=
  p.key XK_Shift_L = false ∧ p.key XK_Control_L = false ∧ p.key XK_Alt_L = false

/-- What a step leaves pressed: no modifier without the grab, nothing that a `MOUSE_UP` was sent
for without being down, and no button when all are up. -/
structure LeavesReleased (s : InputSession) (a : WidgetEvent) (s' : InputSession) : Prop where
  modifiers : s'.widget.grab = false → NoModifiers s'.pressed
  mouseUp : ∀ e ∈ (InputSession.handle s.widget s'.buttons a).2, e.type = .mouseUp →
    s.pressed.button e.keyCode = true
  buttons : s'.buttons = [] → ∀ button, s'.pressed.button button = false

def CarefulEvent (s : InputSession) (a : WidgetEvent) : Prop := s.history.Careful a

/-! ## The invariant -/

/-- The events tell what the widget has stored and which keys are pressed on the server. -/
structure Tracks (s : InputSession) : Prop where
  grab : s.history.grab = s.widget.grab
  down : s.history.down = s.pressed.key
  modifiers : s.history.modifiers = s.widget.modifiers
  button : s.history.button.isSome = true ↔ s.widget.mouseKey ≠ 0
  width : s.history.width = s.widget.streamWidth
  height : s.history.height = s.widget.streamHeight

/-- What a step keeps of the buttons, whatever the event. -/
structure ButtonsInv (s : InputSession) : Prop where
  pressed : ∀ button, s.pressed.button button = true →
    button = s.widget.mouseKey ∧ s.widget.mouseKey ≠ 0
  inside : ∀ inside, s.history.button = some inside →
    s.pressed.button s.widget.mouseKey = inside
  held : s.widget.mouseKey ≠ 0 → s.buttons ≠ []

/-- What every careful step keeps. -/
structure SessionInv (s : InputSession) : Prop where
  tracks : Tracks s
  buttons : ButtonsInv s
  modifiers : s.widget.grab = false → NoModifiers s.pressed

section

variable {s s' : InputSession} {p : Pressed} {w : RenderInput}

theorem push_keyEvent_button (key : Nat) (down : Bool) :
    (p.push (pyKeyEvent key down)).button = p.button := Pressed.push_key_button

theorem push_unmapped {key : Nat} (h : key = Key_Shift ∨ key = Key_Control ∨ key = Key_Alt) :
    p.push (pyKeyEvent key false) = { p with key := Function.update p.key XK_Control_L false } := by
  have hpush : ∀ k : Nat, UInt32.ofNat k ≠ 0 →
      getXkeycode (UInt32.ofNat k).toNat = XK_Control_L →
      p.push (pyKeyEvent k false) =
        { p with key := Function.update p.key XK_Control_L false } := by
    intro k hne hk
    have hkey := @Pressed.push_key p (UInt32.ofNat k) 0 0 false hne
    rw [hk] at hkey
    exact hkey
  rcases h with rfl | rfl | rfl
  · exact hpush _ (by decide) (by decide)
  · exact hpush _ (by decide) (by decide)
  · exact hpush _ (by decide) (by decide)

theorem step_eq {a : WidgetEvent} (h : s.step a = some s') :
    ∃ buttons, s.buttonsAfter a = some buttons ∧
      s' = ⟨(InputSession.handle s.widget buttons a).1, buttons, s.history.after a,
        (InputSession.handle s.widget buttons a).2.foldl Pressed.push s.pressed⟩ := by
  obtain ⟨buttons, hbuttons, rfl⟩ := Option.map_eq_some_iff.mp h
  exact ⟨buttons, hbuttons, rfl⟩

/-- A handler that sends keys only. -/
structure SendsKeys (w w' : RenderInput) (sent : List InputEvent) : Prop where
  mouseKey : w'.mouseKey = w.mouseKey
  keys : ∀ e ∈ sent, ∃ key down, e = pyKeyEvent key down

theorem foldl_keys {sent : List InputEvent} (h : ∀ e ∈ sent, ∃ key down, e = pyKeyEvent key down) :
    (sent.foldl Pressed.push p).button = p.button := by
  induction sent generalizing p with
  | nil => rfl
  | cons e sent ih =>
      obtain ⟨key, down, rfl⟩ := h e (List.mem_cons_self ..)
      rw [List.foldl_cons, ih fun x hx => h x (List.mem_cons_of_mem _ hx), push_keyEvent_button]

theorem keys_not_mouseUp {sent : List InputEvent}
    (h : ∀ e ∈ sent, ∃ key down, e = pyKeyEvent key down) : ∀ e ∈ sent, e.type ≠ .mouseUp := by
  intro e he
  obtain ⟨key, down, rfl⟩ := h e he
  cases down <;> exact nofun

theorem uiGrab_eq (w : RenderInput) (contains : Bool) :
    w.uiGrab contains = { w with grab := w.grab || contains } := by
  obtain ⟨grab, modifiers, mouseKey, streamWidth, streamHeight⟩ := w
  cases grab <;> cases contains <;> rfl

theorem uiReleaseGrab_eq (w : RenderInput) : w.uiReleaseGrab = { w with grab := false } := by
  obtain ⟨grab, modifiers, mouseKey, streamWidth, streamHeight⟩ := w
  cases grab <;> rfl

theorem uiGrab_mouseKey (w : RenderInput) (contains : Bool) :
    (w.uiGrab contains).mouseKey = w.mouseKey := by rw [uiGrab_eq]

theorem uiReleaseGrab_mouseKey (w : RenderInput) : w.uiReleaseGrab.mouseKey = w.mouseKey := by
  rw [uiReleaseGrab_eq]

/-- Taking the grab: without it afterwards there was none before. -/
theorem grab_of_uiGrab {contains : Bool} (h : (w.uiGrab contains).grab = false) :
    w.grab = false := by
  rw [uiGrab_eq] at h
  exact (Bool.or_eq_false_iff.mp h).1

theorem keyPressEvent_sendsKeys (key : Nat) (modifiers : Modifiers) :
    SendsKeys w (w.keyPressEvent key modifiers).1 (w.keyPressEvent key modifiers).2 := by
  unfold RenderInput.keyPressEvent
  split
  next =>
    dsimp only
    split
    next =>
      refine ⟨uiReleaseGrab_mouseKey _, ?_⟩
      intro e he
      rcases List.mem_cons.mp he with rfl | he
      · exact ⟨_, _, rfl⟩
      · cases List.mem_singleton.mp he
        exact ⟨_, _, rfl⟩
    next =>
      refine ⟨rfl, ?_⟩
      intro e he
      cases List.mem_singleton.mp he
      exact ⟨_, _, rfl⟩
  next => exact ⟨rfl, nofun⟩

theorem keyReleaseEvent_sendsKeys (key : Nat) (modifiers : Modifiers) :
    SendsKeys w (w.keyReleaseEvent key modifiers).1 (w.keyReleaseEvent key modifiers).2 := by
  unfold RenderInput.keyReleaseEvent
  split
  next =>
    refine ⟨rfl, ?_⟩
    intro e he
    cases List.mem_singleton.mp he
    exact ⟨_, _, rfl⟩
  next => exact ⟨rfl, nofun⟩

theorem focusOut_sendsKeys : SendsKeys w w.focusOut.1 w.focusOut.2 := by
  unfold RenderInput.focusOut
  split
  next =>
    refine ⟨uiReleaseGrab_mouseKey _, ?_⟩
    intro e he
    have hone : ∀ (b : Bool) key, e ∈ (if b then [pyKeyEvent key false] else []) →
        ∃ key down, e = pyKeyEvent key down := by
      intro b key hmem
      cases b
      · cases hmem
      · exact ⟨_, _, List.mem_singleton.mp hmem⟩
    rcases List.mem_append.mp he with he | he
    · rcases List.mem_append.mp he with he | he
      · exact hone _ _ he
      · exact hone _ _ he
    · exact hone _ _ he
  next => exact ⟨rfl, nofun⟩

theorem mouseMoveEvent_pressed (contains due : Bool) (x y : Int) :
    (w.mouseMoveEvent contains due x y).2.foldl Pressed.push p = p := by
  unfold RenderInput.mouseMoveEvent
  dsimp only
  split <;> rfl

/-! ## Buttons -/

theorem ButtonsInv.same (h : ButtonsInv s) (hkey : s'.widget.mouseKey = s.widget.mouseKey)
    (hpressed : s'.pressed.button = s.pressed.button)
    (hbutton : s'.history.button = s.history.button) (hbuttons : s'.buttons = s.buttons) :
    ButtonsInv s' := by
  constructor
  · rw [hkey, hpressed]
    exact h.pressed
  · rw [hkey, hpressed, hbutton]
    exact h.inside
  · rw [hkey, hbuttons]
    exact h.held

/-- No button is pressed on the server where none is known to the widget. -/
theorem ButtonsInv.released (h : ButtonsInv s) (h0 : s.widget.mouseKey = 0) (button : UInt32) :
    s.pressed.button button = false := by
  by_contra hpressed
  exact (h.pressed button (Bool.eq_true_of_not_eq_false hpressed)).2 h0

/-- The button that `mouse_key` stands for is pressed on the server if it went down inside. -/
theorem ButtonsInv.pressed_iff (h : ButtonsInv s) (ht : Tracks s) :
    s.pressed.button s.widget.mouseKey = true ↔ s.history.button = some true := by
  constructor
  · intro hpressed
    have hsome := ht.button.mpr (h.pressed _ hpressed).2
    obtain ⟨inside, hinside⟩ := Option.isSome_iff_exists.mp hsome
    rw [hinside, ← h.inside inside hinside, hpressed]
  · exact h.inside true

theorem ButtonsInv.release (h : ButtonsInv s) (x y : Int) (button : UInt32) :
    (s.pressed.push (pyMouseClick x y s.widget.mouseKey false)).button button = false := by
  by_cases h0 : s.widget.mouseKey = 0
  · have hnone : s.pressed.push (pyMouseClick x y s.widget.mouseKey false) = s.pressed := by
      rw [h0]
      exact Pressed.push_zero
    rw [hnone]
    exact h.released h0 button
  · have hup : s.pressed.push (pyMouseClick x y s.widget.mouseKey false) = _ :=
      @Pressed.push_button s.pressed _ _ _ false h0
    rw [hup]
    show Function.update s.pressed.button s.widget.mouseKey false button = false
    rw [Function.update_apply]
    split
    next => rfl
    next hne =>
      by_contra hpressed
      exact hne (h.pressed button (Bool.eq_true_of_not_eq_false hpressed)).1

theorem mousePressEvent_of_held {buttons : List MouseButton} {x y : Int} (h : w.mouseKey ≠ 0) :
    w.mousePressEvent buttons x y = (w, []) := if_pos h

theorem mousePressEvent_of_up {buttons : List MouseButton} {x y : Int} (h : w.mouseKey = 0) :
    ∃ key : UInt32, key ≠ 0 ∧
      (¬w.InStream x y ∧ w.mousePressEvent buttons x y = ({ w with mouseKey := key }, []) ∨
        w.InStream x y ∧ w.mousePressEvent buttons x y =
          ({ w with mouseKey := key }, [pyMouseClick x y key true])) := by
  have hkey :
      (if buttons = [.mid] then 2 else if buttons = [.right] then 3 else 1 : UInt32) ≠ 0 := by
    split
    · decide
    · split <;> decide
  rw [RenderInput.mousePressEvent, if_neg (not_not.mpr h)]
  dsimp only
  generalize
    (if buttons = [.mid] then 2 else if buttons = [.right] then 3 else 1 : UInt32) = key at *
  refine ⟨key, hkey, ?_⟩
  split
  next hin => exact .inr ⟨hin, rfl⟩
  next hout => exact .inl ⟨hout, rfl⟩

/-- Only mouse presses and releases count for the button. -/
theorem after_button {h : InputHistory} {a : WidgetEvent} (hpress : ∀ b x y, a ≠ .mousePress b x y)
    (hrelease : ∀ b x y, a ≠ .mouseRelease b x y) : (h.after a).button = h.button := by
  cases a with
  | mousePress b x y => exact absurd rfl (hpress b x y)
  | mouseRelease b x y => exact absurd rfl (hrelease b x y)
  | keyPress key modifiers =>
      dsimp only [InputHistory.after]
      split
      next =>
        split
        next => rfl
        next => rfl
      next => rfl
  | keyRelease key modifiers =>
      dsimp only [InputHistory.after]
      split
      next => rfl
      next => rfl
  | focusOut =>
      dsimp only [InputHistory.after]
      split
      next => rfl
      next => rfl
  | mouseMove | enter | leave | focusIn | streamSize => rfl

theorem buttonsInv_step {a : WidgetEvent} (ht : Tracks s) (h : ButtonsInv s)
    (hstep : s.step a = some s') : ButtonsInv s' := by
  obtain ⟨buttons, hbuttons, rfl⟩ := step_eq hstep
  have hkeys : ∀ {w' sent history}, SendsKeys s.widget w' sent →
      history.button = s.history.button →
      ButtonsInv ⟨w', s.buttons, history, sent.foldl Pressed.push s.pressed⟩ :=
    fun hsends hbutton => h.same hsends.mouseKey (foldl_keys hsends.keys) hbutton rfl
  cases a with
  | keyPress key modifiers =>
      cases hbuttons
      exact hkeys (keyPressEvent_sendsKeys key modifiers) (after_button nofun nofun)
  | keyRelease key modifiers =>
      cases hbuttons
      exact hkeys (keyReleaseEvent_sendsKeys key modifiers) (after_button nofun nofun)
  | mousePress button x y =>
      obtain ⟨-, hadd⟩ := Option.ite_none_left_eq_some.mp hbuttons
      cases hadd
      have hne : s.buttons ++ [button] ≠ [] :=
        List.append_ne_nil_of_right_ne_nil _ (List.cons_ne_nil button [])
      dsimp only [InputSession.handle, InputHistory.after]
      by_cases h0 : s.widget.mouseKey = 0
      · have hnone := h.released h0
        rw [if_neg fun hsome => ht.button.mp hsome h0, ht.width, ht.height]
        obtain ⟨key, hkey, ⟨hout, hsent⟩ | ⟨hin, hsent⟩⟩ :=
          @mousePressEvent_of_up s.widget (s.buttons ++ [button]) x y h0
        · rw [hsent]
          refine ⟨fun b hb => absurd hb (Bool.eq_false_iff.mp (hnone b)), ?_, fun _ => hne⟩
          rintro _ ⟨⟩
          exact (hnone key).trans (decide_eq_false hout).symm
        · rw [hsent]
          have hpush : (s.pressed.push (pyMouseClick x y key true)).button =
              Function.update s.pressed.button key true :=
            congrArg Pressed.button (@Pressed.push_button s.pressed _ _ _ true hkey)
          refine ⟨fun b hb => ?_, ?_, fun _ => hne⟩
          · have hb' : Function.update s.pressed.button key true b = true := hpush ▸ hb
            rw [Function.update_apply] at hb'
            split at hb'
            next he => exact ⟨he, hkey⟩
            next => exact absurd hb' (Bool.eq_false_iff.mp (hnone b))
          · rintro _ ⟨⟩
            exact ((congrFun hpush key).trans (Function.update_self ..)).trans
              (decide_eq_true hin).symm
      · rw [mousePressEvent_of_held h0, if_pos (ht.button.mpr h0)]
        exact ⟨h.pressed, h.inside, fun _ => hne⟩
  | mouseRelease button x y =>
      obtain ⟨-, herase⟩ := Option.ite_none_right_eq_some.mp hbuttons
      cases herase
      exact ⟨fun b hb => absurd hb (Bool.eq_false_iff.mp (h.release x y b)),
        nofun, fun hne => absurd rfl hne⟩
  | mouseMove contains due x y =>
      cases hbuttons
      refine h.same (uiGrab_mouseKey _ _) ?_ rfl rfl
      exact congrArg Pressed.button (mouseMoveEvent_pressed contains due x y)
  | enter contains =>
      cases hbuttons
      exact h.same (uiGrab_mouseKey _ _) rfl rfl rfl
  | leave =>
      cases hbuttons
      exact h.same (uiReleaseGrab_mouseKey _) rfl rfl rfl
  | focusIn contains =>
      cases hbuttons
      exact h.same (uiGrab_mouseKey _ _) rfl rfl rfl
  | focusOut =>
      cases hbuttons
      exact hkeys focusOut_sendsKeys (after_button nofun nofun)
  | streamSize width height =>
      cases hbuttons
      exact h.same rfl rfl rfl rfl

/-! ## Modifiers -/

theorem noModifiers_release :
    NoModifiers { p with key := Function.update p.key XK_Control_L false } ↔
      p.key XK_Shift_L = false ∧ p.key XK_Alt_L = false := by
  have hshift : Function.update p.key XK_Control_L false XK_Shift_L = p.key XK_Shift_L :=
    Function.update_of_ne (by decide) ..
  have halt : Function.update p.key XK_Control_L false XK_Alt_L = p.key XK_Alt_L :=
    Function.update_of_ne (by decide) ..
  have hcontrol : Function.update p.key XK_Control_L false XK_Control_L = false :=
    Function.update_self ..
  unfold NoModifiers
  dsimp only
  rw [hshift, halt, hcontrol]
  exact ⟨fun h => ⟨h.1, h.2.2⟩, fun h => ⟨h.1, rfl, h.2⟩⟩

theorem keyPressEvent_ungrabs {key : Nat} {modifiers : Modifiers} (hgrab : w.grab = true)
    (h : Ungrabs key modifiers) :
    (w.keyPressEvent key modifiers).1.grab = false ∧
      (w.keyPressEvent key modifiers).2.foldl Pressed.push p =
        { p with key := Function.update p.key XK_Control_L false } := by
  rw [RenderInput.keyPressEvent, if_pos hgrab]
  dsimp only
  rw [if_pos h]
  refine ⟨by rw [uiReleaseGrab_eq], ?_⟩
  rw [List.foldl_cons, List.foldl_cons, List.foldl_nil, push_unmapped (.inr (.inl rfl)),
    push_unmapped (.inr (.inr rfl)), Function.update_idem]

theorem keyPressEvent_other {key : Nat} {modifiers : Modifiers} (h : ¬Ungrabs key modifiers) :
    (w.keyPressEvent key modifiers).1.grab = w.grab := by
  unfold RenderInput.keyPressEvent
  split
  next => rfl
  next => rfl

theorem focusOut_pressed (hgrab : w.grab = true) : w.focusOut.2.foldl Pressed.push p =
    if w.modifiers = ⟨false, false, false⟩ then p
    else { p with key := Function.update p.key XK_Control_L false } := by
  rw [RenderInput.focusOut, if_pos hgrab]
  obtain ⟨shift, control, alt⟩ := w.modifiers
  cases shift <;> cases control <;> cases alt <;>
    simp [push_unmapped, Function.update_idem]

theorem focusOut_grab (w : RenderInput) : w.focusOut.1.grab = false := by
  unfold RenderInput.focusOut
  split
  next => rw [uiReleaseGrab_eq]
  next h => exact Bool.eq_false_of_not_eq_true h

theorem keyPressEvent_free {key : Nat} {modifiers : Modifiers} (h : w.grab = false) :
    w.keyPressEvent key modifiers = (w, []) := if_neg (Bool.eq_false_iff.mp h)

theorem keyReleaseEvent_free {key : Nat} {modifiers : Modifiers} (h : w.grab = false) :
    w.keyReleaseEvent key modifiers = (w, []) := if_neg (Bool.eq_false_iff.mp h)

theorem focusOut_free (h : w.grab = false) : w.focusOut = (w, []) :=
  if_neg (Bool.eq_false_iff.mp h)

theorem mousePressEvent_pressed (buttons : List MouseButton) (x y : Int) :
    (w.mousePressEvent buttons x y).1.grab = w.grab ∧
      ((w.mousePressEvent buttons x y).2.foldl Pressed.push p).key = p.key := by
  by_cases h : w.mouseKey = 0
  · obtain ⟨key, -, ⟨-, hsent⟩ | ⟨-, hsent⟩⟩ := @mousePressEvent_of_up w buttons x y h
    · rw [hsent]
      exact ⟨rfl, rfl⟩
    · rw [hsent]
      exact ⟨rfl, Pressed.push_button_key⟩
  · rw [mousePressEvent_of_held h]
    exact ⟨rfl, rfl⟩

theorem NoModifiers.congr {q : Pressed} (h : q.key = p.key) : NoModifiers q ↔ NoModifiers p := by
  unfold NoModifiers
  rw [h]

theorem push_serverKey {h : InputHistory} (hdown : h.down = p.key) (key : Nat) (down : Bool) :
    h.key key down = (p.push (pyKeyEvent (getKeyCode key) down)).key := by
  by_cases h0 : UInt32.ofNat (getKeyCode key) = 0
  · have hpush : p.push (pyKeyEvent (getKeyCode key) down) = p := by
      rw [pyKeyEvent, h0]
      exact Pressed.push_zero
    simp only [InputHistory.key, serverKey, if_pos h0]
    rw [hpush, hdown]
  · have hpush : p.push (pyKeyEvent (getKeyCode key) down) = _ :=
      @Pressed.push_key p (UInt32.ofNat (getKeyCode key)) 0 0 down h0
    simp only [InputHistory.key, serverKey, if_neg h0]
    rw [hpush, hdown]

theorem Tracks.grabbed (h : Tracks s) (contains : Bool) {p : Pressed} (hp : p = s.pressed) :
    Tracks ⟨s.widget.uiGrab contains, s.buttons,
      { s.history with grab := s.history.grab || contains }, p⟩ := by
  subst hp
  rw [uiGrab_eq]
  exact { h with grab := congrArg (· || contains) h.grab }

theorem tracks_step {a : WidgetEvent} (h : Tracks s) (hstep : s.step a = some s') : Tracks s' := by
  obtain ⟨buttons, -, rfl⟩ := step_eq hstep
  cases a with
  | keyPress key modifiers =>
      dsimp only [InputSession.handle, InputHistory.after]
      cases hgrab : s.widget.grab with
      | false =>
          rw [keyPressEvent_free hgrab, if_neg (by rw [h.grab, hgrab]; exact Bool.false_ne_true)]
          exact { h with }
      | true =>
          rw [if_pos (h.grab.trans hgrab)]
          by_cases hun : Ungrabs key modifiers
          · obtain ⟨-, hpressed⟩ :=
              @keyPressEvent_ungrabs s.pressed s.widget key modifiers hgrab hun
            rw [if_pos hun, hpressed, RenderInput.keyPressEvent, if_pos hgrab]
            dsimp only
            rw [if_pos hun, uiReleaseGrab_eq]
            exact { h with
              grab := rfl, modifiers := rfl
              down := congrArg (fun f => Function.update f XK_Control_L false) h.down }
          · rw [if_neg hun, RenderInput.keyPressEvent, if_pos hgrab]
            dsimp only
            rw [if_neg hun]
            exact { h with grab := h.grab, modifiers := rfl, down := push_serverKey h.down key true }
  | keyRelease key modifiers =>
      dsimp only [InputSession.handle, InputHistory.after]
      cases hgrab : s.widget.grab with
      | false =>
          rw [keyReleaseEvent_free hgrab, if_neg (by rw [h.grab, hgrab]; exact Bool.false_ne_true)]
          exact { h with }
      | true =>
          rw [if_pos (h.grab.trans hgrab), RenderInput.keyReleaseEvent, if_pos hgrab]
          exact { h with grab := h.grab, modifiers := rfl, down := push_serverKey h.down key false }
  | mousePress button x y =>
      dsimp only [InputSession.handle, InputHistory.after]
      by_cases h0 : s.widget.mouseKey = 0
      · rw [if_neg fun hsome => h.button.mp hsome h0]
        obtain ⟨key, hkey, ⟨-, hsent⟩ | ⟨-, hsent⟩⟩ := @mousePressEvent_of_up s.widget buttons x y h0
        · rw [hsent]
          exact { h with grab := h.grab, button := iff_of_true rfl hkey }
        · rw [hsent]
          exact { h with
            grab := h.grab, button := iff_of_true rfl hkey
            down := h.down.trans Pressed.push_button_key.symm }
      · rw [mousePressEvent_of_held h0, if_pos (h.button.mpr h0)]
        exact { h with }
  | mouseRelease button x y =>
      exact { h with
        grab := h.grab, button := iff_of_false Bool.false_ne_true fun hne => hne rfl
        down := h.down.trans Pressed.push_button_key.symm }
  | mouseMove contains due x y =>
      exact { h.grabbed contains (mouseMoveEvent_pressed contains due x y) with }
  | enter contains => exact { h.grabbed contains rfl with }
  | leave =>
      dsimp only [InputSession.handle, InputHistory.after]
      rw [uiReleaseGrab_eq]
      exact { h with grab := rfl }
  | focusIn contains => exact { h.grabbed contains rfl with }
  | focusOut =>
      dsimp only [InputSession.handle, InputHistory.after]
      cases hgrab : s.widget.grab with
      | false =>
          rw [focusOut_free hgrab, if_neg fun hboth => by
            rw [h.grab, hgrab] at hboth
            exact Bool.false_ne_true hboth.1]
          exact { h with grab := hgrab.symm }
      | true =>
          have hfree : s.widget.focusOut.1 = { s.widget with grab := false } := by
            rw [RenderInput.focusOut, if_pos hgrab]
            exact uiReleaseGrab_eq s.widget
          rw [focusOut_pressed hgrab, hfree, h.grab, h.modifiers]
          by_cases hnone : s.widget.modifiers = ⟨false, false, false⟩
          · rw [if_pos hnone, if_neg fun hboth => hboth.2 hnone]
            exact { h with grab := rfl, modifiers := rfl }
          · rw [if_neg hnone, if_pos ⟨hgrab, hnone⟩]
            exact { h with
              grab := rfl, modifiers := rfl
              down := congrArg (fun f => Function.update f XK_Control_L false) h.down }
  | streamSize width height => exact { h with width := rfl, height := rfl }

/-- Where the grab goes no modifier stays just when the event is a careful one. -/
theorem modifiers_iff {a : WidgetEvent} (ht : Tracks s)
    (h : s.widget.grab = false → NoModifiers s.pressed) (hstep : s.step a = some s')
    (ha : ∀ b x y, a ≠ .mouseRelease b x y) :
    (s'.widget.grab = false → NoModifiers s'.pressed) ↔ CarefulEvent s a := by
  obtain ⟨buttons, -, rfl⟩ := step_eq hstep
  unfold CarefulEvent
  cases a with
  | keyPress key modifiers =>
      dsimp only [InputSession.handle, InputHistory.Careful]
      rw [ht.grab, ht.down]
      cases hgrab : s.widget.grab with
      | false =>
          rw [keyPressEvent_free hgrab]
          exact iff_of_true h fun hg => absurd hg Bool.false_ne_true
      | true =>
          by_cases hun : Ungrabs key modifiers
          · obtain ⟨hfree, hpressed⟩ :=
              @keyPressEvent_ungrabs s.pressed s.widget key modifiers hgrab hun
            rw [hfree, hpressed, noModifiers_release]
            exact ⟨fun hno _ _ => hno rfl, fun hno _ => hno rfl hun⟩
          · rw [keyPressEvent_other hun, hgrab]
            exact iff_of_true nofun fun _ hun' => absurd hun' hun
  | keyRelease key modifiers =>
      refine iff_of_true ?_ trivial
      dsimp only [InputSession.handle]
      cases hgrab : s.widget.grab with
      | false =>
          rw [keyReleaseEvent_free hgrab]
          exact h
      | true =>
          rw [RenderInput.keyReleaseEvent, if_pos hgrab]
          exact fun hg => absurd (hgrab.symm.trans hg) (Bool.false_ne_true ∘ Eq.symm)
  | mousePress button x y =>
      refine iff_of_true ?_ trivial
      obtain ⟨hgrab, hpressed⟩ := @mousePressEvent_pressed s.pressed s.widget buttons x y
      dsimp only [InputSession.handle]
      rw [hgrab, NoModifiers.congr hpressed]
      exact h
  | mouseRelease button x y => exact absurd rfl (ha button x y)
  | mouseMove contains due x y =>
      refine iff_of_true ?_ trivial
      dsimp only [InputSession.handle]
      rw [mouseMoveEvent_pressed]
      exact fun hg => h (grab_of_uiGrab hg)
  | enter contains => exact iff_of_true (fun hg => h (grab_of_uiGrab hg)) trivial
  | leave =>
      dsimp only [InputSession.handle, InputHistory.Careful]
      rw [uiReleaseGrab_eq, ht.grab, ht.down]
      constructor
      · exact fun hno _ => hno rfl
      · intro hno _
        cases hgrab : s.widget.grab with
        | false => exact h hgrab
        | true => exact hno hgrab
  | focusIn contains => exact iff_of_true (fun hg => h (grab_of_uiGrab hg)) trivial
  | focusOut =>
      dsimp only [InputSession.handle, InputHistory.Careful]
      rw [ht.grab, ht.down, ht.modifiers]
      cases hgrab : s.widget.grab with
      | false =>
          rw [focusOut_free hgrab]
          exact iff_of_true h fun hg => absurd hg Bool.false_ne_true
      | true =>
          rw [focusOut_grab, focusOut_pressed hgrab]
          split
          next hnone =>
            constructor
            · intro hno _
              obtain ⟨hshift, hcontrol, halt⟩ := hno rfl
              exact ⟨hshift, halt, fun hc => absurd (hcontrol.symm.trans hc) Bool.false_ne_true⟩
            · intro hno _
              obtain ⟨hshift, halt, hcontrol⟩ := hno rfl
              exact ⟨hshift, Bool.eq_false_iff.mpr fun hc => hcontrol hc hnone, halt⟩
          next hsome =>
            rw [noModifiers_release]
            exact ⟨fun hno _ => ⟨(hno rfl).1, (hno rfl).2, fun _ => hsome⟩,
              fun hno _ => ⟨(hno rfl).1, (hno rfl).2.1⟩⟩
  | streamSize width height => exact iff_of_true h trivial

theorem sent_not_mouseUp {a : WidgetEvent} {buttons : List MouseButton}
    (ha : ∀ b x y, a ≠ .mouseRelease b x y) :
    ∀ e ∈ (InputSession.handle w buttons a).2, e.type ≠ .mouseUp := by
  cases a with
  | keyPress key modifiers => exact keys_not_mouseUp (keyPressEvent_sendsKeys key modifiers).keys
  | keyRelease key modifiers =>
      exact keys_not_mouseUp (keyReleaseEvent_sendsKeys key modifiers).keys
  | mousePress button x y =>
      intro e he
      dsimp only [InputSession.handle] at he
      by_cases h0 : w.mouseKey = 0
      · obtain ⟨key, -, ⟨-, hsent⟩ | ⟨-, hsent⟩⟩ := @mousePressEvent_of_up w buttons x y h0
        · rw [hsent] at he
          cases he
        · rw [hsent] at he
          cases List.mem_singleton.mp he
          exact nofun
      · rw [mousePressEvent_of_held h0] at he
        cases he
  | mouseRelease button x y => exact absurd rfl (ha button x y)
  | mouseMove contains due x y =>
      intro e he
      dsimp only [InputSession.handle, RenderInput.mouseMoveEvent] at he
      split at he
      next =>
        cases List.mem_singleton.mp he
        exact nofun
      next => cases he
  | enter contains => exact nofun
  | leave => exact nofun
  | focusIn contains => exact nofun
  | focusOut => exact keys_not_mouseUp focusOut_sendsKeys.keys
  | streamSize width height => exact nofun

theorem leavesReleased_step {a : WidgetEvent} (h : SessionInv s) (hstep : s.step a = some s') :
    LeavesReleased s a s' ↔ CarefulEvent s a := by
  have hbuttons := buttonsInv_step h.tracks h.buttons hstep
  have hup : s'.buttons = [] → ∀ button, s'.pressed.button button = false := by
    intro hnone
    exact hbuttons.released (by_contra fun h0 => hbuttons.held h0 hnone)
  by_cases ha : ∃ b x y, a = .mouseRelease b x y
  · obtain ⟨b, x, y, rfl⟩ := ha
    obtain ⟨buttons, -, rfl⟩ := step_eq hstep
    constructor
    · exact fun hl => (h.buttons.pressed_iff h.tracks).mp (hl.mouseUp _ (List.mem_singleton_self _) rfl)
    · intro hok
      refine ⟨fun hg => (NoModifiers.congr Pressed.push_button_key).mpr (h.modifiers hg), ?_, hup⟩
      intro e he _
      cases List.mem_singleton.mp he
      exact (h.buttons.pressed_iff h.tracks).mpr hok
  · push Not at ha
    rw [← modifiers_iff h.tracks h.modifiers hstep ha]
    exact ⟨fun hl => hl.modifiers, fun hm =>
      ⟨hm, fun e he hup => absurd hup (sent_not_mouseUp ha e he), hup⟩⟩

theorem sessionInv_run (h : widgetMachine.Run CarefulEvent s) : SessionInv s := by
  induction h with
  | start hs =>
      cases hs
      exact ⟨⟨rfl, rfl, rfl, iff_of_false Bool.false_ne_true fun h => h rfl, rfl, rfl⟩,
        ⟨nofun, nofun, fun h => absurd rfl h⟩, fun _ => ⟨rfl, rfl, rfl⟩⟩
  | next _ hok hstep ih =>
      exact ⟨tracks_step ih.tracks hstep, buttonsInv_step ih.tracks ih.buttons hstep,
        ((leavesReleased_step ih hstep).mpr hok).modifiers⟩

end

/-- In a run of careful events the next one leaves nothing pressed just when it is careful too. -/
theorem leavesReleased_iff (s s' : InputSession) (a : WidgetEvent)
    (h : widgetMachine.Run CarefulEvent s) (hstep : s.step a = some s') :
    LeavesReleased s a s' ↔ CarefulEvent s a :=
  leavesReleased_step (sessionInv_run h) hstep

instance (s : InputSession) (a : WidgetEvent) : Decidable (CarefulEvent s a) :=
  match a with
  | .keyPress _ _ => inferInstanceAs (Decidable (_ → _ → _ ∧ _))
  | .leave => inferInstanceAs (Decidable (_ → _ ∧ _ ∧ _))
  | .focusOut => inferInstanceAs (Decidable (_ → _ ∧ _ ∧ (_ → _)))
  | .mouseRelease _ _ _ => inferInstanceAs (Decidable (_ = _))
  | .keyRelease _ _ | .mousePress _ _ _ | .mouseMove _ _ _ _ | .enter _ | .focusIn _
  | .streamSize _ _ => inferInstanceAs (Decidable True)

/-- Shift and a letter while two buttons go down, the first of them in the stream. -/
def typedAndClicked : List WidgetEvent :=
  [.streamSize 640 480, .enter true, .keyPress Key_Shift ⟨true, false, false⟩,
    .mousePress .right 10 20, .keyPress Key_G ⟨true, false, false⟩,
    .keyRelease Key_G ⟨true, false, false⟩, .mousePress .left 11 20,
    .keyRelease Key_Shift ⟨false, false, false⟩]

/-- The widget is left with both buttons down, and then the first of them goes up. -/
theorem leavesReleased_shift : ∃ s s' s'', widgetMachine.Run CarefulEvent s ∧
    s.step .leave = some s' ∧ s'.step (.mouseRelease .right 10 20) = some s'' ∧
    s.widget.grab = true ∧ s'.pressed.button 3 = true ∧ LeavesReleased s .leave s' ∧
    LeavesReleased s' (.mouseRelease .right 10 20) s'' := by
  have hrun : ((widgetMachine.guarded CarefulEvent).exec .start typedAndClicked).map
      (fun s => (s.buttons, s.history.button, [s.widget.grab, s.pressed.button 3],
        [XK_Shift_L, XK_Control_L, XK_Alt_L].map s.history.down)) =
      some ([.right, .left], some true, [true, true], [false, false, false]) := by
    decide +kernel
  obtain ⟨s, hs, hview⟩ := Option.map_eq_some_iff.mp hrun
  simp only [Prod.mk.injEq, List.map_cons, List.cons.injEq] at hview
  obtain ⟨hbuttons, hbutton, ⟨hgrab, hright, -⟩, hshift, hcontrol, halt, -⟩ := hview
  have hreach : widgetMachine.Run CarefulEvent s := Machine.run_of_exec hs rfl
  have hleave : CarefulEvent s .leave := fun _ => ⟨hshift, hcontrol, halt⟩
  obtain ⟨s', hs', hbuttons', hbutton', hpressed'⟩ : ∃ s', s.step .leave = some s' ∧
      s'.buttons = s.buttons ∧ s'.history.button = s.history.button ∧ s'.pressed = s.pressed :=
    ⟨_, rfl, rfl, rfl, rfl⟩
  have hafter : s'.buttonsAfter (.mouseRelease .right 10 20) = some [.left] := by
    rw [InputSession.buttonsAfter, hbuttons', hbuttons]
    rfl
  obtain ⟨s'', hs''⟩ : ∃ s'', s'.step (.mouseRelease .right 10 20) = some s'' :=
    ⟨_, congrArg (Option.map _) hafter⟩
  refine ⟨s, s', s'', hreach, hs', hs'', hgrab, ?_, (leavesReleased_iff s s' _ hreach hs').mpr hleave,
    (leavesReleased_iff s' s'' _ (hreach.next hleave hs') hs'').mpr (hbutton'.trans hbutton)⟩
  rw [hpressed']
  exact hright

def afterEvents (events : List WidgetEvent) : Option InputSession :=
  widgetMachine.exec .start events

/-- Shift stays pressed when the pointer leaves the widget, Alt after Ctrl+Alt+G, and a button
that was pressed beside the stream is released. -/
theorem not_leavesReleased :
    (∃ s s', afterEvents [.enter true, .keyPress Key_Shift ⟨true, false, false⟩] = some s ∧
      s.step .leave = some s' ∧ s'.pressed.key XK_Shift_L = true ∧
      ¬LeavesReleased s .leave s') ∧
    (∃ s s', afterEvents [.enter true, .keyPress Key_Control ⟨false, true, false⟩,
        .keyPress Key_Alt ⟨false, true, true⟩] = some s ∧
      s.step (.keyPress Key_G ⟨false, true, true⟩) = some s' ∧
      s'.pressed.key XK_Alt_L = true ∧
      ¬LeavesReleased s (.keyPress Key_G ⟨false, true, true⟩) s') ∧
    ∃ s s', afterEvents [.streamSize 640 480, .mousePress .left (-1) 0] = some s ∧
      s.step (.mouseRelease .left (-1) 0) = some s' ∧ s.pressed.button 1 = false ∧
      ¬LeavesReleased s (.mouseRelease .left (-1) 0) s' := by
  refine ⟨⟨_, _, rfl, rfl, rfl, ?_⟩, ⟨_, _, rfl, rfl, rfl, ?_⟩, ⟨_, _, rfl, rfl, rfl, ?_⟩⟩
  · intro h
    exact absurd (h.modifiers rfl).1 (by decide)
  · intro h
    exact absurd (h.modifiers rfl).2.2 (by decide)
  · intro h
    exact absurd (h.mouseUp _ (List.mem_singleton_self _) rfl) (by decide)

end Hprd.Clients
