import Hprd.Server.Settings

/-!
# The pace of `xcb_main_loop`

A frame is one iteration of the loop with the readings of the clock it makes; they are
arbitrary. Nothing between `on_request` and the loop keeps a frame
rate of 0 out, and the measurement of every hundred and first frame divides by the
low half of a difference of two readings.
-/

namespace Hprd.Server

open Hprd.Core

def divUInt32 (a b : UInt32) : Option UInt32 := if b = 0 then none else some (a / b)

/-- `frameRate` is the global of the server and `times` the static counter of the loop; the rest
belongs to the capture object and to the call of `xcb_main_loop`. -/
structure Pacing where
  frameRate : UInt32
  times : UInt32
  quit : Bool
  rate : UInt32
  timePerfStart : UInt64
  fps : UInt32

/-- What `get_time_us` returns in an iteration: before and after `on_frame`, and twice for the
measurement. -/
structure Readings where
  timeStart : UInt64
  timeEnd : UInt64
  perfEnd : UInt64
  perfStart : UInt64

def framePeriod (rate : UInt32) : Option UInt32 := divUInt32 1000000 rate

def framePause (period : UInt32) (timeSub : UInt64) : Option UInt32 :=
  if timeSub < period.toUInt64 then some (period.toUInt64 - timeSub).toUInt32 else none

/-- The count of the frames and the measurement of every hundred and first. -/
def measureFps (s : Pacing) (r : Readings) : Option Pacing :=
  let times := s.times + 1
  if 100 < times then
    let timeSum := (r.perfEnd - s.timePerfStart).toUInt32
    (divUInt32 (1000000 * times) timeSum).map fun fps =>
      { s with fps := fps, times := 0, timePerfStart := r.perfStart }
  else some { s with times := times }

/-- An iteration of the loop, with what it passes to `usleep`; a division by zero has no result. -/
def frameStep (s : Pacing) (r : Readings) : Option (Option UInt32 × Pacing) :=
  (framePeriod s.rate).bind fun period =>
    (measureFps s r).map fun t => (framePause period (r.timeEnd - r.timeStart), t)

/-- A `SET_FRAME_RATE`, another request that quits the capture, `server_start` up to the loop with
the reading made there, and an iteration. -/
inductive PacingAction where
  | setFrameRate (value : UInt32)
  | otherQuit
  | start (reading : UInt64)
  | frame (r : Readings)

def pacingStep (s : Pacing) : PacingAction → Option Pacing
  | .setFrameRate value => some { s with frameRate := value, quit := true }
  | .otherQuit => some { s with quit := true }
  | .start reading =>
      if s.quit then
        some { s with
          quit := false, rate := xextFrameRate s.frameRate, timePerfStart := reading, fps := 0 }
      else none
  | .frame r => if s.quit then none else (frameStep s r).map Prod.snd

def Pacing.initial : Pacing where
  frameRate := 58
  times := 0
  quit := true
  rate := 33
  timePerfStart := 0
  fps := 0

def pacingMachine : Machine Pacing PacingAction where
  init s := s = .initial
  step := pacingStep

/-- The iteration does not trap, and sleeps for no longer than the period of a frame. -/
structure NoTrap (s : Pacing) (r : Readings) : Prop where
  divides : (frameStep s r).isSome
  sleeps : ∀ n t, frameStep s r = some (some n, t) → n.toNat ≤ 1000000 / s.rate.toNat

/-- The rate is not 0, and the hundred and first frame does not end where it is measured to have
taken no time. -/
def Paceable (s : Pacing) (r : Readings) : Prop :=
  s.rate ≠ 0 ∧ (s.times = 100 → (r.perfEnd - s.timePerfStart).toUInt32 ≠ 0)

/-! ## The counter -/

structure PacingInv (s : Pacing) : Prop where
  times : s.times.toNat ≤ 100
  rate : s.rate.toNat ≤ 240

theorem xextFrameRate_le (frameRate : UInt32) : (xextFrameRate frameRate).toNat ≤ 240 := by
  unfold xextFrameRate
  split
  next => exact Nat.le_refl 240
  next h => exact Nat.le_of_not_lt h

theorem divUInt32_isSome {a b : UInt32} : (divUInt32 a b).isSome ↔ b ≠ 0 := by
  unfold divUInt32
  split
  next h => exact iff_of_false Bool.false_ne_true (not_not.mpr h)
  next h => exact iff_of_true rfl h

section

variable {s s' : Pacing} {r : Readings}

theorem times_succ (h : s.times.toNat ≤ 100) : (s.times + 1).toNat = s.times.toNat + 1 := by
  rw [UInt32.toNat_add]
  exact Nat.mod_eq_of_lt (show s.times.toNat + 1 < 2 ^ 32 by omega)

theorem measured_iff (h : s.times.toNat ≤ 100) : 100 < s.times + 1 ↔ s.times = 100 := by
  rw [UInt32.lt_iff_toNat_lt, times_succ h, ← UInt32.toNat_inj]
  show 100 < s.times.toNat + 1 ↔ s.times.toNat = 100
  omega

theorem pacingInv_measure (h : PacingInv s) (hm : measureFps s r = some s') : PacingInv s' := by
  unfold measureFps at hm
  dsimp only at hm
  split at hm
  next =>
    obtain ⟨fps, -, rfl⟩ := Option.map_eq_some_iff.mp hm
    exact ⟨Nat.zero_le _, h.rate⟩
  next hless =>
    cases hm
    have hle : (s.times + 1).toNat ≤ 100 := Nat.le_of_not_lt hless
    exact ⟨hle, h.rate⟩

theorem pacingInv_step {a : PacingAction} (h : PacingInv s) (hstep : pacingStep s a = some s') :
    PacingInv s' := by
  cases a with
  | setFrameRate value =>
      cases hstep
      exact ⟨h.times, h.rate⟩
  | otherQuit =>
      cases hstep
      exact ⟨h.times, h.rate⟩
  | start reading =>
      obtain ⟨-, hs⟩ := Option.ite_none_right_eq_some.mp hstep
      cases hs
      exact ⟨h.times, xextFrameRate_le _⟩
  | frame r =>
      obtain ⟨-, hs⟩ := Option.ite_none_left_eq_some.mp hstep
      obtain ⟨⟨slept, t⟩, ht, rfl⟩ := Option.map_eq_some_iff.mp hs
      obtain ⟨period, -, hm⟩ := Option.bind_eq_some_iff.mp ht
      obtain ⟨t', ht', he⟩ := Option.map_eq_some_iff.mp hm
      cases he
      exact pacingInv_measure h ht'

theorem pacingInv_reachable (h : pacingMachine.Reachable s) : PacingInv s := by
  induction h with
  | start hs =>
      cases hs
      exact ⟨Nat.zero_le _, by decide⟩
  | next _ _ hstep ih => exact pacingInv_step ih hstep

/-! ## One iteration -/

theorem framePause_le {period n : UInt32} {timeSub : UInt64}
    (h : framePause period timeSub = some n) : n.toNat ≤ period.toNat := by
  obtain ⟨hlt, hn⟩ := Option.ite_none_right_eq_some.mp h
  cases hn
  have hperiod : period.toUInt64.toNat = period.toNat := UInt32.toNat_toUInt64 period
  have hsub : (period.toUInt64 - timeSub).toNat = period.toNat - timeSub.toNat := by
    rw [UInt64.toNat_sub_of_le _ _ (UInt64.le_of_lt hlt), hperiod]
  rw [UInt64.toNat_toUInt32, hsub]
  exact le_trans (Nat.mod_le ..) (Nat.sub_le ..)

theorem measureFps_isSome (h : s.times.toNat ≤ 100) : (measureFps s r).isSome ↔
    (s.times = 100 → (r.perfEnd - s.timePerfStart).toUInt32 ≠ 0) := by
  unfold measureFps
  dsimp only
  split
  next hm =>
    rw [Option.isSome_map, divUInt32_isSome]
    exact ⟨fun hne _ => hne, fun himp => himp ((measured_iff h).mp hm)⟩
  next hm => exact iff_of_true rfl fun ht => absurd ((measured_iff h).mpr ht) hm

theorem frameStep_isSome (h : s.times.toNat ≤ 100) : (frameStep s r).isSome ↔ Paceable s r := by
  rw [Paceable, ← measureFps_isSome h, ← @divUInt32_isSome 1000000, frameStep, framePeriod]
  cases divUInt32 1000000 s.rate with
  | none => exact iff_of_false Bool.false_ne_true fun h => Bool.false_ne_true h.1
  | some period =>
      rw [Option.bind_some, Option.isSome_map]
      exact ⟨fun hm => ⟨rfl, hm⟩, fun hm => hm.2⟩

theorem frameStep_sleeps {n : UInt32} {t : Pacing} (h : frameStep s r = some (some n, t)) :
    n.toNat ≤ 1000000 / s.rate.toNat := by
  obtain ⟨period, hp, hm⟩ := Option.bind_eq_some_iff.mp h
  obtain ⟨t', -, he⟩ := Option.map_eq_some_iff.mp hm
  have hpause := framePause_le (Prod.mk.inj he).1
  obtain ⟨-, hperiod⟩ := Option.ite_none_left_eq_some.mp hp
  cases hperiod
  rwa [UInt32.toNat_div] at hpause

theorem noTrap_iff (h : pacingMachine.Reachable s) : NoTrap s r ↔ Paceable s r := by
  rw [← frameStep_isSome (pacingInv_reachable h).times]
  exact ⟨fun hn => hn.divides, fun hs => ⟨hs, fun n t => frameStep_sleeps⟩⟩

end

/-- Forty frames, a request for a rate above the greatest one, the restart, and sixty frames. -/
def restartedRun : List PacingAction :=
  .start 0 :: List.replicate 40 (.frame ⟨0, 2000, 0, 0⟩) ++
    .setFrameRate 300 :: .start 800000 :: List.replicate 60 (.frame ⟨0, 2000, 0, 0⟩)

/-- The hundred and first frame measures the rate since the restart, and sleeps for the rest of its
period. -/
theorem noTrap_restarted : ∃ s, pacingMachine.exec .initial restartedRun = some s ∧
    s.times = 100 ∧ s.rate = 240 ∧
    (frameStep s ⟨1050000, 1052000, 1052010, 1052020⟩).map Prod.fst = some (some 2166) ∧
    NoTrap s ⟨1050000, 1052000, 1052010, 1052020⟩ := by
  have hrun : (pacingMachine.exec .initial restartedRun).map (fun s =>
      ((s.times, s.rate, s.timePerfStart),
        (frameStep s ⟨1050000, 1052000, 1052010, 1052020⟩).map Prod.fst)) =
      some ((100, 240, 800000), some (some 2166)) := by decide +kernel
  obtain ⟨s, hs, hview⟩ := Option.map_eq_some_iff.mp hrun
  simp only [Prod.mk.injEq] at hview
  obtain ⟨⟨htimes, hrate, hstart⟩, hpause⟩ := hview
  refine ⟨s, hs, htimes, hrate, hpause, (noTrap_iff (.exec (.start rfl) hs)).mpr ⟨?_, fun _ => ?_⟩⟩
  · rw [hrate]
    decide
  · rw [hstart]
    decide

/-- The labels of a run that stands at its hundred and first frame with the clock still. -/
def stillRun : List PacingAction := .start 0 :: List.replicate 100 (.frame ⟨0, 0, 0, 0⟩)

/-- A requested frame rate of 0 divides the next frame by it, and a clock that stands still makes
the hundred and first frame divide by 0. -/
theorem frame_traps :
    (∃ s, pacingMachine.exec .initial [.setFrameRate 0, .start 0] = some s ∧ s.quit = false ∧
      ∀ r, ¬NoTrap s r) ∧
    ∃ s, pacingMachine.exec .initial stillRun = some s ∧ s.quit = false ∧
      ¬NoTrap s ⟨0, 0, 0, 0⟩ := by
  constructor
  · refine ⟨_, rfl, rfl, ?_⟩
    intro r h
    exact absurd h.divides Bool.false_ne_true
  · have hrun : (pacingMachine.exec .initial stillRun).map
        (fun s => (s.quit, (frameStep s ⟨0, 0, 0, 0⟩).isSome)) = some (false, false) := by
      decide +kernel
    obtain ⟨s, hs, he⟩ := Option.map_eq_some_iff.mp hrun
    obtain ⟨hquit, hnone⟩ := Prod.mk.inj he
    refine ⟨s, hs, hquit, ?_⟩
    intro h
    rw [h.divides] at hnone
    cases hnone

end Hprd.Server
