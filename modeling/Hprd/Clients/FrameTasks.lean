import Mathlib.Logic.Function.Basic
import Hprd.Core.Machine

/-!
# The frame tasks of `clients/pyqt/util.py`

`on_timer` walks a copy of the list of tasks from its end. Between two ticks and
inside a callback anything may add and stop tasks. A task is a dictionary whose
`params` hold the dictionary itself, so two of them that agree in the other three
entries are compared for ever, and Python raises a `RecursionError`.

The number of ticks and the log of a task are bookkeeping that no step looks at.
-/

namespace Hprd.Clients

open Hprd.Core

/-- A dictionary without its `params`. Callbacks that Python takes for equal have one number. -/
structure Task where
  _interval : Nat
  interval : Nat
  callback : Nat

/-- Where `on_timer` is: not running, before the next task of `todo`, which is the rest of the copy
from its end, inside the callback of a task, or left by an exception. -/
inductive TimerPhase where
  | idle
  | walk (todo rmList : List Nat)
  | callback (task : Nat) (todo rmList : List Nat)
  | failed
  deriving DecidableEq

/-- The ticks that had started when a task was added, the delay and interval it was added with, the
ticks it ran in, and how often it had run when it was first stopped. -/
structure TaskLog where
  added : Nat
  delay : Nat
  period : Nat
  runs : List Nat
  stopped : Option Nat

/-- `task` are the dictionaries made so far, of which there are `created`. -/
structure Scheduler where
  task : Nat → Task
  tasks : List Nat
  created : Nat
  locked : Bool
  phase : TimerPhase
  ticks : Nat
  log : Nat → TaskLog

/-! ## Removal -/

/-- `a == b` for two dictionaries; none is the `RecursionError`. -/
def taskEq (task : Nat → Task) (a b : Nat) : Option Bool :=
  if a = b then some true
  else if (task a)._interval = (task b)._interval ∧ (task a).interval = (task b).interval ∧
      (task a).callback = (task b).callback then none
  else some false

def contains (task : Nat → Task) (item : Nat) : List Nat → Option Bool
  | [] => some false
  | x :: xs => (taskEq task x item).bind fun same =>
      if same then some true else contains task item xs

def remove (task : Nat → Task) (item : Nat) : List Nat → Option (List Nat)
  | [] => none
  | x :: xs => (taskEq task x item).bind fun same =>
      if same then some xs else (remove task item xs).map (x :: ·)

def removeItem (task : Nat → Task) (tasks : List Nat) (item : Nat) : Option (List Nat) :=
  (contains task item tasks).bind fun found =>
    if found then remove task item tasks else some tasks

/-- The last loop of `on_timer`. -/
def removeAll (task : Nat → Task) : List Nat → List Nat → Option (List Nat)
  | [], tasks => some tasks
  | item :: items, tasks => (removeItem task tasks item).bind (removeAll task items)

/-! ## Steps -/

namespace Scheduler

def setTask (s : Scheduler) (t : Nat) (x : Task) : Scheduler :=
  { s with task := Function.update s.task t x }

def addTask (s : Scheduler) (delay interval callback : Nat) : Scheduler :=
  { s with
    task := Function.update s.task s.created ⟨delay, interval, callback⟩
    tasks := s.tasks ++ [s.created]
    created := s.created + 1
    log := Function.update s.log s.created ⟨s.ticks, delay, interval, [], none⟩ }

def stopTask (s : Scheduler) (t : Nat) : Scheduler :=
  { s.setTask t { s.task t with interval := 0 } with
    log := Function.update s.log t
      { s.log t with stopped := (s.log t).stopped.or (some (s.log t).runs.length) } }

/-- A tick starts with the copy of the list. -/
def startTick (s : Scheduler) : Scheduler :=
  { s with ticks := s.ticks + 1, phase := .walk s.tasks.reverse [] }

/-- A task that is due is called, the others count down. -/
def visit (s : Scheduler) (t : Nat) (todo rmList : List Nat) : Scheduler :=
  if (s.task t)._interval = 0 then
    { s with
      phase := .callback t todo rmList
      log := Function.update s.log t { s.log t with runs := (s.log t).runs ++ [s.ticks] } }
  else
    { s.setTask t { s.task t with _interval := (s.task t)._interval - 1 } with
      phase := .walk todo rmList }

def return' (s : Scheduler) (t : Nat) (todo rmList : List Nat) : Scheduler :=
  if (s.task t).interval = 0 then { s with phase := .walk todo (rmList ++ [t]) }
  else
    { s.setTask t { s.task t with _interval := (s.task t).interval - 1 } with
      phase := .walk todo rmList }

def finish (s : Scheduler) (rmList : List Nat) : Scheduler :=
  match removeAll s.task rmList.reverse s.tasks with
  | some tasks => { s with tasks := tasks, phase := .idle }
  | none => { s with locked := true, phase := .failed }

/-- Whether other code than `on_timer` runs. -/
def AtLarge (s : Scheduler) : Prop :=
  match s.phase with
  | .idle | .callback _ _ _ => True
  | .walk _ _ | .failed => False

instance (s : Scheduler) : Decidable s.AtLarge := by
  unfold AtLarge
  cases s.phase <;> infer_instance

end Scheduler

inductive TaskAction where
  | add (delay interval callback : Nat)
  | stop (t : Nat)
  | tick
  | visit
  | return'
  | finish

def taskStep (s : Scheduler) : TaskAction → Option Scheduler
  | .add delay interval callback =>
      if s.AtLarge ∧ s.locked = false then some (s.addTask delay interval callback) else none
  | .stop t => if s.AtLarge ∧ t < s.created then some (s.stopTask t) else none
  | .tick => if s.phase = .idle ∧ s.locked = false then some s.startTick else none
  | .visit =>
      match s.phase with
      | .walk (t :: todo) rmList => some (s.visit t todo rmList)
      | _ => none
  | .return' =>
      match s.phase with
      | .callback t todo rmList => some (s.return' t todo rmList)
      | _ => none
  | .finish =>
      match s.phase with
      | .walk [] rmList => if s.locked then none else some (s.finish rmList)
      | _ => none

def Scheduler.empty : Scheduler where
  task _ := ⟨0, 0, 0⟩
  tasks := []
  created := 0
  locked := false
  phase := .idle
  ticks := 0
  log _ := ⟨0, 0, 0, [], none⟩

def taskMachine : Machine Scheduler TaskAction where
  init s := s = .empty
  step := taskStep

/-! ## The removal of what has finished -/

/-- Neither is the other, and Python cannot tell them apart. -/
def Twins (task : Nat → Task) (a b : Nat) : Prop :=
  (task a)._interval = (task b)._interval ∧ (task a).interval = (task b).interval ∧
    (task a).callback = (task b).callback

instance (task : Nat → Task) (a b : Nat) : Decidable (Twins task a b) :=
  inferInstanceAs (Decidable (_ ∧ _ ∧ _))

section

variable {task : Nat → Task}

theorem taskEq_self (a : Nat) : taskEq task a a = some true := if_pos rfl

theorem taskEq_of_ne {a b : Nat} (hne : a ≠ b) (h : ¬Twins task a b) :
    taskEq task a b = some false := by
  rw [taskEq, if_neg hne]
  exact if_neg h

theorem contains_append {item : Nat} {before : List Nat}
    (h : ∀ x ∈ before, x ≠ item ∧ ¬Twins task x item) (after : List Nat) :
    contains task item (before ++ item :: after) = some true := by
  induction before with
  | nil =>
      rw [List.nil_append, contains, taskEq_self]
      rfl
  | cons x before ih =>
      obtain ⟨hne, htwin⟩ := h x (List.mem_cons_self ..)
      rw [List.cons_append, contains, taskEq_of_ne hne htwin]
      exact ih fun y hy => h y (List.mem_cons_of_mem _ hy)

theorem remove_append {item : Nat} {before : List Nat}
    (h : ∀ x ∈ before, x ≠ item ∧ ¬Twins task x item) (after : List Nat) :
    remove task item (before ++ item :: after) = some (before ++ after) := by
  induction before with
  | nil =>
      rw [List.nil_append, remove, taskEq_self]
      rfl
  | cons x before ih =>
      obtain ⟨hne, htwin⟩ := h x (List.mem_cons_self ..)
      have hrest := ih fun y hy => h y (List.mem_cons_of_mem _ hy)
      rw [List.cons_append, remove, taskEq_of_ne hne htwin, Option.bind_some,
        if_neg Bool.false_ne_true, hrest]
      rfl

theorem removeItem_append {item : Nat} {before : List Nat}
    (h : ∀ x ∈ before, x ≠ item ∧ ¬Twins task x item) (after : List Nat) :
    removeItem task (before ++ item :: after) item = some (before ++ after) := by
  rw [removeItem, contains_append h, Option.bind_some, if_pos rfl, remove_append h]

/-- No unfinished task that stands before a finished one is its twin. -/
def NoTwins (task : Nat → Task) (items tasks : List Nat) : Prop :=
  tasks.Pairwise fun x item => item ∈ items → x ∉ items → ¬Twins task x item

instance (task : Nat → Task) (items tasks : List Nat) : Decidable (NoTwins task items tasks) :=
  inferInstanceAs (Decidable (List.Pairwise _ _))

theorem cons_sublist_split {item : Nat} {items tasks : List Nat} (h : (item :: items).Sublist tasks) :
    ∃ before after, tasks = before ++ item :: after ∧ items.Sublist after := by
  obtain ⟨front, rest, rfl, hmem, hrest⟩ := List.cons_sublist_iff.mp h
  obtain ⟨before, between, rfl⟩ := List.append_of_mem hmem
  refine ⟨before, between ++ rest, ?_, hrest.trans (List.sublist_append_right ..)⟩
  rw [List.append_assoc, List.cons_append]

/-- The items, in the order of the list, are what the loop removes. -/
theorem removeAll_sublist {items tasks : List Nat} (hsub : items.Sublist tasks)
    (hnd : tasks.Nodup) (h : NoTwins task items tasks) :
    removeAll task items tasks = some (tasks.filter fun x => x ∉ items) := by
  induction items generalizing tasks with
  | nil => simp [removeAll]
  | cons item items ih =>
      obtain ⟨before, after, rfl, hitems⟩ := cons_sublist_split hsub
      have hnot : item ∉ before ++ after := (List.nodup_middle.mp hnd).notMem
      have hnd' : (before ++ after).Nodup := (List.nodup_middle.mp hnd).of_cons
      have hshorter : (before ++ after).Sublist (before ++ item :: after) :=
        (List.sublist_cons_self item after).append_left before
      have hbefore : ∀ x ∈ before, x ≠ item ∧ ¬Twins task x item := by
        intro x hx
        have hne : x ≠ item := fun he => hnot (List.mem_append_left _ (he ▸ hx))
        have hother : x ∉ items := fun hx' =>
          (List.disjoint_of_nodup_append hnd') hx (hitems.subset hx')
        refine ⟨hne, (List.pairwise_append.mp h).2.2 x hx item (List.mem_cons_self ..)
          (List.mem_cons_self ..) ?_⟩
        rw [List.mem_cons]
        exact not_or.mpr ⟨hne, hother⟩
      have hrest : NoTwins task items (before ++ after) := by
        refine (List.Pairwise.sublist hshorter h).imp_of_mem ?_
        intro x y hx hy hxy hyi hxi
        refine hxy (List.mem_cons_of_mem _ hyi) ?_
        rw [List.mem_cons]
        exact not_or.mpr ⟨fun he => hnot (he ▸ hx), hxi⟩
      have hkept : (before ++ item :: after).filter (fun x => x ∉ item :: items) =
          (before ++ after).filter fun x => x ∉ items := by
        have hsame : ∀ x ∈ before ++ after, decide (x ∉ item :: items) = decide (x ∉ items) := by
          intro x hx
          have hne : x ≠ item := fun he => hnot (he ▸ hx)
          simp [hne]
        rw [List.filter_append, List.filter_cons_of_neg (by simp), ← List.filter_append]
        exact List.filter_congr hsame
      rw [removeAll, removeItem_append hbefore, Option.bind_some,
        ih (hitems.trans (List.sublist_append_right ..)) hnd' hrest, hkept]

end

end Hprd.Clients
