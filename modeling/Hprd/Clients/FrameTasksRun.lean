import Hprd.Clients.FrameTasks

/-!
# The timetable of the frame tasks

A task that waits to be visited in the running tick runs next in `_interval` ticks,
any other in `_interval + 1`. A task is stopped for good by its own callback only; one
that is stopped by other code runs once more.
-/

namespace Hprd.Clients

open Hprd.Core

/-- The tick of the run `j` of a task that is never stopped. -/
def TaskLog.scheduled (l : TaskLog) (j : Nat) : Nat := l.added + l.delay + 1 + j * l.period

/-- A task that ran as often as it should. -/
def TaskLog.Finished (l : TaskLog) : Prop := l.period = 0 ∧ l.runs ≠ [] ∨ l.stopped ≠ none

structure OnTimetable (s : Scheduler) : Prop where
  runs : ∀ t, t < s.created →
    (s.log t).runs = (List.range (s.log t).runs.length).map (s.log t).scheduled
  once : ∀ t, t < s.created → (s.log t).period = 0 → (s.log t).runs.length ≤ 1
  complete : s.phase = .idle → ∀ t, t < s.created → (s.log t).stopped = none →
    ∀ j, ((s.log t).period = 0 → j = 0) → (s.log t).scheduled j ≤ s.ticks →
      (s.log t).scheduled j ∈ (s.log t).runs
  stopped : ∀ t n, t < s.created → (s.log t).stopped = some n → (s.log t).runs.length = n
  removed : s.phase = .idle → s.tasks.Nodup ∧
    ∀ t, t ∈ s.tasks ↔ t < s.created ∧ ¬(s.log t).Finished
  unlocked : s.locked = false ∧ s.phase ≠ .failed

namespace TimerPhase

def todo : TimerPhase → List Nat
  | .walk todo _ | .callback _ todo _ => todo
  | _ => []

def rmList : TimerPhase → List Nat
  | .walk _ rmList | .callback _ _ rmList => rmList
  | _ => []

def running : TimerPhase → Option Nat
  | .callback t _ _ => some t
  | _ => none

end TimerPhase

/-- A task is stopped by its own callback or when it has finished, and no task that has finished
in a tick stands behind an unfinished twin. -/
def Orderly (s : Scheduler) : TaskAction → Prop
  | .stop t => s.phase.running = some t ∨ (s.log t).Finished
  | .finish => NoTwins s.task s.phase.rmList s.tasks
  | _ => True

instance (l : TaskLog) : Decidable l.Finished :=
  inferInstanceAs (Decidable (_ ∧ _ ∨ _))

instance (s : Scheduler) (a : TaskAction) : Decidable (Orderly s a) := by
  cases a <;> unfold Orderly <;> infer_instance

/-! ## The invariant -/

/-- A task that will run in `_interval + shift` ticks. -/
structure Waiting (x : Task) (l : TaskLog) (ticks shift : Nat) : Prop where
  stopped : l.stopped = none
  interval : x.interval = l.period
  once : l.period = 0 → l.runs = []
  next : l.scheduled l.runs.length = ticks + x._interval + shift

structure Called (x : Task) (l : TaskLog) (ticks : Nat) : Prop where
  due : x._interval = 0
  run : ∃ n, l.runs.length = n + 1 ∧ l.scheduled n = ticks ∧ (l.period = 0 → n = 0)
  stopped : l.stopped = none ∧ x.interval = l.period ∨
    l.stopped = some l.runs.length ∧ x.interval = 0

def Ended (l : TaskLog) : Prop :=
  l.period = 0 ∧ l.runs.length = 1 ∧ l.stopped = none ∨
    l.stopped = some l.runs.length ∧ (l.period = 0 → l.runs.length ≤ 1)

structure TasksInv (s : Scheduler) : Prop where
  unlocked : s.locked = false ∧ s.phase ≠ .failed
  order : ∃ seen, s.tasks = s.phase.todo.reverse ++ (s.phase.running.toList ++ seen) ∧
    s.phase.rmList.reverse.Sublist seen
  nodup : s.tasks.Nodup
  created : ∀ t ∈ s.tasks, t < s.created
  runs : ∀ t, t < s.created →
    (s.log t).runs = (List.range (s.log t).runs.length).map (s.log t).scheduled
  waiting : ∀ t ∈ s.tasks, t ∉ s.phase.rmList → s.phase.running ≠ some t →
    Waiting (s.task t) (s.log t) s.ticks (if t ∈ s.phase.todo then 0 else 1)
  called : ∀ t, s.phase.running = some t → Called (s.task t) (s.log t) s.ticks
  ended : ∀ t, t < s.created → t ∈ s.phase.rmList ∨ t ∉ s.tasks → Ended (s.log t)

theorem tasksInv_empty : TasksInv .empty where
  unlocked := ⟨rfl, nofun⟩
  order := ⟨[], rfl, List.nil_sublist _⟩
  nodup := List.nodup_nil
  created := nofun
  runs := nofun
  waiting := nofun
  called := nofun
  ended := nofun

section

variable {s s' : Scheduler} {t : Nat}

theorem Waiting.not_finished {x : Task} {l : TaskLog} {ticks shift : Nat}
    (h : Waiting x l ticks shift) : ¬l.Finished := by
  rintro (⟨h0, hruns⟩ | hstop)
  · exact hruns (h.once h0)
  · exact hstop h.stopped

theorem Ended.finished {l : TaskLog} (h : Ended l) : l.Finished := by
  rcases h with ⟨h0, hlen, -⟩ | ⟨hstop, -⟩
  · refine .inl ⟨h0, ?_⟩
    intro hnil
    rw [hnil] at hlen
    cases hlen
  · refine .inr ?_
    rw [hstop]
    exact Option.some_ne_none _

/-- A task of the list waits, is in its callback or has finished in this tick. -/
theorem TasksInv.cases (h : TasksInv s) (hfin : (s.log t).Finished) :
    s.phase.running = some t ∨ t ∈ s.phase.rmList ∨ t ∉ s.tasks := by
  by_contra hnot
  push Not at hnot
  exact (h.waiting t hnot.2.2 hnot.2.1 hnot.1).not_finished hfin

/-- What the order of the list says about its parts. -/
theorem TasksInv.parts (h : TasksInv s) :
    (∀ t ∈ s.phase.todo, t ∈ s.tasks ∧ t ∉ s.phase.rmList) ∧
      (∀ t, s.phase.running = some t → t ∈ s.tasks ∧ t ∉ s.phase.rmList ∧ t ∉ s.phase.todo) ∧
      ∀ t ∈ s.phase.rmList, t ∈ s.tasks := by
  obtain ⟨seen, htasks, hsub⟩ := h.order
  have hnd := h.nodup
  have hrm : ∀ t ∈ s.phase.rmList, t ∈ seen := fun t ht =>
    hsub.subset (List.mem_reverse.mpr ht)
  rw [htasks] at hnd ⊢
  have hdisj := List.disjoint_of_nodup_append hnd
  have hdisj' := List.disjoint_of_nodup_append (List.Nodup.of_append_right hnd)
  refine ⟨?_, ?_, ?_⟩
  · intro t ht
    have ht' := List.mem_reverse.mpr ht
    exact ⟨List.mem_append_left _ ht', fun hr =>
      hdisj ht' (List.mem_append_right _ (hrm t hr))⟩
  · intro t ht
    have hmem : t ∈ s.phase.running.toList := Option.mem_toList.mpr ht
    refine ⟨List.mem_append_right _ (List.mem_append_left _ hmem), ?_, ?_⟩
    · exact fun hr => hdisj' hmem (hrm t hr)
    · exact fun hr => hdisj (List.mem_reverse.mpr hr) (List.mem_append_left _ hmem)
  · exact fun t ht => List.mem_append_right _ (List.mem_append_right _ (hrm t ht))

/-! ## Steps -/

theorem runs_snoc {l : TaskLog} {n : Nat}
    (h : l.runs = (List.range l.runs.length).map l.scheduled)
    (hn : l.scheduled l.runs.length = n) :
    l.runs ++ [n] = (List.range (l.runs ++ [n]).length).map l.scheduled := by
  have hlen : (l.runs ++ [n]).length = l.runs.length + 1 := List.length_append
  rw [hlen, List.range_succ, List.map_append, ← h, List.map_singleton, hn]

theorem tasksInv_add (h : TasksInv s) (delay interval callback : Nat) :
    TasksInv (s.addTask delay interval callback) := by
  have hnew : ∀ t, t ≠ s.created → (s.addTask delay interval callback).task t = s.task t ∧
      (s.addTask delay interval callback).log t = s.log t := fun t ht =>
    ⟨Function.update_of_ne ht .., Function.update_of_ne ht ..⟩
  have hself : (s.addTask delay interval callback).log s.created =
      ⟨s.ticks, delay, interval, [], none⟩ := Function.update_self ..
  have hfresh : ∀ t ∈ s.tasks, t ≠ s.created := fun t ht he =>
    absurd (h.created t ht) (by rw [he]; exact Nat.lt_irrefl _)
  have hparts := h.parts
  obtain ⟨seen, htasks, hsub⟩ := h.order
  constructor
  case unlocked => exact h.unlocked
  case order =>
    refine ⟨seen ++ [s.created], ?_, hsub.trans (List.sublist_append_left ..)⟩
    show s.tasks ++ [s.created] = s.phase.todo.reverse ++ (s.phase.running.toList ++ _)
    rw [← List.append_assoc s.phase.running.toList, ← List.append_assoc, ← htasks]
  case nodup =>
    refine List.Nodup.append h.nodup (List.nodup_singleton _) ?_
    intro t ht hc
    exact hfresh t ht (List.mem_singleton.mp hc)
  case created =>
    intro t ht
    rcases List.mem_append.mp ht with ht | ht
    · exact Nat.lt_succ_of_lt (h.created t ht)
    · rw [List.mem_singleton.mp ht]
      exact Nat.lt_succ_self _
  case runs =>
    intro t ht
    rcases Nat.lt_succ_iff_lt_or_eq.mp ht with hlt | rfl
    · rw [(hnew t (Nat.ne_of_lt hlt)).2]
      exact h.runs t hlt
    · rw [hself]
      rfl
  case waiting =>
    intro t ht hrm hrun
    rcases List.mem_append.mp ht with ht | ht
    · rw [(hnew t (hfresh t ht)).1, (hnew t (hfresh t ht)).2]
      exact h.waiting t ht hrm hrun
    · cases List.mem_singleton.mp ht
      have htodo : s.created ∉ (s.addTask delay interval callback).phase.todo := fun hmem =>
        hfresh _ (hparts.1 _ hmem).1 rfl
      have htask : (s.addTask delay interval callback).task s.created =
          ⟨delay, interval, callback⟩ := Function.update_self ..
      rw [hself, htask]
      refine ⟨rfl, rfl, fun _ => rfl, ?_⟩
      show s.ticks + delay + 1 + 0 * interval = s.ticks + delay + if _ then 0 else 1
      rw [if_neg htodo, Nat.zero_mul]
  case called =>
    intro t ht
    have hne := hfresh t (hparts.2.1 t ht).1
    rw [(hnew t hne).1, (hnew t hne).2]
    exact h.called t ht
  case ended =>
    intro t ht hor
    have hne : t ≠ s.created := by
      rcases hor with hrm | hout
      · exact hfresh t (hparts.2.2 t hrm)
      · rintro rfl
        exact hout (List.mem_append_right _ (List.mem_singleton_self _))
    rw [(hnew t hne).2]
    refine h.ended t (Nat.lt_of_le_of_ne (Nat.le_of_lt_succ ht) hne) (hor.imp_right ?_)
    exact fun hout hmem => hout (List.mem_append_left _ hmem)

/-- What changes a single task leaves the others as they are. -/
structure Touches (s s' : Scheduler) (t : Nat) : Prop where
  task : ∀ u, u ≠ t → s'.task u = s.task u
  log : ∀ u, u ≠ t → s'.log u = s.log u
  tasks : s'.tasks = s.tasks
  created : s'.created = s.created
  locked : s'.locked = s.locked
  ticks : s'.ticks = s.ticks

theorem stopTask_touches (s : Scheduler) (t : Nat) : Touches s (s.stopTask t) t :=
  ⟨fun _ hu => Function.update_of_ne hu .., fun _ hu => Function.update_of_ne hu .., rfl, rfl, rfl,
    rfl⟩

theorem Called.stop {x : Task} {l : TaskLog} {ticks : Nat} (h : Called x l ticks) :
    Called { x with interval := 0 } { l with stopped := l.stopped.or (some l.runs.length) }
      ticks := by
  refine ⟨h.due, h.run, .inr ⟨?_, rfl⟩⟩
  rcases h.stopped with ⟨hs, -⟩ | ⟨hs, -⟩
  · show l.stopped.or (some l.runs.length) = _
    rw [hs, Option.none_or]
  · show l.stopped.or (some l.runs.length) = _
    rw [hs, Option.some_or]

theorem Ended.stop {l : TaskLog} (h : Ended l) :
    Ended { l with stopped := l.stopped.or (some l.runs.length) } := by
  refine .inr ?_
  rcases h with ⟨-, hlen, hs⟩ | ⟨hs, hone⟩
  · refine ⟨?_, fun _ => Nat.le_of_eq hlen⟩
    show l.stopped.or (some l.runs.length) = _
    rw [hs, Option.none_or]
  · refine ⟨?_, hone⟩
    show l.stopped.or (some l.runs.length) = _
    rw [hs, Option.some_or]

theorem tasksInv_stop (h : TasksInv s)
    (hor : s.phase.running = some t ∨ t ∈ s.phase.rmList ∨ t ∉ s.tasks) :
    TasksInv (s.stopTask t) := by
  have htouch := stopTask_touches s t
  have hself : (s.stopTask t).task t = { s.task t with interval := 0 } ∧
      (s.stopTask t).log t =
        { s.log t with stopped := (s.log t).stopped.or (some (s.log t).runs.length) } :=
    ⟨Function.update_self .., Function.update_self ..⟩
  have hparts := h.parts
  constructor
  case unlocked => exact h.unlocked
  case order => exact h.order
  case nodup => exact h.nodup
  case created => exact h.created
  case runs =>
    intro u hu
    rcases eq_or_ne u t with rfl | hne
    · rw [hself.2]
      exact h.runs u hu
    · rw [htouch.log u hne]
      exact h.runs u hu
  case waiting =>
    intro u hu hrm hrun
    have hne : u ≠ t := by
      rintro rfl
      rcases hor with hr | hr | hr
      · exact hrun hr
      · exact hrm hr
      · exact hr hu
    rw [htouch.task u hne, htouch.log u hne]
    exact h.waiting u hu hrm hrun
  case called =>
    intro u hu
    rcases eq_or_ne u t with rfl | hne
    · rw [hself.1, hself.2]
      exact (h.called u hu).stop
    · rw [htouch.task u hne, htouch.log u hne]
      exact h.called u hu
  case ended =>
    intro u hu hend
    rcases eq_or_ne u t with rfl | hne
    · rw [hself.2]
      exact (h.ended u hu hend).stop
    · rw [htouch.log u hne]
      exact h.ended u hu hend

theorem tasksInv_tick (h : TasksInv s) (hidle : s.phase = .idle) : TasksInv s.startTick := by
  have htodo : s.phase.todo = [] ∧ s.phase.rmList = [] ∧ s.phase.running = none := by
    rw [hidle]
    exact ⟨rfl, rfl, rfl⟩
  constructor
  case unlocked => exact ⟨h.unlocked.1, nofun⟩
  case order =>
    refine ⟨[], ?_, List.nil_sublist _⟩
    show s.tasks = s.tasks.reverse.reverse ++ []
    rw [List.reverse_reverse, List.append_nil]
  case nodup => exact h.nodup
  case created => exact h.created
  case runs => exact h.runs
  case waiting =>
    intro t ht hrm hrun
    have hold := h.waiting t ht (by rw [htodo.2.1]; exact List.not_mem_nil)
      (by rw [htodo.2.2]; exact nofun)
    rw [htodo.1, if_neg List.not_mem_nil] at hold
    refine ⟨hold.stopped, hold.interval, hold.once, ?_⟩
    have hmem : t ∈ s.startTick.phase.todo := List.mem_reverse.mpr ht
    rw [if_pos hmem]
    have hnext := hold.next
    show (s.log t).scheduled (s.log t).runs.length = s.ticks + 1 + (s.task t)._interval + 0
    omega
  case called => exact nofun
  case ended =>
    intro t ht hor
    refine h.ended t ht (.inr ?_)
    rcases hor with hrm | hout
    · cases hrm
    · exact hout

/-- What a step of a tick for the task `t` finds of the others. -/
structure Rest (s : Scheduler) (t : Nat) (todo rmList : List Nat) : Prop where
  order : ∃ seen, s.tasks = todo.reverse ++ (t :: seen) ∧ rmList.reverse.Sublist seen
  visited : t ∉ todo
  waiting : ∀ u ∈ s.tasks, u ≠ t → u ∉ rmList →
    Waiting (s.task u) (s.log u) s.ticks (if u ∈ todo then 0 else 1)
  ended : ∀ u, u < s.created → u ∈ rmList ∨ u ∉ s.tasks → u ≠ t ∧ Ended (s.log u)

theorem TasksInv.head (h : TasksInv s) {todo rmList : List Nat}
    (hphase : s.phase = .walk (t :: todo) rmList) :
    Waiting (s.task t) (s.log t) s.ticks 0 ∧ Rest s t todo rmList := by
  obtain ⟨seen, htasks, hsub⟩ := h.order
  have hmem : t ∈ s.phase.todo := by
    rw [hphase]
    exact List.mem_cons_self ..
  obtain ⟨hin, hrm⟩ := h.parts.1 t hmem
  have hwait := h.waiting t hin hrm (by rw [hphase]; exact nofun)
  have hnd := h.nodup
  rw [if_pos hmem] at hwait
  rw [hphase] at htasks hsub hrm
  have hlist : s.tasks = todo.reverse ++ (t :: seen) := by
    rw [htasks]
    show (t :: todo).reverse ++ ([] ++ seen) = _
    rw [List.reverse_cons, List.append_assoc]
    rfl
  rw [hlist] at hnd
  refine ⟨hwait, ?_⟩
  constructor
  case order => exact ⟨seen, hlist, hsub⟩
  case visited =>
    intro ht
    exact List.disjoint_of_nodup_append hnd (List.mem_reverse.mpr ht) (List.mem_cons_self ..)
  case waiting =>
    intro u hu hne hur
    have hold := h.waiting u hu (by rw [hphase]; exact hur) (by rw [hphase]; exact nofun)
    have htodo : u ∈ s.phase.todo ↔ u ∈ todo := by
      rw [hphase]
      exact ⟨fun hm => (List.mem_cons.mp hm).resolve_left hne, List.mem_cons_of_mem _⟩
    rwa [if_congr htodo rfl rfl] at hold
  case ended =>
    intro u hu hor
    refine ⟨?_, h.ended u hu (by rwa [hphase])⟩
    rintro rfl
    exact hor.elim hrm fun hout => hout hin

theorem TasksInv.returning (h : TasksInv s) {todo rmList : List Nat}
    (hphase : s.phase = .callback t todo rmList) :
    Called (s.task t) (s.log t) s.ticks ∧ Rest s t todo rmList := by
  have hrunning : s.phase.running = some t := by
    rw [hphase]
    rfl
  obtain ⟨hin, hrm, htodo⟩ := h.parts.2.1 t hrunning
  obtain ⟨seen, htasks, hsub⟩ := h.order
  rw [hphase] at htasks hsub hrm htodo
  refine ⟨h.called t hrunning, ?_⟩
  constructor
  case order => exact ⟨seen, htasks, hsub⟩
  case visited => exact htodo
  case waiting =>
    intro u hu hne hur
    have hrun : s.phase.running ≠ some u := by
      rw [hrunning]
      exact fun he => hne (Option.some.inj he).symm
    have hold := h.waiting u hu (by rw [hphase]; exact hur) hrun
    rwa [hphase] at hold
  case ended =>
    intro u hu hor
    refine ⟨?_, h.ended u hu (by rwa [hphase])⟩
    rintro rfl
    exact hor.elim hrm fun hout => hout hin

/-- The task gets a new countdown and the tick goes on with the next one. -/
theorem Rest.recount {todo rmList : List Nat} (hrest : Rest s t todo rmList) (h : TasksInv s)
    {n : Nat} (hwait : Waiting { s.task t with _interval := n } (s.log t) s.ticks 1) :
    TasksInv { s with
      task := Function.update s.task t { s.task t with _interval := n },
      phase := .walk todo rmList } := by
  obtain ⟨seen, hlist, hsub⟩ := hrest.order
  constructor
  case unlocked => exact ⟨h.unlocked.1, nofun⟩
  case order => exact ⟨t :: seen, hlist, hsub.trans (List.sublist_cons_self ..)⟩
  case nodup => exact h.nodup
  case created => exact h.created
  case runs => exact h.runs
  case waiting =>
    intro u hu hur hrun
    show Waiting (Function.update s.task t _ u) (s.log u) s.ticks (if u ∈ todo then 0 else 1)
    rcases eq_or_ne u t with rfl | hne
    · rw [Function.update_self, if_neg hrest.visited]
      exact hwait
    · rw [Function.update_of_ne hne]
      exact hrest.waiting u hu hne hur
  case called => exact nofun
  case ended => exact fun u hu hor => (hrest.ended u hu hor).2

theorem Waiting.call {x : Task} {l : TaskLog} {ticks : Nat} (h : Waiting x l ticks 0)
    (hdue : x._interval = 0) : Called x { l with runs := l.runs ++ [ticks] } ticks := by
  have hnext := h.next
  have hlen : (l.runs ++ [ticks]).length = l.runs.length + 1 := List.length_append
  refine ⟨hdue, ⟨l.runs.length, hlen, ?_, ?_⟩, .inl ⟨h.stopped, h.interval⟩⟩
  · show l.scheduled l.runs.length = ticks
    omega
  · intro h0
    rw [h.once h0]
    rfl

theorem Waiting.countdown {x : Task} {l : TaskLog} {ticks : Nat} (h : Waiting x l ticks 0)
    (hlater : x._interval ≠ 0) :
    Waiting { x with _interval := x._interval - 1 } l ticks 1 := by
  have hnext := h.next
  refine ⟨h.stopped, h.interval, h.once, ?_⟩
  show l.scheduled l.runs.length = ticks + (x._interval - 1) + 1
  omega

theorem Called.again {x : Task} {l : TaskLog} {ticks : Nat} (h : Called x l ticks)
    (hloop : x.interval ≠ 0) : Waiting { x with _interval := x.interval - 1 } l ticks 1 := by
  obtain ⟨n, hlen, hrun, -⟩ := h.run
  rcases h.stopped with ⟨hs, hi⟩ | ⟨-, hi⟩
  · refine ⟨hs, hi, fun h0 => absurd (hi.trans h0) hloop, ?_⟩
    have hnext : l.scheduled (n + 1) = l.scheduled n + l.period := by
      rw [TaskLog.scheduled, TaskLog.scheduled, Nat.succ_mul]
      omega
    show l.scheduled l.runs.length = ticks + (x.interval - 1) + 1
    rw [hlen, hnext, hrun, ← hi]
    omega
  · exact absurd hi hloop

theorem Called.ended {x : Task} {l : TaskLog} {ticks : Nat} (h : Called x l ticks)
    (hlast : x.interval = 0) : Ended l := by
  obtain ⟨n, hlen, -, hone⟩ := h.run
  rcases h.stopped with ⟨hs, hi⟩ | ⟨hs, -⟩
  · have h0 : l.period = 0 := hi.symm.trans hlast
    exact .inl ⟨h0, by rw [hlen, hone h0], hs⟩
  · refine .inr ⟨hs, fun h0 => ?_⟩
    rw [hlen, hone h0]

theorem tasksInv_visit (h : TasksInv s) {todo rmList : List Nat}
    (hphase : s.phase = .walk (t :: todo) rmList) : TasksInv (s.visit t todo rmList) := by
  obtain ⟨hwait, hrest⟩ := h.head hphase
  obtain ⟨seen, hlist, hsub⟩ := hrest.order
  unfold Scheduler.visit
  split
  next hdue =>
    have hlog : ∀ u, u ≠ t → Function.update s.log t { s.log t with
        runs := (s.log t).runs ++ [s.ticks] } u = s.log u := fun u hu =>
      Function.update_of_ne hu ..
    have hself : Function.update s.log t { s.log t with
        runs := (s.log t).runs ++ [s.ticks] } t = _ := Function.update_self ..
    constructor
    case unlocked => exact ⟨h.unlocked.1, nofun⟩
    case order => exact ⟨seen, hlist, hsub⟩
    case nodup => exact h.nodup
    case created => exact h.created
    case runs =>
      intro u hu
      dsimp only
      rcases eq_or_ne u t with rfl | hne
      · rw [hself]
        refine runs_snoc (h.runs u hu) ?_
        have hnext := hwait.next
        omega
      · rw [hlog u hne]
        exact h.runs u hu
    case waiting =>
      intro u hu hur hrun
      have hne : u ≠ t := fun he => hrun (congrArg some he.symm)
      dsimp only
      rw [hlog u hne]
      exact hrest.waiting u hu hne hur
    case called =>
      intro u hu
      cases Option.some.inj hu
      dsimp only
      rw [hself]
      exact hwait.call hdue
    case ended =>
      intro u hu hor
      obtain ⟨hne, hend⟩ := hrest.ended u hu hor
      dsimp only
      rw [hlog u hne]
      exact hend
  next hlater => exact hrest.recount h (hwait.countdown hlater)

theorem tasksInv_return (h : TasksInv s) {todo rmList : List Nat}
    (hphase : s.phase = .callback t todo rmList) : TasksInv (s.return' t todo rmList) := by
  obtain ⟨hcalled, hrest⟩ := h.returning hphase
  obtain ⟨seen, hlist, hsub⟩ := hrest.order
  unfold Scheduler.return'
  split
  next hlast =>
    constructor
    case unlocked => exact ⟨h.unlocked.1, nofun⟩
    case order =>
      refine ⟨t :: seen, hlist, ?_⟩
      show (rmList ++ [t]).reverse.Sublist (t :: seen)
      rw [List.reverse_append]
      exact hsub.cons_cons t
    case nodup => exact h.nodup
    case created => exact h.created
    case runs => exact h.runs
    case waiting =>
      intro u hu hur hrun
      have hur' : u ∉ rmList ++ [t] := hur
      rw [List.mem_append, List.mem_singleton, not_or] at hur'
      exact hrest.waiting u hu hur'.2 hur'.1
    case called => exact nofun
    case ended =>
      intro u hu hor
      rcases hor with hur | hout
      · rcases List.mem_append.mp hur with hur | hut
        · exact (hrest.ended u hu (.inl hur)).2
        · cases List.mem_singleton.mp hut
          exact hcalled.ended hlast
      · exact (hrest.ended u hu (.inr hout)).2
  next hloop => exact hrest.recount h (hcalled.again hloop)

/-- Without twins the loop removes what has finished in the tick, and nothing else. -/
theorem TasksInv.removal (h : TasksInv s) {rmList : List Nat} (hphase : s.phase = .walk [] rmList)
    (hno : NoTwins s.task rmList s.tasks) :
    removeAll s.task rmList.reverse s.tasks = some (s.tasks.filter fun t => t ∉ rmList) := by
  obtain ⟨seen, htasks, hsub⟩ := h.order
  rw [hphase] at htasks hsub
  have hseen : s.tasks = seen := htasks
  have hno' : NoTwins s.task rmList.reverse s.tasks := by
    refine List.Pairwise.imp ?_ hno
    intro x item hx hitem hxi
    exact hx (List.mem_reverse.mp hitem) fun hr => hxi (List.mem_reverse.mpr hr)
  rw [removeAll_sublist (by rw [hseen]; exact hsub) h.nodup hno']
  congr 1
  exact List.filter_congr fun x _ => decide_eq_decide.mpr (not_congr List.mem_reverse)

theorem tasksInv_finish (h : TasksInv s) {rmList : List Nat} (hphase : s.phase = .walk [] rmList)
    (hno : NoTwins s.task rmList s.tasks) : TasksInv (s.finish rmList) := by
  have hkept : ∀ t, t ∈ s.tasks.filter (fun t => t ∉ rmList) ↔ t ∈ s.tasks ∧ t ∉ rmList := by
    intro t
    rw [List.mem_filter, decide_eq_true_iff]
  have hwaiting := h.waiting
  have hended := h.ended
  rw [hphase] at hwaiting hended
  rw [Scheduler.finish, h.removal hphase hno]
  constructor
  case unlocked => exact ⟨h.unlocked.1, nofun⟩
  case order => exact ⟨_, rfl, List.nil_sublist _⟩
  case nodup => exact h.nodup.filter _
  case created => exact fun t ht => h.created t ((hkept t).mp ht).1
  case runs => exact h.runs
  case waiting =>
    intro t ht hrm hrun
    obtain ⟨hin, hout⟩ := (hkept t).mp ht
    exact hwaiting t hin hout nofun
  case called => exact nofun
  case ended =>
    intro t ht hor
    rcases hor with hrm | hout
    · cases hrm
    · refine hended t ht ?_
      by_cases hin : t ∈ s.tasks
      · exact .inl (by_contra fun hrm => hout ((hkept t).mpr ⟨hin, hrm⟩))
      · exact .inr hin

theorem tasksInv_step {a : TaskAction} (h : TasksInv s) (hok : Orderly s a)
    (hstep : taskStep s a = some s') : TasksInv s' := by
  cases a with
  | add delay interval callback =>
      obtain ⟨-, hs⟩ := Option.ite_none_right_eq_some.mp hstep
      cases hs
      exact tasksInv_add h delay interval callback
  | stop t =>
      obtain ⟨-, hs⟩ := Option.ite_none_right_eq_some.mp hstep
      cases hs
      refine tasksInv_stop h ?_
      rcases hok with hrunning | hfin
      · exact .inl hrunning
      · exact h.cases hfin
  | tick =>
      obtain ⟨⟨hidle, -⟩, hs⟩ := Option.ite_none_right_eq_some.mp hstep
      cases hs
      exact tasksInv_tick h hidle
  | visit =>
      simp only [taskStep] at hstep
      split at hstep
      next t todo rmList hphase =>
        cases hstep
        exact tasksInv_visit h hphase
      next => cases hstep
  | return' =>
      simp only [taskStep] at hstep
      split at hstep
      next t todo rmList hphase =>
        cases hstep
        exact tasksInv_return h hphase
      next => cases hstep
  | finish =>
      simp only [taskStep] at hstep
      split at hstep
      next rmList hphase =>
        obtain ⟨-, hs⟩ := Option.ite_none_left_eq_some.mp hstep
        cases hs
        have hno : NoTwins s.task s.phase.rmList s.tasks := hok
        rw [hphase] at hno
        exact tasksInv_finish h hphase hno
      next => cases hstep

theorem tasksInv_run (h : taskMachine.Run Orderly s) : TasksInv s := by
  induction h with
  | start hs =>
      cases hs
      exact tasksInv_empty
  | next _ hok hstep ih => exact tasksInv_step ih hok hstep

/-! ## The timetable -/

/-- Between ticks a task of the list waits, and every other has ended. -/
theorem TasksInv.idle (h : TasksInv s) (hidle : s.phase = .idle) (t : Nat) :
    (t ∈ s.tasks → Waiting (s.task t) (s.log t) s.ticks 1) ∧
      (t < s.created → t ∉ s.tasks → Ended (s.log t)) := by
  have hwaiting := h.waiting t
  have hended := h.ended t
  rw [hidle] at hwaiting hended
  exact ⟨fun ht => hwaiting ht List.not_mem_nil nofun, fun ht hout => hended ht (.inr hout)⟩

theorem Waiting.complete {x : Task} {l : TaskLog} {ticks : Nat} (h : Waiting x l ticks 1)
    (hruns : l.runs = (List.range l.runs.length).map l.scheduled) {j : Nat}
    (hdue : l.scheduled j ≤ ticks) : l.scheduled j ∈ l.runs := by
  have hnext := h.next
  have hlt : j < l.runs.length := by
    by_contra hge
    have hle : l.scheduled l.runs.length ≤ l.scheduled j := by
      unfold TaskLog.scheduled
      exact Nat.add_le_add_left (Nat.mul_le_mul_right _ (Nat.not_lt.mp hge)) _
    omega
  rw [hruns]
  exact List.mem_map_of_mem (List.mem_range.mpr hlt)

theorem Ended.complete {l : TaskLog} (h : Ended l) (hstop : l.stopped = none)
    (hruns : l.runs = (List.range l.runs.length).map l.scheduled) {j : Nat}
    (hj : l.period = 0 → j = 0) : l.scheduled j ∈ l.runs := by
  rcases h with ⟨h0, hlen, -⟩ | ⟨hs, -⟩
  · rw [hruns, hlen, hj h0]
    exact List.mem_map_of_mem (List.mem_singleton_self _)
  · rw [hs] at hstop
    cases hstop

theorem TasksInv.status (h : TasksInv s) (ht : t < s.created) :
    (∃ shift, Waiting (s.task t) (s.log t) s.ticks shift) ∨
      Called (s.task t) (s.log t) s.ticks ∨ Ended (s.log t) := by
  by_cases hend : t ∈ s.phase.rmList ∨ t ∉ s.tasks
  · exact .inr (.inr (h.ended t ht hend))
  · obtain ⟨hrm, hin⟩ := not_or.mp hend
    by_cases hrun : s.phase.running = some t
    · exact .inr (.inl (h.called t hrun))
    · exact .inl ⟨_, h.waiting t (not_not.mp hin) hrm hrun⟩

theorem TasksInv.once (h : TasksInv s) (ht : t < s.created) (h0 : (s.log t).period = 0) :
    (s.log t).runs.length ≤ 1 := by
  rcases h.status ht with ⟨shift, hwait⟩ | hcall | ⟨-, hlen, -⟩ | ⟨-, hone⟩
  · rw [hwait.once h0]
    exact Nat.zero_le _
  · obtain ⟨n, hlen, -, hone⟩ := hcall.run
    rw [hlen, hone h0]
  · exact Nat.le_of_eq hlen
  · exact hone h0

theorem TasksInv.stopped (h : TasksInv s) (ht : t < s.created) {n : Nat}
    (hs : (s.log t).stopped = some n) : (s.log t).runs.length = n := by
  have hsome : ∀ m, (s.log t).stopped = some m → m = n := fun m hm =>
    Option.some.inj (hm.symm.trans hs)
  have hnone : (s.log t).stopped ≠ none := by
    rw [hs]
    exact Option.some_ne_none _
  rcases h.status ht with ⟨shift, hwait⟩ | hcall | ⟨-, -, hs'⟩ | ⟨hs', -⟩
  · exact absurd hwait.stopped hnone
  · rcases hcall.stopped with ⟨hs', -⟩ | ⟨hs', -⟩
    · exact absurd hs' hnone
    · exact hsome _ hs'
  · exact absurd hs' hnone
  · exact hsome _ hs'

end

/-- In an orderly run the tasks keep their timetable. -/
theorem onTimetable (s : Scheduler) (h : taskMachine.Run Orderly s) : OnTimetable s := by
  have hinv := tasksInv_run h
  constructor
  case runs => exact hinv.runs
  case once => exact fun t ht h0 => hinv.once ht h0
  case complete =>
    intro hidle t ht hstop j hj hdue
    obtain ⟨hwait, hended⟩ := hinv.idle hidle t
    by_cases hin : t ∈ s.tasks
    · exact (hwait hin).complete (hinv.runs t ht) hdue
    · exact (hended ht hin).complete hstop (hinv.runs t ht) hj
  case stopped => exact fun t n ht hs => hinv.stopped ht hs
  case removed =>
    intro hidle
    refine ⟨hinv.nodup, fun t => ⟨fun hin => ⟨hinv.created t hin, ?_⟩, ?_⟩⟩
    · exact ((hinv.idle hidle t).1 hin).not_finished
    · rintro ⟨ht, hfin⟩
      by_contra hout
      exact hfin ((hinv.idle hidle t).2 ht hout).finished
  case unlocked => exact hinv.unlocked

/-- A task of every second tick that stops itself in its second run, beside a single one. -/
def selfStop : List TaskAction :=
  [.add 0 2 0, .add 1 0 1, .tick, .visit, .visit, .return', .finish,
    .tick, .visit, .return', .visit, .finish, .tick, .visit, .stop 0, .return', .finish]

theorem onTimetable_selfStop : ∃ s, taskMachine.Run Orderly s ∧ s.phase = .idle ∧
    (s.log 0).runs = [1, 3] ∧ (s.log 1).runs = [2] ∧ OnTimetable s := by
  have hrun : ((taskMachine.guarded Orderly).exec .empty selfStop).map
      (fun s => (s.phase, (s.log 0).runs, (s.log 1).runs)) = some (.idle, [1, 3], [2]) := by
    decide +kernel
  obtain ⟨s, hs, he⟩ := Option.map_eq_some_iff.mp hrun
  obtain ⟨hphase, hruns⟩ := Prod.mk.inj he
  obtain ⟨hruns₀, hruns₁⟩ := Prod.mk.inj hruns
  have horderly := Machine.run_of_exec hs rfl
  exact ⟨s, horderly, hphase, hruns₀, hruns₁, onTimetable s horderly⟩

/-- A task of every tick that is stopped between two of them. -/
def lateStop : List TaskAction :=
  [.add 0 1 0, .tick, .visit, .return', .finish, .stop 0, .tick, .visit]

/-- Two single tasks with one callback, the second of which is due first. -/
def twinTasks : List TaskAction :=
  [.add 1 0 0, .add 0 0 0, .tick, .visit, .return', .visit, .finish]

/-- A stopped task runs again, and a tick that cannot tell two tasks apart keeps the lock. -/
theorem not_onTimetable :
    (∃ s, taskMachine.exec .empty lateStop = some s ∧ (s.log 0).stopped = some 1 ∧
      (s.log 0).runs = [1, 2] ∧ ¬OnTimetable s) ∧
    ∃ s, taskMachine.exec .empty twinTasks = some s ∧ s.phase = .failed ∧ s.locked = true ∧
      ¬OnTimetable s := by
  constructor
  · have hrun : (taskMachine.exec .empty lateStop).map
        (fun s => (s.created, (s.log 0).stopped, (s.log 0).runs)) = some (1, some 1, [1, 2]) := by
      decide +kernel
    obtain ⟨s, hs, he⟩ := Option.map_eq_some_iff.mp hrun
    obtain ⟨hcreated, hlog⟩ := Prod.mk.inj he
    obtain ⟨hstopped, hruns⟩ := Prod.mk.inj hlog
    refine ⟨s, hs, hstopped, hruns, fun h => ?_⟩
    have hlen := h.stopped 0 1 (by rw [hcreated]; exact Nat.one_pos) hstopped
    rw [hruns] at hlen
    cases hlen
  · have hrun : (taskMachine.exec .empty twinTasks).map
        (fun s => (s.phase, s.locked)) = some (.failed, true) := by
      decide +kernel
    obtain ⟨s, hs, he⟩ := Option.map_eq_some_iff.mp hrun
    obtain ⟨hphase, hlocked⟩ := Prod.mk.inj he
    exact ⟨s, hs, hphase, hlocked, fun h => h.unlocked.2 hphase⟩

end Hprd.Clients
