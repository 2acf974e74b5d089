import TaskMachine.Proofs.Scheduler.Nesting

/-!
# What happens in a tick

The record of a tick lists the instructions that its tasks complete and the
attempts to run a task that runs already, in the order in which they happen and
with what happens in nested ticks at its place. It follows the tick from state to
state. Like the tick itself it does not depend on the bound for nesting.
-/

namespace TaskMachine.Happenings

open Stateful Slicing Ticks Nesting Scheduler

inductive Happening where
  /-- A task completed an instruction. -/
  | completed (task : Nat)
  /-- A task was to run while it ran already, and had completed so many instructions by then. -/
  | refused (task counted : Nat)
  deriving DecidableEq, Repr

/-- The task that something happened to. -/
def Happening.task : Happening → Nat
  | .completed i => i
  | .refused i _ => i

/-- The instructions that are charged for what happened. -/
def Happening.weight : Happening → Nat
  | .completed _ => 1
  | .refused _ counted => counted

/-- What happened, the first first. -/
abbrev Record := List Happening

section

variable (nested : Scheduler → Scheduler × TickResult) (within : Scheduler → Record)

/-- What happens while a task fetches a word: all that happens in the tick that its host asks
for. -/
def inArrival (i : Nat) (s : Scheduler) : Record :=
  match (s.tasks[i]?).bind (·.watch) with
  | none => []
  | some watch => if watch.advanced.reentersNow then within (observed i watch.advanced s) else []

/-- What happens in the loop of a run. -/
def inCycle (i : Nat) : Nat → Scheduler → Record
  | 0, _ => []
  | n + 1, s =>
    if (s.cpuOf i).stopping then []
    else
      inArrival within i s ++
        match stepTask i (s.arrive nested i) with
        | .ok none t => .completed i :: inCycle i n t
        | .ok (some _) _ => [.completed i]
        | .error _ _ => []

/-- What happens in a run of a task. -/
def inRun (i : Nat) (s : Scheduler) : Record :=
  if (s.cpuOf i).running then [.refused i (s.cpuOf i).ran]
  else inCycle nested within i s.slice (s.modifyCpu i Cpu.started)

/-- What happens while the tasks with the given indices get their slices. -/
def inTasks : List Nat → Scheduler → Record
  | [], _ => []
  | i :: rest, s =>
    if (s.tasks[i]?).any (·.done) then inTasks rest s
    else
      let (t, outcome) := s.runTask nested i
      let t := t.account i outcome.event
      inRun nested within i s ++
        match outcome.error, outcome.event with
        | some _, _ => []
        | none, .stop => []
        | none, .kill => inTasks rest (t.retire i)
        | none, _ => inTasks rest t

end

/-- What happens in a tick in which ticks may nest to the given depth. -/
def inTickWithin : Nat → Scheduler → Record
  | 0, s => inTasks (fun s => (s, ⟨false, none⟩)) (fun _ => []) (List.range s.tasks.size) s
  | depth + 1, s => inTasks (tickWithin depth) (inTickWithin depth) (List.range s.tasks.size) s

/-- What happens in a tick. -/
def inTick (s : Scheduler) : Record := inTickWithin s.pendingTicks s

/-- What happens in so many ticks, or until no task is left or one faults. -/
def inTicks : Nat → Scheduler → Record
  | 0, _ => []
  | n + 1, s =>
    inTick s ++ if s.tick.2.done ∨ s.tick.2.error ≠ none then [] else inTicks n s.tick.1

/-- What has happened since the last load. -/
def happened : Call → Scheduler → Record → Record
  | .load _, _, _ => []
  | .tick, s, record => record ++ inTick s
  | .run n, s, record => record ++ inTicks n s
  | .runInterrupted, s, record =>
    record ++ inTicks interruptions.length { s with tasks := s.tasks.map interruptible }
  | _, _, record => record

/-! ## Nested ticks -/

section

variable {nested nested' : Scheduler → Scheduler × TickResult} {within within' : Scheduler → Record}
  {n : Nat} (hsame : ∀ s : Scheduler, s.pendingTicks < n → nested s = nested' s)
  (hwithin : ∀ s : Scheduler, s.pendingTicks < n → within s = within' s)
  (hcalmer : ∀ s, Calmer s (nested s).1)

include hwithin

theorem inArrival_congr {s : Scheduler} (i : Nat) (hs : s.pendingTicks ≤ n) :
    inArrival within i s = inArrival within' i s := by
  unfold inArrival
  cases hwatch : (s.tasks[i]?).bind (·.watch) with
  | none => rfl
  | some watch =>
    dsimp only
    split
    · rename_i hnow
      exact hwithin _ (Nat.lt_of_lt_of_le (pendingTicks_observed hwatch hnow) hs)
    · rfl

include hsame hcalmer

theorem inCycle_congr (i k : Nat) {s : Scheduler} (hs : s.pendingTicks ≤ n) :
    inCycle nested within i k s = inCycle nested' within' i k s := by
  induction k generalizing s with
  | zero => rfl
  | succ k ih =>
    have hstep := steady_calmer.trans (steady_calmer.arrive hcalmer i s)
      (steady_calmer.step (s.arrive nested i) i)
    simp only [inCycle]
    rw [← arrive_congr hsame i hs, inArrival_congr hwithin i hs]
    cases h : stepTask i (s.arrive nested i) with
    | ok event t =>
      rw [h] at hstep
      cases event with
      | none =>
        have hrest : inCycle nested within i k t = inCycle nested' within' i k t :=
          ih (Nat.le_trans hstep.pending hs)
        dsimp only
        rw [hrest]
      | some e => rfl
    | error e t => rfl

theorem inTasks_congr (is : List Nat) {s : Scheduler} (hs : s.pendingTicks ≤ n)
    (his : ∀ i ∈ is, i < s.tasks.size) :
    inTasks nested within is s = inTasks nested' within' is s := by
  induction is generalizing s with
  | nil => rfl
  | cons i rest ih =>
    have hi := his i List.mem_cons_self
    have hrest : ∀ j ∈ rest, j < s.tasks.size := fun j hj => his j (List.mem_cons_of_mem i hj)
    have hrecord : inRun nested within i s = inRun nested' within' i s := by
      have hstarted := (steady_calmer.cpu s i Cpu.started).pending
      unfold inRun
      rw [inCycle_congr hsame hwithin hcalmer i s.slice (Nat.le_trans hstarted hs)]
    have hrun := steady_calmer.runWatched hcalmer i s
    rw [← runTask_eq_runWatched nested hi] at hrun
    have hlater {t : Scheduler} (ht : Calmer s t) :
        inTasks nested within rest t = inTasks nested' within' rest t :=
      ih (Nat.le_trans ht.pending hs) fun j hj => ht.size ▸ hrest j hj
    simp only [inTasks]
    rw [← runTask_congr hsame hcalmer hs hi, hrecord]
    generalize s.runTask nested i = r at hrun
    have haccount := steady_calmer.trans hrun (steady_calmer.account r.1 i r.2.event)
    rw [hlater (steady_calmer.refl s), hlater haccount,
      hlater (steady_calmer.trans haccount (steady_calmer.retire _ i))]

end

theorem inTickWithin_succ {depth : Nat} {s : Scheduler} (h : s.pendingTicks ≤ depth) :
    inTickWithin (depth + 1) s = inTickWithin depth s := by
  have hrange : ∀ i ∈ List.range s.tasks.size, i < s.tasks.size :=
    fun i hi => List.mem_range.mp hi
  induction depth generalizing s with
  | zero =>
    refine inTasks_congr (n := 0) (fun t ht => absurd ht (Nat.not_lt_zero _))
      (fun t ht => absurd ht (Nat.not_lt_zero _)) ?_ _ h hrange
    exact steady_calmer.tickWithin 0
  | succ depth ih =>
    refine inTasks_congr (n := depth + 1) (fun t ht => ?_) (fun t ht => ?_) ?_ _ h hrange
    · exact tickWithin_succ (Nat.le_of_lt_succ ht)
    · exact ih (Nat.le_of_lt_succ ht) fun i hi => List.mem_range.mp hi
    · exact steady_calmer.tickWithin (depth + 1)

theorem inTickWithin_eq_inTick {depth : Nat} {s : Scheduler} (h : s.pendingTicks ≤ depth) :
    inTickWithin depth s = inTick s := by
  induction h with
  | refl => rfl
  | step hle ih => rw [inTickWithin_succ hle, ih]

/-- The record of a tick holds, at their places, the records of the ticks that hosts ask for. -/
theorem inTick_eq_inTasks (s : Scheduler) :
    inTick s = inTasks tick inTick (List.range s.tasks.size) s := by
  rw [inTick, ← inTickWithin_succ (Nat.le_refl _)]
  refine inTasks_congr (n := s.pendingTicks) (fun t ht => ?_) (fun t ht => ?_)
    (steady_calmer.tickWithin s.pendingTicks) _ (Nat.le_refl _) fun i hi => List.mem_range.mp hi
  · exact tickWithin_eq_tick (Nat.le_of_lt ht)
  · exact inTickWithin_eq_inTick (Nat.le_of_lt ht)

end TaskMachine.Happenings
