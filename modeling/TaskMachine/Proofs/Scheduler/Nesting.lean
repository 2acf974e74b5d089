import TaskMachine.Proofs.Scheduler.Ticks

/-!
# Ticks within ticks

A tick comes with a bound on how deep ticks may nest in it: the number of ticks
that the hosts of its tasks are still going to ask for. A host that asks for a
tick has one less to ask for, and no tick makes a host ask for more, so nested
ticks never come to the end of the bound. What a host asks for within a tick is a
tick like any other.
-/

namespace TaskMachine.Nesting

open Stateful Slicing Ticks Scheduler

/-! ## What hosts are still going to ask for -/

theorem sum_map_modify {α : Type} (g : α → Nat) (f : α → α) {l : List α} {i : Nat} {a : α}
    (h : l[i]? = some a) : ((l.modify i f).map g).sum + g a = (l.map g).sum + g (f a) := by
  induction l generalizing i with
  | nil => cases h
  | cons b l ih =>
    cases i with
    | zero =>
      cases h
      simp only [List.modify_zero_cons, List.map_cons, List.sum_cons]
      omega
    | succ i =>
      have hrest := ih h
      simp only [List.modify_succ_cons, List.map_cons, List.sum_cons]
      omega

theorem pendingTicks_eq (s : Scheduler) :
    s.pendingTicks = (s.tasks.toList.map asked).sum := by
  rw [pendingTicks, ← Array.foldl_toList, List.sum_eq_foldl, List.foldl_map]
  rfl

theorem pendingTicks_modifyTask {s : Scheduler} {i : Nat} {task : Task}
    (h : s.tasks[i]? = some task) (f : Task → Task) :
    (s.modifyTask i f).pendingTicks + asked task = s.pendingTicks + asked (f task) := by
  rw [← Array.getElem?_toList] at h
  rw [pendingTicks_eq, pendingTicks_eq, modifyTask, Array.toList_modify]
  exact sum_map_modify asked f h

/-- The tasks are as many as before, and their hosts are not going to ask for more ticks. -/
structure Calmer (s t : Scheduler) : Prop where
  size : t.tasks.size = s.tasks.size
  pending : t.pendingTicks ≤ s.pendingTicks

theorem calmer_modifyTask (s : Scheduler) (i : Nat) {f : Task → Task}
    (hf : ∀ task, s.tasks[i]? = some task → Stays task (f task)) :
    Calmer s (s.modifyTask i f) := by
  refine ⟨size_modifyTask s i f, ?_⟩
  cases htask : s.tasks[i]? with
  | none => rw [modifyTask_id s i fun task h => by cases htask.symm.trans h]
  | some task =>
    have hpending := pendingTicks_modifyTask htask f
    have hasked := (hf task htask).asked
    omega

theorem steady_calmer : Steady Calmer where
  refl _ := ⟨rfl, Nat.le_refl _⟩
  trans h k := ⟨k.size.trans h.size, Nat.le_trans k.pending h.pending⟩
  size h := h.size
  note _ _ := ⟨rfl, Nat.le_refl _⟩
  task s i _ hf := calmer_modifyTask s i hf
  step s i := by
    have hmachine (m : Machine) : Calmer s (s.withMachine i m) := by
      have h := calmer_modifyTask s i (f := fun task => { task with cpu := m.toCpu })
        fun _ _ => ⟨rfl, Nat.le_refl _⟩
      exact ⟨h.size, h.pending⟩
    rw [stepTask_eq]
    cases Machine.step (some s.program.pool) (s.machine i) with
    | ok event m => exact hmachine m
    | error e m => exact hmachine m

/-- A host that asks for a tick has one less to ask for. -/
theorem pendingTicks_observed {s : Scheduler} {i : Nat} {watch : Watch}
    (h : (s.tasks[i]?).bind (·.watch) = some watch) (hnow : watch.advanced.reentersNow = true) :
    (observed i watch.advanced s).pendingTicks < s.pendingTicks := by
  obtain ⟨task, htask, hwatch⟩ := Option.bind_eq_some_iff.mp h
  have hpending := pendingTicks_modifyTask htask fun task =>
    { task with
      watch := some watch.advanced
      cpu := if watch.advanced.stopsNow then task.cpu.stop else task.cpu }
  have hcount : 0 < watch.reenterAt.count (watch.fetches + 1) :=
    List.count_pos_iff.mpr (List.contains_iff_mem.mp hnow)
  have hadvanced := pending_advanced watch
  simp only [asked, hwatch, Option.map_some, Option.getD_some] at hpending
  change (observed i watch.advanced s).pendingTicks + _ = _ at hpending
  omega

/-! ## Hosts that agree on what is left to ask for -/

section

variable {nested nested' : Scheduler → Scheduler × TickResult} {n : Nat}
  (hsame : ∀ s : Scheduler, s.pendingTicks < n → nested s = nested' s)
  (hcalmer : ∀ s, Calmer s (nested s).1)

include hsame

theorem arrive_congr {s : Scheduler} (i : Nat) (hs : s.pendingTicks ≤ n) :
    s.arrive nested i = s.arrive nested' i := by
  cases hwatch : (s.tasks[i]?).bind (·.watch) with
  | none => rw [arrive_of_unwatched nested hwatch, arrive_of_unwatched nested' hwatch]
  | some watch =>
    rw [arrive_eq hwatch, arrive_eq hwatch]
    split
    · rename_i hnow
      have hless := pendingTicks_observed hwatch hnow
      rw [hsame _ (by omega)]
    · rfl

include hcalmer

theorem cycle_congr (i k : Nat) {s : Scheduler} (hs : s.pendingTicks ≤ n) :
    cycle (fun s => (s.cpuOf i).stopping) (arrive nested i) (stepTask i) k s =
      cycle (fun s => (s.cpuOf i).stopping) (arrive nested' i) (stepTask i) k s := by
  induction k generalizing s with
  | zero => rfl
  | succ k ih =>
    have hstep := steady_calmer.trans (steady_calmer.arrive hcalmer i s)
      (steady_calmer.step (s.arrive nested i) i)
    simp only [cycle]
    rw [← arrive_congr hsame i hs]
    split
    · rfl
    · cases h : stepTask i (s.arrive nested i) with
      | ok event t =>
        rw [h] at hstep
        cases event with
        | none => exact ih (Nat.le_trans hstep.pending hs)
        | some e => rfl
      | error e t => rfl

theorem runTask_congr {i : Nat} {s : Scheduler} (hs : s.pendingTicks ≤ n)
    (hi : i < s.tasks.size) : s.runTask nested i = s.runTask nested' i := by
  have hstarted := (steady_calmer.cpu s i Cpu.started).pending
  rw [runTask_eq_runWatched nested hi, runTask_eq_runWatched nested' hi]
  unfold runWatched
  rw [cycle_congr hsame hcalmer i s.slice (Nat.le_trans hstarted hs)]

theorem tickTasks_congr (is : List Nat) (live : Nat) {s : Scheduler} (hs : s.pendingTicks ≤ n)
    (his : ∀ i ∈ is, i < s.tasks.size) :
    tickTasks nested is live s = tickTasks nested' is live s := by
  -- Every task starts from a scheduler whose hosts have no more to ask for than at the start.
  induction is generalizing live s with
  | nil => rfl
  | cons i rest ih =>
    have hi := his i List.mem_cons_self
    have hrest : ∀ j ∈ rest, j < s.tasks.size := fun j hj => his j (List.mem_cons_of_mem i hj)
    simp only [tickTasks]
    rw [← runTask_congr hsame hcalmer hs hi]
    split
    · exact ih live hs hrest
    · have hrun := steady_calmer.runWatched hcalmer i s
      rw [← runTask_eq_runWatched nested hi] at hrun
      generalize s.runTask nested i = r at hrun
      have haccount := steady_calmer.trans hrun (steady_calmer.account r.1 i r.2.event)
      have hlater {t : Scheduler} (ht : Calmer s t) (live : Nat) :
          tickTasks nested rest live t = tickTasks nested' rest live t :=
        ih live (Nat.le_trans ht.pending hs) fun j hj => ht.size ▸ hrest j hj
      split
      · rfl
      · rfl
      · exact hlater (steady_calmer.trans haccount (steady_calmer.retire _ i)) live
      · exact hlater haccount (live + 1)

end

/-! ## Ticks -/

/-- A tick does not notice a bound that its hosts cannot reach, by induction on the bound. -/
theorem tickWithin_succ {depth : Nat} {s : Scheduler} (h : s.pendingTicks ≤ depth) :
    s.tickWithin (depth + 1) = s.tickWithin depth := by
  have hrange : ∀ i ∈ List.range s.tasks.size, i < s.tasks.size :=
    fun i hi => List.mem_range.mp hi
  induction depth generalizing s with
  | zero =>
    refine tickTasks_congr (n := 0) (fun t ht => absurd ht (Nat.not_lt_zero _)) ?_ _ 0 h hrange
    exact steady_calmer.tickWithin 0
  | succ depth ih =>
    refine tickTasks_congr (n := depth + 1) (fun t ht => ?_) ?_ _ 0 h hrange
    · exact ih (Nat.le_of_lt_succ ht) fun i hi => List.mem_range.mp hi
    · exact steady_calmer.tickWithin (depth + 1)

theorem tickWithin_eq_tick {depth : Nat} {s : Scheduler} (h : s.pendingTicks ≤ depth) :
    s.tickWithin depth = s.tick := by
  induction h with
  | refl => rfl
  | step hle ih => rw [tickWithin_succ hle, ih]

/-- A tick gives slices to the tasks one after the other, and what a host asks for on the way is a
tick. -/
theorem tick_eq_tickTasks (s : Scheduler) :
    s.tick = tickTasks tick (List.range s.tasks.size) 0 s := by
  rw [tick, ← tickWithin_succ (Nat.le_refl _)]
  refine tickTasks_congr (fun t ht => ?_) (steady_calmer.tickWithin s.pendingTicks) _ 0
    (Nat.le_refl _) fun i hi => List.mem_range.mp hi
  exact tickWithin_eq_tick (Nat.le_of_lt ht)

end TaskMachine.Nesting
