import TaskMachine.Expr.Script
import TaskMachine.Proofs.Assembler.LineTable
import TaskMachine.Proofs.Processor.Faults
import TaskMachine.Proofs.Scheduler.Loading
import TaskMachine.Proofs.Scheduler.Nesting

/-!
# Which task, address and line a fault is reported for

A tick that ends in a fault has given the tasks before the faulting one their
slices, and that task has completed a part of its own. The word at which it faulted
was fetched from its program counter then, which the error still knows when the
counter has moved on. What a host does during that fetch does not move it either: a
tick within the tick finds the task running and leaves its registers alone. The
line is looked up in the program that was loaded.
-/

namespace TaskMachine.Attribution

open Stateful Slicing Effects Faults Ticks Nesting Scheduler LineTable

/-! ## A running task is left alone -/

/-- If the task was running, it still is, with the registers it had. -/
def Held (i : Nat) (s t : Scheduler) : Prop :=
  (s.cpuOf i).running = true →
    (t.cpuOf i).running = true ∧ (t.cpuOf i).regs = (s.cpuOf i).regs

namespace Held

variable {i j : Nat} {s t u : Scheduler}

theorem trans (h : Held i s t) (k : Held i t u) : Held i s u := by
  intro hrun
  obtain ⟨hrun', hregs⟩ := h hrun
  obtain ⟨hrun'', hregs'⟩ := k hrun'
  exact ⟨hrun'', hregs'.trans hregs⟩

theorem of_cpuOf (hcpu : t.cpuOf i = s.cpuOf i) : Held i s t := by
  intro hrun
  rw [hcpu]
  exact ⟨hrun, rfl⟩

/-- A change that leaves the registers and the flag of its task alone. -/
theorem modifyTask (s : Scheduler) (j : Nat) {f : Task → Task}
    (hf : ∀ task, (f task).cpu.running = task.cpu.running ∧ (f task).cpu.regs = task.cpu.regs) :
    Held i s (s.modifyTask j f) := by
  intro hrun
  unfold cpuOf at hrun ⊢
  rw [getElem?_modifyTask]
  by_cases hji : j = i
  · rw [if_pos hji]
    cases htask : s.tasks[i]? with
    | none =>
      rw [htask] at hrun
      exact ⟨hrun, rfl⟩
    | some task =>
      rw [htask] at hrun
      exact ⟨(hf task).1.trans hrun, (hf task).2⟩
  · rw [if_neg hji]
    exact ⟨hrun, rfl⟩

theorem modifyCpu_of_ne (hji : j ≠ i) (s : Scheduler) (f : Cpu → Cpu) : Held i s (s.modifyCpu j f) :=
  of_cpuOf (cpuOf_modifyCpu_of_ne hji s f)

theorem step_of_ne (hji : j ≠ i) (s : Scheduler) : Held i s (endState (stepTask j s)) := by
  rw [stepTask_eq]
  cases Machine.step (some s.program.pool) (s.machine j) with
  | ok event m => exact of_cpuOf (cpuOf_modifyCpu_of_ne hji s fun _ => m.toCpu)
  | error e m => exact of_cpuOf (cpuOf_modifyCpu_of_ne hji s fun _ => m.toCpu)

/-- A host that counts a fetch may ask its task to stop, but does not touch the registers. -/
theorem observed (s : Scheduler) (j : Nat) (watch : Watch) : Held i s (observed j watch s) := by
  refine modifyTask s j fun task => ?_
  dsimp only
  split
  · exact ⟨rfl, rfl⟩
  · exact ⟨rfl, rfl⟩

theorem account (s : Scheduler) (j : Nat) (event : Event) : Held i s (s.account j event) :=
  modifyTask s j (f := fun task => { task with ran := task.ran + (s.cpuOf j).ran })
    fun _ => ⟨rfl, rfl⟩

theorem retire (s : Scheduler) (j : Nat) : Held i s (s.retire j) :=
  modifyTask s j fun _ => ⟨rfl, rfl⟩

section

variable {nested : Scheduler → Scheduler × TickResult} (hnested : ∀ s, Held i s (nested s).1)

include hnested

theorem arrive (j : Nat) (s : Scheduler) : Held i s (s.arrive nested j) := by
  cases hwatch : (s.tasks[j]?).bind (·.watch) with
  | none =>
    rw [arrive_of_unwatched nested hwatch]
    exact of_cpuOf rfl
  | some watch =>
    have hobserved := observed (i := i) s j watch.advanced
    rw [arrive_eq hwatch]
    split
    · exact hobserved.trans ((hnested _).trans (modifyTask _ j fun _ => ⟨rfl, rfl⟩))
    · exact hobserved

/-- A run of the task itself is refused while it runs, and that of another one goes past it. -/
theorem runWatched (j : Nat) (s : Scheduler) : Held i s (s.runWatched nested j).1 := by
  unfold Scheduler.runWatched
  split
  · exact of_cpuOf rfl
  · rename_i hidle
    by_cases hji : j = i
    · subst hji
      exact fun hrun => absurd hrun hidle
    · have hcycle : Held i s (cycle (fun s => (s.cpuOf j).stopping) (Scheduler.arrive nested j)
          (stepTask j) s.slice (s.modifyCpu j Cpu.started)).1 := by
        refine cycle_invariant (P := Held i s) (fun t ht => ?_) s.slice _
          (modifyCpu_of_ne hji s Cpu.started)
        exact ht.trans ((arrive hnested j t).trans (step_of_ne hji _))
      exact hcycle.trans (modifyCpu_of_ne hji _ Cpu.finished)

theorem tickTasks (hcalmer : ∀ s, Calmer s (nested s).1) (js : List Nat) (live : Nat) (s : Scheduler)
    (hjs : ∀ j ∈ js, j < s.tasks.size) : Held i s (Scheduler.tickTasks nested js live s).1 := by
  induction js generalizing live s with
  | nil => exact of_cpuOf rfl
  | cons j rest ih =>
    have hrest : ∀ k ∈ rest, k < s.tasks.size := fun k hk => hjs k (List.mem_cons_of_mem j hk)
    simp only [Scheduler.tickTasks]
    split
    · exact ih live s hrest
    · rw [runTask_eq_runWatched nested (hjs j List.mem_cons_self)]
      have hrun := runWatched hnested j s
      have hsize := (steady_calmer.runWatched hcalmer j s).size
      generalize s.runWatched nested j = r at hrun hsize
      have haccount := hrun.trans (account r.1 j r.2.event)
      have hcount : (r.1.account j r.2.event).tasks.size = s.tasks.size :=
        (size_modifyTask r.1 j _).trans hsize
      have hretire := haccount.trans (retire (r.1.account j r.2.event) j)
      split
      · exact hretire
      · exact haccount
      · refine hretire.trans (ih live _ fun k hk => ?_)
        rw [Scheduler.retire, size_modifyTask, hcount]
        exact hrest k hk
      · refine haccount.trans (ih _ _ fun k hk => ?_)
        rw [hcount]
        exact hrest k hk

end

theorem tickWithin (depth : Nat) (s : Scheduler) : Held i s (s.tickWithin depth).1 := by
  induction depth generalizing s with
  | zero =>
    refine tickTasks (fun t => of_cpuOf rfl) (fun t => steady_calmer.refl t) _ 0 s fun j hj => ?_
    exact List.mem_range.mp hj
  | succ depth ih =>
    refine tickTasks ih (steady_calmer.tickWithin depth) _ 0 s fun j hj => ?_
    exact List.mem_range.mp hj

theorem tick (s : Scheduler) : Held i s s.tick.1 := tickWithin s.pendingTicks s

end Held

/-! ## Where a tick ends in a fault -/

/-- A loop that ends in an error first spends a smaller budget, and then takes the step that
fails. -/
theorem cycle_eq_error {σ : Type} {stopping : σ → Bool} {arrive : σ → σ}
    {step : EStateM RunError σ (Option Event)} {n : Nat} {s t : σ} {event : Event} {e : RunError}
    (h : cycle stopping arrive step n s = (t, ⟨event, some e⟩)) :
    event = .fault ∧ ∃ k u, k < n ∧ cycle stopping arrive step k s = (u, ⟨.budget, none⟩) ∧
      stopping u = false ∧ step (arrive u) = .error e t := by
  induction n generalizing s with
  | zero => cases h
  | succ n ih =>
    simp only [cycle] at h
    split at h
    · cases h
    · rename_i hgoes
      have hgoes : stopping s = false := Bool.eq_false_iff.mpr hgoes
      cases hstep : step (arrive s) with
      | error e' t' =>
        rw [hstep] at h
        cases h
        exact ⟨rfl, 0, s, Nat.succ_pos n, rfl, hgoes, hstep⟩
      | ok event' t' =>
        rw [hstep] at h
        cases event' with
        | some event' => cases h
        | none =>
          obtain ⟨hevent, k, u, hk, hspent, hrest⟩ := ih h
          refine ⟨hevent, k + 1, u, Nat.succ_lt_succ hk, ?_, hrest⟩
          simp only [cycle, hgoes, hstep]
          exact hspent

/-- The turn of a task ends the tick with an error or a stop, or the tick goes on with the others. -/
theorem tickTasks_cases (nested : Scheduler → Scheduler × TickResult) (i live : Nat) (s : Scheduler) :
    (∃ event cause, (s.runTask nested i).2 = ⟨event, some cause⟩ ∧
      ∀ rest, tickTasks nested (i :: rest) live s =
        (((s.runTask nested i).1.account i event).retire i,
          ⟨false, some (((s.runTask nested i).1.account i event).runtimeError i cause)⟩)) ∨
    (∃ t, ∀ rest, tickTasks nested (i :: rest) live s = (t, ⟨false, none⟩)) ∨
    ∃ live' t, ∀ rest, tickTasks nested (i :: rest) live s = tickTasks nested rest live' t := by
  by_cases hdone : (s.tasks[i]?).any (·.done) = true
  · exact .inr (.inr ⟨live, s, fun rest => by simp only [tickTasks, if_pos hdone]⟩)
  · generalize hrun : s.runTask nested i = r
    obtain ⟨t, event, error⟩ := r
    cases error with
    | some cause =>
      refine .inl ⟨event, cause, rfl, fun rest => ?_⟩
      simp only [tickTasks, if_neg hdone, hrun]
    | none =>
      cases event with
      | stop =>
        exact .inr (.inl ⟨_, fun rest => by simp only [tickTasks, if_neg hdone, hrun]; rfl⟩)
      | _ => exact .inr (.inr ⟨_, _, fun rest => by simp only [tickTasks, if_neg hdone, hrun]; rfl⟩)

/-- A tick that ends in an error has come to a task whose run ended in one. -/
theorem tickTasks_eq_error {nested : Scheduler → Scheduler × TickResult} {js : List Nat} {live : Nat}
    {s t : Scheduler} {done : Bool} {e : ScheduleError}
    (h : tickTasks nested js live s = (t, ⟨done, some e⟩)) :
    ∃ pre i post event cause, js = pre ++ i :: post ∧
      let r := (tickTasks nested pre live s).1.runTask nested i
      r.2 = ⟨event, some cause⟩ ∧ t = (r.1.account i event).retire i ∧
        e = (r.1.account i event).runtimeError i cause := by
  induction js generalizing live s with
  | nil => cases h
  | cons j rest ih =>
    obtain ⟨event, cause, hrun, hends⟩ | ⟨t', hstops⟩ | ⟨live', s', hgoes⟩ :=
      tickTasks_cases nested j live s
    · rw [hends] at h
      cases h
      exact ⟨[], j, rest, event, cause, rfl, hrun, rfl, rfl⟩
    · rw [hstops] at h
      cases h
    · rw [hgoes] at h
      obtain ⟨pre, i, post, event, cause, hsplit, hrun⟩ := ih h
      refine ⟨j :: pre, i, post, event, cause, by rw [hsplit]; rfl, ?_⟩
      rw [hgoes]
      exact hrun

theorem range_split {n i : Nat} {pre post : List Nat} (h : List.range n = pre ++ i :: post) :
    pre = List.range i ∧ i < n := by
  have hi : (List.range n)[pre.length]? = some i := by
    rw [h, List.getElem?_append_right (Nat.le_refl _), Nat.sub_self]
    rfl
  obtain ⟨hlt, hget⟩ := List.getElem?_eq_some_iff.mp hi
  rw [List.length_range] at hlt
  rw [List.getElem_range] at hget
  subst hget
  refine ⟨?_, hlt⟩
  have htake : (List.range n).take pre.length = pre := by rw [h, List.take_left]
  rw [List.take_range, Nat.min_eq_left (Nat.le_of_lt hlt)] at htake
  exact htake.symm

/-- The scheduler as the turn of a task comes in a tick. -/
def turn (s : Scheduler) (i : Nat) : Scheduler := (tickTasks tick (List.range i) 0 s).1

/-- In its slice of the tick a task completes some instructions, which leads to `u`, and fails at
the next one, which leads to `v`. -/
structure FaultsIn (s : Scheduler) (i k : Nat) (u v : Scheduler) (cause : RunError) : Prop where
  within : k < (turn s i).slice
  reached : cycle (fun s => (s.cpuOf i).stopping) (arrive tick i) (stepTask i) k
    ((turn s i).modifyCpu i Cpu.started) = (u, ⟨.budget, none⟩)
  goes : (u.cpuOf i).stopping = false
  faults : stepTask i (u.arrive tick i) = .error cause v

theorem size_turn {s : Scheduler} {i : Nat} (hi : i < s.tasks.size) :
    (turn s i).tasks.size = s.tasks.size := by
  refine (steady_calmer.tickTasks (fun t => steady_calmer.tick t) _ 0 s fun j hj => ?_).size
  exact Nat.lt_trans (List.mem_range.mp hj) hi

/-- A tick that reports a fault in a task, other than that the task was running already. -/
theorem tick_eq_fault {s t : Scheduler} {done : Bool} {i line : Nat} {pc : UInt32} {cause : RunError}
    (h : s.tick = (t, ⟨done, some (.runtime i pc line cause)⟩)) (hcause : cause ≠ .reentrant) :
    i < s.tasks.size ∧ ∃ k u v, FaultsIn s i k u v cause ∧
      t = ((v.modifyCpu i Cpu.finished).account i .fault).retire i ∧
      cause.pc? = some pc ∧ line = v.program.lineNumber pc := by
  rw [tick_eq_tickTasks] at h
  obtain ⟨pre, j, post, event, cause', hsplit, hrun, ht, he⟩ := tickTasks_eq_error h
  obtain ⟨rfl, hj⟩ := range_split hsplit
  obtain ⟨rfl, hpc, hline, rfl⟩ := ScheduleError.runtime.inj he
  have hturn : i < (turn s i).tasks.size := by rw [size_turn hj]; exact hj
  change ((turn s i).runTask tick i).2 = _ at hrun
  change t = (((turn s i).runTask tick i).1.account i event).retire i at ht
  change line = ((turn s i).runTask tick i).1.program.lineNumber _ at hline
  rw [runTask_eq_runWatched tick hturn] at hrun ht hline
  unfold runWatched at hrun ht hline
  cases hidle : ((turn s i).cpuOf i).running with
  | true =>
    rw [hidle, if_pos rfl] at hrun
    cases hrun
    exact absurd rfl hcause
  | false =>
    rw [hidle, if_neg Bool.false_ne_true] at hrun ht hline
    generalize hcycle : cycle (fun s => (s.cpuOf i).stopping) (arrive tick i) (stepTask i)
      (turn s i).slice ((turn s i).modifyCpu i Cpu.started) = r at hrun ht hline
    obtain ⟨v, outcome⟩ := r
    cases hrun
    obtain ⟨rfl, k, u, hk, hspent, hgoes, hfaults⟩ := cycle_eq_error hcycle
    have hnamed : cause.pc? = some pc := by
      cases cause with
      | reentrant => exact absurd rfl hcause
      | unassigned code at' => rw [hpc]; rfl
      | instruction at' word fault => rw [hpc]; rfl
    rw [← hpc] at hline
    exact ⟨hj, k, u, v, ⟨hk, hspent, hgoes, hfaults⟩, ht, hnamed, hline⟩

/-! ## The fetch of the faulting word -/

theorem running_step {s : Scheduler} {i : Nat} (hi : i < s.tasks.size) :
    ((endState (stepTask i s)).cpuOf i).running = (s.cpuOf i).running := by
  have hflag := (Bookkeeping.flags_step (some s.program.pool) (s.machine i)).1
  rw [stepTask_eq]
  cases hstep : Machine.step (some s.program.pool) (s.machine i) with
  | ok event m =>
    rw [hstep] at hflag
    change ((s.withMachine i m).cpuOf i).running = _
    rw [cpuOf_withMachine hi]
    exact hflag
  | error e m =>
    rw [hstep] at hflag
    change ((s.withMachine i m).cpuOf i).running = _
    rw [cpuOf_withMachine hi]
    exact hflag

namespace FaultsIn

variable {s u v : Scheduler} {i k : Nat} {cause : RunError}

/-- The layout is still that of the tick, and the task is running. -/
theorem underway (h : FaultsIn s i k u v cause) (hi : i < s.tasks.size) :
    SameLayout s u ∧ (u.cpuOf i).running = true := by
  have hturn : SameLayout s (turn s i) :=
    steady_sameLayout.tickTasks (fun t => steady_sameLayout.tick t) _ 0 s fun j hj =>
      Nat.lt_trans (List.mem_range.mp hj) hi
  have hstarted : SameLayout s ((turn s i).modifyCpu i Cpu.started) ∧
      (((turn s i).modifyCpu i Cpu.started).cpuOf i).running = true := by
    refine ⟨steady_sameLayout.trans hturn (steady_sameLayout.cpu _ i _), ?_⟩
    rw [cpuOf_modifyCpu (by rw [size_turn hi]; exact hi)]
    rfl
  have hstep (t : Scheduler) (ht : SameLayout s t ∧ (t.cpuOf i).running = true) :
      SameLayout s (endState (stepTask i (t.arrive tick i))) ∧
        ((endState (stepTask i (t.arrive tick i))).cpuOf i).running = true := by
    have harrive := steady_sameLayout.arrive (fun t => steady_sameLayout.tick t) i t
    have hlayout := steady_sameLayout.trans ht.1 harrive
    refine ⟨steady_sameLayout.trans hlayout (steady_sameLayout.step _ i), ?_⟩
    rw [running_step (by rw [steady_sameLayout.size hlayout]; exact hi)]
    exact (Held.arrive (fun t => Held.tick t) i t ht.2).1
  have hend : (cycle (fun s => (s.cpuOf i).stopping) (arrive tick i) (stepTask i) k
      ((turn s i).modifyCpu i Cpu.started)).1 = u := congrArg Prod.fst h.reached
  rw [← hend]
  exact cycle_invariant (P := fun t => SameLayout s t ∧ (t.cpuOf i).running = true) hstep k _ hstarted

/-- The word is fetched from the counter that the completed instructions left, and the fault leaves
the task in one of the ways in which a step can fault. -/
theorem site (h : FaultsIn s i k u v cause) (hi : i < s.tasks.size) :
    cause.pc? = some (u.cpuOf i).pc ∧ ((u.arrive tick i).cpuOf i).pc = (u.cpuOf i).pc ∧
      Faulted (some s.program.pool) ((u.arrive tick i).machine i) cause (v.cpuOf i).pc ∧
      SameLayout s v := by
  obtain ⟨hlayout, hrunning⟩ := h.underway hi
  have hregs := (Held.arrive (fun t => Held.tick t) i u hrunning).2
  have hpc : ((u.arrive tick i).cpuOf i).pc = (u.cpuOf i).pc := congrArg (Vector.get · Reg.pc) hregs
  have harrive : SameLayout s (u.arrive tick i) :=
    steady_sameLayout.trans hlayout (steady_sameLayout.arrive (fun t => steady_sameLayout.tick t) i u)
  have hstep := steady_sameLayout.step (u.arrive tick i) i
  have hfaults := h.faults
  rw [hfaults] at hstep
  rw [stepTask_eq, harrive.program] at hfaults
  cases hmachine : Machine.step (some s.program.pool) ((u.arrive tick i).machine i) with
  | ok event m =>
    rw [hmachine] at hfaults
    cases hfaults
  | error e m =>
    rw [hmachine] at hfaults
    obtain ⟨rfl, rfl⟩ := EStateM.Result.error.inj hfaults
    obtain ⟨hfaulted, hnamed, -, -⟩ := step_eq_error hmachine
    have hi' : i < (u.arrive tick i).tasks.size := by
      rw [steady_sameLayout.size harrive]
      exact hi
    refine ⟨hnamed.trans (congrArg some hpc), hpc, ?_, steady_sameLayout.trans harrive hstep⟩
    rw [cpuOf_withMachine hi']
    exact hfaulted

end FaultsIn

/-- The end of a slice is entered in the account of its task, and the task retired, with its
registers as they are. -/
theorem retired (v : Scheduler) {i : Nat} (hi : i < v.tasks.size) (event : Event) :
    let t := ((v.modifyCpu i Cpu.finished).account i event).retire i
    (t.cpuOf i).pc = (v.cpuOf i).pc ∧ ∃ task, t.tasks[i]? = some task ∧ task.done = true := by
  intro t
  have hsize : ((v.modifyCpu i Cpu.finished).account i event).tasks.size = v.tasks.size :=
    (size_modifyTask _ i _).trans (size_modifyTask v i _)
  constructor
  · have hretire : t.cpuOf i = ((v.modifyCpu i Cpu.finished).account i event).cpuOf i :=
      cpuOf_modifyTask _ i i fun _ => rfl
    have haccount : ((v.modifyCpu i Cpu.finished).account i event).cpuOf i =
        (v.modifyCpu i Cpu.finished).cpuOf i :=
      cpuOf_modifyTask _ i i (f := fun task =>
        { task with ran := task.ran + ((v.modifyCpu i Cpu.finished).cpuOf i).ran }) fun _ => rfl
    rw [hretire, haccount, cpuOf_modifyCpu hi]
    rfl
  · have htask := Array.getElem?_eq_getElem (hsize ▸ hi)
    have hretire : t.tasks[i]? = _ := getElem?_modifyTask _ i i fun task => { task with done := true }
    rw [if_pos rfl, htask] at hretire
    exact ⟨_, hretire, rfl⟩

/-- The image of an assembled program that could be loaded is as long as its size says. -/
theorem size_of_load [Interpreter] {s₀ s₁ s₂ : Scheduler} {text : String} {p : Program}
    (hassemble : (s₀.assemble text).2 = .ok p) (hload : s₁.load p = (s₂, none))
    (hextent : s₁.mem.data.size < 2 ^ 32) : p.size.toNat = 4 * p.image.length := by
  have hcleared : s₁.mem.cleared.data.size = s₁.mem.data.size := Bytes.size_zeros _
  have hshort := Words.length_lt_of_accessible (hcleared ▸ hextent) (Loading.load_eq_none hload).1
  rw [Loading.assemble_eq_parse] at hassemble
  rw [Placement.size_of_parse hassemble, UInt32.toNat_ofNat_of_lt' hshort]

/-- Of a program that was assembled and loaded, in a memory that does not fill the address space:
whenever a tick reports a fault, other than that a task was running already, the task it names has
completed some instructions and failed at the next one, and is done. The address is the one that the
word was fetched from, though the counter may have moved on by a word or two. The line is that of
the one line that emits a word there, or zero outside of the image. -/
theorem fault_attributed [Interpreter] {s₀ s₁ s₂ : Scheduler} {text : String} {p : Program}
    (hassemble : (s₀.assemble text).2 = .ok p) (hload : s₁.load p = (s₂, none))
    (hextent : s₁.mem.data.size < 2 ^ 32) (hend : p.origin.toNat + p.size.toNat < 2 ^ 32)
    {s t : Scheduler} (hprogram : s.program = p) {done : Bool} {i line : Nat} {pc : UInt32}
    {cause : RunError} (htick : s.tick = (t, ⟨done, some (.runtime i pc line cause)⟩))
    (hcause : cause ≠ .reentrant) :
    (∃ k u v, FaultsIn s i k u v cause ∧ pc = (u.cpuOf i).pc ∧
      pc = ((u.arrive tick i).machine i).pc ∧
      Faulted (some p.pool) ((u.arrive tick i).machine i) cause (t.cpuOf i).pc) ∧
    (∃ task, t.tasks[i]? = some task ∧ task.done = true) ∧
    Attributed p pc line := by
  obtain ⟨hi, k, u, v, hfaults, rfl, hnamed, rfl⟩ := tick_eq_fault htick hcause
  obtain ⟨hpc, hfetch, hfaulted, hlayout⟩ := hfaults.site hi
  obtain rfl := Option.some.inj (hnamed.symm.trans hpc)
  obtain ⟨hcounter, hdone⟩ := retired v (by rw [steady_sameLayout.size hlayout]; exact hi) .fault
  rw [hprogram, ← hcounter] at hfaulted
  refine ⟨⟨k, u, v, hfaults, rfl, hfetch.symm, hfaulted⟩, hdone, ?_⟩
  have hsize := size_of_load hassemble hload hextent
  rw [Loading.assemble_eq_parse] at hassemble
  rw [hlayout.program, hprogram]
  exact attributed_lineNumber (Placement.laid_of_parse hassemble).1 (hsize ▸ hend) hsize _

/-- Counts, and then divides by zero. -/
def dividingProgram : Program where
  origin := 0x1000
  lines := #[
    { number := 1, pc := 0, words := ["addq", "s0", "s0", "1"], codes := [0x0110101f] },
    { number := 2, pc := 4, words := ["divi", "s0", "s0", "0"], codes := [0x10104d, 0x80000000] }]

/-- A task at the start of that program. -/
def dividing : Scheduler where
  mem := ⟨0x1000, 0x1000, #[(dividingProgram.image.flatMap Memory.wordBytes).toArray], by decide⟩
  program := dividingProgram
  tasks := #[.fresh 0 0x1000 0x2000]

/-- The division is reported at its own address and line, and the counter is past its info word. -/
theorem fault_attributed_dividing :
    ∃ t, dividing.tick = (t, ⟨false, some (.runtime 0 0x1004 2
        (.instruction 0x1004 0x10104d .divideByZero))⟩) ∧
      (t.cpuOf 0).pc = 0x100c ∧ (∃ task, t.tasks[0]? = some task ∧ task.done = true) ∧
      Attributed dividingProgram 0x1004 2 := by
  have hassemble : ((Scheduler.ofLayout {}).assemble "addq s0 s0 1\ndivi s0 s0 0").2 =
      .ok dividingProgram := by decide +kernel
  have hload : ((Scheduler.ofLayout {}).load dividingProgram).2 = none := by decide +kernel
  have hresult : dividing.tick.2 = ⟨false, some (.runtime 0 0x1004 2
      (.instruction 0x1004 0x10104d .divideByZero))⟩ := by decide +kernel
  have hcounter : (dividing.tick.1.cpuOf 0).pc = 0x100c := by decide +kernel
  have htick : dividing.tick = (dividing.tick.1, _) := Prod.ext rfl hresult
  obtain ⟨-, hdone, hline⟩ := fault_attributed hassemble (Prod.ext rfl hload) (by decide +kernel)
    (by decide +kernel) (s := dividing) rfl htick nofun
  exact ⟨_, htick, hcounter, hdone, hline⟩

end TaskMachine.Attribution
