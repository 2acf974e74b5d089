import TaskMachine.Proofs.Processor.Bookkeeping

/-!
# A run can be cut at any budget

A run whose budget is spent can be taken up again as if it had never stopped:
the two parts leave what one run with both budgets leaves, and their counts add
up. A run that ended for another reason ends the same way under a larger budget.
-/

namespace TaskMachine.Slicing

open Stateful Bookkeeping

section

variable {σ : Type} {stopping : σ → Bool} {arrive : σ → σ}
  {step : EStateM RunError σ (Option Event)}

/-- The loop ends in its budget or in an event of a step, and two loops are one. -/
theorem cycle_add (hstep : ∀ s e t, step s = .ok (some e) t → e ≠ .budget) (a b : Nat) (s : σ) :
    cycle stopping arrive step (a + b) s =
      if (cycle stopping arrive step a s).2.event = .budget then
        cycle stopping arrive step b (cycle stopping arrive step a s).1
      else cycle stopping arrive step a s := by
  induction a generalizing s with
  | zero =>
    rw [Nat.zero_add]
    simp only [cycle, if_true]
  | succ a ih =>
    rw [Nat.succ_add]
    simp only [cycle]
    split
    · rfl
    · cases h : step (arrive s) with
      | ok event t =>
        cases event with
        | none => exact ih t
        | some e => rw [if_neg (hstep _ e t h)]
      | error e t => rfl

theorem cycle_change {f : σ → σ} (hstop : ∀ s, stopping (f s) = stopping s)
    (harrive : ∀ s, arrive (f s) = f (arrive s)) (hstep : Commutes f step) (n : Nat) (s : σ) :
    cycle stopping arrive step n (f s) =
      (f (cycle stopping arrive step n s).1, (cycle stopping arrive step n s).2) := by
  induction n generalizing s with
  | zero => rfl
  | succ n ih =>
    simp only [cycle]
    rw [hstop, harrive, hstep (arrive s)]
    split
    · rfl
    · cases step (arrive s) with
      | ok event t =>
        cases event with
        | none => exact ih t
        | some e => rfl
      | error e t => rfl

theorem cycle_invariant {P : σ → Prop} (hstep : ∀ s, P s → P (endState (step (arrive s))))
    (n : Nat) (s : σ) (hs : P s) : P (cycle stopping arrive step n s).1 := by
  induction n generalizing s with
  | zero => exact hs
  | succ n ih =>
    simp only [cycle]
    split
    · exact hs
    · have ht := hstep s hs
      cases h : step (arrive s) with
      | ok event t =>
        rw [h] at ht
        cases event with
        | none => exact ih t ht
        | some e => exact ht
      | error e t =>
        rw [h] at ht
        exact ht

end

/-- A step suspends its task only to sleep or to end it. -/
theorem event_of_step {pool : Option Pool} {m n : Machine} {e : Event}
    (h : Machine.step pool m = .ok (some e) n) : e = .sleep ∨ e = .kill := by
  have hsus (action : Action) (he : action.suspension = some e) : e = .sleep ∨ e = .kill := by
    cases action <;> cases he <;> decide
  simp only [Machine.step] at h
  split at h
  · split at h
    · cases h
    · rename_i op _
      split at h
      · exact hsus op.action (EStateM.Result.ok.inj h).1
      · cases h
  · cases h

theorem suspension_ne_budget (pool : Option Pool) (m : Machine) (e : Event) (n : Machine)
    (h : Machine.step pool m = .ok (some e) n) : e ≠ .budget := by
  rcases event_of_step h with rfl | rfl
  · decide
  · decide

/-- The loop of a run without a host. -/
abbrev loop (pool : Option Pool) (n : Nat) (m : Machine) : Machine × Outcome :=
  cycle (·.stopping) id (Machine.step pool) n m

theorem loop_add (pool : Option Pool) (a b : Nat) (m : Machine) :
    loop pool (a + b) m =
      if (loop pool a m).2.event = .budget then loop pool b (loop pool a m).1
      else loop pool a m :=
  cycle_add (suspension_ne_budget pool) a b m

/-- A machine in the middle of a run that nobody asked to stop. -/
def Underway (m : Machine) : Prop := m.running = true ∧ m.stopping = false

theorem underway_loop (pool : Option Pool) (n : Nat) (m : Machine) (hm : Underway m) :
    Underway (loop pool n m).1 := by
  refine cycle_invariant (fun s hs => ?_) n m hm
  obtain ⟨hr, hstop⟩ := flags_step pool s
  exact ⟨hr.trans hs.1, hstop.trans hs.2⟩

theorem loop_change {pool : Option Pool} {f : Machine → Machine}
    (hstep : Commutes f (Machine.step pool)) (hstop : ∀ m, (f m).stopping = m.stopping) (n : Nat)
    (m : Machine) : loop pool n (f m) = (f (loop pool n m).1, (loop pool n m).2) := by
  have harrive (m : Machine) : id (f m) = f (id m) := rfl
  exact cycle_change hstop harrive hstep n m

theorem loop_countedFrom (pool : Option Pool) (k n : Nat) (m : Machine) :
    loop pool n (countedFrom k m) = (countedFrom k (loop pool n m).1, (loop pool n m).2) :=
  loop_change (commutes_step (change_countedFrom k) pool) (fun _ => rfl) n m

theorem loop_silenced (pool : Option Pool) (n : Nat) (m : Machine) :
    loop pool n (silenced m) = (silenced (loop pool n m).1, (loop pool n m).2) :=
  loop_change (commutes_step_silenced pool) (fun _ => rfl) n m

/-- The machine as a run begins. -/
def begun (m : Machine) : Machine := { m with toCpu := m.toCpu.started }

/-- The machine as a run gives it back. -/
def ended (m : Machine) : Machine := { m with toCpu := m.toCpu.finished }

theorem run_of_idle (pool : Option Pool) (n : Nat) (m : Machine) (hm : m.running = false) :
    m.run pool n = (ended (loop pool n (begun m)).1, (loop pool n (begun m)).2) := by
  simp [Machine.run, hm, begun, ended]

/-- Ending a run and beginning the next one only sets the count back. -/
theorem countedFrom_begun_ended (m : Machine) (hm : Underway m) :
    countedFrom m.ran (begun (ended m)) = m := by
  obtain ⟨hr, hs⟩ := hm
  simp only [countedFrom, begun, ended, Cpu.started, Cpu.finished, Nat.zero_add]
  rw [← hr, ← hs]

theorem ended_countedFrom (k : Nat) (m : Machine) :
    ended (countedFrom k m) = { ended m with ran := k + (ended m).ran } := by
  simp only [ended, countedFrom, Cpu.finished, Nat.add_comm]

/-- A run that spends its budget `a` and a further run with budget `b` are one run with both: the
machine is the same but for the count, which is the sum. A run that ends otherwise stays as it is
under the larger budget. -/
theorem run_add_budget (pool : Option Pool) (a b : Nat) (m : Machine) :
    m.run pool (a + b) =
      let (first, outcome) := m.run pool a
      if outcome.event = .budget then
        let (second, outcome) := first.run pool b
        ({ second with ran := first.ran + second.ran }, outcome)
      else (first, outcome) := by
  cases hrun : m.running with
  | true =>
    have h (n : Int) : m.run pool n = (m, ⟨.fault, some .reentrant⟩) := by
      simp [Machine.run, hrun]
    rw [h, h]
    rfl
  | false =>
    have hadd := loop_add pool a b (begun m)
    have hunder := underway_loop pool a (begun m) ⟨rfl, rfl⟩
    rw [← Int.natCast_add, run_of_idle pool (a + b) m hrun, run_of_idle pool a m hrun]
    generalize hfirst : loop pool a (begun m) = first at hadd hunder
    obtain ⟨first, outcome⟩ := first
    dsimp only
    by_cases hb : outcome.event = .budget
    · have hloop : loop pool (a + b) (begun m) = loop pool b first := hadd.trans (if_pos hb)
      -- The second run starts where the first one ended, with its count set back.
      have hagain := loop_countedFrom pool first.ran b (begun (ended first))
      rw [countedFrom_begun_ended first hunder] at hagain
      rw [if_pos hb, hloop, hagain, run_of_idle pool b (ended first) rfl, ended_countedFrom]
      rfl
    · have hloop : loop pool (a + b) (begun m) = (first, outcome) := hadd.trans (if_neg hb)
      rw [if_neg hb, hloop]

end TaskMachine.Slicing
