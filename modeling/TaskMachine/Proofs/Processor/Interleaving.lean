import TaskMachine.Proofs.Processor.Slicing
import Mathlib.Data.List.Induction

/-!
# Stop requests between the steps of a run

A stop may be asked for at any moment of a run. Here a run is cut into its atomic
steps: mark the processor running, clear the stop flag, check at the top of the
loop, fetch and execute one instruction, and give the processor back. A schedule
puts any number of stop requests between them. Left alone the steps make up
`Machine.run`, and what a host of `Watched.run` does is one of the schedules.
Whatever the schedule is, the run returns what it returns undisturbed, or it is
stopped before some instruction, with the machine of a run of just that length.
-/

namespace TaskMachine.Interleaving

open Stateful Bookkeeping Slicing

/-- How far a run has come. -/
inductive Phase where
  | called (budget : Int)
  /-- The processor is marked as running, with the stop flag as it was before. -/
  | marked (budget : Int)
  /-- At the top of the loop, with a number of instructions left. -/
  | top (left : Nat)
  /-- Past the check for a stop; the instruction to come is not among those left. -/
  | checked (left : Nat)
  | leaving (outcome : Outcome)
  | returned (outcome : Outcome)
  deriving DecidableEq, Repr

namespace Phase

/-- Before the stop flag is cleared. -/
def early : Phase → Bool
  | called _ | marked _ => true
  | _ => false

/-- In the loop: the stop flag is cleared and is still going to be looked at, or just was. -/
def looping : Phase → Bool
  | top _ | checked _ => true
  | _ => false

/-- How many instructions are past their check and not yet fetched. -/
def pastCheck : Phase → Nat
  | checked _ => 1
  | _ => 0

end Phase

/-- A machine and the run that has it. -/
structure Thread where
  machine : Machine
  phase : Phase
  deriving DecidableEq, Repr

/-- The run takes a step, or somebody asks for a stop. -/
inductive Act where
  | advance
  | stop
  deriving DecidableEq, Repr

/-- The next atomic step of a run. -/
def advance (pool : Option Pool) (t : Thread) : Thread :=
  match t.phase with
  | .called budget =>
    if t.machine.running then { t with phase := .returned ⟨.fault, some .reentrant⟩ }
    else ⟨withRunning true t.machine, .marked budget⟩
  | .marked budget => ⟨withRan 0 (withStopping false t.machine), .top budget.toNat⟩
  | .top 0 => { t with phase := .leaving ⟨.budget, none⟩ }
  | .top (left + 1) =>
    { t with phase := if t.machine.stopping then .leaving ⟨.stop, none⟩ else .checked left }
  | .checked left =>
    match Machine.step pool t.machine with
    | .ok none m => ⟨m, .top left⟩
    | .ok (some event) m => ⟨m, .leaving ⟨event, none⟩⟩
    | .error e m => ⟨m, .leaving ⟨.fault, some e⟩⟩
  | .leaving outcome => ⟨ended t.machine, .returned outcome⟩
  | .returned _ => t

def act (pool : Option Pool) (t : Thread) : Act → Thread
  | .advance => advance pool t
  | .stop => { t with machine := { t.machine with toCpu := t.machine.toCpu.stop } }

/-- A whole schedule. -/
def exec (pool : Option Pool) (acts : List Act) (t : Thread) : Thread := acts.foldl (act pool) t

/-- How many instructions are fetched in a schedule. -/
def fetches (pool : Option Pool) : List Act → Thread → Nat
  | [], _ => 0
  | .advance :: rest, t => t.phase.pastCheck + fetches pool rest (advance pool t)
  | .stop :: rest, t => fetches pool rest (act pool t .stop)

/-- A run at its call. -/
def call (m : Machine) (budget : Int) : Thread := ⟨m, .called budget⟩

theorem exec_append (pool : Option Pool) (acts more : List Act) (t : Thread) :
    exec pool (acts ++ more) t = exec pool more (exec pool acts t) := List.foldl_append

theorem exec_cons (pool : Option Pool) (a : Act) (acts : List Act) (t : Thread) :
    exec pool (a :: acts) t = exec pool acts (act pool t a) := rfl

theorem exec_concat (pool : Option Pool) (acts : List Act) (a : Act) (t : Thread) :
    exec pool (acts ++ [a]) t = act pool (exec pool acts t) a := by
  rw [exec_append]
  rfl

section

variable {pool : Option Pool} {m : Machine} {budget : Int}

/-! ## One instruction -/

/-- What fetching and executing one instruction does to a thread past its check. -/
theorem advance_checked (pool : Option Pool) (m : Machine) (left : Nat) :
    ∃ n, endState (Machine.step pool m) = n ∧
      ((Machine.step pool m = .ok none n ∧ advance pool ⟨m, .checked left⟩ = ⟨n, .top left⟩) ∨
      (∃ e, Machine.step pool m = .ok (some e) n ∧
        advance pool ⟨m, .checked left⟩ = ⟨n, .leaving ⟨e, none⟩⟩) ∨
      (∃ e, Machine.step pool m = .error e n ∧
        advance pool ⟨m, .checked left⟩ = ⟨n, .leaving ⟨.fault, some e⟩⟩)) := by
  simp only [advance]
  cases hs : Machine.step pool m with
  | ok event n =>
    cases event with
    | none => exact ⟨n, rfl, .inl ⟨rfl, rfl⟩⟩
    | some e => exact ⟨n, rfl, .inr (.inl ⟨e, rfl, rfl⟩)⟩
  | error e n => exact ⟨n, rfl, .inr (.inr ⟨e, rfl, rfl⟩)⟩

/-- The loop of an undisturbed run comes past a machine, stop flag aside. -/
def Reached (pool : Option Pool) (m n : Machine) : Prop :=
  loop pool n.ran (begun m) = (withStopping false n, ⟨.budget, none⟩)

theorem loop_of_reached {n : Machine} (h : Reached pool m n) (k : Nat) :
    loop pool (n.ran + k) (begun m) = loop pool k (withStopping false n) := by
  rw [loop_add, h]
  rfl

theorem step_withStopping (n : Machine) :
    Machine.step pool (withStopping false n) = onState (withStopping false) (Machine.step pool n) :=
  commutes_step (change_withStopping false) pool n

theorem loop_succ_of_reached {n : Machine} (h : Reached pool m n) (k : Nat) :
    loop pool (n.ran + (k + 1)) (begun m) =
      match Machine.step pool n with
      | .ok none n => loop pool k (withStopping false n)
      | .ok (some event) n => (withStopping false n, ⟨event, none⟩)
      | .error e n => (withStopping false n, ⟨.fault, some e⟩) := by
  rw [loop_of_reached h]
  have hstop : (withStopping false n).stopping = false := rfl
  simp only [loop, cycle, hstop, id, step_withStopping]
  cases Machine.step pool n with
  | ok event n => cases event <;> rfl
  | error e n => rfl

theorem Reached.step {n n' : Machine} (h : Reached pool m n)
    (hstep : Machine.step pool n = .ok none n') : Reached pool m n' := by
  have hran := ran_step hstep
  unfold Reached
  rw [hran, loop_succ_of_reached h 0, hstep]
  rfl

/-! ## What a thread has to do with the undisturbed run -/

/-- The invariant of all schedules of a run that was called on `m`. The stop flag is the only
thing that requests for a stop ever change. -/
inductive Tracks (pool : Option Pool) (m : Machine) (budget : Int) : Thread → Prop where
  | called {n : Machine} (same : withStopping false n = withStopping false m) :
    Tracks pool m budget ⟨n, .called budget⟩
  | marked {n : Machine} (idle : m.running = false)
    (same : withStopping false n = withRunning true (withStopping false m)) :
    Tracks pool m budget ⟨n, .marked budget⟩
  | top {n : Machine} {left : Nat} (idle : m.running = false) (reached : Reached pool m n)
    (sum : n.ran + left = budget.toNat) : Tracks pool m budget ⟨n, .top left⟩
  | checked {n : Machine} {left : Nat} (idle : m.running = false) (reached : Reached pool m n)
    (sum : n.ran + (left + 1) = budget.toNat) : Tracks pool m budget ⟨n, .checked left⟩
  | stopping {n : Machine} (idle : m.running = false) (reached : Reached pool m n) :
    Tracks pool m budget ⟨n, .leaving ⟨.stop, none⟩⟩
  | leaving {n : Machine} {o : Outcome} (idle : m.running = false) (unstopped : o.event ≠ .stop)
    (same : loop pool budget.toNat (begun m) = (withStopping false n, o)) :
    Tracks pool m budget ⟨n, .leaving o⟩
  | stopped {n : Machine} (idle : n.running = false)
    (same : m.run pool n.ran = (withStopping false n, ⟨.budget, none⟩)) :
    Tracks pool m budget ⟨n, .returned ⟨.stop, none⟩⟩
  | returned {n : Machine} {o : Outcome} (unstopped : o.event ≠ .stop)
    (same : withStopping false (m.run pool budget).1 = withStopping false n)
    (outcome : (m.run pool budget).2 = o) : Tracks pool m budget ⟨n, .returned o⟩

theorem tracks_stop {t : Thread} (h : Tracks pool m budget t) :
    Tracks pool m budget (act pool t .stop) := by
  cases h with
  | called same => exact .called same
  | marked idle same => exact .marked idle same
  | top idle reached sum => exact .top idle reached sum
  | checked idle reached sum => exact .checked idle reached sum
  | stopping idle reached => exact .stopping idle reached
  | leaving idle unstopped same => exact .leaving idle unstopped same
  | stopped idle same => exact .stopped idle same
  | returned unstopped same outcome => exact .returned unstopped same outcome

/-- A negative budget is none. -/
theorem run_toNat (m : Machine) (budget : Int) :
    m.run pool (budget.toNat : Int) = m.run pool budget := by
  simp only [Machine.run, Int.toNat_natCast]

theorem reached_begun : Reached pool m (begun m) := rfl

/-- The clear makes up for every stop that was asked for before it. -/
theorem advance_marked {n : Machine}
    (same : withStopping false n = withRunning true (withStopping false m)) :
    advance pool ⟨n, .marked budget⟩ = ⟨begun m, .top budget.toNat⟩ := by
  change Thread.mk (withRan 0 (withStopping false n)) (.top budget.toNat) = _
  rw [same]
  rfl

theorem tracks_advance_checked {n : Machine} {left : Nat} (idle : m.running = false)
    (reached : Reached pool m n) (sum : n.ran + (left + 1) = budget.toNat) :
    Tracks pool m budget (advance pool ⟨n, .checked left⟩) := by
  have hloop := loop_succ_of_reached reached left
  rw [sum] at hloop
  obtain ⟨n', -, ⟨hs, hadv⟩ | ⟨e, hs, hadv⟩ | ⟨e, hs, hadv⟩⟩ := advance_checked pool n left
  all_goals
    rw [hadv]
    rw [hs] at hloop
  · have hran := ran_step hs
    exact .top idle (reached.step hs) (by omega)
  · refine .leaving idle ?_ hloop
    rcases event_of_step hs with rfl | rfl
    · decide
    · decide
  · exact .leaving idle (by simp) hloop

theorem tracks_advance {t : Thread} (h : Tracks pool m budget t) :
    Tracks pool m budget (advance pool t) := by
  cases h with
  | @called n same =>
    have hrun : n.running = m.running := congrArg (·.running) same
    simp only [advance, hrun]
    cases hm : m.running with
    | true =>
      have hrefused : m.run pool budget = (m, ⟨.fault, some .reentrant⟩) := by
        simp [Machine.run, hm]
      refine .returned (by decide) ?_ ?_
      · rw [hrefused, same]
      · rw [hrefused]
    | false => exact .marked hm (congrArg (withRunning true) same)
  | marked idle same =>
    rw [advance_marked same]
    exact .top idle reached_begun (Nat.zero_add _)
  | @top n left idle reached sum =>
    cases left with
    | zero =>
      refine .leaving idle (by decide) ?_
      rw [← sum]
      exact reached
    | succ left =>
      simp only [advance]
      cases n.stopping with
      | true => exact .stopping idle reached
      | false => exact .checked idle reached sum
  | checked idle reached sum => exact tracks_advance_checked idle reached sum
  | @stopping n idle reached =>
    refine .stopped rfl ?_
    have hrun := run_of_idle pool n.ran m idle
    rw [reached] at hrun
    exact hrun
  | @leaving n o idle unstopped same =>
    have hrun := run_of_idle pool budget.toNat m idle
    rw [run_toNat, same] at hrun
    refine .returned unstopped ?_ ?_
    · rw [hrun]
      rfl
    · rw [hrun]
  | stopped idle same => exact .stopped idle same
  | returned unstopped same outcome => exact .returned unstopped same outcome

theorem tracks_call (pool : Option Pool) (m : Machine) (budget : Int) :
    Tracks pool m budget (call m budget) := .called rfl

theorem tracks_exec {t : Thread} (h : Tracks pool m budget t) (acts : List Act) :
    Tracks pool m budget (exec pool acts t) := by
  induction acts generalizing t with
  | nil => exact h
  | cons a acts ih =>
    cases a with
    | advance => exact ih (tracks_advance h)
    | stop => exact ih (tracks_stop h)

/-! ## Stop requests that come in time -/

/-- A stop is asked for after the clear and before the loop is left. -/
def StoppedInLoop (pool : Option Pool) (t : Thread) (acts : List Act) : Prop :=
  ∃ pre post, acts = pre ++ .stop :: post ∧ (exec pool pre t).phase.looping = true

/-- The run is in the loop with its stop flag up, or has left because of it. -/
def Flagged (t : Thread) : Prop :=
  (t.phase.looping = true ∧ t.machine.stopping = true) ∨
    ∃ o, o.event = .stop ∧ (t.phase = .leaving o ∨ t.phase = .returned o)

theorem not_flagged_call (m : Machine) (budget : Int) : ¬ Flagged (call m budget) := by
  simp [Flagged, call, Phase.looping]

theorem flagged_of_advance {t : Thread} (h : Flagged (advance pool t)) : Flagged t := by
  obtain ⟨n, phase⟩ := t
  cases phase with
  | called b =>
    by_cases hrun : n.running = true <;> simp [Flagged, advance, hrun, Phase.looping] at h
  | marked b => simp [Flagged, advance, withRan, withStopping] at h
  | top left =>
    cases left with
    | zero => simp [Flagged, advance, Phase.looping] at h
    | succ left =>
      by_cases hstop : n.stopping = true
      · exact .inl ⟨rfl, hstop⟩
      · simp [Flagged, advance, hstop] at h
  | checked left =>
    have hflag := (flags_step pool n).2
    obtain ⟨n', hn, ⟨hs, hadv⟩ | ⟨e, hs, hadv⟩ | ⟨e, hs, hadv⟩⟩ := advance_checked pool n left
    · rw [hadv] at h
      rw [hn] at hflag
      simpa [Flagged, Phase.looping, hflag] using h
    · rw [hadv] at h
      rcases event_of_step hs with rfl | rfl
      · simp [Flagged, Phase.looping] at h
      · simp [Flagged, Phase.looping] at h
    · rw [hadv] at h
      simp [Flagged, Phase.looping] at h
  | leaving o => simpa [Flagged, advance, Phase.looping] using h
  | returned o => exact h

/-- Only a stop in the loop puts the flag up. -/
theorem stoppedInLoop_of_flagged {t : Thread} (ht : ¬ Flagged t) (acts : List Act)
    (h : Flagged (exec pool acts t)) : StoppedInLoop pool t acts := by
  -- From the end: the last act put the flag up, or it was up before.
  induction acts using List.reverseRecOn with
  | nil => exact absurd h ht
  | append_singleton acts a ih =>
    have hmore (hin : StoppedInLoop pool t acts) : StoppedInLoop pool t (acts ++ [a]) := by
      obtain ⟨pre, post, rfl, hphase⟩ := hin
      exact ⟨pre, post ++ [a], by simp, hphase⟩
    rw [exec_concat] at h
    cases a with
    | advance => exact hmore (ih (flagged_of_advance h))
    | stop =>
      rcases h with ⟨hloop, -⟩ | hout
      · exact ⟨acts, [], rfl, hloop⟩
      · exact hmore (ih (.inr hout))

/-- With its stop flag up, a run fetches no instruction but the one past its check. -/
theorem fetches_le_pastCheck (acts : List Act) (t : Thread) (hstop : t.machine.stopping = true)
    (hphase : t.phase.early = false) : fetches pool acts t ≤ t.phase.pastCheck := by
  induction acts generalizing t with
  | nil => exact Nat.zero_le _
  | cons a acts ih =>
    cases a with
    | stop => exact ih (act pool t .stop) rfl hphase
    | advance =>
      obtain ⟨n, phase⟩ := t
      -- No step leads from a raised flag to a phase that is past its check.
      have hnone (t' : Thread) (hadv : advance pool ⟨n, phase⟩ = t')
          (hflag : t'.machine.stopping = true) (hlate : t'.phase.early = false)
          (hpast : t'.phase.pastCheck = 0) :
          fetches pool (.advance :: acts) ⟨n, phase⟩ ≤ phase.pastCheck := by
        have hrest := ih t' hflag hlate
        rw [← hadv] at hrest hpast
        simp only [fetches]
        omega
      cases phase with
      | called b => cases hphase
      | marked b => cases hphase
      | top left =>
        cases left with
        | zero => exact hnone _ rfl hstop rfl rfl
        | succ left =>
          refine hnone ⟨n, .leaving ⟨.stop, none⟩⟩ ?_ hstop rfl rfl
          have hup : n.stopping = true := hstop
          simp only [advance, hup, if_true]
      | checked left =>
        have hflag := (flags_step pool n).2
        obtain ⟨n', hn, ⟨-, hadv⟩ | ⟨e, -, hadv⟩ | ⟨e, -, hadv⟩⟩ := advance_checked pool n left
        all_goals
          rw [hn] at hflag
          exact hnone _ hadv (hflag.trans hstop) rfl rfl
      | leaving o => exact hnone _ rfl hstop rfl rfl
      | returned o => exact hnone _ rfl hstop rfl rfl

/-! ## Schedules that let the run end -/

/-- The most steps that a run still takes. -/
def Phase.remaining : Phase → Nat
  | called budget => 2 * budget.toNat + 4
  | marked budget => 2 * budget.toNat + 3
  | top left => 2 * left + 2
  | checked left => 2 * left + 3
  | leaving _ => 1
  | returned _ => 0

theorem remaining_advance (pool : Option Pool) (t : Thread) :
    (advance pool t).phase.remaining ≤ t.phase.remaining - 1 := by
  obtain ⟨n, phase⟩ := t
  cases phase with
  | called b =>
    simp only [advance]
    split <;> simp [Phase.remaining]
  | marked b => simp [advance, Phase.remaining]
  | top left =>
    cases left with
    | zero => simp [advance, Phase.remaining]
    | succ left =>
      simp only [advance]
      split
      · simp [Phase.remaining]
      · simp only [Phase.remaining]
        omega
  | checked left =>
    obtain ⟨n', -, ⟨-, hadv⟩ | ⟨e, -, hadv⟩ | ⟨e, -, hadv⟩⟩ := advance_checked pool n left
    all_goals
      rw [hadv]
      simp [Phase.remaining]
  | leaving o => simp [advance, Phase.remaining]
  | returned o => simp [advance, Phase.remaining]

theorem remaining_exec (pool : Option Pool) (acts : List Act) (t : Thread) :
    (exec pool acts t).phase.remaining ≤ t.phase.remaining - acts.count .advance := by
  induction acts generalizing t with
  | nil => simp [exec]
  | cons a acts ih =>
    rw [exec_cons]
    have hrest := ih (act pool t a)
    cases a with
    | advance =>
      have hstep := remaining_advance pool t
      rw [List.count_cons_self]
      simp only [act] at hrest ⊢
      omega
    | stop =>
      rw [List.count_cons_of_ne (by decide)]
      exact hrest

/-- Given enough steps the run returns: with what it returns undisturbed, or else stopped by a
request that came while it was in its loop. -/
theorem exec_returns (acts : List Act) (h : 2 * budget.toNat + 4 ≤ acts.count .advance) :
    ∃ n o, exec pool acts (call m budget) = ⟨n, .returned o⟩ ∧
      (o = (m.run pool budget).2 ∧
        withStopping false n = withStopping false (m.run pool budget).1 ∨
      o = ⟨.stop, none⟩ ∧ StoppedInLoop pool (call m budget) acts) := by
  have htracks := tracks_exec (tracks_call pool m budget) acts
  have hflag : Flagged (exec pool acts (call m budget)) → StoppedInLoop pool (call m budget) acts :=
    stoppedInLoop_of_flagged (not_flagged_call m budget) acts
  have hzero : (exec pool acts (call m budget)).phase.remaining = 0 := by
    have hrest := remaining_exec pool acts (call m budget)
    simp only [call, Phase.remaining] at hrest ⊢
    omega
  generalize exec pool acts (call m budget) = t at htracks hflag hzero
  cases htracks with
  | called | marked | top | checked | stopping | leaving => simp [Phase.remaining] at hzero
  | @stopped n idle same =>
    exact ⟨n, _, rfl, .inr ⟨rfl, hflag (.inr ⟨_, rfl, .inr rfl⟩)⟩⟩
  | @returned n o unstopped same outcome =>
    exact ⟨n, o, rfl, .inl ⟨outcome.symm, same.symm⟩⟩

end

/-! ## The hosts of watched runs -/

theorem exec_of_arrive (pool : Option Pool) (s : Watched) (hrun : s.machine.running = true) :
    (s.arrive pool).machine.running = true ∧
    ∃ acts, ∀ phase, exec pool acts ⟨s.machine, phase⟩ = ⟨(s.arrive pool).machine, phase⟩ := by
  have hrefused (n : Machine) (hn : n.running = true) :
      n.run pool 1 = (n, ⟨.fault, some .reentrant⟩) := by
    simp [Machine.run, hn]
  by_cases hstop : s.watch.advanced.stopsNow = true
  · have hmachine : (s.arrive pool).machine = { s.machine with toCpu := s.machine.toCpu.stop } := by
      simp only [Watched.arrive, hstop, if_true]
      split
      · exact congrArg Prod.fst (hrefused { s.machine with toCpu := s.machine.toCpu.stop } hrun)
      · rfl
    rw [hmachine]
    exact ⟨hrun, [.stop], fun _ => rfl⟩
  · have hmachine : (s.arrive pool).machine = s.machine := by
      simp only [Watched.arrive, hstop, Bool.false_eq_true, if_false]
      split
      · exact congrArg Prod.fst (hrefused _ hrun)
      · rfl
    rw [hmachine]
    exact ⟨hrun, [], fun _ => rfl⟩

theorem exec_of_cycle (pool : Option Pool) (left : Nat) (s : Watched)
    (hrun : s.machine.running = true) :
    ∃ acts, exec pool acts ⟨s.machine, .top left⟩ =
      ⟨(cycle (·.machine.stopping) (Watched.arrive pool) (Watched.step pool) left s).1.machine,
        .leaving (cycle (·.machine.stopping) (Watched.arrive pool) (Watched.step pool) left s).2⟩ := by
  induction left generalizing s with
  | zero => exact ⟨[.advance], rfl⟩
  | succ left ih =>
    by_cases hstop : s.machine.stopping = true
    · refine ⟨[.advance], ?_⟩
      simp [exec, act, advance, cycle, hstop]
    · obtain ⟨hrun', stops, hstops⟩ := exec_of_arrive pool s hrun
      have hcheck : act pool ⟨s.machine, .top (left + 1)⟩ .advance = ⟨s.machine, .checked left⟩ := by
        simp [act, advance, hstop]
      -- The check comes first, then what the host does, then the instruction.
      have hexec (acts : List Act) :
          exec pool (.advance :: (stops ++ .advance :: acts)) ⟨s.machine, .top (left + 1)⟩ =
            exec pool acts (advance pool ⟨(s.arrive pool).machine, .checked left⟩) := by
        rw [exec_cons, hcheck, exec_append, hstops]
        rfl
      have hflag := (flags_step pool (s.arrive pool).machine).1
      obtain ⟨n, hn, ⟨hs, hadv⟩ | ⟨e, hs, hadv⟩ | ⟨e, hs, hadv⟩⟩ :=
        advance_checked pool (s.arrive pool).machine left
      all_goals
        rw [hadv] at hexec
        simp only [cycle, hstop, Watched.step, hs, Bool.false_eq_true, if_false]
      · rw [hn] at hflag
        obtain ⟨acts, hacts⟩ := ih { s.arrive pool with machine := n } (hflag.trans hrun')
        exact ⟨_, (hexec acts).trans hacts⟩
      · exact ⟨_, hexec []⟩
      · exact ⟨_, hexec []⟩

/-- What a host does to the run it watches is one of the schedules. -/
theorem exec_of_watched (pool : Option Pool) (budget : Int) (s : Watched) :
    ∃ acts, exec pool acts (call s.machine budget) =
      ⟨(s.run pool budget).1.machine, .returned (s.run pool budget).2⟩ := by
  by_cases hrun : s.machine.running = true
  · refine ⟨[.advance], ?_⟩
    simp [exec, act, advance, call, Watched.run, hrun]
  · obtain ⟨acts, hacts⟩ := exec_of_cycle pool budget.toNat { s with machine := begun s.machine } rfl
    have hbegun : exec pool [.advance, .advance] (call s.machine budget) =
        ⟨begun s.machine, .top budget.toNat⟩ := by
      simp [exec, act, advance, call, hrun]
      rfl
    refine ⟨[.advance, .advance] ++ acts ++ [.advance], ?_⟩
    rw [exec_concat, exec_append, hbegun, hacts]
    simp [Watched.run, hrun]
    rfl

/-! ## Precision -/

/-- Under every schedule of stop requests: those from before the clear make no difference; after
one from behind the clear no instruction is fetched but one that was past its check already; and
a run that returns with a stop was asked for it in its loop, is over, and has left the machine as
the undisturbed run of just as many instructions leaves it. -/
theorem stop_precise (pool : Option Pool) (m : Machine) (budget : Int) (acts : List Act) :
    (∀ pre post, acts = pre ++ .advance :: post →
      (exec pool pre (call m budget)).phase = .marked budget →
        exec pool acts (call m budget) =
          exec pool (.advance :: .advance :: post) (call m budget)) ∧
    (∀ pre post, acts = pre ++ .stop :: post →
      (exec pool pre (call m budget)).phase.early = false →
        fetches pool post (exec pool (pre ++ [.stop]) (call m budget)) ≤
          (exec pool pre (call m budget)).phase.pastCheck) ∧
    (∀ n o, exec pool acts (call m budget) = ⟨n, .returned o⟩ → o.event = .stop →
      o.error = none ∧ StoppedInLoop pool (call m budget) acts ∧ n.running = false ∧
        m.run pool n.ran = ({ n with stopping := false }, ⟨.budget, none⟩)) := by
  refine ⟨?_, ?_, ?_⟩
  · rintro pre post rfl hphase
    have htracks := tracks_exec (tracks_call pool m budget) pre
    rw [exec_append, exec_cons]
    generalize exec pool pre (call m budget) = t at htracks hphase
    cases htracks with
    | @marked n idle same =>
      have hmark : act pool (call m budget) .advance = ⟨withRunning true m, .marked budget⟩ := by
        simp [act, advance, call, idle]
      rw [exec_cons, exec_cons, hmark]
      simp only [act]
      rw [advance_marked same, advance_marked rfl]
    | _ => cases hphase
  · rintro pre post rfl hphase
    rw [exec_concat]
    exact fetches_le_pastCheck post (act pool (exec pool pre (call m budget)) .stop) rfl hphase
  · intro n o hexec hevent
    have htracks := tracks_exec (tracks_call pool m budget) acts
    have hflagged : Flagged (exec pool acts (call m budget)) := by
      rw [hexec]
      exact .inr ⟨o, hevent, .inr rfl⟩
    have hstop := stoppedInLoop_of_flagged (not_flagged_call m budget) acts hflagged
    rw [hexec] at htracks
    cases htracks with
    | stopped idle same => exact ⟨rfl, hstop, idle, same⟩
    | returned unstopped => exact absurd hevent unstopped

/-- The bytes of a word that adds one to a register. -/
def counterBytes : List UInt8 := Memory.wordBytes (Word.ofRegsByte Opcode.addq.code Reg.ra Reg.ra 1)

/-- Four words of code that count in a register. -/
def counting : Machine where
  mem :=
    { base := 0
      data :=
        { size := 16
          pages := #[(List.replicate 4 counterBytes).flatten.toArray]
          fits := by simp [pageSize] } }

/-- Stops before and after the mark, which are lost, and one during the second instruction. -/
def interrupted : List Act :=
  [.stop, .advance, .stop, .advance, .advance, .advance, .advance, .stop, .advance, .advance,
    .advance]

/-- The interrupted count ends after its second instruction, as a count of two does. -/
theorem stop_precise_counting :
    ∃ n, exec none interrupted (call counting 4) = ⟨n, .returned ⟨.stop, none⟩⟩ ∧
      n.ran = 2 ∧ n.regs.get Reg.ra = 2 ∧ n.running = false ∧
      StoppedInLoop none (call counting 4) interrupted ∧
      counting.run none 2 = ({ n with stopping := false }, ⟨.budget, none⟩) ∧
      exec none interrupted (call counting 4) =
        exec none (.advance :: .advance :: interrupted.drop 4) (call counting 4) ∧
      fetches none (interrupted.drop 8) (exec none (interrupted.take 8) (call counting 4)) ≤ 1 := by
  obtain ⟨hlost, hlast, hreturned⟩ := stop_precise none counting 4 interrupted
  have hphase : (exec none interrupted (call counting 4)).phase = .returned ⟨.stop, none⟩ := by
    decide +kernel
  have hran : (exec none interrupted (call counting 4)).machine.ran = 2 := by decide +kernel
  have hreg : (exec none interrupted (call counting 4)).machine.regs.get Reg.ra = 2 := by
    decide +kernel
  have hfirst := hlost (interrupted.take 3) (interrupted.drop 4) rfl (by decide +kernel)
  have hrest := hlast (interrupted.take 7) (interrupted.drop 8) rfl (by decide +kernel)
  generalize exec none interrupted (call counting 4) = t at *
  obtain ⟨n, phase⟩ := t
  dsimp only at hphase hran hreg
  subst hphase
  obtain ⟨-, hin, hidle, hrun⟩ := hreturned n ⟨.stop, none⟩ rfl rfl
  have htwo : ((n.ran : Nat) : Int) = 2 := by rw [hran]; rfl
  rw [htwo] at hrun
  exact ⟨n, rfl, hran, hreg, hidle, hin, hrun, hfirst, hrest⟩

end TaskMachine.Interleaving
