import TaskMachine.Proofs.Store.Words
import TaskMachine.Scheduler.Task

/-!
# What a load that fails leaves behind

A load clears the memory and drops all tasks before it writes the first word, and
takes the program as the loaded one after the last. When a word does not fit it
therefore keeps the program of before, without its tasks and without its image:
memory holds the words of the new image up to the one that does not fit, and
zeros.
-/

namespace TaskMachine.FailedLoad

open Words

/-- The words of an image with their addresses, up to the first one that is not mapped. -/
def fitting (mem : Memory) (p : Program) : List (UInt32 × UInt32) :=
  (addressed p.origin p.image).takeWhile fun d => mem.accessible d.1 4

/-- The first word of an image that is not mapped, with its address. -/
def misfit? (mem : Memory) (p : Program) : Option (UInt32 × UInt32) :=
  (addressed p.origin p.image).find? fun d => !mem.accessible d.1 4

theorem accessible_cleared (mem : Memory) (addr size : UInt32) :
    mem.cleared.accessible addr size = mem.accessible addr size := by
  unfold Memory.accessible Memory.offset Memory.cleared
  rw [Bytes.size_zeros]

theorem accessible_fitting {mem : Memory} {p : Program} {d : UInt32 × UInt32}
    (h : d ∈ fitting mem p) : mem.accessible d.1 4 = true :=
  List.all_eq_true.mp List.all_takeWhile d h

/-- The words that fit are the first ones of the image. -/
theorem fitting_eq_addressed (mem : Memory) (p : Program) :
    fitting mem p = addressed p.origin (p.image.take (fitting mem p).length) := by
  have htake : fitting mem p = (addressed p.origin p.image).take (fitting mem p).length :=
    List.prefix_iff_eq_take.mp (List.takeWhile_prefix _)
  rw [take_addressed] at htake
  exact htake

/-- What a load does, by the first word that does not fit. -/
theorem load_eq_of_misfit (s : Scheduler) (p : Program) :
    s.load p =
      match misfit? s.mem p with
      | none =>
        ({ s with mem := writeAll s.mem.cleared (fitting s.mem p), program := p, tasks := #[] },
          none)
      | some d =>
        ({ s with mem := writeAll s.mem.cleared (fitting s.mem p), tasks := #[] },
          some ⟨d.1, 4⟩) := by
  have hload := load_eq s.mem.cleared p.origin p.image
  simp only [accessible_cleared] at hload
  unfold Scheduler.load misfit? fitting
  rw [hload]
  cases (addressed p.origin p.image).find? fun d => !s.mem.accessible d.1 4 with
  | none => rfl
  | some d => rfl

/-- A load that fails keeps the program and the settings and drops all tasks. Memory keeps its
extent; it holds the words of the image before the one that does not fit, whose address the error
names, and zeros. -/
theorem failed_load_leaves {s t : Scheduler} {p : Program} {e : AddressError}
    (h : s.load p = (t, some e)) :
    t = { s with mem := t.mem, tasks := #[] } ∧
    t.mem.base = s.mem.base ∧ t.mem.data.size = s.mem.data.size ∧
    (∃ d, misfit? s.mem p = some d ∧ e = ⟨d.1, 4⟩) ∧
    (∀ i, (∀ d ∈ fitting s.mem p, ¬ Covers t.mem d.1 i) → t.mem.byteAt i = 0) ∧
    (s.mem.data.size < UInt32.size → ∀ d ∈ fitting s.mem p, t.mem.read32 d.1 = .ok d.2) := by
  rw [load_eq_of_misfit] at h
  cases hmisfit : misfit? s.mem p with
  | none =>
    rw [hmisfit] at h
    cases h
  | some d =>
    rw [hmisfit] at h
    cases h
    have hacc : ∀ d ∈ fitting s.mem p, s.mem.cleared.accessible d.1 4 = true := by
      intro d hd
      rw [accessible_cleared]
      exact accessible_fitting hd
    have hbase := base_writeAll s.mem.cleared (fitting s.mem p)
    refine ⟨rfl, hbase, ?_, ⟨d, rfl, rfl⟩, fun i hi => ?_, fun hsize => ?_⟩
    · exact (size_writeAll _ _).trans (Bytes.size_zeros _)
    · have hout : ∀ d ∈ fitting s.mem p, ¬ Covers s.mem.cleared d.1 i := by
        intro d hd
        have hnot := hi d hd
        unfold Covers Memory.offset at hnot ⊢
        rwa [hbase] at hnot
      exact (byteAt_writeAll hacc hout).trans (Bytes.get_zeros s.mem.data.size i)
    · have hwords := fitting_eq_addressed s.mem p
      have hmapped : ∀ d ∈ addressed p.origin (p.image.take (fitting s.mem p).length),
          s.mem.accessible d.1 4 = true := by
        rw [← hwords]
        exact fun d hd => accessible_fitting hd
      have hapart := apart_addressed p.origin (length_le_of_accessible hsize hmapped)
      rw [← hwords] at hapart
      exact read32_writeAll hacc hapart

/-- A task at work on a program of one word, in a memory of four. -/
def working : Scheduler where
  mem := ⟨0x1000, 16, #[(Memory.wordBytes 7).toArray], by decide⟩
  program := { origin := 0x1000, lines := #[{ number := 1, pc := 0, words := [], codes := [7] }] }
  tasks := #[.fresh 0 0x1000 0x1010]
  stackSize := 4

/-- A program of five words. -/
def oversized : Program where
  origin := 0x1000
  lines := #[{ number := 1, pc := 0, words := [], codes := [1, 2, 3, 4, 5] }]

theorem failed_load_leaves_four :
    (working.load oversized).2 = some ⟨0x1010, 4⟩ ∧
    (working.load oversized).1.program = working.program ∧
    (working.load oversized).1.tasks = #[] ∧
    (working.load oversized).1.mem.read32 0x100c = .ok 4 := by
  have herror : (working.load oversized).2 = some ⟨0x1010, 4⟩ := by decide +kernel
  have hfit : fitting working.mem oversized =
      [(0x1000, 1), (0x1004, 2), (0x1008, 3), (0x100c, 4)] := by decide +kernel
  generalize hload : working.load oversized = r at herror
  obtain ⟨t, e⟩ := r
  cases herror
  obtain ⟨hstate, -, -, -, -, hread⟩ := failed_load_leaves hload
  have hprogram := congrArg Scheduler.program hstate
  have htasks := congrArg Scheduler.tasks hstate
  refine ⟨rfl, hprogram, htasks, ?_⟩
  exact hread (by decide) (0x100c, 4) (by rw [hfit]; decide)

/-- A program that does not fit costs the scheduler its tasks and its memory. -/
theorem failed_load_changes :
    ¬ ∀ (s t : Scheduler) (p : Program) (e : AddressError), s.load p = (t, some e) →
      t.mem = s.mem ∧ t.tasks = s.tasks ∧ t.program = s.program := by
  intro hclaim
  have herror : (working.load oversized).2 = some ⟨0x1010, 4⟩ := by decide +kernel
  have htasks : (working.load oversized).1.tasks = #[] := by decide +kernel
  generalize hload : working.load oversized = r at herror htasks
  obtain ⟨t, e⟩ := r
  cases herror
  have hsame := (hclaim working t oversized _ hload).2.1
  rw [show t.tasks = #[] from htasks] at hsame
  cases hsame

end TaskMachine.FailedLoad
