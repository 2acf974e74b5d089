import TaskMachine.Expr.Script
import TaskMachine.Proofs.Scheduler.Loading
import TaskMachine.Proofs.Scheduler.Ticks

/-!
# The stack windows of the tasks

The window of a new task is computed from the number of tasks and the stack size
of the moment, and not from the windows that are in use. It lies in memory above
the program. Whether it meets the window of another task is a matter of how far
below the end of memory the two begin: as long as all tasks get stacks of one
size every window ends where the one before begins, and after a change of the
size a new window may lie within an old one.
-/

namespace TaskMachine.StackWindows

open Ticks Scheduler

/-! ## Windows -/

/-- The addresses below `top` that are set aside for a task. -/
structure Window where
  top : UInt32
  size : UInt32
  deriving DecidableEq, Repr

namespace Window

/-- The address belongs to the window. -/
def Holds (w : Window) (a : Nat) : Prop := w.top.toNat ≤ a + w.size.toNat ∧ a < w.top.toNat

/-- No address belongs to both windows. -/
def Apart (v w : Window) : Prop := ∀ a, v.Holds a → ¬ w.Holds a

/-- The window is mapped. -/
def InMemory (w : Window) (m : Memory) : Prop :=
  m.base.toNat + w.size.toNat ≤ w.top.toNat ∧ w.top.toNat ≤ m.base.toNat + m.data.size

/-- The window begins behind the last word of the program. -/
def AboveImage (w : Window) (p : Program) : Prop :=
  p.origin.toNat + 4 * p.image.length + w.size.toNat ≤ w.top.toNat

/-- Windows that do not wrap around are apart when one is empty or ends where the other begins or
before. -/
theorem apart_iff {v w : Window} (hv : v.size.toNat ≤ v.top.toNat)
    (hw : w.size.toNat ≤ w.top.toNat) :
    Apart v w ↔ v.size = 0 ∨ w.size = 0 ∨ w.top.toNat + v.size.toNat ≤ v.top.toNat ∨
      v.top.toNat + w.size.toNat ≤ w.top.toNat := by
  rw [← UInt32.toNat_inj, ← UInt32.toNat_inj]
  change _ ↔ v.size.toNat = 0 ∨ w.size.toNat = 0 ∨ _
  constructor
  · intro hapart
    -- The higher one of the two lowest addresses belongs to both unless they are apart.
    have hlowest := hapart (max (v.top.toNat - v.size.toNat) (w.top.toNat - w.size.toNat))
    unfold Holds at hlowest
    omega
  · intro h a hva hwa
    unfold Holds at hva hwa
    omega

end Window

/-- How far below the end of memory a task with some tasks before it is placed. -/
def depth (i : Nat) (size : UInt32) : Nat := i * size.toNat % 2 ^ 32

theorem toNat_ofNat_mul (i : Nat) (size : UInt32) :
    (UInt32.ofNat i * size).toNat = depth i size := by
  rw [UInt32.toNat_mul, UInt32.toNat_ofNat', Nat.mod_mul_mod]
  rfl

/-- A difference that is not above its minuend has not wrapped around. -/
theorem toNat_sub_add {a b : UInt32} (h : a - b ≤ a) : (a - b).toNat + b.toNat = a.toNat := by
  have ha := a.toNat_lt
  have hb := b.toNat_lt
  rw [UInt32.le_iff_toNat_le, UInt32.toNat_sub] at h
  rw [UInt32.toNat_sub]
  omega

/-! ## One task -/

/-- The window has passed the checks for a task with some tasks before it. -/
structure Carved (s : Scheduler) (i : Nat) (w : Window) : Prop where
  top : w.top = s.mem.endAddr - UInt32.ofNat i * w.size
  below : w.top ≤ s.mem.endAddr
  unwrapped : w.top - w.size ≤ w.top
  above : s.program.origin + s.program.size ≤ w.top - w.size

theorem carved_of_nextStack? {s : Scheduler} {top : UInt32} (h : s.nextStack? = some top) :
    Carved s s.tasks.size ⟨top, s.stackSize⟩ := by
  unfold Scheduler.nextStack? at h
  dsimp only at h
  split at h
  · cases h
  · rename_i hchecks
    cases h
    simp only [not_or, UInt32.not_lt] at hchecks
    exact ⟨rfl, hchecks.1, hchecks.2.1, hchecks.2.2⟩

namespace Carved

variable {s : Scheduler} {i j : Nat} {v w : Window}

theorem top_add_depth (h : Carved s i w) :
    w.top.toNat + depth i w.size = s.mem.endAddr.toNat := by
  have hbelow := h.below
  rw [h.top] at hbelow
  rw [h.top, ← toNat_ofNat_mul]
  exact toNat_sub_add hbelow

theorem toNat_bottom (h : Carved s i w) :
    (w.top - w.size).toNat + w.size.toNat = w.top.toNat :=
  toNat_sub_add h.unwrapped

/-- The windows of two tasks are apart exactly when their depths say so. -/
theorem apart_iff_depth (hv : Carved s i v) (hw : Carved s j w) :
    v.Apart w ↔ v.size = 0 ∨ w.size = 0 ∨ depth i v.size + v.size.toNat ≤ depth j w.size ∨
      depth j w.size + w.size.toNat ≤ depth i v.size := by
  have hvtop := hv.top_add_depth
  have hwtop := hw.top_add_depth
  have hvbottom := hv.toNat_bottom
  have hwbottom := hw.toNat_bottom
  rw [Window.apart_iff (by omega) (by omega)]
  refine or_congr Iff.rfl (or_congr Iff.rfl (or_congr ?_ ?_))
  · omega
  · omega

/-- Where the image ends inside the address space, the window lies between it and the end of
memory. The end of a memory that reaches past the address space is an address below all of it, so
no window fits there. -/
theorem placed (h : Carved s i w) (horigin : s.program.origin = s.mem.base)
    (hsize : s.program.size = UInt32.ofNat (4 * s.program.image.length))
    (hextent : s.mem.data.size < 2 ^ 32)
    (himage : s.program.origin.toNat + 4 * s.program.image.length < 2 ^ 32) :
    w.InMemory s.mem ∧ w.AboveImage s.program := by
  have hbottom := h.toNat_bottom
  have htop := h.below
  have habove := h.above
  have hlimit : (s.program.origin + s.program.size).toNat =
      s.program.origin.toNat + 4 * s.program.image.length := by
    rw [hsize, UInt32.toNat_add, UInt32.toNat_ofNat_of_lt' (by change _ < 2 ^ 32; omega)]
    exact Nat.mod_eq_of_lt himage
  have hend : s.mem.endAddr.toNat = (s.mem.base.toNat + s.mem.data.size) % 2 ^ 32 := by
    rw [Memory.endAddr, UInt32.toNat_add, UInt32.toNat_ofNat_of_lt' hextent]
  rw [UInt32.le_iff_toNat_le] at htop habove
  have hbase := s.mem.base.toNat_lt
  rw [hlimit, horigin] at habove
  unfold Window.InMemory Window.AboveImage
  rw [horigin]
  omega

end Carved

/-! ## Histories -/

/-- The stack sizes of the tasks: each is the one in force when its task was spawned. -/
def reserve : Call → Scheduler → List UInt32 → List UInt32
  | .load _, _, _ => []
  | .spawn entry, s, sizes =>
    match s.spawn entry with
    | .ok _ => sizes ++ [s.stackSize]
    | .error _ => sizes
  | _, _, sizes => sizes

/-- The windows of the tasks, by their stack sizes. -/
def windows (s : Scheduler) (sizes : List UInt32) : List Window :=
  List.zipWith Window.mk (s.tasks.map (·.stack)).toList sizes

theorem windows_nil (s : Scheduler) : windows s [] = [] := by
  rw [windows, List.zipWith_nil_right]

/-- A new task adds its window behind the others. -/
theorem windows_push {s : Scheduler} {sizes : List UInt32} (hcount : sizes.length = s.tasks.size)
    (task : Task) (size : UInt32) (log : Log) :
    windows { s with tasks := s.tasks.push task, log } (sizes ++ [size]) =
      windows s sizes ++ [⟨task.stack, size⟩] := by
  have hlength : (s.tasks.map (·.stack)).toList.length = sizes.length := by simp [hcount]
  simp only [windows, Array.map_push, Array.toList_push]
  rw [List.zipWith_append hlength]
  rfl

theorem endAddr_of_sameLayout {s t : Scheduler} (h : SameLayout s t) :
    t.mem.endAddr = s.mem.endAddr := by
  rw [Memory.endAddr, Memory.endAddr, h.base, h.size]

/-- Beside loads, spawns and changes of the stack size no call touches the layout. -/
theorem perform_cases (call : Call) (s : Scheduler) :
    (∃ p, call = .load p) ∨ (∃ entry, call = .spawn entry) ∨
      (∃ stackSize, call = .resize stackSize) ∨
      SameLayout s (call.perform s) ∧ ∀ sizes, reserve call s sizes = sizes := by
  have hrun (n : Nat) (t : Scheduler) : SameLayout t (Scheduler.run n t).1 :=
    steady_sameLayout.run n t
  cases call with
  | load p => exact .inl ⟨p, rfl⟩
  | spawn entry => exact .inr (.inl ⟨entry, rfl⟩)
  | resize stackSize => exact .inr (.inr (.inl ⟨stackSize, rfl⟩))
  | tick => exact .inr (.inr (.inr ⟨steady_sameLayout.tick s, fun _ => rfl⟩))
  | run n => exact .inr (.inr (.inr ⟨hrun n s, fun _ => rfl⟩))
  | runInterrupted =>
    have hhosts : SameLayout s { s with tasks := s.tasks.map interruptible } :=
      ⟨rfl, rfl, rfl, rfl, by rw [Array.map_map]; rfl⟩
    exact .inr (.inr (.inr ⟨steady_sameLayout.trans hhosts (hrun _ _), fun _ => rfl⟩))
  | rebudget budget => exact .inr (.inr (.inr ⟨⟨rfl, rfl, rfl, rfl, rfl⟩, fun _ => rfl⟩))
  | watch i host =>
    have hwatch : SameLayout s (s.watchTask i host) :=
      ⟨rfl, rfl, rfl, rfl, tops_modifyTask s i fun _ _ => rfl⟩
    exact .inr (.inr (.inr ⟨hwatch, fun _ => rfl⟩))

/-- Every task has its window, which was carved from the memory above the program. -/
structure AllCarved (s : Scheduler) (sizes : List UInt32) : Prop where
  count : sizes.length = s.tasks.size
  carved : ∀ i w, (windows s sizes)[i]? = some w → Carved s i w

namespace AllCarved

variable {s t : Scheduler} {sizes : List UInt32}

theorem of_no_tasks (h : s.tasks = #[]) : AllCarved s [] where
  count := by rw [h]; rfl
  carved i w hw := by
    rw [windows_nil] at hw
    cases hw

theorem of_sameLayout (h : AllCarved s sizes) (ht : SameLayout s t) : AllCarved t sizes where
  count := by rw [h.count, steady_sameLayout.size ht]
  carved i w hw := by
    rw [windows, ht.tops] at hw
    have hcarved := h.carved i w hw
    have hend := endAddr_of_sameLayout ht
    exact ⟨hend ▸ hcarved.top, hend ▸ hcarved.below, hcarved.unwrapped,
      ht.program ▸ hcarved.above⟩

theorem load (s : Scheduler) (p : Program) : AllCarved (s.load p).1 [] := by
  refine of_no_tasks ?_
  unfold Scheduler.load
  split
  · rfl
  · rfl

theorem spawn (h : AllCarved s sizes) (entry : UInt32) :
    AllCarved ((Call.spawn entry).perform s) (reserve (.spawn entry) s sizes) := by
  simp only [Call.perform, reserve]
  cases hspawn : s.spawn entry with
  | error e => exact h
  | ok t =>
    obtain ⟨top, log, hnext, rfl⟩ := spawn_eq_ok hspawn
    have hlength : (windows s sizes).length = s.tasks.size := by simp [windows, h.count]
    refine ⟨?_, fun i w hw => ?_⟩
    · rw [List.length_append, h.count, List.length_singleton, Array.size_push]
    · rw [windows_push h.count, List.getElem?_append, hlength] at hw
      split at hw
      · have hold := h.carved i w hw
        exact ⟨hold.top, hold.below, hold.unwrapped, hold.above⟩
      · rename_i hi
        rw [List.getElem?_singleton] at hw
        split at hw
        · cases hw
          have hindex : i = s.tasks.size := by omega
          have hnew := carved_of_nextStack? hnext
          rw [hindex]
          exact ⟨hnew.top, hnew.below, hnew.unwrapped, hnew.above⟩
        · cases hw

theorem perform (h : AllCarved s sizes) (call : Call) :
    AllCarved (call.perform s) (reserve call s sizes) := by
  obtain ⟨p, rfl⟩ | ⟨entry, rfl⟩ | ⟨stackSize, rfl⟩ | ⟨hlayout, hsizes⟩ := perform_cases call s
  · exact load s p
  · exact h.spawn entry
  · refine ⟨h.count, fun i w hw => ?_⟩
    have hold := h.carved i w hw
    exact ⟨hold.top, hold.below, hold.unwrapped, hold.above⟩
  · rw [hsizes]
    exact h.of_sameLayout hlayout

/-- With stacks of one size up to a task, the tasks before it fill the memory above its window. -/
theorem depth_of_sameSize (h : AllCarved s sizes) {n : UInt32} {j : Nat}
    (hsizes : ∀ k < j, sizes[k]? = some n) : j * n.toNat ≤ s.mem.endAddr.toNat := by
  induction j with
  | zero => rw [Nat.zero_mul]; exact Nat.zero_le _
  | succ k ih =>
    have hk := ih fun k' hk' => hsizes k' (Nat.lt_succ_of_lt hk')
    have hsize := hsizes k (Nat.lt_succ_self k)
    have hlt : k < s.tasks.size := h.count ▸ (List.getElem?_eq_some_iff.mp hsize).1
    have hwindow : (windows s sizes)[k]? = some ⟨(s.tasks[k]).stack, n⟩ := by
      simp [windows, List.getElem?_zipWith, hsize, hlt]
    have hcarved := h.carved k _ hwindow
    have htop := hcarved.top_add_depth
    have hbottom := hcarved.toNat_bottom
    have hdepth : depth k n = k * n.toNat :=
      Nat.mod_eq_of_lt (Nat.lt_of_le_of_lt hk s.mem.endAddr.toNat_lt)
    rw [hdepth] at htop
    dsimp only at hbottom htop
    rw [Nat.succ_mul]
    omega

end AllCarved

/-- The program was assembled for a memory that begins where the layout has it. -/
def Assembled [Interpreter] (l : Layout) (p : Program) : Prop :=
  ∃ s text, s.mem.base = l.origin ∧ (Scheduler.assemble s text).2 = .ok p

/-- The program and the memory begin together, and all windows are carved from that memory. -/
structure Handed (l : Layout) (s : Scheduler) (sizes : List UInt32) : Prop where
  base : s.mem.base = l.origin
  extent : s.mem.data.size = l.memorySize.toNat
  origin : s.program.origin = l.origin
  imageSize : s.program.size = UInt32.ofNat (4 * s.program.image.length)
  count : sizes.length = s.tasks.size
  carved : ∀ i w, (windows s sizes)[i]? = some w → Carved s i w

theorem handed_ofLayout (l : Layout) : Handed l (.ofLayout l) [] where
  base := rfl
  extent := Bytes.size_zeros _
  origin := rfl
  imageSize := rfl
  count := rfl
  carved := (AllCarved.of_no_tasks rfl).carved

/-- A load keeps the extent of the memory, and puts no program but its own in place. -/
theorem load_cases (s : Scheduler) (p : Program) :
    (s.load p).1.mem.base = s.mem.base ∧ (s.load p).1.mem.data.size = s.mem.data.size ∧
      ((s.load p).2 = none ∧ (s.load p).1.program = p ∨ (s.load p).1.program = s.program) := by
  have hmem : (s.mem.cleared.load p.origin p.image).1.base = s.mem.base ∧
      (s.mem.cleared.load p.origin p.image).1.data.size = s.mem.data.size := by
    rw [Words.load_eq, Words.base_writeAll, Words.size_writeAll]
    exact ⟨rfl, Bytes.size_zeros _⟩
  unfold Scheduler.load
  generalize s.mem.cleared.load p.origin p.image = r at hmem
  obtain ⟨mem, e⟩ := r
  cases e with
  | none => exact ⟨hmem.1, hmem.2, .inl ⟨rfl, rfl⟩⟩
  | some e => exact ⟨hmem.1, hmem.2, .inr rfl⟩

theorem spawn_keeps (entry : UInt32) (s : Scheduler) :
    ((Call.spawn entry).perform s).mem = s.mem ∧
      ((Call.spawn entry).perform s).program = s.program := by
  simp only [Call.perform]
  cases hspawn : s.spawn entry with
  | error e => exact ⟨rfl, rfl⟩
  | ok t =>
    obtain ⟨top, log, -, rfl⟩ := spawn_eq_ok hspawn
    exact ⟨rfl, rfl⟩

namespace Handed

variable {l : Layout} {s t : Scheduler} {sizes : List UInt32}

theorem allCarved (h : Handed l s sizes) : AllCarved s sizes := ⟨h.count, h.carved⟩

/-- The windows are carved, and the program is one for the memory. -/
theorem of_allCarved (h : AllCarved s sizes) (hbase : s.mem.base = l.origin)
    (hextent : s.mem.data.size = l.memorySize.toNat) (horigin : s.program.origin = l.origin)
    (hsize : s.program.size = UInt32.ofNat (4 * s.program.image.length)) : Handed l s sizes :=
  ⟨hbase, hextent, horigin, hsize, h.count, h.carved⟩

theorem load [Interpreter] (h : Handed l s sizes) {p : Program} (hp : Assembled l p) :
    Handed l (s.load p).1 [] := by
  obtain ⟨s', text, hbase', hassemble⟩ := hp
  rw [Loading.assemble_eq_parse] at hassemble
  obtain ⟨hbase, hextent, hprogram⟩ := load_cases s p
  refine of_allCarved (AllCarved.load s p) (hbase.trans h.base) (hextent.trans h.extent) ?_ ?_
  · rcases hprogram with ⟨-, hprogram⟩ | hprogram
    · rw [hprogram, Linkage.origin_of_parse hassemble]
      exact hbase'
    · rw [hprogram, h.origin]
  · rcases hprogram with ⟨-, hprogram⟩ | hprogram
    · rw [hprogram, Placement.size_of_parse hassemble]
    · rw [hprogram, h.imageSize]

theorem perform [Interpreter] (h : Handed l s sizes) {call : Call}
    (hp : ∀ p, call = .load p → Assembled l p) : Handed l (call.perform s) (reserve call s sizes) := by
  have hcarved := h.allCarved.perform call
  obtain ⟨p, rfl⟩ | ⟨entry, rfl⟩ | ⟨stackSize, rfl⟩ | ⟨hlayout, -⟩ := perform_cases call s
  · exact h.load (hp p rfl)
  · obtain ⟨hmem, hprogram⟩ := spawn_keeps entry s
    exact of_allCarved hcarved (by rw [hmem, h.base]) (by rw [hmem, h.extent])
      (by rw [hprogram, h.origin]) (by rw [hprogram, h.imageSize])
  · exact of_allCarved hcarved h.base h.extent h.origin h.imageSize
  · exact of_allCarved hcarved (hlayout.base.trans h.base) (hlayout.size.trans h.extent)
      (by rw [hlayout.program, h.origin]) (by rw [hlayout.program, h.imageSize])

theorem depth_of_sameSize (h : Handed l s sizes) {n : UInt32} {j : Nat}
    (hsizes : ∀ k < j, sizes[k]? = some n) : j * n.toNat ≤ s.mem.endAddr.toNat :=
  h.allCarved.depth_of_sameSize hsizes

end Handed

/-- After every history of loads, spawns, ticks, runs and changes of the settings every task has its
window. Where the image of the program ends inside the address space, the windows lie in memory
above it. Two of them are apart exactly when their depths say so, and so they are when all tasks up
to the later one were spawned with one stack size. -/
theorem windows_apart_unless_resized [Interpreter] (l : Layout) (history : List Call)
    (hprograms : ∀ p, Call.load p ∈ history → Assembled l p) (s : Scheduler) (sizes : List UInt32)
    (hafter : after reserve history (.ofLayout l) [] = (s, sizes)) :
    (windows s sizes).length = s.tasks.size ∧
    ∀ j w, (windows s sizes)[j]? = some w →
      (s.program.origin.toNat + 4 * s.program.image.length < 2 ^ 32 →
        w.InMemory s.mem ∧ w.AboveImage s.program) ∧
      ∀ i v, i < j → (windows s sizes)[i]? = some v →
        (v.Apart w ↔ v.size = 0 ∨ w.size = 0 ∨ depth i v.size + v.size.toNat ≤ depth j w.size ∨
          depth j w.size + w.size.toNat ≤ depth i v.size) ∧
        ((∀ k < j, sizes[k]? = some w.size) → v.Apart w) := by
  have hhanded : Handed l s sizes := by
    have hall : Handed l (after reserve history (.ofLayout l) []).1
        (after reserve history (.ofLayout l) []).2 := by
      refine after_invariant (fun call hcall s sizes hs => ?_) (handed_ofLayout l)
      exact hs.perform fun p hp => hprograms p (hp ▸ hcall)
    rwa [hafter] at hall
  refine ⟨by simp [windows, hhanded.count], fun j w hw => ?_⟩
  have hcarved := hhanded.carved j w hw
  refine ⟨fun himage => ?_, fun i v hij hv => ?_⟩
  · have hextent : s.mem.data.size < 2 ^ 32 := hhanded.extent ▸ l.memorySize.toNat_lt
    exact hcarved.placed (hhanded.origin.trans hhanded.base.symm) hhanded.imageSize hextent himage
  · have hiff := (hhanded.carved i v hv).apart_iff_depth hcarved
    refine ⟨hiff, fun hsame => hiff.mpr ?_⟩
    have hsize : v.size = w.size := by
      have hi := hsame i hij
      rw [windows, List.getElem?_zipWith, hi] at hv
      split at hv
      · cases hv
        rename_i hsome
        exact (Option.some.inj hsome).symm
      · cases hv
    -- No product of a count up to `j` and the common size wraps around.
    have hfits := hhanded.depth_of_sameSize hsame
    have hnext : (i + 1) * w.size.toNat ≤ j * w.size.toNat := Nat.mul_le_mul_right _ hij
    have hend := s.mem.endAddr.toNat_lt
    rw [Nat.succ_mul] at hnext
    have hi : depth i w.size = i * w.size.toNat := Nat.mod_eq_of_lt (by omega)
    have hj : depth j w.size = j * w.size.toNat := Nat.mod_eq_of_lt (by omega)
    rw [hsize, hi, hj]
    exact .inr (.inr (.inl hnext))

/-- A memory of one page. -/
def onePage : Layout := ({} : Layout).withMemory 0x1000

/-- A task that ends itself. -/
def ending : Program where
  origin := 0x1000
  lines := #[{ number := 1, pc := 0, words := ["killtask"], codes := [0x46] }]

theorem assembled_ending : Assembled onePage ending :=
  ⟨.ofLayout onePage, "killtask", rfl, by decide +kernel⟩

/-- Two tasks with stacks of the usual size are apart, and above the program. -/
theorem windows_apart_unless_resized_twice :
    let r := after reserve [.load ending, .spawn 0x1000, .spawn 0x1000] (.ofLayout onePage) []
    windows r.1 r.2 = [⟨0x2000, 0x400⟩, ⟨0x1c00, 0x400⟩] ∧
    Window.Apart ⟨0x2000, 0x400⟩ ⟨0x1c00, 0x400⟩ ∧
    Window.AboveImage ⟨0x1c00, 0x400⟩ r.1.program := by
  intro r
  have hwindows : windows r.1 r.2 = [⟨0x2000, 0x400⟩, ⟨0x1c00, 0x400⟩] := by decide +kernel
  have hsizes : r.2 = [0x400, 0x400] := by decide +kernel
  have himage : r.1.program.origin.toNat + 4 * r.1.program.image.length < 2 ^ 32 := by
    decide +kernel
  obtain ⟨-, hwindow⟩ := windows_apart_unless_resized onePage
    [.load ending, .spawn 0x1000, .spawn 0x1000]
    (fun p hp => by
      simp only [List.mem_cons, Call.load.injEq, reduceCtorEq, List.not_mem_nil, or_false] at hp
      exact hp ▸ assembled_ending)
    r.1 r.2 rfl
  obtain ⟨hplaced, hapart⟩ := hwindow 1 ⟨0x1c00, 0x400⟩ (by rw [hwindows]; rfl)
  refine ⟨hwindows, ?_, (hplaced himage).2⟩
  refine (hapart 0 ⟨0x2000, 0x400⟩ (by decide) (by rw [hwindows]; rfl)).2 fun k hk => ?_
  have hk : k = 0 := Nat.lt_one_iff.mp hk
  rw [hsizes, hk]
  rfl

/-- After a change from a large to a small stack size the second task gets a window within that of
the first. -/
theorem windows_overlap_resized :
    let history := [.load ending, .spawn 0x1000, .resize 0x100, .spawn 0x1000]
    (∀ p, Call.load p ∈ history → Assembled onePage p) ∧
    ∃ v w, (let r := after reserve history (.ofLayout onePage) []; windows r.1 r.2) = [v, w] ∧
      ¬ v.Apart w := by
  intro history
  constructor
  · intro p hp
    simp only [history, List.mem_cons, Call.load.injEq, reduceCtorEq, List.not_mem_nil,
      or_false] at hp
    exact hp ▸ assembled_ending
  · refine ⟨⟨0x2000, 0x400⟩, ⟨0x1f00, 0x100⟩, by decide +kernel, fun hapart => ?_⟩
    exact hapart 0x1e80 ⟨by decide, by decide⟩ ⟨by decide, by decide⟩

end TaskMachine.StackWindows
