/-
# Ramulator.Base.Simulation — the simulation loop and its tick elision.

`run_simulation` (`base/simulation.cpp`) interleaves two clocks: the frontend ticks every `mem_tick`
steps and the memory system every `fe_tick` steps. After each step it asks both sides how long they
stay idle and, if both do, advances both counters over the whole stretch at once. `referenceRun` is
the loop without that (`reference_run` of `tests/utils/simulation_lifecycle_test.cpp`).

The two components are parameters: a frontend tick may send into the memory system and a memory tick
may call back into the frontend, so each gets the other's state. A tick reports its observable
actions; a tick with at least one of them is effective and goes to the trace with its number.
-/
import Ramulator.Lib.Loop
import Mathlib.Algebra.Order.Ring.Int
import Mathlib.Tactic.Ring
import Mathlib.Tactic.Positivity

namespace Ramulator.Base

open Ramulator.Lib

variable {F M O : Type}

/-! ## Components and their elision contract -/

/-- What the loop uses of `IFrontEnd`. `clockRatio` is an `int`. -/
structure FrontEnd (F M O : Type) where
  clockRatio : Int
  clockRatio_lt : clockRatio < 2 ^ 31
  tick : F → M → F × M × List O
  isFinished : F → Bool
  idleTicks : F → Int → Int
  fastForward : F → Int → F

/-- What the loop uses of `IMemorySystem`. -/
structure MemorySystem (F M O : Type) where
  clockRatio : Int
  clockRatio_lt : clockRatio < 2 ^ 31
  tick : M → F → M × F × List O
  idleTicks : M → Int
  fastForward : M → Int → M

/-- The frontend after `k` elided ticks; the loop does not call `fast_forward` for none. -/
def FrontEnd.after (fe : FrontEnd F M O) (f : F) (k : Nat) : F :=
  if 0 < k then fe.fastForward f k else f

/-- The memory system after `k` elided ticks. -/
def MemorySystem.after (mem : MemorySystem F M O) (m : M) (k : Nat) : M :=
  if 0 < k then mem.fastForward m k else m

/-- A frontend that reports `n` idle ticks is, after each number of them up to `n`, where
`fast_forward` would have put it, has sent nothing and has not changed `is_finished`. -/
def FrontEnd.Contract (fe : FrontEnd F M O) : Prop :=
  ∀ f maxUseful (i : Nat), i < fe.idleTicks f maxUseful →
    (∀ m, fe.tick (fe.after f i) m = (fe.after f (i + 1), m, [])) ∧
      fe.isFinished (fe.after f (i + 1)) = fe.isFinished f

/-- A memory system that reports `n` idle ticks is, after each number of them up to `n`, where
`fast_forward` would have put it, and has done nothing the frontend can observe. -/
def MemorySystem.Contract (mem : MemorySystem F M O) : Prop :=
  ∀ m (i : Nat), i < mem.idleTicks m → ∀ f,
    mem.tick (mem.after m i) f = (mem.after m (i + 1), f, [])

/-! ## The two loops -/

inductive Side where
  | frontend
  | memory
  deriving DecidableEq, Repr

/-- A tick that did something: whose it was, the how manieth of that side, and what it did. -/
structure EffectiveTick (O : Type) where
  side : Side
  number : Nat
  actions : List O
  deriving DecidableEq, Repr

/-- The variables of the loop, with the number of ticks each side has made (elided ones included)
and the effective ticks so far. -/
structure LoopState (F M O : Type) where
  feCount : Nat
  memCount : Nat
  frontend : F
  memory : M
  feTicks : Nat := 0
  memTicks : Nat := 0
  trace : List (EffectiveTick O) := []

/-- Append a tick to the trace if it is effective. -/
def record (side : Side) (number : Nat) (actions : List O) (trace : List (EffectiveTick O)) :
    List (EffectiveTick O) :=
  match actions with
  | [] => trace
  | o :: os => trace ++ [⟨side, number, o :: os⟩]

/-- The counter of the frontend wraps and the frontend ticks. -/
def tickFrontend (fe : FrontEnd F M O) (s : LoopState F M O) : LoopState F M O :=
  let (f, m, actions) := fe.tick s.frontend s.memory
  { s with
    feCount := 0, frontend := f, memory := m, feTicks := s.feTicks + 1,
    trace := record .frontend (s.feTicks + 1) actions s.trace }

/-- The counter of the memory system wraps and the memory system ticks. -/
def tickMemory (mem : MemorySystem F M O) (s : LoopState F M O) : LoopState F M O :=
  let (m, f, actions) := mem.tick s.memory s.frontend
  { s with
    memCount := 0, frontend := f, memory := m, memTicks := s.memTicks + 1,
    trace := record .memory (s.memTicks + 1) actions s.trace }

/-- The state before the first iteration: both counters are one short of their period. -/
def start (feTick memTick : Nat) (f : F) (m : M) : LoopState F M O where
  feCount := memTick - 1
  memCount := feTick - 1
  frontend := f
  memory := m

/-- One iteration of the reference loop. -/
def referenceStep (fe : FrontEnd F M O) (mem : MemorySystem F M O) (feTick memTick : Nat)
    (s : LoopState F M O) : Loop.Outcome (LoopState F M O) (LoopState F M O) :=
  let s := if s.feCount + 1 = memTick then tickFrontend fe s
    else { s with feCount := s.feCount + 1 }
  if fe.isFinished s.frontend then .done s
  else .running (if s.memCount + 1 = feTick then tickMemory mem s
    else { s with memCount := s.memCount + 1 })

/-- The first half of an iteration of `run_simulation`. -/
def interleave (fe : FrontEnd F M O) (mem : MemorySystem F M O) (feTick memTick : Nat)
    (s : LoopState F M O) : Loop.Outcome (LoopState F M O) (LoopState F M O) :=
  let s := if s.feCount + 1 ≥ memTick then tickFrontend fe s
    else { s with feCount := s.feCount + 1 }
  if fe.isFinished s.frontend then .done s
  else .running (if s.memCount + 1 ≥ feTick then tickMemory mem s
    else { s with memCount := s.memCount + 1 })

/-- Conversion to `uint64_t`; unsigned arithmetic is this conversion of the exact result. -/
def u64 (x : Int) : Nat := (x % 2 ^ 64).toNat

/-- `MAX_JUMP`. -/
def maxJump : Int := 1000000000

/-- The jump over `j` interleave steps. -/
def jump (fe : FrontEnd F M O) (mem : MemorySystem F M O) (feTick memTick j : Nat)
    (s : LoopState F M O) : LoopState F M O :=
  let feFf := u64 (s.feCount + j) / memTick
  let memFf := u64 (s.memCount + j) / feTick
  { s with
    feCount := u64 (s.feCount + j) % memTick
    memCount := u64 (s.memCount + j) % feTick
    frontend := fe.after s.frontend feFf
    memory := mem.after s.memory memFf
    feTicks := s.feTicks + feFf
    memTicks := s.memTicks + memFf }

/-- The second half of an iteration of `run_simulation`: skip what both sides declare idle. -/
def elide (fe : FrontEnd F M O) (mem : MemorySystem F M O) (feTick memTick : Nat)
    (s : LoopState F M O) : LoopState F M O :=
  let memIdle := mem.idleTicks s.memory
  if memIdle > 0 ∧ fe.isFinished s.frontend = false then
    let memIdle := min memIdle maxJump
    let jMem := u64 ((feTick - s.memCount) + memIdle * feTick - 1)
    let maxFe := u64 (s.feCount + jMem) / memTick
    if maxFe > 0 then
      let feIdle := fe.idleTicks s.frontend (min maxFe maxJump)
      if feIdle > 0 then
        let jFe := u64 ((memTick - s.feCount) + feIdle * memTick - 1)
        let j := min jFe jMem
        if j ≥ 2 then jump fe mem feTick memTick j s else s
      else s
    else s
  else s

/-- One iteration of `run_simulation`. -/
def simulationStep (fe : FrontEnd F M O) (mem : MemorySystem F M O) (feTick memTick : Nat)
    (s : LoopState F M O) : Loop.Outcome (LoopState F M O) (LoopState F M O) :=
  match interleave fe mem feTick memTick s with
  | .done s => .done s
  | .running s => .running (elide fe mem feTick memTick s)

/-- `run_simulation`, with a bound on the number of iterations. -/
def runSimulation (fe : FrontEnd F M O) (mem : MemorySystem F M O) (fuel : Nat) (f : F) (m : M) :
    Except String (Option (LoopState F M O)) :=
  if fe.clockRatio ≤ 0 ∨ mem.clockRatio ≤ 0 then
    .error "clock_ratio must be > 0 for both frontend and memory system"
  else
    let feTick := fe.clockRatio.toNat
    let memTick := mem.clockRatio.toNat
    .ok (Loop.run (simulationStep fe mem feTick memTick) fuel (start feTick memTick f m))

/-- The reference loop, with a bound on the number of iterations. -/
def referenceRun (fe : FrontEnd F M O) (mem : MemorySystem F M O) (fuel : Nat) (f : F) (m : M) :
    Option (LoopState F M O) :=
  let feTick := fe.clockRatio.toNat
  let memTick := mem.clockRatio.toNat
  Loop.run (referenceStep fe mem feTick memTick) fuel (start feTick memTick f m)

/-! ## The counters -/

/-- The counters as they are between two iterations. -/
def InRange (feTick memTick : Nat) (s : LoopState F M O) : Prop :=
  s.feCount < memTick ∧ s.memCount < feTick

variable {fe : FrontEnd F M O} {mem : MemorySystem F M O} {feTick memTick : Nat}
  {s s' : LoopState F M O}

theorem start_inRange (hfe : 0 < feTick) (hmem : 0 < memTick) (f : F) (m : M) :
    InRange feTick memTick (start feTick memTick f m : LoopState F M O) := by
  simp only [InRange, start]
  omega

variable (fe mem) in
/-- In range the two ways to test for a wrap agree. -/
theorem referenceStep_eq_interleave (h : InRange feTick memTick s) :
    referenceStep fe mem feTick memTick s = interleave fe mem feTick memTick s := by
  have hfe : s.feCount + 1 = memTick ↔ s.feCount + 1 ≥ memTick := by
    have := h.1
    omega
  have hmem : s.memCount + 1 = feTick ↔ s.memCount + 1 ≥ feTick := by
    have := h.2
    omega
  unfold referenceStep interleave
  by_cases hwrap : s.feCount + 1 ≥ memTick
  · simp only [hfe, hwrap, if_true, tickFrontend, hmem]
  · simp only [hfe, hwrap, if_false, hmem]

theorem interleave_inRange (h : InRange feTick memTick s)
    (hstep : interleave fe mem feTick memTick s = .running s' ∨
      interleave fe mem feTick memTick s = .done s') : InRange feTick memTick s' := by
  obtain ⟨hf, hm⟩ := h
  have hfpos : 0 < memTick := Nat.zero_lt_of_lt hf
  have hmpos : 0 < feTick := Nat.zero_lt_of_lt hm
  simp only [interleave, tickFrontend, tickMemory] at hstep
  rcases hstep with hstep | hstep
  · split at hstep <;> split at hstep <;> simp only [Loop.Outcome.running.injEq, reduceCtorEq] at hstep
      <;> subst hstep <;> split <;> simp only [InRange] at * <;> omega
  · split at hstep <;> split at hstep <;> simp only [Loop.Outcome.done.injEq, reduceCtorEq] at hstep
      <;> subst hstep <;> simp only [InRange] at * <;> omega

/-! ## Jumping is stepping -/

/-- A counter of period `P` after one more step. -/
theorem succ_div_mod {P : Nat} (hP : 0 < P) (x : Nat) :
    (x % P + 1 ≥ P → (x + 1) / P = x / P + 1 ∧ (x + 1) % P = 0) ∧
      (x % P + 1 < P → (x + 1) / P = x / P ∧ (x + 1) % P = x % P + 1) := by
  have hx := Nat.div_add_mod x P
  have hlt := Nat.mod_lt x hP
  constructor
  · intro h
    have hsucc : x + 1 = P * (x / P + 1) := by
      rw [Nat.mul_add, Nat.mul_one]
      omega
    rw [hsucc, Nat.mul_div_cancel_left _ hP, Nat.mul_mod_right]
    exact ⟨rfl, rfl⟩
  · intro h
    have hsucc : x + 1 = (x % P + 1) + P * (x / P) := by omega
    rw [hsucc, Nat.add_mul_div_left _ _ hP, Nat.add_mul_mod_self_left, Nat.div_eq_of_lt h,
      Nat.mod_eq_of_lt h]
    exact ⟨by omega, by omega⟩

/-- The state `j` silent interleave steps after `s`. -/
def skipped (fe : FrontEnd F M O) (mem : MemorySystem F M O) (feTick memTick j : Nat)
    (s : LoopState F M O) : LoopState F M O :=
  { s with
    feCount := (s.feCount + j) % memTick
    memCount := (s.memCount + j) % feTick
    frontend := fe.after s.frontend ((s.feCount + j) / memTick)
    memory := mem.after s.memory ((s.memCount + j) / feTick)
    feTicks := s.feTicks + (s.feCount + j) / memTick
    memTicks := s.memTicks + (s.memCount + j) / feTick }

theorem skipped_zero (h : InRange feTick memTick s) :
    skipped fe mem feTick memTick 0 s = s := by
  simp [skipped, Nat.mod_eq_of_lt h.1, Nat.mod_eq_of_lt h.2, Nat.div_eq_of_lt h.1,
    Nat.div_eq_of_lt h.2, FrontEnd.after, MemorySystem.after]

/-- Both sides stay idle over the next `j` interleave steps after `s`. -/
def IdleFor (fe : FrontEnd F M O) (mem : MemorySystem F M O) (feTick memTick j : Nat)
    (s : LoopState F M O) : Prop :=
  fe.isFinished s.frontend = false ∧
    (∃ maxUseful, ((s.feCount + j) / memTick : Nat) ≤ fe.idleTicks s.frontend maxUseful) ∧
    ((s.memCount + j) / feTick : Nat) ≤ mem.idleTicks s.memory

theorem isFinished_after (hfe : fe.Contract) {f : F} {maxUseful : Int} {k : Nat}
    (hk : k ≤ fe.idleTicks f maxUseful) : fe.isFinished (fe.after f k) = fe.isFinished f := by
  cases k with
  | zero => rfl
  | succ k => exact (hfe f maxUseful k (by omega)).2

/-- One interleave step inside an idle stretch. -/
theorem interleave_skipped (hfe : fe.Contract) (hmem : mem.Contract)
    (h : InRange feTick memTick s) {j : Nat} (hidle : IdleFor fe mem feTick memTick (j + 1) s) :
    interleave fe mem feTick memTick (skipped fe mem feTick memTick j s) =
      .running (skipped fe mem feTick memTick (j + 1) s) := by
  obtain ⟨hfin, ⟨maxUseful, hfi⟩, hmi⟩ := hidle
  obtain ⟨hfw, hfn⟩ := succ_div_mod (Nat.zero_lt_of_lt h.1) (s.feCount + j)
  obtain ⟨hmw, hmn⟩ := succ_div_mod (Nat.zero_lt_of_lt h.2) (s.memCount + j)
  have hend := isFinished_after hfe hfi
  rw [hfin] at hend
  simp only [← Nat.add_assoc] at hfi hmi hend ⊢
  -- the frontend half: the counter moves on, or wraps over an idle tick
  have hfront : (if (skipped fe mem feTick memTick j s).feCount + 1 ≥ memTick
        then tickFrontend fe (skipped fe mem feTick memTick j s)
        else { skipped fe mem feTick memTick j s with
          feCount := (skipped fe mem feTick memTick j s).feCount + 1 }) =
      { skipped fe mem feTick memTick j s with
        feCount := (s.feCount + j + 1) % memTick
        frontend := fe.after s.frontend ((s.feCount + j + 1) / memTick)
        feTicks := s.feTicks + (s.feCount + j + 1) / memTick } := by
    by_cases hwrap : (s.feCount + j) % memTick + 1 ≥ memTick
    · obtain ⟨hdiv, hmod⟩ := hfw hwrap
      rw [hdiv] at hfi
      have htick := (hfe s.frontend maxUseful ((s.feCount + j) / memTick) (by omega)).1
      simp only [skipped, hwrap, if_true, tickFrontend, htick, hdiv, hmod, record, ← Nat.add_assoc]
    · obtain ⟨hdiv, hmod⟩ := hfn (by omega)
      simp only [skipped, hwrap, if_false, hdiv, hmod]
  unfold interleave
  simp only [hfront, hend, Bool.false_eq_true, if_false]
  -- the memory half, in the same way
  by_cases hwrap : (s.memCount + j) % feTick + 1 ≥ feTick
  · obtain ⟨hdiv, hmod⟩ := hmw hwrap
    rw [hdiv] at hmi
    have htick := hmem s.memory ((s.memCount + j) / feTick) (by omega)
    simp only [skipped, hwrap, if_true, tickMemory, htick, ← Nat.add_assoc, hdiv, hmod, record]
  · obtain ⟨hdiv, hmod⟩ := hmn (by omega)
    simp only [skipped, hwrap, if_false, ← Nat.add_assoc, hdiv, hmod]

theorem IdleFor.mono {i j : Nat} (hij : i ≤ j) (h : IdleFor fe mem feTick memTick j s) :
    IdleFor fe mem feTick memTick i s := by
  obtain ⟨hfin, ⟨maxUseful, hf⟩, hm⟩ := h
  have hfd : (s.feCount + i) / memTick ≤ (s.feCount + j) / memTick :=
    Nat.div_le_div_right (by omega)
  have hmd : (s.memCount + i) / feTick ≤ (s.memCount + j) / feTick :=
    Nat.div_le_div_right (by omega)
  exact ⟨hfin, ⟨maxUseful, by omega⟩, by omega⟩

/-- A whole idle stretch, step by step. -/
theorem iterate_skipped (hfe : fe.Contract) (hmem : mem.Contract) (h : InRange feTick memTick s)
    {j : Nat} (hidle : IdleFor fe mem feTick memTick j s) :
    Loop.iterate (interleave fe mem feTick memTick) j s =
      .running (skipped fe mem feTick memTick j s) := by
  induction j with
  | zero => rw [skipped_zero h, Loop.iterate_zero]
  | succ j ih =>
      rw [Loop.iterate_add_running (ih (hidle.mono (Nat.le_succ j))), Loop.iterate_one]
      exact interleave_skipped hfe hmem h hidle

/-! ## What elision skips -/

theorem u64_le {x : Int} (hx : 0 ≤ x) : (u64 x : Int) ≤ x := by
  unfold u64
  omega

theorem u64_of_lt {x : Nat} (hx : x < 2 ^ 64) : u64 x = x := by
  unfold u64
  omega

/-- A side with counter `c` and period `P` makes at most `idle` ticks over a stretch that ends
before tick `idle + 1`. -/
theorem ticks_le_idle {P c j : Nat} {idle : Int} (hidle : 0 ≤ idle)
    (hj : (j : Int) ≤ (P - c) + idle * P - 1) : ((c + j) / P : Nat) ≤ idle := by
  obtain ⟨n, rfl⟩ := Int.eq_ofNat_of_zero_le hidle
  have hlt : c + j < P * (n + 1) := by
    have : ((P * (n + 1) : Nat) : Int) = n * P + P := by push_cast; ring
    omega
  have := Nat.div_lt_of_lt_mul hlt
  omega

variable (fe mem) in
/-- Elision does nothing or skips a stretch over which both sides are idle. -/
theorem elide_cases (h : InRange feTick memTick s) (hfeTick : feTick < 2 ^ 31)
    (hmemTick : memTick < 2 ^ 31) :
    elide fe mem feTick memTick s = s ∨
      ∃ j, IdleFor fe mem feTick memTick j s ∧
        elide fe mem feTick memTick s = skipped fe mem feTick memTick j s := by
  obtain ⟨hf, hm⟩ := h
  unfold elide
  extract_lets memIdle memIdle' jMem maxFe feIdle jFe j
  split_ifs with hgo hmax hfeIdle hj
  · right
    -- wrapping around 2^64 can only shorten a stretch
    have hbound : memIdle' * feTick ≤ maxJump * feTick :=
      Int.mul_le_mul_of_nonneg_right (min_le_right _ _) (Int.natCast_nonneg _)
    have hpos : 0 ≤ memIdle' := le_min hgo.1.le (by decide)
    have hnonneg : 0 ≤ memIdle' * feTick := by positivity
    have hjMem : (jMem : Int) ≤ (feTick - s.memCount) + memIdle' * feTick - 1 :=
      u64_le (by omega)
    have hjFe : (jFe : Int) ≤ (memTick - s.feCount) + feIdle * memTick - 1 := by
      have : 0 ≤ feIdle * memTick := by positivity
      exact u64_le (by omega)
    have hjle : j ≤ jMem ∧ j ≤ jFe := ⟨min_le_right _ _, min_le_left _ _⟩
    have hfeTicks : ((s.feCount + j) / memTick : Nat) ≤ feIdle :=
      ticks_le_idle hfeIdle.le (by omega)
    have hmemTicks : ((s.memCount + j) / feTick : Nat) ≤ memIdle' :=
      ticks_le_idle hpos (by omega)
    refine ⟨j, ⟨hgo.2, ⟨_, hfeTicks⟩, hmemTicks.trans (min_le_left _ _)⟩, ?_⟩
    · have hwide : j < 2 ^ 62 := by
        simp only [maxJump] at hbound
        omega
      have hfe64 : u64 (s.feCount + j) = s.feCount + j := by
        exact_mod_cast u64_of_lt (x := s.feCount + j) (by omega)
      have hmem64 : u64 (s.memCount + j) = s.memCount + j := by
        exact_mod_cast u64_of_lt (x := s.memCount + j) (by omega)
      simp only [jump, hfe64, hmem64, skipped]
  all_goals exact Or.inl rfl

theorem skipped_inRange (hfe : 0 < feTick) (hmem : 0 < memTick) (j : Nat) :
    InRange feTick memTick (skipped fe mem feTick memTick j s) :=
  ⟨Nat.mod_lt _ hmem, Nat.mod_lt _ hfe⟩

variable (fe mem) in
theorem elide_inRange (h : InRange feTick memTick s) (hfeTick : feTick < 2 ^ 31)
    (hmemTick : memTick < 2 ^ 31) : InRange feTick memTick (elide fe mem feTick memTick s) := by
  rcases elide_cases fe mem h hfeTick hmemTick with heq | ⟨j, -, heq⟩
  · rwa [heq]
  · rw [heq]
    exact skipped_inRange (Nat.zero_lt_of_lt h.2) (Nat.zero_lt_of_lt h.1) j

/-- Within range the reference loop is the plain interleaving, over any number of steps. -/
theorem iterate_referenceStep (h : InRange feTick memTick s) (n : Nat) :
    Loop.iterate (referenceStep fe mem feTick memTick) n s =
      Loop.iterate (interleave fe mem feTick memTick) n s := by
  induction n generalizing s with
  | zero => rfl
  | succ n ih =>
      have href := referenceStep_eq_interleave fe mem h
      cases hi : interleave fe mem feTick memTick s with
      | done r => rw [Loop.iterate_succ_done hi, Loop.iterate_succ_done (href.trans hi)]
      | running s₁ =>
          rw [Loop.iterate_succ_running hi, Loop.iterate_succ_running (href.trans hi)]
          exact ih (interleave_inRange h (.inl hi))

/-- One iteration of `run_simulation` is one or more iterations of the reference loop. -/
theorem simulationStep_simulates (hfe : fe.Contract) (hmem : mem.Contract)
    (hfeTick : feTick < 2 ^ 31) (hmemTick : memTick < 2 ^ 31) :
    Loop.Simulates (fun s t => s = t ∧ InRange feTick memTick s) (fun _ => True) (· = ·)
      (simulationStep fe mem feTick memTick) (referenceStep fe mem feTick memTick) where
  running := by
    rintro s _ s' ⟨rfl, hs⟩ hstep
    cases hi : interleave fe mem feTick memTick s with
    | done r => simp [simulationStep, hi] at hstep
    | running s₁ =>
        obtain rfl : elide fe mem feTick memTick s₁ = s' := by simpa [simulationStep, hi] using hstep
        have hs₁ := interleave_inRange hs (.inl hi)
        simp only [iterate_referenceStep hs, Loop.iterate_succ_running hi]
        have hrange := elide_inRange fe mem hs₁ hfeTick hmemTick
        rcases elide_cases fe mem hs₁ hfeTick hmemTick with heq | ⟨j, hidle, heq⟩
        · exact ⟨0, _, by rw [heq, Loop.iterate_zero], rfl, hrange⟩
        · exact ⟨j, _, by rw [heq, iterate_skipped hfe hmem hs₁ hidle], rfl, hrange⟩
  done := by
    rintro s _ r ⟨rfl, hs⟩ hstep -
    cases hi : interleave fe mem feTick memTick s with
    | done r' =>
        obtain rfl : r' = r := by simpa [simulationStep, hi] using hstep
        refine ⟨0, r', ?_, rfl⟩
        rw [iterate_referenceStep hs, Loop.iterate_succ_done hi]
    | running s₁ => simp [simulationStep, hi] at hstep

theorem simulationStep_inRange (hfeTick : feTick < 2 ^ 31) (hmemTick : memTick < 2 ^ 31)
    (h : InRange feTick memTick s) (hstep : simulationStep fe mem feTick memTick s = .running s') :
    InRange feTick memTick s' := by
  cases hi : interleave fe mem feTick memTick s with
  | done r => simp [simulationStep, hi] at hstep
  | running s₁ =>
      obtain rfl : elide fe mem feTick memTick s₁ = s' := by simpa [simulationStep, hi] using hstep
      exact elide_inRange fe mem (interleave_inRange h (.inl hi)) hfeTick hmemTick

/-! ## Elision is a refinement -/

/-- For components that honour the contract and any positive clock ratios, `run_simulation` is the
reference loop: both end or neither does, with the same component states, tick counts and effective
ticks; every state the elided loop passes is one the reference loop passes, no earlier; and both
counters stay below their periods, before and after each elision. -/
theorem runSimulation_refines_reference (hfe : fe.Contract) (hmem : mem.Contract)
    (hfeRatio : 0 < fe.clockRatio) (hmemRatio : 0 < mem.clockRatio) (f : F) (m : M) :
    let feTick := fe.clockRatio.toNat
    let memTick := mem.clockRatio.toNat
    let first : LoopState F M O := start feTick memTick f m
    (∀ final, (∃ fuel, runSimulation fe mem fuel f m = .ok (some final)) ↔
      ∃ fuel, referenceRun fe mem fuel f m = some final) ∧
    (∀ n s, Loop.iterate (simulationStep fe mem feTick memTick) n first = .running s →
      (∃ N, n ≤ N ∧ Loop.iterate (referenceStep fe mem feTick memTick) N first = .running s) ∧
      InRange feTick memTick s ∧
      ∀ s', (interleave fe mem feTick memTick s = .running s' ∨
        interleave fe mem feTick memTick s = .done s') → InRange feTick memTick s') := by
  intro feTick memTick first
  have hfeTick : feTick < 2 ^ 31 := by
    have := fe.clockRatio_lt
    omega
  have hmemTick : memTick < 2 ^ 31 := by
    have := mem.clockRatio_lt
    omega
  have hfirst : InRange feTick memTick first := start_inRange (by omega) (by omega) f m
  have hsim := simulationStep_simulates hfe hmem hfeTick hmemTick
  have hrun : ∀ fuel, runSimulation fe mem fuel f m =
      .ok (Loop.run (simulationStep fe mem feTick memTick) fuel first) := fun fuel => by
    simp only [runSimulation, if_neg (show ¬(fe.clockRatio ≤ 0 ∨ mem.clockRatio ≤ 0) by omega)]
    rfl
  constructor
  · intro final
    simp only [hrun, Except.ok.injEq, referenceRun, Loop.run_eq_some_iff]
    constructor
    · rintro ⟨fuel, hfuel⟩
      obtain ⟨N, q, hq, rfl⟩ := hsim.iterate_done ⟨rfl, hfirst⟩ hfuel trivial
      exact ⟨N, hq⟩
    · rintro ⟨fuel, hfuel⟩
      obtain ⟨r, hr, rfl⟩ := hsim.done_of_slow_done (fun _ => trivial) ⟨rfl, hfirst⟩ hfuel
      exact ⟨fuel, hr⟩
  · intro n s hn
    have hrange := Loop.iterate_invariant
      (fun _ _ => simulationStep_inRange hfeTick hmemTick) hfirst hn
    refine ⟨?_, hrange, fun s' hs' => interleave_inRange hrange hs'⟩
    obtain ⟨N, t, hN, ht, rfl, -⟩ := hsim.iterate_running ⟨rfl, hfirst⟩ hn
    exact ⟨N, hN, ht⟩

/-- A frontend that acts on every fifth tick and finishes at tick 12, as the parity test has it. -/
def periodicFrontEnd : FrontEnd Nat Nat Nat where
  clockRatio := 3
  clockRatio_lt := by decide
  tick := fun f m => (f + 1, m, if (f + 1) % 5 = 0 then [f + 1] else [])
  isFinished := fun f => 12 ≤ f
  idleTicks := fun f maxUseful => min maxUseful (min (5 - (f % 5 : Nat) - 1) (12 - f - 1))
  fastForward := fun f k => f + k.toNat

/-- A memory system that acts on every fourth tick. -/
def periodicMemory : MemorySystem Nat Nat Nat where
  clockRatio := 2
  clockRatio_lt := by decide
  tick := fun m f => (m + 1, f, if (m + 1) % 4 = 0 then [m + 1] else [])
  idleTicks := fun m => 4 - (m % 4 : Nat) - 1
  fastForward := fun m k => m + k.toNat

theorem periodicFrontEnd_contract : periodicFrontEnd.Contract := by
  intro f maxUseful i hi
  have hafter : ∀ k, periodicFrontEnd.after f k = f + k := by
    intro k
    cases k <;> simp [FrontEnd.after, periodicFrontEnd]
  simp only [periodicFrontEnd] at hi
  simp only [hafter]
  simp only [periodicFrontEnd, Prod.mk.injEq, true_and]
  refine ⟨fun _ => ⟨by omega, if_neg (by omega)⟩, ?_⟩
  simp only [decide_eq_decide]
  omega

theorem periodicMemory_contract : periodicMemory.Contract := by
  intro m i hi f
  have hafter : ∀ k, periodicMemory.after m k = m + k := by
    intro k
    cases k <;> simp [MemorySystem.after, periodicMemory]
  simp only [periodicMemory] at hi
  simp only [hafter]
  simp only [periodicMemory, Prod.mk.injEq, true_and]
  exact ⟨by omega, if_neg (by omega)⟩

/-- Eight iterations of the elided loop, and the reference loop ends in the same state. -/
theorem runSimulation_refines_reference_periodic :
    ∃ final fuel, runSimulation periodicFrontEnd periodicMemory 8 0 0 = .ok (some final) ∧
      final.trace = [⟨.frontend, 5, [5]⟩, ⟨.memory, 4, [4]⟩, ⟨.frontend, 10, [10]⟩,
        ⟨.memory, 8, [8]⟩] ∧
      referenceRun periodicFrontEnd periodicMemory fuel 0 0 = some final := by
  have helided : runSimulation periodicFrontEnd periodicMemory 8 0 0 =
      .ok (some ⟨0, 0, 12, 8, 12, 8, [⟨.frontend, 5, [5]⟩, ⟨.memory, 4, [4]⟩,
        ⟨.frontend, 10, [10]⟩, ⟨.memory, 8, [8]⟩]⟩) := rfl
  obtain ⟨fuel, hfuel⟩ := ((runSimulation_refines_reference periodicFrontEnd_contract
    periodicMemory_contract (by decide) (by decide) 0 0).1 _).mp ⟨8, helided⟩
  exact ⟨_, fuel, helided, rfl, hfuel⟩

end Ramulator.Base
