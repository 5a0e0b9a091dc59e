/-
# Ramulator.Frontend.SimpleO3 — cores around a shared cache, and their idle ticks.

`SimpleO3` (`frontend/impl/processor/simpleO3/simpleO3.cpp`) ticks its cache and then its cores, in
order, and hands completed requests back to the core that they came from. Address translation is a
parameter: it may take its time, and it has a state.

`idle_ticks` promises ticks that do nothing but count: it looks for cores that can neither retire nor
issue and for the next entry that the cache waits for.
-/
import Ramulator.Frontend.SimpleO3LLC
import Ramulator.Controller.Atomic

namespace Ramulator.Frontend.O3

open Ramulator.Base (Request)
open Ramulator.Controller (maxClk)
open Ramulator.Dram Ramulator.Lib

/-! ## The frontend -/

/-- The configuration. A core's number is its place. -/
structure O3Config where
  numCores : Nat
  cores : Fin numCores → CoreConfig
  llc : LLCConfig
  core_id : ∀ i, (cores i).id = i

/-- `ITranslation`: the translated request, or `none` if it is not ready. -/
structure Translation where
  State : Type
  init : State
  translate : Req → State → Option Req × State

structure SimpleO3 (cfg : O3Config) (T : Translation) where
  cores : Fin cfg.numCores → Core
  llc : LLC := {}
  translation : T.State := T.init

namespace SimpleO3

variable {cfg : O3Config} {T : Translation}

/-- The way of a request from a core: translation, then the cache. -/
def port (cfg : O3Config) (T : Translation) : Core.Port (LLC × T.State) := fun req (llc, t) =>
  match T.translate req t with
  | (none, t) => .ok (none, llc, t)
  | (some req, t) =>
      (llc.send cfg.llc req).map fun (sent, llc) => (if sent then some req else none, llc, t)

/-- A completed request goes back to its core. -/
def answer (s : SimpleO3 cfg T) (req : Req) : Except Fault (SimpleO3 cfg T) :=
  if h : 0 ≤ req.sourceId ∧ req.sourceId.toNat < cfg.numCores then
    ((s.cores ⟨_, h.2⟩).receive (cfg.cores ⟨_, h.2⟩) req).map fun core =>
      { s with cores := Function.update s.cores ⟨_, h.2⟩ core }
  else .error (.core "SimpleO3 logical completion has an invalid source id")

/-- The answers that an operation of the cache gives. -/
def answerAll (s : SimpleO3 cfg T) (result : Except Fault (List Req × LLC)) :
    Except Fault (SimpleO3 cfg T) :=
  result >>= fun (answers, llc) => answers.foldlM answer { s with llc := llc }

/-- The tick of one core. -/
def tickCore (s : SimpleO3 cfg T) (i : Fin cfg.numCores) : Except Fault (SimpleO3 cfg T) :=
  ((s.cores i).tick (cfg.cores i) s.llc.clk (port cfg T) (s.llc, s.translation)).map
    fun (core, llc, t) =>
      { cores := Function.update s.cores i core, llc := llc, translation := t }

/-- The clock that cores and cache refer to. -/
def advance (ticks : Int) (s : SimpleO3 cfg T) : SimpleO3 cfg T :=
  { s with llc := { s.llc with clk := s.llc.clk + ticks } }

/-- `tick`. -/
def tick (decisions : Nat → LLC.Decision) (s : SimpleO3 cfg T) : Except Fault (SimpleO3 cfg T) :=
  (s.advance 1).answerAll ((s.advance 1).llc.tick cfg.llc decisions) >>= fun s =>
    (List.finRange cfg.numCores).foldlM tickCore s

/-- The memory system calls back its `j`-th request. -/
def callBack (j : Nat) (arrive depart : Int) (s : SimpleO3 cfg T) : Except Fault (SimpleO3 cfg T) :=
  s.answerAll (s.llc.deliver cfg.llc j arrive depart)

/-- `idle_ticks`. -/
def idleTicks (maxUseful : Int) (s : SimpleO3 cfg T) : Int :=
  if (List.finRange cfg.numCores).any fun i => !(s.cores i).isStalled (cfg.cores i) then 0
  else
    let next := s.llc.nextEvent maxClk
    if next ≤ s.llc.clk + 1 then 0 else min maxUseful (next - s.llc.clk - 1)

/-- `fast_forward`. -/
def fastForward (ticks : Int) (s : SimpleO3 cfg T) : SimpleO3 cfg T :=
  { s.advance ticks with cores := fun i => (s.cores i).fastForward (cfg.cores i) ticks }

/-- `is_finished`. -/
def isFinished (s : SimpleO3 cfg T) : Except Fault Bool :=
  if (List.finRange cfg.numCores).any fun i =>
      !((s.cores i).reachedExpectedNumInsts && (s.cores i).issueRoiQuiescent) then .ok false
  else s.llc.isQuiescent

/-! ## Runs -/

/-- The frontend before its first tick. -/
def Starts (s : SimpleO3 cfg T) : Prop :=
  (∀ i, Core.init (cfg.cores i) = .ok (s.cores i)) ∧ s.llc = {} ∧ s.translation = T.init

/-- The calls on the frontend. -/
inductive Call where
  | tick (decisions : Nat → LLC.Decision)
  | callBack (j : Nat) (arrive depart : Int)
  | fastForward (ticks : Int)

def call (c : Call) (s : SimpleO3 cfg T) : Except Fault (SimpleO3 cfg T) :=
  match c with
  | .tick decisions => s.tick decisions
  | .callBack j arrive depart => s.callBack j arrive depart
  | .fastForward ticks => .ok (s.fastForward ticks)

/-- Time does not go back. -/
def Call.Forward : Call → Prop
  | .fastForward ticks => 0 ≤ ticks
  | _ => True

/-- Whatever the memory system does: it takes requests or not, and calls back. -/
def Reached (s : SimpleO3 cfg T) : Prop :=
  ∃ s₀ : SimpleO3 cfg T, Starts s₀ ∧
    Reachable s₀ (fun s (c : Call) s' => c.Forward ∧ call c s = .ok s') s

/-! ## The cores in a run -/

/-- What every step of a core preserves, whatever it is connected to. -/
structure CoreInvariant (cfg : O3Config) (T : Translation) (P : Fin cfg.numCores → Core → Prop) : Prop where
  init : ∀ i core, Core.init (cfg.cores i) = .ok core → P i core
  tick : ∀ i clk core core' e e', P i core →
    core.tick (cfg.cores i) clk (port cfg T) e = .ok (core', e') → P i core'
  receive : ∀ i req core core', P i core → core.receive (cfg.cores i) req = .ok core' → P i core'
  fastForward : ∀ i core ticks, P i core → P i (core.fastForward (cfg.cores i) ticks)

variable {P : Fin cfg.numCores → Core → Prop} {s s' : SimpleO3 cfg T}

/-- An update of one core. -/
theorem cores_update (h : ∀ i, P i (s.cores i)) {i : Fin cfg.numCores} {core : Core} (hcore : P i core)
    (hs' : s'.cores = Function.update s.cores i core) : ∀ j, P j (s'.cores j) := by
  intro j
  rw [hs']
  by_cases hj : j = i
  · subst hj
    rw [Function.update_self]
    exact hcore
  · rw [Function.update_of_ne hj]
    exact h j

theorem cores_answerAll (hP : CoreInvariant cfg T P) {result : Except Fault (List Req × LLC)}
    (h : ∀ i, P i (s.cores i)) (hall : s.answerAll result = .ok s') : ∀ i, P i (s'.cores i) := by
  obtain ⟨⟨answers, llc⟩, -, hfold⟩ := except_bind_eq_ok.mp hall
  have hstart : ∀ i, P i (({ s with llc := llc } : SimpleO3 cfg T).cores i) := h
  refine foldlM_preserves (P := fun t : SimpleO3 cfg T => ∀ i, P i (t.cores i)) ?_ hstart hfold
  intro t req t' _ ht hanswer
  unfold SimpleO3.answer at hanswer
  split_ifs at hanswer with hid
  obtain ⟨core, hcore, rfl⟩ := except_map_eq_ok.mp hanswer
  exact cores_update ht (hP.receive _ _ _ _ (ht _) hcore) rfl

theorem cores_tick (hP : CoreInvariant cfg T P) {decisions : Nat → LLC.Decision}
    (h : ∀ i, P i (s.cores i)) (htick : s.tick decisions = .ok s') : ∀ i, P i (s'.cores i) := by
  obtain ⟨t, ht, hfold⟩ := except_bind_eq_ok.mp htick
  have hstart : ∀ i, P i (t.cores i) := cores_answerAll (s := s.advance 1) hP h ht
  refine foldlM_preserves (P := fun u : SimpleO3 cfg T => ∀ i, P i (u.cores i)) ?_ hstart hfold
  intro u i u' _ hu hstep
  obtain ⟨⟨core, llc, tr⟩, hcore, rfl⟩ := except_map_eq_ok.mp hstep
  exact cores_update hu (hP.tick _ _ _ _ _ _ (hu i) hcore) rfl

theorem cores_of_reached (hP : CoreInvariant cfg T P) (hs : Reached s) : ∀ i, P i (s.cores i) := by
  obtain ⟨s₀, ⟨hcores, -, -⟩, hreach⟩ := hs
  refine hreach.invariant (fun s : SimpleO3 cfg T => ∀ i, P i (s.cores i))
    (fun i => hP.init i _ (hcores i)) ?_
  rintro s (decisions | ⟨j, arrive, depart⟩ | ticks) s' h ⟨-, hcall⟩
  · exact cores_tick hP h hcall
  · exact cores_answerAll hP h hcall
  · cases hcall
    exact fun i => hP.fastForward i _ ticks (h i)

/-- Every core is as `Core.Ok` says. -/
def CoresOk (s : SimpleO3 cfg T) : Prop := ∀ i, (s.cores i).Ok (cfg.cores i)

theorem coreInvariant_ok : CoreInvariant cfg T fun i core => core.Ok (cfg.cores i) where
  init _ _ h := Core.Ok.init h
  tick _ _ _ _ _ _ h htick := h.tick htick
  receive _ _ _ _ h hreceive := h.receive hreceive
  fastForward _ _ ticks h := h.fastForward ticks

theorem CoresOk.answerAll {result : Except Fault (List Req × LLC)} (h : CoresOk s)
    (hall : s.answerAll result = .ok s') : CoresOk s' := cores_answerAll coreInvariant_ok h hall

theorem CoresOk.tick {decisions : Nat → LLC.Decision} (h : CoresOk s)
    (htick : s.tick decisions = .ok s') : CoresOk s' := cores_tick coreInvariant_ok h htick

theorem coresOk_of_reached (hs : Reached s) : CoresOk s := cores_of_reached coreInvariant_ok hs

/-! ## The clock in a run -/

/-- The cores do not touch the cache when they are answered. -/
theorem llc_answerAll {result : Except Fault (List Req × LLC)} (h : s.answerAll result = .ok s') :
    ∃ answers, result = .ok (answers, s'.llc) := by
  obtain ⟨⟨answers, llc⟩, hresult, hfold⟩ := except_bind_eq_ok.mp h
  have hllc : s'.llc = llc := by
    refine foldlM_preserves (P := fun t : SimpleO3 cfg T => t.llc = llc) ?_ rfl hfold
    intro t req t' _ ht hanswer
    unfold SimpleO3.answer at hanswer
    split_ifs at hanswer
    obtain ⟨core, -, rfl⟩ := except_map_eq_ok.mp hanswer
    exact ht
  exact ⟨answers, hllc ▸ hresult⟩

theorem clk_port {req : Req} {e e' : LLC × T.State} {sent : Option Req}
    (h : port cfg T req e = .ok (sent, e')) : e'.1.clk = e.1.clk := by
  obtain ⟨llc, t⟩ := e
  unfold port at h
  dsimp only at h
  split at h
  · cases h
    rfl
  · obtain ⟨⟨b, llc'⟩, hsend, heq⟩ := except_map_eq_ok.mp h
    cases heq
    exact LLC.clk_send hsend

theorem clk_tick {decisions : Nat → LLC.Decision} (h : CoresOk s)
    (htick : s.tick decisions = .ok s') : s'.llc.clk = s.llc.clk + 1 := by
  obtain ⟨t, ht, hfold⟩ := except_bind_eq_ok.mp htick
  have hclk : t.llc.clk = s.llc.clk + 1 := by
    obtain ⟨_, hok⟩ := llc_answerAll ht
    exact LLC.clk_tick hok
  have hcores : CoresOk t := CoresOk.answerAll (s := s.advance 1) h ht
  refine (foldlM_preserves (P := fun u => CoresOk u ∧ u.llc.clk = s.llc.clk + 1) ?_ ⟨hcores, hclk⟩
    hfold).2
  intro u i u' _ ⟨hu, huclk⟩ hstep
  obtain ⟨⟨core, llc, tr⟩, hcore, rfl⟩ := except_map_eq_ok.mp hstep
  refine ⟨cores_update hu ((hu i).tick hcore) rfl, ?_⟩
  exact Core.tick_port (P := fun e : LLC × T.State => e.1.clk = s.llc.clk + 1)
    (fun _ _ _ _ he hport => (clk_port hport).trans he) (hu i) huclk hcore

theorem clk_nonneg_of_reached (hs : Reached s) : 0 ≤ s.llc.clk := by
  obtain ⟨s₀, ⟨hcores, hllc, -⟩, hreach⟩ := hs
  refine (hreach.invariant (fun s => CoresOk s ∧ 0 ≤ s.llc.clk)
    ⟨fun i => Core.Ok.init (hcores i), hllc ▸ le_rfl⟩ ?_).2
  rintro s (decisions | ⟨j, arrive, depart⟩ | ticks) s' ⟨h, hclk⟩ ⟨hforward, hcall⟩
  · have htick := clk_tick h hcall
    exact ⟨h.tick hcall, by omega⟩
  · obtain ⟨_, hok⟩ := llc_answerAll hcall
    exact ⟨h.answerAll hcall, hclk.trans_eq (LLC.clk_deliver hok).symm⟩
  · cases hcall
    exact ⟨fun i => (h i).fastForward ticks, Int.add_nonneg hclk hforward⟩

/-! ## Idle ticks -/

/-- Nothing happens before clock `t`: the cores are stalled and the cache waits. -/
structure IdleUntil (t : Int) (s : SimpleO3 cfg T) : Prop where
  cores : CoresOk s
  stalled : ∀ i, (s.cores i).isStalled (cfg.cores i) = true
  cache : s.llc.QuietUntil t

theorem IdleUntil.fastForward {t : Int} (h : IdleUntil t s) (ticks : Int) :
    IdleUntil t (s.fastForward ticks) where
  cores := fun i => (h.cores i).fastForward ticks
  stalled := fun i => (Core.isStalled_fastForward (cfg.cores i) ticks (s.cores i)).trans (h.stalled i)
  cache := h.cache

/-- What a positive idle time says. -/
theorem idleUntil_of_le_idleTicks {maxUseful : Int} {k : Int} (h : CoresOk s) (hclk : 0 ≤ s.llc.clk)
    (hpos : 0 < k) (hk : k ≤ s.idleTicks maxUseful) : IdleUntil (s.llc.clk + k) s := by
  unfold idleTicks at hk
  dsimp only at hk
  split_ifs at hk with hcores hnext
  · omega
  · omega
  · refine ⟨h, fun i => ?_, ?_⟩
    · by_contra hno
      exact hcores (List.any_eq_true.mpr ⟨i, List.mem_finRange i, by simpa using hno⟩)
    · have hlt : s.llc.clk + k < s.llc.nextEvent maxClk := by omega
      exact LLC.quietUntil_of_nextEvent (by omega) hlt

/-- The cores tick in turn; those that are stalled only count. -/
theorem foldlM_tickCore (hcores : CoresOk s)
    (hstalled : ∀ i, (s.cores i).isStalled (cfg.cores i) = true) :
    (List.finRange cfg.numCores).foldlM tickCore s =
      .ok { s with cores := fun i => (s.cores i).fastForward (cfg.cores i) 1 } := by
  -- the cores in the list have ticked, the others not yet
  have hfold : ∀ (is : List (Fin cfg.numCores)), is.Nodup → ∀ t : SimpleO3 cfg T,
      (∀ i ∈ is, t.cores i = s.cores i) →
      is.foldlM tickCore t = .ok { t with
        cores := fun i => if i ∈ is then (s.cores i).fastForward (cfg.cores i) 1 else t.cores i } := by
    intro is
    induction is with
    | nil => simp [pure, Except.pure]
    | cons i is ih =>
        intro hnodup t ht
        obtain ⟨hnot, hnodup⟩ := List.nodup_cons.mp hnodup
        have hone : tickCore t i = .ok { t with
            cores := Function.update t.cores i ((s.cores i).fastForward (cfg.cores i) 1) } := by
          unfold tickCore
          rw [ht i List.mem_cons_self, Core.tick_of_stalled (hcores i) (hstalled i)]
          rfl
        rw [List.foldlM_cons, hone]
        show List.foldlM tickCore _ is = _
        rw [ih hnodup]
        · congr 2
          funext j
          by_cases hj : j = i
          · subst hj
            simp [hnot]
          · simp [hj]
        · intro j hj
          have hne : j ≠ i := by
            rintro rfl
            exact hnot hj
          show Function.update t.cores i _ j = _
          rw [Function.update_of_ne hne]
          exact ht j (List.mem_cons_of_mem i hj)
  rw [hfold _ (List.nodup_finRange _) s fun _ _ => rfl]
  simp

/-- One idle tick. -/
theorem tick_of_idle (h : IdleUntil (s.llc.clk + 1) s) (decisions : Nat → LLC.Decision) :
    s.tick decisions = .ok (s.fastForward 1) := by
  unfold tick answerAll
  rw [LLC.tick_of_quiet (s := (s.advance 1).llc) h.cache]
  exact foldlM_tickCore (s := s.advance 1) h.cores h.stalled

theorem fastForward_fastForward (s : SimpleO3 cfg T) (j k : Int) :
    (s.fastForward k).fastForward j = s.fastForward (k + j) := by
  unfold fastForward advance
  simp only [Core.fastForward_add, add_assoc]

theorem fastForward_zero (s : SimpleO3 cfg T) : s.fastForward 0 = s := by
  unfold fastForward advance
  simp only [Core.fastForward_zero, add_zero]

/-- A whole idle stretch. -/
theorem runAll_of_idle {inputs : List (Nat → LLC.Decision)}
    (h : IdleUntil (s.llc.clk + inputs.length) s) :
    runAll tick inputs s = .ok (s.fastForward inputs.length) := by
  induction inputs generalizing s with
  | nil => exact congrArg Except.ok s.fastForward_zero.symm
  | cons decisions inputs ih =>
      rw [List.length_cons] at h ⊢
      have hfirst : IdleUntil (s.llc.clk + 1) s :=
        ⟨h.cores, h.stalled, fun m hm => lt_of_le_of_lt (by push_cast; omega) (h.cache.1 m hm),
          fun x hx => lt_of_le_of_lt (by push_cast; omega) (h.cache.2 x hx)⟩
      unfold runAll
      rw [tick_of_idle hfirst]
      have hrest : IdleUntil ((s.fastForward 1).llc.clk + inputs.length) (s.fastForward 1) := by
        have heq : (s.fastForward 1).llc.clk + (inputs.length : Int) =
            s.llc.clk + ((inputs.length + 1 : Nat) : Int) := by
          show s.llc.clk + 1 + _ = _
          push_cast
          omega
        rw [heq]
        exact h.fastForward 1
      show runAll tick inputs (s.fastForward 1) = _
      rw [ih hrest, fastForward_fastForward]
      congr 2
      push_cast
      omega

theorem isFinished_fastForward (s : SimpleO3 cfg T) (ticks : Int) :
    (s.fastForward ticks).isFinished = s.isFinished := by
  have hcore : ∀ i, ((s.fastForward ticks).cores i).reachedExpectedNumInsts =
      (s.cores i).reachedExpectedNumInsts ∧
      ((s.fastForward ticks).cores i).issueRoiQuiescent = (s.cores i).issueRoiQuiescent := by
    intro i
    obtain ⟨-, hroi, hlast, -, -, -, hreached, -⟩ := Core.countBlocked_frame (cfg.cores i) ticks (s.cores i)
    refine ⟨hreached, ?_⟩
    show Core.issueRoiQuiescent (Core.countBlocked _ _ _) = _
    unfold Core.issueRoiQuiescent
    rw [hroi, hlast]
  unfold isFinished
  simp only [hcore]
  rfl

end SimpleO3

/-- In every reachable state of a frontend with any cores, and for every number of ticks within
`idle_ticks`: as long as no memory callback arrives, the ticks leave the state that one `fast_forward`
leaves, cores and cache alike. No attempt to send to memory is made, and `is_finished` gives the same
answer. -/
theorem frontend_elision_exact {cfg : O3Config} {T : Translation} (s : SimpleO3 cfg T)
    (hs : s.Reached) (maxUseful : Int) (decisions : List (Nat → LLC.Decision))
    (hk : (decisions.length : Int) ≤ s.idleTicks maxUseful) :
    runAll SimpleO3.tick decisions s = .ok (s.fastForward decisions.length) ∧
      (s.fastForward decisions.length).llc = { s.llc with clk := s.llc.clk + decisions.length } ∧
      (s.fastForward decisions.length).llc.attempts = s.llc.attempts ∧
      (s.fastForward decisions.length).isFinished = s.isFinished := by
  refine ⟨?_, rfl, rfl, s.isFinished_fastForward _⟩
  cases hlength : decisions with
  | nil => exact congrArg Except.ok s.fastForward_zero.symm
  | cons d ds =>
      rw [← hlength]
      have hpos : (0 : Int) < decisions.length := by
        rw [hlength, List.length_cons]
        omega
      exact SimpleO3.runAll_of_idle (SimpleO3.idleUntil_of_le_idleTicks
        (SimpleO3.coresOk_of_reached hs) (SimpleO3.clk_nonneg_of_reached hs) hpos hk)

/-- A core with a window of one place that loads from two lines, and stores to the second. -/
def smallCore : CoreConfig where
  id := 0
  depth := 1
  numExpectedInsts := 2
  insts := [{ bubbleCount := 0, loadAddr := some 0 },
    { bubbleCount := 0, loadAddr := some 64, storeAddr := some 64 }]
  depth_pos := Nat.one_pos
  numExpectedInsts_pos := Nat.two_pos

/-- That core with a cache of one line, of one byte. -/
def smallO3 : O3Config where
  numCores := 1
  cores := fun _ => smallCore
  llc := { latency := 3, lineBits := 0, setBits := 0, associativity := 1, numMshrs := 1, txBytes := 1,
           associativity_pos := Nat.one_pos, numMshrs_pos := Nat.one_pos, txBytes_pos := Nat.one_pos }
  core_id := by decide

/-- Physical addresses are virtual addresses. -/
def noTranslation : Translation where
  State := Unit
  init := ()
  translate := fun req t => (some req, t)

/-- After the first tick the core waits for its load, which the cache holds back until clock 4: two
ticks are idle. -/
theorem frontend_elision_exact_small :
    ∃ s : SimpleO3 smallO3 noTranslation, s.Reached ∧ s.idleTicks 100 = 2 ∧ s.llc.missList.length = 1 ∧
      runAll SimpleO3.tick [fun _ => .reject, fun _ => .reject] s = .ok (s.fastForward 2) := by
  have hobs : (do
      let core ← Core.init smallCore
      let s ← SimpleO3.tick (fun _ => .reject)
        ({ cores := fun _ => core } : SimpleO3 smallO3 noTranslation)
      pure (s.idleTicks 100, s.llc.missList.length)) = .ok (2, 1) := by
    decide +kernel
  obtain ⟨core, hcore, hobs⟩ := except_bind_eq_ok.mp hobs
  obtain ⟨s, htick, hobs⟩ := except_bind_eq_ok.mp hobs
  obtain ⟨hidle, hmiss⟩ := Prod.mk.inj (Except.ok.inj hobs)
  have hstart : SimpleO3.Starts ({ cores := fun _ => core } : SimpleO3 smallO3 noTranslation) :=
    ⟨fun _ => hcore, rfl, rfl⟩
  have hs : s.Reached := ⟨_, hstart, .step (.tick fun _ => .reject) .start ⟨trivial, htick⟩⟩
  exact ⟨s, hs, hidle, hmiss, (frontend_elision_exact s hs 100 [fun _ => .reject, fun _ => .reject]
    hidle.ge).1⟩

end Ramulator.Frontend.O3
