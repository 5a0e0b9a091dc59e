/-
# Ramulator.Lib.Elision — skipping idle ticks.

A clocked component reports for how many ticks it stays idle and offers to advance over them at once.
`Elision` is what one step of that has to satisfy: a tick in the idle time is an advance by one,
advances add up, and an advance uses no more of the idle time than it says. Whole skips follow, for any
inputs of the skipped ticks.

The second half is about components whose tick serves a queue of departures: they are idle until the
first departure, and the tick after that serves it.
-/
import Ramulator.Lib.Run
import Ramulator.Lib.TimedQueue
import Mathlib.Tactic.Ring
import Mathlib.Algebra.Order.Ring.Int

namespace Ramulator.Lib

variable {σ ι ε : Type}

structure Elision (tick : ι → σ → Except ε σ) (idle : σ → Int) (fastForward : Int → σ → σ) : Prop where
  zero : ∀ s, fastForward 0 s = s
  add : ∀ s j k, fastForward j (fastForward k s) = fastForward (k + j) s
  quiet : ∀ s i, 0 < idle s → tick i s = .ok (fastForward 1 s)
  remaining : ∀ s k, 0 ≤ k → k ≤ idle s → idle s - k ≤ idle (fastForward k s)

/-- Ticks within the idle time do what one advance does. -/
theorem Elision.runAll_eq {tick : ι → σ → Except ε σ} {idle : σ → Int}
    {fastForward : Int → σ → σ} (h : Elision tick idle fastForward) {inputs : List ι} {s : σ}
    (hidle : (inputs.length : Int) ≤ idle s) :
    runAll tick inputs s = .ok (fastForward inputs.length s) := by
  induction inputs generalizing s with
  | nil => exact congrArg Except.ok (h.zero s).symm
  | cons i inputs ih =>
      rw [List.length_cons] at hidle ⊢
      have hleft := h.remaining s 1 Int.one_nonneg (by omega)
      unfold runAll
      rw [h.quiet s i (by omega)]
      show runAll tick inputs (fastForward 1 s) = _
      rw [ih (by omega), h.add]
      congr 2
      push_cast
      ring

/-- A component that is never idle. -/
theorem Elision.never (tick : ι → σ → Except ε σ) : Elision tick (fun _ => 0) fun _ s => s where
  zero := fun _ => rfl
  add := fun _ _ _ => rfl
  quiet := fun _ _ h => absurd h (lt_irrefl 0)
  remaining := fun _ _ hk _ => by omega

/-! ## Components that serve a queue -/

variable {α : Type}

/-- A component with a clock and a queue that the clock does not touch. -/
structure QueueClock (σ α : Type) where
  queue : σ → TimedQueue α
  clk : σ → Int
  advance : Int → σ → σ
  advance_zero : ∀ s, advance 0 s = s
  advance_add : ∀ s j k, advance j (advance k s) = advance (k + j) s
  queue_advance : ∀ k s, queue (advance k s) = queue s
  clk_advance : ∀ k s, clk (advance k s) = clk s + k

/-- The result of a computation, or an exception. -/
def orThrow (what : ε) : Option σ → Except ε σ
  | some s => .ok s
  | none => .error what

namespace QueueClock

variable (c : QueueClock σ α) (serve : ι → Nat → Timed α → σ → Option σ)

/-- The clock moves and what is due is served. -/
def tick (i : ι) (s : σ) : Option σ :=
  drain c.queue (serve i) (c.clk (c.advance 1 s)) ((c.queue (c.advance 1 s)).due (c.clk (c.advance 1 s)))
    0 (c.advance 1 s)

def idleTicks (never : Int) (s : σ) : Int := (c.queue s).idle never (c.clk s)

theorem elision (never : Int) (what : ε) :
    Elision (fun i s => orThrow what (c.tick serve i s)) (c.idleTicks never) c.advance where
  zero := c.advance_zero
  add := c.advance_add
  quiet := by
    intro s i hidle
    have hdue : (c.queue (c.advance 1 s)).due (c.clk (c.advance 1 s)) = 0 := by
      rw [c.queue_advance, c.clk_advance]
      exact TimedQueue.due_of_le_idle Int.one_pos hidle
    show orThrow what (c.tick serve i s) = _
    unfold tick
    rw [drain_of_not_due hdue]
    rfl
  remaining := by
    intro s k hk hle
    show _ ≤ (c.queue (c.advance k s)).idle never (c.clk (c.advance k s))
    rw [c.queue_advance, c.clk_advance]
    exact TimedQueue.idle_advance hk hle

/-- One tick more than the idle time serves the first entry. -/
theorem head_after_idle {never : Int} {what : ε} {P : σ → Prop} {inputs : List ι} {s s' : σ}
    {p : Timed α} {rest : List (Timed α)} (hq : (c.queue s).entries = p :: rest)
    (hlength : (inputs.length : Int) = c.idleTicks never s + 1)
    (hhead : ∀ i j t t', serve i j p t = some t' → P t')
    (hkeeps : ∀ i j r t t', P t → serve i j r t = some t' → P t')
    (h : runAll (fun i s => orThrow what (c.tick serve i s)) inputs s = .ok s') : P s' := by
  rcases List.eq_nil_or_concat inputs with rfl | ⟨init, i, rfl⟩
  · -- the idle time is not negative
    unfold idleTicks TimedQueue.idle at hlength
    simp only [hq, List.length_nil] at hlength
    split_ifs at hlength <;> omega
  · rw [List.concat_eq_append] at h hlength
    rw [List.length_append, List.length_singleton] at hlength
    have hinit : (init.length : Int) = c.idleTicks never s := by omega
    rw [runAll_append, (c.elision serve never what).runAll_eq hinit.le] at h
    obtain ⟨t, ht, hst⟩ : ∃ t, c.tick serve i (c.advance init.length s) = some t ∧ t = s' := by
      cases ht : c.tick serve i (c.advance init.length s) with
      | none => simp [Except.bind, runAll, ht, orThrow] at h
      | some t => exact ⟨t, rfl, by simpa [Except.bind, runAll, ht, orThrow] using h⟩
    subst hst
    unfold tick at ht
    have hq' : (c.queue (c.advance 1 (c.advance init.length s))).entries = p :: rest := by
      rw [c.queue_advance, c.queue_advance, hq]
    have hclk : p.depart ≤ c.clk (c.advance 1 (c.advance init.length s)) := by
      rw [c.clk_advance, c.clk_advance, hinit, add_assoc]
      exact TimedQueue.head_due_after_idle hq
    have hdue := TimedQueue.due_pop hq' hclk
    exact drain_head hq' hclk (by omega) (hhead i 0 _) (hkeeps i) ht

end QueueClock

end Ramulator.Lib
