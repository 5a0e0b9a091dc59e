/-
# Ramulator.Lib.Durable — programs over a durable state that may crash before any write.

A program is given the number of writes that it may still make. At the write after the last one it
crashes: what has been written stays, nothing else happens. So what holds for every number holds of every
point at which the program can be cut off.

`wp p Q R s` says of the program `p`, started in `s`, that `Q` holds of its answer and of the state if it
returns, and `R` of the state if it raises or crashes. There is a rule for each way to make a program, and
only a write asks for `R`: nothing can be cut off elsewhere.
-/
import Mathlib.Tactic.Common

namespace Ramulator.Lib

/-- How a program ends that does not return. -/
inductive Stop (ε : Type) where
  | crashed
  | raised (e : ε)
  deriving DecidableEq, Repr

/-- A program: from the writes that are left and the state, to its answer and what is left of both. -/
def Durable (σ ε α : Type) : Type := Nat → σ → Except (Stop ε) α × Nat × σ

namespace Durable

variable {σ ε α β : Type}

instance : Monad (Durable σ ε) where
  pure a := fun n s => (.ok a, n, s)
  bind p f := fun n s =>
    match p n s with
    | (.ok a, n, s) => f a n s
    | (.error e, n, s) => (.error e, n, s)

/-- The state. -/
def read : Durable σ ε σ := fun n s => (.ok s, n, s)

/-- A write, which may be refused. -/
def write (f : σ → Except ε σ) : Durable σ ε Unit := fun n s =>
  match n with
  | 0 => (.error .crashed, 0, s)
  | n + 1 =>
      match f s with
      | .ok s => (.ok (), n, s)
      | .error e => (.error (.raised e), n, s)

/-- A change that goes with what the program does outside of its durable state. -/
def note (f : σ → σ) : Durable σ ε Unit := fun n s => (.ok (), n, f s)

def raise (e : ε) : Durable σ ε α := fun n s => (.error (.raised e), n, s)

def crash : Durable σ ε α := fun n s => (.error .crashed, n, s)

/-- A value that may be missing. -/
def orRaise (e : ε) : Option α → Durable σ ε α
  | some a => pure a
  | none => raise e

/-- The state after a run, however it ends. -/
def final (p : Durable σ ε α) (n : Nat) (s : σ) : σ := (p n s).2.2

/-- The answer of a run. -/
def answer (p : Durable σ ε α) (n : Nat) (s : σ) : Except (Stop ε) α := (p n s).1

/-- `Q` after a return and `R` after any other end, wherever the program is cut off. -/
def wp (p : Durable σ ε α) (Q : α → σ → Prop) (R : σ → Prop) (s : σ) : Prop :=
  ∀ n, match p.answer n s with
    | .ok a => Q a (p.final n s)
    | .error _ => R (p.final n s)

variable {p : Durable σ ε α} {f : α → Durable σ ε β} {Q Q' : α → σ → Prop} {R R' : σ → Prop} {s : σ}

theorem wp_pure {a : α} (h : Q a s) : wp (pure a : Durable σ ε α) Q R s := fun _ => h

theorem bind_of_ok {n n' : Nat} {s' : σ} {a : α} (h : p n s = (.ok a, n', s')) :
    (p >>= f) n s = f a n' s' := by
  show (match p n s with
    | (.ok a, n, s) => f a n s
    | (.error e, n, s) => (.error e, n, s)) = _
  rw [h]

theorem bind_of_error {n n' : Nat} {s' : σ} {e : Stop ε} (h : p n s = (.error e, n', s')) :
    (p >>= f) n s = (.error e, n', s') := by
  show (match p n s with
    | (.ok a, n, s) => f a n s
    | (.error e, n, s) => (.error e, n, s)) = _
  rw [h]

theorem wp_bind {Q : β → σ → Prop} (h : wp p (fun a s => wp (f a) Q R s) R s) : wp (p >>= f) Q R s := by
  intro n
  have hp := h n
  unfold answer final at hp ⊢
  obtain ⟨⟨answer, n', s'⟩, hrun⟩ : ∃ r, p n s = r := ⟨_, rfl⟩
  rw [hrun] at hp
  cases answer with
  | ok a =>
      rw [bind_of_ok hrun]
      exact hp n'
  | error e =>
      rw [bind_of_error hrun]
      exact hp

theorem wp_read {Q : σ → σ → Prop} (h : Q s s) : wp (read : Durable σ ε σ) Q R s := fun _ => h

theorem wp_write {g : σ → Except ε σ} {Q : Unit → σ → Prop} (hcrash : R s)
    (h : ∀ s', g s = .ok s' → Q () s') : wp (write g) Q R s := by
  intro n
  cases n with
  | zero => exact hcrash
  | succ n =>
      unfold answer final write
      dsimp only
      cases hg : g s with
      | ok s' => exact h s' hg
      | error e => exact hcrash

theorem wp_note {g : σ → σ} {Q : Unit → σ → Prop} (h : Q () (g s)) :
    wp (note g : Durable σ ε Unit) Q R s := fun _ => h

theorem wp_raise {e : ε} (h : R s) : wp (raise e : Durable σ ε α) Q R s := fun _ => h

theorem wp_crash (h : R s) : wp (crash : Durable σ ε α) Q R s := fun _ => h

theorem wp_orRaise {e : ε} {o : Option α} (hraise : R s) (h : ∀ a, o = some a → Q a s) :
    wp (orRaise e o : Durable σ ε α) Q R s := by
  cases o with
  | none => exact wp_raise hraise
  | some a => exact wp_pure (h a rfl)

theorem wp_mono (h : wp p Q R s) (hQ : ∀ a s, Q a s → Q' a s) (hR : ∀ s, R s → R' s) : wp p Q' R' s := by
  intro n
  have hp := h n
  cases hanswer : p.answer n s with
  | ok a =>
      rw [hanswer] at hp
      exact hQ a _ hp
  | error e =>
      rw [hanswer] at hp
      exact hR _ hp

/-- What holds after every end holds of the state that a run leaves. -/
theorem wp_final {I : σ → Prop} (h : wp p (fun _ s => I s) I s) (n : Nat) : I (p.final n s) := by
  have hp := h n
  cases hanswer : p.answer n s with
  | ok a =>
      rw [hanswer] at hp
      exact hp
  | error e =>
      rw [hanswer] at hp
      exact hp

end Durable

end Ramulator.Lib
