/-
# Ramulator.Controller.Kind — the cycle-level controllers of the repository.

They all derive from `ControllerBase`: they inherit `send` and `priority_send`, add fields of their own
and override `tick`. A kind is one of them with its parameters.
-/
import Ramulator.Controller.HBM
import Ramulator.Controller.LPDDR
import Ramulator.Controller.PRAC
import Ramulator.Controller.BlockHammer

namespace Ramulator.Controller

open Ramulator.Base (Request)
open Ramulator.Dram Ramulator.Lib

variable {K : Type}

inductive ControllerKind where
  | genericDDR
  | hbm12 (h : HBMConfig)
  | hbm34 (h : HBM34Config)
  | lpddr (lp : LPDDRConfig)
  | prac (p : PRACConfig)
  | blockHammer (bh : BlockHammerConfig)

namespace ControllerKind

/-- The fields that a controller adds. -/
def Own : ControllerKind → Type
  | genericDDR | hbm12 _ => Unit
  | hbm34 _ => HBM34State
  | lpddr _ => LPDDRState
  | prac _ => PRACState
  | blockHammer _ => BlockHammerState

/-- What the hooks of a tick enqueue. -/
def Inputs (K : Type) : ControllerKind → Type
  | genericDDR | lpddr _ | prac _ | blockHammer _ => TickInputs K
  | hbm12 _ | hbm34 _ => SlotInputs K

/-- The added fields at the start. -/
def start : (k : ControllerKind) → k.Own
  | genericDDR | hbm12 _ => ()
  | hbm34 _ => ({} : HBM34State)
  | lpddr _ => ({} : LPDDRState)
  | prac _ => ({} : PRACState)
  | blockHammer bh => bh.init

def init (cfg : Config) (k : ControllerKind) : Derived K k.Own := ⟨ControllerBase.init cfg, k.start⟩

/-- The `tick` of each controller. -/
def tick (cfg : Config) :
    (k : ControllerKind) → k.Inputs K → Derived K k.Own → Except String (Derived K k.Own)
  | genericDDR => fun inputs s => (s.base.tick cfg inputs).map fun base => { s with base := base }
  | hbm12 h => hbm12Tick cfg h
  | hbm34 h => hbm34Tick cfg h
  | lpddr lp => lpddrTick cfg lp
  | prac p => pracTick cfg p
  | blockHammer bh => blockHammerTick cfg bh

/-- The calls on a controller. -/
inductive Call (K : Type) (k : ControllerKind) where
  | send (apply : Request Command K → AddrVec) (req : Request Command K)
  | prioritySend (req : Request Command K)
  | tick (inputs : k.Inputs K)

def call (cfg : Config) (k : ControllerKind) (c : k.Call K) (s : Derived K k.Own) :
    Except String (Derived K k.Own) :=
  match c with
  | .send apply req => (s.base.send cfg apply req).map fun r => { s with base := r.2.2 }
  | .prioritySend req => (s.base.prioritySend cfg req).map fun r => { s with base := r.2 }
  | .tick inputs => k.tick cfg inputs s

/-- The states that a controller can be in. -/
def Reached (cfg : Config) (k : ControllerKind) : Derived K k.Own → Prop :=
  Reachable (k.init cfg) fun s c s' => k.call cfg c s = .ok s'

/-- Those that calls satisfying `allowed` lead to. -/
def ReachedIf (cfg : Config) (k : ControllerKind) (allowed : Derived K k.Own → k.Call K → Prop) :
    Derived K k.Own → Prop :=
  Reachable (k.init cfg) fun s c s' => allowed s c ∧ k.call cfg c s = .ok s'

/-- What `f` shows of the state after the given calls, each of which has to pass `check`. -/
def watch {α : Type} (cfg : Config) (k : ControllerKind) (check : Derived K k.Own → k.Call K → Bool)
    (calls : List (k.Call K)) (f : Derived K k.Own → α) : Except String α :=
  (runAll (guarded check "check failed" (k.call cfg)) calls (k.init cfg)).map f

theorem reachedIf_of_watch {α : Type} {cfg : Config} {k : ControllerKind}
    {check : Derived K k.Own → k.Call K → Bool} {allowed : Derived K k.Own → k.Call K → Prop}
    (hcheck : ∀ s c, check s c = true → allowed s c) {calls : List (k.Call K)}
    {f : Derived K k.Own → α} {o : α} (h : k.watch cfg check calls f = .ok o) :
    ∃ d, k.ReachedIf cfg allowed d ∧ f d = o := by
  obtain ⟨d, hrun, hd⟩ := except_map_eq_ok.mp h
  exact ⟨d, reachable_runAll hcheck .start hrun, hd⟩

end ControllerKind

end Ramulator.Controller
