/-
# Ramulator.Frontend.SimpleO3Memory — the SimpleO3 frontend on a memory system.

The model of the cache takes the answers to its requests as an input, and the model of the frontend the
calls back. Here both come from a memory system that the frontend is connected to (`connect_memory_system`
in `frontend/i_frontend.h`): a tick of the cache sends, and the state of the memory system goes along; a
tick of the memory system calls back.

Every step of the two together is a step of the frontend alone, for the answers that the memory system
gave. So what holds of every reachable state of the frontend holds of it on any memory system.
-/
import Ramulator.Frontend.SimpleO3

namespace Ramulator.Frontend.O3

open Ramulator.Dram Ramulator.Lib

/-! ## The memory system -/

/-- What leaves a simulation by an exception. -/
inductive SystemFault where
  | frontend (fault : Fault)
  | memory (what : String)
  deriving DecidableEq, Repr

/-- The memory system calls back one of the requests that it has, by its place among them. -/
structure Return where
  index : Nat
  arrive : Int
  depart : Int
  deriving DecidableEq, Repr

/-- An attempt to send, and how it ended. -/
structure Attempt where
  req : Req
  decision : LLC.Decision
  deriving DecidableEq, Repr

/-- What SimpleO3 and `run_simulation` use of `IMemorySystem`. -/
structure IMemorySystem where
  State : Type
  init : State
  send : Req → State → Except String (LLC.Decision × State)
  tick : State → Except String (List Return × State)
  idleTicks : State → Int
  fastForward : Int → State → State

variable {mem : IMemorySystem}

/-! ## Ticks of the cache -/

namespace LLC

variable {cfg : LLCConfig} {s s' : LLC} {m m' : mem.State}

/-- The loop over the misses from the `i`-th on, with the memory system that they are sent to. -/
def sendMissesTo (cfg : LLCConfig) (mem : IMemorySystem) :
    Nat → Nat → List Req → List Attempt → LLC → mem.State →
      Except SystemFault (List Req × List Attempt × LLC × mem.State)
  | 0, _, answers, attempts, s, m => .ok (answers, attempts, s, m)
  | n + 1, i, answers, attempts, s, m =>
      match s.missList[i]? with
      | none => .ok (answers, attempts, s, m)
      | some (due, req) =>
          if s.clk ≥ due then
            match mem.send req m with
            | .error what => .error (.memory what)
            | .ok (decision, m) =>
                let s := { s with attempts := s.attempts + 1 }
                let attempts := attempts ++ [⟨req, decision⟩]
                match decision with
                | .reject => sendMissesTo cfg mem n (i + 1) answers attempts s m
                | .accept => sendMissesTo cfg mem n i answers attempts (s.takeMiss i req) m
                | .acceptNow arrive depart =>
                    ((s.takeMiss i req).deliver cfg s.memory.length arrive depart).mapError .frontend >>=
                      fun (done, s) => sendMissesTo cfg mem n i (answers ++ done) attempts s m
          else sendMissesTo cfg mem n (i + 1) answers attempts s m

/-- `SimpleO3LLC::tick` on a memory system. -/
def tickOn (cfg : LLCConfig) (mem : IMemorySystem) (s : LLC) (m : mem.State) :
    Except SystemFault (List Req × List Attempt × LLC × mem.State) :=
  sendMissesTo cfg mem s.missList.length 0 [] [] s m >>= fun (answers, attempts, s, m) =>
    (finishHits s.hitList.length 0 answers s).mapError SystemFault.frontend |>.map fun (answers, s) =>
      (answers, attempts, s, m)

/-! ## Only attempts are counted as attempts -/

theorem attempts_completeLogicalRequest {l : LogicalRequest} (h : completeLogicalRequest l s = .ok s') :
    s'.attempts = s.attempts := by
  unfold completeLogicalRequest at h
  split_ifs at h
  cases h
  rfl

theorem attempts_complete {c : Completion} {addr arrive depart : Int} {answers : List Req}
    (h : s.complete cfg c addr arrive depart = .ok (answers, s')) : s'.attempts = s.attempts := by
  cases c with
  | writebackDone =>
      obtain ⟨t, ht, heq⟩ := except_map_eq_ok.mp h
      cases heq
      unfold writebackDone at ht
      split_ifs at ht
      cases ht
      rfl
  | receive =>
      obtain ⟨⟨requests, t⟩, ht, h⟩ := except_bind_eq_ok.mp h
      have htake : t.attempts = s.attempts := by
        unfold takeReceiveRequests at ht
        split at ht
        · cases ht
        · split_ifs at ht
          cases ht
          rfl
      dsimp only at h
      split_ifs at h
      obtain ⟨u, hu, h⟩ := except_bind_eq_ok.mp h
      have hreceive : u.attempts = t.attempts := by
        unfold receive at hu
        split at hu
        · cases hu
        · cases hu
          rfl
      obtain ⟨v, hv, h⟩ := except_bind_eq_ok.mp h
      cases h
      refine foldlM_preserves (P := fun w => w.attempts = s.attempts) ?_ (hreceive.trans htake) hv
      intro w l w' _ hw hstep
      exact (attempts_completeLogicalRequest hstep).trans hw

theorem attempts_deliver {j : Nat} {arrive depart : Int} {answers : List Req}
    (h : s.deliver cfg j arrive depart = .ok (answers, s')) : s'.attempts = s.attempts := by
  unfold deliver at h
  split at h
  · cases h
    rfl
  · unfold callBack at h
    split at h
    · cases h
      rfl
    · exact (attempts_complete h).trans rfl
    · split at h
      · cases h
      · dsimp only at h
        split_ifs at h
        · exact (attempts_complete h).trans rfl
        · cases h
          rfl

/-! ## A memory system answers -/

theorem mapError_eq_ok {ε δ α : Type} {f : ε → δ} {x : Except ε α} {a : α} :
    x.mapError f = .ok a ↔ x = .ok a := by
  cases x <;> simp [Except.mapError]

/-- The loop does what it does for the answers that the memory system gave. -/
theorem sendMisses_of_sendMissesTo {n i : Nat} {answers answers' : List Req} {attempts attempts' : List Attempt}
    (h : sendMissesTo cfg mem n i answers attempts s m = .ok (answers', attempts', s', m')) :
    ∃ new, attempts' = attempts ++ new ∧ ∀ decisions : Nat → Decision,
      (∀ (k : Nat) (x : Attempt), new[k]? = some x → decisions (s.attempts + 1 + k) = x.decision) →
        sendMisses cfg decisions n i answers s = .ok (answers', s') := by
  induction n generalizing i answers attempts s m with
  | zero =>
      cases h
      exact ⟨[], (List.append_nil _).symm, fun _ _ => rfl⟩
  | succ n ih =>
      unfold sendMissesTo at h
      unfold sendMisses
      cases hi : s.missList[i]? with
      | none =>
          rw [hi] at h
          cases h
          exact ⟨[], (List.append_nil _).symm, fun _ _ => rfl⟩
      | some miss =>
          obtain ⟨due, req⟩ := miss
          rw [hi] at h
          dsimp only at h ⊢
          split_ifs at h ⊢ with hdue
          · cases hsend : mem.send req m with
            | error what =>
                rw [hsend] at h
                cases h
            | ok answer =>
                obtain ⟨decision, m₁⟩ := answer
                rw [hsend] at h
                -- the answers to the attempts after this one are one place further on
                have hshift : ∀ {new : List Attempt} {decisions : Nat → Decision},
                    (∀ (k : Nat) (x : Attempt), ((⟨req, decision⟩ : Attempt) :: new)[k]? = some x →
                      decisions (s.attempts + 1 + k) = x.decision) →
                    decisions (s.attempts + 1) = decision ∧ ∀ (k : Nat) (x : Attempt), new[k]? = some x →
                      decisions (s.attempts + 1 + 1 + k) = x.decision := by
                  intro new decisions hall
                  refine ⟨hall 0 _ rfl, fun k x hx => ?_⟩
                  rw [← hall (k + 1) x hx]
                  congr 1
                  omega
                cases decision with
                | reject =>
                    obtain ⟨new, rfl, hnew⟩ := ih h
                    refine ⟨⟨req, .reject⟩ :: new, List.append_assoc .., fun decisions hall => ?_⟩
                    obtain ⟨hfirst, hrest⟩ := hshift hall
                    rw [hfirst]
                    exact hnew decisions hrest
                | accept =>
                    obtain ⟨new, rfl, hnew⟩ := ih h
                    refine ⟨⟨req, .accept⟩ :: new, List.append_assoc .., fun decisions hall => ?_⟩
                    obtain ⟨hfirst, hrest⟩ := hshift hall
                    rw [hfirst]
                    exact hnew decisions hrest
                | acceptNow arrive depart =>
                    obtain ⟨⟨done, t⟩, hdone, h⟩ := except_bind_eq_ok.mp h
                    have hdeliver := mapError_eq_ok.mp hdone
                    obtain ⟨new, rfl, hnew⟩ := ih h
                    refine ⟨⟨req, .acceptNow arrive depart⟩ :: new, List.append_assoc .., fun decisions hall => ?_⟩
                    obtain ⟨hfirst, hrest⟩ := hshift hall
                    rw [hfirst]
                    rw [attempts_deliver hdeliver] at hnew
                    exact except_bind_eq_ok.mpr ⟨_, hdeliver, hnew decisions hrest⟩
          · exact ih h

/-- A tick on a memory system is a tick for some answers. -/
theorem tick_of_tickOn {answers : List Req} {attempts : List Attempt}
    (h : s.tickOn cfg mem m = .ok (answers, attempts, s', m')) :
    ∃ decisions, s.tick cfg decisions = .ok (answers, s') := by
  obtain ⟨⟨sent, attempts', t, m₁⟩, hsent, h⟩ := except_bind_eq_ok.mp h
  obtain ⟨⟨answers', t'⟩, hhits, heq⟩ := except_map_eq_ok.mp h
  cases heq
  obtain ⟨_, rfl, hnew⟩ := sendMisses_of_sendMissesTo hsent
  let decisions (a : Nat) : Decision := (attempts[a - (s.attempts + 1)]?.map (·.decision)).getD .reject
  refine ⟨decisions, except_bind_eq_ok.mpr ⟨_, hnew decisions fun k x hx => ?_, mapError_eq_ok.mp hhits⟩⟩
  have hplace : s.attempts + 1 + k - (s.attempts + 1) = k := by omega
  simp only [decisions, hplace, hx, Option.map_some, Option.getD_some]

/-- Before its next event the cache does not send. -/
theorem tickOn_of_quiet (h : s.QuietUntil s.clk) : s.tickOn cfg mem m = .ok ([], [], s, m) := by
  have hmisses : ∀ n i, sendMissesTo cfg mem n i [] [] s m = .ok ([], [], s, m) := by
    intro n
    induction n with
    | zero => exact fun i => rfl
    | succ n ih =>
        intro i
        unfold sendMissesTo
        cases hi : s.missList[i]? with
        | none => rfl
        | some miss =>
            have hlt := h.1 miss (List.mem_of_getElem? hi)
            dsimp only
            rw [if_neg (not_le.mpr hlt)]
            exact ih (i + 1)
  -- the hits do nothing either: the tick for any answers says so
  have htick : s.tick cfg (fun _ => .reject) = .ok ([], s) := tick_of_quiet h _
  obtain ⟨⟨answers, t⟩, hsent, hhits⟩ := except_bind_eq_ok.mp htick
  obtain ⟨new, hnone, hnew⟩ := sendMisses_of_sendMissesTo (hmisses s.missList.length 0)
  obtain rfl : new = [] := hnone.symm
  have hsame := hnew (fun _ => .reject) fun k x hx => absurd hx (by rw [List.getElem?_nil]; exact nofun)
  obtain ⟨rfl, rfl⟩ := Prod.mk.inj (Except.ok.inj (hsent.symm.trans hsame))
  have hnone : finishHits t.hitList.length 0 [] t = .ok ([], t) := hhits
  unfold tickOn
  rw [hmisses]
  show ((finishHits t.hitList.length 0 [] t).mapError SystemFault.frontend).map _ = _
  rw [hnone]
  rfl

end LLC

namespace SimpleO3

variable {cfg : O3Config} {T : Translation} {s s' : SimpleO3 cfg T} {m m' : mem.State}

/-- `SimpleO3::tick` on a memory system, with the attempts to send to it. -/
def tickOn (mem : IMemorySystem) (s : SimpleO3 cfg T) (m : mem.State) :
    Except SystemFault (SimpleO3 cfg T × mem.State × List Attempt) :=
  (s.advance 1).llc.tickOn cfg.llc mem m >>= fun (answers, attempts, llc, m) =>
    ((answers.foldlM answer { s.advance 1 with llc := llc } >>= fun s =>
      (List.finRange cfg.numCores).foldlM tickCore s).mapError SystemFault.frontend).map
        fun s => (s, m, attempts)

/-- The memory system calls back what has returned. -/
def receiveAll (returns : List Return) (s : SimpleO3 cfg T) : Except SystemFault (SimpleO3 cfg T) :=
  (returns.foldlM (fun (s : SimpleO3 cfg T) r => s.callBack r.index r.arrive r.depart) s).mapError .frontend

theorem tick_of_tickOn {attempts : List Attempt} (h : s.tickOn mem m = .ok (s', m', attempts)) :
    ∃ decisions, s.tick decisions = .ok s' := by
  obtain ⟨⟨answers, attempts', llc, m₁⟩, hllc, h⟩ := except_bind_eq_ok.mp h
  obtain ⟨t, ht, heq⟩ := except_map_eq_ok.mp h
  cases heq
  obtain ⟨u, hu, hcores⟩ := except_bind_eq_ok.mp (LLC.mapError_eq_ok.mp ht)
  obtain ⟨decisions, hdecisions⟩ := LLC.tick_of_tickOn hllc
  exact ⟨decisions, except_bind_eq_ok.mpr ⟨u, except_bind_eq_ok.mpr ⟨_, hdecisions, hu⟩, hcores⟩⟩

theorem Reached.tickOn {attempts : List Attempt} (hs : Reached s) (h : s.tickOn mem m = .ok (s', m', attempts)) :
    Reached s' := by
  obtain ⟨s₀, hstart, hreach⟩ := hs
  obtain ⟨decisions, htick⟩ := tick_of_tickOn h
  exact ⟨s₀, hstart, hreach.step (.tick decisions) ⟨trivial, htick⟩⟩

theorem Reached.receiveAll {returns : List Return} (hs : Reached s) (h : s.receiveAll returns = .ok s') :
    Reached s' := by
  refine foldlM_preserves (P := Reached) ?_ hs (LLC.mapError_eq_ok.mp h)
  rintro t r t' - ⟨s₀, hstart, hreach⟩ hcall
  exact ⟨s₀, hstart, hreach.step (.callBack r.index r.arrive r.depart) ⟨trivial, hcall⟩⟩

theorem Reached.fastForward (hs : Reached s) {ticks : Int} (hticks : 0 ≤ ticks) : Reached (s.fastForward ticks) := by
  obtain ⟨s₀, hstart, hreach⟩ := hs
  exact ⟨s₀, hstart, hreach.step (.fastForward ticks) ⟨hticks, rfl⟩⟩

/-- An idle tick does not send. -/
theorem tickOn_of_idle (h : IdleUntil (s.llc.clk + 1) s) : s.tickOn mem m = .ok (s.fastForward 1, m, []) := by
  have hcores : (List.finRange cfg.numCores).foldlM tickCore (s.advance 1) = .ok (s.fastForward 1) :=
    foldlM_tickCore (s := s.advance 1) h.cores h.stalled
  refine except_bind_eq_ok.mpr ⟨_, LLC.tickOn_of_quiet (s := (s.advance 1).llc) h.cache, ?_⟩
  exact except_map_eq_ok.mpr ⟨_, LLC.mapError_eq_ok.mpr (except_bind_eq_ok.mpr ⟨_, rfl, hcores⟩), rfl⟩

end SimpleO3

end Ramulator.Frontend.O3
