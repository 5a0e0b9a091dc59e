/-
# Ramulator.Frontend.SimpleO3Service — what the SimpleO3 cache accepts, it completes once.

A request that the cache has accepted waits in the hit list or in the bucket of a line under way. A line
under way has one MSHR, one bucket and one completion that is owed: by a request of line size that is
waiting or in the memory system, or by a split request some of whose parts are. The invariant keeps
these accounts; where an operation has taken something out of one list and not yet put it into the
other, the part in between is named (requests in transit, completions owed).
-/
import Ramulator.Frontend.SimpleO3Sets
import Ramulator.Frontend.SimpleO3
import Mathlib.Data.List.Perm.Basic
import Mathlib.Data.List.Perm.Subperm

namespace Ramulator.Frontend.O3

open Ramulator.Base (Request)
open Ramulator.Lib

/-! ## Logical requests -/

/-- The account of logical requests: every one that was accepted is completed, in transit or live. -/
structure LogicalOk (clk : Int) (transit live accepted completed : List LogicalRequest)
    (ids : List LogicalKey) (count : Int) (next : Nat) : Prop where
  served : accepted.Perm (completed ++ (transit ++ live))
  keys : ids.Perm ((transit ++ live).map (·.key))
  nodup : ids.Nodup
  counted : count = ids.length
  arrived : ∀ l ∈ transit ++ live, l.arrive ≤ clk
  ordinals : accepted.map (·.admissionOrdinal) = List.range next

namespace LogicalOk

variable {clk count : Int} {transit live transit' live' accepted completed : List LogicalRequest}
  {ids : List LogicalKey} {next : Nat} {l : LogicalRequest}

/-- Requests move between the lists. -/
theorem move (h : LogicalOk clk transit live accepted completed ids count next)
    (hperm : (transit ++ live).Perm (transit' ++ live')) :
    LogicalOk clk transit' live' accepted completed ids count next where
  served := h.served.trans (hperm.append_left completed)
  keys := h.keys.trans (hperm.map _)
  nodup := h.nodup
  counted := h.counted
  arrived := fun l hl => h.arrived l (hperm.mem_iff.mpr hl)
  ordinals := h.ordinals

/-- A new request, whose identity is not live. -/
theorem accept (h : LogicalOk clk transit live accepted completed ids count next)
    (hkey : l.key ∉ ids) (harrive : l.arrive ≤ clk) (hordinal : l.admissionOrdinal = next) :
    LogicalOk clk (l :: transit) live (accepted ++ [l]) completed (ids ++ [l.key]) (count + 1) (next + 1) where
  served := by
    refine (h.served.append_right [l]).trans ?_
    rw [List.append_assoc]
    exact (List.perm_append_singleton l (transit ++ live)).append_left completed
  keys := (h.keys.append_right [l.key]).trans (List.perm_append_singleton _ _)
  nodup := by
    refine List.nodup_append'.mpr ⟨h.nodup, List.nodup_singleton _, ?_⟩
    intro k hk hk'
    rw [List.mem_singleton.mp hk'] at hk
    exact hkey hk
  counted := by
    rw [List.length_append, h.counted]
    rfl
  arrived := by
    intro x hx
    rcases List.mem_cons.mp hx with rfl | hx
    · exact harrive
    · exact h.arrived x hx
  ordinals := by
    rw [List.map_append, h.ordinals, List.range_succ, ← hordinal]
    rfl

theorem key_mem (h : LogicalOk clk (l :: transit) live accepted completed ids count next) : l.key ∈ ids :=
  h.keys.mem_iff.mpr List.mem_cons_self

/-- A request is completed. -/
theorem complete (h : LogicalOk clk (l :: transit) live accepted completed ids count next) :
    LogicalOk clk transit live accepted (completed ++ [l]) (ids.erase l.key) (count - 1) next where
  served := by
    refine h.served.trans ?_
    rw [List.append_assoc]
    rfl
  keys := by
    have herase := h.keys.erase l.key
    rw [List.cons_append, List.map_cons, List.erase_cons_head] at herase
    exact herase
  nodup := h.nodup.erase _
  counted := by
    rw [List.length_erase_of_mem h.key_mem, h.counted]
    have hpos := List.length_pos_of_mem h.key_mem
    omega
  arrived := fun x hx => h.arrived x (List.mem_cons_of_mem l hx)
  ordinals := h.ordinals

theorem wait {k : Int} (h : LogicalOk clk transit live accepted completed ids count next) (hk : 0 ≤ k) :
    LogicalOk (clk + k) transit live accepted completed ids count next :=
  { h with arrived := fun l hl => (h.arrived l hl).trans (by omega) }

end LogicalOk

/-! ## Buckets -/

/-- The buckets are those of the MSHRs. Hits are in the other list. -/
structure BucketsOk (buckets : List (Int × List LogicalRequest)) (hits : List (Int × LogicalRequest))
    (mshrs : List (Int × Nat)) : Prop where
  keys : buckets.map (·.1) = mshrs.map (·.1)
  nonempty : ∀ b ∈ buckets, b.2 ≠ []
  waits : ∀ b ∈ buckets, ∀ l ∈ b.2, l.path ≠ .hit
  hit : ∀ h ∈ hits, h.2.path = .hit

/-- The entry of a key comes first, the others follow. -/
theorem perm_cons_filter_key {α β : Type} [DecidableEq α] {l : List (α × β)} {b : α × β}
    (hnodup : (l.map (·.1)).Nodup) (hb : b ∈ l) : l.Perm (b :: l.filter (·.1 ≠ b.1)) := by
  induction l with
  | nil => cases hb
  | cons x l ih =>
      rw [List.map_cons, List.nodup_cons] at hnodup
      rcases List.mem_cons.mp hb with rfl | hb
      · have hrest : l.filter (·.1 ≠ b.1) = l := by
          refine List.filter_eq_self.mpr fun y hy => decide_eq_true fun heq => hnodup.1 ?_
          exact heq ▸ List.mem_map_of_mem hy
        rw [List.filter_cons_of_neg (by simp), hrest]
      · have hne : x.1 ≠ b.1 := fun heq => hnodup.1 (heq ▸ List.mem_map_of_mem hb)
        rw [List.filter_cons_of_pos (by simpa using hne)]
        exact ((ih hnodup.2 hb).cons x).trans (List.Perm.swap b x _)

theorem map_fst_filter_key {α β : Type} [DecidableEq α] (l : List (α × β)) (k : α) :
    (l.filter (·.1 ≠ k)).map (·.1) = (l.map (·.1)).filter (· ≠ k) := by
  rw [List.filter_map]
  rfl

/-- One request more in one of the buckets. -/
theorem flatMap_addTo {buckets : List (Int × List LogicalRequest)} {addr : Int} {l : LogicalRequest}
    (hnodup : (buckets.map (·.1)).Nodup) (hmem : addr ∈ buckets.map (·.1)) :
    ((buckets.map (LLC.addTo addr l)).flatMap (·.2)).Perm (l :: buckets.flatMap (·.2)) := by
  obtain ⟨b, hb, rfl⟩ := List.mem_map.mp hmem
  have hperm := perm_cons_filter_key hnodup hb
  have hothers : (buckets.filter (·.1 ≠ b.1)).map (LLC.addTo b.1 l) = buckets.filter (·.1 ≠ b.1) := by
    refine (List.map_congr_left fun x hx => ?_).trans (List.map_id _)
    exact if_neg (of_decide_eq_true (List.mem_filter.mp hx).2)
  refine ((hperm.map _).flatMap_right _).trans ?_
  rw [List.map_cons, hothers, List.flatMap_cons]
  have hfirst : LLC.addTo b.1 l b = (b.1, b.2 ++ [l]) := if_pos rfl
  rw [hfirst]
  refine (List.Perm.append_right _ (List.perm_append_singleton l b.2)).trans ?_
  exact ((hperm.flatMap_right _).symm.cons l)

/-! ## Traffic -/

/-- The completion that a request of line size brings, with the address it is for. -/
def wholeOf (r : Req) : Option (Completion × Int) :=
  match r.callback with
  | some (.whole c) => some (c, r.addr)
  | _ => none

/-- The completion that a split request will bring. -/
def openOf (sp : Split) : Option (Completion × Int) :=
  if sp.remaining = 0 then none else some (sp.callback, sp.original.addr)

/-- The completions that are to come. -/
def owed (out : List Req) (splits : List Split) : List (Completion × Int) :=
  out.filterMap wholeOf ++ splits.filterMap openOf

/-- The requests for the parts of the split request `g`. -/
def partsOut (g : Nat) (out : List Req) : List Req := out.filter fun r => r.callback = some (.part g)

/-- The account of a split request: how many of its parts are under way. -/
structure SplitOk (cfg : LLCConfig) (out : List Req) (g : Nat) (sp : Split) : Prop where
  larger : cfg.txBytes < cfg.linesizeBytes
  remaining : sp.remaining = (partsOut g out).length
  fired : sp.fired = if sp.remaining = 0 then 1 else 0
  parts : sp.parts = LLC.partsOf cfg sp.original.addr
  outstanding : ((partsOut g out).map fun r => (r.addr, r.sizeBytes)).Subperm sp.parts

/-- The order of the requests does not matter. -/
theorem SplitOk.perm {cfg : LLCConfig} {out out' : List Req} {g : Nat} {sp : Split}
    (h : SplitOk cfg out g sp) (hperm : out.Perm out') :
    SplitOk cfg out' g sp where
  larger := h.larger
  remaining := h.remaining.trans (congrArg _ (hperm.filter _).length_eq)
  fired := h.fired
  parts := h.parts
  outstanding := ((hperm.filter _).map _).symm.subperm.trans h.outstanding

/-- The account of requests to memory: one completion is owed for each MSHR and for each internal
writeback. `due` are completions that are about to happen, or to be sent for. -/
structure TrafficOk (cfg : LLCConfig) (due : List (Completion × Int)) (out : List Req)
    (splits : List Split) (mshrs : List (Int × Nat)) (generated completed live : Int) : Prop where
  lines : (((due ++ owed out splits).filter (·.1 = .receive)).map (·.2)).Perm (mshrs.map (·.1))
  writebacks : live = (due ++ owed out splits).countP (·.1 = .writebackDone)
  balance : live + completed = generated
  known : ∀ r ∈ out, (∃ c, r.callback = some (.whole c)) ∨ ∃ g < splits.length, r.callback = some (.part g)
  split : ∀ g sp, splits[g]? = some sp → SplitOk cfg out g sp

namespace TrafficOk

variable {cfg : LLCConfig} {due due' : List (Completion × Int)} {out out' : List Req}
  {splits splits' : List Split} {mshrs : List (Int × Nat)} {generated completed live : Int}

/-- What is owed may change hands. -/
theorem move (h : TrafficOk cfg due out splits mshrs generated completed live)
    (hperm : (due ++ owed out splits).Perm (due' ++ owed out' splits'))
    (hknown : ∀ r ∈ out', (∃ c, r.callback = some (.whole c)) ∨
      ∃ g < splits'.length, r.callback = some (.part g))
    (hsplit : ∀ g sp, splits'[g]? = some sp → SplitOk cfg out' g sp) :
    TrafficOk cfg due' out' splits' mshrs generated completed live where
  lines := ((hperm.filter _).map _).symm.trans h.lines
  writebacks := h.writebacks.trans (congrArg _ (hperm.countP_eq _))
  balance := h.balance
  known := hknown
  split := hsplit

/-- The order of the requests does not matter. -/
theorem perm (h : TrafficOk cfg due out splits mshrs generated completed live) (hperm : out.Perm out') :
    TrafficOk cfg due out' splits mshrs generated completed live :=
  h.move (((hperm.filterMap _).append_right _).append_left _)
    (fun r hr => h.known r (hperm.mem_iff.mpr hr)) (fun g sp hg => (h.split g sp hg).perm hperm)

/-- A request of line size is sent for a completion that is due. -/
theorem sendWhole {r : Req} {c : Completion} (hc : r.callback = some (.whole c))
    (h : TrafficOk cfg ((c, r.addr) :: due) out splits mshrs generated completed live) :
    TrafficOk cfg due (r :: out) splits mshrs generated completed live := by
  have howed : owed (r :: out) splits = (c, r.addr) :: owed out splits := by
    simp [owed, wholeOf, hc]
  have hparts : ∀ g, partsOut g (r :: out) = partsOut g out := by
    intro g
    simp [partsOut, hc]
  refine h.move ?_ ?_ ?_
  · rw [howed]
    exact List.perm_middle.symm
  · intro x hx
    rcases List.mem_cons.mp hx with rfl | hx
    · exact .inl ⟨c, hc⟩
    · exact h.known x hx
  · intro g sp hg
    obtain ⟨hlarger, hremaining, hfired, hparts', hout⟩ := h.split g sp hg
    exact ⟨hlarger, (hparts g).symm ▸ hremaining, hfired, hparts', (hparts g).symm ▸ hout⟩

/-- A request of line size comes back: its completion is due. -/
theorem receiveWhole {r : Req} {c : Completion} (hc : r.callback = some (.whole c))
    (h : TrafficOk cfg due (r :: out) splits mshrs generated completed live) :
    TrafficOk cfg ((c, r.addr) :: due) out splits mshrs generated completed live := by
  have howed : owed (r :: out) splits = (c, r.addr) :: owed out splits := by
    simp [owed, wholeOf, hc]
  have hparts : ∀ g, partsOut g (r :: out) = partsOut g out := by
    intro g
    simp [partsOut, hc]
  refine h.move ?_ (fun x hx => h.known x (List.mem_cons_of_mem r hx)) ?_
  · rw [howed]
    exact List.perm_middle
  · intro g sp hg
    obtain ⟨hlarger, hremaining, hfired, hparts', hout⟩ := h.split g sp hg
    exact ⟨hlarger, (hparts g) ▸ hremaining, hfired, hparts', (hparts g) ▸ hout⟩

/-- A split request is sent for a completion that is due. -/
theorem sendSplit {subs : List Req} {sp : Split} (hlarger : cfg.txBytes < cfg.linesizeBytes)
    (hsubs : ∀ r ∈ subs, r.callback = some (.part splits.length))
    (hsizes : subs.map (fun r => (r.addr, r.sizeBytes)) = sp.parts)
    (hparts : sp.parts = LLC.partsOf cfg sp.original.addr) (hpos : sp.parts ≠ [])
    (hremaining : sp.remaining = sp.parts.length) (hfired : sp.fired = 0)
    (h : TrafficOk cfg ((sp.callback, sp.original.addr) :: due) out splits mshrs generated completed live) :
    TrafficOk cfg due (subs ++ out) (splits ++ [sp]) mshrs generated completed live := by
  have hne : sp.remaining ≠ 0 := by
    rw [hremaining]
    exact_mod_cast List.length_eq_zero_iff.not.mpr hpos
  have hnone : subs.filterMap wholeOf = [] := by
    refine List.filterMap_eq_nil_iff.mpr fun r hr => ?_
    simp [wholeOf, hsubs r hr]
  have howed : owed (subs ++ out) (splits ++ [sp]) =
      owed out splits ++ [(sp.callback, sp.original.addr)] := by
    simp [owed, hnone, openOf, hne]
  refine h.move ?_ ?_ ?_
  · rw [howed, ← List.append_assoc]
    exact (List.perm_append_singleton _ _).symm
  · intro r hr
    rw [List.length_append]
    rcases List.mem_append.mp hr with hr | hr
    · exact .inr ⟨splits.length, Nat.lt_succ_self _, hsubs r hr⟩
    · exact (h.known r hr).imp_right fun ⟨g, hg, hcb⟩ => ⟨g, Nat.lt_succ_of_lt hg, hcb⟩
  · intro g sp' hg
    by_cases hlt : g < splits.length
    · -- the parts of the earlier requests
      rw [List.getElem?_append_left hlt] at hg
      have hsame : partsOut g (subs ++ out) = partsOut g out := by
        unfold partsOut
        rw [List.filter_append, List.filter_eq_nil_iff.mpr, List.nil_append]
        intro r hr heq
        rw [hsubs r hr] at heq
        simp at heq
        omega
      obtain ⟨hlarger', hremaining', hfired', hparts', hout'⟩ := h.split g sp' hg
      exact ⟨hlarger', hsame.symm ▸ hremaining', hfired', hparts', hsame.symm ▸ hout'⟩
    · -- the new ones
      have hglen : g = splits.length ∧ sp' = sp := by
        rw [List.getElem?_append_right (not_lt.mp hlt)] at hg
        have hzero : g - splits.length = 0 := by
          by_contra hne
          rw [List.getElem?_eq_none (by simp; omega)] at hg
          cases hg
        rw [hzero] at hg
        exact ⟨by omega, (Option.some.inj hg).symm⟩
      obtain ⟨rfl, rfl⟩ := hglen
      have hall : partsOut splits.length (subs ++ out) = subs := by
        unfold partsOut
        rw [List.filter_append, List.filter_eq_self.mpr fun r hr => decide_eq_true (hsubs r hr),
          List.filter_eq_nil_iff.mpr, List.append_nil]
        intro r hr heq
        rcases h.known r hr with ⟨c, hc⟩ | ⟨g', hg', hc⟩
        · simp [hc] at heq
        · simp [hc] at heq
          omega
      refine ⟨hlarger, ?_, ?_, hparts, ?_⟩
      · rw [hall, hremaining, ← hsizes, List.length_map]
      · rw [hfired, if_neg hne]
      · rw [hall, hsizes]

/-- A part comes back. With the last one, the completion of the original request is due. -/
theorem receivePart {r : Req} {g : Nat} {sp : Split} (hc : r.callback = some (.part g))
    (hsp : splits[g]? = some sp)
    (h : TrafficOk cfg due (r :: out) splits mshrs generated completed live) :
    TrafficOk cfg
      ((if sp.remaining - 1 = 0 then [(sp.callback, sp.original.addr)] else []) ++ due) out
      (splits.set g { sp with
        remaining := sp.remaining - 1
        fired := if sp.remaining - 1 = 0 then sp.fired + 1 else sp.fired })
      mshrs generated completed live := by
  obtain ⟨hlt, hget⟩ := List.getElem?_eq_some_iff.mp hsp
  obtain ⟨hlarger, hremaining, hfired, hparts, hout⟩ := h.split g sp hsp
  have hmine : partsOut g (r :: out) = r :: partsOut g out := by simp [partsOut, hc]
  have hothers : ∀ g' ≠ g, partsOut g' (r :: out) = partsOut g' out := by
    intro g' hg'
    simp [partsOut, hc, Ne.symm hg']
  rw [hmine] at hremaining hout
  have hcount : sp.remaining - 1 = (partsOut g out).length := by
    rw [hremaining, List.length_cons]
    push_cast
    omega
  have hopen : sp.remaining ≠ 0 := by
    rw [hremaining, List.length_cons]
    push_cast
    omega
  refine h.move ?_ ?_ ?_
  · -- the split request is open before, and closed if this was its last part
    have hbefore : (splits.filterMap openOf).Perm
        ((sp.callback, sp.original.addr) :: (splits.eraseIdx g).filterMap openOf) := by
      have hperm := (List.getElem_cons_eraseIdx_perm hlt).symm
      rw [hget] at hperm
      refine (hperm.filterMap openOf).trans ?_
      rw [List.filterMap_cons_some (show openOf sp = some _ from if_neg hopen)]
    have hwhole : (r :: out).filterMap wholeOf = out.filterMap wholeOf := by
      simp [wholeOf, hc]
    have hafter := (List.set_perm_cons_eraseIdx hlt { sp with
      remaining := sp.remaining - 1
      fired := if sp.remaining - 1 = 0 then sp.fired + 1 else sp.fired }).filterMap openOf
    unfold owed
    rw [hwhole]
    by_cases hlast : sp.remaining - 1 = 0
    · rw [if_pos hlast]
      rw [List.filterMap_cons_none (by simp [openOf, hlast])] at hafter
      refine ((hbefore.append_left _).append_left due).trans ?_
      refine .trans ?_ ((hafter.symm.append_left _).append_left _)
      rw [← List.append_assoc]
      refine List.perm_middle.trans ?_
      rw [List.append_assoc]
      rfl
    · rw [if_neg hlast, List.nil_append]
      have hstill : ∀ fired, openOf { sp with remaining := sp.remaining - 1, fired := fired } =
          some (sp.callback, sp.original.addr) := fun _ => if_neg hlast
      rw [List.filterMap_cons_some (hstill _)] at hafter
      exact ((hbefore.trans hafter.symm).append_left _).append_left due
  · intro x hx
    rw [List.length_set]
    exact h.known x (List.mem_cons_of_mem r hx)
  · intro g' sp' hg'
    by_cases hsame : g' = g
    · subst hsame
      rw [List.getElem?_set_self hlt] at hg'
      cases hg'
      refine ⟨hlarger, hcount, ?_, hparts, ?_⟩
      · show (if sp.remaining - 1 = 0 then sp.fired + 1 else sp.fired) = if sp.remaining - 1 = 0 then 1 else 0
        rw [hfired, if_neg hopen]
      · exact (List.sublist_cons_self _ _).subperm.trans hout
    · rw [List.getElem?_set_ne (Ne.symm hsame)] at hg'
      obtain ⟨hlarger', hremaining', hfired', hparts', hout'⟩ := h.split g' sp' hg'
      rw [hothers g' hsame] at hremaining' hout'
      exact ⟨hlarger', hremaining', hfired', hparts', hout'⟩

/-- A new MSHR: a line is to be sent for. -/
theorem pushMshr {m : Int × Nat} (h : TrafficOk cfg due out splits mshrs generated completed live) :
    TrafficOk cfg ((.receive, m.1) :: due) out splits (mshrs ++ [m]) generated completed live where
  lines := by
    rw [List.map_append]
    exact (h.lines.cons m.1).trans (List.perm_append_singleton _ _).symm
  writebacks := h.writebacks
  balance := h.balance
  known := h.known
  split := h.split

theorem mshr_mem {addr : Int}
    (h : TrafficOk cfg ((.receive, addr) :: due) out splits mshrs generated completed live) :
    addr ∈ mshrs.map (·.1) := h.lines.mem_iff.mp List.mem_cons_self

/-- A line arrives and its MSHR is free. -/
theorem popMshr {m : Int × Nat} (hm : m ∈ mshrs)
    (h : TrafficOk cfg ((.receive, m.1) :: due) out splits mshrs generated completed live) :
    TrafficOk cfg due out splits (mshrs.erase m) generated completed live where
  lines := by
    have hperm := h.lines.trans ((List.perm_cons_erase hm).map (·.1))
    exact (List.perm_cons _).mp hperm
  writebacks := h.writebacks
  balance := h.balance
  known := h.known
  split := h.split

/-- A dirty line is evicted: its writeback is to be sent. -/
theorem pushWriteback {addr : Int} (h : TrafficOk cfg due out splits mshrs generated completed live) :
    TrafficOk cfg ((.writebackDone, addr) :: due) out splits mshrs (generated + 1) completed (live + 1) where
  lines := h.lines
  writebacks := by
    rw [h.writebacks, List.cons_append, List.countP_cons_of_pos (by simp)]
    push_cast
    rfl
  balance := by
    rw [← h.balance]
    omega
  known := h.known
  split := h.split

theorem live_pos {addr : Int}
    (h : TrafficOk cfg ((.writebackDone, addr) :: due) out splits mshrs generated completed live) :
    0 < live := by
  rw [h.writebacks, List.cons_append, List.countP_cons_of_pos (by simp)]
  push_cast
  omega

/-- A writeback is done. -/
theorem popWriteback {addr : Int}
    (h : TrafficOk cfg ((.writebackDone, addr) :: due) out splits mshrs generated completed live) :
    TrafficOk cfg due out splits mshrs generated (completed + 1) (live - 1) where
  lines := h.lines
  writebacks := by
    rw [h.writebacks, List.cons_append, List.countP_cons_of_pos (by simp)]
    push_cast
    omega
  balance := by
    rw [← h.balance]
    omega
  known := h.known
  split := h.split

end TrafficOk

/-! ## The invariant -/

namespace LLC

/-- The accepted requests that wait. -/
def live (s : LLC) : List LogicalRequest := s.hitList.map (·.2) ++ s.receiveRequests.flatMap (·.2)

/-- The requests to memory that are not back. -/
def out (s : LLC) : List Req := s.missList.map (·.2) ++ s.memory

/-- All accounts, with the requests in transit and the completions due at this point. -/
structure Inv (cfg : LLCConfig) (transit : List LogicalRequest) (due : List (Completion × Int))
    (s : LLC) : Prop where
  sets : SetsOk cfg s.cacheSets s.nextNode s.mshrs
  buckets : BucketsOk s.receiveRequests s.hitList s.mshrs
  logical : LogicalOk s.clk transit s.live s.accepted s.completed s.liveLogicalIds s.logicalRequestsLive
    s.nextLogicalAdmissionOrdinal
  traffic : TrafficOk cfg due s.out s.splits s.mshrs s.internalWritebacksGenerated
    s.internalWritebacksCompleted s.internalWritebacksLive

variable {cfg : LLCConfig} {transit : List LogicalRequest} {due : List (Completion × Int)} {s s' : LLC}

theorem setOk_nil (cfg : LLCConfig) (index : Int) : SetOk cfg [] 0 index [] where
  placed := nofun
  tags := List.nodup_nil
  nodes := List.nodup_nil
  ways := Nat.zero_le _
  fresh := nofun
  waiting := fun _ => ⟨fun h => absurd h.1 List.not_mem_nil, fun ⟨_, hl, _⟩ => absurd hl List.not_mem_nil⟩

theorem bucketsOk_nil : BucketsOk [] [] [] where
  keys := rfl
  nonempty := fun _ h => absurd h List.not_mem_nil
  waits := fun _ h => absurd h List.not_mem_nil
  hit := fun _ h => absurd h List.not_mem_nil

theorem logicalOk_nil : LogicalOk 0 [] [] [] [] [] 0 0 where
  served := .nil
  keys := .nil
  nodup := List.nodup_nil
  counted := rfl
  arrived := fun _ h => absurd h List.not_mem_nil
  ordinals := rfl

theorem trafficOk_nil (cfg : LLCConfig) : TrafficOk cfg [] [] [] [] 0 0 0 where
  lines := .nil
  writebacks := rfl
  balance := rfl
  known := fun _ h => absurd h List.not_mem_nil
  split := by simp

theorem inv_init : Inv cfg [] [] {} :=
  ⟨⟨setOk_nil cfg, List.nodup_nil⟩, bucketsOk_nil, logicalOk_nil, trafficOk_nil cfg⟩

theorem Inv.keys_nodup (h : Inv cfg transit due s) : (s.receiveRequests.map (·.1)).Nodup := by
  rw [h.buckets.keys]
  exact List.Nodup.of_map cfg.align (by rw [List.map_map]; exact h.sets.aligned)

/-! ### Requests to memory -/

theorem partsOf_ne_nil (addr : Int) (h : cfg.txBytes < cfg.linesizeBytes) : partsOf cfg addr ≠ [] := by
  have hpos : 0 < cfg.linesizeBytes / cfg.txBytes := Nat.div_pos h.le cfg.txBytes_pos
  intro hnil
  have hlength := congrArg List.length hnil
  unfold partsOf at hlength
  rw [List.length_map, List.length_range, List.length_nil] at hlength
  omega

theorem Inv.enqueueMiss {c : Completion} {req : Req} (h : Inv cfg transit ((c, req.addr) :: due) s) :
    Inv cfg transit due (s.enqueueMiss cfg c req) := by
  unfold LLC.enqueueMiss
  split_ifs with htx
  · refine ⟨h.sets, h.buckets, h.logical, ?_⟩
    let whole : Req := { req with callback := some (.whole c) }
    have hsent : TrafficOk cfg due (whole :: s.out) s.splits s.mshrs _ _ _ := h.traffic.sendWhole rfl
    refine hsent.perm ?_
    show (whole :: (s.missList.map (·.2) ++ s.memory)).Perm
      ((s.missList ++ [(s.clk + cfg.latency, whole)]).map (·.2) ++ s.memory)
    rw [List.map_append, List.append_assoc]
    exact List.perm_middle.symm
  · refine ⟨h.sets, h.buckets, h.logical, ?_⟩
    have hlarger : cfg.txBytes < cfg.linesizeBytes := not_le.mp htx
    let sub (part : (Int × Int) × Nat) : Int × Req :=
      (s.clk + cfg.latency, { req with
        addr := part.1.1
        sizeBytes := part.1.2
        frontendSubId := part.2
        callback := some (.part s.splits.length) })
    let subs := (partsOf cfg req.addr).zipIdx.map sub
    have hsent : TrafficOk cfg due (subs.map (·.2) ++ s.out)
        (s.splits ++ [⟨(partsOf cfg req.addr).length, req, c, partsOf cfg req.addr, 0⟩]) s.mshrs
        s.internalWritebacksGenerated s.internalWritebacksCompleted s.internalWritebacksLive := by
      refine h.traffic.sendSplit hlarger ?_ ?_ rfl (partsOf_ne_nil _ hlarger) rfl rfl
      · intro r hr
        obtain ⟨x, hx, rfl⟩ := List.mem_map.mp hr
        obtain ⟨part, -, rfl⟩ := List.mem_map.mp hx
        rfl
      · show ((((partsOf cfg req.addr).zipIdx.map sub).map (·.2)).map fun r => (r.addr, r.sizeBytes)) =
          partsOf cfg req.addr
        rw [List.map_map, List.map_map]
        exact List.zipIdx_map_fst 0 _
    refine hsent.perm ?_
    show (subs.map (·.2) ++ (s.missList.map (·.2) ++ s.memory)).Perm
      ((s.missList ++ subs).map (·.2) ++ s.memory)
    rw [List.map_append, ← List.append_assoc]
    exact List.perm_append_comm.append_right _

/-! ### Lines -/

/-- What makes room for a line leaves alone. -/
structure Kept (s s' : LLC) : Prop where
  mshrs : s'.mshrs = s.mshrs
  buckets : s'.receiveRequests = s.receiveRequests
  ids : s'.liveLogicalIds = s.liveLogicalIds
  node : s'.nextNode = s.nextNode

theorem cacheSets_enqueueMiss (cfg : LLCConfig) (c : Completion) (req : Req) (s : LLC) :
    (s.enqueueMiss cfg c req).cacheSets = s.cacheSets := by
  unfold LLC.enqueueMiss
  split_ifs <;> rfl

theorem kept_enqueueMiss (cfg : LLCConfig) (c : Completion) (req : Req) (s : LLC) :
    Kept s (s.enqueueMiss cfg c req) := by
  unfold LLC.enqueueMiss
  split_ifs <;> exact ⟨rfl, rfl, rfl, rfl⟩

/-- The victim leaves its set. If it is dirty, a writeback is owed and sent. -/
theorem Inv.evictLine {index : Int} {victim : Line} (h : Inv cfg transit due s)
    (hvictim : victim ∈ s.cacheSets index) (hready : victim.ready = true) :
    Inv cfg transit due (s.evictLine cfg index victim) ∧ Kept s (s.evictLine cfg index victim) ∧
      (s.evictLine cfg index victim).cacheSets =
        Function.update s.cacheSets index ((s.cacheSets index).filter (·.node ≠ victim.node)) := by
  have hcount : Inv cfg transit due { s with llcEviction := s.llcEviction + 1 } :=
    ⟨h.sets, h.buckets, h.logical, h.traffic⟩
  unfold LLC.evictLine
  dsimp only
  split_ifs
  · have hsent : Inv cfg transit due (LLC.enqueueMiss cfg .writebackDone
        { addr := victim.addr, typeId := Request.write, sizeBytes := cfg.linesizeBytes }
        { s with
          llcEviction := s.llcEviction + 1
          internalWritebacksGenerated := s.internalWritebacksGenerated + 1
          internalWritebacksLive := s.internalWritebacksLive + 1 }) :=
      Inv.enqueueMiss ⟨h.sets, h.buckets, h.logical, h.traffic.pushWriteback⟩
    have hsets := cacheSets_enqueueMiss cfg .writebackDone
      { addr := victim.addr, typeId := Request.write, sizeBytes := cfg.linesizeBytes }
      { s with
        llcEviction := s.llcEviction + 1
        internalWritebacksGenerated := s.internalWritebacksGenerated + 1
        internalWritebacksLive := s.internalWritebacksLive + 1 }
    have hkept := kept_enqueueMiss cfg .writebackDone
      { addr := victim.addr, typeId := Request.write, sizeBytes := cfg.linesizeBytes }
      { s with
        llcEviction := s.llcEviction + 1
        internalWritebacksGenerated := s.internalWritebacksGenerated + 1
        internalWritebacksLive := s.internalWritebacksLive + 1 }
    generalize LLC.enqueueMiss cfg _ _ _ = t at hsent hsets hkept ⊢
    have hvictim' : victim ∈ t.cacheSets index := by
      rw [hsets]
      exact hvictim
    refine ⟨⟨hsent.sets.remove hvictim' hready, hsent.buckets, hsent.logical, hsent.traffic⟩,
      ⟨hkept.mshrs, hkept.buckets, hkept.ids, hkept.node⟩, ?_⟩
    show Function.update t.cacheSets index _ = _
    rw [hsets]
  · exact ⟨⟨hcount.sets.remove hvictim hready, hcount.buckets, hcount.logical, hcount.traffic⟩,
      ⟨rfl, rfl, rfl, rfl⟩, rfl⟩

/-- A line without data at the end of its set. -/
def pushLine (cfg : LLCConfig) (addr : Int) (dirty : Bool) (s : LLC) : LLC :=
  { s.setCacheSet (cfg.getIndex addr)
      (s.cacheSets (cfg.getIndex addr) ++ [⟨s.nextNode, addr, cfg.getTag addr, dirty, false⟩]) with
    nextNode := s.nextNode + 1 }

/-- If there is room, or a line that may leave, a line is found. -/
theorem allocateLine_spec {addr : Int} (dirty : Bool) (h : Inv cfg transit due s)
    (htag : ∀ l ∈ s.cacheSets (cfg.getIndex addr), l.tag ≠ cfg.getTag addr)
    (havailable : lineAvailable cfg (s.cacheSets (cfg.getIndex addr)) = true) :
    ∃ t, Inv cfg transit due t ∧ Kept s t ∧
      (t.cacheSets (cfg.getIndex addr)).length < cfg.associativity ∧
      (∀ l ∈ t.cacheSets (cfg.getIndex addr), l.tag ≠ cfg.getTag addr) ∧
      s.allocateLine cfg addr dirty = .ok (t.pushLine cfg addr dirty) := by
  have hnew : ¬ ((s.cacheSets (cfg.getIndex addr)).any (·.tag = cfg.getTag addr) = true) := by
    intro hany
    obtain ⟨l, hl, heq⟩ := List.any_eq_true.mp hany
    exact htag l hl (of_decide_eq_true heq)
  unfold allocateLine
  dsimp only
  rw [if_neg hnew]
  split_ifs with hroom
  · exact ⟨s, h, ⟨rfl, rfl, rfl, rfl⟩, hroom, htag, rfl⟩
  · -- the set is full: a line that is ready leaves
    have hready : (s.cacheSets (cfg.getIndex addr)).any (·.ready) = true := by
      unfold lineAvailable at havailable
      simpa [hroom] using havailable
    obtain ⟨l, hl, hlready⟩ := List.any_eq_true.mp hready
    cases hfind : (s.cacheSets (cfg.getIndex addr)).find? (·.ready) with
    | none => exact absurd hlready (List.find?_eq_none.mp hfind l hl)
    | some victim =>
        have hvictim := List.mem_of_find?_eq_some hfind
        obtain ⟨hinv, hkept, hsets⟩ := h.evictLine hvictim (List.find?_some hfind)
        refine ⟨_, hinv, hkept, ?_, ?_, rfl⟩
        · rw [hsets, Function.update_self]
          exact (h.sets.set _).length_remove_lt hvictim
        · rw [hsets, Function.update_self]
          exact fun x hx => htag x (List.mem_of_mem_filter hx)

/-! ### `send` -/

/-- A request whose identity is not live is accepted and in transit. -/
theorem Inv.begin (req : Req) (type : Int) (path : LogicalPath) (h : Inv cfg transit due s)
    (hkey : logicalKey req ∉ s.liveLogicalIds) :
    ∃ l t, s.beginLogicalRequest req type path = .ok (l, t) ∧ l.path = path ∧ Inv cfg (l :: transit) due t ∧
      Kept { s with liveLogicalIds := t.liveLogicalIds } t ∧ t.cacheSets = s.cacheSets ∧
      t.hitList = s.hitList := by
  let l : LogicalRequest := ⟨req, s.clk, type, s.nextLogicalAdmissionOrdinal, path⟩
  have hlogical := h.logical.accept (l := l) hkey (le_refl s.clk) rfl
  refine ⟨l, _, if_neg hkey, rfl, ?_⟩
  cases path <;>
    exact ⟨⟨h.sets, h.buckets, hlogical, h.traffic⟩, ⟨rfl, rfl, rfl, rfl⟩, rfl, rfl⟩

theorem sendHit_spec {req : Req} {line : Line} (h : Inv cfg [] [] s)
    (hkey : logicalKey req ∉ s.liveLogicalIds)
    (hhit : checkSetHit cfg req.addr (s.cacheSets (cfg.getIndex req.addr)) = some line) :
    ∃ t, s.sendHit cfg req line = .ok t ∧ Inv cfg [] [] t := by
  unfold checkSetHit at hhit
  obtain ⟨hfind, hready⟩ := Option.filter_eq_some_iff.mp hhit
  have htag : line.tag = cfg.getTag req.addr := by simpa using List.find?_some hfind
  have hmoved := h.sets.hit (line.dirty || req.typeId = Request.write)
    (List.mem_of_find?_eq_some hfind) hready htag
  obtain ⟨l, u, hbegin, hpath, hinv, -, -, hhits⟩ := Inv.begin req req.typeId .hit
    (s := { s.setCacheSet (cfg.getIndex req.addr)
        ((s.cacheSets (cfg.getIndex req.addr)).filter (·.node ≠ line.node) ++
          [⟨s.nextNode, req.addr, cfg.getTag req.addr, line.dirty || req.typeId = Request.write, true⟩]) with
      nextNode := s.nextNode + 1 })
    ⟨hmoved, h.buckets, h.logical, h.traffic⟩ hkey
  refine ⟨_, except_map_eq_ok.mpr ⟨_, hbegin, rfl⟩, hinv.sets, ?_, ?_, hinv.traffic⟩
  · refine { hinv.buckets with hit := fun x hx => ?_ }
    rcases List.mem_append.mp hx with hx | hx
    · exact hinv.buckets.hit x hx
    · rw [List.mem_singleton.mp hx]
      exact hpath
  · refine hinv.logical.move ?_
    show (l :: (u.hitList.map (·.2) ++ u.receiveRequests.flatMap (·.2))).Perm
      ((u.hitList ++ [(u.clk + cfg.latency, l)]).map (·.2) ++ u.receiveRequests.flatMap (·.2))
    rw [List.map_append, List.append_assoc]
    exact List.perm_middle.symm

theorem sendMerge_spec {req : Req} {m : Int × Nat} (h : Inv cfg [] [] s)
    (hkey : logicalKey req ∉ s.liveLogicalIds) (hm : m ∈ s.mshrs) :
    ∃ t, s.sendMerge cfg req m = .ok t ∧ Inv cfg [] [] t := by
  have hbucket : m.1 ∈ s.receiveRequests.map (·.1) := by
    rw [h.buckets.keys]
    exact List.mem_map_of_mem hm
  obtain ⟨l, u, hbegin, hpath, hinv, hkept, -, hhits⟩ :=
    h.begin { req with typeId := Request.read } req.typeId .mshrMerge hkey
  unfold sendMerge
  rw [if_neg (not_not_intro hbucket), hbegin]
  have hbucket' : m.1 ∈ u.receiveRequests.map (·.1) := by
    rw [hkept.buckets]
    exact hbucket
  -- the request joins a bucket that exists, so the lines that have one stay
  have hkeys : (u.receiveRequests.map (addTo m.1 l)).map (·.1) = u.receiveRequests.map (·.1) := by
    rw [List.map_map]
    refine List.map_congr_left fun b _ => ?_
    show (addTo m.1 l b).1 = b.1
    unfold addTo
    split_ifs <;> rfl
  refine ⟨_, rfl, hinv.sets.mark, ⟨hkeys.trans hinv.buckets.keys, ?_, ?_, hinv.buckets.hit⟩, ?_,
    hinv.traffic⟩
  · intro b hb
    obtain ⟨b₀, hb₀, rfl⟩ := List.mem_map.mp hb
    unfold addTo
    split_ifs
    · simp
    · exact hinv.buckets.nonempty b₀ hb₀
  · intro b hb x hx
    obtain ⟨b₀, hb₀, rfl⟩ := List.mem_map.mp hb
    unfold addTo at hx
    split_ifs at hx
    · rcases List.mem_append.mp hx with hx | hx
      · exact hinv.buckets.waits b₀ hb₀ x hx
      · rw [List.mem_singleton.mp hx, hpath]
        nofun
    · exact hinv.buckets.waits b₀ hb₀ x hx
  · refine hinv.logical.move ?_
    show (l :: (u.hitList.map (·.2) ++ u.receiveRequests.flatMap (·.2))).Perm
      (u.hitList.map (·.2) ++ (u.receiveRequests.map (addTo m.1 l)).flatMap (·.2))
    refine List.perm_middle.symm.trans (List.Perm.append_left _ ?_)
    exact (flatMap_addTo hinv.keys_nodup hbucket').symm

theorem sendMiss_spec {req : Req} (h : Inv cfg [] [] s) (hkey : logicalKey req ∉ s.liveLogicalIds)
    (htag : ∀ l ∈ s.cacheSets (cfg.getIndex req.addr), l.tag ≠ cfg.getTag req.addr)
    (havailable : lineAvailable cfg (s.cacheSets (cfg.getIndex req.addr)) = true)
    (hnew : ∀ m ∈ s.mshrs, cfg.align m.1 ≠ cfg.align req.addr) :
    ∃ t, s.sendMiss cfg req = .ok t ∧ Inv cfg [] [] t := by
  obtain ⟨u, hu, hkept, hroom, htag', halloc⟩ :=
    allocateLine_spec (req.typeId = Request.write) h htag havailable
  have hnew' : ∀ m ∈ u.mshrs, cfg.align m.1 ≠ cfg.align req.addr := by
    rw [hkept.mshrs]
    exact hnew
  -- lines and buckets go together, so a line without an MSHR has no bucket
  have hfree : req.addr ∉ u.receiveRequests.map (·.1) := by
    rw [hu.buckets.keys]
    intro hmem
    obtain ⟨m, hm, heq⟩ := List.mem_map.mp hmem
    exact hnew' m hm (congrArg cfg.align heq)
  have hkey' : logicalKey req ∉ u.liveLogicalIds := by
    rw [hkept.ids]
    exact hkey
  let l : LogicalRequest := ⟨{ req with typeId := Request.read }, u.clk, req.typeId,
    u.nextLogicalAdmissionOrdinal, .missOwner⟩
  have hlogical := hu.logical.accept (l := l) hkey' (le_refl u.clk) rfl
  have hmshr := hu.traffic.pushMshr (m := (req.addr, u.nextNode))
  refine ⟨_, except_bind_eq_ok.mpr ⟨_, halloc, (if_neg hfree).trans
    (except_bind_eq_ok.mpr ⟨_, if_neg hkey', rfl⟩)⟩, Inv.enqueueMiss ?_⟩
  refine ⟨?_, ⟨?_, ?_, ?_, hu.buckets.hit⟩, hlogical.move ?_, ?_⟩
  · rw [← hkept.node]
    exact hu.sets.miss hroom htag' hnew'
  · show (u.receiveRequests ++ [(req.addr, [l])]).map (·.1) = (u.mshrs ++ [(req.addr, s.nextNode)]).map (·.1)
    rw [List.map_append, List.map_append, hu.buckets.keys]
    rfl
  · intro b hb
    rcases List.mem_append.mp hb with hb | hb
    · exact hu.buckets.nonempty b hb
    · rw [List.mem_singleton.mp hb]
      exact List.cons_ne_nil _ _
  · intro b hb x hx
    rcases List.mem_append.mp hb with hb | hb
    · exact hu.buckets.waits b hb x hx
    · rw [List.mem_singleton.mp hb] at hx
      rw [List.mem_singleton.mp hx]
      nofun
  · show (l :: (u.hitList.map (·.2) ++ u.receiveRequests.flatMap (·.2))).Perm
      (u.hitList.map (·.2) ++ (u.receiveRequests ++ [(req.addr, [l])]).flatMap (·.2))
    rw [List.flatMap_append, ← List.append_assoc]
    exact (List.perm_append_singleton l _).symm
  · rw [← hkept.node]
    exact hmshr

/-- A request is refused as malformed, or it is taken or not, and all accounts stay in order. -/
theorem send_spec (req : Req) (h : Inv cfg [] [] s) :
    (∃ what, s.send cfg req = .error (.request what)) ∨
      ∃ b t, s.send cfg req = .ok (b, t) ∧ Inv cfg [] [] t := by
  unfold send validate
  split_ifs with hid htype hkey
  · exact .inl ⟨_, rfl⟩
  · exact .inl ⟨_, rfl⟩
  · exact .inl ⟨_, rfl⟩
  · refine .inr ?_
    -- counting an access or a miss only changes statistics
    have haccess : Inv cfg [] [] (s.countAccess req) ∧ logicalKey req ∉ (s.countAccess req).liveLogicalIds := by
      unfold countAccess
      split_ifs <;> exact ⟨⟨h.sets, h.buckets, h.logical, h.traffic⟩, hkey⟩
    show ∃ b t, (s.countAccess req).sendValid cfg req = .ok (b, t) ∧ _
    generalize s.countAccess req = t at haccess
    obtain ⟨ht, htkey⟩ := haccess
    unfold sendValid
    cases hset : checkSetHit cfg req.addr (t.cacheSets (cfg.getIndex req.addr)) with
    | some line =>
        obtain ⟨u, hu, hinv⟩ := sendHit_spec ht htkey hset
        exact ⟨true, u, except_map_eq_ok.mpr ⟨u, hu, rfl⟩, hinv⟩
    | none =>
        have hmiss : Inv cfg [] [] (t.countMiss req) ∧ logicalKey req ∉ (t.countMiss req).liveLogicalIds ∧
            (t.countMiss req).cacheSets = t.cacheSets := by
          unfold countMiss
          split_ifs <;> exact ⟨⟨ht.sets, ht.buckets, ht.logical, ht.traffic⟩, htkey, rfl⟩
        obtain ⟨hinv, hukey, hsets⟩ := hmiss
        rw [← hsets] at hset
        dsimp only
        generalize t.countMiss req = u at hinv hukey hset
        cases hmshr : u.checkMshrHit cfg req.addr with
        | some m =>
            obtain ⟨v, hv, hinv'⟩ := sendMerge_spec hinv hukey (List.mem_of_find?_eq_some hmshr)
            exact ⟨true, v, except_map_eq_ok.mpr ⟨v, hv, rfl⟩, hinv'⟩
        | none =>
            have hnew : ∀ m ∈ u.mshrs, cfg.align m.1 ≠ cfg.align req.addr := fun m hm heq =>
              List.find?_eq_none.mp hmshr m hm (decide_eq_true heq)
            dsimp only
            split_ifs with hfull havailable
            · exact ⟨false, _, rfl, hinv.sets, hinv.buckets, hinv.logical, hinv.traffic⟩
            · exact ⟨false, u, rfl, hinv⟩
            · have hroom : lineAvailable cfg (u.cacheSets (cfg.getIndex req.addr)) = true := by
                simpa using havailable
              obtain ⟨v, hv, hinv'⟩ := sendMiss_spec hinv hukey (hinv.sets.tag_of_miss hset hnew) hroom hnew
              exact ⟨true, v, except_map_eq_ok.mpr ⟨v, hv, rfl⟩, hinv'⟩

/-! ### Completions -/

theorem completeLogicalRequest_spec {l : LogicalRequest} (h : Inv cfg (l :: transit) due s) :
    ∃ t, completeLogicalRequest l s = .ok t ∧ Inv cfg transit due t := by
  have harrived : ¬ s.clk < l.arrive := not_lt.mpr (h.logical.arrived l List.mem_cons_self)
  have hpos : ¬ s.logicalRequestsLive ≤ 0 := by
    have hlength := List.length_pos_of_mem h.logical.key_mem
    rw [h.logical.counted]
    omega
  unfold completeLogicalRequest
  rw [if_neg harrived, if_neg (not_not_intro h.logical.key_mem), if_neg hpos]
  exact ⟨_, rfl, h.sets, h.buckets, h.logical.complete, h.traffic⟩

theorem completeAll_spec {requests : List LogicalRequest} (h : Inv cfg requests due s) :
    ∃ t, requests.foldlM (fun s l => completeLogicalRequest l s) s = .ok t ∧ Inv cfg [] due t := by
  induction requests generalizing s with
  | nil => exact ⟨s, rfl, h⟩
  | cons l requests ih =>
      obtain ⟨u, hu, hinv⟩ := completeLogicalRequest_spec h
      obtain ⟨t, ht, hinv'⟩ := ih hinv
      refine ⟨t, ?_, hinv'⟩
      rw [List.foldlM_cons]
      exact except_bind_eq_ok.mpr ⟨u, hu, ht⟩

/-- A line that is due has an MSHR and a bucket, and arrives. -/
theorem receiveLine_spec {addr : Int} (arrive depart : Int)
    (h : Inv cfg [] ((.receive, addr) :: due) s) :
    ∃ answers t, s.receiveLine cfg addr arrive depart = .ok (answers, t) ∧ Inv cfg [] due t := by
  obtain ⟨m, hm, rfl⟩ := List.mem_map.mp h.traffic.mshr_mem
  -- the bucket
  have hkey : m.1 ∈ s.receiveRequests.map (·.1) := by
    rw [h.buckets.keys]
    exact List.mem_map_of_mem hm
  obtain ⟨b, hb, hbaddr⟩ := List.mem_map.mp hkey
  have hfind : s.receiveRequests.find? (·.1 = m.1) = some b := by
    cases hfind : s.receiveRequests.find? (·.1 = m.1) with
    | none => exact absurd (decide_eq_true hbaddr) (List.find?_eq_none.mp hfind b hb)
    | some b' =>
        have hb'addr : b'.1 = m.1 := by simpa using List.find?_some hfind
        exact congrArg some (List.inj_on_of_nodup_map h.keys_nodup (List.mem_of_find?_eq_some hfind) hb
          (hb'addr.trans hbaddr.symm))
  have htake : s.takeReceiveRequests m.1 =
      .ok (b.2, { s with receiveRequests := s.receiveRequests.filter (·.1 ≠ m.1) }) := by
    unfold takeReceiveRequests
    rw [hfind]
    exact if_neg (h.buckets.nonempty b hb)
  have hpaths : ¬ (b.2.any (·.path = .hit) = true) := by
    intro hany
    obtain ⟨l, hl, heq⟩ := List.any_eq_true.mp hany
    exact h.buckets.waits b hb l hl (of_decide_eq_true heq)
  -- the MSHR
  have hmshr : s.mshrs.find? (fun m' => cfg.align m'.1 = cfg.align m.1) = some m := by
    cases hfind : s.mshrs.find? (fun m' => cfg.align m'.1 = cfg.align m.1) with
    | none => exact absurd (decide_eq_true rfl) (List.find?_eq_none.mp hfind m hm)
    | some m' =>
        have halign : cfg.align m'.1 = cfg.align m.1 := by simpa using List.find?_some hfind
        exact congrArg some (h.sets.eq_of_align (List.mem_of_find?_eq_some hfind) hm halign)
  let t : LLC := { LLC.modifyLine cfg m.1 m.2 (fun l => { l with ready := true })
      { s with receiveRequests := s.receiveRequests.filter (·.1 ≠ m.1) } with
    mshrs := s.mshrs.erase m }
  have hreceive : LLC.receive cfg m.1 { s with receiveRequests := s.receiveRequests.filter (·.1 ≠ m.1) } =
      .ok t := by
    unfold LLC.receive checkMshrHit
    dsimp only
    rw [hmshr]
  have hperm := perm_cons_filter_key h.keys_nodup hb
  rw [hbaddr] at hperm
  have hinv : Inv cfg b.2 due t := by
    refine ⟨h.sets.fill hm, ⟨?_, ?_, ?_, h.buckets.hit⟩, h.logical.move ?_, h.traffic.popMshr hm⟩
    · show (s.receiveRequests.filter (·.1 ≠ m.1)).map (·.1) = (s.mshrs.erase m).map (·.1)
      have herase : s.mshrs.erase m = s.mshrs.filter (·.1 ≠ m.1) := by
        rw [h.sets.nodup.erase_eq_filter]
        refine List.filter_congr fun m' hm' => ?_
        refine Bool.eq_iff_iff.mpr ?_
        rw [bne_iff_ne, decide_eq_true_eq]
        refine not_congr ⟨congrArg Prod.fst, fun heq => ?_⟩
        exact h.sets.eq_of_align hm' hm (congrArg cfg.align heq)
      rw [herase, map_fst_filter_key, map_fst_filter_key, h.buckets.keys]
    · exact fun b' hb' => h.buckets.nonempty b' (List.mem_of_mem_filter hb')
    · exact fun b' hb' => h.buckets.waits b' (List.mem_of_mem_filter hb')
    · show (s.hitList.map (·.2) ++ s.receiveRequests.flatMap (·.2)).Perm
        (b.2 ++ (s.hitList.map (·.2) ++ (s.receiveRequests.filter (·.1 ≠ m.1)).flatMap (·.2)))
      refine ((hperm.flatMap_right _).append_left _).trans ?_
      rw [List.flatMap_cons, ← List.append_assoc, ← List.append_assoc]
      exact List.perm_append_comm.append_right _
  obtain ⟨u, hu, hdone⟩ := completeAll_spec hinv
  have hline : s.receiveLine cfg m.1 arrive depart =
      .ok (b.2.map (LogicalRequest.answer · arrive depart), u) := by
    refine except_bind_eq_ok.mpr ⟨_, htake, (if_neg hpaths).trans ?_⟩
    exact except_bind_eq_ok.mpr ⟨_, hreceive, except_bind_eq_ok.mpr ⟨_, hu, rfl⟩⟩
  exact ⟨_, u, hline, hdone⟩

/-- A completion that is due happens. -/
theorem complete_spec {c : Completion} {addr : Int} (arrive depart : Int)
    (h : Inv cfg [] ((c, addr) :: due) s) :
    ∃ answers t, s.complete cfg c addr arrive depart = .ok (answers, t) ∧ Inv cfg [] due t := by
  cases c with
  | receive => exact receiveLine_spec arrive depart h
  | writebackDone =>
      have hlive : ¬ s.internalWritebacksLive ≤ 0 := not_le.mpr h.traffic.live_pos
      refine ⟨[], _, except_map_eq_ok.mpr ⟨_, if_neg hlive, rfl⟩, ?_⟩
      exact ⟨h.sets, h.buckets, h.logical, h.traffic.popWriteback⟩

/-- The memory system calls back a request that it has taken. -/
theorem deliver_spec (j : Nat) (arrive depart : Int) (h : Inv cfg [] [] s) :
    ∃ answers t, s.deliver cfg j arrive depart = .ok (answers, t) ∧ Inv cfg [] [] t := by
  unfold deliver
  cases hj : s.memory[j]? with
  | none => exact ⟨[], s, rfl, h⟩
  | some req =>
      obtain ⟨hlt, hget⟩ := List.getElem?_eq_some_iff.mp hj
      -- the request that comes back is one of those that are out
      have hout : s.out.Perm (req :: ({ s with memory := s.memory.eraseIdx j } : LLC).out) := by
        have hperm := (List.getElem_cons_eraseIdx_perm hlt).symm
        rw [hget] at hperm
        exact (hperm.append_left _).trans List.perm_middle
      have htraffic := h.traffic.perm hout
      dsimp only
      generalize hs₁ : ({ s with memory := s.memory.eraseIdx j } : LLC) = s₁ at htraffic
      have hsame : SetsOk cfg s₁.cacheSets s₁.nextNode s₁.mshrs ∧
          BucketsOk s₁.receiveRequests s₁.hitList s₁.mshrs ∧
          LogicalOk s₁.clk [] s₁.live s₁.accepted s₁.completed s₁.liveLogicalIds s₁.logicalRequestsLive
            s₁.nextLogicalAdmissionOrdinal := by
        subst hs₁
        exact ⟨h.sets, h.buckets, h.logical⟩
      have htraffic' : TrafficOk cfg [] (req :: s₁.out) s₁.splits s₁.mshrs s₁.internalWritebacksGenerated
          s₁.internalWritebacksCompleted s₁.internalWritebacksLive := by
        subst hs₁
        exact htraffic
      unfold callBack
      dsimp only
      rcases htraffic'.known req List.mem_cons_self with ⟨c, hc⟩ | ⟨g, hg, hc⟩
      · rw [hc]
        exact complete_spec arrive depart ⟨hsame.1, hsame.2.1, hsame.2.2, htraffic'.receiveWhole hc⟩
      · have hsp : s₁.splits[g]? = some s₁.splits[g] := List.getElem?_eq_getElem hg
        have hpart := htraffic'.receivePart hc hsp
        rw [hc]
        dsimp only
        rw [hsp]
        generalize s₁.splits[g] = sp at hpart
        dsimp only
        -- the last part of a split line completes it, the others only count
        by_cases hlast : sp.remaining - 1 = 0
        · rw [if_pos hlast] at hpart
          simp only [hlast, decide_true, if_true]
          simp only [hlast, if_true] at hpart
          exact complete_spec _ _ ⟨hsame.1, hsame.2.1, hsame.2.2, hpart⟩
        · simp only [hlast, decide_false, if_false] at hpart ⊢
          exact ⟨[], _, rfl, hsame.1, hsame.2.1, hsame.2.2, hpart⟩

/-! ### Ticks -/

theorem Inv.takeMiss {i : Nat} {due' : Int} {req : Req} (h : Inv cfg [] [] s)
    (hi : s.missList[i]? = some (due', req)) : Inv cfg [] [] (s.takeMiss i req) := by
  obtain ⟨hlt, hget⟩ := List.getElem?_eq_some_iff.mp hi
  refine ⟨h.sets, h.buckets, h.logical, h.traffic.perm ?_⟩
  show (s.missList.map (·.2) ++ s.memory).Perm ((s.missList.eraseIdx i).map (·.2) ++ (s.memory ++ [req]))
  have hperm := (List.getElem_cons_eraseIdx_perm hlt).symm.map (·.2)
  rw [List.map_cons, hget] at hperm
  refine (hperm.append_right _).trans ?_
  rw [← List.append_assoc]
  exact (List.perm_append_singleton req _).symm

theorem sendMisses_spec {decisions : Nat → Decision} {n i : Nat} {answers : List Req}
    (h : Inv cfg [] [] s) :
    ∃ answers' t, sendMisses cfg decisions n i answers s = .ok (answers', t) ∧ Inv cfg [] [] t := by
  induction n generalizing i answers s with
  | zero => exact ⟨answers, s, rfl, h⟩
  | succ n ih =>
      unfold sendMisses
      cases hi : s.missList[i]? with
      | none => exact ⟨answers, s, rfl, h⟩
      | some x =>
          obtain ⟨due', req⟩ := x
          have hcount : Inv cfg [] [] { s with attempts := s.attempts + 1 } :=
            ⟨h.sets, h.buckets, h.logical, h.traffic⟩
          dsimp only
          split_ifs
          · cases decisions (s.attempts + 1) with
            | reject => exact ih hcount
            | accept => exact ih (hcount.takeMiss hi)
            | acceptNow arrive depart =>
                obtain ⟨done, t, ht, hinv⟩ := deliver_spec s.memory.length arrive depart (hcount.takeMiss hi)
                obtain ⟨answers', u, hu, hinv'⟩ := ih hinv
                exact ⟨answers', u, except_bind_eq_ok.mpr ⟨_, ht, hu⟩, hinv'⟩
          · exact ih h

theorem finishHits_spec {n i : Nat} {answers : List Req} (h : Inv cfg [] [] s) :
    ∃ answers' t, finishHits n i answers s = .ok (answers', t) ∧ Inv cfg [] [] t := by
  induction n generalizing i answers s with
  | zero => exact ⟨answers, s, rfl, h⟩
  | succ n ih =>
      unfold finishHits
      cases hi : s.hitList[i]? with
      | none => exact ⟨answers, s, rfl, h⟩
      | some x =>
          obtain ⟨due', l⟩ := x
          obtain ⟨hlt, hget⟩ := List.getElem?_eq_some_iff.mp hi
          have hpath : l.path = .hit := h.buckets.hit _ (List.mem_of_getElem? hi)
          dsimp only
          split_ifs with hdue hno
          · exact absurd hpath hno
          · have htaken : Inv cfg [l] [] { s with hitList := s.hitList.eraseIdx i } := by
              refine ⟨h.sets, { h.buckets with hit := fun x hx => ?_ }, h.logical.move ?_, h.traffic⟩
              · exact h.buckets.hit x (List.mem_of_mem_eraseIdx hx)
              · show (s.hitList.map (·.2) ++ s.receiveRequests.flatMap (·.2)).Perm
                  (l :: ((s.hitList.eraseIdx i).map (·.2) ++ s.receiveRequests.flatMap (·.2)))
                have hperm := (List.getElem_cons_eraseIdx_perm hlt).symm.map (·.2)
                rw [List.map_cons, hget] at hperm
                exact hperm.append_right _
            obtain ⟨t, ht, hinv⟩ := completeLogicalRequest_spec htaken
            obtain ⟨answers', u, hu, hinv'⟩ := ih hinv
            exact ⟨answers', u, except_bind_eq_ok.mpr ⟨_, ht, hu⟩, hinv'⟩
          · exact ih h

theorem tick_spec (decisions : Nat → Decision) (h : Inv cfg [] [] s) :
    ∃ answers t, s.tick cfg decisions = .ok (answers, t) ∧ Inv cfg [] [] t := by
  obtain ⟨answers, t, ht, hinv⟩ := sendMisses_spec h
  obtain ⟨answers', u, hu, hinv'⟩ := finishHits_spec hinv
  exact ⟨answers', u, except_bind_eq_ok.mpr ⟨_, ht, hu⟩, hinv'⟩

theorem Inv.advance {k : Int} (h : Inv cfg [] [] s) (hk : 0 ≤ k) :
    Inv cfg [] [] { s with clk := s.clk + k } :=
  ⟨h.sets, h.buckets, h.logical.wait hk, h.traffic⟩

/-- The checks of `is_quiescent` pass. -/
theorem isQuiescent_spec (h : Inv cfg [] [] s) : ∃ b, s.isQuiescent = .ok b := by
  have hcount : ¬ s.logicalRequestsLive ≠ s.liveLogicalIds.length := not_not_intro h.logical.counted
  have hlost : ¬ (s.receiveRequests = [] ∧ s.hitList = [] ∧ s.liveLogicalIds ≠ []) := by
    rintro ⟨hbuckets, hhits, hids⟩
    have hkeys := h.logical.keys
    unfold live at hkeys
    rw [hbuckets, hhits] at hkeys
    exact hids hkeys.eq_nil
  have hbalance := h.traffic.balance
  have hlive : 0 ≤ s.internalWritebacksLive := by
    rw [h.traffic.writebacks]
    exact Int.natCast_nonneg _
  have hwriteback : ¬ (s.internalWritebacksLive < 0 ∨
      s.internalWritebacksCompleted > s.internalWritebacksGenerated ∨
      s.internalWritebacksLive + s.internalWritebacksCompleted ≠ s.internalWritebacksGenerated) := by
    omega
  unfold isQuiescent
  rw [if_neg hcount, if_neg hlost, if_neg hwriteback]
  exact ⟨_, rfl⟩

/-! ## What the callers see

`send` says whether the request was accepted, and a tick or a callback returns the answers to the cores. The
lists of accepted and completed requests follow what is said. -/

/-- A step in which nothing is accepted or completed. -/
structure SameLedger (s t : LLC) : Prop where
  accepted : t.accepted = s.accepted
  completed : t.completed = s.completed

theorem SameLedger.trans {t u : LLC} (h : SameLedger s t) (h' : SameLedger t u) : SameLedger s u :=
  ⟨h'.accepted.trans h.accepted, h'.completed.trans h.completed⟩

/-- The logical request that is kept for a request of a core: a miss fetches its line with a read. -/
structure KeptFor (clk : Int) (req : Req) (l : LogicalRequest) : Prop where
  arrive : l.arrive = clk
  originalType : l.originalType = req.typeId
  same : { l.req with typeId := req.typeId } = req

/-- What a `send` does: it accepts this request if it returns true, and nothing otherwise. -/
structure Sent (req : Req) (b : Bool) (s t : LLC) : Prop where
  completed : t.completed = s.completed
  accepted : if b then ∃ l, KeptFor s.clk req l ∧ t.accepted = s.accepted ++ [l]
    else t.accepted = s.accepted

/-- A step that answers the requests it completes, in this order, and accepts none. -/
structure Answered (answers : List Req) (s t : LLC) : Prop where
  accepted : t.accepted = s.accepted
  completed : ∃ done, t.completed = s.completed ++ done ∧
    List.Forall₂ (fun l answer => ∃ arrive depart, answer = l.answer arrive depart) done answers

theorem SameLedger.answered {t : LLC} (h : SameLedger s t) : Answered [] s t :=
  ⟨h.accepted, [], by rw [h.completed, List.append_nil], .nil⟩

theorem Answered.trans {t u : LLC} {answers answers' : List Req} (h : Answered answers s t)
    (h' : Answered answers' t u) : Answered (answers ++ answers') s u := by
  obtain ⟨haccepted, done, hdone, hanswers⟩ := h
  obtain ⟨haccepted', done', hdone', hanswers'⟩ := h'
  refine ⟨haccepted'.trans haccepted, done ++ done', ?_, List.rel_append hanswers hanswers'⟩
  rw [hdone', hdone, List.append_assoc]

theorem Answered.after {t u : LLC} {answers : List Req} (h : Answered answers t u) (hsame : SameLedger s t) :
    Answered answers s u :=
  hsame.answered.trans h

theorem sameLedger_enqueueMiss (cfg : LLCConfig) (c : Completion) (req : Req) (s : LLC) :
    SameLedger s (s.enqueueMiss cfg c req) := by
  unfold enqueueMiss
  split_ifs <;> exact ⟨rfl, rfl⟩

theorem sameLedger_evictLine (cfg : LLCConfig) (index : Int) (victim : Line) (s : LLC) :
    SameLedger s (s.evictLine cfg index victim) := by
  unfold evictLine
  dsimp only
  split_ifs
  · have h := sameLedger_enqueueMiss cfg .writebackDone
      { addr := victim.addr, typeId := Request.write, sizeBytes := cfg.linesizeBytes }
      { s with
        llcEviction := s.llcEviction + 1
        internalWritebacksGenerated := s.internalWritebacksGenerated + 1
        internalWritebacksLive := s.internalWritebacksLive + 1 }
    exact ⟨h.accepted, h.completed⟩
  · exact ⟨rfl, rfl⟩

theorem sameLedger_allocateLine {addr : Int} {dirty : Bool} {t : LLC}
    (h : s.allocateLine cfg addr dirty = .ok t) : SameLedger s t := by
  unfold allocateLine at h
  dsimp only at h
  split_ifs at h
  · cases h
    exact ⟨rfl, rfl⟩
  · split at h
    · cases h
    · rename_i victim _
      cases h
      have hevict := sameLedger_evictLine cfg (cfg.getIndex addr) victim s
      exact ⟨hevict.accepted, hevict.completed⟩

theorem beginLogicalRequest_ledger {req : Req} {type : Int} {path : LogicalPath} {l : LogicalRequest}
    {t : LLC} (h : s.beginLogicalRequest req type path = .ok (l, t)) :
    t.completed = s.completed ∧ t.accepted = s.accepted ++ [l] ∧ l.req = req ∧ l.arrive = s.clk ∧
      l.originalType = type := by
  unfold beginLogicalRequest at h
  split_ifs at h
  cases h
  cases path <;> exact ⟨rfl, rfl, rfl, rfl, rfl⟩

theorem sent_of_sendHit {req : Req} {line : Line} {t : LLC} (h : s.sendHit cfg req line = .ok t) :
    Sent req true s t := by
  obtain ⟨⟨l, u⟩, hbegin, rfl⟩ := except_map_eq_ok.mp h
  obtain ⟨hcompleted, haccepted, hreq, harrive, htype⟩ := beginLogicalRequest_ledger hbegin
  exact ⟨hcompleted, l, ⟨harrive, htype, by rw [hreq]⟩, haccepted⟩

theorem sent_of_sendMerge {req : Req} {m : Int × Nat} {t : LLC} (h : s.sendMerge cfg req m = .ok t) :
    Sent req true s t := by
  unfold sendMerge at h
  split_ifs at h
  obtain ⟨⟨l, u⟩, hbegin, rfl⟩ := except_map_eq_ok.mp h
  obtain ⟨hcompleted, haccepted, hreq, harrive, htype⟩ := beginLogicalRequest_ledger hbegin
  exact ⟨hcompleted, l, ⟨harrive, htype, by rw [hreq]⟩, haccepted⟩

theorem sent_of_sendMiss {req : Req} {t : LLC} (h : s.sendMiss cfg req = .ok t) : Sent req true s t := by
  obtain ⟨u, halloc, h⟩ := except_bind_eq_ok.mp h
  have hsame := sameLedger_allocateLine halloc
  split_ifs at h
  obtain ⟨⟨l, v⟩, hbegin, h⟩ := except_bind_eq_ok.mp h
  cases h
  obtain ⟨hcompleted, haccepted, hreq, harrive, htype⟩ := beginLogicalRequest_ledger hbegin
  have hmiss := fun w => sameLedger_enqueueMiss cfg .receive
    { { req with typeId := Request.read } with sizeBytes := cfg.linesizeBytes } w
  refine ⟨(hmiss _).completed.trans (hcompleted.trans hsame.completed), l, ⟨?_, htype, by rw [hreq]⟩, ?_⟩
  · rw [harrive, clk_allocateLine halloc]
  · rw [(hmiss _).accepted]
    show v.accepted = _
    rw [haccepted, hsame.accepted]

/-- A request that is accepted is on the list from then on, and one that is not leaves it alone. -/
theorem sent_of_send {req : Req} {b : Bool} {t : LLC} (h : s.send cfg req = .ok (b, t)) :
    Sent req b s t := by
  obtain ⟨-, -, h⟩ := except_bind_eq_ok.mp h
  have haccess : SameLedger s (s.countAccess req) ∧ (s.countAccess req).clk = s.clk := by
    unfold countAccess
    split_ifs <;> exact ⟨⟨rfl, rfl⟩, rfl⟩
  generalize s.countAccess req = u at haccess h
  -- counting comes before the request is looked at
  have hcounted : ∀ v b, SameLedger s v → v.clk = s.clk → Sent req b v t → Sent req b s t := by
    rintro v b ⟨haccepted, hcompleted⟩ hclk ⟨hdone, hsent⟩
    refine ⟨hdone.trans hcompleted, ?_⟩
    rwa [haccepted, hclk] at hsent
  unfold sendValid at h
  dsimp only at h
  split at h
  · obtain ⟨v, hv, heq⟩ := except_map_eq_ok.mp h
    cases heq
    exact hcounted u true haccess.1 haccess.2 (sent_of_sendHit hv)
  · have hmiss : SameLedger s (u.countMiss req) ∧ (u.countMiss req).clk = s.clk := by
      unfold countMiss
      split_ifs <;> exact ⟨⟨haccess.1.accepted, haccess.1.completed⟩, haccess.2⟩
    generalize u.countMiss req = v at hmiss h
    split at h
    · obtain ⟨w, hw, heq⟩ := except_map_eq_ok.mp h
      cases heq
      exact hcounted v true hmiss.1 hmiss.2 (sent_of_sendMerge hw)
    · split_ifs at h
      · cases h
        exact ⟨hmiss.1.completed, hmiss.1.accepted⟩
      · cases h
        exact ⟨hmiss.1.completed, hmiss.1.accepted⟩
      · obtain ⟨w, hw, heq⟩ := except_map_eq_ok.mp h
        cases heq
        exact hcounted v true hmiss.1 hmiss.2 (sent_of_sendMiss hw)

theorem completeLogicalRequest_ledger {l : LogicalRequest} {t : LLC}
    (h : completeLogicalRequest l s = .ok t) :
    t.accepted = s.accepted ∧ t.completed = s.completed ++ [l] := by
  unfold completeLogicalRequest at h
  split_ifs at h
  cases h
  exact ⟨rfl, rfl⟩

theorem completeAll_ledger {requests : List LogicalRequest} {t : LLC}
    (h : requests.foldlM (fun s l => completeLogicalRequest l s) s = .ok t) :
    t.accepted = s.accepted ∧ t.completed = s.completed ++ requests := by
  induction requests generalizing s with
  | nil =>
      cases h
      exact ⟨rfl, (List.append_nil _).symm⟩
  | cons l requests ih =>
      rw [List.foldlM_cons] at h
      obtain ⟨u, hu, h⟩ := except_bind_eq_ok.mp h
      obtain ⟨haccepted, hcompleted⟩ := completeLogicalRequest_ledger hu
      obtain ⟨haccepted', hcompleted'⟩ := ih h
      refine ⟨haccepted'.trans haccepted, ?_⟩
      rw [hcompleted', hcompleted, List.append_assoc]
      rfl

theorem answered_of_receiveLine {addr arrive depart : Int} {answers : List Req} {t : LLC}
    (h : s.receiveLine cfg addr arrive depart = .ok (answers, t)) : Answered answers s t := by
  obtain ⟨⟨requests, u⟩, htake, h⟩ := except_bind_eq_ok.mp h
  have hu : SameLedger s u := by
    unfold takeReceiveRequests at htake
    split at htake
    · cases htake
    · split_ifs at htake
      cases htake
      exact ⟨rfl, rfl⟩
  dsimp only at h
  split_ifs at h
  obtain ⟨v, hreceive, h⟩ := except_bind_eq_ok.mp h
  have hv : SameLedger u v := by
    unfold LLC.receive at hreceive
    split at hreceive <;> cases hreceive
    exact ⟨rfl, rfl⟩
  obtain ⟨w, hall, h⟩ := except_bind_eq_ok.mp h
  cases h
  obtain ⟨haccepted, hcompleted⟩ := completeAll_ledger hall
  have hsame := hu.trans hv
  refine ⟨haccepted.trans hsame.accepted, requests, ?_, ?_⟩
  · rw [hcompleted, hsame.completed]
  · rw [List.forall₂_map_right_iff]
    exact List.forall₂_same.mpr fun l _ => ⟨arrive, depart, rfl⟩

theorem answered_of_complete {c : Completion} {addr arrive depart : Int} {answers : List Req} {t : LLC}
    (h : s.complete cfg c addr arrive depart = .ok (answers, t)) : Answered answers s t := by
  cases c with
  | receive => exact answered_of_receiveLine h
  | writebackDone =>
      obtain ⟨u, hu, heq⟩ := except_map_eq_ok.mp h
      cases heq
      unfold writebackDone at hu
      split_ifs at hu
      cases hu
      exact SameLedger.answered ⟨rfl, rfl⟩

/-- The answers of a callback are those to the requests that it completes. -/
theorem answered_of_deliver {j : Nat} {arrive depart : Int} {answers : List Req} {t : LLC}
    (h : s.deliver cfg j arrive depart = .ok (answers, t)) : Answered answers s t := by
  unfold deliver at h
  split at h
  · cases h
    exact SameLedger.answered ⟨rfl, rfl⟩
  · rename_i req hreq
    have hmemory : SameLedger s { s with memory := s.memory.eraseIdx j } := ⟨rfl, rfl⟩
    generalize ({ s with memory := s.memory.eraseIdx j } : LLC) = u at h hmemory
    refine Answered.after ?_ hmemory
    unfold callBack at h
    dsimp only at h
    split at h
    · cases h
      exact SameLedger.answered ⟨rfl, rfl⟩
    · exact answered_of_complete h
    · split at h
      · cases h
      · split_ifs at h
        · exact (answered_of_complete h).after ⟨rfl, rfl⟩
        · cases h
          exact SameLedger.answered ⟨rfl, rfl⟩

theorem answered_of_sendMisses {decisions : Nat → Decision} {n i : Nat} {answers answers' : List Req}
    {t : LLC} (h : sendMisses cfg decisions n i answers s = .ok (answers', t)) :
    ∃ new, answers' = answers ++ new ∧ Answered new s t := by
  induction n generalizing i answers s with
  | zero =>
      cases h
      exact ⟨[], (List.append_nil _).symm, SameLedger.answered ⟨rfl, rfl⟩⟩
  | succ n ih =>
      unfold sendMisses at h
      split at h
      · cases h
        exact ⟨[], (List.append_nil _).symm, SameLedger.answered ⟨rfl, rfl⟩⟩
      · rename_i due req hi
        split_ifs at h
        · dsimp only at h
          split at h
          · obtain ⟨new, hnew, hdone⟩ := ih h
            exact ⟨new, hnew, hdone.after ⟨rfl, rfl⟩⟩
          · obtain ⟨new, hnew, hdone⟩ := ih h
            exact ⟨new, hnew, hdone.after ⟨rfl, rfl⟩⟩
          · obtain ⟨⟨done, u⟩, hdeliver, h⟩ := except_bind_eq_ok.mp h
            obtain ⟨new, hnew, hrest⟩ := ih h
            have htaken : Answered done s u := (answered_of_deliver hdeliver).after ⟨rfl, rfl⟩
            exact ⟨done ++ new, by rw [hnew, List.append_assoc], htaken.trans hrest⟩
        · exact ih h

theorem answered_of_finishHits {n i : Nat} {answers answers' : List Req} {t : LLC}
    (h : finishHits n i answers s = .ok (answers', t)) :
    ∃ new, answers' = answers ++ new ∧ Answered new s t := by
  induction n generalizing i answers s with
  | zero =>
      cases h
      exact ⟨[], (List.append_nil _).symm, SameLedger.answered ⟨rfl, rfl⟩⟩
  | succ n ih =>
      unfold finishHits at h
      split at h
      · cases h
        exact ⟨[], (List.append_nil _).symm, SameLedger.answered ⟨rfl, rfl⟩⟩
      · rename_i due l hi
        split_ifs at h
        · obtain ⟨u, hu, h⟩ := except_bind_eq_ok.mp h
          obtain ⟨haccepted, hcompleted⟩ := completeLogicalRequest_ledger hu
          obtain ⟨new, hnew, hrest⟩ := ih h
          have hone : Answered [l.answer l.req.arrive l.req.depart] s u :=
            ⟨haccepted, [l], hcompleted, .cons ⟨_, _, rfl⟩ .nil⟩
          exact ⟨_, by rw [hnew, List.append_assoc], hone.trans hrest⟩
        · exact ih h

/-- The answers of a tick are those to the requests that it completes. -/
theorem answered_of_tick {decisions : Nat → Decision} {answers : List Req} {t : LLC}
    (h : s.tick cfg decisions = .ok (answers, t)) : Answered answers s t := by
  obtain ⟨⟨done, u⟩, hmisses, h⟩ := except_bind_eq_ok.mp h
  obtain ⟨new, rfl, hanswered⟩ := answered_of_sendMisses hmisses
  obtain ⟨new', rfl, hanswered'⟩ := answered_of_finishHits h
  exact hanswered.trans hanswered'

/-! ## Runs -/

/-- The calls on the cache, with what the memory system does: a core sends, the frontend ticks or skips
ticks, the memory system calls back. -/
inductive Call where
  | send (req : Req)
  | tick (decisions : Nat → Decision)
  | deliver (j : Nat) (arrive depart : Int)
  | fastForward (ticks : Nat)

def call (cfg : LLCConfig) (c : Call) (s : LLC) : Except Fault LLC :=
  match c with
  | .send req => (s.send cfg req).map (·.2)
  | .tick decisions => (LLC.tick cfg decisions { s with clk := s.clk + 1 }).map (·.2)
  | .deliver j arrive depart => (s.deliver cfg j arrive depart).map (·.2)
  | .fastForward ticks => .ok { s with clk := s.clk + ticks }

/-- The states of runs in which no call is refused as malformed. -/
def Reached (cfg : LLCConfig) (s : LLC) : Prop :=
  Reachable {} (fun s (c : Call) s' => call cfg c s = .ok s') s

theorem call_spec (c : Call) (h : Inv cfg [] [] s) :
    (∃ what, call cfg c s = .error (.request what)) ∨ ∃ t, call cfg c s = .ok t ∧ Inv cfg [] [] t := by
  cases c with
  | send req =>
      rcases send_spec req h with ⟨what, hwhat⟩ | ⟨b, t, ht, hinv⟩
      · refine .inl ⟨what, ?_⟩
        show (s.send cfg req).map (·.2) = _
        rw [hwhat]
        rfl
      · exact .inr ⟨t, except_map_eq_ok.mpr ⟨_, ht, rfl⟩, hinv⟩
  | tick decisions =>
      obtain ⟨answers, t, ht, hinv⟩ := tick_spec decisions (h.advance Int.one_nonneg)
      exact .inr ⟨t, except_map_eq_ok.mpr ⟨_, ht, rfl⟩, hinv⟩
  | deliver j arrive depart =>
      obtain ⟨answers, t, ht, hinv⟩ := deliver_spec j arrive depart h
      exact .inr ⟨t, except_map_eq_ok.mpr ⟨_, ht, rfl⟩, hinv⟩
  | fastForward ticks => exact .inr ⟨_, rfl, h.advance (Int.natCast_nonneg ticks)⟩

theorem Reached.inv (h : Reached cfg s) : Inv cfg [] [] s := by
  refine h.invariant (Inv cfg [] []) inv_init ?_
  intro s c s' hs hcall
  rcases call_spec c hs with ⟨what, hwhat⟩ | ⟨t, ht, hinv⟩
  · rw [hwhat] at hcall
    cases hcall
  · rw [ht] at hcall
    cases hcall
    exact hinv

/-! ## Tiling -/

/-- Every byte of the range is in one of the parts, no byte is in two, and no part sticks out. -/
def Tiles (parts : List (Int × Int)) (base size : Int) : Prop :=
  ∀ x, parts.countP (fun p => p.1 ≤ x ∧ x < p.1 + p.2) = if base ≤ x ∧ x < base + size then 1 else 0

theorem tiles_range (base size : Int) (n : Nat) (hsize : 0 ≤ size) :
    Tiles ((List.range n).map fun (i : Nat) => (base + i * size, size)) base (n * size) := by
  intro x
  induction n with
  | zero =>
      rw [if_neg (by push_cast; omega)]
      rfl
  | succ n ih =>
      rw [List.range_succ, List.map_append, List.countP_append, ih, List.map_singleton,
        List.countP_singleton]
      have hnext : ((n + 1 : Nat) : Int) * size = n * size + size := by
        push_cast
        rw [add_mul, one_mul]
      have hpos : 0 ≤ (n : Int) * size := Int.mul_nonneg (Int.natCast_nonneg n) hsize
      rw [hnext]
      generalize (n : Int) * size = offset at *
      simp only [decide_eq_true_eq]
      split_ifs <;> omega

/-- A line is a whole number of transactions if the sizes of both are powers of two. -/
theorem partsOf_tiles (htx : ∃ k, cfg.txBytes = 2 ^ k) (hlarger : cfg.txBytes < cfg.linesizeBytes)
    (addr : Int) : Tiles (partsOf cfg addr) (cfg.align addr) cfg.linesizeBytes := by
  have hdvd : cfg.txBytes ∣ cfg.linesizeBytes := by
    obtain ⟨k, hk⟩ := htx
    unfold LLCConfig.linesizeBytes at *
    rw [hk] at hlarger ⊢
    exact pow_dvd_pow 2 ((Nat.pow_lt_pow_iff_right Nat.one_lt_two).mp hlarger).le
  have hwhole : ((cfg.linesizeBytes / cfg.txBytes : Nat) : Int) * cfg.txBytes = cfg.linesizeBytes := by
    exact_mod_cast Nat.div_mul_cancel hdvd
  have htiles := tiles_range (cfg.align addr) cfg.txBytes (cfg.linesizeBytes / cfg.txBytes)
    (Int.natCast_nonneg _)
  rw [hwhole] at htiles
  exact htiles

/-! ## Service -/

/-- The accounts of the cache, as they look from outside. -/
structure Serviced (cfg : LLCConfig) (s : LLC) : Prop where
  /-- An accepted request is completed once, or it is live. -/
  once : s.accepted.Perm (s.completed ++ s.live)
  distinct : (s.accepted.map (·.admissionOrdinal)).Nodup
  /-- MSHRs and buckets belong together, and there is one of each for a line. -/
  buckets : s.receiveRequests.map (·.1) = s.mshrs.map (·.1)
  aligned : (s.mshrs.map fun m => cfg.align m.1).Nodup
  /-- So do MSHRs and the lines that are not ready. -/
  waiting : ∀ index, (((s.cacheSets index).filter (!·.ready)).map fun l => (l.addr, l.node)).Perm
    (s.mshrs.filter fun m => cfg.getIndex m.1 = index)
  placed : ∀ index, ∀ l ∈ s.cacheSets index, cfg.getIndex l.addr = index ∧ l.tag = cfg.getTag l.addr
  tags : ∀ index, ((s.cacheSets index).map (·.tag)).Nodup
  ways : ∀ index, (s.cacheSets index).length ≤ cfg.associativity
  /-- The counter of live requests, and their identities. -/
  counted : s.logicalRequestsLive = s.live.length
  identities : s.liveLogicalIds.Perm (s.live.map (·.key)) ∧ s.liveLogicalIds.Nodup
  /-- The parts of a line tile it; the original callback has been called if no part is outstanding, and
  then once. -/
  tiles : ∀ sp ∈ s.splits, Tiles sp.parts (cfg.align sp.original.addr) cfg.linesizeBytes
  parts : ∀ g sp, s.splits[g]? = some sp →
    ((partsOut g s.out).map fun r => (r.addr, r.sizeBytes)).Subperm sp.parts ∧
      sp.fired = if partsOut g s.out = [] then 1 else 0

theorem SetOk.waiting_perm {mshrs : List (Int × Nat)} {next : Nat} {index : Int} {set : List Line}
    (h : SetOk cfg mshrs next index set) (hnodup : mshrs.Nodup) :
    ((set.filter (!·.ready)).map fun l => (l.addr, l.node)).Perm
      (mshrs.filter fun m => cfg.getIndex m.1 = index) := by
  have hlines : ((set.filter (!·.ready)).map fun l => (l.addr, l.node)).Nodup := by
    refine List.Nodup.of_map Prod.snd ?_
    rw [List.map_map]
    exact h.nodes.sublist (List.filter_sublist.map _)
  refine (List.perm_ext_iff_of_nodup hlines (hnodup.filter _)).mpr fun m => ?_
  rw [List.mem_filter, decide_eq_true_eq, h.waiting m, List.mem_map]
  constructor
  · rintro ⟨l, hl, rfl⟩
    obtain ⟨hmem, hno⟩ := List.mem_filter.mp hl
    exact ⟨l, hmem, rfl, rfl, by simpa using hno⟩
  · rintro ⟨l, hl, haddr, hnode, hno⟩
    exact ⟨l, List.mem_filter.mpr ⟨hl, by simpa using hno⟩, Prod.ext haddr hnode⟩

theorem Inv.serviced (htx : ∃ k, cfg.txBytes = 2 ^ k) (h : Inv cfg [] [] s) : Serviced cfg s where
  once := h.logical.served
  distinct := by
    rw [h.logical.ordinals]
    exact List.nodup_range
  buckets := h.buckets.keys
  aligned := h.sets.aligned
  waiting := fun index => SetOk.waiting_perm (h.sets.set index) h.sets.nodup
  placed := fun index => (h.sets.set index).placed
  tags := fun index => (h.sets.set index).tags
  ways := fun index => (h.sets.set index).ways
  counted := by
    rw [h.logical.counted, h.logical.keys.length_eq, List.length_map]
    rfl
  identities := ⟨h.logical.keys, h.logical.nodup⟩
  tiles := by
    intro sp hsp
    obtain ⟨g, hg⟩ := List.getElem?_of_mem hsp
    have hsplit := h.traffic.split g sp hg
    rw [hsplit.parts]
    exact partsOf_tiles htx hsplit.larger _
  parts := by
    intro g sp hg
    have hsplit := h.traffic.split g sp hg
    refine ⟨hsplit.outstanding, ?_⟩
    rw [hsplit.fired, hsplit.remaining]
    refine if_congr ?_ rfl rfl
    rw [Int.natCast_eq_zero, List.length_eq_zero_iff]

/-- In every run, whatever is sent and whatever the memory system does with it: accepted requests are
completed once, MSHRs, waiting lines and buckets correspond, split lines are tiled, and no check of the
cache's own bookkeeping fails. The accepted requests are those for which `send` returns true, and the
completed ones are those that the answers of ticks and callbacks go to. Transactions have a power of two of
bytes, as those of every device that the configuration layer builds. -/
theorem llc_exactly_once_service (cfg : LLCConfig) (htx : ∃ k, cfg.txBytes = 2 ^ k) {s : LLC}
    (hs : Reached cfg s) :
    Serviced cfg s ∧
      (∀ req b t, s.send cfg req = .ok (b, t) → Sent req b s t) ∧
      (∀ decisions answers t, LLC.tick cfg decisions { s with clk := s.clk + 1 } = .ok (answers, t) →
        Answered answers s t) ∧
      (∀ j arrive depart answers t, s.deliver cfg j arrive depart = .ok (answers, t) →
        Answered answers s t) ∧
      (∀ c what, call cfg c s ≠ .error (.cache what)) ∧
      ∀ what, s.isQuiescent ≠ .error (.cache what) := by
  refine ⟨hs.inv.serviced htx, fun _ _ _ => sent_of_send, fun _ _ _ h => ?_,
    fun _ _ _ _ _ => answered_of_deliver, fun c what hcall => ?_, fun what hquiescent => ?_⟩
  · have hticked := answered_of_tick h
    exact ⟨hticked.accepted, hticked.completed⟩
  · rcases call_spec c hs.inv with ⟨_, hwhat⟩ | ⟨t, ht, -⟩
    · rw [hwhat] at hcall
      cases hcall
    · rw [ht] at hcall
      cases hcall
  · obtain ⟨b, hb⟩ := isQuiescent_spec hs.inv
    rw [hb] at hquiescent
    cases hquiescent

/-- A cache of one line of two bytes, which is fetched byte by byte. -/
def smallLLC : LLCConfig where
  latency := 0
  lineBits := 1
  setBits := 0
  associativity := 1
  numMshrs := 1
  txBytes := 1
  associativity_pos := Nat.one_pos
  numMshrs_pos := Nat.one_pos
  txBytes_pos := Nat.one_pos

/-- A write misses; a read of the same line joins it, and both are completed when the second byte is
back. -/
theorem llc_exactly_once_service_small : ∃ s, Reached smallLLC s ∧ s.completed.length = 2 ∧
    s.splits.map (·.fired) = [1] ∧ Serviced smallLLC s := by
  let request (addr type frontendId : Int) : Req :=
    { addr := addr, typeId := type, sourceId := 0, frontendId := frontendId }
  have hobs : (runAll (call smallLLC) [.send (request 0 Request.write 0), .send (request 1 Request.read 1),
      .tick fun _ => .accept, .deliver 1 0 0, .deliver 0 0 0] {}).map
      (fun s => (s.completed.length, s.splits.map (·.fired))) = .ok (2, [1]) := by
    decide +kernel
  obtain ⟨s, hrun, hobs⟩ := except_map_eq_ok.mp hobs
  obtain ⟨hcompleted, hfired⟩ := Prod.mk.inj hobs
  have hs : Reached smallLLC s := reachable_of_runAll .start hrun
  exact ⟨s, hs, hcompleted, hfired, (llc_exactly_once_service smallLLC ⟨0, rfl⟩ hs).1⟩

end LLC

/-! ## The cache in the frontend -/

namespace SimpleO3

variable {cfg : O3Config} {T : Translation} {s s' : SimpleO3 cfg T}

theorem llc_port {req : Req} {e e' : LLC × T.State} {sent : Option Req} (he : LLC.Reached cfg.llc e.1)
    (h : port cfg T req e = .ok (sent, e')) : LLC.Reached cfg.llc e'.1 := by
  obtain ⟨llc, t⟩ := e
  unfold port at h
  dsimp only at h
  split at h
  · cases h
    exact he
  · obtain ⟨⟨b, llc'⟩, hsend, heq⟩ := except_map_eq_ok.mp h
    cases heq
    exact he.step (.send _) (except_map_eq_ok.mpr ⟨_, hsend, rfl⟩)

/-- The cache of a frontend runs as described. -/
theorem llc_of_reached (hs : s.Reached) : LLC.Reached cfg.llc s.llc := by
  obtain ⟨s₀, ⟨hcores, hllc, -⟩, hreach⟩ := hs
  refine (hreach.invariant (fun s : SimpleO3 cfg T => CoresOk s ∧ LLC.Reached cfg.llc s.llc)
    ⟨fun i => Core.Ok.init (hcores i), hllc ▸ .start⟩ ?_).2
  rintro s (decisions | ⟨j, arrive, depart⟩ | ticks) s' ⟨h, hinv⟩ ⟨hforward, hcall⟩
  · obtain ⟨t, ht, hfold⟩ := except_bind_eq_ok.mp hcall
    obtain ⟨_, hok⟩ := llc_answerAll ht
    have hticked : LLC.Reached cfg.llc t.llc :=
      hinv.step (.tick decisions) (except_map_eq_ok.mpr ⟨_, hok, rfl⟩)
    have hstart : CoresOk t := CoresOk.answerAll (s := s.advance 1) h ht
    refine foldlM_preserves (P := fun u => CoresOk u ∧ LLC.Reached cfg.llc u.llc) ?_ ⟨hstart, hticked⟩ hfold
    intro u i u' _ ⟨hu, hllc⟩ hstep
    obtain ⟨⟨core, llc, tr⟩, hcore, rfl⟩ := except_map_eq_ok.mp hstep
    refine ⟨cores_update hu ((hu i).tick hcore) rfl, ?_⟩
    exact Core.tick_port (P := fun e : LLC × T.State => LLC.Reached cfg.llc e.1)
      (fun _ _ _ _ he hport => llc_port he hport) (hu i) hllc hcore
  · obtain ⟨_, hok⟩ := llc_answerAll hcall
    exact ⟨h.answerAll hcall, hinv.step (.deliver j arrive depart) (except_map_eq_ok.mpr ⟨_, hok, rfl⟩)⟩
  · cases hcall
    refine ⟨fun i => (h i).fastForward ticks, hinv.step (.fastForward ticks.toNat) ?_⟩
    show Except.ok { s.llc with clk := s.llc.clk + ticks.toNat } = _
    rw [Int.toNat_of_nonneg hforward]
    rfl

end SimpleO3

end Ramulator.Frontend.O3
