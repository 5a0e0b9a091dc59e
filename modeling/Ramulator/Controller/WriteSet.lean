/-
# Ramulator.Controller.WriteSet — the write-forwarding set.

`m_buffered_write_addrs` shadows the write buffer: `send` asks it whether a read can be forwarded or a
write absorbed. It is exact: the set of the addresses in the write buffer, each of which is there once.
This module proves that every operation of `ControllerBase` keeps it so; `Ramulator.Controller.Forwarding`
carries that to the controllers built from these operations.
-/
import Ramulator.Controller.Steps
import Mathlib.Data.Finset.Dedup

namespace Ramulator.Controller

open Ramulator.Base (Request)
open Ramulator.Dram Ramulator.Lib ControllerBase

variable {K : Type}

/-- Where a request goes, in the frontend's terms and in the device's. -/
def Entry.place (e : Entry K) : Int × AddrVec := (e.addr, e.addrVec)

/-- The set holds the addresses of the buffered writes, which are pairwise distinct. `P` holds of the
places of all writes sent so far, and so of these. -/
structure WriteSetOk (P : Int → AddrVec → Prop) (s : ControllerBase K) : Prop where
  exact : s.bufferedWriteAddrs = (s.write.map (·.addr)).toFinset
  distinct : (s.write.map (·.addr)).Nodup
  only : ∀ e ∈ s.write, P e.addr e.addrVec

variable {P : Int → AddrVec → Prop} {cfg : Config} {s s' : ControllerBase K}

theorem WriteSetOk.mem_iff (h : WriteSetOk P s) (a : Int) :
    a ∈ s.bufferedWriteAddrs ↔ ∃ e ∈ s.write, e.addr = a := by
  rw [h.exact, List.mem_toFinset, List.mem_map]

theorem writeSetOk_init : WriteSetOk P (ControllerBase.init cfg : ControllerBase K) :=
  ⟨rfl, List.nodup_nil, fun _ he => nomatch he⟩

theorem WriteSetOk.mono {P' : Int → AddrVec → Prop} (h : WriteSetOk P s)
    (hP : ∀ a v, P a v → P' a v) : WriteSetOk P' s :=
  ⟨h.exact, h.distinct, fun e he => hP _ _ (h.only e he)⟩

/-- Steps that leave the set and the places in the write buffer alone. -/
theorem WriteSetOk.frame (h : WriteSetOk P s) (hset : s'.bufferedWriteAddrs = s.bufferedWriteAddrs)
    (hplaces : s'.write.map Entry.place = s.write.map Entry.place) : WriteSetOk P s' := by
  have haddrs : s'.write.map (·.addr) = s.write.map (·.addr) := by
    have hfst := congrArg (List.map Prod.fst) hplaces
    rwa [List.map_map, List.map_map] at hfst
  refine ⟨?_, ?_, fun e he => ?_⟩
  · rw [hset, haddrs]
    exact h.exact
  · rw [haddrs]
    exact h.distinct
  · have hmem : e.place ∈ s'.write.map Entry.place := List.mem_map_of_mem he
    rw [hplaces] at hmem
    obtain ⟨e₀, he₀, heq⟩ := List.mem_map.mp hmem
    obtain ⟨haddr, hvec⟩ := Prod.mk.inj heq
    rw [← haddr, ← hvec]
    exact h.only e₀ he₀

/-- A request leaves its buffer by way of `t`: if it was a buffered write, its address has left the set
there. -/
theorem WriteSetOk.removeAt (h : WriteSetOk P s) {t : ControllerBase K} {b : Buf} {i : Nat} {e : Entry K}
    (hi : (s.bufs b)[i]? = some e)
    (hset : t.bufferedWriteAddrs =
      if b = .write then s.bufferedWriteAddrs.erase e.addr else s.bufferedWriteAddrs)
    (hwrite : t.bufs .write = s.bufs .write) : WriteSetOk P (t.removeAt b i) := by
  by_cases hb : b = .write
  · subst hb
    rw [if_pos rfl] at hset
    have hi' : (s.write.map (·.addr))[i]? = some e.addr := by
      rw [List.getElem?_map, show s.write[i]? = some e from hi]
      rfl
    obtain ⟨hlt, hget⟩ := List.getElem?_eq_some_iff.mp hi'
    have haddrs : (t.removeAt .write i).write.map (·.addr) = (s.write.map (·.addr)).erase e.addr := by
      show ((t.removeAt .write i).bufs .write).map _ = _
      rw [bufs_removeAt, if_pos rfl, hwrite, ← hget, h.distinct.erase_getElem i hlt, List.eraseIdx_map]
      rfl
    refine ⟨?_, ?_, ?_⟩
    · show t.bufferedWriteAddrs = _
      rw [hset, haddrs, h.exact]
      ext a
      simp only [Finset.mem_erase, List.mem_toFinset, h.distinct.mem_erase_iff]
    · rw [haddrs]
      exact h.distinct.erase _
    · show ∀ e ∈ (t.removeAt .write i).bufs .write, _
      rw [bufs_removeAt, if_pos rfl, hwrite]
      exact fun e he => h.only e (List.mem_of_mem_eraseIdx he)
  · rw [if_neg hb] at hset
    refine h.frame hset ?_
    show ((t.removeAt b i).bufs .write).map _ = _
    rw [bufs_removeAt, if_neg (Ne.symm hb), hwrite]
    rfl

/-! ## The operations -/

theorem WriteSetOk.send (h : WriteSetOk P s) {apply : Request Command K → AddrVec}
    {req req' : Request Command K} {accepted : Bool}
    (hP : req.typeId = Request.write → P req.addr ((apply req).set 0 cfg.channelId))
    (hsend : s.send cfg apply req = .ok (accepted, req', s')) : WriteSetOk P s' := by
  rcases send_cases hsend with ⟨-, -, heq⟩ | ⟨-, -, -, heq⟩ | ⟨-, -, heq⟩ | ⟨ht, hfree, -, heq⟩ | ⟨-, heq⟩
  all_goals
    obtain rfl := congrArg (fun r => r.2.2) heq
  · rw [forward_eq]
    exact h.frame rfl rfl
  · exact h.frame rfl rfl
  · rw [coalesce_eq]
    exact h.frame rfl rfl
  · -- the new address was not in the set, hence not in the buffer
    have hnot : req.addr ∉ s.write.map (·.addr) := by
      rw [← List.mem_toFinset, ← h.exact]
      exact hfree
    have hwrite : (s.enqueueWrite ((mapped cfg apply req).arrivedAt s.clk)).write.map (·.addr) =
        s.write.map (·.addr) ++ [req.addr] := List.map_append
    refine ⟨?_, ?_, ?_⟩
    · rw [hwrite]
      show insert req.addr s.bufferedWriteAddrs = _
      rw [h.exact]
      ext a
      simp [or_comm]
    · rw [hwrite, List.nodup_append]
      refine ⟨h.distinct, by simp, fun a ha a' ha' => ?_⟩
      rw [List.mem_singleton.mp ha']
      rintro rfl
      exact hnot ha
    · intro e he
      rcases List.mem_append.mp he with he | he
      · exact h.only e he
      · rw [List.mem_singleton.mp he]
        exact hP ht
  · exact h

theorem writeSetOk_keptBySend : KeptBySend cfg (fun _ => True) (WriteSetOk (K := K) P) := by
  intro s req accepted s' _ h hsend
  obtain ⟨-, rfl | rfl⟩ := prioritySend_eq_ok hsend
  · exact h.frame rfl rfl
  · exact h

/-- Nor does it move a request. -/
theorem writeSetOk_keptBySend_getElem (b : Buf) (i : Nat) (e : Entry K) :
    KeptBySend cfg (fun _ => True) fun s => WriteSetOk P s ∧ (s.bufs b)[i]? = some e := by
  intro s req accepted s' hreq hs hsend
  refine ⟨writeSetOk_keptBySend s req accepted s' hreq hs.1 hsend, ?_⟩
  obtain ⟨-, rfl | rfl⟩ := prioritySend_eq_ok hsend
  · exact getElem?_enqueuePriority hs.2
  · exact hs.2

theorem WriteSetOk.tickPrologue (h : WriteSetOk P s) : WriteSetOk P s.tickPrologue := by
  obtain ⟨stats, heq, -⟩ := tickPrologue_eq s
  rw [heq]
  exact h.frame rfl rfl

theorem WriteSetOk.preTick (h : WriteSetOk P s) {inputs : TickInputs K}
    (hpre : s.preTick cfg inputs = .ok s') : WriteSetOk P s' :=
  preTick_preserves writeSetOk_keptBySend (fun _ _ => trivial) (fun _ _ hs => hs.frame rfl rfl)
    (fun _ _ => trivial) (fun _ _ => trivial) h.tickPrologue hpre

theorem WriteSetOk.prioritySendAll (h : WriteSetOk P s) {reqs : List (Request Command K)}
    (hsend : s.prioritySendAll cfg reqs = .ok s') : WriteSetOk P s' :=
  prioritySendAll_preserves writeSetOk_keptBySend (fun _ _ => trivial) h hsend

theorem WriteSetOk.resolved (h : WriteSetOk P s) (hres : Resolved s s') : WriteSetOk P s' := by
  refine h.frame (by rw [hres.rest]) ?_
  have hplaces := congrArg (List.map Entry.place) (hres.bare .write)
  rwa [List.map_map, List.map_map] at hplaces

/-- A request is counted: it may have changed, but not its place. -/
theorem WriteSetOk.count (h : WriteSetOk P s) (cfg : Config) {b : Buf} {i : Nat} {e e' : Entry K}
    (hi : (s.bufs b)[i]? = some e) (hplace : e'.place = e.place) :
    WriteSetOk P (s.count cfg b i e').2 ∧
      ((s.count cfg b i e').2.bufs b)[i]? = some (s.count cfg b i e').1 := by
  obtain ⟨stats, -, hcount⟩ := count_eq cfg b i e' s
  rw [hcount]
  refine ⟨h.frame rfl ?_, ?_⟩
  · show ((s.setBuf b ((s.bufs b).set i { e' with isStatUpdated := true })).bufs .write).map _ = _
    rw [bufs_setBuf]
    split_ifs with hb
    · subst hb
      exact map_set_of_eq _ hi hplace
    · rfl
  · show ((s.setBuf b ((s.bufs b).set i { e' with isStatUpdated := true })).bufs b)[i]? = _
    have hlt := (List.getElem?_eq_some_iff.mp hi).1
    simp [hlt]

/-- Issuing a command moves no request. -/
theorem WriteSetOk.issueAndNotify (h : WriteSetOk P s) {onIssue : List (Request Command K)} {b : Buf}
    {i : Nat} {e e' : Entry K} (hi : (s.bufs b)[i]? = some e)
    (hissue : s.issueAndNotify cfg onIssue e' = .ok s') :
    WriteSetOk P s' ∧ (s'.bufs b)[i]? = some e := by
  unfold ControllerBase.issueAndNotify at hissue
  obtain ⟨p, hp⟩ := rowPolicyOnIssue_eq cfg e' (s.issue cfg e')
  rw [hp] at hissue
  refine prioritySendAll_preserves (writeSetOk_keptBySend_getElem b i e) (fun _ _ => trivial)
    ⟨?_, ?_⟩ hissue
  · exact h.frame rfl rfl
  · exact hi

/-- Both together, for a request that is served with the commands of `e'`. -/
theorem WriteSetOk.countAndIssue (h : WriteSetOk P s) {onIssue : List (Request Command K)} {b : Buf}
    {i : Nat} {e e' : Entry K} (hi : (s.bufs b)[i]? = some e) (hplace : e'.place = e.place)
    (hissue : (s.count cfg b i e').2.issueAndNotify cfg onIssue (s.count cfg b i e').1 = .ok s') :
    WriteSetOk P s' ∧ (s'.bufs b)[i]? = some (s.count cfg b i e').1 := by
  have hcount := h.count cfg hi hplace
  exact hcount.1.issueAndNotify hcount.2 hissue

theorem place_tryUpgradeCommand (cfg : Config) (s : ControllerBase K) (e : Entry K) :
    (s.tryUpgradeCommand cfg e).place = e.place :=
  Prod.ext (prepared_addr cfg s e) (prepared_addrVec cfg s e)

theorem bufferedWriteAddrs_finish (cfg : Config) (e : Entry K) (s : ControllerBase K) :
    (s.finish cfg e).bufferedWriteAddrs = s.bufferedWriteAddrs := by
  unfold finish
  split_ifs <;> rfl

theorem WriteSetOk.retireRequest (h : WriteSetOk P s) {b : Buf} {i : Nat} {e : Entry K}
    (hi : (s.bufs b)[i]? = some e) : WriteSetOk P (s.retireRequest cfg b i e) := by
  refine h.removeAt hi (bufferedWriteAddrs_finish cfg e (s.leave cfg b e)) ?_
  rw [(finish_frame cfg e (s.leave cfg b e)).2.1]
  rfl

/-- A full active buffer leaves the request where it is, and in the set. -/
theorem WriteSetOk.promoteToActive (h : WriteSetOk P s) {b : Buf} {i : Nat} {e : Entry K}
    (hi : (s.bufs b)[i]? = some e) : WriteSetOk P (s.promoteToActive cfg b i e) := by
  unfold ControllerBase.promoteToActive
  split_ifs with hroom
  · exact h.removeAt hi rfl rfl
  · exact h

theorem WriteSetOk.advance (h : WriteSetOk P s) {b : Buf} {i : Nat} {e : Entry K}
    (hi : (s.bufs b)[i]? = some e) : WriteSetOk P (s.advance cfg b i e) := by
  unfold ControllerBase.advance
  split_ifs
  · exact h.retireRequest hi
  · exact h.promoteToActive hi
  · exact h

theorem WriteSetOk.serveCandidate (h : WriteSetOk P s) {onIssue : List (Request Command K)} {b : Buf}
    {i : Nat} {e : Entry K} (hi : (s.bufs b)[i]? = some e)
    (hserve : s.serveCandidate cfg onIssue b i e = .ok s') : WriteSetOk P s' := by
  obtain ⟨t, ht, heq⟩ := except_bind_eq_ok.mp hserve
  obtain ⟨hok, hi'⟩ := h.countAndIssue hi (place_tryUpgradeCommand cfg s e) ht
  cases heq
  exact hok.advance hi'

theorem WriteSetOk.serve (h : WriteSetOk P s) {onIssue : List (Request Command K)}
    {cand : Option (Buf × Nat)} (hserve : serve cfg onIssue (s, cand) = .ok s') : WriteSetOk P s' := by
  rcases cand with - | ⟨b, i⟩
  · cases hserve
    exact h
  · unfold ControllerBase.serve at hserve
    cases hi : (s.bufs b)[i]? with
    | none =>
        simp only [hi] at hserve
        cases hserve
        exact h
    | some e =>
        simp only [hi] at hserve
        exact h.serveCandidate hi hserve

end Ramulator.Controller
