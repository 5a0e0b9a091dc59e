/-
# Ramulator.Frontend.BHO3Service — what the BHO3 cache accepts, it completes once.

Two accounts are kept of the lines under way. One is of the sets: each MSHR points at a line that is not
ready and has its address, and every line that is not ready has its MSHR. The other is of the requests:
each MSHR has one outstanding fill and one bucket of waiting requests, whose first one is the owner that is
charged for the MSHR.

The completion of a hit goes the way of a completion from memory. It finds an MSHR if, in the meantime, the
line has gone and been missed again, and takes it; and a flush may take a line that is not ready from its
MSHR. Where neither happens, both accounts are kept.
-/
import Ramulator.Frontend.BHO3LLC
import Mathlib.Data.List.Perm.Basic
import Mathlib.Data.List.Nodup

namespace Ramulator.Frontend.BHO3

open Ramulator.Base (Request)
open Ramulator.Lib

/-! ## The account of the sets -/

/-- The lines of one set. -/
structure SetOk (cfg : LLCConfig) (mshrs : List (Int × Nat)) (next : Nat) (index : Int) (set : List Line) :
    Prop where
  node_lt : ∀ l ∈ set, l.node < next
  nodup : (set.map (·.node)).Nodup
  index : ∀ l ∈ set, cfg.getIndex l.addr = index
  waiting : ∀ l ∈ set, l.ready = false → (l.addr, l.node) ∈ mshrs

namespace SetOk

variable {cfg : LLCConfig} {mshrs mshrs' : List (Int × Nat)} {next next' : Nat} {index : Int}
  {set set' : List Line}

/-- More MSHRs and later nodes. -/
theorem mono (h : SetOk cfg mshrs next index set) (hmshrs : ∀ m ∈ mshrs, m ∈ mshrs') (hnext : next ≤ next') :
    SetOk cfg mshrs' next' index set where
  node_lt := fun l hl => (h.node_lt l hl).trans_le hnext
  nodup := h.nodup
  index := h.index
  waiting := fun l hl hwait => hmshrs _ (h.waiting l hl hwait)

theorem sublist (h : SetOk cfg mshrs next index set) (hsub : set'.Sublist set) :
    SetOk cfg mshrs next index set' where
  node_lt := fun l hl => h.node_lt l (hsub.subset hl)
  nodup := (hsub.map _).nodup h.nodup
  index := fun l hl => h.index l (hsub.subset hl)
  waiting := fun l hl => h.waiting l (hsub.subset hl)

/-- A new line at the back: ready, or with its MSHR. -/
theorem push (h : SetOk cfg mshrs next index set) {line : Line} (hnode : line.node = next)
    (hindex : cfg.getIndex line.addr = index) (hwaiting : line.ready = false → (line.addr, line.node) ∈ mshrs) :
    SetOk cfg mshrs (next + 1) index (set ++ [line]) where
  node_lt := by
    intro l hl
    rcases List.mem_append.mp hl with hl | hl
    · exact (h.node_lt l hl).trans (Nat.lt_succ_self next)
    · rw [List.mem_singleton.mp hl, hnode]
      exact Nat.lt_succ_self next
  nodup := by
    rw [List.map_append]
    refine List.nodup_append'.mpr ⟨h.nodup, List.nodup_singleton _, ?_⟩
    intro n hn hn'
    obtain ⟨l, hl, rfl⟩ := List.mem_map.mp hn
    rw [List.map_singleton, List.mem_singleton] at hn'
    have hlt := h.node_lt l hl
    omega
  index := by
    intro l hl
    rcases List.mem_append.mp hl with hl | hl
    · exact h.index l hl
    · rw [List.mem_singleton.mp hl]
      exact hindex
  waiting := by
    intro l hl hwait
    rcases List.mem_append.mp hl with hl | hl
    · exact h.waiting l hl hwait
    · rw [List.mem_singleton.mp hl] at hwait ⊢
      exact hwaiting hwait

/-- Lines change in place, and those that are not ready after it keep their MSHRs. -/
theorem map (h : SetOk cfg mshrs next index set) {f : Line → Line} (hnode : ∀ l, (f l).node = l.node)
    (haddr : ∀ l, (f l).addr = l.addr)
    (hwaiting : ∀ l ∈ set, (f l).ready = false →
      l.ready = false ∧ ((l.addr, l.node) ∈ mshrs → (l.addr, l.node) ∈ mshrs')) :
    SetOk cfg mshrs' next index (set.map f) where
  node_lt := by
    intro x hx
    obtain ⟨l, hl, rfl⟩ := List.mem_map.mp hx
    rw [hnode]
    exact h.node_lt l hl
  nodup := by
    rw [List.map_map]
    have hsame : (fun l : Line => l.node) ∘ f = fun l => l.node := funext hnode
    rw [hsame]
    exact h.nodup
  index := by
    intro x hx
    obtain ⟨l, hl, rfl⟩ := List.mem_map.mp hx
    rw [haddr]
    exact h.index l hl
  waiting := by
    intro x hx hwait
    obtain ⟨l, hl, rfl⟩ := List.mem_map.mp hx
    obtain ⟨hbefore, hkeep⟩ := hwaiting l hl hwait
    rw [haddr, hnode]
    exact hkeep (h.waiting l hl hbefore)

end SetOk

/-- All sets, and the lines that the MSHRs point at. -/
structure LinesOk (cfg : LLCConfig) (sets : Int → List Line) (next : Nat) (mshrs : List (Int × Nat)) : Prop where
  each : ∀ i, SetOk cfg mshrs next i (sets i)
  lines : ∀ m ∈ mshrs, ∃ l ∈ sets (cfg.getIndex m.1), l.node = m.2 ∧ l.addr = m.1 ∧ l.ready = false
  aligned : (mshrs.map fun m => cfg.align m.1).Nodup

namespace LinesOk

variable {cfg : LLCConfig} {sets : Int → List Line} {next : Nat} {mshrs : List (Int × Nat)}

theorem eq_of_node (h : LinesOk cfg sets next mshrs) {i : Int} {l l' : Line} (hl : l ∈ sets i)
    (hl' : l' ∈ sets i) (hnode : l.node = l'.node) : l = l' :=
  List.inj_on_of_nodup_map (h.each i).nodup hl hl' hnode

theorem eq_of_align (h : LinesOk cfg sets next mshrs) {m m' : Int × Nat} (hm : m ∈ mshrs) (hm' : m' ∈ mshrs)
    (halign : cfg.align m.1 = cfg.align m'.1) : m = m' :=
  List.inj_on_of_nodup_map h.aligned hm hm' halign

theorem keys_nodup (h : LinesOk cfg sets next mshrs) : (mshrs.map (·.1)).Nodup := by
  refine List.Nodup.of_map cfg.align ?_
  rw [List.map_map]
  exact h.aligned

theorem nodup (h : LinesOk cfg sets next mshrs) : mshrs.Nodup := List.Nodup.of_map _ h.aligned

/-- One set changes, and the lines that MSHRs point at stay. -/
theorem update (h : LinesOk cfg sets next mshrs) {i : Int} {set : List Line} {next' : Nat}
    (hnext : next ≤ next') (hset : SetOk cfg mshrs next' i set)
    (hlines : ∀ l ∈ sets i, l.ready = false → ∃ l' ∈ set, l'.node = l.node ∧ l'.addr = l.addr ∧ l'.ready = false) :
    LinesOk cfg (Function.update sets i set) next' mshrs where
  each := by
    intro j
    by_cases hj : j = i
    · subst hj
      rw [Function.update_self]
      exact hset
    · rw [Function.update_of_ne hj]
      exact (h.each j).mono (fun _ hm => hm) hnext
  lines := by
    intro m hm
    obtain ⟨l, hl, hnode, haddr, hwait⟩ := h.lines m hm
    by_cases hj : cfg.getIndex m.1 = i
    · rw [hj] at hl ⊢
      rw [Function.update_self]
      obtain ⟨l', hl', hnode', haddr', hwait'⟩ := hlines l hl hwait
      exact ⟨l', hl', hnode'.trans hnode, haddr'.trans haddr, hwait'⟩
    · rw [Function.update_of_ne hj]
      exact ⟨l, hl, hnode, haddr, hwait⟩
  aligned := h.aligned

/-- What of a set stays when a line that is ready leaves it. -/
theorem mem_filter_of_ready (h : LinesOk cfg sets next mshrs) {i : Int} {victim : Line} (hmem : victim ∈ sets i)
    (hready : victim.ready = true) {l : Line} (hl : l ∈ sets i) (hwait : l.ready = false) :
    l ∈ (sets i).filter (·.node ≠ victim.node) := by
  refine List.mem_filter.mpr ⟨hl, ?_⟩
  have hne : l.node ≠ victim.node := by
    intro heq
    rw [h.eq_of_node hl hmem heq, hready] at hwait
    exact Bool.noConfusion hwait
  simpa using hne

/-- A line that is ready leaves its set. -/
theorem evict (h : LinesOk cfg sets next mshrs) {i : Int} {victim : Line} (hmem : victim ∈ sets i)
    (hready : victim.ready = true) :
    LinesOk cfg (Function.update sets i ((sets i).filter (·.node ≠ victim.node))) next mshrs :=
  h.update le_rfl ((h.each i).sublist List.filter_sublist)
    fun l hl hwait => ⟨l, h.mem_filter_of_ready hmem hready hl hwait, rfl, rfl, hwait⟩

/-- It comes back to it, as the most recently used one. -/
theorem hit (h : LinesOk cfg sets next mshrs) {i : Int} {victim moved : Line} (hmem : victim ∈ sets i)
    (hready : victim.ready = true) (hnode : moved.node = next) (hindex : cfg.getIndex moved.addr = i)
    (hmoved : moved.ready = true) :
    LinesOk cfg (Function.update sets i ((sets i).filter (·.node ≠ victim.node) ++ [moved])) (next + 1) mshrs :=
  h.update (Nat.le_succ next)
    (((h.each i).sublist List.filter_sublist).push hnode hindex fun hwait =>
      absurd (hmoved.symm.trans hwait) Bool.noConfusion)
    fun l hl hwait =>
      ⟨l, List.mem_append_left _ (h.mem_filter_of_ready hmem hready hl hwait), rfl, rfl, hwait⟩

/-- A line is marked. -/
theorem mark (h : LinesOk cfg sets next mshrs) {i : Int} {f : Line → Line} (hnode : ∀ l, (f l).node = l.node)
    (haddr : ∀ l, (f l).addr = l.addr) (hready : ∀ l, (f l).ready = l.ready) :
    LinesOk cfg (Function.update sets i ((sets i).map f)) next mshrs :=
  h.update le_rfl
    ((h.each i).map hnode haddr fun l _ hwait => ⟨(hready l).symm.trans hwait, fun hm => hm⟩)
    fun l hl hwait => ⟨f l, List.mem_map_of_mem hl, hnode l, haddr l, (hready l).trans hwait⟩

/-- A new line comes with its MSHR. -/
theorem miss (h : LinesOk cfg sets next mshrs) (line : Line) (hnode : line.node = next)
    (hwait : line.ready = false) (hnew : ∀ m ∈ mshrs, cfg.align m.1 ≠ cfg.align line.addr) :
    LinesOk cfg (Function.update sets (cfg.getIndex line.addr) (sets (cfg.getIndex line.addr) ++ [line]))
      (next + 1) (mshrs ++ [(line.addr, next)]) where
  each := by
    intro j
    have hmono : SetOk cfg (mshrs ++ [(line.addr, next)]) next j (sets j) :=
      (h.each j).mono (fun _ hm => List.mem_append_left _ hm) (le_refl next)
    by_cases hj : j = cfg.getIndex line.addr
    · subst hj
      rw [Function.update_self]
      refine hmono.push hnode rfl fun _ => ?_
      rw [hnode]
      exact List.mem_append_right _ (List.mem_singleton_self _)
    · rw [Function.update_of_ne hj]
      exact hmono.mono (fun _ hm => hm) (Nat.le_succ next)
  lines := by
    intro m hm
    rcases List.mem_append.mp hm with hm | hm
    · obtain ⟨l, hl, hrest⟩ := h.lines m hm
      refine ⟨l, ?_, hrest⟩
      by_cases hj : cfg.getIndex m.1 = cfg.getIndex line.addr
      · rw [hj] at hl ⊢
        rw [Function.update_self]
        exact List.mem_append_left _ hl
      · rw [Function.update_of_ne hj]
        exact hl
    · obtain rfl := List.mem_singleton.mp hm
      refine ⟨line, ?_, hnode, rfl, hwait⟩
      rw [Function.update_self]
      exact List.mem_append_right _ (List.mem_singleton_self _)
  aligned := by
    rw [List.map_append]
    refine List.nodup_append'.mpr ⟨h.aligned, List.nodup_singleton _, ?_⟩
    intro a ha ha'
    obtain ⟨m, hm, rfl⟩ := List.mem_map.mp ha
    exact hnew m hm (by simpa using ha')

/-- The line of an MSHR has come, and the MSHR is free. -/
theorem fill (h : LinesOk cfg sets next mshrs) {m : Int × Nat} (hm : m ∈ mshrs) :
    LinesOk cfg
      (Function.update sets (cfg.getIndex m.1)
        ((sets (cfg.getIndex m.1)).map fun l => if l.node = m.2 then { l with ready := true } else l))
      next (mshrs.erase m) where
  each := by
    intro j
    by_cases hj : j = cfg.getIndex m.1
    · subst hj
      rw [Function.update_self]
      refine (h.each _).map (fun l => ?_) (fun l => ?_) fun l hl hwait => ?_
      · split_ifs <;> rfl
      · split_ifs <;> rfl
      · split_ifs at hwait with hnode
        refine ⟨hwait, fun hmem => (h.nodup.mem_erase_iff).mpr ⟨fun heq => hnode ?_, hmem⟩⟩
        rw [← heq]
    · rw [Function.update_of_ne hj]
      refine ⟨(h.each j).node_lt, (h.each j).nodup, (h.each j).index, fun l hl hwait => ?_⟩
      refine (h.nodup.mem_erase_iff).mpr ⟨fun heq => hj ?_, (h.each j).waiting l hl hwait⟩
      rw [← heq]
      exact ((h.each j).index l hl).symm
  lines := by
    intro m' hm'
    obtain ⟨hne, hmem⟩ := (h.nodup.mem_erase_iff).mp hm'
    obtain ⟨l, hl, hnode, haddr, hwait⟩ := h.lines m' hmem
    refine ⟨l, ?_, hnode, haddr, hwait⟩
    by_cases hj : cfg.getIndex m'.1 = cfg.getIndex m.1
    · rw [hj] at hl ⊢
      rw [Function.update_self]
      have hother : l.node ≠ m.2 := by
        intro heq
        obtain ⟨l₀, hl₀, hnode₀, haddr₀, -⟩ := h.lines m hm
        have hsame := h.eq_of_node hl hl₀ (heq.trans hnode₀.symm)
        refine hne (Prod.ext ?_ (hnode.symm.trans heq))
        rw [← haddr, hsame, haddr₀]
      exact List.mem_map.mpr ⟨l, hl, if_neg hother⟩
    · rw [Function.update_of_ne hj]
      exact hl
  aligned := (h.aligned).sublist ((List.erase_sublist).map _)

end LinesOk

/-! ## The account of the requests -/

/-- The core that is charged for the MSHR of an address: the source of the first request that waits. -/
def owner (buckets : Int → List Admitted) (addr : Int) : Int :=
  match buckets addr with
  | [] => -1
  | x :: _ => x.req.sourceId

/-- The requests that wait for the lines under way. -/
def waiting (mshrs : List (Int × Nat)) (buckets : Int → List Admitted) : List Admitted :=
  mshrs.flatMap fun m => buckets m.1

/-- Every accepted request is completed, a hit on its way or waiting; every MSHR has one outstanding fill
and is charged to its owner. -/
structure AccountOk (cfg : LLCConfig) (fills : List Req) (hits : List Admitted) (mshrs : List (Int × Nat))
    (buckets : Int → List Admitted) (allocated : Int → Int) (accepted completed : List Admitted) (next : Nat) :
    Prop where
  uids : accepted.map (·.uid) = List.range next
  served : accepted.Perm (completed ++ (hits ++ waiting mshrs buckets))
  keys : (mshrs.map (·.1)).Nodup
  bucket : ∀ a, buckets a ≠ [] ↔ a ∈ mshrs.map (·.1)
  fills : (fills.map fun r => (r.addr, r.sourceId)).Perm (mshrs.map fun m => (m.1, owner buckets m.1))
  allocated : ∀ c, cfg.isCore c = true →
    allocated c = ((mshrs.map fun m => owner buckets m.1).count c : Nat)

/-- The bucket of an MSHR apart from the others. -/
theorem waiting_update {mshrs : List (Int × Nat)} (hkeys : (mshrs.map (·.1)).Nodup) {m : Int × Nat}
    (hm : m ∈ mshrs) (buckets : Int → List Admitted) (bucket : List Admitted) :
    (waiting mshrs (Function.update buckets m.1 bucket)).Perm
      (bucket ++ waiting (mshrs.erase m) buckets) := by
  have hperm : mshrs.Perm (m :: mshrs.erase m) := List.perm_cons_erase hm
  have hrest : ∀ m' ∈ mshrs.erase m, m'.1 ≠ m.1 := by
    intro m' hm' heq
    have hnodup := (hperm.map (·.1)).nodup_iff.mp hkeys
    rw [List.map_cons, List.nodup_cons] at hnodup
    exact hnodup.1 (heq ▸ List.mem_map_of_mem hm')
  refine (hperm.flatMap_right _).trans ?_
  rw [List.flatMap_cons, Function.update_self]
  refine List.Perm.append_left bucket (List.Perm.of_eq ?_)
  exact List.flatMap_congr fun m' hm' => Function.update_of_ne (hrest m' hm') _ _

theorem waiting_perm {mshrs : List (Int × Nat)} (hkeys : (mshrs.map (·.1)).Nodup) {m : Int × Nat}
    (hm : m ∈ mshrs) (buckets : Int → List Admitted) :
    (waiting mshrs buckets).Perm (buckets m.1 ++ waiting (mshrs.erase m) buckets) := by
  have hupdate := waiting_update hkeys hm buckets (buckets m.1)
  rw [Function.update_eq_self] at hupdate
  exact hupdate

theorem owner_update_of_ne {buckets : Int → List Admitted} {a b : Int} (h : b ≠ a) (bucket : List Admitted) :
    owner (Function.update buckets a bucket) b = owner buckets b := by
  unfold owner
  rw [Function.update_of_ne h]

namespace AccountOk

variable {cfg : LLCConfig} {fills fills' : List Req} {hits hits' : List Admitted} {mshrs : List (Int × Nat)}
  {buckets : Int → List Admitted} {allocated : Int → Int} {accepted completed : List Admitted} {next : Nat}

/-- Fills and hits change places. -/
theorem move (h : AccountOk cfg fills hits mshrs buckets allocated accepted completed next)
    (hfills : fills.Perm fills') (hhits : hits.Perm hits') :
    AccountOk cfg fills' hits' mshrs buckets allocated accepted completed next where
  uids := h.uids
  served := h.served.trans ((hhits.append_right _).append_left completed)
  keys := h.keys
  bucket := h.bucket
  fills := (hfills.map _).symm.trans h.fills
  allocated := h.allocated

theorem uids_push (h : AccountOk cfg fills hits mshrs buckets allocated accepted completed next) (req : Req) :
    (accepted ++ [Admitted.mk req next]).map (·.uid) = List.range (next + 1) := by
  rw [List.map_append, h.uids, List.range_succ]
  rfl

/-- A hit is accepted. -/
theorem hit (h : AccountOk cfg fills hits mshrs buckets allocated accepted completed next) (req : Req) :
    AccountOk cfg fills (hits ++ [⟨req, next⟩]) mshrs buckets allocated (accepted ++ [⟨req, next⟩]) completed
      (next + 1) where
  uids := h.uids_push req
  served := by
    refine (h.served.append_right _).trans ?_
    rw [List.append_assoc, List.append_assoc, List.append_assoc]
    exact (List.perm_append_comm.append_left hits).append_left completed
  keys := h.keys
  bucket := h.bucket
  fills := h.fills
  allocated := h.allocated

/-- A miss joins those that wait for a line. -/
theorem merge (h : AccountOk cfg fills hits mshrs buckets allocated accepted completed next) (req : Req)
    {m : Int × Nat} (hm : m ∈ mshrs) :
    AccountOk cfg fills hits mshrs (Function.update buckets m.1 (buckets m.1 ++ [⟨req, next⟩])) allocated
      (accepted ++ [⟨req, next⟩]) completed (next + 1) := by
  have howner : ∀ a, a ∈ mshrs.map (·.1) →
      owner (Function.update buckets m.1 (buckets m.1 ++ [⟨req, next⟩])) a = owner buckets a := by
    intro a ha
    by_cases ham : a = m.1
    · subst ham
      unfold owner
      rw [Function.update_self]
      cases hb : buckets m.1 with
      | nil => exact absurd hb ((h.bucket m.1).mpr ha)
      | cons x rest => rfl
    · exact owner_update_of_ne ham _
  have howners : (mshrs.map fun m' => owner (Function.update buckets m.1 (buckets m.1 ++ [⟨req, next⟩])) m'.1) =
      mshrs.map fun m' => owner buckets m'.1 :=
    List.map_congr_left fun m' hm' => howner m'.1 (List.mem_map_of_mem hm')
  refine ⟨h.uids_push req, ?_, h.keys, fun a => ?_, ?_, fun c hc => ?_⟩
  · refine (h.served.append_right _).trans ?_
    rw [List.append_assoc, List.append_assoc]
    refine ((((waiting_perm h.keys hm buckets).append_right _).trans ?_).append_left hits).append_left completed
    refine List.Perm.trans ?_ (waiting_update h.keys hm buckets _).symm
    rw [List.append_assoc, List.append_assoc]
    exact List.perm_append_comm.append_left _
  · by_cases ham : a = m.1
    · subst ham
      rw [Function.update_self]
      exact ⟨fun _ => List.mem_map_of_mem hm, fun _ => by simp⟩
    · rw [Function.update_of_ne ham]
      exact h.bucket a
  · have hpairs : (mshrs.map fun m' =>
        (m'.1, owner (Function.update buckets m.1 (buckets m.1 ++ [⟨req, next⟩])) m'.1)) =
        mshrs.map fun m' => (m'.1, owner buckets m'.1) :=
      List.map_congr_left fun m' hm' => by rw [howner m'.1 (List.mem_map_of_mem hm')]
    rw [hpairs]
    exact h.fills
  · rw [howners]
    exact h.allocated c hc

/-- A miss gets an MSHR, sends its fill and owns the bucket. -/
theorem miss (h : AccountOk cfg fills hits mshrs buckets allocated accepted completed next) (req fill : Req)
    (haddr : fill.addr = req.addr) (hsource : fill.sourceId = req.sourceId) (node : Nat)
    (hnew : req.addr ∉ mshrs.map (·.1)) {allocated' : Int → Int}
    (hcharge : ∀ c, cfg.isCore c = true →
      allocated' c = allocated c + if c = req.sourceId then 1 else 0) :
    AccountOk cfg (fills ++ [fill]) hits (mshrs ++ [(req.addr, node)])
      (Function.update buckets req.addr [⟨req, next⟩]) allocated' (accepted ++ [⟨req, next⟩]) completed
      (next + 1) := by
  -- the line is new, so the other buckets and their owners are as before
  have hne : ∀ m ∈ mshrs, m.1 ≠ req.addr := fun m hm heq => hnew (heq ▸ List.mem_map_of_mem hm)
  have howner : owner (Function.update buckets req.addr [⟨req, next⟩]) req.addr = req.sourceId := by
    unfold owner
    rw [Function.update_self]
  have howners : (mshrs.map fun m => owner (Function.update buckets req.addr [⟨req, next⟩]) m.1) =
      mshrs.map fun m => owner buckets m.1 :=
    List.map_congr_left fun m hm => owner_update_of_ne (hne m hm) _
  have hpairs : (mshrs.map fun m => (m.1, owner (Function.update buckets req.addr [⟨req, next⟩]) m.1)) =
      mshrs.map fun m => (m.1, owner buckets m.1) :=
    List.map_congr_left fun m hm => by rw [owner_update_of_ne (hne m hm)]
  have hwaiting : waiting (mshrs ++ [(req.addr, node)]) (Function.update buckets req.addr [⟨req, next⟩]) =
      waiting mshrs buckets ++ [⟨req, next⟩] := by
    unfold waiting
    rw [List.flatMap_append, List.flatMap_singleton, Function.update_self]
    congr 1
    exact List.flatMap_congr fun m hm => Function.update_of_ne (hne m hm) _ _
  refine ⟨h.uids_push req, ?_, ?_, fun a => ?_, ?_, fun c hc => ?_⟩
  · rw [hwaiting, ← List.append_assoc, ← List.append_assoc]
    refine (h.served.append_right _).trans (List.Perm.of_eq ?_)
    rw [List.append_assoc, List.append_assoc, List.append_assoc, List.append_assoc]
  · rw [List.map_append]
    refine List.nodup_append'.mpr ⟨h.keys, List.nodup_singleton _, fun a ha ha' => hnew ?_⟩
    obtain rfl : a = req.addr := by simpa using ha'
    exact ha
  · rw [List.map_append, List.mem_append]
    by_cases ha : a = req.addr
    · subst ha
      rw [Function.update_self]
      exact ⟨fun _ => .inr (List.mem_singleton_self _), fun _ => List.cons_ne_nil _ _⟩
    · rw [Function.update_of_ne ha, h.bucket a]
      exact ⟨.inl, fun hmem => hmem.resolve_right fun hlast => ha (by simpa using hlast)⟩
  · rw [List.map_append, List.map_append, hpairs, List.map_singleton, List.map_singleton, howner, haddr, hsource]
    exact h.fills.append_right _
  · rw [List.map_append, howners, List.map_singleton, howner, List.count_append, hcharge c hc, h.allocated c hc,
      List.count_singleton, Nat.cast_add]
    by_cases hsame : c = req.sourceId
    · simp [hsame]
    · simp [hsame, Ne.symm hsame]

/-- An outstanding fill has an MSHR, whose owner it is charged to. -/
theorem mshr_of_fill (h : AccountOk cfg (fill :: fills) hits mshrs buckets allocated accepted completed next) :
    ∃ m ∈ mshrs, m.1 = fill.addr ∧ owner buckets m.1 = fill.sourceId := by
  have hmem : (fill.addr, fill.sourceId) ∈ mshrs.map fun m => (m.1, owner buckets m.1) :=
    h.fills.mem_iff.mp (List.mem_cons_self)
  obtain ⟨m, hm, heq⟩ := List.mem_map.mp hmem
  exact ⟨m, hm, congrArg Prod.fst heq, congrArg Prod.snd heq⟩

theorem owners_perm {m : Int × Nat} (hm : m ∈ mshrs) (buckets : Int → List Admitted) :
    (mshrs.map fun m' => owner buckets m'.1).Perm
      (owner buckets m.1 :: (mshrs.erase m).map fun m' => owner buckets m'.1) :=
  (List.perm_cons_erase hm).map fun m' => owner buckets m'.1

/-- A fill comes back: its MSHR is free, and all that waited is completed. -/
theorem receive {fill : Req} (h : AccountOk cfg (fill :: fills) hits mshrs buckets allocated accepted completed next)
    {m : Int × Nat} (hm : m ∈ mshrs) (haddr : m.1 = fill.addr) (allocated' : Int → Int)
    (hrefund : ∀ c, cfg.isCore c = true →
      allocated' c = allocated c - if c = fill.sourceId ∧ 0 < allocated c then 1 else 0) :
    AccountOk cfg fills hits (mshrs.erase m) (Function.update buckets m.1 []) allocated' accepted
      (completed ++ buckets m.1) next := by
  have hperm : mshrs.Perm (m :: mshrs.erase m) := List.perm_cons_erase hm
  -- no other MSHR has the line, so the other buckets and their owners are as before
  have hrest : ∀ m' ∈ mshrs.erase m, m'.1 ≠ m.1 := by
    intro m' hm' heq
    have hnodup := (hperm.map (·.1)).nodup_iff.mp h.keys
    rw [List.map_cons, List.nodup_cons] at hnodup
    exact hnodup.1 (heq ▸ List.mem_map_of_mem hm')
  -- the fill is charged to the owner of its bucket, and is so refunded to it
  have howner : owner buckets m.1 = fill.sourceId := by
    obtain ⟨m', -, haddr', hsource⟩ := h.mshr_of_fill
    rw [haddr, ← haddr', hsource]
  have howners : ((mshrs.erase m).map fun m' => owner (Function.update buckets m.1 []) m'.1) =
      (mshrs.erase m).map fun m' => owner buckets m'.1 :=
    List.map_congr_left fun m' hm' => owner_update_of_ne (hrest m' hm') _
  have hpairs : ((mshrs.erase m).map fun m' => (m'.1, owner (Function.update buckets m.1 []) m'.1)) =
      (mshrs.erase m).map fun m' => (m'.1, owner buckets m'.1) :=
    List.map_congr_left fun m' hm' => by rw [owner_update_of_ne (hrest m' hm')]
  have hwaiting : waiting (mshrs.erase m) (Function.update buckets m.1 []) = waiting (mshrs.erase m) buckets :=
    List.flatMap_congr fun m' hm' => Function.update_of_ne (hrest m' hm') _ _
  refine ⟨h.uids, ?_, (h.keys).sublist ((List.erase_sublist).map _), fun a => ?_, ?_, fun c hc => ?_⟩
  · rw [hwaiting]
    refine h.served.trans ?_
    rw [List.append_assoc]
    refine List.Perm.append_left completed ?_
    refine ((waiting_perm h.keys hm buckets).append_left hits).trans ?_
    rw [← List.append_assoc, ← List.append_assoc]
    exact List.perm_append_comm.append_right _
  · have hkeys : a ∈ mshrs.map (·.1) ↔ a = m.1 ∨ a ∈ (mshrs.erase m).map (·.1) := by
      rw [(hperm.map (·.1)).mem_iff, List.map_cons, List.mem_cons]
    by_cases ha : a = m.1
    · subst ha
      rw [Function.update_self]
      refine ⟨fun hne => absurd rfl hne, fun hmem => ?_⟩
      obtain ⟨m', hm', heq⟩ := List.mem_map.mp hmem
      exact absurd heq (hrest m' hm')
    · rw [Function.update_of_ne ha, h.bucket a, hkeys]
      exact ⟨fun hor => hor.resolve_left ha, .inr⟩
  · rw [hpairs]
    have hboth := h.fills.trans (hperm.map fun m' => (m'.1, owner buckets m'.1))
    rw [List.map_cons, List.map_cons, howner, haddr] at hboth
    exact (List.perm_cons _).mp hboth
  · rw [howners, hrefund c hc]
    have hcount := h.allocated c hc
    rw [(owners_perm hm buckets).count_eq, howner, List.count_cons] at hcount
    by_cases hsame : c = fill.sourceId
    · subst hsame
      rw [hcount]
      simp
    · have hne : ¬ fill.sourceId = c := fun heq => hsame heq.symm
      rw [hcount]
      simp [hsame, hne]

/-- A hit on its way arrives. -/
theorem done {x : Admitted}
    (h : AccountOk cfg fills (x :: hits) mshrs buckets allocated accepted completed next) :
    AccountOk cfg fills hits mshrs buckets allocated accepted (completed ++ [x]) next where
  uids := h.uids
  served := by
    refine h.served.trans ?_
    rw [List.append_assoc]
    rfl
  keys := h.keys
  bucket := h.bucket
  fills := h.fills
  allocated := h.allocated

end AccountOk

/-! ## The invariant -/

/-- The requests that are owed a callback. -/
def fillsIn (l : List Req) : List Req := l.filter (·.callback.isSome)

namespace LLC

variable {cfg : LLCConfig} {misses : List Req} {hits : List Admitted} {s s' : LLC}

/-- Both accounts. `misses` and `hits` have been taken out of their lists and are in transit. -/
structure Inv (cfg : LLCConfig) (misses : List Req) (hits : List Admitted) (s : LLC) : Prop where
  lines : LinesOk cfg s.cacheSets s.nextNode s.mshrs
  account : AccountOk cfg (fillsIn (misses ++ (s.missList.map (·.2) ++ s.memory))) (hits ++ s.hitList.map (·.2))
    s.mshrs s.receiveRequests s.allocatedMshrs s.accepted s.completed s.nextUid
  owed : ∀ req ∈ s.memory, req.callback.isSome = true

theorem inv_init (cfg : LLCConfig) : Inv cfg [] [] {} where
  lines := ⟨fun _ => ⟨by simp, by simp, by simp, by simp⟩, by simp, by simp⟩
  account := ⟨rfl, by simp [waiting], by simp, by simp, by simp [fillsIn], by simp⟩
  owed := by simp

/-- What is in transit changes places. -/
theorem Inv.move {misses' : List Req} {hits' : List Admitted} {s' : LLC} (h : Inv cfg misses hits s)
    (hsame : s' = { s with missList := s'.missList, hitList := s'.hitList, memory := s'.memory })
    (hmisses : (fillsIn (misses ++ (s.missList.map (·.2) ++ s.memory))).Perm
      (fillsIn (misses' ++ (s'.missList.map (·.2) ++ s'.memory))))
    (hhits : (hits ++ s.hitList.map (·.2)).Perm (hits' ++ s'.hitList.map (·.2)))
    (howed : ∀ req ∈ s'.memory, req.callback.isSome = true) : Inv cfg misses' hits' s' := by
  rw [hsame]
  exact ⟨h.lines, h.account.move hmisses hhits, howed⟩

theorem fillsIn_append (l l' : List Req) : fillsIn (l ++ l') = fillsIn l ++ fillsIn l' := List.filter_append ..

/-- A request without callback is no fill. -/
theorem fillsIn_singleton_of_none {req : Req} (h : req.callback.isSome = false) : fillsIn [req] = [] := by
  simp [fillsIn, h]

theorem fillsIn_cons_of_none {req : Req} (h : ¬ req.callback.isSome = true) (l : List Req) :
    fillsIn (req :: l) = fillsIn l := List.filter_cons_of_neg h

theorem fillsIn_cons_of_some {req : Req} (h : req.callback.isSome = true) (l : List Req) :
    fillsIn (req :: l) = req :: fillsIn l := List.filter_cons_of_pos h

/-! ## Evictions and flushes -/

theorem Inv.evictLine (h : Inv cfg misses hits s) {i : Int} {victim : Line} (hmem : victim ∈ s.cacheSets i)
    (hready : victim.ready = true) : Inv cfg misses hits (s.evictLine cfg i victim) := by
  have hlines := h.lines.evict hmem hready
  unfold LLC.evictLine setCacheSet
  dsimp only
  split_ifs
  · refine ⟨hlines, ?_, h.owed⟩
    dsimp only
    rw [List.map_append, List.append_assoc, fillsIn_append, fillsIn_append, fillsIn_append, List.map_singleton,
      fillsIn_singleton_of_none rfl, List.nil_append, ← fillsIn_append, ← fillsIn_append]
    exact h.account
  · exact ⟨hlines, h.account, h.owed⟩

theorem nextNode_evictLine (cfg : LLCConfig) (i : Int) (victim : Line) (s : LLC) :
    (s.evictLine cfg i victim).nextNode = s.nextNode ∧ (s.evictLine cfg i victim).mshrs = s.mshrs := by
  unfold LLC.evictLine setCacheSet
  dsimp only
  split_ifs <;> exact ⟨rfl, rfl⟩

/-- Whatever goes to make room, the rest is as it was, and the new line is pushed. -/
theorem allocateLine_spec {addr : Int} {dirty : Bool} (h : Inv cfg misses hits s)
    (halloc : s.allocateLine cfg addr dirty = some s') :
    ∃ t, Inv cfg misses hits t ∧ t.nextNode = s.nextNode ∧ t.mshrs = s.mshrs ∧
      s' = t.pushLine cfg addr dirty := by
  unfold allocateLine at halloc
  split_ifs at halloc
  · split at halloc
    · cases halloc
    · rename_i victim hfind
      obtain rfl := Option.some.inj halloc
      have hmem := List.mem_of_find?_eq_some hfind
      have hready : victim.ready = true := List.find?_some hfind
      obtain ⟨hnext, hmshrs⟩ := nextNode_evictLine cfg (cfg.getIndex addr) victim s
      exact ⟨_, h.evictLine hmem hready, hnext, hmshrs, rfl⟩
  · exact ⟨s, h, rfl, rfl, (Option.some.inj halloc).symm⟩

/-! ## `send` -/

theorem mshrs_of_checkMshrHit_none {addr : Int} (h : s.checkMshrHit cfg addr = none) :
    ∀ m ∈ s.mshrs, cfg.align m.1 ≠ cfg.align addr := by
  intro m hm
  simpa using List.find?_eq_none.mp h m hm

theorem mshr_of_checkMshrHit {addr : Int} {m : Int × Nat} (h : s.checkMshrHit cfg addr = some m) :
    m ∈ s.mshrs ∧ cfg.align m.1 = cfg.align addr :=
  ⟨List.mem_of_find?_eq_some h, by simpa using List.find?_some h⟩

theorem line_of_checkSetHit {addr : Int} {line : Line} (h : s.checkSetHit cfg addr = some line) :
    line ∈ s.cacheSets (cfg.getIndex addr) ∧ line.ready = true := by
  obtain ⟨hfind, hready⟩ := Option.filter_eq_some_iff.mp h
  exact ⟨List.mem_of_find?_eq_some hfind, hready⟩

theorem Inv.sendHit (h : Inv cfg [] [] s) (req : Req) {line : Line}
    (hline : s.checkSetHit cfg req.addr = some line) : Inv cfg [] [] (s.sendHit cfg req line) := by
  obtain ⟨hmem, hready⟩ := line_of_checkSetHit hline
  refine ⟨h.lines.hit hmem hready rfl rfl rfl, ?_, h.owed⟩
  have haccount := h.account.hit req
  rw [List.nil_append] at haccount
  show AccountOk cfg _ ([] ++ (s.hitList ++ [(s.clk + cfg.latency, Admitted.mk req s.nextUid)]).map (·.2)) _ _ _ _ _ _
  rw [List.map_append]
  exact haccount

theorem Inv.sendMerge (h : Inv cfg [] [] s) (req : Req) {m : Int × Nat}
    (hm : s.checkMshrHit cfg req.addr = some m) : Inv cfg [] [] (s.sendMerge cfg req m) := by
  obtain ⟨hmem, -⟩ := mshr_of_checkMshrHit hm
  refine ⟨h.lines.mark (fun l => ?_) (fun l => ?_) (fun l => ?_), h.account.merge (fillOf req) hmem, h.owed⟩
  · split_ifs <;> rfl
  · split_ifs <;> rfl
  · split_ifs <;> rfl

theorem fillOf_addr (req : Req) : (fillOf req).addr = req.addr := by
  unfold fillOf
  split_ifs <;> rfl

theorem fillOf_sourceId (req : Req) : (fillOf req).sourceId = req.sourceId := by
  unfold fillOf
  split_ifs <;> rfl

theorem fillOf_callback (req : Req) : (fillOf req).callback = req.callback := by
  unfold fillOf
  split_ifs <;> rfl

/-- What `charge` changes. -/
theorem charge_eq (source : Int) (s : LLC) :
    s.charge cfg source = { s with allocatedMshrs := (s.charge cfg source).allocatedMshrs } := by
  unfold charge
  split_ifs <;> rfl

theorem allocatedMshrs_charge (source : Int) (s : LLC) {c : Int} (hc : cfg.isCore c = true) :
    (s.charge cfg source).allocatedMshrs c = s.allocatedMshrs c + if c = source then 1 else 0 := by
  unfold charge
  by_cases hsame : c = source
  · subst hsame
    rw [if_pos hc, if_pos rfl]
    exact Function.update_self ..
  · rw [if_neg hsame, Int.add_zero]
    split_ifs
    · exact Function.update_of_ne hsame ..
    · rfl

theorem Inv.sendMiss (h : Inv cfg [] [] s) (req : Req) (hcallback : req.callback.isSome = true)
    (hnew : s.checkMshrHit cfg req.addr = none) (hs : s.sendMiss cfg req = .ok s') : Inv cfg [] [] s' := by
  unfold LLC.sendMiss at hs
  split at hs
  · cases hs
  · rename_i t₀ halloc
    obtain ⟨t, ht, hnext, hmshrs, rfl⟩ := allocateLine_spec h halloc
    obtain rfl := Except.ok.inj hs
    -- allocating a line keeps the MSHRs, none of which has the line of the request
    have hother : ∀ m ∈ t.mshrs, cfg.align m.1 ≠ cfg.align req.addr := by
      rw [hmshrs]
      exact mshrs_of_checkMshrHit_none hnew
    have hkey : (fillOf req).addr ∉ t.mshrs.map (·.1) := by
      rw [fillOf_addr]
      intro hmem
      obtain ⟨m, hm, heq⟩ := List.mem_map.mp hmem
      exact hother m hm (congrArg cfg.align heq)
    have hlines := ht.lines.miss ⟨t.nextNode, req.addr, cfg.getTag req.addr,
      decide (req.typeId = Request.write), false⟩ rfl rfl hother
    have hcharge : ∀ u : LLC, u.allocatedMshrs = t.allocatedMshrs → ∀ c, cfg.isCore c = true →
        (u.charge cfg req.sourceId).allocatedMshrs c =
          t.allocatedMshrs c + if c = (fillOf req).sourceId then 1 else 0 := by
      intro u hu c hc
      rw [allocatedMshrs_charge _ _ hc, hu, fillOf_sourceId]
    have haccount := ht.account.miss (fillOf req) { fillOf req with sizeBytes := cfg.linesizeBytes } rfl rfl
      s.nextNode hkey (hcharge
        { t.pushLine cfg req.addr (req.typeId = Request.write) with
          mshrs := t.mshrs ++ [(req.addr, s.nextNode)]
          receiveRequests := Function.update t.receiveRequests req.addr [⟨fillOf req, t.nextUid⟩]
          missList := t.missList ++
            [(t.clk + cfg.latency, { fillOf req with sizeBytes := cfg.linesizeBytes })] } rfl)
    rw [fillOf_addr] at haccount
    rw [charge_eq]
    refine ⟨hnext ▸ hlines, haccount.move ?_ (List.Perm.refl _), ht.owed⟩
    show (fillsIn ([] ++ (t.missList.map (fun x : Int × Req => x.2) ++ t.memory)) ++
        [{ fillOf req with sizeBytes := cfg.linesizeBytes }]).Perm
      (fillsIn ([] ++ ((t.missList ++ [(t.clk + cfg.latency,
        { fillOf req with sizeBytes := cfg.linesizeBytes })]).map (fun x : Int × Req => x.2) ++ t.memory)))
    have hfill : ({ fillOf req with sizeBytes := cfg.linesizeBytes } : Req).callback.isSome = true := by
      show (fillOf req).callback.isSome = true
      rw [fillOf_callback]
      exact hcallback
    rw [List.nil_append, List.nil_append, List.map_append, List.append_assoc, fillsIn_append, fillsIn_append,
      fillsIn_append, List.map_singleton, fillsIn_cons_of_some hfill, List.append_assoc]
    exact List.perm_append_comm.append_left _

theorem inv_count (h : Inv cfg misses hits s) (req : Req) :
    Inv cfg misses hits (s.countAccess req) ∧ Inv cfg misses hits (s.countMiss req) := by
  unfold countAccess countMiss
  constructor <;> split_ifs <;> exact ⟨h.lines, h.account, h.owed⟩

theorem Inv.send (h : Inv cfg [] [] s) (req : Req) (hcallback : req.callback.isSome = true) {b : Bool}
    (hs : s.send cfg req = .ok (b, s')) : Inv cfg [] [] s' := by
  have hmissed := (inv_count (inv_count h req).1 req).2
  unfold LLC.send at hs
  dsimp only at hs
  split at hs
  · rename_i line hline
    obtain ⟨-, rfl⟩ := Prod.mk.inj (Except.ok.inj hs)
    exact (inv_count h req).1.sendHit req hline
  · split at hs
    · rename_i m hm
      obtain ⟨-, rfl⟩ := Prod.mk.inj (Except.ok.inj hs)
      exact hmissed.sendMerge req hm
    · rename_i hnew
      split_ifs at hs
      · obtain ⟨-, rfl⟩ := Prod.mk.inj (Except.ok.inj hs)
        exact ⟨hmissed.lines, hmissed.account, hmissed.owed⟩
      · obtain ⟨-, rfl⟩ := Prod.mk.inj (Except.ok.inj hs)
        exact ⟨hmissed.lines, hmissed.account, hmissed.owed⟩
      · obtain ⟨-, rfl⟩ := Prod.mk.inj (Except.ok.inj hs)
        exact hmissed
      · obtain ⟨t, ht, heq⟩ := except_map_eq_ok.mp hs
        obtain ⟨-, rfl⟩ := Prod.mk.inj heq
        exact hmissed.sendMiss req hcallback hnew ht

/-! ## Completions -/

/-- The MSHRs that are left have lines other than that of the request. -/
theorem mshrs_receive (hnodup : (s.mshrs.map fun m => cfg.align m.1).Nodup) (req : Req) :
    ∀ m ∈ (s.receive cfg req).mshrs, m ∈ s.mshrs ∧ cfg.align m.1 ≠ cfg.align req.addr := by
  intro m hm
  unfold LLC.receive at hm
  split at hm
  · rename_i hnone
    exact ⟨hm, mshrs_of_checkMshrHit_none hnone m hm⟩
  · rename_i m₀ hfind
    obtain ⟨hm₀, halign⟩ := mshr_of_checkMshrHit hfind
    have herase : m ∈ s.mshrs.erase m₀ := by
      dsimp only at hm
      split_ifs at hm <;> exact hm
    obtain ⟨hne, hmem⟩ := ((List.Nodup.of_map _ hnodup).mem_erase_iff).mp herase
    refine ⟨hmem, fun heq => hne ?_⟩
    exact List.inj_on_of_nodup_map hnodup hmem hm₀ (heq.trans halign.symm)

/-- A fill comes back. -/
theorem Inv.frontendReceive {req : Req} (h : Inv cfg (req :: misses) hits s)
    (hcallback : req.callback.isSome = true) (arrive depart : Int) :
    Inv cfg misses hits (s.frontendReceive cfg { req with arrive := arrive, depart := depart }) := by
  have haccount := h.account
  rw [List.cons_append, fillsIn_cons_of_some hcallback] at haccount
  obtain ⟨m, hm, haddr, -⟩ := haccount.mshr_of_fill
  -- the MSHR that is found is the one that sent for the line
  have hfind : s.checkMshrHit cfg req.addr = some m := by
    cases hcheck : s.checkMshrHit cfg req.addr with
    | none => exact absurd (congrArg cfg.align haddr) (mshrs_of_checkMshrHit_none hcheck m hm)
    | some m' =>
        obtain ⟨hm', halign⟩ := mshr_of_checkMshrHit hcheck
        rw [h.lines.eq_of_align hm' hm (halign.trans (congrArg cfg.align haddr.symm))]
  have hlines := h.lines.fill hm
  have hreceive := haccount.receive hm haddr
    (if cfg.isCore req.sourceId && 0 < s.allocatedMshrs req.sourceId then
      Function.update s.allocatedMshrs req.sourceId (s.allocatedMshrs req.sourceId - 1) else s.allocatedMshrs)
    (by
      intro c hc
      by_cases hsame : c = req.sourceId
      · subst hsame
        by_cases hpos : 0 < s.allocatedMshrs req.sourceId
        · simp [hc, hpos]
        · simp [hpos]
      · have hno : (if c = req.sourceId ∧ 0 < s.allocatedMshrs c then (1 : Int) else 0) = 0 :=
          if_neg fun hand => hsame hand.1
        rw [hno, Int.sub_zero]
        split_ifs
        · exact Function.update_of_ne hsame ..
        · rfl)
  rw [haddr] at hreceive hlines
  unfold LLC.frontendReceive LLC.receive
  dsimp only
  rw [hfind]
  dsimp only
  rw [haddr]
  split_ifs with hrefund
  · have hpos : (cfg.isCore req.sourceId && decide (0 < s.allocatedMshrs req.sourceId)) = true := hrefund
    rw [if_pos hpos] at hreceive
    exact ⟨hlines, hreceive, h.owed⟩
  · have hnot : ¬ (cfg.isCore req.sourceId && decide (0 < s.allocatedMshrs req.sourceId)) = true := hrefund
    rw [if_neg hnot] at hreceive
    exact ⟨hlines, hreceive, h.owed⟩

/-- Where its line is not under way, the completion of a hit touches none of the accounts. -/
theorem completeHit_eq {hit : Admitted} (hbucket : s.receiveRequests hit.req.addr = [])
    (hother : ∀ m ∈ s.mshrs, cfg.align m.1 ≠ cfg.align hit.req.addr) :
    s.completeHit cfg hit = { s with completed := s.completed ++ [hit] } := by
  have hfind : s.checkMshrHit cfg hit.req.addr = none := by
    refine List.find?_eq_none.mpr fun m hm => ?_
    simpa using hother m hm
  unfold completeHit LLC.frontendReceive LLC.receive
  have hfind' : ({ s with receiveRequests := Function.update s.receiveRequests hit.req.addr [hit] } :
      LLC).checkMshrHit cfg hit.req.addr = none := hfind
  rw [hfind']
  dsimp only
  rw [Function.update_self, Function.update_idem, ← hbucket, Function.update_eq_self]

/-! ## Ticks -/

/-- The other lists and the clock are not a completion's business. -/
theorem frontendReceive_frame (cfg : LLCConfig) (req : Req) (s : LLC) :
    (s.frontendReceive cfg req).clk = s.clk ∧ (s.frontendReceive cfg req).hitList = s.hitList ∧
      (s.frontendReceive cfg req).mshrs = (s.receive cfg req).mshrs := by
  unfold LLC.frontendReceive LLC.receive
  split
  · exact ⟨rfl, rfl, rfl⟩
  · dsimp only
    split_ifs <;> exact ⟨rfl, rfl, rfl⟩

/-- A miss stays in the list. -/
theorem Inv.keepMiss {due : Int} {req : Req} (h : Inv cfg (req :: misses) hits s) :
    Inv cfg misses hits { s with missList := s.missList ++ [(due, req)] } := by
  refine h.move rfl (List.Perm.filter _ ?_) (List.Perm.refl _) h.owed
  dsimp only
  rw [List.map_append, List.append_assoc, List.map_singleton, List.cons_append, ← List.append_assoc,
    ← List.append_assoc, List.singleton_append]
  exact List.perm_middle.symm

/-- Memory takes a miss. -/
theorem Inv.takeMiss {req : Req} (h : Inv cfg (req :: misses) hits s) : Inv cfg misses hits (s.takeMiss req) := by
  unfold LLC.takeMiss
  split_ifs with hcallback
  · refine h.move rfl (List.Perm.filter _ ?_) (List.Perm.refl _) fun r hr => ?_
    · dsimp only
      rw [List.cons_append, ← List.append_assoc, ← List.append_assoc, ← List.append_assoc]
      exact (List.perm_append_singleton req _).symm
    · rcases List.mem_append.mp hr with hr | hr
      · exact h.owed r hr
      · rw [List.mem_singleton.mp hr]
        exact hcallback
  · refine h.move rfl (List.Perm.of_eq ?_) (List.Perm.refl _) h.owed
    exact fillsIn_cons_of_none hcallback _

/-- Memory takes a miss and calls it back. -/
theorem Inv.serveMiss {req : Req} (h : Inv cfg (req :: misses) hits s) (arrive depart : Int) :
    Inv cfg misses hits (s.serveMiss cfg req arrive depart) := by
  unfold LLC.serveMiss
  split_ifs with hcallback
  · exact h.frontendReceive hcallback arrive depart
  · refine h.move rfl (List.Perm.of_eq ?_) (List.Perm.refl _) h.owed
    exact fillsIn_cons_of_none hcallback _

/-- The place of a miss that memory serves at once, in the loop from `i` on. -/
def ServedAt (cfg : LLCConfig) (decisions : Nat → Decision) (i : Nat) (misses : List (Int × Req)) (clk : Int)
    (m : Int × Nat) : Prop :=
  ∃ (j : Nat) (due : Int) (req : Req) (arrive depart : Int), misses[j]? = some (due, req) ∧ due ≤ clk ∧
    decisions (i + j) = .acceptNow arrive depart ∧ req.callback.isSome = true ∧
      cfg.align req.addr = cfg.align m.1

/-- The first miss is not served, or not of the line of the MSHR. -/
theorem ServedAt.tail {decisions : Nat → Decision} {i : Nat} {due clk : Int} {req : Req}
    {rest : List (Int × Req)} {m : Int × Nat} (h : ServedAt cfg decisions i ((due, req) :: rest) clk m)
    (hfirst : ∀ arrive depart, due ≤ clk → decisions i = .acceptNow arrive depart →
      req.callback.isSome = true → cfg.align req.addr ≠ cfg.align m.1) :
    ServedAt cfg decisions (i + 1) rest clk m := by
  obtain ⟨j, due', req', arrive, depart, hget, hdue, hdecision, hcallback, halign⟩ := h
  cases j with
  | zero =>
      obtain ⟨rfl, rfl⟩ := Prod.mk.inj (Option.some.inj hget)
      exact absurd halign (hfirst arrive depart hdue hdecision hcallback)
  | succ j =>
      refine ⟨j, due', req', arrive, depart, hget, hdue, ?_, hcallback, halign⟩
      rw [Nat.add_right_comm]
      exact hdecision

theorem sendMisses_spec (decisions : Nat → Decision) (i : Nat) (rest : List (Int × Req))
    (h : Inv cfg (rest.map (·.2)) hits s) :
    Inv cfg [] hits (sendMisses cfg decisions i rest s) ∧
      (sendMisses cfg decisions i rest s).clk = s.clk ∧
      (sendMisses cfg decisions i rest s).hitList = s.hitList ∧
      ∀ m ∈ (sendMisses cfg decisions i rest s).mshrs, m ∈ s.mshrs ∧ ¬ ServedAt cfg decisions i rest s.clk m := by
  induction rest generalizing i s with
  | nil =>
      refine ⟨h, rfl, rfl, fun m hm => ⟨hm, ?_⟩⟩
      rintro ⟨j, due, req, arrive, depart, hget, -⟩
      cases hget
  | cons x rest ih =>
      obtain ⟨due, req⟩ := x
      -- what is left to show of a step that keeps the MSHRs
      have hstep : ∀ t : LLC, Inv cfg (rest.map (·.2)) hits t → t.clk = s.clk → t.hitList = s.hitList →
          (∀ m ∈ t.mshrs, m ∈ s.mshrs ∧ ∀ arrive depart, due ≤ s.clk → decisions i = .acceptNow arrive depart →
            req.callback.isSome = true → cfg.align req.addr ≠ cfg.align m.1) →
          Inv cfg [] hits (sendMisses cfg decisions (i + 1) rest t) ∧
            (sendMisses cfg decisions (i + 1) rest t).clk = s.clk ∧
            (sendMisses cfg decisions (i + 1) rest t).hitList = s.hitList ∧
            ∀ m ∈ (sendMisses cfg decisions (i + 1) rest t).mshrs,
              m ∈ s.mshrs ∧ ¬ ServedAt cfg decisions i ((due, req) :: rest) s.clk m := by
        intro t ht hclk hhits hmshrs
        obtain ⟨hinv, hclk', hhits', hleft⟩ := ih (i + 1) ht
        refine ⟨hinv, hclk'.trans hclk, hhits'.trans hhits, fun m hm => ?_⟩
        obtain ⟨hmem, hnot⟩ := hleft m hm
        obtain ⟨hmem', hfirst⟩ := hmshrs m hmem
        refine ⟨hmem', fun hserved => hnot ?_⟩
        rw [hclk]
        exact hserved.tail hfirst
      unfold sendMisses
      by_cases hdue : due ≤ s.clk
      · rw [if_pos hdue]
        cases hdecision : decisions i with
        | reject =>
            exact hstep _ h.keepMiss rfl rfl fun m hm =>
              ⟨hm, fun _ _ _ heq => Decision.noConfusion (hdecision.symm.trans heq)⟩
        | accept =>
            have hframe : (s.takeMiss req).clk = s.clk ∧ (s.takeMiss req).hitList = s.hitList ∧
                (s.takeMiss req).mshrs = s.mshrs := by
              unfold LLC.takeMiss
              split_ifs <;> exact ⟨rfl, rfl, rfl⟩
            obtain ⟨hclk, hhits, hmshrs⟩ := hframe
            exact hstep _ h.takeMiss hclk hhits fun m hm =>
              ⟨hmshrs ▸ hm, fun _ _ _ heq => Decision.noConfusion (hdecision.symm.trans heq)⟩
        | acceptNow arrive depart =>
            have hinv := h.serveMiss arrive depart
            have hserved : (s.serveMiss cfg req arrive depart).clk = s.clk ∧
                (s.serveMiss cfg req arrive depart).hitList = s.hitList ∧
                ∀ m ∈ (s.serveMiss cfg req arrive depart).mshrs, m ∈ s.mshrs ∧
                  (req.callback.isSome = true → cfg.align req.addr ≠ cfg.align m.1) := by
              unfold LLC.serveMiss
              split_ifs with hcallback
              · obtain ⟨hclk, hhits, hmshrs⟩ :=
                  frontendReceive_frame cfg { req with arrive := arrive, depart := depart } s
                refine ⟨hclk, hhits, fun m hm => ?_⟩
                rw [hmshrs] at hm
                obtain ⟨hmem, halign⟩ := mshrs_receive h.lines.aligned _ m hm
                exact ⟨hmem, fun _ heq => halign heq.symm⟩
              · exact ⟨rfl, rfl, fun m hm => ⟨hm, fun hsome => absurd hsome hcallback⟩⟩
            obtain ⟨hclk, hhits, hmshrs⟩ := hserved
            refine hstep _ hinv hclk hhits fun m hm => ?_
            obtain ⟨hmem, hother⟩ := hmshrs m hm
            exact ⟨hmem, fun _ _ _ _ => hother⟩
      · rw [if_neg hdue]
        exact hstep _ h.keepMiss rfl rfl fun m hm => ⟨hm, fun _ _ hdue' => absurd hdue' hdue⟩

/-- The hits whose lines are not under way are completed, and nothing else changes. -/
theorem finishHits_spec (rest : List (Int × Admitted)) (h : Inv cfg [] (rest.map (·.2)) s)
    (hclear : ∀ x ∈ rest, x.1 ≤ s.clk → ∀ m ∈ s.mshrs, cfg.align m.1 ≠ cfg.align x.2.req.addr) :
    Inv cfg [] [] (finishHits cfg rest s) ∧
      ∃ hitList completed, finishHits cfg rest s = { s with hitList := hitList, completed := completed } := by
  induction rest generalizing s with
  | nil => exact ⟨h, s.hitList, s.completed, rfl⟩
  | cons x rest ih =>
      obtain ⟨due, hit⟩ := x
      unfold finishHits
      have hrest : ∀ x ∈ rest, x.1 ≤ s.clk → ∀ m ∈ s.mshrs, cfg.align m.1 ≠ cfg.align x.2.req.addr :=
        fun x hx => hclear x (List.mem_cons_of_mem _ hx)
      split_ifs with hdue
      · have hother := hclear _ List.mem_cons_self hdue
        have hbucket : s.receiveRequests hit.req.addr = [] := by
          by_contra hne
          obtain ⟨m, hm, heq⟩ := List.mem_map.mp ((h.account.bucket _).mp hne)
          exact hother m hm (congrArg cfg.align heq)
        rw [completeHit_eq hbucket hother]
        obtain ⟨hinv, hits', completed', heq⟩ :=
          @ih { s with completed := s.completed ++ [hit] } ⟨h.lines, h.account.done, h.owed⟩ hrest
        exact ⟨hinv, hits', completed', heq⟩
      · have hkeep : Inv cfg [] (rest.map (·.2)) { s with hitList := s.hitList ++ [(due, hit)] } := by
          refine h.move rfl (List.Perm.refl _) ?_ h.owed
          dsimp only
          rw [List.map_cons, List.map_append, List.map_singleton, List.cons_append, ← List.append_assoc]
          exact (List.perm_append_singleton hit _).symm
        obtain ⟨hinv, hits', completed', heq⟩ := ih hkeep hrest
        exact ⟨hinv, hits', completed', heq⟩

/-! ## Runs -/

/-- The calls that keep the accounts. A flush takes a line that is ready; and when a hit is due, its line is
not under way, unless it comes at once from memory in the same tick. -/
def Allowed (cfg : LLCConfig) (s : LLC) : Call → Prop
  | .clflush addr => ∀ line, s.findLine cfg addr = some line → line.ready = true
  | .tick decisions =>
      ∀ hit ∈ s.hitList, hit.1 ≤ s.clk + 1 → ∀ m ∈ s.mshrs, cfg.align m.1 = cfg.align hit.2.req.addr →
        ServedAt cfg decisions 0 s.missList (s.clk + 1) m
  | _ => True

/-- The states that some calls lead to. -/
def Reached (cfg : LLCConfig) : LLC → Prop := Reachable {} fun s c s' => s.call cfg c = .ok s'

/-- Those that allowed calls lead to. -/
def ReachedIf (cfg : LLCConfig) : LLC → Prop :=
  Reachable {} fun s c s' => Allowed cfg s c ∧ s.call cfg c = .ok s'

theorem tick_spec {decisions : Nat → Decision} (h : Inv cfg [] [] s) (hallowed : Allowed cfg s (.tick decisions)) :
    Inv cfg [] [] (s.tick cfg decisions) ∧
      ∃ hitList completed, s.tick cfg decisions =
        { ({ s with clk := s.clk + 1 } : LLC).tickMisses cfg decisions with
          hitList := hitList, completed := completed } := by
  have htaken : Inv cfg (s.missList.map (·.2)) [] { s with clk := s.clk + 1, missList := [] } :=
    ⟨h.lines, h.account, h.owed⟩
  obtain ⟨hinv, hclk, hhits, hleft⟩ := sendMisses_spec decisions 0 s.missList htaken
  have hclear : ∀ x ∈ s.hitList, x.1 ≤ s.clk + 1 →
      ∀ m ∈ (sendMisses cfg decisions 0 s.missList { s with clk := s.clk + 1, missList := [] }).mshrs,
        cfg.align m.1 ≠ cfg.align x.2.req.addr := by
    intro x hx hdue m hm heq
    obtain ⟨hmem, hnot⟩ := hleft m hm
    exact hnot (hallowed x hx hdue m hmem heq)
  unfold LLC.tick tickHits tickMisses
  dsimp only
  rw [hhits]
  have hhanded : Inv cfg [] (s.hitList.map (·.2))
      { sendMisses cfg decisions 0 s.missList { s with clk := s.clk + 1, missList := [] } with hitList := [] } := by
    refine hinv.move rfl (List.Perm.refl _) (List.Perm.of_eq ?_) hinv.owed
    rw [hhits]
    simp
  obtain ⟨hfinal, hitList, completed, heq⟩ := finishHits_spec s.hitList hhanded (by
    intro x hx hdue
    rw [hclk] at hdue
    exact hclear x hx hdue)
  exact ⟨hfinal, hitList, completed, heq⟩

/-- Memory calls back. -/
theorem Inv.callBack (h : Inv cfg [] [] s) (j : Nat) (arrive depart : Int) :
    Inv cfg [] [] (s.callBack cfg j arrive depart) := by
  unfold LLC.callBack
  split
  · exact h
  · rename_i req hget
    obtain ⟨hj, hreq⟩ := List.getElem?_eq_some_iff.mp hget
    have hperm : s.memory.Perm (req :: s.memory.eraseIdx j) := by
      rw [← hreq]
      exact (List.getElem_cons_eraseIdx_perm hj).symm
    have htransit : Inv cfg [req] [] { s with memory := s.memory.eraseIdx j } := by
      refine h.move rfl (List.Perm.filter _ ?_) (List.Perm.refl _) fun r hr =>
        h.owed r (List.mem_of_mem_eraseIdx hr)
      rw [List.nil_append, List.singleton_append]
      exact (hperm.append_left _).trans List.perm_middle
    exact htransit.frontendReceive (h.owed req (List.mem_of_getElem? hget)) arrive depart

/-- A flush of a line that is ready. -/
theorem Inv.clflush (h : Inv cfg [] [] s) (addr : Int)
    (hready : ∀ line, s.findLine cfg addr = some line → line.ready = true) :
    Inv cfg [] [] (s.clflush cfg addr).2 := by
  unfold LLC.clflush
  cases hfind : s.findLine cfg addr with
  | none => exact h
  | some line => exact h.evictLine (List.mem_of_find?_eq_some hfind) (hready line hfind)

/-- The blacklist is not in the accounts. -/
theorem inv_blacklist (h : Inv cfg misses hits s) (source maxMshr : Int) :
    Inv cfg misses hits (s.addBlacklist cfg source) ∧ Inv cfg misses hits (s.eraseBlacklist cfg source) ∧
      Inv cfg misses hits (s.setBlacklistMaxMshrs cfg source maxMshr) := by
  unfold addBlacklist eraseBlacklist setBlacklistMaxMshrs
  refine ⟨?_, ?_, ?_⟩ <;> split_ifs <;> exact ⟨h.lines, h.account, h.owed⟩

theorem call_spec {c : Call} (h : Inv cfg [] [] s) (hallowed : Allowed cfg s c) (hs : s.call cfg c = .ok s') :
    Inv cfg [] [] s' := by
  cases c with
  | send addr type source =>
      obtain ⟨⟨b, t⟩, ht, rfl⟩ := except_map_eq_ok.mp hs
      exact h.send _ rfl ht
  | tick decisions =>
      obtain rfl := Except.ok.inj hs
      exact (tick_spec h hallowed).1
  | callBack j arrive depart =>
      obtain rfl := Except.ok.inj hs
      exact h.callBack j arrive depart
  | clflush addr =>
      obtain rfl := Except.ok.inj hs
      exact h.clflush addr hallowed
  | addBlacklist source =>
      obtain rfl := Except.ok.inj hs
      exact (inv_blacklist h source 0).1
  | eraseBlacklist source =>
      obtain rfl := Except.ok.inj hs
      exact (inv_blacklist h source 0).2.1
  | setBlacklistMaxMshrs source maxMshr =>
      obtain rfl := Except.ok.inj hs
      exact (inv_blacklist h source maxMshr).2.2

/-- A line is found where one is available, so that nothing fails. -/
theorem exists_allocateLine {addr : Int} (dirty : Bool) (h : s.lineAvailable cfg addr = true) :
    ∃ t, s.allocateLine cfg addr dirty = some t := by
  unfold allocateLine
  split_ifs with hneed
  · unfold needEviction at hneed
    dsimp only at hneed
    split_ifs at hneed
    have hfull : cfg.associativity ≤ (s.cacheSets (cfg.getIndex addr)).length := of_decide_eq_true hneed
    have hready : (s.cacheSets (cfg.getIndex addr)).any (·.ready) = true := by
      unfold lineAvailable at h
      dsimp only at h
      rw [decide_eq_false (Nat.not_lt.mpr hfull), Bool.false_or] at h
      exact h
    obtain ⟨l, hl, hlready⟩ := List.any_eq_true.mp hready
    cases hfind : (s.cacheSets (cfg.getIndex addr)).find? (·.ready) with
    | none => exact absurd hlready (List.find?_eq_none.mp hfind l hl)
    | some victim => exact ⟨_, rfl⟩
  · exact ⟨_, rfl⟩

theorem exists_call (cfg : LLCConfig) (s : LLC) (c : Call) : ∃ s', s.call cfg c = .ok s' := by
  cases c with
  | send addr type source =>
      unfold call LLC.send
      dsimp only
      split
      · exact ⟨_, rfl⟩
      · split
        · exact ⟨_, rfl⟩
        · split_ifs with hcapped hfull havailable
          · exact ⟨_, rfl⟩
          · exact ⟨_, rfl⟩
          · exact ⟨_, rfl⟩
          · obtain ⟨t, ht⟩ := exists_allocateLine
              (decide ((coreRequest addr type source).typeId = Request.write)) (Bool.not_eq_false _ ▸ havailable)
            unfold LLC.sendMiss
            rw [ht]
            exact ⟨_, rfl⟩
  | _ => exact ⟨_, rfl⟩

theorem ReachedIf.inv (hs : ReachedIf cfg s) : Inv cfg [] [] s :=
  Reachable.invariant (Inv cfg [] []) (inv_init cfg) (fun _ _ _ h hstep => call_spec h hstep.1 hstep.2) hs

/-! ## What `send` accepts -/

/-- A step that accepts nothing. -/
def SameAccepted (s t : LLC) : Prop := t.accepted = s.accepted ∧ t.nextUid = s.nextUid

/-- What a `send` does: it accepts this request, under a new number, if it returns true, and nothing
otherwise. A miss waits for its line with a read. -/
structure Sent (req : Req) (b : Bool) (s t : LLC) : Prop where
  completed : t.completed = s.completed
  accepted : if b then
      ∃ kept, (kept = req ∨ kept = fillOf req) ∧ t.accepted = s.accepted ++ [⟨kept, s.nextUid⟩]
    else t.accepted = s.accepted

theorem evictLine_ledger (cfg : LLCConfig) (i : Int) (victim : Line) (s : LLC) :
    SameAccepted s (s.evictLine cfg i victim) ∧ (s.evictLine cfg i victim).completed = s.completed := by
  unfold LLC.evictLine setCacheSet
  dsimp only
  split_ifs <;> exact ⟨⟨rfl, rfl⟩, rfl⟩

theorem allocateLine_ledger {addr : Int} {dirty : Bool} (h : s.allocateLine cfg addr dirty = some s') :
    SameAccepted s s' ∧ s'.completed = s.completed := by
  unfold allocateLine at h
  split_ifs at h
  · split at h
    · cases h
    · rename_i victim _
      obtain rfl := Option.some.inj h
      exact evictLine_ledger cfg (cfg.getIndex addr) victim s
  · obtain rfl := Option.some.inj h
    exact ⟨⟨rfl, rfl⟩, rfl⟩

theorem sent_of_sendMiss {req : Req} (h : s.sendMiss cfg req = .ok s') : Sent req true s s' := by
  unfold LLC.sendMiss at h
  split at h
  · cases h
  · rename_i t halloc
    obtain ⟨⟨haccepted, huid⟩, hcompleted⟩ := allocateLine_ledger halloc
    cases h
    refine ⟨?_, fillOf req, .inr rfl, ?_⟩
    · rw [charge_eq]
      exact hcompleted
    · rw [charge_eq]
      show t.accepted ++ [⟨fillOf req, t.nextUid⟩] = _
      rw [haccepted, huid]

/-- A request that is accepted is on the list from then on, and one that is not leaves it alone. -/
theorem sent_of_send {req : Req} {b : Bool} (h : s.send cfg req = .ok (b, s')) : Sent req b s s' := by
  have haccess : SameAccepted s (s.countAccess req) ∧ (s.countAccess req).completed = s.completed := by
    unfold countAccess
    split_ifs <;> exact ⟨⟨rfl, rfl⟩, rfl⟩
  unfold LLC.send at h
  dsimp only at h
  generalize s.countAccess req = t at haccess h
  -- counting comes before the request is looked at
  have hcounted : ∀ u b, SameAccepted s u → u.completed = s.completed → Sent req b u s' →
      Sent req b s s' := by
    rintro u b ⟨haccepted, huid⟩ hcompleted ⟨hdone, hsent⟩
    refine ⟨hdone.trans hcompleted, ?_⟩
    rwa [haccepted, huid] at hsent
  split at h
  · cases h
    exact hcounted t true haccess.1 haccess.2 ⟨rfl, req, .inl rfl, rfl⟩
  · have hmiss : SameAccepted s (t.countMiss req) ∧ (t.countMiss req).completed = s.completed := by
      unfold countMiss
      split_ifs <;> exact haccess
    generalize t.countMiss req = u at hmiss h
    split at h
    · cases h
      exact hcounted u true hmiss.1 hmiss.2 ⟨rfl, fillOf req, .inr rfl, rfl⟩
    · split_ifs at h
      · cases h
        exact ⟨hmiss.2, hmiss.1.1⟩
      · cases h
        exact ⟨hmiss.2, hmiss.1.1⟩
      · cases h
        exact ⟨hmiss.2, hmiss.1.1⟩
      · obtain ⟨v, hv, heq⟩ := except_map_eq_ok.mp h
        cases heq
        exact hcounted u true hmiss.1 hmiss.2 (sent_of_sendMiss hv)

theorem accepted_frontendReceive (cfg : LLCConfig) (req : Req) (s : LLC) :
    (s.frontendReceive cfg req).accepted = s.accepted := by
  unfold LLC.frontendReceive LLC.receive
  split
  · rfl
  · dsimp only
    split_ifs <;> rfl

theorem accepted_sendMisses (cfg : LLCConfig) (decisions : Nat → Decision) (i : Nat)
    (rest : List (Int × Req)) (s : LLC) : (sendMisses cfg decisions i rest s).accepted = s.accepted := by
  induction rest generalizing i s with
  | nil => rfl
  | cons x rest ih =>
      obtain ⟨due, req⟩ := x
      unfold sendMisses
      split_ifs
      · split
        · exact ih _ _
        · rw [ih]
          unfold LLC.takeMiss
          split_ifs <;> rfl
        · rw [ih]
          unfold LLC.serveMiss
          split_ifs
          · exact accepted_frontendReceive cfg _ s
          · rfl
      · exact ih _ _

theorem accepted_finishHits (cfg : LLCConfig) (rest : List (Int × Admitted)) (s : LLC) :
    (finishHits cfg rest s).accepted = s.accepted := by
  induction rest generalizing s with
  | nil => rfl
  | cons x rest ih =>
      obtain ⟨due, hit⟩ := x
      unfold finishHits
      split_ifs
      · rw [ih]
        exact accepted_frontendReceive cfg hit.req _
      · exact ih _

/-- Nothing but `send` accepts a request. -/
theorem accepted_call {c : Call} (hc : ∀ addr type source, c ≠ .send addr type source)
    (h : s.call cfg c = .ok s') : s'.accepted = s.accepted := by
  cases c with
  | send addr type source => exact absurd rfl (hc addr type source)
  | tick decisions =>
      obtain rfl := Except.ok.inj h
      exact (accepted_finishHits cfg _ _).trans (accepted_sendMisses cfg decisions 0 _ _)
  | callBack j arrive depart =>
      obtain rfl := Except.ok.inj h
      unfold LLC.callBack
      split
      · rfl
      · exact accepted_frontendReceive cfg _ _
  | clflush addr =>
      obtain rfl := Except.ok.inj h
      unfold LLC.clflush
      split
      · rfl
      · exact (evictLine_ledger cfg _ _ s).1.1
  | addBlacklist source =>
      obtain rfl := Except.ok.inj h
      unfold addBlacklist
      split_ifs <;> rfl
  | eraseBlacklist source =>
      obtain rfl := Except.ok.inj h
      unfold eraseBlacklist
      split_ifs <;> rfl
  | setBlacklistMaxMshrs source maxMshr =>
      obtain rfl := Except.ok.inj h
      unfold setBlacklistMaxMshrs
      split_ifs <;> rfl

/-! ## Service -/

/-- A line that is not ready is in some set. -/
def Waits (s : LLC) (l : Line) : Prop := ∃ i, l ∈ s.cacheSets i ∧ l.ready = false

/-- What the cache owes: every accepted request is completed, a hit on its way, or waiting for a line under
way, and is so once; MSHRs and lines under way belong together; MSHRs are charged to their owners. -/
structure Serviced (cfg : LLCConfig) (s : LLC) : Prop where
  numbered : s.accepted.map (·.uid) = List.range s.nextUid
  served : s.accepted.Perm
    (s.completed ++ (s.hitList.map (·.2) ++ s.mshrs.flatMap fun m => s.receiveRequests m.1))
  line_of_mshr : ∀ m ∈ s.mshrs, ∃! l, s.Waits l ∧ cfg.align l.addr = cfg.align m.1
  mshr_of_line : ∀ l, s.Waits l → ∃! m, m ∈ s.mshrs ∧ cfg.align m.1 = cfg.align l.addr
  charged : ∀ c, cfg.isCore c = true →
    s.allocatedMshrs c = ((s.mshrs.map fun m => owner s.receiveRequests m.1).count c : Nat)

theorem Inv.mshr_of_waits (h : Inv cfg [] [] s) {l : Line} (hl : s.Waits l) :
    l ∈ s.cacheSets (cfg.getIndex l.addr) ∧ (l.addr, l.node) ∈ s.mshrs := by
  obtain ⟨i, hmem, hwait⟩ := hl
  rw [(h.lines.each i).index l hmem]
  exact ⟨hmem, (h.lines.each i).waiting l hmem hwait⟩

theorem Inv.serviced (h : Inv cfg [] [] s) : Serviced cfg s where
  numbered := h.account.uids
  served := h.account.served
  line_of_mshr := by
    intro m hm
    obtain ⟨l, hl, hnode, haddr, hwait⟩ := h.lines.lines m hm
    refine ⟨l, ⟨⟨_, hl, hwait⟩, congrArg cfg.align haddr⟩, ?_⟩
    rintro l' ⟨hl', halign⟩
    obtain ⟨hmem, hmshr⟩ := h.mshr_of_waits hl'
    have hsame : (l'.addr, l'.node) = m := h.lines.eq_of_align hmshr hm halign
    refine h.lines.eq_of_node hmem ?_ ((congrArg Prod.snd hsame).trans hnode.symm)
    rw [show l'.addr = m.1 from congrArg Prod.fst hsame]
    exact hl
  mshr_of_line := by
    intro l hl
    obtain ⟨-, hmshr⟩ := h.mshr_of_waits hl
    exact ⟨_, ⟨hmshr, rfl⟩, fun m hm => h.lines.eq_of_align hm.1 hmshr hm.2⟩
  charged := h.account.allocated

/-- Where flushes take lines that are ready, and no due hit finds its line under way, the cache does what it
owes and no call fails, and completing hits touches nothing but the hits and what is completed. The accepted
requests are those for which `send` returns true. -/
theorem llc_exactly_once_service_if (cfg : LLCConfig) {s : LLC} (hs : ReachedIf cfg s) :
    Serviced cfg s ∧
      (∀ req b t, s.send cfg req = .ok (b, t) → Sent req b s t) ∧
      (∀ c t, (∀ addr type source, c ≠ .send addr type source) → s.call cfg c = .ok t →
        t.accepted = s.accepted) ∧
      (∀ c, ∃ s', s.call cfg c = .ok s') ∧ ∀ decisions, Allowed cfg s (.tick decisions) →
      ∃ hitList completed, s.tick cfg decisions =
        { ({ s with clk := s.clk + 1 } : LLC).tickMisses cfg decisions with
          hitList := hitList, completed := completed } :=
  ⟨hs.inv.serviced, fun _ _ _ => sent_of_send, fun _ _ => accepted_call, exists_call cfg s,
    fun _ hallowed => (tick_spec hs.inv hallowed).2⟩

/-- A cache of one line. -/
def oneLine : LLCConfig where
  latency := 1
  sizeBytes := 64
  associativity := 1
  numMshrs := 1
  numCores := 1

/-- The calls that are allowed whatever the state: all but flushes, and ticks with no hit on its way. -/
def plainCall (s : LLC) : Call → Bool
  | .clflush _ => false
  | .tick _ => s.hitList.isEmpty
  | _ => true

theorem allowed_of_plainCall (cfg : LLCConfig) (s : LLC) (c : Call) (h : plainCall s c = true) :
    Allowed cfg s c := by
  cases c with
  | clflush addr => exact Bool.noConfusion h
  | tick decisions =>
      intro hit hhit
      rw [List.isEmpty_iff.mp h] at hhit
      cases hhit
  | _ => exact trivial

/-- A read misses and comes back; the next one hits, and may be completed. -/
theorem llc_exactly_once_service_if_oneLine : ∃ s, ReachedIf oneLine s ∧ s.completed.length = 1 ∧
    s.hitList.length = 1 ∧ Serviced oneLine s ∧
      ∃ hitList completed, s.tick oneLine (fun _ => .accept) =
        { ({ s with clk := s.clk + 1 } : LLC).tickMisses oneLine (fun _ => .accept) with
          hitList := hitList, completed := completed } := by
  have hobs : (runAll (guarded plainCall "" (fun c s => call oneLine c s))
      [.send 0 Request.read 0, .tick fun _ => .accept, .callBack 0 0 0, .send 0 Request.read 0] {}).map
      (fun s => (s.completed.length, s.hitList.length, s.mshrs)) = .ok (1, 1, []) := by
    decide +kernel
  obtain ⟨s, hrun, hobs⟩ := except_map_eq_ok.mp hobs
  obtain ⟨hcompleted, hhits, hmshrs⟩ : s.completed.length = 1 ∧ s.hitList.length = 1 ∧ s.mshrs = [] := by
    simpa using hobs
  have hs : ReachedIf oneLine s := reachable_runAll (allowed_of_plainCall oneLine) .start hrun
  obtain ⟨hserviced, -, -, -, htick⟩ := llc_exactly_once_service_if oneLine hs
  refine ⟨s, hs, hcompleted, hhits, hserviced, htick _ fun hit _ _ m hm => ?_⟩
  rw [hmshrs] at hm
  cases hm

/-- A cache of two lines in one set. -/
def twoLines : LLCConfig where
  latency := 1
  sizeBytes := 128
  associativity := 2
  numMshrs := 2
  numCores := 1

/-- A line is hit, evicted and missed again before the hit is due. The hit takes the MSHR and the place of
the miss, whose request is neither completed nor waiting any more. -/
theorem exists_reached_not_serviced : ¬ ∀ (cfg : LLCConfig) (s : LLC), Reached cfg s → Serviced cfg s := by
  intro hall
  have hobs : (runAll (fun c s => call twoLines c s)
      [.send 0 Request.read 0, .tick fun _ => .accept, .callBack 0 0 0, .send 64 Request.read 0,
        .tick fun _ => .accept, .send 0 Request.read 0, .send 128 Request.read 0, .callBack 0 0 0,
        .send 0 Request.read 0, .tick fun _ => .accept] {}).map
      (fun s => (s.accepted.length, (s.completed ++ (s.hitList.map (·.2) ++
        s.mshrs.flatMap fun m => s.receiveRequests m.1)).length)) = .ok (5, 4) := by
    decide +kernel
  obtain ⟨s, hrun, hobs⟩ := except_map_eq_ok.mp hobs
  obtain ⟨haccepted, hfound⟩ := Prod.mk.inj hobs
  have hs : Reached twoLines s := reachable_of_runAll .start hrun
  have hlength := (hall twoLines s hs).served.length_eq
  rw [haccepted, hfound] at hlength
  exact absurd hlength (by decide)

end LLC

end Ramulator.Frontend.BHO3
