/-
# Ramulator.Controller.Ordering — read-after-write order in the generic DDR controller.

A read that is accepted behind a write to the same address must not reach the device first. While the
write is in the write buffer the read is forwarded. Once the write's column command has been issued,
nothing is left to order. Between the two lies the time after the write's activation: the write waits
in the active buffer, its address is no longer in the forwarding set, and a read that arrives then is
buffered and can overtake it. The order holds in every run in which no read arrives at such a moment
(`NoRace`).
-/
import Ramulator.Lib.Trace
import Ramulator.Controller.Legality
import Ramulator.Controller.WriteSet

namespace Ramulator.Controller

open Ramulator.Base (Request)
open Ramulator.Dram Ramulator.Lib ControllerBase

variable {K : Type}

/-! ## The order of events -/

def writeCommands : List Command := [.WR, .WRA]

def readCommands : List Command := [.RD, .RDA]

/-- A column command of write `w` is among the events. -/
def WriteIssued (events : List Event) (w : Nat) : Prop :=
  ∃ c addr targets active, Event.issued w c addr targets active ∈ events ∧ c ∈ writeCommands

/-- What may happen after the events `p`: a request is accepted before it is issued, a buffered read
comes after the column commands of all earlier writes to its address, and only buffered requests are
issued. -/
def Ordered (p : List Event) : Event → Prop
  | .accepted u typeId addr route =>
      (∀ c a targets active, .issued u c a targets active ∉ p) ∧
        (typeId = Request.read → route = .buffered →
          ∀ w, .accepted w Request.write addr .buffered ∈ p → WriteIssued p w)
  | .issued u .. => ∀ typeId addr route, .accepted u typeId addr route ∈ p → route = .buffered
  | _ => True

/-- The request that an acceptance or an issued command is about. -/
def subject : Event → Option Nat
  | .accepted u .. | .issued u .. => some u
  | _ => none

/-- An issued command with its request. -/
def issuedCommand : Event → Option (Nat × Command)
  | .issued u c .. => some (u, c)
  | _ => none

/-- The calls that do not send a read into the read buffer while a write to its address is active. -/
def NoRace (cfg : Config) (s : ControllerBase K) (c : Call K) : Prop :=
  ∀ apply req, c = .send apply req → req.typeId = Request.read → req.addr ∉ s.bufferedWriteAddrs →
    s.read.length < cfg.readBufferSize →
    ∀ e ∈ s.active, e.typeId = Request.write → e.addr ≠ req.addr

/-- A standard whose writes are `WR`, with `WRA` for the form with auto-precharge: all but LPDDR6. -/
structure PlainWrites (spec : Standard) : Prop where
  writeCommand : spec.writeCommand = .WR
  noShort : spec.supports .WRA_S = false

/-! ## The invariant -/

/-- The request comes from its acceptance, if it has one: it was buffered as it was accepted, and a
write still has a column command to go to. -/
def Origin (log : List Event) (e : Entry K) : Prop :=
  ∀ typeId addr route, .accepted e.uid typeId addr route ∈ log →
    e.typeId = typeId ∧ e.addr = addr ∧ route = .buffered ∧
      (typeId = Request.write → e.final ∈ writeCommands)

/-- The write is in the write or in the active buffer. -/
def Waits (s : ControllerBase K) (w : Nat) : Prop :=
  (∃ e ∈ s.write, e.uid = w) ∨ ∃ e ∈ s.active, e.uid = w

structure OrderInv (s : ControllerBase K) : Prop where
  writeSet : WriteSetOk (fun _ _ => True) s
  entries : ∀ b, ∀ e ∈ s.bufs b, e.uid < s.nextUid ∧ Origin s.log e
  fresh : ∀ ev ∈ s.log, ∀ u, subject ev = some u → u < s.nextUid
  waiting : ∀ w addr, .accepted w Request.write addr .buffered ∈ s.log →
    WriteIssued s.log w ∨ Waits s w
  log : Justified Ordered s.log

variable {cfg : Config} {s s' : ControllerBase K}

theorem orderInv_init : OrderInv (ControllerBase.init cfg : ControllerBase K) where
  writeSet := writeSetOk_init
  entries := fun _ _ he => nomatch he
  fresh := fun _ hev => nomatch hev
  waiting := fun _ _ hw => nomatch hw
  log := justified_nil

theorem WriteIssued.mono {l l' : List Event} {w : Nat} (h : WriteIssued l w) (hsub : l ⊆ l') :
    WriteIssued l' w := by
  obtain ⟨c, addr, targets, active, hmem, hc⟩ := h
  exact ⟨c, addr, targets, active, hsub hmem, hc⟩

theorem Origin.congr {log : List Event} {e e' : Entry K} (h : Origin log e) (huid : e'.uid = e.uid)
    (htype : e'.typeId = e.typeId) (haddr : e'.addr = e.addr) (hfinal : e'.final = e.final) :
    Origin log e' := by
  intro typeId addr route hacc
  rw [huid] at hacc
  rw [htype, haddr, hfinal]
  exact h typeId addr route hacc

/-- Events that concern no request. -/
def Quiet (evs : List Event) : Prop := ∀ ev ∈ evs, subject ev = none

theorem Quiet.not_accepted {evs : List Event} (h : Quiet evs) {u : Nat} {typeId addr : Int}
    {route : Route} : .accepted u typeId addr route ∉ evs :=
  fun hmem => nomatch h _ hmem

theorem Quiet.ordered {evs : List Event} (h : Quiet evs) : ∀ ev ∈ evs, ∀ p, Ordered p ev := by
  intro ev hev p
  have hsub := h ev hev
  cases ev with
  | accepted => cases hsub
  | issued => cases hsub
  | _ => trivial

/-- Steps that accept and issue nothing. -/
theorem OrderInv.quiet (h : OrderInv s) (hset : WriteSetOk (fun _ _ => True) s') (huid : s.nextUid ≤ s'.nextUid)
    {evs : List Event} (hlog : s'.log = s.log ++ evs) (hevs : Quiet evs)
    (hentries : ∀ b, ∀ e ∈ s'.bufs b, e.uid < s'.nextUid ∧ Origin s.log e)
    (hwaits : ∀ w addr, .accepted w Request.write addr .buffered ∈ s.log → Waits s w →
      WriteIssued s.log w ∨ Waits s' w) : OrderInv s' := by
  refine ⟨hset, fun b e he => ⟨(hentries b e he).1, ?_⟩, ?_, ?_, ?_⟩
  · intro typeId addr route hacc
    rw [hlog, List.mem_append] at hacc
    exact (hentries b e he).2 typeId addr route (hacc.resolve_right hevs.not_accepted)
  · intro ev hev u hu
    rw [hlog, List.mem_append] at hev
    rcases hev with hev | hev
    · exact (h.fresh ev hev u hu).trans_le huid
    · rw [hevs ev hev] at hu
      cases hu
  · intro w addr hacc
    rw [hlog, List.mem_append] at hacc
    have hmono : s.log ⊆ s'.log := by
      rw [hlog]
      exact List.subset_append_left _ _
    have hacc' := hacc.resolve_right hevs.not_accepted
    rcases h.waiting w addr hacc' with hw | hw
    · exact .inl (hw.mono hmono)
    · exact (hwaits w addr hacc' hw).imp_left fun hw => hw.mono hmono
  · rw [hlog]
    exact h.log.append hevs.ordered

/-! ## Sending -/

/-- A request is accepted, and perhaps buffered. -/
theorem OrderInv.accept (h : OrderInv s) (hset : WriteSetOk (fun _ _ => True) s') {typeId addr : Int} {route : Route}
    (huid : s'.nextUid = s.nextUid + 1) {evs : List Event}
    (hlog : s'.log = s.log ++ [.accepted s.nextUid typeId addr route] ++ evs) (hevs : Quiet evs)
    (hentries : ∀ b, ∀ e ∈ s'.bufs b, e ∈ s.bufs b ∨
      (e.uid = s.nextUid ∧ e.typeId = typeId ∧ e.addr = addr ∧ route = .buffered ∧
        (typeId = Request.write → e.final ∈ writeCommands)))
    (hkept : ∀ b, s.bufs b ⊆ s'.bufs b)
    (hwrite : typeId = Request.write → route = .buffered → ∃ e ∈ s'.write, e.uid = s.nextUid)
    (hread : typeId = Request.read → route = .buffered →
      ∀ w, .accepted w Request.write addr .buffered ∈ s.log → WriteIssued s.log w) :
    OrderInv s' := by
  have hmono : s.log ⊆ s'.log := by
    rw [hlog, List.append_assoc]
    exact List.subset_append_left _ _
  have hacc_cases : ∀ u typeId' addr' route', .accepted u typeId' addr' route' ∈ s'.log →
      .accepted u typeId' addr' route' ∈ s.log ∨
        (u = s.nextUid ∧ typeId' = typeId ∧ addr' = addr ∧ route' = route) := by
    intro u typeId' addr' route' hacc
    rw [hlog, List.mem_append, List.mem_append] at hacc
    rcases hacc with (hacc | hacc) | hacc
    · exact .inl hacc
    · exact .inr (Event.accepted.inj (List.mem_singleton.mp hacc))
    · exact absurd hacc hevs.not_accepted
  refine ⟨hset, fun b e he => ?_, ?_, ?_, ?_⟩
  · rcases hentries b e he with hold | ⟨hnew, htype, haddr, hroute, hfinal⟩
    · obtain ⟨hlt, horigin⟩ := h.entries b e hold
      refine ⟨by omega, fun typeId' addr' route' hacc => ?_⟩
      rcases hacc_cases _ _ _ _ hacc with hacc | ⟨hu, -⟩
      · exact horigin typeId' addr' route' hacc
      · omega
    · refine ⟨by omega, fun typeId' addr' route' hacc => ?_⟩
      rcases hacc_cases _ _ _ _ hacc with hacc | ⟨-, rfl, rfl, rfl⟩
      · -- the number is new, so it was not accepted before
        exact absurd (h.fresh _ hacc _ rfl) (by omega)
      · exact ⟨htype, haddr, hroute, hfinal⟩
  · intro ev hev u hu
    rw [hlog, List.mem_append, List.mem_append] at hev
    rcases hev with (hev | hev) | hev
    · have := h.fresh ev hev u hu
      omega
    · rw [List.mem_singleton.mp hev] at hu
      obtain rfl : s.nextUid = u := Option.some.inj hu
      omega
    · rw [hevs ev hev] at hu
      cases hu
  · intro w addr' hacc
    rcases hacc_cases _ _ _ _ hacc with hacc | ⟨rfl, htype, -, hroute⟩
    · refine (h.waiting w addr' hacc).imp (fun hw => hw.mono hmono) ?_
      rintro (⟨e, he, hu⟩ | ⟨e, he, hu⟩)
      · exact .inl ⟨e, hkept .write he, hu⟩
      · exact .inr ⟨e, hkept .active he, hu⟩
    · exact .inr (.inl (hwrite htype.symm hroute.symm))
  · have hnew : Ordered s.log (.accepted s.nextUid typeId addr route) := by
      refine ⟨fun c a targets active hissued => ?_, hread⟩
      exact absurd (h.fresh _ hissued _ rfl) (by omega)
    rw [hlog]
    exact (h.log.snoc hnew).append hevs.ordered

/-- A read that is not forwarded finds no earlier write to its address in the write buffer, nor, without
a race, in the active buffer: all of them have been issued. -/
theorem OrderInv.writes_issued (h : OrderInv s) {addr : Int} (hfree : addr ∉ s.bufferedWriteAddrs)
    (hactive : ∀ e ∈ s.active, e.typeId = Request.write → e.addr ≠ addr) {w : Nat}
    (hacc : .accepted w Request.write addr .buffered ∈ s.log) : WriteIssued s.log w := by
  rcases h.waiting w addr hacc with hw | ⟨e, he, rfl⟩ | ⟨e, he, rfl⟩
  · exact hw
  · obtain ⟨-, haddr, -⟩ := (h.entries .write e he).2 _ _ _ hacc
    exact absurd ((h.writeSet.mem_iff addr).mpr ⟨e, he, haddr⟩) hfree
  · obtain ⟨htype, haddr, -⟩ := (h.entries .active e he).2 _ _ _ hacc
    exact absurd haddr (hactive e he htype)

theorem final_mapped_write (hspec : PlainWrites cfg.spec) {apply : Request Command K → AddrVec}
    {req : Request Command K} (ht : req.typeId = Request.write) (uid : Nat) (clk : Int) :
    (Entry.ofRequest uid ((mapped cfg apply req).arrivedAt clk)).final ∈ writeCommands := by
  have hfinal : (Entry.ofRequest uid ((mapped cfg apply req).arrivedAt clk)).final =
      if req.typeId = Request.read then cfg.spec.readCommand else cfg.spec.writeCommand := rfl
  rw [hfinal, ht, if_neg (by decide), hspec.writeCommand]
  decide

/-- The requests in the buffers after one is appended. -/
theorem mem_bufs_append {b b' : Buf} {e x : Entry K}
    (hx : x ∈ (s.setBuf b (s.bufs b ++ [e])).bufs b') : x ∈ s.bufs b' ∨ x = e := by
  rw [bufs_setBuf] at hx
  split_ifs at hx with hb
  · rw [List.mem_append, List.mem_singleton] at hx
    exact hb ▸ hx
  · exact .inl hx

theorem bufs_subset_append (b b' : Buf) (e : Entry K) (s : ControllerBase K) :
    s.bufs b' ⊆ (s.setBuf b (s.bufs b ++ [e])).bufs b' := by
  rw [bufs_setBuf]
  split_ifs with hb
  · exact hb ▸ List.subset_append_left _ _
  · exact List.Subset.refl _

theorem OrderInv.send (hspec : PlainWrites cfg.spec) (h : OrderInv s)
    {apply : Request Command K → AddrVec} {req req' : Request Command K} {accepted : Bool}
    (hrace : NoRace cfg s (.send apply req))
    (hsend : s.send cfg apply req = .ok (accepted, req', s')) : OrderInv s' := by
  have hne : Request.read ≠ Request.write := by decide
  have hset := h.writeSet.send (fun _ => trivial) hsend
  rcases send_cases hsend with
    ⟨ht, -, heq⟩ | ⟨ht, hfree, hroom, heq⟩ | ⟨ht, -, heq⟩ | ⟨ht, -, -, heq⟩ | ⟨-, heq⟩
  all_goals
    obtain rfl := congrArg (fun r => r.2.2) heq
  · have hlog : ((s.forward (mapped cfg apply req)).2.2).log =
        s.log ++ [.accepted s.nextUid req.typeId req.addr .forwarded] ++
          [.departureScheduled s.nextUid (s.clk + 1)] := by
      rw [forward_eq, List.append_assoc]
      rfl
    refine h.accept hset rfl hlog (by simp [Quiet, subject]) ?_ ?_ (by simp) (by simp)
    · exact fun b e he => .inl he
    · exact fun b => List.Subset.refl _
  · have hlog : (s.enqueueRead ((mapped cfg apply req).arrivedAt s.clk)).log =
        s.log ++ [.accepted s.nextUid req.typeId req.addr .buffered] ++ [] :=
      (List.append_nil _).symm
    refine h.accept hset rfl hlog (by simp [Quiet]) ?_ ?_ ?_ ?_
    · intro b e he
      refine (mem_bufs_append he).imp_right ?_
      rintro rfl
      exact ⟨rfl, rfl, rfl, rfl, fun hw => absurd (ht.symm.trans hw) hne⟩
    · exact fun b => bufs_subset_append .read b _ s
    · exact fun hw => absurd (ht.symm.trans hw) hne
    · intro _ _ w hacc
      exact h.writes_issued hfree (hrace apply req rfl ht hfree hroom) hacc
  · have hlog : ((s.coalesce ((mapped cfg apply req).arrivedAt s.clk)).2.2).log =
        s.log ++ [.accepted s.nextUid req.typeId req.addr .coalesced] ++
          [.departureScheduled s.nextUid s.clk,
            .completedWrite s.nextUid s.clk req.callback.isSome] := by
      rw [coalesce_eq, List.append_assoc]
      rfl
    refine h.accept hset rfl hlog (by simp [Quiet, subject]) ?_ ?_ (by simp) (by simp)
    · exact fun b e he => .inl he
    · exact fun b => List.Subset.refl _
  · have hlog : (s.enqueueWrite ((mapped cfg apply req).arrivedAt s.clk)).log =
        s.log ++ [.accepted s.nextUid req.typeId req.addr .buffered] ++ [] :=
      (List.append_nil _).symm
    refine h.accept hset rfl hlog (by simp [Quiet]) ?_ ?_ ?_ ?_
    · intro b e he
      refine (mem_bufs_append he).imp_right ?_
      rintro rfl
      exact ⟨rfl, rfl, rfl, rfl, fun hw => final_mapped_write hspec hw _ _⟩
    · exact fun b => bufs_subset_append .write b _ s
    · intro _ _
      exact ⟨_, List.mem_append_right _ (List.mem_singleton_self _), rfl⟩
    · exact fun hr => absurd (hr.symm.trans ht) hne
  · exact h

theorem orderInv_keptBySend : KeptBySend cfg (fun _ => True) (OrderInv (K := K)) := by
  intro s req accepted s' hreq h hsend
  have hset := writeSetOk_keptBySend s req accepted s' hreq h.writeSet hsend
  obtain ⟨-, rfl | rfl⟩ := prioritySend_eq_ok hsend
  · have hlog : (s.enqueuePriority req).log = s.log ++ [] := (List.append_nil _).symm
    refine h.quiet hset (Nat.le_succ _) hlog (by simp [Quiet]) ?_ fun _ _ _ hw => .inr hw
    intro b e he
    rcases mem_bufs_append he with hold | rfl
    · exact ⟨(h.entries b e hold).1.trans (Nat.lt_succ_self _), (h.entries b e hold).2⟩
    · refine ⟨Nat.lt_succ_self _, fun typeId addr route hacc => ?_⟩
      exact absurd (h.fresh _ hacc _ rfl) (Nat.lt_irrefl _)
  · exact h

/-! ## Ticks -/

theorem OrderInv.tickPrologue (h : OrderInv s) : OrderInv s.tickPrologue := by
  have hset := h.writeSet.tickPrologue
  obtain ⟨stats, heq, -⟩ := tickPrologue_eq s
  rw [heq] at hset ⊢
  refine h.quiet hset le_rfl rfl ?_ h.entries fun _ _ _ hw => .inr hw
  intro ev hev
  obtain ⟨p, -, rfl⟩ := List.mem_map.mp hev
  rfl

theorem OrderInv.resolved (h : OrderInv s) (hres : Resolved s s') : OrderInv s' := by
  have hset := h.writeSet.resolved hres
  have huid : s'.nextUid = s.nextUid := by rw [hres.rest]
  have hlog : s'.log = s.log ++ [] := by
    rw [List.append_nil, hres.rest]
  refine h.quiet hset huid.ge hlog (by simp [Quiet]) ?_ ?_
  · intro b e he
    obtain ⟨e₀, he₀, hbare⟩ := exists_bare_eq (hres.bare b) he
    obtain ⟨hu, haddr, -, htype, hfinal, -⟩ := of_bare_eq hbare
    obtain ⟨hlt, horigin⟩ := h.entries b e₀ he₀
    rw [huid, hu]
    exact ⟨hlt, horigin.congr hu htype haddr hfinal⟩
  · rintro w - - (⟨e, he, rfl⟩ | ⟨e, he, rfl⟩)
    · obtain ⟨e', he', hbare⟩ := exists_bare_eq (hres.bare _).symm he
      exact .inr (.inl ⟨e', he', (of_bare_eq hbare).1.symm⟩)
    · obtain ⟨e', he', hbare⟩ := exists_bare_eq (hres.bare _).symm he
      exact .inr (.inr ⟨e', he', (of_bare_eq hbare).1.symm⟩)

/-- On the way to a write command no read command is needed. -/
theorem getPreqCommand_write {spec : Standard} {d : DRAMDevice} {c : Command} {addr : AddrVec}
    (hc : c ∈ writeCommands) : d.getPreqCommand spec c addr ∉ [Command.RD, .RD_S] := by
  have htarget : c.bankTarget = .single := by
    cases c <;> revert hc <;> decide
  rw [getPreqCommand_single htarget]
  generalize addr.coord spec.rowLevel = row
  generalize d.banks (spec.flatBankId addr) = bank
  have hstay : c ∉ [Command.RD, .RD_S] := by
    cases c <;> revert hc <;> decide
  have hpreq : c.preq (spec.supports .ACT2) row bank =
      if spec.supports .ACT2 then Command.act2Preq c row bank else Command.actPreq c row bank := by
    cases c <;> first | rfl | exact absurd hc (by decide)
  rw [hpreq]
  unfold Command.act2Preq Command.actPreq
  cases bank.state <;> dsimp only <;> split_ifs <;> first | exact hstay | decide

/-- The upgrade of a write goes to `WRA`. -/
theorem final_prepared_write (hspec : PlainWrites cfg.spec) {e : Entry K}
    (hcmd : e.cmd = s.device.getPreqCommand cfg.spec e.final e.addrVec)
    (hfinal : e.final ∈ writeCommands) : (s.prepared cfg e).final ∈ writeCommands := by
  rcases prepared_cases cfg s e with ⟨-, hf⟩ | ⟨ap, hap, -, hf⟩
  · rw [hf]
    exact hfinal
  · have hnot : e.cmd ∉ [Command.RD, .RD_S] := hcmd ▸ getPreqCommand_write hfinal
    rw [hf]
    unfold apUpgrade at hap
    split at hap
    · rename_i rda wra _ hwra
      split_ifs at hap with hrd hwr
      · exact absurd (List.mem_of_find?_eq_some hrd.symm) hnot
      · cases hap
        have hmem := List.mem_of_find?_eq_some hwra
        have hsup := List.find?_some hwra
        rcases List.mem_pair.mp hmem with rfl | rfl
        · decide
        · rw [hspec.noShort] at hsup
          cases hsup
    · cases hap

theorem Origin.prepared (hspec : PlainWrites cfg.spec) {b : Buf} {i : Nat} {e : Entry K}
    (h : Origin s.log e) (hchosen : Chosen cfg s b i e) : Origin s.log (s.prepared cfg e) := by
  intro typeId addr route hacc
  rw [prepared_uid] at hacc
  obtain ⟨htype, haddr, hroute, hfinal⟩ := h typeId addr route hacc
  refine ⟨?_, ?_, hroute, fun hw => final_prepared_write hspec hchosen.cmd (hfinal hw)⟩
  · rw [prepared_typeId, htype]
  · rw [prepared_addr, haddr]

/-- Between the issue of the command of `e` and its advance. -/
structure OrderMid (b : Buf) (i : Nat) (e : Entry K) (s : ControllerBase K) : Prop where
  inv : OrderInv s
  getElem : (s.bufs b)[i]? = some e
  issued : e.cmd ∈ writeCommands → WriteIssued s.log e.uid

theorem map_issued {α : Type} (f : Entry K → α) {b : Buf} {i : Nat} {e e' : Entry K} {stats : Stats}
    {p : RowPolicyState} (hi : (s.bufs b)[i]? = some e) (hf : f e' = f e) (b' : Buf) :
    ((s.issued cfg b i e' stats p).bufs b').map f = (s.bufs b').map f := by
  rw [bufs_issued]
  split_ifs with hb
  · subst hb
    exact map_set_of_eq f hi hf
  · rfl

theorem OrderInv.issued (hspec : PlainWrites cfg.spec) (h : OrderInv s) {b : Buf} {i : Nat}
    {e : Entry K} (hchosen : Chosen cfg s b i e) (stats : Stats) (p : RowPolicyState) :
    OrderMid b i (s.prepared cfg e) (s.issued cfg b i (s.prepared cfg e) stats p) := by
  have hi := hchosen.getElem
  have hmem : e ∈ s.bufs b := List.mem_of_getElem? hi
  obtain ⟨hlt, horigin⟩ := h.entries b e hmem
  have hplace : (s.prepared cfg e).place = e.place := place_tryUpgradeCommand cfg s e
  have haddr : (s.prepared cfg e).addr = e.addr := (Prod.mk.inj hplace).1
  have huid := prepared_uid cfg s e
  have hmono : s.log ⊆ (s.issued cfg b i (s.prepared cfg e) stats p).log :=
    List.subset_append_left _ _
  have hacc_old : ∀ u typeId addr route,
      .accepted u typeId addr route ∈ (s.issued cfg b i (s.prepared cfg e) stats p).log →
      .accepted u typeId addr route ∈ s.log := by
    intro u typeId addr route hacc
    exact (List.mem_append.mp hacc).resolve_right (by simp)
  refine ⟨⟨?_, ?_, ?_, ?_, ?_⟩, ?_, ?_⟩
  · exact h.writeSet.frame rfl (map_issued _ hi hplace .write)
  · intro b' x hx
    have hx' : (x ∈ s.bufs b') ∨ x = s.prepared cfg e := by
      rw [bufs_issued] at hx
      split_ifs at hx with hb
      · exact hb ▸ List.mem_or_eq_of_mem_set hx
      · exact .inl hx
    rcases hx' with hx' | rfl
    · exact ⟨(h.entries b' x hx').1, fun t a r hacc =>
        (h.entries b' x hx').2 t a r (hacc_old _ t a r hacc)⟩
    · refine ⟨huid.trans_lt hlt, fun t a r hacc => ?_⟩
      exact horigin.prepared hspec hchosen t a r (hacc_old _ t a r hacc)
  · intro ev hev u hu
    rcases List.mem_append.mp hev with hev | hev
    · exact h.fresh ev hev u hu
    · rw [List.mem_singleton.mp hev] at hu
      exact (Option.some.inj hu).symm.trans huid |>.trans_lt hlt
  · intro w addr hacc
    refine (h.waiting w addr (hacc_old _ _ _ _ hacc)).imp (fun hw => hw.mono hmono) ?_
    have huids : ∀ b', ((s.issued cfg b i (s.prepared cfg e) stats p).bufs b').map (·.uid) =
        (s.bufs b').map (·.uid) := map_issued _ hi huid
    rintro (hw | hw)
    · refine .inl (List.mem_map.mp ?_)
      rw [show (s.issued cfg b i _ stats p).write.map _ = s.write.map _ from huids .write]
      exact List.mem_map.mpr hw
    · refine .inr (List.mem_map.mp ?_)
      rw [show (s.issued cfg b i _ stats p).active.map _ = s.active.map _ from huids .active]
      exact List.mem_map.mpr hw
  · refine h.log.snoc fun typeId addr route hacc => ?_
    exact (horigin typeId addr route (huid ▸ hacc)).2.2.1
  · have hlen := (List.getElem?_eq_some_iff.mp hi).1
    simp [hlen]
  · intro hc
    exact ⟨_, _, _, _, List.mem_append_right _ (List.mem_singleton_self _), hc⟩

theorem orderMid_keptBySend (b : Buf) (i : Nat) (e : Entry K) :
    KeptBySend cfg (fun _ => True) (OrderMid b i e) := by
  intro s req accepted s' hreq h hsend
  have hinv := orderInv_keptBySend s req accepted s' hreq h.inv hsend
  obtain ⟨-, rfl | rfl⟩ := prioritySend_eq_ok hsend
  · exact ⟨hinv, getElem?_enqueuePriority h.getElem, h.issued⟩
  · exact h

/-! ### Advance -/

theorem mem_eraseIdx_of_ne {α : Type} {l : List α} {i : Nat} {e x : α} (hi : l[i]? = some e)
    (hx : x ∈ l) (hne : x ≠ e) : x ∈ l.eraseIdx i := by
  obtain ⟨hlt, rfl⟩ := List.getElem?_eq_some_iff.mp hi
  have hmem := (List.getElem_cons_eraseIdx_perm hlt).mem_iff.mpr hx
  exact (List.mem_cons.mp hmem).resolve_left hne

theorem finish_quiet (cfg : Config) (e : Entry K) (s : ControllerBase K) :
    (s.finish cfg e).nextUid = s.nextUid ∧
      ∃ evs, (s.finish cfg e).log = s.log ++ evs ∧ Quiet evs := by
  unfold finish
  split_ifs
  · exact ⟨rfl, [_], rfl, by simp [Quiet, subject]⟩
  · refine ⟨rfl, [.departureScheduled e.uid s.clk,
      .completedWrite e.uid s.clk e.callback.isSome], ?_, by simp [Quiet, subject]⟩
    simp [setStats, record, notifyDepartureScheduled]
  · exact ⟨rfl, [], by simp [setStats], by simp [Quiet]⟩
  · exact ⟨rfl, [], by simp, by simp [Quiet]⟩

/-- A write that waits leaves its buffer by way of `t` only after its column command, or for the active
buffer. -/
theorem Waits.removeAt {t : ControllerBase K} {b : Buf} {i : Nat} {e : Entry K} {w : Nat}
    (hw : Waits s w) (ht : ∀ b', s.bufs b' ⊆ t.bufs b') (hi : (t.bufs b)[i]? = some e)
    (hne : e.uid ≠ w) : Waits (t.removeAt b i) w := by
  have hkept : ∀ b', ∀ x ∈ s.bufs b', x.uid = w → x ∈ (t.removeAt b i).bufs b' := by
    rintro b' x hx rfl
    rw [bufs_removeAt]
    split_ifs with hb
    · subst hb
      exact mem_eraseIdx_of_ne hi (ht b' hx) fun heq => hne (congrArg Entry.uid heq.symm)
    · exact ht b' hx
  rcases hw with ⟨x, hx, hu⟩ | ⟨x, hx, hu⟩
  · exact .inl ⟨x, hkept .write x hx hu, hu⟩
  · exact .inr ⟨x, hkept .active x hx hu, hu⟩

theorem OrderMid.retire {b : Buf} {i : Nat} {e : Entry K} (h : OrderMid b i e s)
    (hfinal : e.cmd = e.final) : OrderInv (s.retireRequest cfg b i e) := by
  obtain ⟨-, hbufs, -⟩ := finish_frame cfg e (s.leave cfg b e)
  obtain ⟨huid, evs, hlog, hevs⟩ := finish_quiet cfg e (s.leave cfg b e)
  refine h.inv.quiet (h.inv.writeSet.retireRequest h.getElem) huid.ge hlog hevs ?_ ?_
  · intro b' x hx
    have hmem := mem_bufs_removeAt hx
    rw [hbufs] at hmem
    obtain ⟨hlt, horigin⟩ := h.inv.entries b' x hmem
    exact ⟨hlt.trans_eq huid.symm, horigin⟩
  · intro w addr hacc hw
    by_cases heq : e.uid = w
    · -- the terminal command of a write is a column command
      subst heq
      obtain ⟨-, -, -, hwrite⟩ := (h.inv.entries b e (List.mem_of_getElem? h.getElem)).2 _ _ _ hacc
      exact .inl (h.issued (hfinal ▸ hwrite rfl))
    · refine .inr (hw.removeAt (fun b' => ?_) ?_ heq)
      · rw [hbufs]
        exact List.Subset.refl _
      · rw [hbufs]
        exact h.getElem

theorem OrderMid.promote {b : Buf} {i : Nat} {e : Entry K} (h : OrderMid b i e s) :
    OrderInv (s.promoteToActive cfg b i e) := by
  have hset : WriteSetOk (fun _ _ => True) (s.promoteToActive cfg b i e) := h.inv.writeSet.promoteToActive h.getElem
  unfold promoteToActive at hset ⊢
  split_ifs at hset ⊢ with hroom
  · have hsub : ∀ b', s.bufs b' ⊆ (s.enterActive cfg b e).bufs b' :=
      fun b' => bufs_subset_append .active b' e s
    have hlt := (List.getElem?_eq_some_iff.mp h.getElem).1
    have hi : ((s.enterActive cfg b e).bufs b)[i]? = some e := by
      rw [bufs_enterActive]
      split_ifs with hb
      · subst hb
        exact (List.getElem?_append_left hlt).trans h.getElem
      · exact h.getElem
    have hmem : e ∈ ((s.enterActive cfg b e).removeAt b i).active := by
      show e ∈ ((s.enterActive cfg b e).removeAt b i).bufs .active
      rw [bufs_removeAt]
      by_cases hb : b = .active
      · subst hb
        rw [if_pos rfl, bufs_enterActive, if_pos rfl]
        show e ∈ (s.bufs .active ++ [e]).eraseIdx i
        rw [List.eraseIdx_append_of_lt_length hlt]
        exact List.mem_append_right _ (List.mem_singleton_self e)
      · rw [if_neg (Ne.symm hb), bufs_enterActive, if_pos rfl]
        exact List.mem_append_right _ (List.mem_singleton_self e)
    refine h.inv.quiet hset le_rfl (List.append_nil _).symm (by simp [Quiet]) ?_ ?_
    · intro b' x hx
      rcases mem_bufs_append (mem_bufs_removeAt hx) with hold | rfl
      · exact h.inv.entries b' x hold
      · exact h.inv.entries b x (List.mem_of_getElem? h.getElem)
    · intro w addr hacc hw
      by_cases heq : e.uid = w
      · exact .inr (.inr ⟨e, hmem, heq⟩)
      · exact .inr (hw.removeAt hsub hi heq)
  · exact h.inv

theorem OrderMid.advance {b : Buf} {i : Nat} {e : Entry K} (h : OrderMid b i e s) :
    OrderInv (s.advance cfg b i e) := by
  unfold ControllerBase.advance
  split_ifs with hfinal
  · exact h.retire hfinal
  · exact h.promote
  · exact h.inv

theorem OrderInv.tick (hspec : PlainWrites cfg.spec) (h : OrderInv s) {inputs : TickInputs K}
    (htick : s.tick cfg inputs = .ok s') : OrderInv s' := by
  refine tick_preserves (fun _ => True) (fun _ _ _ => True) OrderInv OrderMid orderInv_keptBySend
    (fun b i e => orderMid_keptBySend b i e) (fun _ _ => trivial) ?_
    (fun s hs => hs.tickPrologue) (fun s s' hres hs => hs.resolved hres) ?_
    (fun s b i e hmid => hmid.advance) (fun _ _ => trivial) (fun _ _ _ _ _ _ _ => trivial) h htick
  · exact fun s p hs => ⟨hs.writeSet.frame rfl rfl, hs.entries, hs.fresh,
      hs.waiting, hs.log⟩
  · exact fun s b i e stats p hs _ hcand _ => hs.issued hspec hcand.toChosen stats p

theorem orderInv_of_reachable (hspec : PlainWrites cfg.spec) (hs : ReachableIf cfg (NoRace cfg) s) :
    OrderInv s := by
  refine hs.invariant OrderInv orderInv_init ?_
  rintro s (⟨apply, req⟩ | req | inputs) s' h ⟨hrace, hcall⟩
  · obtain ⟨⟨accepted, req', t⟩, hsend, rfl⟩ := except_map_eq_ok.mp hcall
    exact h.send hspec hrace hsend
  · obtain ⟨⟨accepted, t⟩, hsend, rfl⟩ := except_map_eq_ok.mp hcall
    exact orderInv_keptBySend s req accepted t trivial h hsend
  · exact h.tick hspec hcall

/-- In a trace: if a write was buffered and a read to the same address was accepted after it, then the
read's column command comes after the write's. -/
def ReadAfterWrite (log : List Event) : Prop :=
  ∀ w r addr route l₁ l₂ l₃,
    log = l₁ ++ .accepted w Request.write addr .buffered :: l₂ ++
      .accepted r Request.read addr route :: l₃ →
    ∀ p q c a targets active, log = p ++ .issued r c a targets active :: q → c ∈ readCommands →
      WriteIssued p w

/-- Read-after-write order, in every run in which no read enters the read buffer while a write to its
address is active. -/
theorem read_after_write (hspec : PlainWrites cfg.spec) (hs : ReachableIf cfg (NoRace cfg) s) :
    ReadAfterWrite s.log := by
  intro w r addr route l₁ l₂ l₃ hacc p q c a targets active hissued _
  have hlog := (orderInv_of_reachable hspec hs).log
  obtain ⟨hbefore, hbehind⟩ := hlog _ _ _ hacc
  -- the read was accepted before its command was issued
  rcases eq_append_cons_cases (hissued.symm.trans hacc) with ⟨t, rfl⟩ | ⟨t, ht⟩ | ⟨-, heq⟩
  · have hroute : route = .buffered :=
      hlog _ _ _ hissued _ _ route (List.mem_append_right _ List.mem_cons_self)
    have hw := hbehind rfl hroute w (List.mem_append_right _ List.mem_cons_self)
    exact hw.mono (List.subset_append_left _ _)
  · refine absurd ?_ (hbefore c a targets active)
    rw [ht]
    exact List.mem_append_right _ List.mem_cons_self
  · cases heq

theorem plainWrites_smallDDR : PlainWrites smallDDR where
  writeCommand := rfl
  noShort := rfl

/-- The check of `NoRace`. -/
def noRace (cfg : Config) (s : ControllerBase K) : Call K → Bool
  | .send _ req =>
      decide (req.typeId ≠ Request.read ∨ req.addr ∈ s.bufferedWriteAddrs ∨
        cfg.readBufferSize ≤ s.read.length) ||
        s.active.all fun e => e.typeId ≠ Request.write || e.addr ≠ req.addr
  | _ => true

theorem noRace_sound {c : Call K} (h : noRace cfg s c = true) : NoRace cfg s c := by
  rintro apply req rfl ht hfree hroom e he htype haddr
  simp only [noRace, Bool.or_eq_true, decide_eq_true_eq, List.all_eq_true] at h
  rcases h with (h | h | h) | h
  · exact h ht
  · exact hfree h
  · omega
  · exact (h e he).elim (fun hne => hne htype) fun hne => hne haddr

/-- A read that arrives after the write's column command is buffered and served behind it. -/
theorem read_after_write_served : PlainWrites smallConfig.spec ∧ ∃ s : ControllerBase Unit,
    ReachableIf smallConfig (NoRace smallConfig) s ∧
      s.log.filterMap issuedCommand =
        [(0, .ACT), (0, .WR), (2, .PREpb), (1, .ACT), (1, .RD)] ∧
      ReadAfterWrite s.log := by
  have hrun : observe smallConfig (noRace smallConfig)
      ([smallSend 64 Request.write] ++ List.replicate 7 (.tick {}) ++
        [smallSend 64 Request.read] ++ List.replicate 7 (.tick {}))
      (fun s : ControllerBase Unit => s.log.filterMap issuedCommand) =
      .ok [(0, .ACT), (0, .WR), (2, .PREpb), (1, .ACT), (1, .RD)] := by
    decide +kernel
  obtain ⟨s, hs, hlog⟩ := reachable_of_observe (fun _ _ => noRace_sound) hrun
  exact ⟨plainWrites_smallDDR, s, hs, hlog, read_after_write plainWrites_smallDDR hs⟩

/-- A read that arrives while the write waits for its column command overtakes it. -/
theorem read_overtakes_active_write : PlainWrites smallConfig.spec ∧ ∃ s : ControllerBase Unit,
    ReachableIf smallConfig (fun _ _ => True) s ∧ ¬ ReadAfterWrite s.log := by
  have hrun : observe smallConfig (fun _ _ => true)
      [smallSend 64 Request.write, .tick {}, smallSend 64 Request.read, .tick {}, .tick {}]
      (fun s : ControllerBase Unit => s.log) =
      .ok ([.accepted 0 Request.write 64 .buffered,
          .issued 0 .ACT smallRow [(0, ⟨.closed, []⟩)] [],
          .accepted 1 Request.read 64 .buffered] ++
        .issued 1 .RD smallRow [(0, ⟨.opened, [5]⟩)] [(0, 0)] :: [.departureScheduled 1 7]) := by
    decide +kernel
  obtain ⟨s, hs, hlog⟩ := reachable_of_observe (fun _ _ _ => trivial) hrun
  refine ⟨plainWrites_smallDDR, s, hs, fun horder => ?_⟩
  obtain ⟨c, addr, targets, active, hmem, hc⟩ :=
    horder 0 1 64 .buffered [] [_] [_, _] hlog _ _ _ _ _ _ hlog (by decide)
  -- only the activation of the write is there
  simp only [List.mem_cons, Event.issued.injEq, reduceCtorEq, List.not_mem_nil, or_false, false_or]
    at hmem
  rw [hmem.2.1] at hc
  exact absurd hc (by decide)

end Ramulator.Controller
