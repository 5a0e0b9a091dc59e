/-
# Ramulator.Controller.GDDR7ReadClock — the discipline of the read clock.

Only the column bus carries reads and clock commands, so a tick issues one of them at most. A clock that
had to be started stays on while a read waits for its column command, and a read leaves the read and the
active buffer through that command alone. So the clock stops only after a read, and strands none.
-/
import Ramulator.Controller.GDDR7
import Ramulator.Controller.HBMPairing
import Ramulator.Controller.Ordering
import Ramulator.Controller.PRACAlert

namespace Ramulator.Controller

open Ramulator.Base (Request)
open Ramulator.Dram Ramulator.Lib

variable {K : Type} {cfg : Config}

/-! ## What GDDR7 fixes -/

def gddr7RowCommands : List Command := [.ACT, .PREpb, .PREab, .REFab, .REFpb, .RFMab, .RFMpb]

def gddr7ColumnCommands : List Command := [.RD, .WR, .RDA, .WRA, .RCKSTRT, .RCKSTOP]

structure IsGDDR7 (cfg : Config) (h : HBMConfig) : Prop where
  supports : ∀ c, cfg.spec.supports c = true ↔ c ∈ gddr7RowCommands ++ gddr7ColumnCommands
  rowCommand : ∀ c, h.isRowCommand c = true ↔ c ∈ gddr7RowCommands
  columnCommand : ∀ c, h.isColumnCommand c = true ↔ c ∈ gddr7ColumnCommands
  readCommand : cfg.spec.readCommand = .RD
  writeCommand : cfg.spec.writeCommand = .WR

def isRck (c : Command) : Bool := c = .RCKSTRT || c = .RCKSTOP

/-- No priority request names a clock command, and one of the type of a read asks for a read. The second
part is needed because the clock is started for whatever has that type and waits: if another command
served it, the clock would stop with no read in between. The repository's callers set no type. -/
def PriorityOk (req : Request Command K) : Prop :=
  ∀ c, req.finalCommand = some c → isRck c = false ∧ (req.typeId = Request.read → isReadLike c = true)

/-- The priority requests of a call are such requests. -/
def GDDR7Config.Call.Ok : GDDR7Config.Call K → Prop
  | .send _ _ => True
  | .prioritySend req => PriorityOk req
  | .tick inputs =>
      ∀ r ∈ inputs.refresh ++ inputs.preSchedule ++ inputs.onIssue ++ inputs.onRowIssue ++
        inputs.postSchedule, PriorityOk r

/-- On the way to a command no clock command is needed, and on the way to a read no write. -/
theorem preq_rck (c : Command) (split : Bool) (row : Int) (bank : BankState) :
    (isRck (c.preq split row bank) = true → isRck c = true) ∧
      (isReadLike c = true → c.preq split row bank ≠ .WR) := by
  cases c <;>
    simp only [Command.preq, Command.actPreq, Command.act1Preq, Command.act2Preq, Command.closedPreq] <;>
    constructor <;> (repeat' split) <;> decide

theorem getPreqCommand_rck (spec : Standard) (d : DRAMDevice) (c : Command) (addr : AddrVec) :
    (isRck (d.getPreqCommand spec c addr) = true → isRck c = true) ∧
      (isReadLike c = true → d.getPreqCommand spec c addr ≠ .WR) := by
  rcases getPreqCommand_cases spec d c addr with ⟨heq, -⟩ | ⟨b, -, heq, -⟩
  · rw [heq]
    refine ⟨id, fun hread hwrite => ?_⟩
    rw [hwrite] at hread
    cases hread
  · rw [heq]
    exact preq_rck _ _ _ _

theorem IsGDDR7.apUpgrade {h : HBMConfig} (hspec : IsGDDR7 cfg h) {c ap : Command}
    (hap : apUpgrade cfg.spec c = some ap) : (c = .RD ∧ ap = .RDA) ∨ (c = .WR ∧ ap = .WRA) := by
  have hfind : ∀ {x y}, x ∈ gddr7RowCommands ++ gddr7ColumnCommands →
      findCommand cfg.spec [x, y] = some x := by
    intro x y hx
    unfold findCommand
    rw [List.find?_cons, (hspec.supports x).mpr hx]
  unfold Ramulator.Controller.apUpgrade at hap
  rw [hfind (by decide), hfind (by decide), hfind (by decide), hfind (by decide)] at hap
  dsimp only at hap
  split_ifs at hap with hrd hwr
  · exact .inl ⟨Option.some.inj hrd, (Option.some.inj hap).symm⟩
  · exact .inr ⟨Option.some.inj hwr, (Option.some.inj hap).symm⟩

/-! ## Reads in the buffers -/

namespace ControllerBase

variable {s s' : ControllerBase K} {b : Buf} {i : Nat} {e : Entry K} {uid : Nat}

/-- A buffered request never is for a clock command, and a read is for a read command. -/
def EntryOk (e : Entry K) : Prop :=
  isRck e.final = false ∧ (e.typeId = Request.read → isReadLike e.final = true)

/-- The read waits in the read or the active buffer. -/
def ReadWaits (s : ControllerBase K) (uid : Nat) : Prop :=
  ∃ b, (b = .read ∨ b = .active) ∧ ∃ e ∈ s.bufs b, e.uid = uid ∧ e.typeId = Request.read

/-- The column command of the read is in the log. -/
def ReadServed (log : List Event) (uid : Nat) : Prop := ∃ ev ∈ log, servesRead uid ev = true

/-- No accepted read is lost before its column command. -/
structure ReadsKept (s : ControllerBase K) : Prop where
  entries : ∀ b, ∀ e ∈ s.bufs b, EntryOk e
  reads : ∀ e ∈ s.read, e.typeId = Request.read
  waiting : ∀ ev ∈ s.log, ∀ uid, buffersRead ev = some uid → ReadWaits s uid ∨ ReadServed s.log uid

theorem ReadsKept.readsWaiting_iff (h : ReadsKept s) :
    GDDR7Config.readsWaiting s = true ↔ ∃ uid, ReadWaits s uid := by
  unfold GDDR7Config.readsWaiting
  rw [Bool.or_eq_true, decide_eq_true_eq, List.any_eq_true]
  constructor
  · rintro (hpos | ⟨e, he, htype⟩)
    · obtain ⟨e, he⟩ := List.exists_mem_of_length_pos hpos
      exact ⟨e.uid, .read, .inl rfl, e, he, rfl, h.reads e he⟩
    · exact ⟨e.uid, .active, .inr rfl, e, he, rfl, of_decide_eq_true htype⟩
  · rintro ⟨uid, b, rfl | rfl, e, he, -, htype⟩
    · exact .inl (List.length_pos_of_mem he)
    · exact .inr ⟨e, he, decide_eq_true htype⟩

theorem ReadsKept.waitingReads_eq_nil (h : ReadsKept s) (hnone : GDDR7Config.readsWaiting s = false) :
    waitingReads s.log = [] := by
  unfold waitingReads
  refine List.filter_eq_nil_iff.mpr fun uid huid => ?_
  obtain ⟨ev, hev, hbuffers⟩ := List.mem_filterMap.mp huid
  rcases h.waiting ev hev uid hbuffers with hwaits | hserved
  · rw [h.readsWaiting_iff.mpr ⟨uid, hwaits⟩] at hnone
    cases hnone
  · rw [List.any_eq_true.mpr hserved]
    decide

theorem ReadServed.mono {log log' : List Event} (h : ReadServed log uid) (hsub : log ⊆ log') :
    ReadServed log' uid := by
  obtain ⟨ev, hev, hserves⟩ := h
  exact ⟨ev, hsub hev, hserves⟩

/-- Where no read is accepted, it is enough that waiting reads wait on or are served. -/
theorem ReadsKept.frame (h : ReadsKept s) (hentries : ∀ b, ∀ e ∈ s'.bufs b, EntryOk e)
    (hreads : ∀ e ∈ s'.read, e.typeId = Request.read) {evs : List Event} (hlog : s'.log = s.log ++ evs)
    (hevs : ∀ ev ∈ evs, buffersRead ev = none)
    (hwaits : ∀ uid, ReadWaits s uid → ReadWaits s' uid ∨ ReadServed s'.log uid) : ReadsKept s' where
  entries := hentries
  reads := hreads
  waiting := by
    intro ev hev uid hbuffers
    rw [hlog] at hev
    rcases List.mem_append.mp hev with hold | hnew
    · rcases h.waiting ev hold uid hbuffers with hw | hserved
      · exact hwaits uid hw
      · exact .inr (hserved.mono (hlog ▸ List.subset_append_left _ _))
    · rw [hevs ev hnew] at hbuffers
      cases hbuffers

theorem ReadWaits.of_bufs (h : ReadWaits s uid)
    (hbufs : ∀ b, b = Buf.read ∨ b = Buf.active → s.bufs b ⊆ s'.bufs b) : ReadWaits s' uid := by
  obtain ⟨b, hb, e, he, heq⟩ := h
  exact ⟨b, hb, e, hbufs b hb he, heq⟩

/-- Enqueueing priority requests does not touch the reads. -/
theorem ReadWaits.enqueued (h : ReadWaits s uid) (hsent : OnlyEnqueued s s') : ReadWaits s' uid := by
  refine h.of_bufs ?_
  rintro b (rfl | rfl)
  all_goals
    rw [hsent.bufs (by decide)]
    exact List.Subset.refl _

theorem ReadWaits.resolved (h : ReadWaits s uid) (hres : Resolved s s') : ReadWaits s' uid := by
  obtain ⟨b, hb, e, he, rfl, htype⟩ := h
  obtain ⟨e', he', hbare⟩ := exists_bare_eq (hres.bare b).symm he
  obtain ⟨huid, -, -, htype', -⟩ := of_bare_eq hbare
  exact ⟨b, hb, e', he', huid.symm, htype'.symm.trans htype⟩

theorem ReadsKept.resolved (h : ReadsKept s) (hres : Resolved s s') : ReadsKept s' := by
  have hlog : s'.log = s.log ++ [] := by rw [hres.rest, List.append_nil]
  refine h.frame ?_ ?_ hlog (by simp) fun uid hw => .inl (hw.resolved hres)
  · intro b e he
    obtain ⟨e₀, he₀, hbare⟩ := exists_bare_eq (hres.bare b) he
    obtain ⟨-, -, -, htype, hfinal, -⟩ := of_bare_eq hbare
    unfold EntryOk
    rw [hfinal, htype]
    exact h.entries b e₀ he₀
  · intro e he
    obtain ⟨e₀, he₀, hbare⟩ := exists_bare_eq (hres.bare .read) he
    exact (of_bare_eq hbare).2.2.2.1.trans (h.reads e₀ he₀)

/-! ### Sending -/

/-- A new request at the end of a buffer. -/
theorem entryOk_append {b' : Buf} (h : ∀ b, ∀ e ∈ s.bufs b, EntryOk e) (hnew : EntryOk e)
    (hbufs : s'.bufs b' = if b' = b then s.bufs b ++ [e] else s.bufs b') : ∀ x ∈ s'.bufs b', EntryOk x := by
  intro x hx
  rw [hbufs] at hx
  split_ifs at hx
  · rcases List.mem_append.mp hx with hold | hlast
    · exact h b x hold
    · rw [List.mem_singleton.mp hlast]
      exact hnew
  · exact h b' x hx

theorem entryOk_ofRequest {req : Request Command K} (hreq : PriorityOk req) {c : Command}
    (hc : req.finalCommand = some c) : EntryOk (Entry.ofRequest uid req) := by
  unfold EntryOk Entry.final Entry.ofRequest
  dsimp only
  rw [hc]
  exact hreq c hc

theorem readsKept_keptBySend : KeptBySend cfg PriorityOk (ReadsKept : ControllerBase K → Prop) := by
  intro t req accepted t' hreq ht hsend
  obtain ⟨⟨c, hc, -⟩, rfl | rfl⟩ := prioritySend_eq_ok hsend
  · refine ht.frame (fun b => ?_) ht.reads (List.append_nil _).symm (by simp) fun uid hw => .inl (hw.of_bufs ?_)
    · exact entryOk_append ht.entries (entryOk_ofRequest hreq hc) (bufs_setBuf .priority b _ _)
    · rintro b (rfl | rfl) <;> exact List.Subset.refl _
  · exact ht

theorem policyRequests_ok : PolicyRequests cfg (PriorityOk : Request Command K → Prop) := by
  intro channelId i c hc
  cases hc
  exact ⟨rfl, fun htype => absurd (show (-1 : Int) = 0 from htype) (by decide)⟩

/-- A mapped request has the command of its type. -/
theorem entryOk_mapped {h : HBMConfig} (hspec : IsGDDR7 cfg h) {apply : Request Command K → AddrVec}
    {req : Request Command K} (clk : Int) :
    EntryOk (Entry.ofRequest uid ((mapped cfg apply req).arrivedAt clk)) := by
  unfold EntryOk Entry.final Entry.ofRequest Request.arrivedAt mapped
  dsimp only
  rw [hspec.readCommand, hspec.writeCommand]
  split_ifs with htype
  · exact ⟨rfl, fun _ => rfl⟩
  · exact ⟨rfl, fun hread => absurd hread htype⟩

theorem ReadWaits.send (hw : ReadWaits s uid) {apply : Request Command K → AddrVec}
    {req req' : Request Command K} {accepted : Bool}
    (hsend : s.send cfg apply req = .ok (accepted, req', s')) : ReadWaits s' uid := by
  refine hw.of_bufs ?_
  rintro b (rfl | rfl)
  · rcases send_cases hsend with
      ⟨-, -, heq⟩ | ⟨-, -, -, heq⟩ | ⟨-, -, heq⟩ | ⟨-, -, -, heq⟩ | ⟨-, heq⟩
    all_goals
      obtain rfl := congrArg (fun r => r.2.2) heq
    · rw [forward_eq]
      exact List.Subset.refl _
    · exact List.subset_append_left _ _
    · rw [coalesce_eq]
      exact List.Subset.refl _
    · exact List.Subset.refl _
    · exact List.Subset.refl _
  · show s.active ⊆ s'.active
    rw [(send_frame hsend).2.2.1]
    exact List.Subset.refl _

theorem ReadsKept.send {h : HBMConfig} (hspec : IsGDDR7 cfg h) (hs : ReadsKept s)
    {apply : Request Command K → AddrVec} {req req' : Request Command K} {accepted : Bool}
    (hsend : s.send cfg apply req = .ok (accepted, req', s')) : ReadsKept s' := by
  rcases send_cases hsend with
    ⟨-, -, heq⟩ | ⟨hread, -, -, heq⟩ | ⟨-, -, heq⟩ | ⟨hwrite, -, -, heq⟩ | ⟨-, heq⟩
  all_goals
    obtain rfl := congrArg (fun r => r.2.2) heq
  · rw [forward_eq]
    exact hs.frame hs.entries hs.reads rfl (by simp [buffersRead]) fun uid hw => .inl hw
  · -- the accepted read is at the end of the read buffer
    have hread' : ((mapped cfg apply req).arrivedAt s.clk).typeId = Request.read := hread
    have hlast : (s.enqueueRead ((mapped cfg apply req).arrivedAt s.clk)).read =
        s.read ++ [Entry.ofRequest s.nextUid ((mapped cfg apply req).arrivedAt s.clk)] := rfl
    refine ⟨fun b => entryOk_append hs.entries (entryOk_mapped hspec s.clk) (bufs_setBuf .read b _ _), ?_, ?_⟩
    · intro e he
      rw [hlast] at he
      rcases List.mem_append.mp he with hold | hnew
      · exact hs.reads e hold
      · rw [List.mem_singleton.mp hnew]
        exact hread'
    · intro ev hev uid hbuffers
      have hlog : (s.enqueueRead ((mapped cfg apply req).arrivedAt s.clk)).log = s.log ++
          [.accepted s.nextUid (mapped cfg apply req).typeId (mapped cfg apply req).addr .buffered] := rfl
      rw [hlog] at hev ⊢
      rcases List.mem_append.mp hev with hold | hnew
      · rcases hs.waiting ev hold uid hbuffers with hw | hserved
        · exact .inl (hw.send hsend)
        · exact .inr (hserved.mono (List.subset_append_left _ _))
      · rw [List.mem_singleton.mp hnew] at hbuffers
        obtain rfl : s.nextUid = uid := by
          have hsome : some s.nextUid = some uid := (if_pos hread').symm.trans hbuffers
          exact Option.some.inj hsome
        refine .inl ⟨.read, .inl rfl,
          Entry.ofRequest s.nextUid ((mapped cfg apply req).arrivedAt s.clk), ?_, rfl, hread'⟩
        show _ ∈ (s.enqueueRead _).read
        rw [hlast]
        exact List.mem_append_right _ (List.mem_singleton_self _)
  · rw [coalesce_eq]
    exact hs.frame hs.entries hs.reads rfl (by simp [buffersRead]) fun uid hw => .inl hw
  · have hwrite' : (mapped cfg apply req).typeId ≠ Request.read := by
      show req.typeId ≠ Request.read
      rw [hwrite]
      decide
    refine hs.frame (fun b => ?_) hs.reads rfl ?_ fun uid hw => .inl (hw.of_bufs ?_)
    · exact entryOk_append hs.entries (entryOk_mapped hspec s.clk) (bufs_setBuf .write b _ _)
    · intro ev hev
      rw [List.mem_singleton.mp hev]
      exact if_neg hwrite'
    · rintro b (rfl | rfl) <;> exact List.Subset.refl _
  · exact hs

theorem ReadsKept.preTick (h : ReadsKept s) {inputs : TickInputs K}
    (hin : ∀ r ∈ inputs.refresh ++ inputs.preSchedule, PriorityOk r) (hpre : s.preTick cfg inputs = .ok s') :
    ReadsKept s' := by
  refine preTick_preserves readsKept_keptBySend policyRequests_ok
    (fun t p ht => ⟨ht.entries, ht.reads, ht.waiting⟩) (fun r hr => hin r (List.mem_append_left _ hr))
    (fun r hr => hin r (List.mem_append_right _ hr)) ?_ hpre
  obtain ⟨stats, hpro, -⟩ := tickPrologue_eq s
  rw [hpro]
  refine h.frame h.entries h.reads rfl (fun ev hev => ?_) fun uid hw => .inl hw
  obtain ⟨p, -, rfl⟩ := List.mem_map.mp hev
  rfl

/-! ### One slot -/

/-- An advance loses no request but the one whose terminal command was issued. -/
theorem mem_advance_of_mem (cfg : Config) {b' : Buf} {x : Entry K} (hi : (s.bufs b)[i]? = some e) (hx : x ∈ s.bufs b') :
    x ∈ (s.advance cfg b i e).bufs b' ∨
      x = e ∧ (e.cmd = e.final ∨ e ∈ (s.advance cfg b i e).bufs .active) := by
  have hlt := lt_of_getElem?_eq_some hi
  have hkept : ∀ (t : ControllerBase K), (t.bufs b)[i]? = some e → x ∈ t.bufs b' →
      x ∈ (t.removeAt b i).bufs b' ∨ x = e := by
    intro t ht hmem
    rw [bufs_removeAt]
    split_ifs with hb
    · subst hb
      by_cases hxe : x = e
      · exact .inr hxe
      · exact .inl (mem_eraseIdx_of_ne ht hmem hxe)
    · exact .inl hmem
  unfold advance
  split_ifs with hfinal hopening
  · have hbufs := (finish_frame cfg e (s.leave cfg b e)).2.1
    refine (hkept ((s.leave cfg b e).finish cfg e) ?_ ?_).imp id fun hxe => ⟨hxe, .inl hfinal⟩
    · rw [hbufs]
      exact hi
    · rw [hbufs]
      exact hx
  · unfold promoteToActive
    split_ifs with hroom
    · have hplace : ((s.enterActive cfg b e).bufs b)[i]? = some e := by
        rw [bufs_enterActive]
        split_ifs with hb
        · subst hb
          exact getElem?_push_of_some e hi
        · exact hi
      have hmem : x ∈ (s.enterActive cfg b e).bufs b' := by
        rw [bufs_enterActive]
        split_ifs with hb
        · subst hb
          exact List.mem_append_left _ hx
        · exact hx
      refine (hkept _ hplace hmem).imp id fun hxe => ⟨hxe, .inr ?_⟩
      -- the request itself is at the end of the active buffer, behind its old place
      rw [bufs_removeAt, bufs_enterActive, bufs_enterActive, if_pos rfl]
      by_cases hb : Buf.active = b
      · subst hb
        rw [if_pos rfl, if_pos rfl]
        show e ∈ (s.bufs .active ++ [e]).eraseIdx i
        rw [List.eraseIdx_append_of_lt_length hlt]
        exact List.mem_append_right _ (List.mem_singleton_self e)
      · rw [if_neg hb]
        exact List.mem_append_right _ (List.mem_singleton_self e)
    · exact .inl hx
  · exact .inl hx

/-- A read waits on unless it is the one whose column command was issued. -/
theorem ReadWaits.advance (hw : ReadWaits s uid) (hi : (s.bufs b)[i]? = some e) (hok : EntryOk e) :
    ReadWaits (s.advance cfg b i e) uid ∨ e.uid = uid ∧ isReadLike e.cmd = true := by
  obtain ⟨b', hb', x, hx, rfl, htype⟩ := hw
  rcases mem_advance_of_mem cfg hi hx with hmem | ⟨rfl, hfinal | hactive⟩
  · exact .inl ⟨b', hb', x, hmem, rfl, htype⟩
  · rw [hfinal]
    exact .inr ⟨rfl, hok.2 htype⟩
  · exact .inl ⟨.active, .inr rfl, x, hactive, rfl, htype⟩

/-- Between the issue of the command of `e` and its advance. -/
structure ReadsMid (b : Buf) (i : Nat) (e : Entry K) (s : ControllerBase K) : Prop where
  kept : ReadsKept s
  getElem : (s.bufs b)[i]? = some e
  served : isReadLike e.cmd = true → ReadServed s.log e.uid

theorem readsMid_keptBySend (b : Buf) (i : Nat) (e : Entry K) :
    KeptBySend cfg PriorityOk (ReadsMid b i e) := by
  intro t req accepted t' hreq ht hsend
  have hkept := readsKept_keptBySend t req accepted t' hreq ht.kept hsend
  obtain ⟨-, rfl | rfl⟩ := prioritySend_eq_ok hsend
  · exact ⟨hkept, getElem?_enqueuePriority ht.getElem, ht.served⟩
  · exact ht

theorem advance_log_accepts (cfg : Config) (b : Buf) (i : Nat) (e : Entry K) (s : ControllerBase K) :
    ∃ evs, (s.advance cfg b i e).log = s.log ++ evs ∧ ∀ ev ∈ evs, buffersRead ev = none := by
  unfold ControllerBase.advance
  split_ifs
  · obtain ⟨-, evs, hlog, hevs⟩ := finish_quiet cfg e (s.leave cfg b e)
    refine ⟨evs, hlog, fun ev hev => ?_⟩
    have hquiet := hevs ev hev
    cases ev with
    | accepted uid typeId addr route => cases hquiet
    | _ => rfl
  · unfold promoteToActive
    split_ifs <;> exact ⟨[], (List.append_nil _).symm, by simp⟩
  · exact ⟨[], (List.append_nil _).symm, by simp⟩

theorem ReadsMid.advance (h : ReadsMid b i e s) : ReadsKept (s.advance cfg b i e) := by
  have hok := h.kept.entries b e (List.mem_of_getElem? h.getElem)
  obtain ⟨evs, hlog, hevs⟩ := advance_log_accepts cfg b i e s
  refine h.kept.frame ?_ ?_ hlog hevs fun uid hw => ?_
  · intro b' x hx
    rcases mem_bufs_advance hx with hmem | ⟨-, rfl, -⟩
    · exact h.kept.entries b' x hmem
    · exact hok
  · intro x hx
    exact h.kept.reads x ((mem_bufs_advance hx).resolve_right fun hact => absurd hact.1 (by decide))
  · refine (hw.advance h.getElem hok).imp id ?_
    rintro ⟨rfl, hread⟩
    exact (h.served hread).mono (hlog ▸ List.subset_append_left _ _)

/-- Issuing the command of a request leaves it in its place. -/
theorem ReadWaits.issued {e' : Entry K} (hw : ReadWaits s uid) (hi : (s.bufs b)[i]? = some e)
    (huid : e'.uid = e.uid) (htype : e'.typeId = e.typeId) (stats : Stats) (p : RowPolicyState) :
    ReadWaits (s.issued cfg b i e' stats p) uid := by
  obtain ⟨b', hb', x, hx, rfl, hread⟩ := hw
  have hmap : ((s.issued cfg b i e' stats p).bufs b').map (fun x => (x.uid, x.typeId)) =
      (s.bufs b').map fun x => (x.uid, x.typeId) := map_issued _ hi (Prod.ext huid htype) b'
  have hmem := List.mem_map_of_mem (f := fun x : Entry K => (x.uid, x.typeId)) hx
  rw [← hmap] at hmem
  obtain ⟨y, hy, heq⟩ := List.mem_map.mp hmem
  obtain ⟨hyuid, hytype⟩ := Prod.mk.inj heq
  exact ⟨b', hb', y, hy, hyuid, hytype.trans hread⟩

theorem ReadsKept.issued {e' : Entry K} {stats : Stats} {p : RowPolicyState} (h : ReadsKept s)
    (hi : (s.bufs b)[i]? = some e) (huid : e'.uid = e.uid) (htype : e'.typeId = e.typeId) (hok : EntryOk e') :
    ReadsMid b i e' (s.issued cfg b i e' stats p) := by
  have hmem : ∀ b', ∀ x ∈ (s.issued cfg b i e' stats p).bufs b', x ∈ s.bufs b' ∨ b' = b ∧ x = e' := by
    intro b' x hx
    rw [bufs_issued] at hx
    split_ifs at hx with hb
    · subst hb
      exact (List.mem_or_eq_of_mem_set hx).imp id fun hxe => ⟨rfl, hxe⟩
    · exact .inl hx
  refine ⟨h.frame ?_ ?_ rfl (fun ev hev => ?_) fun uid hw => .inl (hw.issued hi huid htype stats p), ?_, fun hread => ?_⟩
  · intro b' x hx
    rcases hmem b' x hx with hold | ⟨-, rfl⟩
    · exact h.entries b' x hold
    · exact hok
  · intro x hx
    rcases hmem .read x hx with hold | ⟨rfl, rfl⟩
    · exact h.reads x hold
    · exact htype.trans (h.reads e (List.mem_of_getElem? hi))
  · rw [List.mem_singleton.mp hev]
    rfl
  · rw [bufs_issued, if_pos rfl]
    exact List.getElem?_set_self (lt_of_getElem?_eq_some hi)
  · refine ⟨_, List.mem_append_right _ (List.mem_singleton_self _), ?_⟩
    show (decide (e'.uid = e'.uid) && isReadLike e'.cmd) = true
    rw [hread, decide_eq_true rfl]
    rfl

/-- The row policy makes a read of a read, and never a clock command. -/
theorem onSlot_ok {h : HBMConfig} (hspec : IsGDDR7 cfg h) {f : Entry K → Bool} (hok : EntryOk e)
    (hcmd : e.cmd = s.device.getPreqCommand cfg.spec e.final e.addrVec) :
    EntryOk (s.onSlot cfg f e) ∧ isRck (s.onSlot cfg f e).cmd = false ∧
      (s.onSlot cfg f e).typeId = e.typeId := by
  obtain ⟨hrck, hread⟩ := getPreqCommand_rck cfg.spec s.device e.final e.addrVec
  rw [← hcmd] at hrck hread
  have hcmdOk : isRck e.cmd = false := by
    refine Bool.eq_false_of_not_eq_true fun hclock => ?_
    rw [hok.1] at hrck
    cases hrck hclock
  unfold onSlot upgradeOnSlot
  rcases tryUpgradeCommand_cases cfg s e with heq | ⟨ap, hap, -, heq⟩
  · rw [heq]
    dsimp only
    rw [if_neg fun hne => hne.1 rfl]
    exact ⟨hok, hcmdOk, rfl⟩
  · -- the upgrade replaces the terminal command, even where the next command is taken back
    have hap' := hspec.apUpgrade hap
    have hfinal : isRck ap = false ∧ (e.typeId = Request.read → isReadLike ap = true) := by
      rcases hap' with ⟨-, rfl⟩ | ⟨hwrite, rfl⟩
      · exact ⟨rfl, fun _ => rfl⟩
      · exact ⟨rfl, fun htype => absurd hwrite (hread (hok.2 htype))⟩
    rw [heq]
    dsimp only
    split_ifs
    · exact ⟨hfinal, hcmdOk, rfl⟩
    · exact ⟨hfinal, hfinal.1, rfl⟩

/-- A slot looks at the next command only. -/
def slotFits (K : Type) (g : GDDR7Config) (own : GDDR7State) (slot : SlotType) (c : Command) (a : AddrVec) :
    Bool :=
  g.slotMatches own slot (probe K c a)

/-- What one slot of a tick does to the reads. -/
structure SlotReads (g : GDDR7Config) (own : GDDR7State) (slot : SlotType) (s s' : ControllerBase K)
    (issued : Option IssuedCommand) : Prop where
  kept : ReadsKept s'
  clk : s'.clk = s.clk
  waits : ∀ uid, ReadWaits s uid → ReadWaits s' uid ∨ ∃ c, issued = some c ∧ isReadLike c.command = true
  fits : ∀ c, issued = some c → slotFits K g own slot c.command c.addrVec = true
  notRck : ∀ c, issued = some c → isRck c.command = false
  at_clk : ∀ c, issued = some c → c.clk = s.clk

theorem slotReads_tryIssueSlot {g : GDDR7Config} (hspec : IsGDDR7 cfg g.toHBMConfig) {own : GDDR7State}
    {slot : SlotType} {onIssue : List (Request Command K)} {issued : Option IssuedCommand}
    (hs : ReadsKept s) (hin : ∀ r ∈ onIssue, PriorityOk r)
    (h : s.tryIssueSlot cfg (g.slotMatches own slot) slot onIssue = .ok (s', issued)) :
    SlotReads g own slot s s' issued := by
  have hf : ∀ e : Entry K, g.slotMatches own slot e = slotFits K g own slot e.cmd e.addrVec := fun _ => rfl
  rcases tryIssueSlot_cases hf h with
    ⟨rfl, hres⟩ | ⟨t, b, i, e, stats, p, u, hres, hcand, hfits, hp, rfl, rfl⟩
  · exact ⟨hs.resolved hres, by rw [hres.rest], fun uid hw => .inl (hw.resolved hres), nofun, nofun, nofun⟩
  · obtain ⟨huid, haddr, hfits', -⟩ := upgradeOnSlot_spec hf hcand.toChosen hfits
    have ht : ReadsKept t := hs.resolved hres
    have hi : (t.bufs b)[i]? = some e := hcand.getElem
    have hmem : e ∈ t.bufs b := List.mem_of_getElem? hi
    obtain ⟨hok, hrck, htype⟩ :=
      onSlot_ok (f := g.slotMatches own slot) hspec (ht.entries b e hmem) hcand.cmd
    have huid' : (t.onSlot cfg (g.slotMatches own slot) e).uid = e.uid := huid
    have hfit : slotFits K g own slot (t.onSlot cfg (g.slotMatches own slot) e).cmd
        (t.onSlot cfg (g.slotMatches own slot) e).addrVec = true := by
      rw [show (t.onSlot cfg (g.slotMatches own slot) e).addrVec = e.addrVec from haddr]
      exact hfits'
    clear huid haddr hfits'
    generalize t.onSlot cfg (g.slotMatches own slot) e = x at *
    have hmid : ReadsMid b i x u := prioritySendAll_preserves (readsMid_keptBySend b i x) hin
      (ht.issued hi huid' htype hok) hp
    have hsent := onlyEnqueued_prioritySendAll hp
    have hclk : u.clk = s.clk := hsent.clk.trans (by show t.clk = s.clk; rw [hres.rest])
    refine ⟨hmid.advance, (advance_clk cfg b i x u).trans hclk, fun uid hw => ?_, ?_, ?_, ?_⟩
    · have hw' : ReadWaits u uid :=
        ((hw.resolved hres).issued hi huid' htype stats p).enqueued hsent
      exact (hw'.advance hmid.getElem hok).imp id fun hread => ⟨_, rfl, hread.2⟩
    all_goals rintro c ⟨rfl⟩
    · exact hfit
    · exact hrck
    · exact hclk

/-! ### The column bus -/

/-- What a clock command does to the reads: nothing. -/
structure ClockReads (cfg : Config) (g : GDDR7Config) (own : GDDR7State) (s s' : ControllerBase K)
    (issued : Option IssuedCommand) : Prop where
  kept : ReadsKept s'
  clk : s'.clk = s.clk
  waits : ∀ uid, ReadWaits s uid → ReadWaits s' uid
  issued : ∃ c, g.getRckCmd own s = some c ∧ issued = some ⟨c, GDDR7Config.channelAddr cfg, s.clk⟩

theorem tryIssueInternalRck_cases {g : GDDR7Config} {own : GDDR7State} {onIssue : List (Request Command K)}
    {issued : Option IssuedCommand} (hs : ReadsKept s) (hin : ∀ r ∈ onIssue, PriorityOk r)
    (h : g.tryIssueInternalRck cfg own onIssue s = .ok (s', issued)) :
    (issued = none ∧ s' = s) ∨ ClockReads cfg g own s s' issued := by
  unfold GDDR7Config.tryIssueInternalRck at h
  cases hcmd : g.getRckCmd own s with
  | none =>
      rw [hcmd] at h
      cases h
      exact .inl ⟨rfl, rfl⟩
  | some c =>
      rw [hcmd] at h
      dsimp only at h
      split_ifs at h
      · cases h
        exact .inl ⟨rfl, rfl⟩
      · obtain ⟨t, ht, heq⟩ := except_map_eq_ok.mp h
        cases heq
        obtain ⟨p, hp⟩ := rowPolicyOnIssue_eq cfg
          (Entry.ofRequest s.nextUid { Request.ofCommand (GDDR7Config.channelAddr cfg) c with command := some c })
          { s with device := s.device.issueCommand cfg.spec c (GDDR7Config.channelAddr cfg) s.clk }
        rw [hp] at ht
        have hsent := onlyEnqueued_prioritySendAll ht
        refine .inr ⟨?_, hsent.clk, fun uid hw => ?_, c, hcmd, ?_⟩
        · refine prioritySendAll_preserves readsKept_keptBySend hin ?_ ht
          exact ⟨hs.entries, hs.reads, hs.waiting⟩
        · refine ReadWaits.enqueued ?_ hsent
          exact hw.of_bufs fun b _ => List.Subset.refl _
        · rw [hsent.clk]

/-- The column bus carries a clock command or serves a slot. -/
theorem columnBus_cases {g : GDDR7Config} (hspec : IsGDDR7 cfg g.toHBMConfig) {own : GDDR7State}
    {onIssue : List (Request Command K)} {issued : Option IssuedCommand} (hs : ReadsKept s)
    (hin : ∀ r ∈ onIssue, PriorityOk r) (h : g.columnBus cfg own onIssue s = .ok (s', issued)) :
    ClockReads cfg g own s s' issued ∨ SlotReads g own .columnBus s s' issued := by
  obtain ⟨⟨t, rck⟩, hrck, hslot⟩ := except_bind_eq_ok.mp h
  rcases tryIssueInternalRck_cases hs hin hrck with ⟨rfl, rfl⟩ | hclock
  · exact .inr (slotReads_tryIssueSlot hspec hs hin hslot)
  · obtain ⟨c, -, hsome⟩ := hclock.issued
    have hcond : rck.isSome = true := by
      rw [hsome]
      rfl
    dsimp only at hslot
    rw [if_pos hcond] at hslot
    cases hslot
    exact .inl hclock

end ControllerBase

/-! ## The discipline -/

/-- The commands that set the clock going. -/
def RCKMode.starts (mode : RCKMode) (c : Command) : Bool :=
  match mode with
  | .alwaysOn => false
  | .startWithRead => isReadLike c
  | .startWithRckStrt => c = .RCKSTRT

namespace RckIssue

def IsRead (x : RckIssue) : Prop := isReadLike x.command = true

def IsStart (x : RckIssue) : Prop := x.command = .RCKSTRT

def IsStop (x : RckIssue) : Prop := x.command = .RCKSTOP

end RckIssue

/-- What a command has to satisfy, given those before it. -/
structure Disciplined (g : GDDR7Config) (past : List RckIssue) (x : RckIssue) : Prop where
  alwaysOn : g.rckMode = .alwaysOn → isRck x.command = false
  stop : x.IsStop → Since RckIssue.IsRead RckIssue.IsStop past ∧
    (∀ r ∈ past, r.IsRead → r.clk + g.rckIdleThreshold ≤ x.clk) ∧ x.waiting = []
  start : x.IsStart → g.rckMode = .startWithRckStrt ∧ ¬Since RckIssue.IsStart RckIssue.IsStop past
  started : g.rckMode = .startWithRckStrt → x.IsStop → Since RckIssue.IsStart RckIssue.IsStop past
  clocked : g.rckMode = .startWithRckStrt → x.IsRead →
    Since (fun r => r.IsStart ∧ r.clk < x.clk) RckIssue.IsStop past

/-- The state of the clock and the history, when the reads wait or do not. -/
structure ClockInv (g : GDDR7Config) (own : GDDR7State) (clk : Int) (waits : Prop) : Prop where
  disciplined : Justified (Disciplined g) own.issues
  state : own.rckState = .toggling ↔
    g.rckMode = .alwaysOn ∨ Since (fun x => g.rckMode.starts x.command = true) RckIssue.IsStop own.issues
  lastRead : ∀ x ∈ own.issues, x.IsRead → x.clk ≤ own.lastReadClk
  clocks : ∀ x ∈ own.issues, x.clk ≤ clk
  pending : g.rckMode = .startWithRckStrt → own.rckState = .toggling →
    waits ∨ Since RckIssue.IsRead RckIssue.IsStop own.issues

/-- What the controller looks at before it issues a command. -/
structure Permitted (g : GDDR7Config) (own : GDDR7State) (waits : Prop) (x : RckIssue) : Prop where
  start : x.IsStart → g.rckMode = .startWithRckStrt ∧ own.rckState = .stopped ∧ waits
  stop : x.IsStop → g.rckMode ≠ .alwaysOn ∧ own.rckState = .toggling ∧ ¬waits ∧
    g.rckIdleThreshold ≤ x.clk - own.lastReadClk ∧ x.waiting = []
  read : x.IsRead → g.rckMode = .startWithRckStrt → own.rckState = .toggling

namespace GDDR7State

/-- The fields after a command: brought up to date, with the history. -/
def after (g : GDDR7Config) (x : RckIssue) (own : GDDR7State) : GDDR7State :=
  { g.updateRckStateOnIssue x.clk (some ⟨x.command, [], x.clk⟩) own with issues := own.issues ++ [x] }

end GDDR7State

section Clock

variable {g : GDDR7Config} {own : GDDR7State} {clk : Int} {waits waits' : Prop} {x : RckIssue}

theorem Permitted.disciplined (hx : Permitted g own waits x) (h : ClockInv g own clk waits)
    (hlater : x.IsRead → clk < x.clk) : Disciplined g own.issues x := by
  have hstart : g.rckMode = .startWithRckStrt →
      (own.rckState = .toggling ↔ Since RckIssue.IsStart RckIssue.IsStop own.issues) := by
    intro hmode
    have hstate := h.state
    rw [hmode] at hstate
    refine hstate.trans ⟨fun hs => ?_, fun hs => .inr ?_⟩
    · exact (hs.resolve_left (by decide)).mono fun r _ hr => show r.command = .RCKSTRT from of_decide_eq_true hr
    · exact hs.mono fun r _ hr => decide_eq_true (show r.command = .RCKSTRT from hr)
  refine ⟨fun hmode => ?_, fun hstop => ?_, fun hs => ?_, fun hmode hstop => ?_, fun hmode hread => ?_⟩
  · by_contra hrck
    rcases (Bool.or_eq_true _ _).mp (Bool.eq_true_of_not_eq_false hrck) with hs | hs
    · rw [(hx.start (show x.command = .RCKSTRT from of_decide_eq_true hs)).1] at hmode
      cases hmode
    · exact (hx.stop (show x.command = .RCKSTOP from of_decide_eq_true hs)).1 hmode
  · obtain ⟨hmode, hstate, hnot, hidle, hwaiting⟩ := hx.stop hstop
    refine ⟨?_, fun r hr hread => ?_, hwaiting⟩
    · cases hg : g.rckMode with
      | alwaysOn => exact absurd hg hmode
      | startWithRead =>
          have hsince := (h.state.mp hstate).resolve_left hmode
          rw [hg] at hsince
          exact hsince
      | startWithRckStrt => exact (h.pending hg hstate).resolve_left hnot
    · have hlast := h.lastRead r hr hread
      omega
  · obtain ⟨hmode, hstopped, -⟩ := hx.start hs
    refine ⟨hmode, fun hsince => ?_⟩
    rw [(hstart hmode).mpr hsince] at hstopped
    cases hstopped
  · exact (hstart hmode).mp (hx.stop hstop).2.1
  · refine ((hstart hmode).mp (hx.read hread hmode)).mono fun r hr hrs => ⟨hrs, ?_⟩
    exact lt_of_le_of_lt (h.clocks r hr) (hlater hread)

/-- One command, whose clock is that of the tick. -/
theorem ClockInv.after (h : ClockInv g own clk waits) (hx : Permitted g own waits x) (hle : clk ≤ x.clk)
    (hlater : x.IsRead → clk < x.clk) (hwaits : waits → waits' ∨ x.IsRead) :
    ClockInv g (own.after g x) x.clk waits' := by
  have hclocks : ∀ y ∈ own.issues ++ [x], y.clk ≤ x.clk := by
    intro y hy
    rcases List.mem_append.mp hy with hold | hnew
    · exact (h.clocks y hold).trans hle
    · rw [List.mem_singleton.mp hnew]
  have hjust : Justified (Disciplined g) (own.issues ++ [x]) := h.disciplined.snoc (hx.disciplined h hlater)
  have hlast : ¬x.IsRead → ∀ y ∈ own.issues ++ [x], y.IsRead → y.clk ≤ own.lastReadClk := by
    intro hnot y hy hread
    rcases List.mem_append.mp hy with hold | hnew
    · exact h.lastRead y hold hread
    · rw [List.mem_singleton.mp hnew] at hread
      exact absurd hread hnot
  unfold GDDR7State.after GDDR7Config.updateRckStateOnIssue
  dsimp only
  by_cases hstart : x.command = .RCKSTRT
  · obtain ⟨hmode, -, hw⟩ := hx.start hstart
    -- a start, which is for a read that waits
    have hnot : ¬x.IsRead := fun hread => by
      rw [RckIssue.IsRead, hstart] at hread
      cases hread
    rw [if_pos hstart]
    refine ⟨hjust, ?_, hlast hnot, hclocks, fun _ _ => .inl ((hwaits hw).resolve_right hnot)⟩
    rw [since_snoc, hmode, hstart]
    exact iff_of_true rfl (.inr (.inl rfl))
  · rw [if_neg hstart]
    by_cases hstop : x.command = .RCKSTOP
    · have hnot : ¬x.IsRead := fun hread => by
        rw [RckIssue.IsRead, hstop] at hread
        cases hread
      rw [if_pos hstop]
      refine ⟨hjust, ?_, hlast hnot, hclocks, nofun⟩
      rw [since_snoc, hstop]
      refine iff_of_false nofun fun hon => ?_
      -- a stop: no mode has it as a start, and it follows whatever was on
      rcases hon with hmode | hstarts | hno
      · exact (hx.stop hstop).1 hmode
      · cases hg : g.rckMode <;> rw [hg] at hstarts <;> cases hstarts
      · exact hno.1 hstop
    · rw [if_neg hstop]
      by_cases hread : isReadLike x.command = true
      · rw [if_pos hread]
        -- a read, which is itself the last one
        refine ⟨hjust, ?_, fun y hy _ => hclocks y hy, hclocks, fun _ _ => .inr (since_snoc.mpr (.inl hread))⟩
        rw [since_snoc]
        dsimp only
        cases hg : g.rckMode with
        | alwaysOn =>
            rw [if_neg (fun hno => by cases hno.1)]
            exact iff_of_true (h.state.mpr (.inl hg)) (.inl rfl)
        | startWithRead =>
            refine iff_of_true ?_ (.inr (.inl hread))
            split_ifs with hoff
            · rfl
            · cases hs : own.rckState with
              | toggling => rfl
              | stopped => exact absurd ⟨rfl, hs⟩ hoff
        | startWithRckStrt =>
            rw [if_neg (fun hno => by cases hno.1), h.state, hg]
            refine or_congr_right ⟨fun hs => .inr ⟨hstop, hs⟩, fun hs => ?_⟩
            exact (hs.resolve_left fun hst => hstart (of_decide_eq_true hst)).2
      · rw [if_neg hread]
        refine ⟨hjust, ?_, hlast hread, hclocks, fun hmode hstate => ?_⟩
        · rw [since_snoc, h.state]
          refine or_congr_right ⟨fun hs => .inr ⟨hstop, hs⟩, fun hs => ?_⟩
          refine (hs.resolve_left fun hst => ?_).2
          cases hg : g.rckMode with
          | alwaysOn =>
              rw [hg] at hst
              cases hst
          | startWithRead =>
              rw [hg] at hst
              exact hread hst
          | startWithRckStrt =>
              rw [hg] at hst
              exact hstart (of_decide_eq_true hst)
        · rcases h.pending hmode hstate with hw | hsince
          · exact .inl ((hwaits hw).resolve_right hread)
          · exact .inr (since_snoc.mpr (.inr ⟨hstop, hsince⟩))

theorem ClockInv.mono (h : ClockInv g own clk waits) (hwaits : waits → waits') : ClockInv g own clk waits' :=
  ⟨h.disciplined, h.state, h.lastRead, h.clocks, fun hmode hs => (h.pending hmode hs).imp hwaits id⟩

/-- One slot of a tick at clock `n`, with its command or without. -/
theorem ClockInv.slot {n : Int} {log : List Event} {issued : Option IssuedCommand}
    (h : ClockInv g own clk waits) (hle : clk ≤ n) (hclk : ∀ c, issued = some c → c.clk = n)
    (hx : ∀ c, issued = some c → Permitted g own waits ⟨c.command, c.clk, waitingReads log⟩)
    (hlater : ∀ c, issued = some c → isReadLike c.command = true → clk < n)
    (hwaits : waits → waits' ∨ ∃ c, issued = some c ∧ isReadLike c.command = true) :
    ClockInv g ((g.updateRckStateOnIssue n issued own).note log issued) n waits' := by
  cases issued with
  | none =>
      have hown : (g.updateRckStateOnIssue n none own).note log none = own := by
        show { own with issues := own.issues ++ [] } = own
        rw [List.append_nil]
      rw [hown]
      refine ClockInv.mono ⟨h.disciplined, h.state, h.lastRead, fun x hx => (h.clocks x hx).trans hle, h.pending⟩ ?_
      exact fun hw => (hwaits hw).resolve_right nofun
  | some c =>
      obtain rfl := hclk c rfl
      have hown : (g.updateRckStateOnIssue c.clk (some c) own).note log (some c) =
          own.after g ⟨c.command, c.clk, waitingReads log⟩ := by
        unfold GDDR7State.note GDDR7State.after GDDR7Config.updateRckStateOnIssue
        dsimp only
        split_ifs <;> rfl
      rw [hown]
      refine h.after (hx c rfl) hle (hlater c rfl) fun hw => (hwaits hw).imp id ?_
      rintro ⟨_, ⟨rfl⟩, hread⟩
      exact hread

/-- The history can be written before the state of the clock is brought up to date. -/
theorem note_updateRckStateOnIssue (n : Int) (log : List Event) (issued issued' : Option IssuedCommand) :
    (g.updateRckStateOnIssue n issued own).note log issued' =
      g.updateRckStateOnIssue n issued (own.note log issued') := by
  cases issued with
  | none => rfl
  | some c =>
      unfold GDDR7State.note GDDR7Config.updateRckStateOnIssue
      dsimp only
      split_ifs <;> rfl

end Clock

namespace ControllerBase

variable {s s' : ControllerBase K} {g : GDDR7Config} {own : GDDR7State} {issued : Option IssuedCommand}
  {c : IssuedCommand}

/-- A row command leaves the clock alone. -/
theorem SlotReads.row (hspec : IsGDDR7 cfg g.toHBMConfig) (h : SlotReads g own .rowBus s s' issued)
    (hc : issued = some c) : isRck c.command = false ∧ isReadLike c.command = false := by
  have hfits := h.fits c hc
  unfold slotFits GDDR7Config.slotMatches at hfits
  split_ifs at hfits with hrow
  have hmem := (hspec.rowCommand c.command).mp (Bool.eq_true_of_not_eq_false hrow)
  generalize c.command = command at hmem
  revert hmem
  cases command <;> decide

theorem SlotReads.row_permitted (hspec : IsGDDR7 cfg g.toHBMConfig) (h : SlotReads g own .rowBus s s' issued)
    (hc : issued = some c) {own' : GDDR7State} {waits : Prop} {waiting : List Nat} :
    Permitted g own' waits ⟨c.command, c.clk, waiting⟩ := by
  obtain ⟨hrck, hread⟩ := h.row hspec hc
  refine ⟨fun hstart => ?_, fun hstop => ?_, fun hr => ?_⟩
  · rw [show c.command = .RCKSTRT from hstart] at hrck
    cases hrck
  · rw [show c.command = .RCKSTOP from hstop] at hrck
    cases hrck
  · rw [show isReadLike c.command = true from hr] at hread
    cases hread

/-- A column command of a request is no clock command, and no read while the clock has to be started. -/
theorem SlotReads.column_permitted (h : SlotReads g own .columnBus s s' issued) (hc : issued = some c)
    {waits : Prop} {waiting : List Nat} : Permitted g own waits ⟨c.command, c.clk, waiting⟩ := by
  have hrck := h.notRck c hc
  refine ⟨fun hstart => ?_, fun hstop => ?_, fun hr hmode => ?_⟩
  · rw [show c.command = .RCKSTRT from hstart] at hrck
    cases hrck
  · rw [show c.command = .RCKSTOP from hstop] at hrck
    cases hrck
  · have hfits := h.fits c hc
    unfold slotFits GDDR7Config.slotMatches at hfits
    split_ifs at hfits
    have hread : isReadLike (probe K c.command c.addrVec).cmd = true := hr
    rw [hmode, hread, Bool.and_true, decide_eq_true rfl, Bool.true_and] at hfits
    cases hs : own.rckState with
    | toggling => rfl
    | stopped =>
        rw [hs] at hfits
        cases hfits

/-- A clock command of the controller itself is permitted. -/
theorem ClockReads.permitted (hs : ReadsKept s) (h : ClockReads cfg g own s s' issued) (hc : issued = some c) :
    Permitted g own (∃ uid, ReadWaits s uid) ⟨c.command, c.clk, waitingReads s.log⟩ := by
  obtain ⟨command, hcmd, hsome⟩ := h.issued
  obtain rfl := Option.some.inj (hc.symm.trans hsome)
  dsimp only
  unfold GDDR7Config.getRckCmd at hcmd
  split_ifs at hcmd with hon hstart hstop
  · cases hcmd
    obtain ⟨hmode, hstopped, hreads, -⟩ := hstart
    exact ⟨fun _ => ⟨hmode, hstopped, hs.readsWaiting_iff.mp hreads⟩, nofun, nofun⟩
  · cases hcmd
    obtain ⟨htoggling, -, hreads, hidle, -⟩ := hstop
    refine ⟨nofun, fun _ => ⟨hon, htoggling, fun hw => ?_, hidle, hs.waitingReads_eq_nil hreads⟩, nofun⟩
    rw [hs.readsWaiting_iff.mpr hw] at hreads
    cases hreads

end ControllerBase

/-! ## Runs -/

namespace GDDR7Config

variable {g : GDDR7Config} {d d' : Derived K GDDR7State}

open ControllerBase

/-- What holds between calls. -/
structure ReadClockInv (g : GDDR7Config) (d : Derived K GDDR7State) : Prop where
  kept : ReadsKept d.base
  clock : ClockInv g d.own d.base.clk (∃ uid, ReadWaits d.base uid)

theorem readClockInv_start : ReadClockInv g (⟨ControllerBase.init cfg, g.start⟩ : Derived K GDDR7State) where
  kept := ⟨fun b e he => absurd he List.not_mem_nil, fun e he => absurd he List.not_mem_nil,
    fun ev hev => absurd hev List.not_mem_nil⟩
  clock := by
    refine ⟨justified_nil, ?_, fun x hx => absurd hx List.not_mem_nil, fun x hx => absurd hx List.not_mem_nil, ?_⟩
    · show (if g.rckMode = .alwaysOn then RCKState.toggling else .stopped) = .toggling ↔ _
      rw [show Since _ RckIssue.IsStop g.start.issues ↔ False from iff_of_false not_since_nil id, or_false]
      split_ifs with hmode
      · exact iff_of_true rfl hmode
      · exact iff_of_false nofun hmode
    · intro hmode hstate
      have hstopped : g.start.rckState = .stopped := if_neg fun hon => by
        rw [hmode] at hon
        cases hon
      rw [hstopped] at hstate
      cases hstate

theorem ReadClockInv.tick (hspec : IsGDDR7 cfg g.toHBMConfig) (h : ReadClockInv g d) {inputs : SlotInputs K}
    (hin : Call.Ok (.tick inputs)) (htick : g.tick cfg inputs d = .ok d') : ReadClockInv g d' := by
  have hin' : ∀ r ∈ inputs.refresh ++ inputs.preSchedule ++ inputs.onIssue ++ inputs.onRowIssue ++
      inputs.postSchedule, PriorityOk r := hin
  simp only [List.mem_append, or_assoc] at hin'
  obtain ⟨-, -, htick⟩ := except_bind_eq_ok.mp htick
  obtain ⟨s₁, hpre, htick⟩ := except_bind_eq_ok.mp htick
  obtain ⟨⟨s₂, col⟩, hcol, htick⟩ := except_bind_eq_ok.mp htick
  obtain ⟨-, -, htick⟩ := except_bind_eq_ok.mp htick
  obtain ⟨⟨s₃, row⟩, hrow, htick⟩ := except_bind_eq_ok.mp htick
  obtain ⟨-, -, htick⟩ := except_bind_eq_ok.mp htick
  obtain ⟨-, -, htick⟩ := except_bind_eq_ok.mp htick
  obtain ⟨s₄, hpost, htick⟩ := except_bind_eq_ok.mp htick
  cases htick
  obtain ⟨hclk₁, -, -, hbufs₁, -⟩ := preTick_frame hpre
  have hkept₁ : ReadsKept s₁ := h.kept.preTick (fun r hr => hin' r (by
    rcases List.mem_append.mp hr with hr | hr <;> tauto)) hpre
  have hclock₁ : ClockInv g d.own d.base.clk (∃ uid, ReadWaits s₁ uid) := by
    refine h.clock.mono fun ⟨uid, hw⟩ => ⟨uid, hw.of_bufs ?_⟩
    rintro b (rfl | rfl)
    all_goals
      rw [hbufs₁ _ (by decide)]
      exact List.Subset.refl _
  -- the column bus
  have hcol' := columnBus_cases hspec hkept₁ (fun r hr => hin' r (by tauto)) hcol
  have hkept₂ : ReadsKept s₂ := hcol'.elim ClockReads.kept SlotReads.kept
  have hclk₂ : s₂.clk = s₁.clk := hcol'.elim ClockReads.clk SlotReads.clk
  have hrow' := slotReads_tryIssueSlot hspec hkept₂ (fun r hr => hin' r (by tauto)) hrow
  have hclk₃ : s₃.clk = d.base.clk + 1 := hrow'.clk.trans (hclk₂.trans hclk₁)
  have hclock₂ : ClockInv g ((g.updateRckStateOnIssue s₃.clk col d.own).note s₁.log col) s₃.clk
      (∃ uid, ReadWaits s₂ uid) := by
    refine hclock₁.slot (by omega) (fun c hc => ?_) (fun c hc => ?_) (fun _ _ _ => by omega) ?_
    · rcases hcol' with hclock | hslot
      · obtain ⟨command, -, hsome⟩ := hclock.issued
        obtain rfl := Option.some.inj (hc.symm.trans hsome)
        exact (hclk₁.trans hclk₃.symm)
      · exact (hslot.at_clk c hc).trans (hclk₁.trans hclk₃.symm)
    · exact hcol'.elim (fun hclock => hclock.permitted hkept₁ hc) fun hslot => hslot.column_permitted hc
    · rintro ⟨uid, hw⟩
      rcases hcol' with hclock | hslot
      · exact .inl ⟨uid, hclock.waits uid hw⟩
      · exact (hslot.waits uid hw).imp (fun hw' => ⟨uid, hw'⟩) id
  -- the row bus
  have hclock₃ : ClockInv g ((g.updateRckStateOnIssue s₃.clk row
      ((g.updateRckStateOnIssue s₃.clk col d.own).note s₁.log col)).note s₂.log row) s₃.clk
      (∃ uid, ReadWaits s₃ uid) := by
    refine hclock₂.slot le_rfl (fun c hc => ?_) (fun c hc => hrow'.row_permitted hspec hc)
      (fun c hc hread => ?_) ?_
    · rw [hrow'.at_clk c hc, hrow'.clk]
    · rw [(hrow'.row hspec hc).2] at hread
      cases hread
    · rintro ⟨uid, hw⟩
      exact (hrow'.waits uid hw).imp (fun hw' => ⟨uid, hw'⟩) id
  rw [← note_updateRckStateOnIssue] at hclock₃
  -- the plugins after scheduling
  have hsent := onlyEnqueued_prioritySendAll hpost
  refine ⟨prioritySendAll_preserves readsKept_keptBySend (fun r hr => hin' r (by tauto)) hrow'.kept hpost, ?_⟩
  show ClockInv g _ s₄.clk _
  rw [hsent.clk]
  exact hclock₃.mono fun ⟨uid, hw⟩ => ⟨uid, hw.enqueued hsent⟩

theorem ReadClockInv.call (hspec : IsGDDR7 cfg g.toHBMConfig) (h : ReadClockInv g d) {c : Call K} (hok : c.Ok)
    (hcall : g.call cfg c d = .ok d') : ReadClockInv g d' := by
  cases c with
  | send apply req =>
      obtain ⟨⟨accepted, req', s'⟩, hsend, rfl⟩ := except_map_eq_ok.mp hcall
      refine ⟨h.kept.send hspec hsend, ?_⟩
      show ClockInv g d.own s'.clk _
      rw [(send_frame hsend).1]
      exact h.clock.mono fun ⟨uid, hw⟩ => ⟨uid, hw.send hsend⟩
  | prioritySend req =>
      obtain ⟨⟨accepted, s'⟩, hsend, rfl⟩ := except_map_eq_ok.mp hcall
      obtain ⟨-, -, hsend⟩ := except_bind_eq_ok.mp hsend
      have hsent := onlyEnqueued_keptBySend d.base d.base req accepted s' trivial (.refl d.base) hsend
      refine ⟨readsKept_keptBySend d.base req accepted s' hok h.kept hsend, ?_⟩
      show ClockInv g d.own s'.clk _
      rw [hsent.clk]
      exact h.clock.mono fun ⟨uid, hw⟩ => ⟨uid, hw.enqueued hsent⟩
  | tick inputs => exact h.tick hspec hok hcall


/-- The discipline of the read clock, over everything that has been issued. In the last part, `Since` says
that one of the starting commands has been issued and no `RCKSTOP` after it. -/
structure ReadClockDiscipline (g : GDDR7Config) (own : GDDR7State) : Prop where
  alwaysOn : g.rckMode = .alwaysOn → ∀ x ∈ own.issues, isRck x.command = false
  stop : Justified (fun past x => x.IsStop → Since RckIssue.IsRead RckIssue.IsStop past ∧
    (∀ r ∈ past, r.IsRead → r.clk + g.rckIdleThreshold ≤ x.clk) ∧ x.waiting = []) own.issues
  withRead : g.rckMode = .startWithRead → ∀ x ∈ own.issues, ¬x.IsStart
  alternate : g.rckMode = .startWithRckStrt → ∀ (i : Nat) (x : RckIssue),
    (own.issues.filter fun x => isRck x.command)[i]? = some x → if i % 2 = 0 then x.IsStart else x.IsStop
  clocked : g.rckMode = .startWithRckStrt → Justified (fun past x => x.IsRead →
    Since (fun r => r.IsStart ∧ r.clk < x.clk) RckIssue.IsStop past) own.issues
  state : own.rckState = .toggling ↔
    g.rckMode = .alwaysOn ∨ Since (fun x => g.rckMode.starts x.command = true) RckIssue.IsStop own.issues

theorem ReadClockInv.discipline (h : ReadClockInv g d) : ReadClockDiscipline g d.own := by
  have hall : ∀ x ∈ d.own.issues, ∃ past, Disciplined g past x := by
    intro x hx
    obtain ⟨past, rest, heq⟩ := List.append_of_mem hx
    exact ⟨past, h.clock.disciplined past x rest heq⟩
  refine ⟨fun hmode x hx => ?_, fun past x rest heq => ?_, fun hmode x hx hstart => ?_, fun hmode => ?_,
    fun hmode past x rest heq => ?_, h.clock.state⟩
  · obtain ⟨past, hx⟩ := hall x hx
    exact hx.alwaysOn hmode
  · exact (h.clock.disciplined past x rest heq).stop
  · obtain ⟨past, hx⟩ := hall x hx
    rw [(hx.start hstart).1] at hmode
    cases hmode
  · have hjust : Justified (fun past (x : RckIssue) =>
        (decide (x.command = .RCKSTRT) = true →
          ¬Since (fun x : RckIssue => decide (x.command = .RCKSTRT) = true)
            (fun x => decide (x.command = .RCKSTOP) = true) past) ∧
        (decide (x.command = .RCKSTOP) = true →
          Since (fun x : RckIssue => decide (x.command = .RCKSTRT) = true)
            (fun x => decide (x.command = .RCKSTOP) = true) past)) d.own.issues := by
      intro past x rest heq
      have hx := h.clock.disciplined past x rest heq
      simp only [decide_eq_true_eq]
      exact ⟨fun hs => (hx.start hs).2, fun hs => hx.started hmode hs⟩
    intro i x hi
    have halt := (alternates_of_justified hjust).2 i x hi
    simp only [decide_eq_true_eq] at halt
    exact halt
  · exact (h.clock.disciplined past x rest heq).clocked hmode

theorem init_toHBMConfig {h : HBMConfig} {rckMode : String} {rckIdleThreshold : Int}
    (hinit : GDDR7Config.init h rckMode rckIdleThreshold = .ok g) : g.toHBMConfig = h := by
  obtain ⟨mode, -, hg⟩ := except_bind_eq_ok.mp hinit
  split_ifs at hg
  cases hg
  rfl

/-- The read clock keeps its discipline in every run, whatever the mode. -/
theorem read_clock_discipline {h : HBMConfig} (hspec : IsGDDR7 cfg h) {rckMode : String} {rckIdleThreshold : Int}
    (hinit : GDDR7Config.init h rckMode rckIdleThreshold = .ok g) (d : Derived K GDDR7State)
    (hd : g.ReachedIf cfg Call.Ok d) : ReadClockDiscipline g d.own := by
  have hspec' : IsGDDR7 cfg g.toHBMConfig := by
    rw [init_toHBMConfig hinit]
    exact hspec
  have hinv : ReadClockInv g d := hd.invariant (ReadClockInv g) readClockInv_start
    fun d c d' hd hnext => hd.call hspec' hnext.1 hnext.2
  exact hinv.discipline

/-! ## A small instance -/

def smallGDDR7TimingCons (level : Nat) (c : Command) : List (TimingConsEntry Command) :=
  match level, c with
  | 0, .RCKSTRT => [{ cmd := .RD, val := 2 }, { cmd := .RDA, val := 2 }, { cmd := .RCKSTOP, val := 2 }]
  | 0, .RD => [{ cmd := .RCKSTOP, val := 2 }]
  | 0, .RCKSTOP => [{ cmd := .RCKSTRT, val := 2 }]
  | 1, .ACT => [{ cmd := .RD, val := 3 }]
  | _, _ => []

/-- One channel of two banks. -/
def smallGDDR7 : Standard where
  commands := Command.all
  commands_complete := Command.mem_all
  rowLevel := 2
  levelSizes := [1, 2, 16, 16]
  timingCons := smallGDDR7TimingCons
  commandCycles := fun _ => 1
  bankLevel := 1
  supports := fun c => c ∈ gddr7RowCommands ++ gddr7ColumnCommands
  readLatency := 4
  readCommand := .RD
  writeCommand := .WR

def smallGDDR7Config : Config where
  __ := smallConfig
  spec := smallGDDR7
  rowPolicy := .opened

def smallGDDR7Buses : HBMConfig where
  isColumnCommand := fun c => c ∈ gddr7ColumnCommands
  isRowCommand := fun c => c ∈ gddr7RowCommands

theorem isGDDR7_small : IsGDDR7 smallGDDR7Config smallGDDR7Buses where
  supports := fun _ => decide_eq_true_iff
  rowCommand := fun _ => decide_eq_true_iff
  columnCommand := fun _ => decide_eq_true_iff
  readCommand := rfl
  writeCommand := rfl

/-- A check for the calls of the concrete runs: sends and ticks in which no hook enqueues anything. -/
def sendOrPlainTick : Call Unit → Bool
  | .send _ _ => true
  | .prioritySend _ => false
  | .tick inputs =>
      (inputs.refresh ++ inputs.preSchedule ++ inputs.onIssue ++ inputs.onRowIssue ++
        inputs.postSchedule).isEmpty

theorem sendOrPlainTick_sound {c : Call Unit} (h : sendOrPlainTick c = true) : c.Ok := by
  cases c with
  | send apply req => exact trivial
  | prioritySend req => cases h
  | tick inputs =>
      intro r hr
      rw [List.isEmpty_iff.mp h] at hr
      cases hr

/-- The clock is started for a read, and stopped two cycles after it; then once more. -/
theorem read_clock_discipline_twoReads : ∃ (g : GDDR7Config) (d : Derived Unit GDDR7State),
    GDDR7Config.init smallGDDR7Buses "start_with_rckstrt" 2 = .ok g ∧
      g.ReachedIf smallGDDR7Config Call.Ok d ∧
      d.own.issues.map (fun x => (x.command, x.clk)) =
        [(.RCKSTRT, 1), (.ACT, 1), (.RD, 4), (.RCKSTOP, 6), (.RCKSTRT, 8), (.RD, 10)] ∧
      ReadClockDiscipline g d.own := by
  have hrun : (runAll (guarded (fun _ c => sendOrPlainTick c) "check failed"
        (GDDR7Config.call smallGDDR7Config ⟨smallGDDR7Buses, .startWithRckStrt, 2⟩))
      ([.send (fun _ => [0, 0, 5, 0]) (Request.ofAddr 0 0)] ++ List.replicate 6 (.tick {}) ++
        [.send (fun _ => [0, 0, 5, 0]) (Request.ofAddr 64 0)] ++ List.replicate 4 (.tick {}))
      (⟨ControllerBase.init smallGDDR7Config, GDDR7Config.start ⟨smallGDDR7Buses, .startWithRckStrt, 2⟩⟩ :
        Derived Unit GDDR7State)).map (fun d => d.own.issues.map fun x => (x.command, x.clk)) =
      .ok [(.RCKSTRT, 1), (.ACT, 1), (.RD, 4), (.RCKSTOP, 6), (.RCKSTRT, 8), (.RD, 10)] := by
    decide +kernel
  obtain ⟨d, hd, hissues⟩ := except_map_eq_ok.mp hrun
  have hreached : GDDR7Config.ReachedIf smallGDDR7Config ⟨smallGDDR7Buses, .startWithRckStrt, 2⟩ Call.Ok d :=
    reachable_runAll (fun _ _ => sendOrPlainTick_sound) .start hd
  exact ⟨⟨smallGDDR7Buses, .startWithRckStrt, 2⟩, d, rfl, hreached, hissues,
    read_clock_discipline isGDDR7_small (show GDDR7Config.init smallGDDR7Buses "start_with_rckstrt" 2 = _ from rfl)
      d hreached⟩

end GDDR7Config

end Ramulator.Controller
