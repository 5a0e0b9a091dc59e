/-
# Ramulator.Controller.SchedulerLaw — what the schedulers select.

Requests are ordered by readiness, then by arrival, then by their place in the buffer. The scan of
either scheduler returns the least eligible request of that order, and none only if none is eligible.
The row-hit scheduler keeps the earliest arrival of the row hits of each bank in a first pass; so what
it takes for a preemption is one: the request would precharge, for itself, a bank that holds a row hit
no younger than it is.
-/
import Ramulator.Controller.Scheduler
import Mathlib.Data.Prod.Lex
import Mathlib.Order.Bounds.Basic

namespace Ramulator.Controller

open Ramulator.Dram

variable {K : Type}

/-! ## The order of the requests -/

/-- Requests that are ready come first, then those that arrived earlier, then those further ahead in the
buffer. -/
def scanKey (timingOk : Entry K → Bool) (e : Entry K) (i : Nat) : Bool ×ₗ Int ×ₗ Nat :=
  toLex (!timingOk e, toLex (e.arrive, i))

theorem scanKey_le_iff {timingOk : Entry K → Bool} {e e' : Entry K} {i i' : Nat} :
    scanKey timingOk e i ≤ scanKey timingOk e' i' ↔
      (timingOk e = true ∧ timingOk e' = false) ∨
        (timingOk e = timingOk e' ∧ (e.arrive < e'.arrive ∨ (e.arrive = e'.arrive ∧ i ≤ i'))) := by
  unfold scanKey
  rw [Prod.Lex.toLex_le_toLex, Prod.Lex.toLex_le_toLex]
  cases timingOk e <;> cases timingOk e' <;> simp

/-- The choice among the requests of a buffer that are accepted: none only if there is none, else the
least. -/
structure Selects (timingOk : Entry K → Bool) (accepted : Entry K → Prop) (buf : List (Entry K))
    (choice : Option (Incumbent K)) : Prop where
  none_iff : choice = none ↔ ∀ e ∈ buf, ¬ accepted e
  least : ∀ c, choice = some c →
    buf[c.index]? = some c.entry ∧ accepted c.entry ∧
      ∀ (i : Nat) (e : Entry K), buf[i]? = some e → accepted e →
        scanKey timingOk c.entry c.index ≤ scanKey timingOk e i

/-! ## The scan -/

/-- The scan so far: its incumbent is the least eligible one of what has been seen. -/
def ScanInv (eligible timingOk : Entry K → Bool) (seen : List (Entry K × Nat)) :
    Option (Incumbent K) → Prop
  | none => ∀ x ∈ seen, eligible x.1 = false
  | some c =>
      (c.entry, c.index) ∈ seen ∧ eligible c.entry = true ∧ c.timingOk = timingOk c.entry ∧
        ∀ x ∈ seen, eligible x.1 = true →
          scanKey timingOk c.entry c.index ≤ scanKey timingOk x.1 x.2

variable {eligible timingOk : Entry K → Bool} {seen : List (Entry K × Nat)}

/-- The incumbent holds against a challenger that is not less. -/
theorem ScanInv.stays {c : Incumbent K} {x : Entry K × Nat}
    (h : ScanInv eligible timingOk seen (some c))
    (hx : eligible x.1 = true → scanKey timingOk c.entry c.index ≤ scanKey timingOk x.1 x.2) :
    ScanInv eligible timingOk (seen ++ [x]) (some c) := by
  obtain ⟨hmem, hel, hok, hleast⟩ := h
  refine ⟨List.mem_append_left _ hmem, hel, hok, fun y hy hely => ?_⟩
  rcases List.mem_append.mp hy with hy | hy
  · exact hleast y hy hely
  · obtain rfl := List.mem_singleton.mp hy
    exact hx hely

/-- A challenger that is not greater takes the place of the incumbent. -/
theorem ScanInv.replaced {c : Incumbent K} {e : Entry K} {i : Nat} {ok : Bool}
    (h : ScanInv eligible timingOk seen (some c)) (hel : eligible e = true) (hok : ok = timingOk e)
    (hx : scanKey timingOk e i ≤ scanKey timingOk c.entry c.index) :
    ScanInv eligible timingOk (seen ++ [(e, i)]) (some ⟨i, e, ok⟩) := by
  obtain ⟨-, -, -, hleast⟩ := h
  refine ⟨List.mem_append_right _ (List.mem_singleton_self _), hel, hok, fun y hy hely => ?_⟩
  rcases List.mem_append.mp hy with hy | hy
  · exact hx.trans (hleast y hy hely)
  · obtain rfl := List.mem_singleton.mp hy
    exact le_rfl

/-- A request that is not eligible changes nothing. -/
theorem challenge_of_not_eligible {e : Entry K} (hel : eligible e = false) (i : Nat)
    (incumbent : Option (Incumbent K)) :
    challenge eligible timingOk incumbent (e, i) = incumbent := if_pos hel

theorem challenge_none {e : Entry K} (hel : eligible e = true) (i : Nat) :
    challenge eligible timingOk none (e, i) = some ⟨i, e, timingOk e⟩ :=
  if_neg (hel.trans_ne Bool.false_ne_true.symm)

theorem challenge_some {e : Entry K} (hel : eligible e = true) (i : Nat) (c : Incumbent K) :
    challenge eligible timingOk (some c) (e, i) =
      if c.timingOk ≠ timingOk e then if timingOk e then some ⟨i, e, true⟩ else some c
      else if e.arrive < c.entry.arrive then some ⟨i, e, c.timingOk⟩ else some c :=
  if_neg (hel.trans_ne Bool.false_ne_true.symm)

/-- One iteration. The challenger stands behind all that has been seen, so that a tie is the
incumbent's. -/
theorem scanInv_challenge {incumbent : Option (Incumbent K)} {e : Entry K} {i : Nat}
    (h : ScanInv eligible timingOk seen incumbent) (hlast : ∀ x ∈ seen, x.2 < i) :
    ScanInv eligible timingOk (seen ++ [(e, i)]) (challenge eligible timingOk incumbent (e, i)) := by
  cases hel : eligible e with
  | false =>
      rw [challenge_of_not_eligible hel]
      cases incumbent with
      | none =>
          intro y hy
          rcases List.mem_append.mp hy with hy | hy
          · exact h y hy
          · obtain rfl := List.mem_singleton.mp hy
            exact hel
      | some c => exact h.stays fun hx => absurd (hel.symm.trans hx) Bool.false_ne_true
  | true =>
      cases incumbent with
      | none =>
          rw [challenge_none hel]
          refine ⟨List.mem_append_right _ (List.mem_singleton_self _), hel, rfl, fun y hy hely => ?_⟩
          rcases List.mem_append.mp hy with hy | hy
          · exact absurd ((h y hy).symm.trans hely) Bool.false_ne_true
          · obtain rfl := List.mem_singleton.mp hy
            exact le_rfl
      | some c =>
          obtain ⟨hmem, -, hcok, -⟩ := id h
          have hlt : c.index < i := hlast _ hmem
          rw [challenge_some hel]
          by_cases hne : c.timingOk ≠ timingOk e
          · -- only one of the two is ready
            rw [if_pos hne]
            rw [hcok] at hne
            cases hte : timingOk e with
            | true =>
                rw [hte] at hne
                rw [if_pos rfl]
                have hnot : timingOk c.entry = false := by simpa using hne
                exact h.replaced hel hte.symm (scanKey_le_iff.mpr (.inl ⟨hte, hnot⟩))
            | false =>
                rw [hte] at hne
                rw [if_neg Bool.false_ne_true]
                have hok : timingOk c.entry = true := by simpa using hne
                exact h.stays fun _ => scanKey_le_iff.mpr (.inl ⟨hok, hte⟩)
          · -- both are alike, and the arrival decides
            have heq : c.timingOk = timingOk e := not_not.mp hne
            rw [if_neg hne]
            by_cases harr : e.arrive < c.entry.arrive
            · rw [if_pos harr]
              exact h.replaced hel heq (scanKey_le_iff.mpr (.inr ⟨heq.symm.trans hcok, .inl harr⟩))
            · rw [if_neg harr]
              refine h.stays fun _ => scanKey_le_iff.mpr (.inr ⟨hcok.symm.trans heq, ?_⟩)
              rcases lt_or_eq_of_le (not_lt.mp harr) with hlt' | heq'
              · exact .inl hlt'
              · exact .inr ⟨heq', hlt.le⟩

/-- The whole scan. -/
theorem scanInv_scan (eligible timingOk : Entry K → Bool) (buf : List (Entry K)) :
    ScanInv eligible timingOk buf.zipIdx (scan eligible timingOk buf) := by
  unfold scan
  induction buf using List.reverseRecOn with
  | nil => exact fun x hx => absurd hx List.not_mem_nil
  | append_singleton buf e ih =>
      rw [List.zipIdx_append, List.foldl_append]
      refine scanInv_challenge ih fun x hx => ?_
      have hget := List.mem_zipIdx_iff_getElem?.mp hx
      obtain ⟨hlt, -⟩ := List.getElem?_eq_some_iff.mp hget
      omega

theorem scan_selects (eligible timingOk : Entry K → Bool) (buf : List (Entry K)) :
    Selects timingOk (fun e => eligible e = true) buf (scan eligible timingOk buf) := by
  have hinv := scanInv_scan eligible timingOk buf
  cases hscan : scan eligible timingOk buf with
  | none =>
      rw [hscan] at hinv
      refine ⟨⟨fun _ e he hel => ?_, fun _ => rfl⟩, fun c hc => nomatch hc⟩
      obtain ⟨i, hi⟩ := List.mem_iff_getElem?.mp he
      have hfalse := hinv (e, i) (List.mem_zipIdx_iff_getElem?.mpr hi)
      exact Bool.false_ne_true (hfalse.symm.trans hel)
  | some c =>
      rw [hscan] at hinv
      obtain ⟨hmem, hel, -, hleast⟩ := hinv
      have hget : buf[c.index]? = some c.entry := List.mem_zipIdx_iff_getElem?.mp hmem
      refine ⟨⟨(fun h => nomatch h), fun hnone => absurd hel (hnone _ (List.mem_of_getElem? hget))⟩, ?_⟩
      intro c' hc'
      obtain rfl := Option.some.inj hc'
      exact ⟨hget, hel, fun i e hi he => hleast (e, i) (List.mem_zipIdx_iff_getElem?.mpr hi) he⟩

/-! ## The row hits of a bank -/

/-- The request stands for a bank of the device, by its flat id. -/
def AtBank (spec : Standard) (b : Int) (e : Entry K) : Prop :=
  spec.flatBankId e.addrVec = b ∧ 0 ≤ b ∧ b < spec.bankCount

/-- The request hits the open row of a bank of the device. -/
def HitsRowOf (spec : Standard) (d : DRAMDevice) (b : Int) (e : Entry K) : Prop :=
  d.checkRowbufferHit spec e.final e.addrVec = true ∧ AtBank spec b e

/-- The first pass so far: nothing is known of a bank without row hits, else the earliest arrival of
its row hits. -/
def ArrivalsInv (spec : Standard) (d : DRAMDevice) (seen : List (Entry K)) (b : Int) :
    Option Int → Prop
  | none => ∀ e ∈ seen, ¬ HitsRowOf spec d b e
  | some t =>
      (∃ e ∈ seen, HitsRowOf spec d b e ∧ e.arrive = t) ∧
        ∀ e ∈ seen, HitsRowOf spec d b e → t ≤ e.arrive

variable {spec : Standard} {d : DRAMDevice}

/-- The arrivals with one more request in view. -/
def recordRowhit (spec : Standard) (d : DRAMDevice) (arrivals : Int → Option Int) (e : Entry K) :
    Int → Option Int :=
  let bank := spec.flatBankId e.addrVec
  if d.checkRowbufferHit spec e.final e.addrVec && 0 ≤ bank && bank < spec.bankCount then
    match arrivals bank with
    | none => Function.update arrivals bank (some e.arrive)
    | some t => if e.arrive < t then Function.update arrivals bank (some e.arrive) else arrivals
  else arrivals

theorem rowhitArrivals_eq (spec : Standard) (d : DRAMDevice) (buf : List (Entry K)) :
    rowhitArrivals spec d buf = buf.foldl (recordRowhit spec d) fun _ => none := rfl

/-- A row hit of the bank, on top of what is known of it. -/
theorem recordRowhit_of_hit {arrivals : Int → Option Int} {e : Entry K} {b : Int}
    (h : HitsRowOf spec d b e) :
    recordRowhit spec d arrivals e b =
      some (match arrivals b with
        | none => e.arrive
        | some t => min e.arrive t) := by
  obtain ⟨hhit, rfl, hpos, hlt⟩ := h
  unfold recordRowhit
  simp only [hhit, hpos, hlt, decide_true, Bool.and_self, if_true]
  cases harr : arrivals (spec.flatBankId e.addrVec) with
  | none => exact Function.update_self ..
  | some t =>
      by_cases hlt' : e.arrive < t
      · simp [hlt', hlt'.le]
      · simp [hlt', harr, not_lt.mp hlt']

/-- Any other request leaves the bank alone. -/
theorem recordRowhit_of_not_hit {arrivals : Int → Option Int} {e : Entry K} {b : Int}
    (h : ¬ HitsRowOf spec d b e) : recordRowhit spec d arrivals e b = arrivals b := by
  unfold recordRowhit
  simp only [Bool.and_eq_true, decide_eq_true_eq]
  split_ifs with hcond
  · obtain ⟨⟨hhit, hpos⟩, hlt⟩ := hcond
    have hne : b ≠ spec.flatBankId e.addrVec := by
      rintro rfl
      exact h ⟨hhit, rfl, hpos, hlt⟩
    cases arrivals (spec.flatBankId e.addrVec) with
    | none => exact Function.update_of_ne hne ..
    | some t =>
        dsimp only
        split_ifs
        · exact Function.update_of_ne hne ..
        · rfl
  · rfl

theorem arrivalsInv_record {seen : List (Entry K)} {arrivals : Int → Option Int} {b : Int}
    (h : ArrivalsInv spec d seen b (arrivals b)) (e : Entry K) :
    ArrivalsInv spec d (seen ++ [e]) b (recordRowhit spec d arrivals e b) := by
  by_cases hhit : HitsRowOf spec d b e
  · rw [recordRowhit_of_hit hhit]
    cases harr : arrivals b with
    | none =>
        rw [harr] at h
        refine ⟨⟨e, by simp, hhit, rfl⟩, fun x hx hxhit => ?_⟩
        rcases List.mem_append.mp hx with hx | hx
        · exact absurd hxhit (h x hx)
        · obtain rfl := List.mem_singleton.mp hx
          exact le_rfl
    | some t =>
        rw [harr] at h
        obtain ⟨⟨x₀, hx₀, hx₀hit, hx₀t⟩, hleast⟩ := h
        constructor
        · rcases min_choice e.arrive t with hmin | hmin
          · exact ⟨e, by simp, hhit, hmin.symm⟩
          · exact ⟨x₀, List.mem_append_left _ hx₀, hx₀hit, hx₀t.trans hmin.symm⟩
        · intro x hx hxhit
          rcases List.mem_append.mp hx with hx | hx
          · exact (min_le_right _ _).trans (hleast x hx hxhit)
          · obtain rfl := List.mem_singleton.mp hx
            exact min_le_left _ _
  · rw [recordRowhit_of_not_hit hhit]
    have hlast : ∀ x ∈ seen ++ [e], HitsRowOf spec d b x → x ∈ seen := by
      intro x hx hxhit
      rcases List.mem_append.mp hx with hx | hx
      · exact hx
      · obtain rfl := List.mem_singleton.mp hx
        exact absurd hxhit hhit
    cases harr : arrivals b with
    | none =>
        rw [harr] at h
        exact fun x hx hxhit => h x (hlast x hx hxhit) hxhit
    | some t =>
        rw [harr] at h
        obtain ⟨⟨x₀, hx₀, hx₀hit⟩, hleast⟩ := h
        exact ⟨⟨x₀, List.mem_append_left _ hx₀, hx₀hit⟩,
          fun x hx hxhit => hleast x (hlast x hx hxhit) hxhit⟩

/-- The whole first pass. -/
theorem arrivalsInv_rowhitArrivals (spec : Standard) (d : DRAMDevice) (buf : List (Entry K)) (b : Int) :
    ArrivalsInv spec d buf b (rowhitArrivals spec d buf b) := by
  rw [rowhitArrivals_eq]
  induction buf using List.reverseRecOn with
  | nil => exact fun e he => absurd he List.not_mem_nil
  | append_singleton buf e ih =>
      rw [List.foldl_append]
      exact arrivalsInv_record ih e

/-! ## Preemption -/

/-- The request would precharge a single bank on its way, and the buffer holds a row hit of that bank
that is no younger. -/
def PreEmpts (spec : Standard) (d : DRAMDevice) (buf : List (Entry K)) (e : Entry K) : Prop :=
  e.cmd.commandMeta.isClosing = true ∧ e.cmd ≠ e.final ∧ e.cmd.bankTarget = .single ∧
    ∃ b, AtBank spec b e ∧ ∃ h ∈ buf, HitsRowOf spec d b h ∧ h.arrive ≤ e.arrive

theorem wouldPreemptRowhit_iff (spec : Standard) (d : DRAMDevice) (buf : List (Entry K)) (e : Entry K) :
    wouldPreemptRowhit spec (rowhitArrivals spec d buf) e = true ↔ PreEmpts spec d buf e := by
  unfold wouldPreemptRowhit PreEmpts
  have hinv := arrivalsInv_rowhitArrivals spec d buf (spec.flatBankId e.addrVec)
  cases hclosing : e.cmd.commandMeta.isClosing with
  | false => simp
  | true =>
      by_cases hfinal : e.cmd = e.final
      · simp [hfinal]
      · by_cases htarget : e.cmd.bankTarget = .single
        · simp only [Bool.true_eq_false, if_false, hfinal, htarget, not_true, ne_eq, not_false_eq_true, true_and]
          cases harr : rowhitArrivals spec d buf (spec.flatBankId e.addrVec) with
          | none =>
              rw [harr] at hinv
              simp only [Bool.false_eq_true, false_iff]
              rintro ⟨b, ⟨rfl, -⟩, x, hx, hxhit, -⟩
              exact hinv x hx hxhit
          | some t =>
              rw [harr] at hinv
              obtain ⟨⟨x₀, hx₀, hx₀hit, hx₀t⟩, hleast⟩ := hinv
              simp only [decide_eq_true_eq]
              constructor
              · intro hle
                exact ⟨_, ⟨rfl, hx₀hit.2.2⟩, x₀, hx₀, hx₀hit, hx₀t.trans_le hle⟩
              · rintro ⟨b, ⟨rfl, -⟩, x, hx, hxhit, hxe⟩
                exact (hleast x hx hxhit).trans hxe
        · simp [hfinal, htarget]

/-- A column command whose row is open needs nothing before it. -/
theorem preq_of_rowhit {c : Command} {row : Int} {bank : BankState} (split : Bool)
    (h : c.rowhit row bank = true) : c.preq split row bank = c := by
  simp only [Command.rowhit, Bool.and_eq_true, beq_iff_eq, List.contains_iff_mem] at h
  obtain ⟨⟨hacc, hopen⟩, hrow⟩ := h
  cases c <;> simp [Command.commandMeta] at hacc <;> cases split <;>
    simp [Command.preq, Command.actPreq, Command.act2Preq, hopen, hrow]

theorem bankTarget_of_isAccessing {c : Command} (h : c.commandMeta.isAccessing = true) :
    c.bankTarget = .single := by
  revert h
  cases c <;> decide

/-- What a single-bank command needs first of its bank. -/
theorem getPreqCommand_of_single {c : Command} (h : c.bankTarget = .single) (addr : AddrVec) :
    d.getPreqCommand spec c addr =
      c.preq (spec.supports .ACT2) (addr.coord spec.rowLevel) (d.banks (spec.flatBankId addr)) := by
  unfold DRAMDevice.getPreqCommand DRAMDevice.targetBanks Standard.targetBanks
  rw [h]
  simp only [List.map_cons, List.map_nil, List.find?_cons, List.find?_nil]
  by_cases hne : c.preq (spec.supports .ACT2) (addr.coord spec.rowLevel) (d.banks (spec.flatBankId addr)) = c
  · simp [hne]
  · simp [hne]

/-- A row hit is on its way to nothing else, so it preempts nothing. -/
theorem not_preEmpts_of_hit {buf : List (Entry K)} {e : Entry K} {b : Int}
    (hcmd : e.cmd = d.getPreqCommand spec e.final e.addrVec) (h : HitsRowOf spec d b e) :
    ¬ PreEmpts spec d buf e := by
  rintro ⟨-, hne, -⟩
  have hrow : e.final.rowhit (e.addrVec.coord spec.rowLevel) (d.banks (spec.flatBankId e.addrVec)) = true :=
    h.1
  have hacc : e.final.commandMeta.isAccessing = true := by
    simp only [Command.rowhit, Bool.and_eq_true] at hrow
    exact hrow.1.1
  refine hne (hcmd.trans ?_)
  rw [getPreqCommand_of_single (bankTarget_of_isAccessing hacc), preq_of_rowhit _ hrow]

/-- Other than the command itself, only a precharge can be needed of an open bank. -/
theorem isClosing_preq_of_opened {c : Command} {split : Bool} {row : Int} {bank : BankState}
    (hopen : bank.state = .opened) (hne : c.preq split row bank ≠ c) :
    (c.preq split row bank).commandMeta.isClosing = true := by
  by_cases hrow : row ∈ bank.rows <;> cases c <;> cases split <;>
    simp_all [Command.preq, Command.actPreq, Command.act1Preq, Command.act2Preq, Command.closedPreq] <;> rfl

/-- The commands that go to several banks only ever need others that do. -/
theorem bankTarget_preq_ne_single {c : Command} {split : Bool} {row : Int} {bank : BankState}
    (h : c.bankTarget ≠ .single) : (c.preq split row bank).bankTarget ≠ .single := by
  cases c <;> simp_all [Command.bankTarget, Command.preq, Command.closedPreq] <;> split_ifs <;> simp

theorem bankTarget_getPreqCommand_ne_single {c : Command} (h : c.bankTarget ≠ .single) (addr : AddrVec) :
    (d.getPreqCommand spec c addr).bankTarget ≠ .single := by
  unfold DRAMDevice.getPreqCommand
  cases hfind : ((d.targetBanks spec c addr).map fun b =>
      c.preq (spec.supports .ACT2) (addr.coord spec.rowLevel) (d.banks b)).find? (· ≠ c) with
  | none => exact h
  | some c' =>
      obtain ⟨b, -, rfl⟩ := List.mem_map.mp (List.mem_of_find?_eq_some hfind)
      exact bankTarget_preq_ne_single h

/-- A single-bank prerequisite that preempts no row hit leaves the older row hits what they are. -/
theorem hitsRowOf_issueCommand {buf : List (Entry K)} {e h : Entry K} {b : Int} (clk : Int)
    (hcmd : e.cmd = d.getPreqCommand spec e.final e.addrVec) (hne : e.cmd ≠ e.final)
    (htarget : e.cmd.bankTarget = .single) (hkeep : ¬ PreEmpts spec d buf e) (hmem : h ∈ buf)
    (hhit : HitsRowOf spec d b h) (hle : h.arrive ≤ e.arrive) :
    HitsRowOf spec (d.issueCommand spec e.cmd e.addrVec clk) b h := by
  have hother : spec.flatBankId e.addrVec ≠ b := by
    intro hbank
    have hsingle : e.final.bankTarget = .single := by
      by_contra hnot
      exact bankTarget_getPreqCommand_ne_single hnot e.addrVec (hcmd ▸ htarget)
    have hpreq := hcmd.trans (getPreqCommand_of_single hsingle e.addrVec)
    have hopen : (d.banks (spec.flatBankId e.addrVec)).state = .opened := by
      have hrow := hhit.1
      unfold DRAMDevice.checkRowbufferHit Command.rowhit at hrow
      simp only [Bool.and_eq_true, beq_iff_eq] at hrow
      rw [hbank, ← hhit.2.1]
      exact hrow.1.2
    have hclosing : e.cmd.commandMeta.isClosing = true := by
      rw [hpreq]
      exact isClosing_preq_of_opened hopen (hpreq ▸ hne)
    exact hkeep ⟨hclosing, hne, htarget, b, ⟨hbank, hhit.2.2⟩, h, hmem, hhit, hle⟩
  refine ⟨?_, hhit.2⟩
  have hsame : (d.issueCommand spec e.cmd e.addrVec clk).banks (spec.flatBankId h.addrVec) =
      d.banks (spec.flatBankId h.addrVec) := by
    unfold DRAMDevice.issueCommand DRAMDevice.targetBanks Standard.targetBanks
    rw [htarget, hhit.2.1]
    simp [hother.symm]
  unfold DRAMDevice.checkRowbufferHit
  rw [hsame]
  exact hhit.1

/-! ## The schedulers -/

theorem Selects.congr {p q : Entry K → Prop} {buf : List (Entry K)} {choice : Option (Incumbent K)}
    (h : Selects timingOk p buf choice) (hpq : ∀ e, p e ↔ q e) : Selects timingOk q buf choice := by
  obtain rfl : p = q := funext fun e => propext (hpq e)
  exact h

/-- What the choice leaves of the older row hits: after a single-bank command that is not yet what the
chosen request came for, they are row hits as before. -/
def SparesRowHits (spec : Standard) (d : DRAMDevice) (clk : Int) (buf : List (Entry K))
    (choice : Option (Incumbent K)) : Prop :=
  ∀ c, choice = some c → c.entry.cmd ≠ c.entry.final → c.entry.cmd.bankTarget = .single →
    ∀ h ∈ buf, ∀ b, HitsRowOf spec d b h → h.arrive ≤ c.entry.arrive →
      HitsRowOf spec (d.issueCommand spec c.entry.cmd c.entry.addrVec clk) b h

/-- Every request of the buffer is resolved, and the choice is the least request among those that the
filter accepts and, with the row-hit scheduler, that preempt no row hit. That scheduler takes no open
row from an older row hit, and some request is chosen whenever the filter accepts a row hit. -/
theorem getBestRequest_law (cfg : Config) (d : DRAMDevice) (clk : Int) (filter : Entry K → Bool)
    (buf : List (Entry K)) :
    let resolved := (getBestRequest cfg d clk filter buf).1
    let choice := (getBestRequest cfg d clk filter buf).2
    let timingOk := fun e : Entry K => d.checkTiming e.cmd e.addrVec clk
    resolved = buf.map (resolve cfg.spec d) ∧
      (∀ e ∈ resolved, e.cmd = d.getPreqCommand cfg.spec e.final e.addrVec) ∧
      (cfg.scheduler = .frfcfs → Selects timingOk (fun e => filter e = true) resolved choice) ∧
      (cfg.scheduler = .frfcfsRowHit →
        Selects timingOk (fun e => filter e = true ∧ ¬ PreEmpts cfg.spec d resolved e) resolved choice ∧
          SparesRowHits cfg.spec d clk resolved choice ∧
          ((∃ e ∈ resolved, filter e = true ∧ ∃ b, HitsRowOf cfg.spec d b e) → choice ≠ none)) := by
  have hcmd : ∀ e ∈ buf.map (resolve cfg.spec d), e.cmd = d.getPreqCommand cfg.spec e.final e.addrVec := by
    intro e he
    obtain ⟨e₀, -, rfl⟩ := List.mem_map.mp he
    rfl
  unfold getBestRequest
  cases cfg.scheduler with
  | frfcfs => exact ⟨rfl, hcmd, fun _ => scan_selects .., fun h => nomatch h⟩
  | frfcfsRowHit =>
      refine ⟨rfl, hcmd, (fun h => nomatch h), fun _ => ?_⟩
      have hselects := (scan_selects
        (fun e => filter e &&
          !wouldPreemptRowhit cfg.spec (rowhitArrivals cfg.spec d (buf.map (resolve cfg.spec d))) e)
        (fun e => d.checkTiming e.cmd e.addrVec clk) (buf.map (resolve cfg.spec d))).congr
        (q := fun e => filter e = true ∧ ¬ PreEmpts cfg.spec d (buf.map (resolve cfg.spec d)) e)
        fun e => by rw [Bool.and_eq_true, Bool.not_eq_true', ← wouldPreemptRowhit_iff, Bool.not_eq_true]
      refine ⟨hselects, ?_, ?_⟩
      · intro c hc hne htarget h hmem b hhit hle
        obtain ⟨hget, ⟨-, hkeep⟩, -⟩ := hselects.least c hc
        exact hitsRowOf_issueCommand clk (hcmd _ (List.mem_of_getElem? hget)) hne htarget hkeep hmem hhit hle
      · rintro ⟨e, he, hfilter, b, hhit⟩ hnone
        exact hselects.none_iff.mp hnone e he ⟨hfilter, not_preEmpts_of_hit (hcmd e he) hhit⟩

end Ramulator.Controller
