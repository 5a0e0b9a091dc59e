/-
# Ramulator.Controller.Legality — the generic DDR controller issues only legal commands.

For a standard that activates a row with the one command `ACT`: a row is activated only in a closed
bank, a column command finds its row open, refresh-type commands find closed banks, and a bank is always
open with one row or closed with none. All of it follows from one fact: the command issued for a request
is the prerequisite of its terminal command in the current bank states (`getPreqCommand_oneStep`), up to
the row policy's auto-precharge.

One way out is left by `ACT::preq`: in a bank that is open with the addressed row it returns the
command it was asked about. For a column command that is the row hit; for a priority request whose
terminal command is `ACT` itself it is an activation of an open bank. The legality of commands is
therefore stated over runs in which no tick chooses such a request (`ActOnOpenRow`).
-/
import Ramulator.Controller.Steps

namespace Ramulator.Controller

open Ramulator.Base (Request)
open Ramulator.Dram Ramulator.Lib ControllerBase

variable {K : Type}

/-! ## Standards that activate a row at once -/

/-- The commands of the DDR standards. -/
def ddrCommands : List Command :=
  [.ACT, .PREpb, .PREab, .PREsb, .RD, .WR, .RDA, .WRA, .REFab, .REFsb, .RFMab, .RFMsb, .VRR]

/-- The commands of the standards that activate a row at once: of all but the LPDDR ones. -/
def oneStepCommands : List Command :=
  [.ACT, .PREpb, .PREab, .PREsb, .RD, .WR, .RDA, .WRA, .REFab, .REFsb, .RFMab, .RFMsb, .VRR, .REFpb,
    .RFMpb, .RCKSTRT, .RCKSTOP]

def columnCommands : List Command := [.RD, .WR, .RDA, .WRA]

def refreshCommands : List Command := [.REFab, .REFsb, .RFMab, .RFMsb, .VRR, .REFpb, .RFMpb]

/-- Commands that ask nothing of a bank and do nothing to one. -/
def clockCommands : List Command := [.RCKSTRT, .RCKSTOP]

def prechargeCommands : List Command := [.PREpb, .PREab, .PREsb]

theorem of_mem_columnCommands {c : Command} (h : c ∈ columnCommands) :
    c ∈ oneStepCommands ∧ c.bankTarget = .single ∧ c ≠ .ACT ∧ c ∉ refreshCommands ∧
      c ∉ prechargeCommands ∧ c.commandMeta.isOpening = false := by
  cases c <;> revert h <;> decide

theorem of_mem_refreshCommands {c : Command} (h : c ∈ refreshCommands) :
    c ∈ oneStepCommands ∧ c ≠ .ACT ∧ c ∉ columnCommands := by
  cases c <;> revert h <;> decide

theorem of_mem_prechargeCommands {c : Command} (h : c ∈ prechargeCommands) :
    c ∈ oneStepCommands ∧ c ≠ .ACT ∧ c ∉ columnCommands ∧ c ∉ refreshCommands ∧
      c.commandMeta.isOpening = false := by
  cases c <;> revert h <;> decide

theorem of_mem_clockCommands {c : Command} (h : c ∈ clockCommands) :
    c ∈ oneStepCommands ∧ c ≠ .ACT ∧ c ∉ columnCommands ∧ c ∉ refreshCommands ∧
      c.commandMeta.isOpening = false := by
  cases c <;> revert h <;> decide

/-- A standard built from the DDR commands, with `RD` and `WR` for reads and writes. -/
structure IsDDR (spec : Standard) : Prop where
  supports : ∀ c, spec.supports c = true → c ∈ ddrCommands
  readCommand : spec.readCommand = .RD
  writeCommand : spec.writeCommand = .WR

/-- A standard that activates a row at once, with `RD` and `WR` for reads and writes. -/
structure OneStep (spec : Standard) : Prop where
  supports : ∀ c, spec.supports c = true → c ∈ oneStepCommands
  readCommand : spec.readCommand = .RD
  writeCommand : spec.writeCommand = .WR

theorem IsDDR.oneStep {spec : Standard} (h : IsDDR spec) : OneStep spec where
  supports := fun c hc => by
    have hddr := h.supports c hc
    cases c <;> revert hddr <;> decide
  readCommand := h.readCommand
  writeCommand := h.writeCommand

theorem OneStep.not_split {spec : Standard} (h : OneStep spec) : spec.supports .ACT2 = false := by
  cases hs : spec.supports .ACT2 with
  | false => rfl
  | true => exact absurd (h.supports _ hs) (by decide)

/-! ## Bank states and prerequisites -/

/-- Open with exactly one row, or closed with none. -/
def WellFormed (bank : BankState) : Prop :=
  (bank.state = .opened ∧ ∃ row, bank.rows = [row]) ∨ (bank.state = .closed ∧ bank.rows = [])

/-- Open with exactly this row. -/
def OpenWith (row : Int) (bank : BankState) : Prop := bank.state = .opened ∧ bank.rows = [row]

theorem getPreqCommand_cases (spec : Standard) (d : DRAMDevice) (c : Command) (addr : AddrVec) :
    let preq := fun b => c.preq (spec.supports .ACT2) (addr.coord spec.rowLevel) (d.banks b)
    (d.getPreqCommand spec c addr = c ∧ ∀ b ∈ d.targetBanks spec c addr, preq b = c) ∨
      ∃ b ∈ d.targetBanks spec c addr, d.getPreqCommand spec c addr = preq b ∧ preq b ≠ c := by
  intro preq
  unfold DRAMDevice.getPreqCommand
  cases hfind : ((d.targetBanks spec c addr).map preq).find? (· ≠ c) with
  | none =>
      refine .inl ⟨rfl, fun b hb => ?_⟩
      have hnone := List.find?_eq_none.mp hfind (preq b) (List.mem_map_of_mem hb)
      simpa using hnone
  | some r =>
      obtain ⟨b, hb, rfl⟩ := List.mem_map.mp (List.mem_of_find?_eq_some hfind)
      refine .inr ⟨b, hb, rfl, ?_⟩
      simpa using List.find?_some hfind

theorem targetBanks_single {spec : Standard} {d : DRAMDevice} {c : Command} {addr : AddrVec}
    (hc : c.bankTarget = .single) : d.targetBanks spec c addr = [spec.flatBankId addr] := by
  simp [DRAMDevice.targetBanks, Standard.targetBanks, hc]

/-- With a single target bank, the prerequisite is that bank's. -/
theorem getPreqCommand_single {spec : Standard} {d : DRAMDevice} {c : Command} {addr : AddrVec}
    (hc : c.bankTarget = .single) : d.getPreqCommand spec c addr =
      c.preq (spec.supports .ACT2) (addr.coord spec.rowLevel) (d.banks (spec.flatBankId addr)) := by
  have hcases := getPreqCommand_cases spec d c addr
  rw [targetBanks_single hc] at hcases
  rcases hcases with ⟨heq, hall⟩ | ⟨b, hb, heq, -⟩
  · exact heq.trans (hall _ (by simp)).symm
  · rw [heq, List.mem_singleton.mp hb]

/-- A command whose prerequisite is always itself. -/
theorem getPreqCommand_self {spec : Standard} {d : DRAMDevice} {c : Command} {addr : AddrVec}
    (h : ∀ bank, c.preq (spec.supports .ACT2) (addr.coord spec.rowLevel) bank = c) :
    d.getPreqCommand spec c addr = c := by
  rcases getPreqCommand_cases spec d c addr with ⟨heq, -⟩ | ⟨b, -, heq, -⟩
  · exact heq
  · exact heq.trans (h _)

theorem oneStep_kinds {c : Command} (hc : c ∈ oneStepCommands) :
    c = .ACT ∨ c ∈ columnCommands ∨ c ∈ refreshCommands ∨ c ∈ prechargeCommands ∨ c ∈ clockCommands := by
  cases c <;> revert hc <;> decide

/-- Column commands want their row open, like `ACT` itself. -/
theorem preq_column {c : Command} (hc : c ∈ columnCommands) (row : Int) (bank : BankState) :
    c.preq false row bank = Command.actPreq c row bank := by
  simp only [columnCommands, List.mem_cons, List.not_mem_nil, or_false] at hc
  rcases hc with rfl | rfl | rfl | rfl <;> rfl

/-- Refreshes want their banks closed. -/
theorem preq_refresh {c : Command} (hc : c ∈ refreshCommands) : ∃ x ∈ prechargeCommands, x ≠ c ∧
    ∀ split row bank, c.preq split row bank = Command.closedPreq x c bank := by
  simp only [refreshCommands, List.mem_cons, List.not_mem_nil, or_false] at hc
  rcases hc with rfl | rfl | rfl | rfl | rfl | rfl | rfl
  case inl => exact ⟨.PREab, by decide, by decide, fun _ _ _ => rfl⟩
  case inr.inr.inl => exact ⟨.PREab, by decide, by decide, fun _ _ _ => rfl⟩
  case inr.inl => exact ⟨.PREsb, by decide, by decide, fun _ _ _ => rfl⟩
  case inr.inr.inr.inl => exact ⟨.PREsb, by decide, by decide, fun _ _ _ => rfl⟩
  all_goals exact ⟨.PREpb, by decide, by decide, fun _ _ _ => rfl⟩

/-- Precharges and clock commands want nothing. -/
theorem preq_free {c : Command} (hc : c ∈ prechargeCommands ∨ c ∈ clockCommands) (split : Bool) (row : Int)
    (bank : BankState) : c.preq split row bank = c := by
  simp only [prechargeCommands, clockCommands, List.mem_cons, List.not_mem_nil, or_false] at hc
  rcases hc with (rfl | rfl | rfl) | rfl | rfl
  · unfold Command.preq Command.closedPreq
    split_ifs <;> rfl
  all_goals rfl

theorem actPreq_cases {bank : BankState} (h : WellFormed bank) (c : Command) (row : Int) :
    (Command.actPreq c row bank = .ACT ∧ bank.state = .closed) ∨
      (Command.actPreq c row bank = c ∧ OpenWith row bank) ∨ Command.actPreq c row bank = .PREpb := by
  unfold Command.actPreq
  rcases h with ⟨hopen, row', hrow'⟩ | ⟨hclosed, -⟩
  · rw [hopen, hrow']
    dsimp only
    split_ifs with hmem
    · obtain rfl := List.mem_singleton.mp hmem
      exact .inr (.inl ⟨rfl, hopen, hrow'⟩)
    · exact .inr (.inr rfl)
  · rw [hclosed]
    exact .inl ⟨rfl, rfl⟩

/-- On the way to a refresh every target bank is closed, or one is precharged. -/
theorem getPreqCommand_refresh {spec : Standard} {d : DRAMDevice} {c : Command} (hc : c ∈ refreshCommands)
    (addr : AddrVec) :
    (d.getPreqCommand spec c addr = c ∧ ∀ b ∈ d.targetBanks spec c addr, (d.banks b).state = .closed) ∨
      d.getPreqCommand spec c addr ∈ prechargeCommands := by
  obtain ⟨x, hx, hne, hpreq⟩ := preq_refresh hc
  rcases getPreqCommand_cases spec d c addr with ⟨heq, hall⟩ | ⟨b, -, heq, hb⟩
  · refine .inl ⟨heq, fun b hb => ?_⟩
    have hclosed := (hpreq _ _ _).symm.trans (hall b hb)
    by_contra hopen
    exact hne (by simpa [Command.closedPreq, hopen] using hclosed)
  · have hr := heq.trans (hpreq _ _ _)
    have hother : Command.closedPreq x c (d.banks b) ≠ c := fun hself => hb ((hpreq _ _ _).trans hself)
    right
    rw [hr]
    unfold Command.closedPreq at hother ⊢
    split_ifs at hother ⊢ with hst
    · exact absurd rfl hother
    · exact hx

/-- What the prerequisite of such a command can be, and what it says about the banks. -/
theorem getPreqCommand_oneStep {spec : Standard} (hspec : OneStep spec) {d : DRAMDevice}
    (hbanks : ∀ b, WellFormed (d.banks b)) {c : Command} (hc : c ∈ oneStepCommands) (addr : AddrVec) :
    let r := d.getPreqCommand spec c addr
    let bank := d.banks (spec.flatBankId addr)
    let row := addr.coord spec.rowLevel
    (r = .ACT ∧ (c = .ACT ∨ c ∈ columnCommands) ∧ bank.state = .closed) ∨
      (r = .ACT ∧ c = .ACT ∧ OpenWith row bank) ∨
      (r = c ∧ c ∈ columnCommands ∧ OpenWith row bank) ∨
      (r = c ∧ c ∈ refreshCommands ∧ ∀ b ∈ d.targetBanks spec c addr, (d.banks b).state = .closed) ∨
      (r = c ∧ c ∈ clockCommands) ∨ r ∈ prechargeCommands := by
  intro r bank row
  rcases oneStep_kinds hc with rfl | hcol | href | hpre | hclock
  · have hr : r = Command.actPreq .ACT row bank := getPreqCommand_single rfl
    rw [hr]
    rcases actPreq_cases (hbanks _) .ACT row with ⟨heq, hst⟩ | ⟨heq, hopen⟩ | heq
    · exact .inl ⟨heq, .inl rfl, hst⟩
    · exact .inr (.inl ⟨heq, rfl, hopen⟩)
    · exact .inr (.inr (.inr (.inr (.inr (by rw [heq]; decide)))))
  · have hr : r = Command.actPreq c row bank := by
      rw [← preq_column hcol, ← hspec.not_split]
      exact getPreqCommand_single (of_mem_columnCommands hcol).2.1
    rw [hr]
    rcases actPreq_cases (hbanks _) c row with ⟨heq, hst⟩ | ⟨heq, hopen⟩ | heq
    · exact .inl ⟨heq, .inr hcol, hst⟩
    · exact .inr (.inr (.inl ⟨heq, hcol, hopen⟩))
    · exact .inr (.inr (.inr (.inr (.inr (by rw [heq]; decide)))))
  · rcases getPreqCommand_refresh href addr with ⟨heq, hclosed⟩ | hclose
    · exact .inr (.inr (.inr (.inl ⟨heq, href, hclosed⟩)))
    · exact .inr (.inr (.inr (.inr (.inr hclose))))
  · have hr : r = c := getPreqCommand_self fun _ => preq_free (.inl hpre) _ _ _
    exact .inr (.inr (.inr (.inr (.inr (hr ▸ hpre)))))
  · exact .inr (.inr (.inr (.inr (.inl ⟨getPreqCommand_self fun _ => preq_free (.inr hclock) _ _ _, hclock⟩))))

/-! ## Legal commands -/

/-- What a legal command finds in its target banks. -/
def LegalTargets (spec : Standard) (c : Command) (addr : AddrVec) (targets : List BankState) :
    Prop :=
  (c = .ACT → ∀ bank ∈ targets, bank.state = .closed) ∧
    (c ∈ columnCommands → ∀ bank ∈ targets, OpenWith (addr.coord spec.rowLevel) bank) ∧
    (c ∈ refreshCommands → ∀ bank ∈ targets, bank.state = .closed)

/-- Every command recorded as issued was legal. -/
def Legal (spec : Standard) : Event → Prop
  | .issued _ c addr targets _ => LegalTargets spec c addr (targets.map (·.2))
  | _ => True

/-- The row that the request addresses is open in its bank. -/
def RowOpen (cfg : Config) (s : ControllerBase K) (e : Entry K) : Prop :=
  OpenWith (e.addrVec.coord cfg.spec.rowLevel) (s.device.banks (bankOf cfg e))

/-- The request is an activation of a bank that is open with its row. -/
def ActOnOpenRow (cfg : Config) (s : ControllerBase K) (e : Entry K) : Prop :=
  e.final = .ACT ∧ RowOpen cfg s e

instance (cfg : Config) (s : ControllerBase K) (e : Entry K) : Decidable (ActOnOpenRow cfg s e) :=
  inferInstanceAs (Decidable (_ ∧ _ ∧ _))

/-- What the terminal command of a request in a buffer can be: maintenance goes through the priority
buffer only. -/
def FinalOk (b : Buf) (e : Entry K) : Prop :=
  e.final ∈ oneStepCommands ∧ (b ≠ .priority → e.final ∈ columnCommands)

/-- The invariant. The log is legal as long as no activation of an open row was chosen (`strict`); the
rest holds whatever happens. -/
structure LegalInv (cfg : Config) (strict : Prop) (s : ControllerBase K) : Prop where
  log : strict → ∀ ev ∈ s.log, Legal cfg.spec ev
  banks : ∀ b, WellFormed (s.device.banks b)
  finals : ∀ b, ∀ e ∈ s.bufs b, FinalOk b e

/-- The upgraded command of a request that hits its open row is a column command of that row. -/
theorem apUpgrade_column {spec : Standard} {c ap : Command} (hspec : OneStep spec)
    (h : apUpgrade spec c = some ap) : c ∈ columnCommands ∧ ap ∈ columnCommands ∧ ap ≠ c := by
  have hfind : ∀ names x, findCommand spec names = some x → x ∈ names ∧ x ∈ oneStepCommands := by
    intro names x hx
    exact ⟨List.mem_of_find?_eq_some hx, hspec.supports x (List.find?_some hx)⟩
  unfold apUpgrade at h
  split at h
  · rename_i rda wra hrda hwra
    obtain ⟨hrda₁, hrda₂⟩ := hfind _ _ hrda
    obtain ⟨hwra₁, hwra₂⟩ := hfind _ _ hwra
    split_ifs at h with hrd hwr
    · obtain ⟨h₁, h₂⟩ := hfind _ _ hrd.symm
      cases h
      simp only [List.mem_cons, List.not_mem_nil, or_false] at h₁ hrda₁
      rcases h₁ with rfl | rfl <;> rcases hrda₁ with rfl | rfl <;> revert h₂ hrda₂ <;> decide
    · obtain ⟨h₁, h₂⟩ := hfind _ _ hwr.symm
      cases h
      simp only [List.mem_cons, List.not_mem_nil, or_false] at h₁ hwra₁
      rcases h₁ with rfl | rfl <;> rcases hwra₁ with rfl | rfl <;> revert h₂ hwra₂ <;> decide
  · simp at h

/-! ## Issuing -/

/-- The ways in which a command can be issued for a request. -/
def Issuable (cfg : Config) (d : DRAMDevice) (e : Entry K) : Prop :=
  let bank := d.banks (bankOf cfg e)
  let row := e.addrVec.coord cfg.spec.rowLevel
  (e.cmd = .ACT ∧ (e.final = .ACT ∨ e.final ∈ columnCommands) ∧ bank.state = .closed) ∨
    (e.cmd = .ACT ∧ e.final = .ACT ∧ OpenWith row bank) ∨
    (e.cmd = e.final ∧ e.final ∈ columnCommands ∧ OpenWith row bank) ∨
    (e.cmd = e.final ∧ e.final ∈ refreshCommands ∧
      ∀ b ∈ d.targetBanks cfg.spec e.cmd e.addrVec, (d.banks b).state = .closed) ∨
    (e.cmd = e.final ∧ e.final ∈ clockCommands) ∨ e.cmd ∈ prechargeCommands

variable {cfg : Config} {strict : Prop} {s s' : ControllerBase K}

/-- A candidate is issuable, also after the row policy has upgraded it: an upgrade is of a column
command whose row is open. -/
theorem prepared_issuable (hspec : OneStep cfg.spec) (hbanks : ∀ b, WellFormed (s.device.banks b))
    {e : Entry K} (hfinal : e.final ∈ oneStepCommands)
    (hcmd : e.cmd = s.device.getPreqCommand cfg.spec e.final e.addrVec) :
    Issuable cfg s.device (s.prepared cfg e) := by
  have hpreq := getPreqCommand_oneStep hspec hbanks hfinal e.addrVec
  rw [← hcmd] at hpreq
  unfold Issuable bankOf
  rw [prepared_addrVec]
  rcases prepared_cases cfg s e with ⟨hc, hf⟩ | ⟨ap, hap, hc, hf⟩
  · rw [hc, hf]
    rcases hpreq with h | h | h | ⟨hr, href, hst⟩ | h
    · exact .inl h
    · exact .inr (.inl h)
    · exact .inr (.inr (.inl h))
    · exact .inr (.inr (.inr (.inl ⟨hr, href, by rw [hr]; exact hst⟩)))
    · exact .inr (.inr (.inr (.inr h)))
  · obtain ⟨hcol, hcol', -⟩ := apUpgrade_column hspec hap
    refine .inr (.inr (.inl ⟨by rw [hc, hf], by rw [hf]; exact hcol', ?_⟩))
    rcases hpreq with ⟨hr, -⟩ | ⟨hr, -⟩ | ⟨-, -, hopen⟩ | ⟨hr, href, -⟩ | ⟨hr, hclock⟩ | hpre
    · rw [hr] at hcol
      exact absurd hcol (by decide)
    · rw [hr] at hcol
      exact absurd hcol (by decide)
    · exact hopen
    · rw [hr] at hcol
      exact absurd hcol (of_mem_refreshCommands href).2.2
    · rw [hr] at hcol
      exact absurd hcol (of_mem_clockCommands hclock).2.2.1
    · exact absurd hcol (of_mem_prechargeCommands hpre).2.2.1

theorem Issuable.cmd_mem {d : DRAMDevice} {e : Entry K} (h : Issuable cfg d e) :
    e.cmd ∈ oneStepCommands := by
  rcases h with ⟨h, -⟩ | ⟨h, -⟩ | ⟨h, hcol, -⟩ | ⟨h, href, -⟩ | ⟨h, hclock⟩ | h
  · rw [h]
    decide
  · rw [h]
    decide
  · rw [h]
    exact (of_mem_columnCommands hcol).1
  · rw [h]
    exact (of_mem_refreshCommands href).1
  · rw [h]
    exact (of_mem_clockCommands hclock).1
  · exact (of_mem_prechargeCommands h).1

/-- A request goes on after an activation only on its way to a column command. -/
theorem Issuable.final_column {d : DRAMDevice} {e : Entry K} (h : Issuable cfg d e)
    (hopening : e.cmd.commandMeta.isOpening = true) (hne : e.cmd ≠ e.final) :
    e.final ∈ columnCommands := by
  rcases h with ⟨h, hf | hf, -⟩ | ⟨h, hf, -⟩ | ⟨h, -⟩ | ⟨h, -⟩ | ⟨h, -⟩ | h
  · exact absurd (h.trans hf.symm) hne
  · exact hf
  · exact absurd (h.trans hf.symm) hne
  · exact absurd h hne
  · exact absurd h hne
  · exact absurd h hne
  · rw [(of_mem_prechargeCommands h).2.2.2.2] at hopening
    contradiction

/-- Only an activation of an open row is illegal. -/
theorem Issuable.legal {d : DRAMDevice} {e : Entry K} (h : Issuable cfg d e)
    (hact : ¬ (e.final = .ACT ∧
      OpenWith (e.addrVec.coord cfg.spec.rowLevel) (d.banks (bankOf cfg e)))) :
    LegalTargets cfg.spec e.cmd e.addrVec ((d.targetBanks cfg.spec e.cmd e.addrVec).map d.banks) := by
  have hsingle : e.cmd.bankTarget = .single →
      (d.targetBanks cfg.spec e.cmd e.addrVec).map d.banks =
        [d.banks (bankOf cfg e)] := by
    intro hc
    rw [targetBanks_single hc]
    rfl
  rcases h with ⟨h, -, hclosed⟩ | ⟨-, hf, hopen⟩ | ⟨h, hcol, hopen⟩ | ⟨h, href, hclosed⟩ | ⟨h, hclock⟩ | h
  · rw [hsingle (by rw [h]; rfl), h]
    exact ⟨fun _ => by simpa using hclosed, fun hc => absurd hc (by decide),
      fun hc => absurd hc (by decide)⟩
  · exact absurd ⟨hf, hopen⟩ hact
  · rw [← h] at hcol
    obtain ⟨-, htarget, hact', href, -⟩ := of_mem_columnCommands hcol
    rw [hsingle htarget]
    exact ⟨fun hc => absurd hc hact', fun _ => by simpa using hopen, fun hc => absurd hc href⟩
  · rw [← h] at href
    obtain ⟨-, hact', hcol⟩ := of_mem_refreshCommands href
    exact ⟨fun hc => absurd hc hact', fun hc => absurd hc hcol, fun _ => by simpa using hclosed⟩
  · rw [← h] at hclock
    obtain ⟨-, hact', hcol, href, -⟩ := of_mem_clockCommands hclock
    exact ⟨fun hc => absurd hc hact', fun hc => absurd hc hcol, fun hc => absurd hc href⟩
  · obtain ⟨-, hact', hcol, href, -⟩ := of_mem_prechargeCommands h
    exact ⟨fun hc => absurd hc hact', fun hc => absurd hc hcol, fun hc => absurd hc href⟩

/-- Every command keeps a bank well formed, if an activation finds it closed or open with its row. -/
theorem action_wellFormed {c : Command} {row : Int} {bank : BankState} (hc : c ∈ oneStepCommands)
    (hbank : WellFormed bank) (hact : c = .ACT → bank.state = .closed ∨ OpenWith row bank) :
    WellFormed (c.action row bank) := by
  simp only [oneStepCommands, List.mem_cons, List.not_mem_nil, or_false] at hc
  rcases hc with rfl | rfl | rfl | rfl | rfl | rfl | rfl | rfl | rfl | rfl | rfl | rfl | rfl | rfl | rfl |
    rfl | rfl
  · refine .inl ⟨rfl, row, ?_⟩
    rcases hact rfl with hclosed | ⟨-, hrows⟩
    · rcases hbank with ⟨hopen, -⟩ | ⟨-, hrows⟩
      · rw [hclosed] at hopen
        contradiction
      · simp [Command.action, hrows]
    · simp [Command.action, hrows]
  all_goals first
    | exact hbank
    | exact .inr ⟨rfl, rfl⟩

theorem Issuable.banks_wellFormed {d : DRAMDevice} {e : Entry K} (h : Issuable cfg d e)
    (hbanks : ∀ b, WellFormed (d.banks b)) (clk : Int) (b : Int) :
    WellFormed ((d.issueCommand cfg.spec e.cmd e.addrVec clk).banks b) := by
  unfold DRAMDevice.issueCommand
  dsimp only
  split_ifs with hb
  · refine action_wellFormed h.cmd_mem (hbanks b) fun hact => ?_
    rw [targetBanks_single (by rw [hact]; rfl), List.mem_singleton] at hb
    subst hb
    rcases h with ⟨-, -, hclosed⟩ | ⟨-, -, hopen⟩ | ⟨h, hcol, -⟩ | ⟨h, href, -⟩ | ⟨h, hclock⟩ | h
    · exact .inl hclosed
    · exact .inr hopen
    · rw [← h, hact] at hcol
      exact absurd hcol (by decide)
    · rw [← h, hact] at href
      exact absurd href (by decide)
    · rw [← h, hact] at hclock
      exact absurd hclock (by decide)
    · rw [hact] at h
      exact absurd h (by decide)
  · exact hbanks b

/-! ## The invariant -/

theorem legalInv_init :
    LegalInv cfg strict (ControllerBase.init cfg : ControllerBase K) := by
  refine ⟨fun _ ev hev => ?_, fun b => .inr ⟨rfl, rfl⟩, fun b e he => ?_⟩
  · simp [ControllerBase.init] at hev
  · simp [ControllerBase.init] at he

/-- Steps that issue nothing keep the invariant if the requests they leave are in order. -/
theorem LegalInv.frame (h : LegalInv cfg strict s) (hdevice : s'.device = s.device)
    (hlog : ∃ evs, s'.log = s.log ++ evs ∧ ∀ ev ∈ evs, isIssue ev = false)
    (hfinals : ∀ b, ∀ e ∈ s'.bufs b, FinalOk b e) : LegalInv cfg strict s' := by
  obtain ⟨evs, hlog, hevs⟩ := hlog
  refine ⟨fun hstrict ev hev => ?_, hdevice ▸ h.banks, hfinals⟩
  rw [hlog, List.mem_append] at hev
  rcases hev with hev | hev
  · exact h.log hstrict ev hev
  · cases ev with
    | issued uid c addr targets active => exact absurd (hevs _ hev) (by simp [isIssue])
    | _ => trivial

theorem finalOk_ofRequest (hspec : OneStep cfg.spec) {apply : Request Command K → AddrVec}
    {req : Request Command K} (uid : Nat) (clk : Int) (b : Buf) :
    FinalOk b (Entry.ofRequest uid ((mapped cfg apply req).arrivedAt clk)) := by
  have hcol : (Entry.ofRequest uid ((mapped cfg apply req).arrivedAt clk)).final ∈
      columnCommands := by
    unfold Entry.final Entry.ofRequest mapped Request.arrivedAt
    dsimp only [Option.getD_some]
    split_ifs
    · rw [hspec.readCommand]
      decide
    · rw [hspec.writeCommand]
      decide
  exact ⟨(of_mem_columnCommands hcol).1, fun _ => hcol⟩

/-- One more request at the end of a buffer. -/
theorem LegalInv.finals_append (h : LegalInv cfg strict s) {b : Buf} {e : Entry K}
    (he : FinalOk b e) : ∀ b', ∀ e' ∈ (s.setBuf b (s.bufs b ++ [e])).bufs b', FinalOk b' e' := by
  intro b' e' he'
  rw [bufs_setBuf] at he'
  split_ifs at he' with hb
  · rcases List.mem_append.mp he' with hmem | hmem
    · exact hb ▸ h.finals b e' hmem
    · rw [List.mem_singleton.mp hmem, hb]
      exact he
  · exact h.finals b' e' he'

theorem LegalInv.send (hspec : OneStep cfg.spec) (h : LegalInv cfg strict s)
    {apply : Request Command K → AddrVec} {req req' : Request Command K} {accepted : Bool}
    (hsend : s.send cfg apply req = .ok (accepted, req', s')) : LegalInv cfg strict s' := by
  obtain ⟨-, hdev, -, -, -, hlog⟩ := send_frame hsend
  refine h.frame hdev hlog ?_
  rcases send_cases hsend with ⟨-, -, heq⟩ | ⟨-, -, -, heq⟩ | ⟨-, -, heq⟩ | ⟨-, -, -, heq⟩ | ⟨-, heq⟩
  all_goals
    obtain rfl := congrArg (fun r => r.2.2) heq
  · rw [forward_eq]
    exact h.finals
  · exact h.finals_append (finalOk_ofRequest hspec _ _ _)
  · rw [coalesce_eq]
    exact h.finals
  · exact h.finals_append (finalOk_ofRequest hspec _ _ _)
  · exact h.finals

/-- A priority request whose terminal command the standard has. -/
theorem LegalInv.enqueuePriority (hspec : OneStep cfg.spec) (h : LegalInv cfg strict s)
    {req : Request Command K} (hreq : ∃ c, req.finalCommand = some c ∧ cfg.spec.supports c = true) :
    LegalInv cfg strict (s.enqueuePriority req) := by
  obtain ⟨c, hc, hsup⟩ := hreq
  refine h.frame rfl ⟨[], by simp [ControllerBase.enqueuePriority, setStats, setBuf], by simp⟩
    (h.finals_append ⟨?_, by simp⟩)
  simpa [Entry.final, Entry.ofRequest, hc] using hspec.supports c hsup

theorem legalInv_keptBySend (hspec : OneStep cfg.spec) :
    KeptBySend cfg (fun _ => True) (LegalInv (K := K) cfg strict) := by
  intro s req accepted s' _ h hsend
  obtain ⟨hreq, rfl | rfl⟩ := prioritySend_eq_ok hsend
  · exact h.enqueuePriority hspec hreq
  · exact h

/-- No upgrade makes or unmakes an activation. -/
theorem actOnOpenRow_prepared (hspec : OneStep cfg.spec) {e : Entry K}
    (h : ActOnOpenRow cfg s (s.prepared cfg e)) : ActOnOpenRow cfg s e := by
  obtain ⟨hfinal, hopen⟩ := h
  unfold RowOpen bankOf at hopen
  rw [prepared_addrVec] at hopen
  refine ⟨?_, hopen⟩
  rcases prepared_cases cfg s e with ⟨-, hf⟩ | ⟨ap, hap, -, hf⟩
  · exact hf.symm.trans hfinal
  · have hcol := (apUpgrade_column hspec hap).2.1
    rw [← hf, hfinal] at hcol
    exact absurd hcol (by decide)

theorem finalOk_prepared (hspec : OneStep cfg.spec) {b : Buf} {e : Entry K} (hok : FinalOk b e) :
    FinalOk b (s.prepared cfg e) := by
  rcases prepared_cases cfg s e with ⟨-, hf⟩ | ⟨ap, hap, -, hf⟩
  · unfold FinalOk
    rw [hf]
    exact hok
  · have hcol := (apUpgrade_column hspec hap).2.1
    rw [← hf] at hcol
    exact ⟨(of_mem_columnCommands hcol).1, fun _ => hcol⟩

/-- Issuing the command of a candidate. -/
theorem LegalInv.issued (hspec : OneStep cfg.spec) (h : LegalInv cfg strict s)
    {b : Buf} {i : Nat} {e : Entry K} (hcond : strict → ¬ ActOnOpenRow cfg s e)
    (hcand : Candidate cfg s b i e) (stats : Stats) (p : RowPolicyState) :
    LegalInv cfg strict (s.issued cfg b i (s.prepared cfg e) stats p) := by
  have hok := h.finals b e (List.mem_of_getElem? hcand.getElem)
  have hiss := prepared_issuable hspec h.banks hok.1 hcand.cmd
  refine ⟨fun hstrict ev hev => ?_, hiss.banks_wellFormed h.banks s.clk, fun b' e' he' => ?_⟩
  · rcases List.mem_append.mp hev with hev | hev
    · exact h.log hstrict ev hev
    · rw [List.mem_singleton.mp hev]
      dsimp only [Legal]
      rw [List.map_map]
      exact hiss.legal fun hact => hcond hstrict (actOnOpenRow_prepared hspec hact)
  · rw [bufs_issued] at he'
    split_ifs at he' with hb
    · rcases List.mem_or_eq_of_mem_set he' with hmem | rfl
      · exact hb ▸ h.finals b e' hmem
      · exact hb ▸ finalOk_prepared hspec hok
    · exact h.finals b' e' he'

theorem LegalInv.advance (h : LegalInv cfg strict s) {b : Buf} {i : Nat} {e : Entry K}
    (hcol : e.cmd.commandMeta.isOpening = true → e.cmd ≠ e.final → e.final ∈ columnCommands) :
    LegalInv cfg strict (s.advance cfg b i e) := by
  refine h.frame (advance_device cfg b i e s) (advance_log cfg b i e s) fun b' e' he' => ?_
  rcases mem_bufs_advance he' with hmem | ⟨-, rfl, hne, hopening⟩
  · exact h.finals b' e' hmem
  · have hmem := hcol hopening hne
    exact ⟨(of_mem_columnCommands hmem).1, fun _ => hmem⟩

theorem LegalInv.resolved (h : LegalInv cfg strict s) (hres : Resolved s s') :
    LegalInv cfg strict s' := by
  have hlog : s'.log = s.log := by rw [hres.rest]
  refine h.frame (by rw [hres.rest]) ⟨[], by rw [hlog, List.append_nil], by simp⟩ fun b e he => ?_
  obtain ⟨e₀, he₀, hbare⟩ := exists_bare_eq (hres.bare b) he
  have hok := h.finals b e₀ he₀
  unfold FinalOk at hok ⊢
  rwa [(of_bare_eq hbare).2.2.2.2.1]

theorem LegalInv.tickPrologue (h : LegalInv cfg strict s) : LegalInv cfg strict s.tickPrologue := by
  obtain ⟨stats, heq, -⟩ := tickPrologue_eq s
  rw [heq]
  refine h.frame rfl ⟨_, rfl, ?_⟩ h.finals
  intro ev hev
  obtain ⟨p, -, rfl⟩ := List.mem_map.mp hev
  rfl

/-- Up to the choice of the candidate. -/
theorem LegalInv.preTick (hspec : OneStep cfg.spec) (h : LegalInv cfg strict s) {inputs : TickInputs K}
    (hpre : s.preTick cfg inputs = .ok s') : LegalInv cfg strict s' :=
  preTick_preserves (legalInv_keptBySend hspec) (fun _ _ => trivial) (fun _ _ hs => ⟨hs.1, hs.2, hs.3⟩)
    (fun _ _ => trivial) (fun _ _ => trivial) h.tickPrologue hpre

theorem LegalInv.tick (hspec : OneStep cfg.spec) (h : LegalInv cfg strict s) {inputs : TickInputs K}
    (hcond : strict → OnlyCandidates cfg (fun s _ e => ¬ ActOnOpenRow cfg s e) s (.tick inputs))
    (htick : s.tick cfg inputs = .ok s') : LegalInv cfg strict s' := by
  refine tick_preserves (fun _ => True) (fun _ e s => strict → ¬ ActOnOpenRow cfg s e)
    (LegalInv cfg strict)
    (fun _ _ e s => LegalInv cfg strict s ∧
      (e.cmd.commandMeta.isOpening = true → e.cmd ≠ e.final → e.final ∈ columnCommands))
    (legalInv_keptBySend hspec) ?_ (fun _ _ => trivial) (fun s p hs => ⟨hs.1, hs.2, hs.3⟩)
    (fun s hs => hs.tickPrologue) (fun s s' hres hs => hs.resolved hres) ?_
    (fun s b i e hQ => hQ.1.advance hQ.2) (fun _ _ => trivial) ?_ h htick
  · intro b i e s req accepted s' hreq hQ hsend
    exact ⟨legalInv_keptBySend hspec s req accepted s' hreq hQ.1 hsend, hQ.2⟩
  · intro s b i e stats p hs hcond hcand _
    have hok := hs.finals b e (List.mem_of_getElem? hcand.getElem)
    exact ⟨hs.issued hspec hcond hcand stats p,
      (prepared_issuable hspec hs.banks hok.1 hcand.cmd).final_column⟩
  · intro s₁ s₂ b e hpre hres hcand hstrict
    have hne := hcond hstrict inputs s₁ b e rfl hpre hcand
    rw [hres.rest]
    exact hne

theorem LegalInv.call (hspec : OneStep cfg.spec) (h : LegalInv cfg strict s) {c : Call K}
    (hcond : strict → OnlyCandidates cfg (fun s _ e => ¬ ActOnOpenRow cfg s e) s c)
    (hcall : Controller.call cfg c s = .ok s') : LegalInv cfg strict s' := by
  cases c with
  | send apply req =>
      obtain ⟨⟨accepted, req', t⟩, ht, rfl⟩ := except_map_eq_ok.mp hcall
      exact h.send hspec ht
  | prioritySend req =>
      obtain ⟨⟨accepted, t⟩, ht, rfl⟩ := except_map_eq_ok.mp hcall
      exact legalInv_keptBySend hspec s req accepted t trivial h ht
  | tick inputs => exact h.tick hspec hcond hcall

/-! ## Legality of every run -/

/-- Without any condition: what holds of every reachable state. -/
theorem legalInv_reachable (hspec : OneStep cfg.spec) {allowed : ControllerBase K → Call K → Prop}
    (hs : ReachableIf cfg allowed s) : LegalInv cfg False s := by
  refine Reachable.invariant (LegalInv cfg False) legalInv_init ?_ hs
  rintro t c t' ht ⟨-, hcall⟩
  exact ht.call hspec False.elim hcall

/-- If the call is a tick: the first priority request that waits when it makes its choice is no activation
of a bank that is open with its row. -/
def FirstPriorityWaits (cfg : Config) (s : ControllerBase K) (c : Call K) : Prop :=
  ∀ inputs base e, c = .tick inputs → s.preTick cfg inputs = .ok base → base.priority.head? = some e →
    ¬ ActOnOpenRow cfg base e

/-- Only the first priority request can be such an activation: all others wait for their turn, and those
outside the priority buffer end in column commands. -/
theorem LegalInv.onlyCandidates (hspec : OneStep cfg.spec) (h : LegalInv cfg strict s) {c : Call K}
    (hfirst : FirstPriorityWaits cfg s c) :
    OnlyCandidates cfg (fun s _ e => ¬ ActOnOpenRow cfg s e) s c := by
  rintro inputs base b e rfl hpre hcand ⟨hfinal, hopen⟩
  have hbase := h.preTick hspec hpre
  obtain ⟨hres, hfound⟩ := scheduleWith_spec cfg (some fun _ => true) (fun _ => true) (fun _ => true) base
  unfold candidate ControllerBase.schedule at hcand
  rcases hsched : base.scheduleWith cfg (some fun _ => true) (fun _ => true) fun _ => true with
    ⟨t, - | ⟨b', i⟩⟩
  all_goals
    rw [hsched] at hcand hres hfound
  · cases hcand
  · obtain ⟨e', hget, heq⟩ := Option.map_eq_some_iff.mp hcand
    obtain ⟨rfl, rfl⟩ := Prod.mk.inj heq
    by_cases hb : b' = .priority
    · -- the choice among the priority requests is the first one
      subst hb
      obtain rfl : i = 0 := scheduleWith_priority (congrArg Prod.snd hsched)
      have hbare := congrArg (fun l => l[0]?) (hres.bare .priority)
      simp only [List.getElem?_map, hget, Option.map_some] at hbare
      obtain ⟨e₀, he₀, hsame⟩ := Option.map_eq_some_iff.mp hbare.symm
      refine hfirst inputs base e₀ rfl hpre (List.head?_eq_getElem? .. ▸ he₀) ⟨?_, ?_⟩
      · rw [(of_bare_eq hsame).2.2.2.2.1, hfinal]
      · unfold RowOpen bankOf at hopen ⊢
        rwa [(of_bare_eq hsame).2.2.1]
    · obtain ⟨e₀, he₀, hsame⟩ := exists_bare_eq (hres.bare b') (List.mem_of_getElem? hget)
      have hcol := (hbase.finals b' e₀ he₀).2 hb
      rw [← (of_bare_eq hsame).2.2.2.2.1, hfinal] at hcol
      exact absurd hcol (by decide)

/-- In every run every bank is open with one row or closed with none, and in every run in which no tick
chooses an activation of an open row every issued command is legal; in particular in every run in which
no such activation is the first of the priority requests when a tick makes its choice. -/
theorem issued_commands_legal (cfg : Config) (hspec : IsDDR cfg.spec) :
    (∀ s : ControllerBase K, ReachableIf cfg (fun _ _ => True) s →
      ∀ b, WellFormed (s.device.banks b)) ∧
    (∀ s : ControllerBase K,
      ReachableIf cfg (OnlyCandidates cfg fun s _ e => ¬ ActOnOpenRow cfg s e) s →
      ∀ ev ∈ s.log, Legal cfg.spec ev) ∧
    ∀ s : ControllerBase K, ReachableIf cfg (FirstPriorityWaits cfg) s →
      ∀ ev ∈ s.log, Legal cfg.spec ev := by
  have hone := hspec.oneStep
  refine ⟨fun s hs => (legalInv_reachable hone hs).banks, fun s hs => ?_, fun s hs => ?_⟩
  · refine (Reachable.invariant (LegalInv cfg True) legalInv_init ?_ hs).log trivial
    rintro t c t' ht ⟨hcond, hcall⟩
    exact ht.call hone (fun _ => hcond) hcall
  · refine (Reachable.invariant (LegalInv cfg True) legalInv_init ?_ hs).log trivial
    rintro t c t' ht ⟨hfirst, hcall⟩
    exact ht.call hone (fun _ => ht.onlyCandidates hone hfirst) hcall

theorem isDDR_smallDDR : IsDDR smallDDR where
  supports := fun c => by cases c <;> decide
  readCommand := rfl
  writeCommand := rfl

/-- A read that finds the row which a priority request has activated. -/
theorem issued_commands_legal_readHit : ∃ s : ControllerBase Unit,
    ReachableIf smallConfig (OnlyCandidates smallConfig fun s _ e => ¬ ActOnOpenRow smallConfig s e) s ∧
    s.log = [.accepted 1 0 64 .buffered, .issued 0 .ACT smallRow [(0, ⟨.closed, []⟩)] [],
      .issued 1 .RD smallRow [(0, ⟨.opened, [5]⟩)] [], .departureScheduled 1 7] ∧
    ∀ ev ∈ s.log, Legal smallConfig.spec ev := by
  have hrun : observe smallConfig
      (onlyCandidates smallConfig fun s _ e => ¬ ActOnOpenRow smallConfig s e)
      [.prioritySend (Request.ofCommand smallRow .ACT), smallSend 64 Request.read,
        .tick {}, .tick {}, .tick {}]
      (fun s : ControllerBase Unit => s.log) =
      .ok [.accepted 1 0 64 .buffered, .issued 0 .ACT smallRow [(0, ⟨.closed, []⟩)] [],
        .issued 1 .RD smallRow [(0, ⟨.opened, [5]⟩)] [], .departureScheduled 1 7] := by
    decide +kernel
  obtain ⟨s, hreach, hlog⟩ := reachable_of_observe
    (fun _ _ h => onlyCandidates_sound (fun _ _ _ => of_decide_eq_true) h) hrun
  exact ⟨s, hreach, hlog, (issued_commands_legal smallConfig isDDR_smallDDR).2.1 s hreach⟩

/-- The second of two activations of one row, as a plugin enqueues them for two accesses to a row of its
own, is issued to a bank that the first one has opened. -/
theorem act_on_open_row : IsDDR smallConfig.spec ∧ ∃ s : ControllerBase Unit,
    ReachableIf smallConfig (fun _ _ => True) s ∧ ∃ ev ∈ s.log, ¬ Legal smallConfig.spec ev := by
  have hrun : observe smallConfig (fun _ _ => true)
      [.prioritySend (Request.ofCommand smallRow .ACT),
        .prioritySend (Request.ofCommand smallRow .ACT), .tick {}, .tick {}]
      (fun s : ControllerBase Unit => s.log) =
      .ok [.issued 0 .ACT smallRow [(0, ⟨.closed, []⟩)] [],
        .issued 1 .ACT smallRow [(0, ⟨.opened, [5]⟩)] []] := by
    decide +kernel
  obtain ⟨s, hreach, hlog⟩ := reachable_of_observe (fun _ _ _ => trivial) hrun
  refine ⟨isDDR_smallDDR, s, hreach, .issued 1 .ACT smallRow [(0, ⟨.opened, [5]⟩)] [], ?_, ?_⟩
  · rw [hlog]
    simp
  · intro hlegal
    exact absurd (hlegal.1 rfl _ List.mem_cons_self) (by decide)

end Ramulator.Controller
