/-
# Ramulator.ChiaLoop.Pairing — what `match` pairs, and the populations that it counts.

Where identities are used the pairs are the join of the reads that have one, each identity once on either
side; elsewhere they are the join of the reads under source, address and occurrence. Both joins are matchings,
so that a key that both sides have gives one difference, and no population is smaller than what was paired.
-/
import Ramulator.ChiaLoop.RequestMetrics

namespace Ramulator.ChiaLoop.Scoring

open Ramulator.Lib

theorem raiseIf_eq_ok {ε : Type} {c : Prop} [Decidable c] {e : ε} {u : Unit} : raiseIf c e = .ok u ↔ ¬c := by
  unfold raiseIf
  by_cases hc : c
  · simp [hc]
  · simp [hc]

theorem raiseIf_eq_error {ε : Type} {c : Prop} [Decidable c] {e e' : ε} :
    raiseIf c e = .error e' ↔ c ∧ e = e' := by
  unfold raiseIf
  by_cases hc : c
  · simp [hc]
  · simp [hc]

/-! ## The pairs -/

/-- The reads of both sides that have one identity. -/
def logicalPairs (oracle model : List Request) : List Pair :=
  innerJoin Request.identity Request.identity (oracle.filter Request.eligible) (model.filter Request.eligible)

/-- No two reads have one identity. -/
def Identified (reads : List Request) : Prop := ((reads.filter Request.eligible).map Request.identity).Nodup

theorem stablePairs_eq_ok {oracle model : List Request} {oraclePath modelPath : String} {pairs : List Pair} :
    stablePairs oracle model oraclePath modelPath = .ok pairs ↔
      Identified oracle ∧ Identified model ∧ logicalPairs oracle model = pairs := by
  unfold stablePairs
  rw [except_bind_eq_ok]
  simp only [except_bind_eq_ok, raiseIf_eq_ok, not_not]
  constructor
  · rintro ⟨-, ho, -, hm, hpairs⟩
    cases hpairs
    exact ⟨ho, hm, rfl⟩
  · rintro ⟨ho, hm, rfl⟩
    exact ⟨⟨⟩, ho, ⟨⟩, hm, rfl⟩

/-- The pairs that are scored have one address; without the filter a pair that has two is an error. -/
theorem trustedPairs_eq_ok {filter : Bool} {logical pairs : List Pair} :
    trustedPairs filter logical = .ok pairs ↔
      (filter = false → ∀ p ∈ logical, sameAddress p = true) ∧ logical.filter sameAddress = pairs := by
  unfold trustedPairs
  cases hfind : logical.find? fun p => !sameAddress p with
  | none =>
      have hall : ∀ p ∈ logical, sameAddress p = true := by
        intro p hp
        simpa using List.find?_eq_none.mp hfind p hp
      rw [List.filter_eq_self.mpr hall]
      constructor
      · intro h
        exact ⟨fun _ => hall, Except.ok.inj h⟩
      · rintro ⟨-, rfl⟩
        rfl
  | some p =>
      have hp := List.mem_of_find?_eq_some hfind
      have hdiffer : sameAddress p = false := by simpa using List.find?_some hfind
      cases filter with
      | true =>
          constructor
          · intro h
            exact ⟨fun hfilter => absurd hfilter (by decide), Except.ok.inj h⟩
          · rintro ⟨-, rfl⟩
            rfl
      | false =>
          constructor
          · intro h
            cases h
          · rintro ⟨hall, -⟩
            rw [hall rfl p hp] at hdiffer
            cases hdiffer

/-- What `match` returns is one of two results. -/
theorem matchFrames_eq_ok {oraclePath modelPath : String} {filter : Bool} {oracle model : List Request × Bool}
    {r : MatchResult} :
    matchFrames oraclePath modelPath filter oracle model = .ok r ↔
      (usesIdentities oracle.1 model.1 oracle.2 model.2 ∧ Identified oracle.1 ∧ Identified model.1 ∧
        (filter = false → ∀ p ∈ logicalPairs oracle.1 model.1, sameAddress p = true) ∧
        matchResult oracle.1 model.1 oracle.2 model.2 filter (some (logicalPairs oracle.1 model.1))
          ((logicalPairs oracle.1 model.1).filter sameAddress) = r) ∨
      (¬ usesIdentities oracle.1 model.1 oracle.2 model.2 ∧ filter = false ∧
        matchResult oracle.1 model.1 oracle.2 model.2 filter none (legacyPairs oracle.1 model.1) = r) := by
  unfold matchFrames
  by_cases huses : usesIdentities oracle.1 model.1 oracle.2 model.2
  · rw [if_pos huses, except_bind_eq_ok]
    simp only [except_bind_eq_ok, stablePairs_eq_ok, trustedPairs_eq_ok, huses, not_true, false_and, or_false, true_and]
    constructor
    · rintro ⟨_, ⟨ho, hm, rfl⟩, _, ⟨hsame, rfl⟩, h⟩
      exact ⟨ho, hm, hsame, Except.ok.inj h⟩
    · rintro ⟨ho, hm, hsame, rfl⟩
      exact ⟨_, ⟨ho, hm, rfl⟩, _, ⟨hsame, rfl⟩, rfl⟩
  · rw [if_neg huses]
    simp only [huses, false_and, not_false_eq_true, true_and, false_or]
    cases filter with
    | true => simp
    | false => simp

instance (reads : List Request) : Decidable (Identified reads) := inferInstanceAs (Decidable (List.Nodup _))

/-- No identity of both sides has two addresses. -/
def SameAddresses (oracle model : List Request) : Prop :=
  ∀ o ∈ oracle.filter Request.eligible, ∀ m ∈ model.filter Request.eligible, o.identity = m.identity → o.addr = m.addr

instance (oracle model : List Request) : Decidable (SameAddresses oracle model) :=
  inferInstanceAs (Decidable (∀ o ∈ oracle.filter Request.eligible, ∀ m ∈ model.filter Request.eligible, _ → _))

/-- What `match` asks of two frames. Under identities no identity comes twice on a side, and without the
filter none has two addresses; elsewhere the filter is off. -/
def FramesComparable (filter : Bool) (oracle model : List Request × Bool) : Prop :=
  if usesIdentities oracle.1 model.1 oracle.2 model.2 then
    Identified oracle.1 ∧ Identified model.1 ∧ (filter = false → SameAddresses oracle.1 model.1)
  else filter = false

instance (filter : Bool) (oracle model : List Request × Bool) : Decidable (FramesComparable filter oracle model) :=
  inferInstanceAs (Decidable (if usesIdentities oracle.1 model.1 oracle.2 model.2 then _ ∧ _ ∧ (_ → _) else _))

theorem sameAddresses_iff {oracle model : List Request} :
    SameAddresses oracle model ↔ ∀ p ∈ logicalPairs oracle model, sameAddress p = true := by
  constructor
  · intro h p hp
    obtain ⟨ho, hm, hidentity⟩ := mem_innerJoin.mp hp
    exact decide_eq_true (h p.1 ho p.2 hm hidentity)
  · intro h o ho m hm hidentity
    exact of_decide_eq_true (h (o, m) (mem_innerJoin.mpr ⟨ho, hm, hidentity⟩))

/-- `match` answers for every two frames that can be compared, and for no others. -/
theorem matchFrames_answers (oraclePath modelPath : String) (filter : Bool) (oracle model : List Request × Bool) :
    (∃ r, matchFrames oraclePath modelPath filter oracle model = .ok r) ↔ FramesComparable filter oracle model := by
  simp only [matchFrames_eq_ok, exists_or, exists_and_left, exists_eq', and_true, ← sameAddresses_iff]
  unfold FramesComparable
  by_cases huses : usesIdentities oracle.1 model.1 oracle.2 model.2
  · rw [if_pos huses]
    simp only [huses, true_and, not_true, false_and, or_false]
  · rw [if_neg huses]
    simp only [huses, false_and, not_false_eq_true, true_and, false_or]

/-- `match` of two traces that load, under one policy of windows, is that of their frames. -/
theorem matchTraces_eq_ok {oracle model : Table} {filter : Bool}
    {oracleWindows modelWindows : Option (List AdmissionWindow)} {o m : List Request × Bool} {r : MatchResult}
    (ho : loadFrame oracle oracleWindows = .ok o) (hm : loadFrame model modelWindows = .ok m) :
    matchTraces oracle model filter oracleWindows modelWindows = .ok r ↔
      oracleWindows.isNone = modelWindows.isNone ∧ matchFrames oracle.path model.path filter o m = .ok r := by
  unfold matchTraces
  rw [ho, hm]
  simp only [except_bind_eq_ok, raiseIf_eq_ok, not_not, Except.ok.injEq, exists_eq_left', exists_const]

/-! ## One difference for a key -/

/-- `dv` holds one difference, of the model's latency less the oracle's, for each key under which both sides
have a read and the two agree. -/
def OnePerKey {κ : Type} (readO readM : κ → Request → Prop) (agree : Request → Request → Prop) (dv : List Int) : Prop :=
  ∃ keys : List κ, keys.Nodup ∧ (∀ key, key ∈ keys ↔ ∃ o m, readO key o ∧ readM key m ∧ agree o m) ∧
    List.Forall₂ (fun key d => ∀ o m, readO key o → readM key m → d = m.lat - o.lat) keys dv

/-- The read that has an identity. -/
def ReadOfIdentity (reads : List Request) (identity : Int × Int × Int) (r : Request) : Prop :=
  r ∈ reads ∧ 0 ≤ r.frontendId ∧ r.identity = identity

/-- The `n`th read of a source and an address. -/
def ReadOfOccurrence (reads : List Request) (key : (Int × Int) × Nat) (r : Request) : Prop :=
  (reads.filter fun x => x.src = key.1.1 ∧ x.addr = key.1.2)[key.2]? = some r

theorem readOfIdentity_iff {reads : List Request} {identity : Int × Int × Int} {r : Request} :
    ReadOfIdentity reads identity r ↔ r ∈ reads.filter Request.eligible ∧ r.identity = identity := by
  rw [ReadOfIdentity, List.mem_filter, Request.eligible, decide_eq_true_iff, and_assoc]

theorem ReadOfIdentity.unique {reads : List Request} (hreads : Identified reads) {identity : Int × Int × Int}
    {r r' : Request} (h : ReadOfIdentity reads identity r) (h' : ReadOfIdentity reads identity r') : r = r' := by
  obtain ⟨hmem, rfl⟩ := readOfIdentity_iff.mp h
  obtain ⟨hmem', heq⟩ := readOfIdentity_iff.mp h'
  exact List.inj_on_of_nodup_map hreads hmem hmem' heq.symm

theorem mem_logicalPairs {oracle model : List Request} {p : Pair} :
    p ∈ logicalPairs oracle model ↔
      ReadOfIdentity oracle p.1.identity p.1 ∧ ReadOfIdentity model p.1.identity p.2 := by
  rw [logicalPairs, mem_innerJoin, readOfIdentity_iff, readOfIdentity_iff]
  constructor
  · rintro ⟨ho, hm, hkey⟩
    exact ⟨⟨ho, rfl⟩, hm, hkey.symm⟩
  · rintro ⟨⟨ho, -⟩, hm, hkey⟩
    exact ⟨ho, hm, hkey.symm⟩

/-- Each identity of both sides whose reads agree gives one difference. -/
theorem logicalPairs_onePerKey {oracle model : List Request} {filter : Bool} (ho : Identified oracle)
    (hm : Identified model) (hsame : filter = false → ∀ p ∈ logicalPairs oracle model, sameAddress p = true) :
    OnePerKey (ReadOfIdentity oracle) (ReadOfIdentity model) (fun o m => filter = true → o.addr = m.addr)
      (((logicalPairs oracle model).filter sameAddress).map fun p => p.2.lat - p.1.lat) := by
  have hnodup : ((logicalPairs oracle model).map fun p => p.1.identity).Nodup := nodup_keys_innerJoin ho hm
  refine ⟨((logicalPairs oracle model).filter sameAddress).map fun p => p.1.identity,
    hnodup.sublist (List.filter_sublist.map _), ?_, ?_⟩
  · intro key
    rw [List.mem_map]
    constructor
    · rintro ⟨p, hp, rfl⟩
      obtain ⟨hp, haddr⟩ := List.mem_filter.mp hp
      obtain ⟨hpo, hpm⟩ := mem_logicalPairs.mp hp
      exact ⟨p.1, p.2, hpo, hpm, fun _ => of_decide_eq_true haddr⟩
    · rintro ⟨o, m, hpo, hpm, hagree⟩
      obtain ⟨-, -, rfl⟩ := id hpo
      have hp : (o, m) ∈ logicalPairs oracle model := mem_logicalPairs.mpr ⟨hpo, hpm⟩
      refine ⟨(o, m), List.mem_filter.mpr ⟨hp, ?_⟩, rfl⟩
      cases filter with
      | true => exact decide_eq_true (hagree rfl)
      | false => exact hsame rfl _ hp
  · rw [List.forall₂_map_left_iff, List.forall₂_map_right_iff, List.forall₂_same]
    intro p hp o m hpo hpm
    obtain ⟨hpo', hpm'⟩ := mem_logicalPairs.mp (List.mem_filter.mp hp).1
    rw [hpo.unique ho hpo', hpm.unique hm hpm']

theorem readOfOccurrence_iff {reads : List Request} {key : (Int × Int) × Nat} {r : Request} :
    ReadOfOccurrence reads key r ↔
      (r, key.2) ∈ number (fun x : Request => (x.src, x.addr)) reads ∧ (r.src, r.addr) = key.1 := by
  obtain ⟨⟨src, addr⟩, n⟩ := key
  have hfilter : (reads.filter fun x => x.src = src ∧ x.addr = addr) =
      reads.filter fun x => (x.src, x.addr) == (src, addr) := by
    refine List.filter_congr fun x _ => ?_
    rw [Bool.eq_iff_iff, decide_eq_true_iff, beq_iff_eq, Prod.mk.injEq]
  rw [ReadOfOccurrence, mem_number, hfilter]
  constructor
  · intro h
    have hkey := beq_iff_eq.mp (List.mem_filter.mp (List.mem_of_getElem? h)).2
    rw [hkey]
    exact ⟨h, rfl⟩
  · rintro ⟨h, hkey⟩
    rw [hkey] at h
    exact h

theorem ReadOfOccurrence.unique {reads : List Request} {key : (Int × Int) × Nat} {r r' : Request}
    (h : ReadOfOccurrence reads key r) (h' : ReadOfOccurrence reads key r') : r = r' :=
  Option.some.inj (h.symm.trans h')

theorem nodup_occurrenceKey (reads : List Request) :
    ((number (fun r : Request => (r.src, r.addr)) reads).map occurrenceKey).Nodup :=
  nodup_number (fun r : Request => (r.src, r.addr)) reads

/-- Each occurrence of both sides gives one difference. -/
theorem legacyPairs_onePerKey (oracle model : List Request) :
    OnePerKey (ReadOfOccurrence oracle) (ReadOfOccurrence model) (fun _ _ => True)
      ((legacyPairs oracle model).map fun p => p.2.lat - p.1.lat) := by
  unfold legacyPairs
  rw [List.map_map]
  refine ⟨(innerJoin occurrenceKey occurrenceKey (number (fun r => (r.src, r.addr)) oracle)
    (number (fun r => (r.src, r.addr)) model)).map fun p => occurrenceKey p.1,
    nodup_keys_innerJoin (nodup_occurrenceKey oracle) (nodup_occurrenceKey model), ?_, ?_⟩
  · intro key
    rw [mem_keys_innerJoin, List.mem_map, List.mem_map]
    constructor
    · rintro ⟨⟨eo, heo, rfl⟩, em, hem, hkey⟩
      obtain ⟨hkey, hn⟩ := Prod.mk.inj hkey
      refine ⟨eo.1, em.1, readOfOccurrence_iff.mpr ⟨heo, rfl⟩, readOfOccurrence_iff.mpr ⟨?_, hkey⟩, trivial⟩
      rw [occurrenceKey, ← hn]
      exact hem
    · rintro ⟨o, m, ho, hm, -⟩
      obtain ⟨ho, hko⟩ := readOfOccurrence_iff.mp ho
      obtain ⟨hm, hkm⟩ := readOfOccurrence_iff.mp hm
      exact ⟨⟨_, ho, Prod.ext hko rfl⟩, _, hm, Prod.ext hkm rfl⟩
  · rw [List.forall₂_map_left_iff, List.forall₂_map_right_iff, List.forall₂_same]
    intro p hp o m hpo hpm
    obtain ⟨ho, hm, hkey⟩ := mem_innerJoin.mp hp
    obtain ⟨hkey, hn⟩ := Prod.mk.inj hkey
    have hpo' : ReadOfOccurrence oracle (occurrenceKey p.1) p.1.1 := readOfOccurrence_iff.mpr ⟨ho, rfl⟩
    have hpm' : ReadOfOccurrence model (occurrenceKey p.1) p.2.1 := by
      refine readOfOccurrence_iff.mpr ⟨?_, hkey.symm⟩
      rw [occurrenceKey, hn]
      exact hm
    rw [hpo.unique hpo', hpm.unique hpm']
    rfl

/-! ## Populations -/

/-- What was paired is no more than the logical pairs, those no more than the reads with identities, and
those no more than all reads. -/
structure MatchResult.Ordered (r : MatchResult) : Prop where
  oracle : r.dv.length ≤ r.nO
  model : r.dv.length ≤ r.nM
  eligibleOracle : r.stableEligibleO ≤ r.nO
  eligibleModel : r.stableEligibleM ≤ r.nM
  logical : ∀ l ∈ r.stableLogicalPairs, r.dv.length ≤ l ∧ l ≤ r.stableEligibleO ∧ l ≤ r.stableEligibleM

theorem length_logicalPairs_le {oracle model : List Request} (ho : Identified oracle) (hm : Identified model) :
    (logicalPairs oracle model).length ≤ oracle.countP Request.eligible ∧
      (logicalPairs oracle model).length ≤ model.countP Request.eligible := by
  rw [List.countP_eq_length_filter, List.countP_eq_length_filter]
  exact length_innerJoin_le ho hm

theorem length_legacyPairs_le (oracle model : List Request) :
    (legacyPairs oracle model).length ≤ oracle.length ∧ (legacyPairs oracle model).length ≤ model.length := by
  have h := length_innerJoin_le (nodup_number (fun r : Request => (r.src, r.addr)) oracle)
    (nodup_number (fun r : Request => (r.src, r.addr)) model)
  rw [length_number, length_number] at h
  unfold legacyPairs
  rw [List.length_map]
  exact h

theorem ite_countP_le (reads : List Request) (stable : Bool) :
    (if stable then reads.countP Request.eligible else 0) ≤ reads.length := by
  cases stable with
  | true => exact List.countP_le_length
  | false => exact Nat.zero_le _

theorem matchFrames_ordered {oraclePath modelPath : String} {filter : Bool} {oracle model : List Request × Bool}
    {r : MatchResult} (h : matchFrames oraclePath modelPath filter oracle model = .ok r) : r.Ordered := by
  rcases matchFrames_eq_ok.mp h with ⟨⟨hso, hsm, -⟩, ho, hm, -, rfl⟩ | ⟨-, -, rfl⟩
  · obtain ⟨hlo, hlm⟩ := length_logicalPairs_le ho hm
    have htrusted := List.length_filter_le sameAddress (logicalPairs oracle.1 model.1)
    have heo : oracle.1.countP Request.eligible ≤ oracle.1.length := List.countP_le_length
    have hem : model.1.countP Request.eligible ≤ model.1.length := List.countP_le_length
    simp only [matchResult, hso, hsm, if_true]
    constructor
    case logical =>
      intro l hl
      obtain rfl := Option.some.inj hl
      rw [List.length_map]
      exact ⟨htrusted, hlo, hlm⟩
    all_goals simp only [List.length_map]; omega
  · obtain ⟨hlo, hlm⟩ := length_legacyPairs_le oracle.1 model.1
    constructor
    case oracle => simpa only [matchResult, List.length_map] using hlo
    case model => simpa only [matchResult, List.length_map] using hlm
    case eligibleOracle => exact ite_countP_le oracle.1 oracle.2
    case eligibleModel => exact ite_countP_le model.1 model.2
    case logical =>
      intro l hl
      cases hl

/-- The logical pairs are those that were paired and those with two addresses. -/
theorem matchFrames_logical {oraclePath modelPath : String} {filter : Bool} {oracle model : List Request × Bool}
    {r : MatchResult} (h : matchFrames oraclePath modelPath filter oracle model = .ok r) :
    ∀ l ∈ r.stableLogicalPairs, l = r.dv.length + r.addressMismatchPairs.getD 0 := by
  rcases matchFrames_eq_ok.mp h with ⟨-, -, -, -, rfl⟩ | ⟨-, -, rfl⟩
  · intro l hl
    obtain rfl := Option.some.inj hl
    simp only [matchResult, List.length_map, Option.map_some, Option.getD_some]
    rw [← List.countP_eq_length_filter]
    have hsplit := List.length_eq_countP_add_countP sameAddress (l := logicalPairs oracle.1 model.1)
    simpa only [decide_not, Bool.decide_eq_true] using hsplit
  · intro l hl
    cases hl

theorem sideCounts_eq_ok {matched total eligible : Nat} {logical : Option Nat}
    (h : ∀ l ∈ logical, matched ≤ l ∧ l ≤ eligible ∧ eligible ≤ total) :
    ∃ s, sideCounts matched total eligible logical = .ok s := by
  refine ⟨_, except_bind_eq_ok.mpr ⟨⟨⟩, raiseIf_eq_ok.mpr ?_, rfl⟩⟩
  rintro ⟨l, hl, hbad⟩
  exact hbad (h l hl)

/-- The partition of the recorded reads is never refused. -/
theorem champsimPairingCounts_ok {r : MatchResult} (hordered : r.Ordered)
    (hlogical : ∀ l ∈ r.stableLogicalPairs, l = r.dv.length + r.addressMismatchPairs.getD 0) :
    ∃ c, champsimPairingCounts r = .ok c := by
  have ho : ∃ o, sideCounts r.dv.length r.nO r.stableEligibleO r.stableLogicalPairs = .ok o :=
    sideCounts_eq_ok fun l hl => ⟨(hordered.logical l hl).1, (hordered.logical l hl).2.1, hordered.eligibleOracle⟩
  have hm : ∃ m, sideCounts r.dv.length r.nM r.stableEligibleM r.stableLogicalPairs = .ok m :=
    sideCounts_eq_ok fun l hl => ⟨(hordered.logical l hl).1, (hordered.logical l hl).2.2, hordered.eligibleModel⟩
  obtain ⟨o, ho⟩ := ho
  obtain ⟨m, hm⟩ := hm
  refine ⟨_, except_bind_eq_ok.mpr ⟨o, ho, except_bind_eq_ok.mpr ⟨m, hm, except_bind_eq_ok.mpr
    ⟨⟨⟩, raiseIf_eq_ok.mpr ?_, rfl⟩⟩⟩⟩
  rintro ⟨l, hl, hbad⟩
  exact hbad (hlogical l hl)

end Ramulator.ChiaLoop.Scoring
