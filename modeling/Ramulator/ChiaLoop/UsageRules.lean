/-
# Ramulator.ChiaLoop.UsageRules — usages by the rules of any table.

`normalize` (`framework/usage.py`) looks up the rule of a protocol. Where an object has samplings, each of these is
normalized by a rule of its own, and their counters take the place of the object's. `normalizeIn` is the function for
any table of rules; by the rules of `usage_protocols.json` it is `normalize`.

Whatever it returns adds up, with samplings as without. It refuses an object without samplings if and only if that is
malformed or inconsistent, except for the reports that `Rule.Within` tells apart (`normalizesWell_iff`).
-/
import Ramulator.ChiaLoop.UsagePartition
import Ramulator.Lib.Fallible

namespace Ramulator.ChiaLoop.Accounting

open Ramulator.Lib

variable {P : Type}

/-! ## Tables of rules -/

/-- A rule of a table, with the field of its samplings and the protocol that these follow. -/
structure ProtocolRule (P : Type) extends Rule where
  iterations : Option (String × P)

/-- What `normalize` returns: counters of one object, or those of samplings that take its place. -/
inductive Normalized (P : Type) where
  | flat (tokens : Option Tokens) (derived : List String) (protocol : P)
  | iterated (tokens : Tokens) (derived : List String) (protocol : P) (parts : List (String × Normalized P))

def Normalized.tokens : Normalized P → Option Tokens
  | .flat tokens _ _ => tokens
  | .iterated tokens _ _ _ => some tokens

/-- The counters of samplings are the sums over them. -/
def sumParts (parts : List (Normalized P)) : Tokens := fun f =>
  sumAll (parts.map fun part => part.tokens.bind fun k => k f)

theorem sizeOf_lookup {members : List (String × Json)} {name : String} {value : Json}
    (h : members.lookup name = some value) : sizeOf value < sizeOf (Json.obj members) := by
  have hmem : (name, value) ∈ members := by
    induction members with
    | nil => cases h
    | cons e members ih =>
        rw [List.lookup_cons] at h
        split at h
        · next heq =>
          cases h
          rw [eq_of_beq heq]
          exact List.mem_cons_self
        · exact List.mem_cons_of_mem _ (ih h)
  have hlt := List.sizeOf_lt_of_mem hmem
  simp at hlt ⊢
  omega

/-- `normalize`, by the rules of a table. -/
def normalizeIn (rules : P → ProtocolRule P) (raw : Json) (p : P) : Except Failure (Normalized P) :=
  match raw with
  | .null => .ok (.flat none [] p)
  | .obj members =>
      match hrows : (rules p).iterations.bind fun i => (members.lookup i.1).map fun rows => (i.2, rows) with
      | none | some (_, .null) => do
          let r ← (rules p).normalizeFlat (.obj members)
          pure (.flat (some r.1) r.2 p)
      | some (q, .arr (row :: rows)) => do
          let types ← (row :: rows).mapM rowType
          let parts ← (row :: rows).attach.mapM fun r => normalizeIn rules r.1 q
          pure (.iterated (sumParts parts) ["sampling_iterations_replace_top_level_usage"] p (types.zip parts))
      | some _ => .error (.invalidUsage "unsupported provider sampling-iteration usage")
  | _ => .error (.invalidUsage "provider usage must be an object")
termination_by sizeOf raw
decreasing_by
  obtain ⟨i, -, hlookup⟩ := Option.bind_eq_some_iff.mp hrows
  obtain ⟨value, hvalue, heq⟩ := Option.map_eq_some_iff.mp hlookup
  have hlt := List.sizeOf_lt_of_mem r.2
  have hsize := sizeOf_lookup hvalue
  rw [(Prod.mk.inj heq).2] at hsize
  simp at hlt hsize ⊢
  omega

variable {rules : P → ProtocolRule P} {p q : P} {members : List (String × Json)}

/-- An object that has no samplings to take its place. -/
def NoIterations (rules : P → ProtocolRule P) (p : P) (members : List (String × Json)) : Prop :=
  ∀ i, (rules p).iterations = some i → members.lookup i.1 = none ∨ members.lookup i.1 = some .null

theorem NoIterations.rows (h : NoIterations rules p members) :
    (rules p).iterations.bind (fun i => (members.lookup i.1).map fun rows => (i.2, rows)) = none ∨
      ∃ q, (rules p).iterations.bind (fun i => (members.lookup i.1).map fun rows => (i.2, rows)) = some (q, .null) := by
  cases hi : (rules p).iterations with
  | none => exact .inl rfl
  | some i =>
      rcases h i hi with hnone | hnull
      · refine .inl ?_
        rw [Option.bind_some, hnone]
        rfl
      · refine .inr ⟨i.2, ?_⟩
        rw [Option.bind_some, hnull]
        rfl

theorem normalizeIn_flat (h : NoIterations rules p members) :
    normalizeIn rules (.obj members) p =
      ((rules p).normalizeFlat (.obj members)).map fun r => .flat (some r.1) r.2 p := by
  have hmap : ∀ x : Except Failure (Tokens × List String),
      (do let r ← x; pure (Normalized.flat (some r.1) r.2 p)) = x.map fun r => .flat (some r.1) r.2 p := by
    intro x
    cases x <;> rfl
  have hrows := h.rows
  rw [normalizeIn, hmap]
  split
  · rfl
  · rfl
  · next heq =>
    rcases hrows with hnone | ⟨q, hnull⟩
    · rw [hnone] at heq
      cases heq
    · rw [hnull] at heq
      cases heq
  · next hnull' _ heq =>
    rcases hrows with hnone | ⟨q, hnull⟩
    · rw [hnone] at heq
      cases heq
    · exact absurd (Option.some.inj (heq.symm.trans hnull)) (hnull' q)

/-- With samplings, their usages take the place of the object's. -/
theorem normalizeIn_iterated {field : String} {row : Json} {rows : List Json}
    (hp : (rules p).iterations = some (field, q)) (hrows : members.lookup field = some (.arr (row :: rows))) :
    normalizeIn rules (.obj members) p = (do
      let types ← (row :: rows).mapM rowType
      let parts ← (row :: rows).mapM fun r => normalizeIn rules r q
      pure (.iterated (sumParts parts) ["sampling_iterations_replace_top_level_usage"] p (types.zip parts))) := by
  have hbind : (rules p).iterations.bind (fun i => (members.lookup i.1).map fun rows => (i.2, rows)) =
      some (q, .arr (row :: rows)) := by
    rw [hp, Option.bind_some, hrows]
    rfl
  have hattach : (row :: rows).attach.mapM (fun r => normalizeIn rules r.1 q) =
      (row :: rows).mapM fun r => normalizeIn rules r q := by
    rw [List.mapM_subtype (g := fun r => normalizeIn rules r q) fun _ _ => rfl, List.unattach_attach]
  rw [normalizeIn]
  split
  · next heq =>
    rw [hbind] at heq
    cases heq
  · next heq =>
    rw [hbind] at heq
    cases heq
  · next heq =>
    rw [hbind] at heq
    cases heq
    rw [hattach]
  · next hother heq =>
    exact absurd (Option.some.inj (heq.symm.trans hbind)) (hother q row rows)

/-- Samplings that are no list, or an empty one. -/
theorem normalizeIn_malformed {field : String} {value : Json} (hp : (rules p).iterations = some (field, q))
    (hlookup : members.lookup field = some value) (hnull : value ≠ .null) (hrows : ∀ row rows, value ≠ .arr (row :: rows)) :
    normalizeIn rules (.obj members) p =
      .error (.invalidUsage "unsupported provider sampling-iteration usage") := by
  have hbind : (rules p).iterations.bind (fun i => (members.lookup i.1).map fun rows => (i.2, rows)) =
      some (q, value) := by
    rw [hp, Option.bind_some, hlookup]
    rfl
  rw [normalizeIn]
  split
  · next heq =>
    rw [hbind] at heq
    cases heq
  · next heq =>
    rw [hbind] at heq
    cases heq
    exact absurd rfl hnull
  · next heq =>
    rw [hbind] at heq
    cases heq
    exact absurd rfl (hrows _ _)
  · rfl

/-! ## What is returned adds up -/

/-- Counters that add up, in every part. -/
inductive Normalized.Partitioned : Normalized P → Prop
  | flat {tokens : Option Tokens} {derived : List String} {protocol : P} (h : ∀ k, tokens = some k → Partition k) :
      Partitioned (.flat tokens derived protocol)
  | iterated {tokens : Tokens} {derived : List String} {protocol : P} {parts : List (String × Normalized P)}
      (partition : Partition tokens) (sums : ∀ f, tokens f = sumParts (parts.map Prod.snd) f)
      (each : ∀ part ∈ parts, Partitioned part.2) : Partitioned (.iterated tokens derived protocol parts)

theorem Normalized.Partitioned.tokens {n : Normalized P} (h : n.Partitioned) :
    Partition fun f => n.tokens.bind fun k => k f := by
  cases h with
  | @flat tokens _ _ hk =>
      cases tokens with
      | none => exact ⟨nofun, nofun, nofun, nofun⟩
      | some k => exact hk k rfl
  | iterated hk => exact hk

/-- Sums of counters that add up. -/
theorem Partition.sum (ks : List Tokens) (h : ∀ k ∈ ks, Partition k) : Partition fun f => sumAll (ks.map fun k => k f) := by
  induction ks with
  | nil =>
      refine ⟨?_, ?_, ?_, ?_⟩
      · intro f n hn
        cases hn
        exact le_rfl
      · intro i u c w hi hu hc hw
        cases hi; cases hu; cases hc; cases hw
        rfl
      · intro o r n ho hr hn
        cases ho; cases hr; cases hn
        rfl
      · intro t i o ht hi ho
        cases ht; cases hi; cases ho
        rfl
  | cons k ks ih =>
      have hk := h k List.mem_cons_self
      have hks := ih fun k' hk' => h k' (List.mem_cons_of_mem _ hk')
      refine ⟨fun f n hn => ?_, fun i u c w hi hu hc hw => ?_, fun o r n ho hr hn => ?_, fun t i o ht hi ho => ?_⟩
      · obtain ⟨a, ha, b, hb, rfl⟩ := sumAll_cons.mp hn
        exact Int.add_nonneg (hk.nonneg f a ha) (hks.nonneg f b hb)
      · obtain ⟨i₁, hi₁, i₂, hi₂, rfl⟩ := sumAll_cons.mp hi
        obtain ⟨u₁, hu₁, u₂, hu₂, rfl⟩ := sumAll_cons.mp hu
        obtain ⟨c₁, hc₁, c₂, hc₂, rfl⟩ := sumAll_cons.mp hc
        obtain ⟨w₁, hw₁, w₂, hw₂, rfl⟩ := sumAll_cons.mp hw
        have h₁ := hk.input i₁ u₁ c₁ w₁ hi₁ hu₁ hc₁ hw₁
        have h₂ := hks.input i₂ u₂ c₂ w₂ hi₂ hu₂ hc₂ hw₂
        omega
      · obtain ⟨o₁, ho₁, o₂, ho₂, rfl⟩ := sumAll_cons.mp ho
        obtain ⟨r₁, hr₁, r₂, hr₂, rfl⟩ := sumAll_cons.mp hr
        obtain ⟨n₁, hn₁, n₂, hn₂, rfl⟩ := sumAll_cons.mp hn
        have h₁ := hk.output o₁ r₁ n₁ ho₁ hr₁ hn₁
        have h₂ := hks.output o₂ r₂ n₂ ho₂ hr₂ hn₂
        omega
      · obtain ⟨t₁, ht₁, t₂, ht₂, rfl⟩ := sumAll_cons.mp ht
        obtain ⟨i₁, hi₁, i₂, hi₂, rfl⟩ := sumAll_cons.mp hi
        obtain ⟨o₁, ho₁, o₂, ho₂, rfl⟩ := sumAll_cons.mp ho
        have h₁ := hk.total t₁ i₁ o₁ ht₁ hi₁ ho₁
        have h₂ := hks.total t₂ i₂ o₂ ht₂ hi₂ ho₂
        omega

theorem sumParts_partition {parts : List (Normalized P)} (h : ∀ part ∈ parts, part.Partitioned) :
    Partition (sumParts parts) := by
  have hsum := Partition.sum (parts.map fun part f => part.tokens.bind fun k => k f) fun k hk => by
    obtain ⟨part, hpart, rfl⟩ := List.mem_map.mp hk
    exact (h part hpart).tokens
  have hsame : sumParts parts =
      fun f => sumAll ((parts.map fun part f => part.tokens.bind fun k => k f).map fun k => k f) := funext fun f => by
    unfold sumParts
    rw [List.map_map]
    rfl
  rw [hsame]
  exact hsum

/-- Whatever the table and the object, what is returned adds up. -/
theorem normalizeIn_partitioned {raw : Json} {r : Normalized P} (h : normalizeIn rules raw p = .ok r) :
    r.Partitioned := by
  induction hsize : sizeOf raw using Nat.strong_induction_on generalizing raw p r with
  | _ n ih =>
      subst hsize
      cases raw with
      | null =>
          rw [normalizeIn] at h
          cases h
          exact .flat nofun
      | obj members =>
          by_cases hnone : NoIterations rules p members
          · rw [normalizeIn_flat hnone] at h
            cases hr : (rules p).normalizeFlat (.obj members) with
            | error e =>
                rw [hr] at h
                cases h
            | ok tokens =>
                rw [hr] at h
                cases h
                refine .flat fun k hk => ?_
                cases hk
                exact Rule.normalizeFlat_partition hr
          · unfold NoIterations at hnone
            push Not at hnone
            obtain ⟨⟨field, q⟩, hi, hsome, hnull⟩ := hnone
            obtain ⟨value, hvalue⟩ := Option.ne_none_iff_exists'.mp hsome
            have hnull : value ≠ .null := fun heq => hnull (heq ▸ hvalue)
            by_cases hrows : ∃ row rows, value = .arr (row :: rows)
            · obtain ⟨row, rows, rfl⟩ := hrows
              rw [normalizeIn_iterated hi hvalue] at h
              obtain ⟨types, htypes, h⟩ := except_bind_eq_ok.mp h
              obtain ⟨parts, hparts, h⟩ := except_bind_eq_ok.mp h
              cases h
              -- every sampling is part of the object
              have heach : ∀ part ∈ parts, part.Partitioned := fun part hpart => by
                obtain ⟨r, hr, hok⟩ := (mem_of_mapM hparts).mp hpart
                have hlt := List.sizeOf_lt_of_mem hr
                have hsize := sizeOf_lookup hvalue
                refine ih (sizeOf r) ?_ hok rfl
                simp at hlt hsize ⊢
                omega
              refine .iterated (sumParts_partition heach) (fun f => ?_) fun part hpart => ?_
              · have hlength : parts.length = types.length :=
                  (mapM_ok.mp hparts).length_eq.symm.trans (mapM_ok.mp htypes).length_eq
                rw [List.map_snd_zip hlength.le]
              · exact heach _ (List.of_mem_zip hpart).2
            · push Not at hrows
              rw [normalizeIn_malformed hi hvalue hnull hrows] at h
              cases h
      | _ =>
          rw [normalizeIn] at h
          · cases h
          all_goals nofun

/-! ## What is refused -/

/-- A path crosses what is no object. A missing value ends a path without more. -/
def Crosses : Json → List String → Prop
  | .null, _ => False
  | .obj members, name :: path => Crosses ((members.lookup name).getD .null) path
  | _, _ :: _ => True
  | _, [] => False

/-- A value that can be a count: a non-negative integer, or none at all. -/
def IsCount (value : Json) : Prop := value = .null ∨ ∃ n : Int, 0 ≤ n ∧ value = .int n

theorem atPath_error_iff {raw : Json} {path : List String} : (∃ e, atPath raw path = .error e) ↔ Crosses raw path := by
  induction path generalizing raw with
  | nil =>
      have hok : ¬ ∃ e, atPath raw [] = .error e := by
        rintro ⟨e, h⟩
        unfold atPath at h
        cases h
      cases raw <;> exact iff_of_false hok id
  | cons name path ih =>
      cases raw with
      | null =>
          refine iff_of_false ?_ id
          rintro ⟨e, h⟩
          cases h
      | obj members => exact ih
      | _ => exact iff_of_true ⟨_, rfl⟩ trivial

theorem count_ok_iff {value : Json} : (∃ v, count value = .ok v) ↔ IsCount value := by
  cases value with
  | null => exact iff_of_true ⟨_, rfl⟩ (.inl rfl)
  | int n =>
      unfold count
      dsimp only
      split_ifs with hneg
      · refine iff_of_false nofun ?_
        rintro (h | ⟨m, hm, h⟩)
        · cases h
        · cases h
          omega
      · exact iff_of_true ⟨_, rfl⟩ (.inr ⟨n, not_lt.mp hneg, rfl⟩)
  | _ =>
      refine iff_of_false nofun ?_
      rintro (h | ⟨m, hm, h⟩)
      · cases h
      · cases h

namespace Rule

/-- A count of the report is no non-negative integer, or its path crosses what is no object. -/
def Unreadable (rule : Rule) (raw : Json) : Prop :=
  ∃ f ∈ rule.fields, Crosses raw f.2 ∨ ∃ value, atPath raw f.2 = .ok value ∧ ¬ IsCount value

/-- The counters of a report, with those that the protocol does not have. -/
def Reports (rule : Rule) (raw : Json) (v : Tokens) : Prop :=
  ∃ k, readFields raw rule.fields (fun _ => none) = .ok k ∧ v = setZeros rule.zeroFields k

theorem readFields_ok_iff {raw : Json} {fields : List (Field × List String)} {k : Tokens} :
    (∃ k', readFields raw fields k = .ok k') ↔
      ¬ ∃ f ∈ fields, Crosses raw f.2 ∨ ∃ value, atPath raw f.2 = .ok value ∧ ¬ IsCount value := by
  induction fields generalizing k with
  | nil => exact iff_of_true ⟨k, rfl⟩ nofun
  | cons field fields ih =>
      rw [List.exists_mem_cons_iff, not_or, ← atPath_error_iff]
      have hstep : ∀ k', readFields raw (field :: fields) k = .ok k' ↔
          ∃ value, atPath raw field.2 = .ok value ∧ ∃ v, count value = .ok v ∧
            readFields raw fields (Function.update k field.1 v) = .ok k' := fun k' => by
        show (atPath raw field.2 >>= fun value => count value >>= fun v => _) = _ ↔ _
        rw [bind_ok]
        exact exists_congr fun value => and_congr_right fun _ => bind_ok
      constructor
      · rintro ⟨k', hk'⟩
        obtain ⟨value, hvalue, v, hv, hrest⟩ := (hstep k').mp hk'
        refine ⟨?_, ih.mp ⟨k', hrest⟩⟩
        rintro (⟨e, he⟩ | ⟨value', hvalue', hcount⟩)
        · rw [hvalue] at he
          cases he
        · obtain rfl := Except.ok.inj (hvalue.symm.trans hvalue')
          exact hcount (count_ok_iff.mp ⟨v, hv⟩)
      · rintro ⟨hfield, hfields⟩
        obtain ⟨hpath, hcount⟩ := not_or.mp hfield
        cases hvalue : atPath raw field.2 with
        | error e => exact absurd ⟨e, hvalue⟩ hpath
        | ok value =>
            have hvalid : IsCount value := by
              by_contra hnot
              exact hcount ⟨value, hvalue, hnot⟩
            obtain ⟨v, hv⟩ := count_ok_iff.mpr hvalid
            obtain ⟨k', hk'⟩ := ih.mpr hfields
            exact ⟨k', (hstep k').mpr ⟨value, hvalue, v, hv, hk'⟩⟩

theorem exists_reports_iff {rule : Rule} {raw : Json} : (∃ v, rule.Reports raw v) ↔ ¬ rule.Unreadable raw := by
  refine Iff.trans ?_ (readFields_ok_iff (k := fun _ => none))
  exact ⟨fun ⟨_, k, hk, _⟩ => ⟨k, hk⟩, fun ⟨k, hk⟩ => ⟨_, k, hk, rfl⟩⟩

theorem Reports.nonneg {rule : Rule} {raw : Json} {v : Tokens} (h : rule.Reports raw v) : NonNeg v := by
  obtain ⟨k, hk, rfl⟩ := h
  have hstart : NonNeg fun _ => none := fun _ _ hn => nomatch hn
  exact setZeros_nonneg (readFields_nonneg hstart hk)

end Rule

/-- An object is treated as its counters deserve: what is returned of it adds up, and without samplings it is refused
exactly if it is malformed or no choice of the counters it leaves out makes it true. -/
structure NormalizesWell (rules : P → ProtocolRule P) (p : P) (members : List (String × Json)) : Prop where
  partitioned : ∀ r, normalizeIn rules (.obj members) p = .ok r → r.Partitioned
  refuses : NoIterations rules p members →
    ((∃ m, normalizeIn rules (.obj members) p = .error (.invalidUsage m)) ↔
      (rules p).Unreadable (.obj members) ∨
        ∀ v, (rules p).Reports (.obj members) v → ¬ ∃ x, (rules p).Completes v x)

/-- An object without samplings is refused exactly if it is malformed or a comparison fails. -/
theorem refused_iff (hnone : NoIterations rules p members) :
    (∃ m, normalizeIn rules (.obj members) p = .error (.invalidUsage m)) ↔
      ∀ v, (rules p).Reports (.obj members) v → ¬ (rules p).Agrees v := by
  rw [normalizeIn_flat hnone]
  constructor
  · rintro ⟨m, hm⟩ v ⟨k, hk, hv⟩ hagrees
    obtain ⟨r, hr⟩ := (Rule.normalizeFlat_ok_iff hk hv).mpr hagrees
    rw [hr] at hm
    cases hm
  · intro h
    cases hr : (rules p).normalizeFlat (.obj members) with
    | error e =>
        obtain ⟨m, rfl⟩ := Rule.onlyInvalid_normalizeFlat _ _ e hr
        exact ⟨m, rfl⟩
    | ok r =>
        have hread : ∃ k, Rule.readFields (.obj members) (rules p).fields (fun _ => none) = .ok k := by
          have hok := hr
          unfold Rule.normalizeFlat at hok
          obtain ⟨k, hk, -⟩ := bind_ok.mp hok
          exact ⟨k, hk⟩
        obtain ⟨k, hk⟩ := hread
        exact absurd ((Rule.normalizeFlat_ok_iff hk rfl).mp ⟨r, hr⟩) (h _ ⟨k, hk, rfl⟩)

/-! ## The table of the program -/

/-- `usage_protocols.json` as a table. -/
def Protocol.table (p : Protocol) : ProtocolRule Protocol := ⟨p.rule, p.iterations⟩

/-- A usage as `normalizeIn` returns it. -/
def Usage.normalized : Usage → Normalized Protocol
  | .flat usage => .flat usage.tokens usage.derived usage.protocol
  | .iterated usage parts => .iterated (usage.tokens.getD fun _ => none) usage.derived usage.protocol
      (parts.map fun part => (part.1, .flat part.2.tokens part.2.derived part.2.protocol))

/-- `mapM` with results of another type. -/
theorem mapM_map {α β γ : Type} {f : α → Except Failure β} {g : α → Except Failure γ} {c : β → γ} {xs : List α}
    (h : ∀ x ∈ xs, g x = (f x).map c) : xs.mapM g = (xs.mapM f).map (List.map c) := by
  induction xs with
  | nil => rfl
  | cons x xs ih =>
      rw [List.mapM_cons, List.mapM_cons, h x List.mem_cons_self, ih fun y hy => h y (List.mem_cons_of_mem _ hy)]
      cases f x with
      | error e => rfl
      | ok b =>
          cases xs.mapM f with
          | error e => rfl
          | ok bs => rfl

/-- A sampling is an object. -/
theorem rowType_ok {row : Json} {type : String} (h : rowType row = .ok type) : ∃ members, row = .obj members := by
  cases row with
  | obj members => exact ⟨members, rfl⟩
  | _ => cases h

theorem normalizeIn_table_flat {p : Protocol} (h : NoIterations Protocol.table p members) :
    normalizeIn Protocol.table (.obj members) p =
      (normalizeObject p (.obj members)).map fun u => .flat u.tokens u.derived u.protocol := by
  rw [normalizeIn_flat h]
  unfold normalizeObject
  show (p.rule.normalizeFlat (.obj members)).map _ = (p.rule.normalizeFlat (.obj members) >>= _).map _
  cases p.rule.normalizeFlat (.obj members) with
  | error e => rfl
  | ok r => rfl

theorem normalize_flat {p : Protocol} (h : NoIterations Protocol.table p members) :
    normalize (.obj members) p = (normalizeObject p (.obj members)).map .flat := by
  have hmap : ∀ x : Except Failure FlatUsage, (x >>= fun u => pure (Usage.flat u)) = x.map .flat := by
    intro x
    cases x <;> rfl
  unfold normalize
  dsimp only
  rcases h.rows with hrows | ⟨q, hrows⟩
  · rw [show (p.iterations.bind fun i => (members.lookup i.1).map fun rows => (i.2, rows)) = none from hrows]
    exact hmap _
  · rw [show (p.iterations.bind fun i => (members.lookup i.1).map fun rows => (i.2, rows)) = some (q, .null) from hrows]
    exact hmap _

theorem normalize_iterated {p q : Protocol} {field : String} {value : Json} (hp : p.iterations = some (field, q))
    (hvalue : members.lookup field = some value) (hnull : value ≠ .null) :
    normalize (.obj members) p = normalizeIterations p q value := by
  have hbind : (p.iterations.bind fun i => (members.lookup i.1).map fun rows => (i.2, rows)) = some (q, value) := by
    rw [hp, Option.bind_some, hvalue]
    rfl
  unfold normalize
  dsimp only
  rw [hbind]
  cases value with
  | null => exact absurd rfl hnull
  | _ => rfl

theorem sumParts_flat (parts : List FlatUsage) :
    sumParts (parts.map fun u => Normalized.flat u.tokens u.derived u.protocol) =
      fun f => sumAll (parts.map fun u => u.tokens.bind fun k => k f) := funext fun f => by
  unfold sumParts
  rw [List.map_map]
  rfl

/-- The samplings of the program's table have none of their own. -/
theorem normalizeIn_table_iterated {p q : Protocol} {field : String} {row : Json} {rows : List Json}
    (hp : p.iterations = some (field, q)) (hvalue : members.lookup field = some (.arr (row :: rows))) :
    normalizeIn Protocol.table (.obj members) p = (normalizeIterations p q (.arr (row :: rows))).map Usage.normalized := by
  have hflat : ∀ members, NoIterations Protocol.table q members := fun members i hi => by
    rw [show (Protocol.table q).iterations = none from Protocol.iterations_flat hp] at hi
    cases hi
  rw [normalizeIn_iterated hp hvalue]
  unfold normalizeIterations
  dsimp only
  cases htypes : (row :: rows).mapM rowType with
  | error e => rfl
  | ok types =>
      have hparts : (row :: rows).mapM (fun r => normalizeIn Protocol.table r q) =
          ((row :: rows).mapM (normalizeObject q)).map
            (List.map fun u => .flat u.tokens u.derived u.protocol) := mapM_map fun r hr => by
        obtain ⟨type, -, htype⟩ := exists_of_mem_left (mapM_ok.mp htypes) hr
        obtain ⟨members, rfl⟩ := rowType_ok htype
        exact normalizeIn_table_flat (hflat members)
      rw [hparts]
      cases (row :: rows).mapM (normalizeObject q) with
      | error e => rfl
      | ok parts =>
          show Except.ok (Normalized.iterated (sumParts _) _ _ _) = Except.ok (Normalized.iterated _ _ _ _)
          rw [sumParts_flat, List.zip_map_right]
          rfl

/-- By the table of the program `normalizeIn` is `normalize`. -/
theorem normalizeIn_table (raw : Json) (p : Protocol) :
    normalizeIn Protocol.table raw p = (normalize raw p).map Usage.normalized := by
  cases raw with
  | null =>
      rw [normalizeIn]
      rfl
  | obj members =>
      by_cases hnone : NoIterations Protocol.table p members
      · rw [normalizeIn_table_flat hnone, normalize_flat hnone]
        cases normalizeObject p (.obj members) with
        | error e => rfl
        | ok u => rfl
      · unfold NoIterations at hnone
        push Not at hnone
        obtain ⟨⟨field, q⟩, hp, hsome, hnull⟩ := hnone
        have hp : p.iterations = some (field, q) := hp
        obtain ⟨value, hvalue⟩ := Option.ne_none_iff_exists'.mp hsome
        have hnull : value ≠ .null := fun heq => hnull (heq ▸ hvalue)
        rw [normalize_iterated hp hvalue hnull]
        by_cases hrows : ∃ row rows, value = .arr (row :: rows)
        · obtain ⟨row, rows, rfl⟩ := hrows
          exact normalizeIn_table_iterated hp hvalue
        · push Not at hrows
          rw [normalizeIn_malformed hp hvalue hnull hrows]
          unfold normalizeIterations
          split
          · next row rows => exact absurd rfl (hrows row rows)
          · rfl
  | _ =>
      rw [normalizeIn]
      · rfl
      all_goals nofun

/-- `NormalizesWell` holds of an object unless it has no samplings, all its comparisons hold and one of its least values is not
within what is reported. And by the table of the program the function is `normalize`. -/
theorem normalizesWell_iff (rules : P → ProtocolRule P) (p : P) (members : List (String × Json)) :
    (NormalizesWell rules p members ↔
      (NoIterations rules p members → ∀ v, (rules p).Reports (.obj members) v → (rules p).Agrees v →
        (rules p).Within v)) ∧
      ∀ raw q, normalizeIn Protocol.table raw q = (normalize raw q).map Usage.normalized := by
  refine ⟨?_, normalizeIn_table⟩
  constructor
  · intro h hnone v hv hagrees
    have hread : ¬ (rules p).Unreadable (.obj members) := Rule.exists_reports_iff.mp ⟨v, hv⟩
    have hnot : ¬ ∀ v, (rules p).Reports (.obj members) v → ¬ ∃ x, (rules p).Completes v x := fun hall =>
      (refused_iff hnone).mp ((h.refuses hnone).mpr (.inr hall)) v hv hagrees
    push Not at hnot
    obtain ⟨v', hv', x, hx⟩ := hnot
    obtain ⟨k, hk, rfl⟩ := hv
    obtain ⟨k', hk', rfl⟩ := hv'
    obtain rfl := Except.ok.inj (hk.symm.trans hk')
    exact hx.within
  · intro h
    refine ⟨fun r hr => normalizeIn_partitioned hr, fun hnone => ?_⟩
    rw [refused_iff hnone]
    constructor
    · intro hrefused
      by_cases hread : (rules p).Unreadable (.obj members)
      · exact .inl hread
      · exact .inr fun v hv ⟨x, hx⟩ => hrefused v hv hx.agrees
    · rintro (hread | hnever) v hv hagrees
      · exact Rule.exists_reports_iff.mp ⟨v, hv⟩ hread
      · exact hnever v hv (Rule.exists_completes hv.nonneg hagrees (h hnone v hv hagrees))

/-- More was read from the cache than the total, by a protocol whose input includes that. -/
def hiddenReport : List (String × Json) :=
  [("total_tokens", .int 10), ("input_tokens_details", .obj [("cached_tokens", .int 20)])]

theorem hiddenReport_reports : ∃ v, (Protocol.table .openaiResponse).Reports (.obj hiddenReport) v ∧
    v .totalTokens = some 10 ∧ v .cachedInputTokens = some 20 :=
  ⟨_, ⟨_, rfl, rfl⟩, rfl, rfl⟩

theorem hiddenReport_not_refused : ¬ NormalizesWell Protocol.table .openaiResponse hiddenReport := by
  intro h
  have hnone : NoIterations Protocol.table .openaiResponse hiddenReport := fun i hi => by cases hi
  have hnever : ∀ v, (Protocol.table .openaiResponse).Reports (.obj hiddenReport) v →
      ¬ ∃ x, (Protocol.table .openaiResponse).Completes v x := by
    rintro v ⟨k, hk, rfl⟩ ⟨x, hx⟩
    obtain ⟨v', ⟨k', hk', rfl⟩, htotal, hcached⟩ := hiddenReport_reports
    obtain rfl := Except.ok.inj (hk.symm.trans hk')
    have htotal : 10 = x .totalTokens := hx.reported .totalTokens (by decide) 10 htotal
    have hcached : 20 = x .cachedInputTokens := hx.reported .cachedInputTokens (by decide) 20 hcached
    have h₁ := hx.total
    have h₂ := hx.input
    have h₃ := hx.nonneg .uncachedInputTokens
    have h₄ := hx.nonneg .cacheWriteInputTokens
    have h₅ := hx.nonneg .outputTokens
    omega
  obtain ⟨m, hm⟩ := (h.refuses hnone).mpr (.inr hnever)
  obtain ⟨r, hr⟩ : ∃ r, (Protocol.table .openaiResponse).normalizeFlat (.obj hiddenReport) = .ok r := ⟨_, rfl⟩
  rw [normalizeIn_flat hnone, hr] at hm
  cases hm

end Ramulator.ChiaLoop.Accounting
