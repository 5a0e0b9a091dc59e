/-
# Ramulator.ChiaLoop.StepLog — the step log runs an action at most once.

`step_log_at_most_once` is about every sequence of calls on a step, each cut off anywhere: how its attempts
are numbered, that a complete one is final, and what lies between two runs of its action.

`StepInv` holds of every state between two writes. A call is followed through its writes, with the rules of
`Durable.wp`; where it may be cut off, `StepInv` is what is left.
-/
import Ramulator.ChiaLoop.Records

namespace Ramulator.ChiaLoop

open Ramulator.Lib
open Ramulator.Lib.Durable
open CampaignState

/-! ## What a log shows -/

/-- A failure that was recorded as transient, or an operator who authorized a continuation. -/
def Event.resolves : Event → Bool
  | .transient _ => true
  | .authorized _ => true
  | _ => false

def Event.isInvoked : Event → Bool
  | .invoked _ _ => true
  | _ => false

def Event.attemptNumber : Event → Option Nat
  | .attempt number _ => some number
  | _ => none

/-- After each action something says that it may be repeated. -/
def AllResolved (log : List Event) : Prop :=
  ∀ pre e post, log = pre ++ e :: post → e.isInvoked = true → ∃ e' ∈ post, e'.resolves = true

/-- Between an action and a later one that may not be repeated after an interruption, something says that
it may be repeated all the same. -/
def Separated (log : List Event) : Prop :=
  ∀ pre e mid n post, log = pre ++ e :: (mid ++ .invoked n false :: post) → e.isInvoked = true →
    ∃ e' ∈ mid, e'.resolves = true

theorem snoc_eq_append_cons {α : Type} {l pre post : List α} {e x : α} (h : l ++ [e] = pre ++ x :: post) :
    (post = [] ∧ x = e ∧ pre = l) ∨ ∃ post', post = post' ++ [e] ∧ l = pre ++ x :: post' := by
  rcases List.eq_nil_or_concat post with rfl | ⟨post', y, rfl⟩
  · obtain ⟨hpre, hx⟩ := List.append_inj' h rfl
    exact .inl ⟨rfl, (List.cons.inj hx).1.symm, hpre.symm⟩
  · rw [List.concat_eq_append] at h ⊢
    have hsplit : l ++ [e] = (pre ++ x :: post') ++ [y] := by
      rw [h, List.append_assoc, List.cons_append]
    obtain ⟨hl, hy⟩ := List.append_inj' hsplit rfl
    cases hy
    exact .inr ⟨post', rfl, hl⟩

theorem AllResolved.snoc {log : List Event} {e : Event} (h : AllResolved log) (he : e.isInvoked = false) :
    AllResolved (log ++ [e]) := by
  intro pre x post heq hx
  rcases snoc_eq_append_cons heq with ⟨-, rfl, -⟩ | ⟨post', rfl, hlog⟩
  · rw [he] at hx
    cases hx
  · obtain ⟨e', hmem, hres⟩ := h pre x post' hlog hx
    exact ⟨e', List.mem_append_left _ hmem, hres⟩

/-- One event resolves all that came before it. -/
theorem allResolved_snoc {log : List Event} {e : Event} (he : e.resolves = true) :
    AllResolved (log ++ [e]) := by
  intro pre x post heq hx
  rcases snoc_eq_append_cons heq with ⟨-, rfl, -⟩ | ⟨post', rfl, -⟩
  · cases x <;> simp_all [Event.resolves, Event.isInvoked]
  · exact ⟨e, List.mem_append_right _ List.mem_cons_self, he⟩

theorem Separated.snoc {log : List Event} {e : Event} (h : Separated log)
    (he : ∀ n, e = .invoked n false → AllResolved log) : Separated (log ++ [e]) := by
  intro pre x mid n post heq hx
  rcases snoc_eq_append_cons heq with ⟨hnil, -, -⟩ | ⟨post', hpost, hlog⟩
  · cases mid with
    | nil => cases hnil
    | cons y mid => cases hnil
  · rcases snoc_eq_append_cons hpost.symm with ⟨rfl, rfl, rfl⟩ | ⟨post'', rfl, rfl⟩
    · exact he n rfl pre x _ hlog hx
    · exact h pre x mid n post'' hlog hx

/-! ## The invariant -/

/-- The attempts of a step, in the order in which they were inserted. -/
def attemptsOf (key : String) (s : CampaignState) : List Attempt := s.attempts.filter fun a => a.step == key

/-- What holds of a step between any two writes. -/
structure StepInv (key : String) (s : CampaignState) : Prop where
  numbered : (attemptsOf key s).map (·.number) = List.range' 1 (attemptsOf key s).length
  same_input : ∀ a ∈ attemptsOf key s, ∀ b ∈ attemptsOf key s, a.inputSha256 = b.inputSha256
  complete_last : ∀ a ∈ attemptsOf key s, a.status = .complete → a.number = (attemptsOf key s).length
  complete_result : ∀ a ∈ attemptsOf key s, a.status = .complete →
    ∃ (v : Value) (text : List Char), Json.canonicalJson v.1 = some text ∧ a.result = some text
  logged : s.log.filterMap Event.attemptNumber = List.range' 1 (attemptsOf key s).length
  paid : ∀ (n : Nat) (maximum : Int), .attempt n maximum ∈ s.log → n ≤ maximum ∨
    ∃ m, n = m + 1 ∧ 1 ≤ m ∧ (s.records.lookup (extensionKey key m)).isSome
  resolved : (∀ a, (attemptsOf key s).getLast? = some a → a.status = .failed) → AllResolved s.log
  separated : Separated s.log

variable {key : String} {s s' : CampaignState}

/-- The numbers of the attempts are their places. -/
theorem number_getElem (hinv : StepInv key s) {i : Nat} (hi : i < (attemptsOf key s).length) :
    (attemptsOf key s)[i].number = i + 1 := by
  have hmap := congrArg (fun l => l[i]?) hinv.numbered
  simp only [List.getElem?_map, List.getElem?_eq_getElem hi, Option.map_some, List.getElem?_range' hi,
    Option.some_inj] at hmap
  omega

/-- The rows of a query are the attempts as they were inserted. -/
theorem rows_eq (hinv : StepInv key s) : s.rows key = attemptsOf key s := by
  refine List.Pairwise.insertionSort_eq ?_
  have hpair : ((attemptsOf key s).map (·.number)).Pairwise (· ≤ ·) := by
    rw [hinv.numbered]
    exact List.pairwise_le_range'
  exact List.pairwise_map.mp hpair

theorem last_number (hinv : StepInv key s) {a : Attempt} (h : (attemptsOf key s).getLast? = some a) :
    a.number = (attemptsOf key s).length := by
  rw [List.getLast?_eq_getElem?, List.getElem?_eq_some_iff] at h
  obtain ⟨hlt, rfl⟩ := h
  rw [number_getElem hinv hlt]
  omega

theorem last_mem {a : Attempt} (h : (attemptsOf key s).getLast? = some a) : a ∈ attemptsOf key s :=
  List.mem_of_getLast? h

/-- The attempt with the last number is the last one. -/
theorem eq_last (hinv : StepInv key s) {a : Attempt} (ha : a ∈ attemptsOf key s)
    (h : a.number = (attemptsOf key s).length) : (attemptsOf key s).getLast? = some a := by
  obtain ⟨i, hi, rfl⟩ := List.getElem_of_mem ha
  rw [number_getElem hinv hi] at h
  rw [List.getLast?_eq_getElem?, List.getElem?_eq_getElem (by omega)]
  congr
  omega

/-! ### Records -/

/-- More records, and nothing else changed. -/
structure Grown (s s' : CampaignState) : Prop where
  attempts : s'.attempts = s.attempts
  log : s'.log = s.log
  records : ∀ k, (s.records.lookup k).isSome → (s'.records.lookup k).isSome

theorem Grown.refl (s : CampaignState) : Grown s s := ⟨rfl, rfl, fun _ h => h⟩

theorem Grown.attemptsOf (h : Grown s s') : attemptsOf key s' = attemptsOf key s := by
  unfold ChiaLoop.attemptsOf
  rw [h.attempts]

theorem Grown.stepInv (h : Grown s s') (hinv : StepInv key s) : StepInv key s' where
  numbered := by
    rw [h.attemptsOf]
    exact hinv.numbered
  same_input := by
    rw [h.attemptsOf]
    exact hinv.same_input
  complete_last := by
    rw [h.attemptsOf]
    exact hinv.complete_last
  complete_result := by
    rw [h.attemptsOf]
    exact hinv.complete_result
  logged := by
    rw [h.attemptsOf, h.log]
    exact hinv.logged
  paid := by
    rw [h.log]
    intro n maximum hmem
    rcases hinv.paid n maximum hmem with hle | ⟨m, hn, hm, hsome⟩
    · exact .inl hle
    · exact .inr ⟨m, hn, hm, h.records _ hsome⟩
  resolved := by
    rw [h.attemptsOf, h.log]
    exact hinv.resolved
  separated := by
    rw [h.log]
    exact hinv.separated

theorem grown_insertRecord {k : String} {value : List Char} (h : insertRecord k value s = .ok s') :
    Grown s s' := by
  unfold insertRecord at h
  cases h
  split_ifs with hsome
  · exact .refl s
  · refine ⟨rfl, rfl, fun k' hk' => ?_⟩
    rw [List.lookup_append, Option.isSome_or, hk', Bool.true_or]

theorem wp_get {Q : Option Json → CampaignState → Prop} {R : CampaignState → Prop} {k : String} (hR : R s)
    (h : ∀ v, (v.isSome → (s.records.lookup k).isSome) → Q v s) : wp (get k) Q R s := by
  refine wp_bind (wp_read ?_)
  cases hlookup : s.records.lookup k with
  | none => exact wp_pure (h none fun hv => by cases hv)
  | some text =>
      refine wp_bind (wp_orRaise hR fun v _ => wp_pure (h (some v) fun _ => ?_))
      rw [hlookup]
      rfl

theorem wp_save {Q : Json → CampaignState → Prop} {R : CampaignState → Prop} {k : String} {value : Json}
    (hR : ∀ s', Grown s s' → R s') (h : ∀ v s', Grown s s' → Q v s') : wp (save k value) Q R s := by
  refine wp_bind (wp_orRaise (hR s (.refl s)) fun encoded _ => ?_)
  refine wp_bind (wp_write (hR s (.refl s)) fun s' hs' => ?_)
  have hgrown := grown_insertRecord hs'
  refine wp_bind (wp_get (hR s' hgrown) fun stored _ => ?_)
  cases stored with
  | none => exact wp_raise (hR s' hgrown)
  | some v =>
      show wp (if v.eq value = true then _ else _) _ _ _
      split_ifs
      · exact wp_pure (h value s' hgrown)
      · exact wp_raise (hR s' hgrown)

/-! ### Attempts -/

theorem resolves_not_attempt {e : Event} (he : e.resolves = true) :
    e.attemptNumber = none ∧ e.isInvoked = false ∧ ∀ n maximum, e ≠ .attempt n maximum := by
  cases e with
  | attempt n maximum => cases he
  | invoked n repeatable => cases he
  | transient n => exact ⟨rfl, rfl, fun _ _ h => by cases h⟩
  | authorized n => exact ⟨rfl, rfl, fun _ _ h => by cases h⟩

/-- A new attempt follows one that is not complete, has the input of the others, and is paid for. -/
theorem stepInv_insertAttempt {identity : String} {maximum : Int} (hinv : StepInv key s)
    (hcomplete : ∀ a, (attemptsOf key s).getLast? = some a → a.status ≠ .complete)
    (hidentity : ∀ a ∈ attemptsOf key s, a.inputSha256 = identity)
    (hpaid : ((attemptsOf key s).length + 1 : Int) ≤ maximum ∨
      ∃ m, (attemptsOf key s).length = m ∧ 1 ≤ m ∧ (s.records.lookup (extensionKey key m)).isSome)
    (h : insertAttempt key ((attemptsOf key s).length + 1) identity maximum s = .ok s') :
    StepInv key s' ∧ s'.log = s.log ++ [.attempt ((attemptsOf key s).length + 1) maximum] ∧
      attemptsOf key s' = attemptsOf key s ++ [.new key ((attemptsOf key s).length + 1) identity] := by
  unfold insertAttempt at h
  split_ifs at h
  cases h
  have hnew : attemptsOf key { s with
      attempts := s.attempts ++ [.new key ((attemptsOf key s).length + 1) identity]
      log := s.log ++ [.attempt ((attemptsOf key s).length + 1) maximum] } =
      attemptsOf key s ++ [.new key ((attemptsOf key s).length + 1) identity] := by
    unfold attemptsOf
    rw [List.filter_append]
    simp [Attempt.new]
  -- only the last attempt can be complete, and it is not
  have hnone : ∀ a ∈ attemptsOf key s, a.status ≠ .complete := fun a ha hstatus =>
    hcomplete a (eq_last hinv ha (hinv.complete_last a ha hstatus)) hstatus
  refine ⟨⟨?_, ?_, ?_, ?_, ?_, ?_, ?_, ?_⟩, rfl, hnew⟩
  · rw [hnew, List.map_append, hinv.numbered, List.length_append, List.length_singleton,
      List.range'_1_concat, Nat.add_comm 1]
    rfl
  · rw [hnew]
    have hall : ∀ a ∈ attemptsOf key s ++ [Attempt.new key ((attemptsOf key s).length + 1) identity],
        a.inputSha256 = identity := fun a ha => by
      rcases List.mem_append.mp ha with ha | ha
      · exact hidentity a ha
      · rw [List.mem_singleton.mp ha]
        rfl
    intro a ha b hb
    rw [hall a ha, hall b hb]
  · rw [hnew]
    intro a ha hstatus
    rcases List.mem_append.mp ha with ha | ha
    · exact absurd hstatus (hnone a ha)
    · rw [List.mem_singleton.mp ha] at hstatus
      cases hstatus
  · rw [hnew]
    intro a ha hstatus
    rcases List.mem_append.mp ha with ha | ha
    · exact absurd hstatus (hnone a ha)
    · rw [List.mem_singleton.mp ha] at hstatus
      cases hstatus
  · rw [hnew]
    show (s.log ++ _).filterMap _ = _
    rw [List.filterMap_append, hinv.logged, List.length_append, List.length_singleton,
      List.range'_1_concat, Nat.add_comm 1]
    rfl
  · -- the new attempt is within the maximum, or its extension is on record
    intro n maximum' hmem
    rcases List.mem_append.mp hmem with hmem | hmem
    · exact hinv.paid n maximum' hmem
    · obtain ⟨rfl, rfl⟩ := Event.attempt.inj (List.mem_singleton.mp hmem)
      rcases hpaid with hle | ⟨m, hm, hpos, hsome⟩
      · refine .inl ?_
        push_cast
        exact hle
      · exact .inr ⟨m, by rw [hm], hpos, hsome⟩
  · rw [hnew, List.getLast?_concat]
    intro hfailed
    cases hfailed _ rfl
  · exact hinv.separated.snoc fun n hn => by cases hn

/-- The attempts after an update of the last one. -/
theorem attemptsOf_update (hinv : StepInv key s) {a : Attempt} {f : Attempt → Attempt} {events : List Event}
    (hlast : (attemptsOf key s).getLast? = some a) (hf : ∀ a, (f a).step = a.step)
    (h : updateAttempt key (attemptsOf key s).length f events s = .ok s') :
    attemptsOf key s' = (attemptsOf key s).dropLast ++ [f a] ∧ s'.log = s.log ++ events ∧
      s'.records = s.records := by
  cases h
  refine ⟨?_, rfl, rfl⟩
  have hmap : attemptsOf key { s with
      attempts := s.attempts.map fun b => if b.step = key ∧ b.number = (attemptsOf key s).length then f b else b
      log := s.log ++ events } =
      (attemptsOf key s).map fun b => if b.number = (attemptsOf key s).length then f b else b := by
    generalize (attemptsOf key s).length = n
    show (s.attempts.map _).filter _ = (s.attempts.filter _).map _
    induction s.attempts with
    | nil => rfl
    | cons b bs ih =>
        by_cases hb : b.step = key
        · have hkeep : ((if b.step = key ∧ b.number = n then f b else b).step == key) = true := by
            split_ifs
            · rw [hf b, hb, beq_self_eq_true]
            · rw [hb, beq_self_eq_true]
          have hmine : (b.step == key) = true := by rw [hb, beq_self_eq_true]
          rw [List.map_cons, List.filter_cons, if_pos hkeep, ih, List.filter_cons, hmine, if_pos rfl,
            List.map_cons]
          simp only [hb, true_and]
        · have hother : ¬ (b.step = key ∧ b.number = n) := fun h => hb h.1
          have hnot : ¬ (b.step == key) = true := fun h => hb (beq_iff_eq.mp h)
          rw [List.map_cons, if_neg hother, List.filter_cons, if_neg hnot, ih, List.filter_cons, if_neg hnot]
  -- the number of the last attempt is no other's
  have hsplit := List.dropLast_append_getLast? a hlast
  have hnumber := last_number hinv hlast
  have hinit : ∀ b ∈ (attemptsOf key s).dropLast, b.number ≠ (attemptsOf key s).length := by
    intro b hb hnum
    obtain ⟨i, hi, rfl⟩ := List.getElem_of_mem hb
    rw [List.length_dropLast] at hi
    rw [List.getElem_dropLast, number_getElem hinv] at hnum
    omega
  rw [hmap]
  generalize (attemptsOf key s).length = n at hnumber hinit
  conv_lhs => rw [← hsplit]
  rw [List.map_append, List.map_singleton, if_pos hnumber, List.map_congr_left fun b hb => if_neg (hinit b hb),
    List.map_id']

/-- An update of the last attempt leaves its number and its input alone; it completes it with a result,
or goes with an event that resolves, or does not touch its status. -/
theorem stepInv_update (hinv : StepInv key s) {a : Attempt} {f : Attempt → Attempt} {events : List Event}
    (hlast : (attemptsOf key s).getLast? = some a)
    (h : updateAttempt key (attemptsOf key s).length f events s = .ok s') (hf : ∀ a, (f a).step = a.step)
    (hnumber : (f a).number = a.number) (hinput : (f a).inputSha256 = a.inputSha256)
    (hcomplete : (f a).status = .complete →
      ∃ (v : Value) (text : List Char), Json.canonicalJson v.1 = some text ∧ (f a).result = some text)
    (hevents : events = [] ∧ (f a).status ≠ .failed ∨ ∃ e, events = [e] ∧ e.resolves = true) :
    StepInv key s' ∧ (attemptsOf key s').getLast? = some (f a) ∧
      (attemptsOf key s').length = (attemptsOf key s).length := by
  obtain ⟨hnew, hlog, hrecords⟩ := attemptsOf_update hinv hlast hf h
  have hsplit := List.dropLast_append_getLast? a hlast
  have hlength : (attemptsOf key s').length = (attemptsOf key s).length := by
    rw [hnew, ← congrArg List.length hsplit, List.length_append, List.length_append]
    rfl
  -- what an update logs opens no attempt
  have hnone : ∀ e ∈ events, e.attemptNumber = none ∧ e.isInvoked = false ∧
      ∀ n maximum, e ≠ .attempt n maximum := by
    rcases hevents with ⟨rfl, -⟩ | ⟨e, rfl, he⟩
    · exact List.forall_mem_nil _
    · exact fun e' he' => List.mem_singleton.mp he' ▸ resolves_not_attempt he
  have hmem : ∀ b ∈ attemptsOf key s', b = f a ∨ b ∈ attemptsOf key s := by
    intro b hb
    rw [hnew] at hb
    rcases List.mem_append.mp hb with hb | hb
    · exact .inr (List.mem_of_mem_dropLast hb)
    · exact .inl (List.mem_singleton.mp hb)
  refine ⟨⟨?_, ?_, ?_, ?_, ?_, ?_, ?_, ?_⟩, by rw [hnew, List.getLast?_concat], hlength⟩
  · rw [hlength, ← hinv.numbered, hnew, ← congrArg (List.map (·.number)) hsplit, List.map_append,
      List.map_append, List.map_singleton, List.map_singleton, hnumber]
  · have hall : ∀ b ∈ attemptsOf key s', b.inputSha256 = a.inputSha256 := by
      intro b hb
      rcases hmem b hb with rfl | hb
      · exact hinput
      · exact hinv.same_input b hb a (last_mem hlast)
    intro b hb c hc
    rw [hall b hb, hall c hc]
  · intro b hb hstatus
    rw [hlength]
    rcases hmem b hb with rfl | hb
    · rw [hnumber]
      exact last_number hinv hlast
    · exact hinv.complete_last b hb hstatus
  · intro b hb hstatus
    rcases hmem b hb with rfl | hb
    · exact hcomplete hstatus
    · exact hinv.complete_result b hb hstatus
  · rw [hlog, hlength, List.filterMap_append, hinv.logged,
      List.filterMap_eq_nil_iff.mpr fun e he => (hnone e he).1, List.append_nil]
  · intro n maximum hmem'
    rw [hlog] at hmem'
    rw [hrecords]
    rcases List.mem_append.mp hmem' with hmem' | hmem'
    · exact hinv.paid n maximum hmem'
    · exact absurd rfl ((hnone _ hmem').2.2 n maximum)
  · -- a failure is written together with the event that resolves it
    rw [hnew, List.getLast?_concat, hlog]
    intro hfailed
    have hstatus := hfailed _ rfl
    rcases hevents with ⟨rfl, hne⟩ | ⟨e, rfl, he⟩
    · exact absurd hstatus hne
    · exact allResolved_snoc he
  · rw [hlog]
    rcases hevents with ⟨rfl, -⟩ | ⟨e, rfl, he⟩
    · rw [List.append_nil]
      exact hinv.separated
    · exact hinv.separated.snoc fun n hn => by
        rw [hn] at he
        cases he

/-- The action is called for a new attempt. -/
theorem stepInv_invoked {n : Nat} {repeatable : Bool} (hinv : StepInv key s) {a : Attempt}
    (hlast : (attemptsOf key s).getLast? = some a) (hstarted : a.status = .started)
    (hresolved : repeatable = false → AllResolved s.log) :
    StepInv key { s with log := s.log ++ [.invoked n repeatable] } where
  numbered := hinv.numbered
  same_input := hinv.same_input
  complete_last := hinv.complete_last
  complete_result := hinv.complete_result
  logged := by
    show (s.log ++ _).filterMap _ = _
    rw [List.filterMap_append, hinv.logged]
    exact List.append_nil _
  paid := by
    intro m maximum hmem
    rcases List.mem_append.mp hmem with hmem | hmem
    · exact hinv.paid m maximum hmem
    · cases List.mem_singleton.mp hmem
  resolved := by
    intro hfailed
    have hstatus := hfailed a hlast
    rw [hstarted] at hstatus
    cases hstatus
  separated := hinv.separated.snoc fun m hm => by
    cases hm
    exact hresolved rfl

/-! ## The calls -/

/-- The maximum is the one before, or is extended to one attempt after the previous one. -/
theorem wp_extendMaximum {Q : Int → CampaignState → Prop} {R : CampaignState → Prop} {identity : String}
    {previous : Attempt} {maximum : Int} (hR : R s) (hsame : Q maximum s)
    (hextended : (s.records.lookup (extensionKey key previous.number)).isSome →
      Q (max maximum (previous.number + 1)) s) :
    wp (extendMaximum key identity previous maximum) Q R s := by
  refine wp_bind (wp_get hR fun extension hsome => ?_)
  cases extension with
  | none => exact wp_pure hsame
  | some extension =>
      dsimp only
      split_ifs
      · refine wp_bind (wp_orRaise hR fun input _ => ?_)
        refine wp_bind (wp_orRaise hR fun after _ => ?_)
        refine wp_bind (wp_orRaise hR fun granted _ => ?_)
        split_ifs
        · exact wp_pure (hextended (hsome rfl))
        · exact wp_raise hR
      · exact wp_pure hsame

theorem wp_cooldown {Q : Unit → CampaignState → Prop} {R : CampaignState → Prop} {previous : Attempt}
    (hR : R s) (h : Q () s) : wp (cooldown previous) Q R s := by
  unfold cooldown
  split_ifs
  · split
    · exact wp_pure h
    · split
      · exact wp_pure h
      · exact wp_pure h
      · exact wp_pure h
      · exact wp_raise hR
  · exact wp_pure h

/-- What a turn has made when its action is called. -/
structure Attempted (key : String) (declared : Int) (repeatable : Bool) (r : Nat × Int) (s : CampaignState) :
    Prop where
  inv : StepInv key s
  last : ∃ a, (attemptsOf key s).getLast? = some a ∧ a.status = .started
  number : r.1 = (attemptsOf key s).length
  maximum : r.2 ≤ max declared r.1
  resolved : repeatable = false → AllResolved s.log

/-- The insertion at the end of `beforeAction`. -/
theorem attempted_of_insert {identity : String} {declared maximum : Int} {repeatable : Bool}
    (hinv : StepInv key s) (hcomplete : ∀ a, (attemptsOf key s).getLast? = some a → a.status ≠ .complete)
    (hidentity : ∀ a ∈ attemptsOf key s, a.inputSha256 = identity)
    (hpaid : ((attemptsOf key s).length + 1 : Int) ≤ declared ∨
      ∃ m, (attemptsOf key s).length = m ∧ 1 ≤ m ∧ (s.records.lookup (extensionKey key m)).isSome)
    (hmaximum : maximum ≤ max declared ((attemptsOf key s).length + 1 : Nat))
    (hresolved : repeatable = false → ∀ a, (attemptsOf key s).getLast? = some a → a.status = .failed)
    (h : insertAttempt key ((attemptsOf key s).length + 1) identity declared s = .ok s') :
    Attempted key declared repeatable ((attemptsOf key s).length + 1, maximum) s' := by
  obtain ⟨hinv', hlog, hnew⟩ := stepInv_insertAttempt hinv hcomplete hidentity hpaid h
  refine ⟨hinv', ⟨_, by rw [hnew, List.getLast?_concat], rfl⟩, ?_, hmaximum, fun hrepeat => ?_⟩
  · rw [hnew, List.length_append, List.length_singleton]
  · rw [hlog]
    exact (hinv.resolved (hresolved hrepeat)).snoc rfl

theorem wp_beforeAction {identity : String} {declared maximum : Int} {repeatable : Bool}
    (hinv : StepInv key s) (hmaximum : maximum ≤ max declared (attemptsOf key s).length) :
    wp (beforeAction key identity declared maximum repeatable)
      (fun r s' => match r with
        | .inl _ => StepInv key s'
        | .inr r => Attempted key declared repeatable r s') (StepInv key) s := by
  refine wp_bind (wp_read ?_)
  dsimp only
  rw [rows_eq hinv]
  by_cases hinputs : ((attemptsOf key s).any fun row => row.inputSha256 != identity) = true
  · rw [if_pos hinputs]
    exact wp_raise hinv
  · rw [if_neg hinputs]
    have hidentity : ∀ a ∈ attemptsOf key s, a.inputSha256 = identity := by
      intro a ha
      by_contra hne
      exact hinputs (List.any_eq_true.mpr ⟨a, ha, by simp [hne]⟩)
    split
    · -- the first attempt
      rename_i hnone
      have hempty : attemptsOf key s = [] := List.getLast?_eq_none_iff.mp hnone
      split_ifs with hlimit
      · exact wp_raise hinv
      · refine wp_bind (wp_write hinv fun s' hs' => wp_pure ?_)
        refine attempted_of_insert hinv ?_ hidentity (.inl ?_) ?_ ?_ hs'
        · intro a ha
          rw [hnone] at ha
          cases ha
        · omega
        · omega
        · intro _ a ha
          rw [hnone] at ha
          cases ha
    · rename_i previous hlast
      split_ifs with hcomplete hstarted
      · split
        · exact wp_bind (wp_orRaise hinv fun v _ => wp_pure hinv)
        · exact wp_raise hinv
      · exact wp_raise hinv
      · have hnumber := last_number hinv hlast
        have hpos : 1 ≤ (attemptsOf key s).length := List.length_pos_of_mem (last_mem hlast)
        have hfailed : repeatable = false → previous.status = .failed := by
          intro hrepeat
          cases hstatus : previous.status with
          | started => exact absurd ⟨hstatus, hrepeat⟩ hstarted
          | complete => exact absurd hstatus hcomplete
          | failed => rfl
        -- whatever the maximum is for the turns to come, the new attempt is paid for
        have hrest (maximum' : Int) (hle : maximum' ≤ max declared ((attemptsOf key s).length + 1 : Nat))
            (hpaid : ((attemptsOf key s).length : Int) < maximum' →
              ((attemptsOf key s).length + 1 : Int) ≤ declared ∨
                ∃ m, (attemptsOf key s).length = m ∧ 1 ≤ m ∧
                  (s.records.lookup (extensionKey key m)).isSome) :
            wp (if ((attemptsOf key s).length : Int) ≥ maximum' then
                raise (.unresolvedStep s!"attempt limit reached: {key}")
              else do
                cooldown previous
                write (insertAttempt key ((attemptsOf key s).length + 1) identity declared)
                pure (.inr ((attemptsOf key s).length + 1, maximum')) : Proc (Json ⊕ Nat × Int))
              (fun r s' => match r with
                | .inl _ => StepInv key s'
                | .inr r => Attempted key declared repeatable r s') (StepInv key) s := by
          split_ifs with hlimit
          · exact wp_raise hinv
          · refine wp_bind (wp_cooldown hinv (wp_bind (wp_write hinv fun s' hs' => wp_pure ?_)))
            refine attempted_of_insert hinv ?_ hidentity (hpaid (by omega)) hle ?_ hs'
            · intro a ha
              rw [hlast] at ha
              cases ha
              exact hcomplete
            · intro hrepeat a ha
              rw [hlast] at ha
              cases ha
              exact hfailed hrepeat
        refine wp_bind (wp_extendMaximum hinv (hrest maximum ?_ ?_) fun hsome => hrest _ ?_ ?_)
        · omega
        · exact fun hlt => .inl (by omega)
        · rw [hnumber]
          omega
        · intro hlt
          rw [hnumber] at hlt hsome
          exact .inr ⟨_, rfl, hpos, hsome⟩

theorem wp_afterAction {host : Host} {maximum : Int} {delay : binary64.Value} {action : ActionResult}
    {a : Attempt} (hinv : StepInv key s) (hlast : (attemptsOf key s).getLast? = some a)
    (hstarted : a.status = .started) :
    wp (afterAction host key (attemptsOf key s).length maximum delay action)
      (fun _ s' => StepInv key s' ∧ (attemptsOf key s').length = (attemptsOf key s).length)
      (StepInv key) s := by
  have hne : a.status ≠ .complete ∧ a.status ≠ .failed := by
    rw [hstarted]
    decide
  -- an update of the error alone
  have herror {α : Type} (text : List Char) (e : Exn) :
      wp (do
          write (updateAttempt key (attemptsOf key s).length (fun a => { a with error := some text }) [])
          raise e : Proc α)
        (fun _ s' => StepInv key s' ∧ (attemptsOf key s').length = (attemptsOf key s).length)
        (StepInv key) s :=
    wp_bind (wp_write hinv fun s' hs' => wp_raise (stepInv_update hinv hlast hs' (fun _ => rfl) rfl rfl
      (fun h => absurd h hne.1) (.inl ⟨rfl, hne.2⟩)).1)
  cases action with
  | returned v =>
      unfold afterAction
      dsimp only
      split
      · rename_i text htext
        have hencoded : Json.canonicalJson v.1 = some text := by
          split at htext <;> simp_all
        refine wp_bind (wp_write hinv fun s' hs' => wp_pure ?_)
        obtain ⟨hinv', -, hlength⟩ := stepInv_update hinv hlast hs' (fun _ => rfl) rfl rfl
          (fun _ => ⟨v, text, hencoded, rfl⟩) (.inl ⟨rfl, by simp⟩)
        exact ⟨hinv', hlength⟩
      · exact herror _ _
  | transient message retryAfter now =>
      refine wp_bind (wp_orRaise hinv fun retry _ => wp_bind (wp_write hinv fun s' hs' => ?_))
      obtain ⟨hinv', -, hlength⟩ := stepInv_update hinv hlast hs' (fun _ => rfl) rfl rfl
        (fun h => by cases h) (.inr ⟨_, rfl, rfl⟩)
      split_ifs
      · exact wp_raise hinv'
      · exact wp_pure ⟨hinv', hlength⟩
  | raised traceback => exact herror _ _
  | crashed => exact wp_crash hinv

theorem wp_stepLoop {host : Host} {identity : String} {call : StepCall} (actions : List ActionResult)
    {maximum : Int} (hinv : StepInv key s)
    (hmaximum : maximum ≤ max call.maximumAttempts (attemptsOf key s).length) :
    wp (stepLoop host key identity call actions maximum) (fun _ => StepInv key) (StepInv key) s := by
  induction actions generalizing s maximum with
  | nil =>
      refine wp_bind (wp_mono (wp_beforeAction hinv hmaximum) (fun r s' hr => ?_) fun _ h => h)
      cases r with
      | inl v => exact wp_pure hr
      | inr r =>
          obtain ⟨a, hlast, hstarted⟩ := hr.last
          exact wp_bind (wp_note (wp_crash (stepInv_invoked hr.inv hlast hstarted hr.resolved)))
  | cons action actions ih =>
      refine wp_bind (wp_mono (wp_beforeAction hinv hmaximum) (fun r s' hr => ?_) fun _ h => h)
      cases r with
      | inl v => exact wp_pure hr
      | inr r =>
          obtain ⟨n, maximum'⟩ := r
          obtain ⟨a, hlast, hstarted⟩ := hr.last
          have hnumber : n = (attemptsOf key s').length := hr.number
          have hle : maximum' ≤ max call.maximumAttempts n := hr.maximum
          subst hnumber
          have hinvoked := stepInv_invoked (n := (attemptsOf key s').length) hr.inv hlast hstarted hr.resolved
          refine wp_bind (wp_note (wp_bind (wp_mono (wp_afterAction hinvoked hlast hstarted)
            (fun o s'' ho => ?_) fun _ h => h)))
          cases o with
          | some v => exact wp_pure ho.1
          | none =>
              refine ih ho.1 ?_
              rw [ho.2]
              exact hle

theorem wp_lastAttempt {Q : Attempt → CampaignState → Prop} {R : CampaignState → Prop}
    {inputSha256 message : String} (hinv : StepInv key s) (hR : R s)
    (h : ∀ a, (attemptsOf key s).getLast? = some a → Q a s) :
    wp (lastAttempt key inputSha256 message) Q R s := by
  refine wp_bind (wp_read ?_)
  rw [rows_eq hinv]
  split
  · exact wp_raise hR
  · rename_i a hlast
    split_ifs
    · exact wp_pure (h a hlast)
    · exact wp_raise hR

/-- An operation that completes or fails the last attempt where it is started. -/
theorem stepInv_updateStarted {a : Attempt} {f : Attempt → Attempt} {events : List Event}
    (hinv : StepInv key s) (hlast : (attemptsOf key s).getLast? = some a) (hstarted : a.status = .started)
    (hf : ∀ a, (f a).step = a.step ∧ (f a).number = a.number ∧ (f a).inputSha256 = a.inputSha256)
    (hcomplete : (f a).status = .complete →
      ∃ (v : Value) (text : List Char), Json.canonicalJson v.1 = some text ∧ (f a).result = some text)
    (hevents : events = [] ∧ (f a).status ≠ .failed ∨ ∃ e, events = [e] ∧ e.resolves = true)
    (h : updateAttempt key a.number (fun a => if a.status = .started then f a else a) events s = .ok s') :
    StepInv key s' := by
  have hself : (if a.status = .started then f a else a) = f a := if_pos hstarted
  rw [last_number hinv hlast] at h
  refine (stepInv_update hinv hlast h (fun b => ?_) ?_ ?_ ?_ ?_).1
  · split_ifs
    · exact (hf b).1
    · rfl
  · rw [hself]
    exact (hf a).2.1
  · rw [hself]
    exact (hf a).2.2
  · rw [hself]
    exact hcomplete
  · rw [hself]
    exact hevents

theorem wp_reconcileSavedResult {inputSha256 : String} {result evidence : Value} (hinv : StepInv key s) :
    wp (reconcileSavedResult key inputSha256 result evidence) (fun _ => StepInv key) (StepInv key) s := by
  refine wp_bind (wp_lastAttempt hinv hinv fun a hlast => ?_)
  refine wp_bind (wp_orRaise hinv fun encoded hencoded => ?_)
  by_cases hcomplete : a.status = .complete
  · rw [if_pos hcomplete]
    split_ifs
    · exact wp_pure hinv
    · exact wp_raise hinv
  · rw [if_neg hcomplete]
    dsimp only
    split_ifs with hcond
    · refine wp_bind (wp_save (fun s' hs' => hs'.stepInv hinv) fun _ s' hs' => ?_)
      have hinv' := hs'.stepInv hinv
      have hlast' : (attemptsOf key s').getLast? = some a := by
        rw [hs'.attemptsOf]
        exact hlast
      exact wp_bind (wp_write hinv' fun s'' hs'' => wp_pure (stepInv_updateStarted hinv' hlast' hcond.1
        (f := fun a => { a with status := .complete, result := some encoded }) (fun _ => ⟨rfl, rfl, rfl⟩)
        (fun _ => ⟨result, encoded, hencoded, rfl⟩) (.inl ⟨rfl, by simp⟩) hs''))
    · exact wp_raise hinv

theorem wp_authorizeNativeContinuation {inputSha256 : String} {evidence : Value} (hinv : StepInv key s) :
    wp (authorizeNativeContinuation key inputSha256 evidence) (fun _ => StepInv key) (StepInv key) s := by
  refine wp_bind (wp_lastAttempt hinv hinv fun a hlast => ?_)
  dsimp only
  split_ifs with hcond
  · refine wp_bind (wp_save (fun s' hs' => hs'.stepInv hinv) fun _ s' hs' => ?_)
    have hinv' := hs'.stepInv hinv
    have hlast' : (attemptsOf key s').getLast? = some a := by
      rw [hs'.attemptsOf]
      exact hlast
    refine wp_bind (wp_orRaise hinv' fun retry _ => wp_write hinv' fun s'' hs'' => ?_)
    exact stepInv_updateStarted hinv' hlast' hcond.1
      (f := fun a => { a with status := .failed, error := some retry }) (fun _ => ⟨rfl, rfl, rfl⟩)
      (fun h => by cases h) (.inr ⟨_, rfl, rfl⟩) hs''
  · exact wp_raise hinv

theorem wp_authorizeRetryExtension {inputSha256 : String} {evidence : Value} (hinv : StepInv key s) :
    wp (authorizeRetryExtension key inputSha256 evidence) (fun _ => StepInv key) (StepInv key) s := by
  refine wp_bind (wp_lastAttempt hinv hinv fun a hlast => ?_)
  dsimp only
  split_ifs
  · exact wp_save (fun s' hs' => hs'.stepInv hinv) fun _ s' hs' => hs'.stepInv hinv
  · exact wp_raise hinv

/-- A call keeps the invariant, wherever it is cut off. -/
theorem stepInv_final {host : Host} (hinv : StepInv key s) (writes : Nat) (call : Call) :
    StepInv key (call.final host key writes s) := by
  cases call with
  | step call actions =>
      refine wp_final (wp_bind (wp_orRaise hinv fun identity _ => ?_)) writes
      exact wp_stepLoop actions hinv (Int.le_max_left _ _)
  | reconcileSavedResult sha result evidence => exact wp_final (wp_reconcileSavedResult hinv) writes
  | authorizeNativeContinuation sha evidence => exact wp_final (wp_authorizeNativeContinuation hinv) writes
  | authorizeRetryExtension sha evidence => exact wp_final (wp_authorizeRetryExtension hinv) writes

theorem stepInv_runCalls {host : Host} (calls : List (Nat × Call)) (hinv : StepInv key s) :
    StepInv key (runCalls host key calls s) := by
  induction calls generalizing s with
  | nil => exact hinv
  | cons call calls ih => exact ih (stepInv_final hinv call.1 call.2)

/-- A step that was never attempted. -/
theorem stepInv_start (hattempts : attemptsOf key s = []) (hlog : s.log = []) : StepInv key s where
  numbered := by rw [hattempts]; rfl
  same_input := by
    rw [hattempts]
    exact List.forall_mem_nil _
  complete_last := by
    rw [hattempts]
    exact List.forall_mem_nil _
  complete_result := by
    rw [hattempts]
    exact List.forall_mem_nil _
  logged := by rw [hattempts, hlog]; rfl
  paid := by
    rw [hlog]
    intro n maximum hmem
    cases hmem
  resolved := by
    rw [hlog]
    intro _ pre e post heq
    exact absurd heq (by simp)
  separated := by
    rw [hlog]
    intro pre e mid n post heq
    exact absurd heq (by simp)

/-! ## A complete attempt is final -/

/-- On a complete step a turn answers or raises, and changes nothing. -/
theorem wp_beforeAction_complete {identity : String} {declared maximum : Int} {repeatable : Bool}
    {a : Attempt} (hinv : StepInv key s) (hlast : (attemptsOf key s).getLast? = some a)
    (hcomplete : a.status = .complete) :
    wp (beforeAction key identity declared maximum repeatable) (fun r s' => r.isLeft = true ∧ s' = s)
      (fun s' => s' = s) s := by
  refine wp_bind (wp_read ?_)
  dsimp only
  rw [rows_eq hinv, hlast]
  by_cases hinputs : ((attemptsOf key s).any fun row => row.inputSha256 != identity) = true
  · rw [if_pos hinputs]
    exact wp_raise rfl
  · rw [if_neg hinputs]
    show wp (if a.status = .complete then _ else _) _ _ _
    rw [if_pos hcomplete]
    split
    · exact wp_bind (wp_orRaise rfl fun v _ => wp_pure ⟨rfl, rfl⟩)
    · exact wp_raise rfl

theorem wp_stepLoop_complete {host : Host} {identity : String} {call : StepCall}
    (actions : List ActionResult) {maximum : Int} {a : Attempt} (hinv : StepInv key s)
    (hlast : (attemptsOf key s).getLast? = some a) (hcomplete : a.status = .complete) :
    wp (stepLoop host key identity call actions maximum) (fun _ s' => s' = s) (fun s' => s' = s) s := by
  cases actions with
  | nil =>
      refine wp_bind (wp_mono (wp_beforeAction_complete hinv hlast hcomplete) (fun r s' hr => ?_)
        fun _ h => h)
      cases r with
      | inl v => exact wp_pure hr.2
      | inr r => cases hr.1
  | cons action actions =>
      refine wp_bind (wp_mono (wp_beforeAction_complete hinv hlast hcomplete) (fun r s' hr => ?_)
        fun _ h => h)
      cases r with
      | inl v => exact wp_pure hr.2
      | inr r => cases hr.1

/-- No call changes a step that is complete. -/
theorem final_of_complete {host : Host} {a : Attempt} (hinv : StepInv key s)
    (hlast : (attemptsOf key s).getLast? = some a) (hcomplete : a.status = .complete) (writes : Nat)
    (call : Call) : call.final host key writes s = s := by
  have hne : a.status ≠ .started ∧ a.status ≠ .failed := by
    rw [hcomplete]
    decide
  have hself {b : Attempt} (hb : (attemptsOf key s).getLast? = some b) : b = a :=
    Option.some_inj.mp (hb.symm.trans hlast)
  cases call with
  | step call actions =>
      refine wp_final (I := fun s' => s' = s) (wp_bind (wp_orRaise rfl fun identity _ => ?_)) writes
      exact wp_stepLoop_complete actions hinv hlast hcomplete
  | reconcileSavedResult sha result evidence =>
      refine wp_final (I := fun s' => s' = s) (wp_bind (wp_lastAttempt hinv rfl fun b hb => ?_)) writes
      cases hself hb
      refine wp_bind (wp_orRaise rfl fun encoded _ => ?_)
      rw [if_pos hcomplete]
      split_ifs
      · exact wp_pure rfl
      · exact wp_raise rfl
  | authorizeNativeContinuation sha evidence =>
      refine wp_final (I := fun s' => s' = s) (wp_bind (wp_lastAttempt hinv rfl fun b hb => ?_)) writes
      cases hself hb
      dsimp only
      rw [if_neg fun h => hne.1 h.1]
      exact wp_raise rfl
  | authorizeRetryExtension sha evidence =>
      refine wp_final (I := fun s' => s' = s) (wp_bind (wp_lastAttempt hinv rfl fun b hb => ?_)) writes
      cases hself hb
      dsimp only
      rw [if_neg fun h => hne.2 h.1]
      exact wp_raise rfl

theorem runCalls_of_complete {host : Host} {a : Attempt} (hinv : StepInv key s)
    (hlast : (attemptsOf key s).getLast? = some a) (hcomplete : a.status = .complete)
    (calls : List (Nat × Call)) : runCalls host key calls s = s := by
  induction calls with
  | nil => rfl
  | cons call calls ih =>
      unfold runCalls
      rw [final_of_complete hinv hlast hcomplete]
      exact ih

/-- A step of the same input answers with the result that was recorded. -/
theorem answer_of_complete {host : Host} {a : Attempt} (hinv : StepInv key s)
    (hlast : (attemptsOf key s).getLast? = some a) (hcomplete : a.status = .complete) {v : Value}
    {text : List Char} (hencoded : Json.canonicalJson v.1 = some text) (hresult : a.result = some text)
    (call : StepCall) (hinput : digestJson host call.inputs.1 = some a.inputSha256)
    (actions : List ActionResult) (writes : Nat) :
    (step host key call actions).answer writes s = .ok (Json.sort v.1) := by
  have hloads : Json.loads Json.dictHook text = some (Json.sort v.1) :=
    Json.loads_canonicalJson Json.dictHook_keeps hencoded v.2
  have hinputs : ¬ ((attemptsOf key s).any fun row => row.inputSha256 != a.inputSha256) = true := by
    intro h
    obtain ⟨b, hb, hne⟩ := List.any_eq_true.mp h
    exact bne_iff_ne.mp hne (hinv.same_input b hb a (last_mem hlast))
  -- the checks before the action end with the stored result, so the action is never reached
  have hbefore (declared maximum : Int) (repeatable : Bool) :
      wp (beforeAction key a.inputSha256 declared maximum repeatable)
        (fun r _ => r = .inl (Json.sort v.1)) (fun _ => False) s := by
    refine wp_bind (wp_read ?_)
    dsimp only
    rw [rows_eq hinv, hlast, if_neg hinputs]
    show wp (if a.status = .complete then _ else _) _ _ _
    rw [if_pos hcomplete, hresult]
    dsimp only
    rw [hloads]
    exact wp_bind (wp_pure (wp_pure rfl))
  have hstep : wp (step host key call actions) (fun w _ => w = Json.sort v.1) (fun _ => False) s := by
    refine wp_bind ?_
    rw [hinput]
    refine wp_pure ?_
    cases actions with
    | nil =>
        refine wp_bind (wp_mono (hbefore _ _ _) (fun r s' hr => ?_) fun _ h => h)
        cases hr
        exact wp_pure rfl
    | cons action actions =>
        refine wp_bind (wp_mono (hbefore _ _ _) (fun r s' hr => ?_) fun _ h => h)
        cases hr
        exact wp_pure rfl
  have hanswer := hstep writes
  cases hcase : (step host key call actions).answer writes s with
  | ok w =>
      rw [hcase] at hanswer
      rw [hanswer]
  | error e =>
      rw [hcase] at hanswer
      exact hanswer.elim

/-- A step that may not be repeated after an interruption leaves an attempt that is started alone. -/
theorem final_of_started {host : Host} {a : Attempt} (hinv : StepInv key s)
    (hlast : (attemptsOf key s).getLast? = some a) (hstarted : a.status = .started) (call : StepCall)
    (hrepeat : call.repeatAfterInterruption = false) (actions : List ActionResult) (writes : Nat) :
    (step host key call actions).final writes s = s := by
  have hne : a.status ≠ .complete := by
    rw [hstarted]
    decide
  have hbefore (identity : String) (maximum : Int) :
      wp (beforeAction key identity call.maximumAttempts maximum call.repeatAfterInterruption)
        (fun _ _ => False) (fun s' => s' = s) s := by
    refine wp_bind (wp_read ?_)
    dsimp only
    rw [rows_eq hinv, hlast, hrepeat]
    by_cases hinputs : ((attemptsOf key s).any fun row => row.inputSha256 != identity) = true
    · rw [if_pos hinputs]
      exact wp_raise rfl
    · rw [if_neg hinputs]
      show wp (if a.status = .complete then _ else _) _ _ _
      rw [if_neg hne, if_pos ⟨hstarted, rfl⟩]
      exact wp_raise rfl
  refine wp_final (I := fun s' => s' = s) (wp_bind (wp_orRaise rfl fun identity _ => ?_)) writes
  cases actions with
  | nil => exact wp_bind (wp_mono (hbefore _ _) (fun _ _ h => h.elim) fun _ h => h)
  | cons action actions => exact wp_bind (wp_mono (hbefore _ _) (fun _ _ h => h.elim) fun _ h => h)

/-! ## Runs -/

/-- Every sequence of calls on a step that was never attempted, each cut off before any write or in an
action, leaves a log that ran the action at most once where it had to:

the attempts are numbered without a gap and have one input, and only the last may be complete;
what comes after a complete attempt changes nothing, and a step of the same input answers with its result;
a step that may not be repeated after an interruption leaves an attempt that is started alone, and between
an earlier action and its own something was recorded that allows it;
the attempts were made one by one, each within the maximum that its caller gave or paid for by the retry
extension of the attempt before it. -/
theorem step_log_at_most_once (host : Host) (key : String) (start : CampaignState)
    (hattempts : attemptsOf key start = []) (hlog : start.log = []) (calls : List (Nat × Call)) :
    let s := runCalls host key calls start
    ((s.rows key).map (·.number) = List.range' 1 (s.rows key).length ∧
      (∀ a ∈ s.rows key, ∀ b ∈ s.rows key, a.inputSha256 = b.inputSha256) ∧
      ∀ a ∈ s.rows key, a.status = .complete → (s.rows key).getLast? = some a) ∧
    (∀ a ∈ s.rows key, a.status = .complete →
      (∀ later, runCalls host key later s = s) ∧
      ∃ (v : Value) (text : List Char), Json.canonicalJson v.1 = some text ∧ a.result = some text ∧
        ∀ call actions writes, digestJson host call.inputs.1 = some a.inputSha256 →
          (step host key call actions).answer writes s = .ok (Json.sort v.1)) ∧
    (∀ a, (s.rows key).getLast? = some a → a.status = .started →
      ∀ call actions writes, call.repeatAfterInterruption = false →
        (step host key call actions).final writes s = s) ∧
    Separated s.log ∧
    s.log.filterMap Event.attemptNumber = List.range' 1 (s.rows key).length ∧
    ∀ (n : Nat) (maximum : Int), .attempt n maximum ∈ s.log → n ≤ maximum ∨
      ∃ m, n = m + 1 ∧ 1 ≤ m ∧ (s.records.lookup (extensionKey key m)).isSome := by
  intro s
  have hinv : StepInv key s := stepInv_runCalls calls (stepInv_start hattempts hlog)
  rw [rows_eq hinv]
  have hlast : ∀ a ∈ attemptsOf key s, a.status = .complete → (attemptsOf key s).getLast? = some a :=
    fun a ha hcomplete => eq_last hinv ha (hinv.complete_last a ha hcomplete)
  refine ⟨⟨hinv.numbered, hinv.same_input, hlast⟩, fun a ha hcomplete => ⟨fun later => ?_, ?_⟩,
    fun a ha hstarted call actions writes hrepeat => ?_, hinv.separated, hinv.logged, hinv.paid⟩
  · exact runCalls_of_complete hinv (hlast a ha hcomplete) hcomplete later
  · obtain ⟨v, text, hencoded, hresult⟩ := hinv.complete_result a ha hcomplete
    exact ⟨v, text, hencoded, hresult, fun call actions writes hinput =>
      answer_of_complete hinv (hlast a ha hcomplete) hcomplete hencoded hresult call hinput actions writes⟩
  · exact final_of_started hinv ha hstarted call hrepeat actions writes

/-- The digest of no inputs, `{}`. -/
def smallDigest : String := "44136fa355b3678a1146ad16f7e8649e94fb4fc21fe77e8310c060f61caaff8a"

/-- A host with that digest, and the one of an empty text for all other texts. -/
def smallHost : Host where
  sha256 text :=
    if text = ['{', '}'] then smallDigest
    else "e3b0c44298fc1c149afbf4c8996fb92427ae41e4649b934ca495991b7852b855"
  formatExc _ := []

def smallCall : StepCall where
  inputs := ⟨.obj [], List.nodup_nil, trivial⟩
  maximumAttempts := 1
  retryDelaySeconds := .finite (binary64.zero false)

def smallEvidence : Json := .obj [("checkpoint_sha256", .str "c"), ("reason", .str "r")]

theorem distinctKeys_smallEvidence : smallEvidence.DistinctKeys :=
  ⟨List.nodup_cons.mpr ⟨fun h => absurd (List.mem_singleton.mp h) (by decide), List.nodup_singleton _⟩,
    trivial, trivial, trivial⟩

/-- A transient failure at the only attempt, an extension, a crash before its result is written, and an
operator who saw the result. -/
def smallCalls : List (Nat × Call) :=
  [(9, .step smallCall [.transient "busy" none (.finite (binary64.zero false))]),
    (9, .authorizeRetryExtension smallDigest ⟨smallEvidence, distinctKeys_smallEvidence⟩),
    (1, .step smallCall [.returned ⟨.obj [("success", .bool true)], List.nodup_singleton _, trivial, trivial⟩]),
    (9, .reconcileSavedResult smallDigest ⟨.obj [("success", .bool true)], List.nodup_singleton _, trivial, trivial⟩
      ⟨.obj [("seen", .bool true)], List.nodup_singleton _, trivial, trivial⟩)]

theorem step_log_at_most_once_small :
    let s := runCalls smallHost "turn" smallCalls {}
    ((s.rows "turn").map fun a => (a.number, a.status)) = [(1, .failed), (2, .complete)] ∧
      s.log = [.attempt 1 1, .invoked 1 false, .transient 1, .attempt 2 1, .invoked 2 false] ∧
      Separated s.log := by
  refine ⟨by decide +kernel, by decide +kernel, ?_⟩
  exact (step_log_at_most_once smallHost "turn" {} rfl rfl smallCalls).2.2.2.1

end Ramulator.ChiaLoop
