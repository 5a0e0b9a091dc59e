/-
# Ramulator.ChiaLoop.CompactionRuns — what compaction does to a conversation.

However the count, the summaries and the model turn out, and wherever a run is cut off: the history is as it
was, or one memory stands in the place of groups right after the head. The head and at least the last groups are
there, word for word, and every call is with its replies.

Nearly all of a turn only writes events (`Quiet`). What one replacement does is `Compacted`; replacements follow
each other as one that takes in more (`Compacted.trans`). The loop knows the size of the history at any time
(`Counted`), and has a reason to end with it (`Ends`).
-/
import Ramulator.ChiaLoop.Compaction

namespace Ramulator.ChiaLoop.Compaction

open Ramulator.Lib
open Ramulator.Lib.Durable

variable {M : Type}

/-! ## Parts of a run that leave the history alone -/

def Event.isCompleted : Event → Bool
  | .completed .. => true
  | _ => false

/-- Events have been added, and no replacement is among them. -/
def After (s s' : Session M) : Prop :=
  s'.history = s.history ∧ ∃ new, s'.events = s.events ++ new ∧ ∀ e ∈ new, e.isCompleted = false

/-- These events have been added, and nothing else has come. -/
structure Adds (s s' : Session M) (new : List Event) : Prop where
  history : s'.history = s.history
  events : s'.events = s.events ++ new
  quiet : ∀ e ∈ new, e.isCompleted = false

theorem Adds.after {s s' : Session M} {new : List Event} (h : Adds s s' new) : After s s' :=
  ⟨h.history, new, h.events, h.quiet⟩

theorem After.adds {s s' : Session M} (h : After s s') : ∃ new, Adds s s' new :=
  ⟨h.2.choose, h.1, h.2.choose_spec.1, h.2.choose_spec.2⟩

theorem Adds.refl (s : Session M) : Adds s s [] :=
  ⟨rfl, (List.append_nil _).symm, fun _ h => absurd h List.not_mem_nil⟩

theorem Adds.emit {s s' : Session M} {new : List Event} (h : Adds s s' new) {e : Event} (he : e.isCompleted = false) :
    Adds s { s' with events := s'.events ++ [e] } (new ++ [e]) := by
  refine ⟨h.history, by rw [h.events, List.append_assoc], fun x hx => ?_⟩
  rcases List.mem_append.mp hx with hx | hx
  · exact h.quiet x hx
  · rw [List.mem_singleton.mp hx]
    exact he

theorem After.refl (s : Session M) : After s s :=
  ⟨rfl, [], (List.append_nil _).symm, fun _ h => absurd h List.not_mem_nil⟩

theorem After.trans {s s' s'' : Session M} (h : After s s') (h' : After s' s'') : After s s'' := by
  obtain ⟨hhistory, new, hnew, hnone⟩ := h
  obtain ⟨hhistory', new', hnew', hnone'⟩ := h'
  refine ⟨hhistory'.trans hhistory, new ++ new', by rw [hnew', hnew, List.append_assoc], fun e he => ?_⟩
  exact (List.mem_append.mp he).elim (hnone e) (hnone' e)

/-- A part of a run that changes nothing else. -/
def Quiet {α : Type} (q : Proc M α) : Prop := ∀ s, wp q (fun _ s' => After s s') (fun s' => After s s') s

section

variable {α β : Type} {q : Proc M α} {f : α → Proc M β}

theorem Quiet.pure (a : α) : Quiet (pure a : Proc M α) := fun s => wp_pure (After.refl s)

theorem Quiet.bind (hq : Quiet q) (hf : ∀ a, Quiet (f a)) : Quiet (q >>= f) := by
  intro s
  refine wp_bind (wp_mono (hq s) (fun a t ht => ?_) fun t ht => ht)
  exact wp_mono (hf a t) (fun _ _ h => ht.trans h) fun _ h => ht.trans h

theorem Quiet.raise (e : Exn) : Quiet (raise e : Proc M α) := fun s => wp_raise (After.refl s)

theorem Quiet.read : Quiet (read : Proc M (Session M)) := fun s => wp_read (After.refl s)

theorem Quiet.emit {e : Event} (he : e.isCompleted = false) : Quiet (emit e : Proc M Unit) := by
  intro s
  refine wp_write (After.refl s) fun s' hs' => ?_
  cases hs'
  refine ⟨rfl, [e], rfl, fun x hx => ?_⟩
  rw [List.mem_singleton.mp hx]
  exact he

theorem Quiet.lift (x : Except Exn α) : Quiet (lift x : Proc M α) := by
  cases x with
  | error e => exact Quiet.raise e
  | ok a => exact Quiet.pure a

theorem Quiet.refuse (c : Prop) [Decidable c] (e : Exn) : Quiet (refuse c e : Proc M Unit) := by
  unfold Compaction.refuse
  split
  · exact Quiet.raise e
  · exact Quiet.pure ()

theorem Quiet.foldlM {γ : Type} {g : β → γ → Proc M β} (hg : ∀ b c, Quiet (g b c)) (cs : List γ) (b : β) :
    Quiet (cs.foldlM g b) := by
  induction cs generalizing b with
  | nil => exact Quiet.pure b
  | cons c cs ih => exact (hg b c).bind ih

/-- A quiet part comes next, and nothing else has come since `s`. -/
theorem Quiet.next {Q : β → Session M → Prop} {R : Session M → Prop} {s t : Session M} (hq : Quiet q)
    (ht : After s t) (hR : ∀ s', After s s' → R s') (hf : ∀ a s', After s s' → wp (f a) Q R s') :
    wp (q >>= f) Q R t :=
  wp_bind (wp_mono (hq t) (fun a _ h => hf a _ (ht.trans h)) fun _ h => hR _ (ht.trans h))

end

section

variable (p : Provider M) (policy : Policy) (w : World M)

theorem quiet_sizeOf (items : List M) : Quiet (sizeOf p w items) := by
  unfold sizeOf
  split
  · refine Quiet.read.bind fun s => ?_
    split
    · exact (Quiet.emit rfl).bind fun _ => Quiet.raise _
    · exact Quiet.raise _
    · exact (Quiet.refuse _ _).bind fun _ => Quiet.pure _
  · exact (Quiet.lift _).bind fun _ => Quiet.pure _

theorem quiet_count (items : List M) : Quiet (count p w items) :=
  (quiet_sizeOf p w items).bind fun value =>
    (Quiet.emit (e := .contextCount value) rfl).bind fun _ => Quiet.pure value

theorem quiet_request (items : List M) : Quiet (request p policy w items) := by
  refine (quiet_count p w items).bind fun tokens => (Quiet.refuse _ _).bind fun _ =>
    (Quiet.emit rfl).bind fun _ => Quiet.read.bind fun s => ?_
  split
  · exact (Quiet.emit rfl).bind fun _ => Quiet.raise _
  · refine (Quiet.emit rfl).bind fun _ => ?_
    split
    · exact Quiet.raise _
    · exact (Quiet.refuse _ _).bind fun _ => Quiet.pure _

theorem quiet_summarize (summary chunk : List Char) : Quiet (summarize p policy w summary chunk) :=
  Quiet.read.bind fun _ => (Quiet.lift _).bind fun _ => (quiet_request p policy w _).bind fun _ =>
    Quiet.read.bind fun _ => (Quiet.lift _).bind fun _ => (Quiet.refuse _ _).bind fun _ => Quiet.pure _

theorem quiet_memoryText (summary : List Char) : Quiet (memoryText w summary) := by
  unfold memoryText
  split
  · exact Quiet.pure _
  · exact Quiet.read.bind fun _ => (Quiet.lift _).bind fun _ => Quiet.pure _

end

/-! ## One replacement -/

variable {p : Provider M} {retain : Nat}

/-- So many groups after the head have given way to a memory. The groups before and behind them are whole, and
the last ones are there. -/
def Compacted (p : Provider M) (retain : Nat) (h h' : List M) (k : Nat) : Prop :=
  ∃ groups head text, p.toolGroups h = .ok groups ∧ p.head h = .ok head ∧ 0 < k ∧ head + k + retain ≤ groups.length ∧
    h' = (groups.take head).flatten ++ [memoryMessage p text] ++ (groups.drop (head + k)).flatten ∧
    p.toolGroups h' = .ok (groups.take head ++ [memoryMessage p text] :: groups.drop (head + k))

/-- At least two groups are taken in, if there are so many. -/
theorem selectFrom_spec {w : World M} {budget index size : Nat} {groups selected : List (List M)}
    (h : selectFrom w budget index size groups = .ok selected) :
    ∃ k ≤ groups.length, selected = groups.take k ∧ min (2 - index) groups.length ≤ k := by
  induction groups generalizing index size selected with
  | nil =>
      cases h
      exact ⟨0, Nat.le_refl 0, rfl, Nat.min_le_right _ _⟩
  | cons group groups ih =>
      obtain ⟨text, -, h⟩ := except_bind_eq_ok.mp h
      split_ifs at h with hstop
      · cases h
        exact ⟨0, Nat.zero_le _, rfl, by omega⟩
      · obtain ⟨more, hmore, rfl⟩ := except_map_eq_ok.mp h
        obtain ⟨k, hk, rfl, hleast⟩ := ih hmore
        refine ⟨k + 1, Nat.succ_le_succ hk, rfl, ?_⟩
        rw [List.length_cons]
        omega

/-- The cut over messages is the cut over groups. -/
theorem replaced_eq (groups : List (List M)) (head k : Nat) (text : List Char) :
    replaced p groups head ((groups.drop head).take k).flatten text groups.flatten =
      (groups.take head).flatten ++ [memoryMessage p text] ++ (groups.drop (head + k)).flatten := by
  have hsplit : groups.flatten =
      (groups.take head).flatten ++ (((groups.drop head).take k).flatten ++ (groups.drop (head + k)).flatten) := by
    rw [← List.flatten_append, ← List.drop_drop, List.take_append_drop, ← List.flatten_append,
      List.take_append_drop]
  unfold replaced
  dsimp only
  rw [← List.length_flatten, ← List.length_append, hsplit, List.take_left, ← List.append_assoc, List.drop_left]

theorem eligible_eq (head retain : Nat) (groups : List (List M)) :
    eligible head retain groups = (groups.drop head).take (groups.length - retain - head) := by
  unfold eligible
  rw [List.drop_take]

theorem compacted_of_select {w : World M} {budget : Nat} {h : List M} {groups selected : List (List M)} {head : Nat}
    (hgroups : p.toolGroups h = .ok groups) (hhead : p.head h = .ok head)
    (hselected : selectFrom w budget 0 0 (eligible head retain groups) = .ok selected)
    (hsome : eligible head retain groups ≠ []) (text : List Char) :
    ∃ k, Compacted p retain h (replaced p groups head selected.flatten text h) k ∧
      min 2 (eligible head retain groups).length ≤ k := by
  obtain ⟨k, hk, rfl, hleast⟩ := selectFrom_spec hselected
  have hpos := List.length_pos_iff.mpr hsome
  have hcandidates := eligible_eq head retain groups
  have hlength : (eligible head retain groups).length = groups.length - retain - head := by
    rw [hcandidates, List.length_take, List.length_drop]
    omega
  have htake : (eligible head retain groups).take k = (groups.drop head).take k := by
    rw [hcandidates, List.take_take, Nat.min_eq_left (hlength ▸ hk)]
  obtain ⟨hflatten, -⟩ := Blocks.cut_eq_ok_iff.mp hgroups
  refine ⟨k, ⟨groups, head, text, hgroups, hhead, by omega, by omega, ?_, ?_⟩, hleast⟩
  · rw [htake, ← hflatten, replaced_eq]
  · rw [htake, ← hflatten, replaced_eq]
    exact Blocks.cut_replace hgroups (p.memory_alone _) head (head + k)

/-- The first message is in the head. -/
theorem Compacted.head_eq {h h' : List M} {k : Nat} (hk : Compacted p retain h h' k) : p.head h' = p.head h := by
  obtain ⟨groups, head, text, hgroups, hhead, -, hfits, rfl, -⟩ := hk
  have hpos := p.head_pos hhead
  obtain ⟨rfl, hblocks⟩ := Blocks.cut_eq_ok_iff.mp hgroups
  cases groups with
  | nil =>
      rw [List.length_nil] at hfits
      omega
  | cons group groups =>
      obtain ⟨x, rest, rfl, -⟩ := hblocks group List.mem_cons_self
      obtain ⟨n, rfl⟩ := Nat.exists_eq_succ_of_ne_zero hpos.ne'
      rw [List.take_succ_cons, List.flatten_cons, List.flatten_cons]
      exact p.head_cons x _ _

/-- A later replacement takes in the earlier one. -/
theorem Compacted.trans {h h' h'' : List M} {k k' : Nat} (hfirst : Compacted p retain h h' k)
    (hsecond : Compacted p retain h' h'' k') : Compacted p retain h h'' (k + k' - 1) := by
  have hheads := hfirst.head_eq
  obtain ⟨groups, head, text, hgroups, hhead, hk, hfits, hh', hgroups'⟩ := hfirst
  obtain ⟨groups', head', text', hsame, hhead', hk', hfits', hh'', hgroups''⟩ := hsecond
  obtain rfl := Except.ok.inj (hgroups'.symm.trans hsame)
  obtain rfl := Except.ok.inj ((hheads.trans hhead).symm.trans hhead')
  have htake : (groups.take head).length = head := by
    rw [List.length_take]
    omega
  have hbefore : (groups.take head ++ [memoryMessage p text] :: groups.drop (head + k)).take head =
      groups.take head := List.take_left' htake
  have hbehind : (groups.take head ++ [memoryMessage p text] :: groups.drop (head + k)).drop (head + k') =
      groups.drop (head + (k + k' - 1)) := by
    obtain ⟨n, rfl⟩ := Nat.exists_eq_succ_of_ne_zero hk'.ne'
    rw [← List.drop_drop, List.drop_left' htake, List.drop_succ_cons, List.drop_drop]
    congr 1
    omega
  rw [hbefore, hbehind] at hh'' hgroups''
  refine ⟨groups, head, text', hgroups, hhead, by omega, ?_, hh'', hgroups''⟩
  rw [List.length_append, List.length_cons, List.length_drop, htake] at hfits'
  omega

/-! ## A turn of the loop -/

/-- A replacement makes the history smaller. -/
def Event.Shrinks : Event → Prop
  | .completed _ _ tokensBefore tokensAfter _ _ => tokensAfter < tokensBefore
  | _ => True

theorem Event.shrinks_of_not_completed {e : Event} (h : e.isCompleted = false) : e.Shrinks := by
  cases e with
  | completed => cases h
  | _ => trivial

/-- One replacement at most has been recorded. -/
def Recorded (s s' : Session M) : Prop :=
  ∃ new, s'.events = s.events ++ new ∧ new.countP Event.isCompleted ≤ 1 ∧ ∀ e ∈ new, e.Shrinks

/-- A turn has replaced groups, at least two if the first of them is a memory. -/
def Replaces (p : Provider M) (retain : Nat) (s s' : Session M) (k : Nat) : Prop :=
  Compacted p retain s.history s'.history k ∧ Recorded s s' ∧
    ∀ groups head item, p.toolGroups s.history = .ok groups → p.head s.history = .ok head →
      groups[head]? = some [item] → p.isMemory item = true → 2 ≤ k

theorem countP_isCompleted {new : List Event} (h : ∀ e ∈ new, e.isCompleted = false) :
    new.countP Event.isCompleted = 0 :=
  List.countP_eq_zero.mpr fun e he => by rw [h e he]; exact Bool.false_ne_true

theorem After.recorded {s s' : Session M} (h : After s s') (history : List M) :
    Recorded s { s' with history := history } := by
  obtain ⟨-, new, hnew, hnone⟩ := h
  exact ⟨new, hnew, by rw [countP_isCompleted hnone]; exact Nat.zero_le 1,
    fun e he => Event.shrinks_of_not_completed (hnone e he)⟩

theorem After.recorded_snoc {s s' : Session M} (h : After s s') (history : List M) {e : Event} (he : e.Shrinks) :
    Recorded s { history := history, events := s'.events ++ [e] } := by
  obtain ⟨-, new, hnew, hnone⟩ := h
  refine ⟨new ++ [e], by rw [hnew, List.append_assoc], ?_, fun x hx => ?_⟩
  · rw [List.countP_append, countP_isCompleted hnone, Nat.zero_add]
    exact List.countP_le_length
  · rcases List.mem_append.mp hx with hx | hx
    · exact Event.shrinks_of_not_completed (hnone x hx)
    · rw [List.mem_singleton.mp hx]
      exact he

section

variable (p : Provider M) (policy : Policy) (w : World M)

/-- After these events the items are found to have so many tokens, whatever the history is. -/
def SizedAt (items : List M) (events : List Event) (tokens : Nat) : Prop :=
  ∀ history, (sizeOf p w items).answer 0 { history, events } = .ok tokens

/-- Where a size is found, nothing is written. -/
theorem wp_sizeOf (items : List M) (s : Session M) :
    wp (sizeOf p w items) (fun tokens s' => s' = s ∧ SizedAt p w items s.events tokens) (fun s' => After s s') s := by
  unfold SizedAt sizeOf
  cases hvertex : p.vertex with
  | true =>
      unfold counted
      refine wp_bind (wp_read ?_)
      cases hcount : w.countTokens s.events items with
      | error e =>
          refine wp_bind (wp_write (After.refl s) fun s' hs' => ?_)
          cases hs'
          exact wp_raise ((Adds.refl s).emit (e := .contextCountError) rfl).after
      | ok value =>
          cases value with
          | none => exact wp_raise (After.refl s)
          | some n =>
              dsimp only
              unfold refuse
              split
              · exact wp_bind (wp_raise (After.refl s))
              · rename_i hnonneg
                refine wp_bind (wp_pure (wp_pure ⟨rfl, fun history => ?_⟩))
                simp only [if_true]
                rw [answer, bind_of_ok (a := { history, events := s.events }) rfl]
                dsimp only
                rw [hcount]
                dsimp only
                rw [if_neg hnonneg]
                rfl
  | false =>
      unfold encodedSize
      dsimp only
      cases htext : canonical (.obj ((w.config.filter fun m => m.1 ≠ "messages") ++
          [("messages", .arr (items.map w.dump))])) with
      | error e => exact wp_bind (wp_raise (After.refl s))
      | ok text =>
          refine wp_bind (wp_pure (wp_pure ⟨rfl, fun history => ?_⟩))
          simp only [Bool.false_eq_true, if_false]
          rfl

/-- `count` writes down what it finds. -/
theorem wp_count (items : List M) (s : Session M) :
    wp (count p w items)
      (fun tokens s' => s' = { s with events := s.events ++ [.contextCount tokens] } ∧ SizedAt p w items s.events tokens)
      (fun s' => After s s') s := by
  refine wp_bind (wp_mono (wp_sizeOf p w items s) (fun tokens t ht => ?_) fun _ h => h)
  obtain ⟨rfl, hsized⟩ := ht
  refine wp_bind (wp_write (After.refl t) fun t' ht' => ?_)
  cases ht'
  exact wp_pure ⟨rfl, hsized⟩

/-- What `defer` writes down, and says of the size. -/
theorem wp_defer (before : Nat) (reason : String) (proposed : Option Nat) (s : Session M) :
    wp (defer p policy w before reason proposed)
      (fun _ s' => (∃ sha, s' = { s with events := s.events ++ [.deferred reason before (some sha) proposed] }) ∧
        (p.vertex = true → before < policy.inputLimitTokens)) (fun s' => After s s') s := by
  unfold defer refuse
  refine wp_bind ?_
  split
  · exact wp_raise (After.refl s)
  · rename_i hsmall
    refine wp_pure (wp_bind (wp_read ?_))
    cases digest w s.history with
    | error e => exact wp_bind (wp_raise (After.refl s))
    | ok sha =>
        refine wp_bind (wp_pure (wp_write (After.refl s) fun s' hs' => ?_))
        cases hs'
        exact ⟨⟨sha, rfl⟩, fun hvertex => not_le.mp fun hle => hsmall ⟨hvertex, hle⟩⟩

/-- A replacement on record left so many tokens. -/
def Event.Leaves (tokens : Nat) : Event → Prop
  | .completed _ _ _ after _ _ => after = tokens
  | _ => True

theorem Event.leaves_of_not_completed {e : Event} (h : e.isCompleted = false) (tokens : Nat) : e.Leaves tokens := by
  cases e with
  | completed => cases h
  | _ => trivial

/-- The size of the history that is known last: since `events₀` it was counted, the history as it is now, and
what came after is `post`, with no other size on record for it. -/
structure Counted (events₀ : List Event) (s : Session M) (tokens : Nat) (post : List Event) : Prop where
  sized : ∃ pre, s.events = events₀ ++ pre ++ .contextCount tokens :: post ∧ SizedAt p w s.history (events₀ ++ pre) tokens
  last : ∀ e ∈ post, e.Leaves tokens

variable {p w}

theorem Counted.adds {events₀ : List Event} {s s' : Session M} {tokens : Nat} {post new : List Event}
    (h : Counted p w events₀ s tokens post) (hs' : Adds s s' new) : Counted p w events₀ s' tokens (post ++ new) := by
  obtain ⟨⟨pre, hevents, hsized⟩, hlast⟩ := h
  refine ⟨⟨pre, ?_, hs'.history ▸ hsized⟩, fun e he => ?_⟩
  · rw [hs'.events, hevents, List.append_assoc]
    rfl
  · exact (List.mem_append.mp he).elim (hlast e) fun he => Event.leaves_of_not_completed (hs'.quiet e he) tokens

theorem Counted.since {events₀ new : List Event} {s s' : Session M} {tokens : Nat} {post : List Event}
    (h : Counted p w s.events s' tokens post) (hs : s.events = events₀ ++ new) : Counted p w events₀ s' tokens post := by
  obtain ⟨⟨pre, hevents, hsized⟩, hlast⟩ := h
  rw [hs, List.append_assoc events₀ new pre] at hevents hsized
  exact ⟨⟨new ++ pre, hevents, hsized⟩, hlast⟩

variable (p)

/-- Why the loop may end with a history of so many tokens: it is small enough; nothing of it may go, and then it
is within the limit or the number is a mere bound; only a memory may go; or what would take the place of
groups is no smaller. Where something is given up, that is the last event of the call. -/
inductive Ends (history : List M) (tokens : Nat) (post : List Event) : Prop
  | small (h : tokens ≤ policy.threshold)
  | exhausted {groups : List (List M)} {head : Nat} (hgroups : p.toolGroups history = .ok groups)
      (hhead : p.head history = .ok head) (hnone : eligible head policy.retainToolRounds groups = [])
      (h : tokens < policy.inputLimitTokens)
  | bound {groups : List (List M)} {head : Nat} (hgroups : p.toolGroups history = .ok groups)
      (hhead : p.head history = .ok head) (hnone : eligible head policy.retainToolRounds groups = [])
      (h : p.vertex = false)
      (hlast : post.getLast? = some (.deferred "protected_history_has_only_a_conservative_size_bound" tokens none none))
  | onlyMemory {groups : List (List M)} {head : Nat} {sha : String} (hgroups : p.toolGroups history = .ok groups)
      (hhead : p.head history = .ok head)
      (honly : summaryOnly p (eligible head policy.retainToolRounds groups) = true)
      (h : p.vertex = true → tokens < policy.inputLimitTokens)
      (hlast : post.getLast? = some (.deferred "only_prior_summary_is_eligible" tokens (some sha) none))
  | noSmaller {after : Nat} {sha : String} (hle : tokens ≤ after) (hcounted : .contextCount after ∈ post)
      (h : p.vertex = true → tokens < policy.inputLimitTokens)
      (hlast : post.getLast? = some (.deferred "replacement_did_not_shrink" tokens (some sha) (some after)))

variable {p policy}

theorem Ends.append {history : List M} {tokens : Nat} {new : List Event} (h : Ends p policy history tokens new)
    (post : List Event) : Ends p policy history tokens (post ++ new) := by
  have hkeep : ∀ {e}, new.getLast? = some e → (post ++ new).getLast? = some e := by
    intro e he
    rw [List.getLast?_append, he]
    rfl
  cases h with
  | small h => exact .small h
  | exhausted hgroups hhead hnone h => exact .exhausted hgroups hhead hnone h
  | bound hgroups hhead hnone h hlast => exact .bound hgroups hhead hnone h (hkeep hlast)
  | onlyMemory hgroups hhead honly h hlast => exact .onlyMemory hgroups hhead honly h (hkeep hlast)
  | noSmaller hle hcounted h hlast => exact .noSmaller hle (List.mem_append_right _ hcounted) h (hkeep hlast)

variable (p policy w)

/-- The selected groups have given way to some memory. -/
def Changed (groups : List (List M)) (head : Nat) (selected : List M) (s s' : Session M) : Prop :=
  (∃ text, s'.history = replaced p groups head selected text s.history) ∧ Recorded s s'

theorem wp_replace (before : Nat) (groups : List (List M)) (head : Nat) (selected : List M) (s : Session M) :
    wp (replace p policy w before groups head selected)
      (fun r s' => match r with
        | none => ∃ new, Adds s s' new ∧ Ends p policy s.history before new
        | some after => Changed p groups head selected s s' ∧ ∃ post, Counted p w s.events s' after.val post)
      (fun s' => After s s' ∨ Changed p groups head selected s s') s := by
  have hstay : ∀ s', After s s' → After s s' ∨ Changed p groups head selected s s' := fun _ h => .inl h
  unfold replace
  refine (Quiet.lift _).next (After.refl s) hstay fun records t ht => wp_bind (wp_read ?_)
  have hhistory := ht.1
  refine (Quiet.lift _).next ht hstay fun beforeSha t' ht => ?_
  refine (Quiet.emit (e := .started beforeSha selected.length before) rfl).next ht hstay fun _ _ ht => ?_
  refine (Quiet.lift _).next ht hstay fun chunks _ ht => ?_
  refine (Quiet.foldlM (quiet_summarize p policy w) _ _).next ht hstay fun summary _ ht => ?_
  refine (quiet_memoryText w summary).next ht hstay fun text u ht => ?_
  refine wp_bind (wp_mono (wp_count p w _ u) (fun after v hv => ?_) fun v hv => hstay v (ht.trans hv))
  obtain ⟨rfl, hsized⟩ := hv
  obtain ⟨new, hnew⟩ := ht.adds
  have hcounting := hnew.emit (e := .contextCount after) rfl
  split
  · rename_i hless
    -- the history is another one from here on
    have hchanged : ∀ {s' : Session M}, s'.history = replaced p groups head selected text t.history →
        Recorded s s' → Changed p groups head selected s s' := by
      intro s' hs' hrecorded
      rw [hhistory] at hs'
      exact ⟨⟨text, hs'⟩, hrecorded⟩
    refine wp_bind (wp_note ?_)
    cases hsha : digest w (replaced p groups head selected text t.history) with
    | error e => exact wp_bind (wp_raise (.inr (hchanged rfl (hcounting.after.recorded _))))
    | ok afterSha =>
        refine wp_bind (wp_pure (wp_bind (wp_write (.inr (hchanged rfl (hcounting.after.recorded _))) fun s' hs' => ?_)))
        cases hs'
        refine wp_pure ⟨hchanged rfl (hcounting.after.recorded_snoc _ hless),
          [.completed beforeSha afterSha before after selected.length summary], ⟨new, ?_, ?_⟩, fun e he => ?_⟩
        · show (u.events ++ [_]) ++ [_] = _
          rw [hnew.events, List.append_assoc]
          rfl
        · rw [← hnew.events]
          exact hsized
        · rw [List.mem_singleton.mp he]
          rfl
  · rename_i hmore
    refine wp_bind (wp_mono (wp_defer p policy w before _ _ _) (fun _ s' h => wp_pure ?_)
      fun s' h => hstay s' (hcounting.after.trans h))
    obtain ⟨⟨sha, rfl⟩, hlimit⟩ := h
    refine ⟨_, hcounting.emit rfl, .noSmaller (Nat.le_of_not_lt hmore) ?_ hlimit List.getLast?_concat⟩
    exact List.mem_append_left _ (List.mem_append_right _ (List.mem_singleton_self _))

/-- A memory is not summarized by itself. -/
theorem two_le_of_memory {groups : List (List M)} {head : Nat} {item : M}
    (hsome : eligible head policy.retainToolRounds groups ≠ [])
    (hnot : summaryOnly p (eligible head policy.retainToolRounds groups) ≠ true)
    (hitem : groups[head]? = some [item]) (hmemory : p.isMemory item = true) :
    2 ≤ (eligible head policy.retainToolRounds groups).length := by
  have hfirst : (eligible head policy.retainToolRounds groups)[0]? = some [item] := by
    have hpos := List.length_pos_iff.mpr hsome
    rw [eligible_eq, List.length_take] at hpos
    rw [eligible_eq, List.getElem?_take_of_lt (by omega), List.getElem?_drop]
    exact hitem
  match heq : eligible head policy.retainToolRounds groups with
  | [] => exact absurd heq hsome
  | [first] =>
      rw [heq] at hfirst hnot
      obtain rfl := Option.some.inj hfirst
      exact absurd hmemory hnot
  | first :: second :: more => exact Nat.le_add_left 2 more.length

theorem wp_turn (before : Nat) (s : Session M) :
    wp (turn p policy w before)
      (fun r s' => match r with
        | none => ∃ new, Adds s s' new ∧ Ends p policy s.history before new
        | some after => (∃ k, Replaces p policy.retainToolRounds s s' k) ∧ ∃ post, Counted p w s.events s' after.val post)
      (fun s' => After s s' ∨ ∃ k, Replaces p policy.retainToolRounds s s' k) s := by
  have hstay : ∀ s', After s s' → After s s' ∨ ∃ k, Replaces p policy.retainToolRounds s s' k := fun _ h => .inl h
  unfold turn
  split
  · rename_i hsmall
    exact wp_pure ⟨[], Adds.refl s, .small hsmall⟩
  · refine wp_bind (wp_read ?_)
    cases hgroups : p.toolGroups s.history with
    | error e => exact wp_bind (wp_raise (hstay s (After.refl s)))
    | ok groups =>
        refine wp_bind (wp_pure ?_)
        cases hhead : p.head s.history with
        | error e => exact wp_bind (wp_raise (hstay s (After.refl s)))
        | ok head =>
            refine wp_bind (wp_pure ?_)
            dsimp only
            split
            · rename_i hnone
              split
              · rename_i hlimit
                exact wp_pure ⟨[], Adds.refl s, .exhausted hgroups hhead hnone hlimit⟩
              · split
                · rename_i hvertex
                  refine wp_bind (wp_write (hstay s (After.refl s)) fun s' hs' => ?_)
                  cases hs'
                  exact wp_pure ⟨_, (Adds.refl s).emit rfl, .bound hgroups hhead hnone hvertex List.getLast?_concat⟩
                · exact wp_raise (hstay s (After.refl s))
            · rename_i hsome
              split
              · rename_i honly
                refine wp_bind (wp_mono (wp_defer p policy w before _ _ s) (fun _ s' h => wp_pure ?_) hstay)
                obtain ⟨⟨sha, rfl⟩, hlimit⟩ := h
                exact ⟨_, (Adds.refl s).emit rfl, .onlyMemory hgroups hhead honly hlimit List.getLast?_concat⟩
              · rename_i hnot
                cases hselected : selectFrom w policy.budget 0 0 (eligible head policy.retainToolRounds groups) with
                | error e => exact wp_bind (wp_raise (hstay s (After.refl s)))
                | ok selected =>
                    refine wp_bind (wp_pure ?_)
                    -- the change of messages is a replacement of groups
                    have hreplaces : ∀ s', Changed p groups head selected.flatten s s' →
                        ∃ k, Replaces p policy.retainToolRounds s s' k := by
                      rintro s' ⟨⟨text, hs'⟩, hrecorded⟩
                      obtain ⟨k, hk, hleast⟩ := compacted_of_select hgroups hhead hselected hsome text
                      refine ⟨k, hs' ▸ hk, hrecorded, ?_⟩
                      intro groups' head' item hgroups' hhead' hitem hmemory
                      obtain rfl := Except.ok.inj (hgroups.symm.trans hgroups')
                      obtain rfl := Except.ok.inj (hhead.symm.trans hhead')
                      have htwo := two_le_of_memory p policy hsome hnot hitem hmemory
                      omega
                    refine wp_mono (wp_replace p policy w before groups head selected.flatten s) (fun r s' h => ?_)
                      fun s' h => h.imp_right (hreplaces s')
                    cases r with
                    | none => exact h
                    | some after => exact ⟨hreplaces s' h.1, h.2⟩

end

/-! ## Whole runs -/

/-- What holds wherever a run is cut off. The history is what it was, or groups after its head, one for each
replacement at least, have given way to one memory; and every replacement that was recorded made it smaller. -/
def Kept (p : Provider M) (retain : Nat) (s₀ s : Session M) : Prop :=
  ∃ new, s.events = s₀.events ++ new ∧ (∀ e ∈ new, e.Shrinks) ∧
    (s.history = s₀.history ∧ new.countP Event.isCompleted = 0 ∨
      ∃ k, Compacted p retain s₀.history s.history k ∧ new.countP Event.isCompleted ≤ k)

theorem Kept.refl (p : Provider M) (retain : Nat) (s : Session M) : Kept p retain s s :=
  ⟨[], (List.append_nil _).symm, fun _ h => absurd h List.not_mem_nil, .inl ⟨rfl, rfl⟩⟩

theorem Kept.after {s₀ s s' : Session M} (h : Kept p retain s₀ s) (hs' : After s s') : Kept p retain s₀ s' := by
  obtain ⟨new, hnew, hshrinks, hcases⟩ := h
  obtain ⟨hhistory, new', hnew', hnone⟩ := hs'
  have hcount : (new ++ new').countP Event.isCompleted = new.countP Event.isCompleted := by
    rw [List.countP_append, countP_isCompleted hnone, Nat.add_zero]
  refine ⟨new ++ new', by rw [hnew', hnew, List.append_assoc], fun e he => ?_, ?_⟩
  · exact (List.mem_append.mp he).elim (hshrinks e) fun he => Event.shrinks_of_not_completed (hnone e he)
  · rw [hhistory, hcount]
    exact hcases

theorem Kept.replaces {s₀ s s' : Session M} {k : Nat} (h : Kept p retain s₀ s) (hs' : Replaces p retain s s' k) :
    Kept p retain s₀ s' := by
  obtain ⟨new, hnew, hshrinks, hcases⟩ := h
  obtain ⟨hcompacted, ⟨new', hnew', hone, hshrinks'⟩, hmemory⟩ := hs'
  refine ⟨new ++ new', by rw [hnew', hnew, List.append_assoc], fun e he => ?_, .inr ?_⟩
  · exact (List.mem_append.mp he).elim (hshrinks e) (hshrinks' e)
  · rw [List.countP_append]
    rcases hcases with ⟨hhistory, hzero⟩ | ⟨k₀, hfirst, hcount⟩
    · rw [hhistory] at hcompacted
      have hpos : 0 < k := by
        obtain ⟨-, -, -, -, -, hpos, -⟩ := hcompacted
        exact hpos
      exact ⟨k, hcompacted, by omega⟩
    · -- the earlier memory is the first group after the head, and goes with another one
      have htwo : 2 ≤ k := by
        have hheads := hfirst.head_eq
        obtain ⟨groups, head, text, -, hhead, -, hfits, -, hgroups⟩ := id hfirst
        refine hmemory _ head _ hgroups (hheads.trans hhead) ?_ (p.isMemory_memory text)
        rw [List.getElem?_append_right (by rw [List.length_take]; omega), List.length_take,
          Nat.min_eq_left (by omega), Nat.sub_self]
        rfl
      exact ⟨k₀ + k - 1, hfirst.trans hcompacted, by omega⟩

section

variable (p : Provider M) (policy : Policy) (w : World M)

/-- How a call ends that returns: the size of the history that it counted last gives it a reason to end. -/
def Ended (s₀ s : Session M) : Prop :=
  ∃ tokens post, Counted p w s₀.events s tokens post ∧ Ends p policy s.history tokens post

/-- The loop goes on with a smaller size each time. -/
theorem wp_loop {s₀ : Session M} (before : Nat) {s : Session M} (hs : Kept p policy.retainToolRounds s₀ s)
    {post : List Event} (hcounted : Counted p w s₀.events s before post) :
    wp (loop p policy w before) (fun _ s' => Kept p policy.retainToolRounds s₀ s' ∧ Ended p policy w s₀ s')
      (fun s' => Kept p policy.retainToolRounds s₀ s') s := by
  induction before using Nat.strong_induction_on generalizing s post with
  | _ before ih =>
      rw [loop]
      refine wp_bind (wp_mono (wp_turn p policy w before s) (fun r s' h => ?_) fun s' h => ?_)
      · cases r with
        | none =>
            obtain ⟨new, hnew, hends⟩ := h
            refine wp_pure ⟨hs.after hnew.after, before, post ++ new, hcounted.adds hnew, ?_⟩
            rw [hnew.history]
            exact hends.append post
        | some after =>
            obtain ⟨⟨k, hk⟩, post', hcounted'⟩ := h
            obtain ⟨new, hnew, -⟩ := id hs
            exact ih after.val after.isLt (hs.replaces hk) (hcounted'.since hnew)
      · rcases h with hafter | ⟨k, hk⟩
        · exact hs.after hafter
        · exact hs.replaces hk

theorem wp_call (pendingTools : Bool) (s : Session M) :
    wp (call p policy w pendingTools) (fun _ s' => Kept p policy.retainToolRounds s s' ∧ Ended p policy w s s')
      (fun s' => Kept p policy.retainToolRounds s s') s := by
  have hkept : ∀ s', After s s' → Kept p policy.retainToolRounds s s' := fun _ h => (Kept.refl p _ s).after h
  refine (Quiet.refuse _ _).next (After.refl s) hkept fun _ t ht => wp_bind (wp_read ?_)
  refine wp_bind (wp_mono (wp_count p w _ t) (fun before u hu => ?_) fun u hu => hkept u (ht.trans hu))
  obtain ⟨rfl, hsized⟩ := hu
  obtain ⟨new, hnew⟩ := ht.adds
  have hcounting := hnew.emit (e := .contextCount before) rfl
  have hcounted : Counted p w s.events { t with events := t.events ++ [.contextCount before] } before [] := by
    refine ⟨⟨new, ?_, ?_⟩, nofun⟩
    · rw [hcounting.events, List.append_assoc]
    · rw [← hnew.events]
      exact hsized
  exact wp_loop p policy w before (hkept _ hcounting.after) hcounted

end

/-- For Gemini and for the other providers, every policy, every history and whatever the counts, the worker, the
model and the anchor answer: a run of `AdkCompactor.__call__` comes to an end, and wherever it is cut off and
however it ends, the history is what it was, or groups right after its head have given way to one memory. Then
the head is there word for word and so are at least the last groups that are to be retained, every call is still
with its replies, and no replacement was recorded that did not make the history smaller. If the run returns, the
size that it counted last, of the history as it then is, gives it a reason to: it is within the threshold, nothing
may go, only a memory may go, or the next replacement would not be smaller; and what it gave up it recorded. -/
theorem compaction_keeps (policy : Policy) (pendingTools : Bool) (n : Nat) :
    (∀ (w : World Content) (s : Session Content),
      Kept gemini policy.retainToolRounds s ((call gemini policy w pendingTools).final n s) ∧
      ((call gemini policy w pendingTools).answer n s = .ok () →
        Ended gemini policy w s ((call gemini policy w pendingTools).final n s))) ∧
    ∀ (w : World Message) (s : Session Message),
      Kept chat policy.retainToolRounds s ((call chat policy w pendingTools).final n s) ∧
      ((call chat policy w pendingTools).answer n s = .ok () →
        Ended chat policy w s ((call chat policy w pendingTools).final n s)) := by
  have hrun : ∀ {M : Type} (p : Provider M) (w : World M) (s : Session M),
      Kept p policy.retainToolRounds s ((call p policy w pendingTools).final n s) ∧
      ((call p policy w pendingTools).answer n s = .ok () →
        Ended p policy w s ((call p policy w pendingTools).final n s)) := by
    intro M p w s
    have hp := wp_call p policy w pendingTools s
    refine ⟨wp_final (wp_mono hp (fun _ _ h => h.1) fun _ h => h) n, fun hanswer => ?_⟩
    have hn := hp n
    rw [hanswer] at hn
    exact hn.2
  exact ⟨hrun gemini, hrun chat⟩

/-! ### A small conversation -/

/-- The limits of a model that reads a thousand tokens; one group is retained. -/
def smallPolicy : Policy where
  inputLimitTokens := 1000
  threshold := 250
  budget := 400
  retainToolRounds := 1
  retain_pos := Nat.one_pos

def say (role text : String) : Content := { role := some role, parts := [{ text := some text.toList }] }

/-- A task and three answers. -/
def smallHistory : List Content := [say "user" "task", say "model" "first", say "model" "second", say "model" "third"]

/-- The two histories of the run below, as they are digested, with their digests. -/
def smallDigests : List (String × String) :=
  [("[\x7b\"parts\":[\x7b\"text\":\"task\"\x7d],\"role\":\"user\"\x7d," ++
      "\x7b\"parts\":[\x7b\"text\":\"first\"\x7d],\"role\":\"model\"\x7d," ++
      "\x7b\"parts\":[\x7b\"text\":\"second\"\x7d],\"role\":\"model\"\x7d," ++
      "\x7b\"parts\":[\x7b\"text\":\"third\"\x7d],\"role\":\"model\"\x7d]",
      "ea22ed1c1ba149a98bbcd6439798ffb72140fd630d4b015182df2f6e73abca31"),
    ("[\x7b\"parts\":[\x7b\"text\":\"task\"\x7d],\"role\":\"user\"\x7d," ++
      "\x7b\"parts\":[\x7b\"text\":\"[Compacted working history; source and measurement files are authoritative.]\\ntwo steps\"\x7d],\"role\":\"user\"\x7d," ++
      "\x7b\"parts\":[\x7b\"text\":\"third\"\x7d],\"role\":\"model\"\x7d]",
      "d2b10ee6c949e3103badd888958dc5a78f019686ac401fb6aef3a738f4b1b9f9")]

/-- A hundred tokens a message, and a model that has the same summary for everything. -/
def smallWorld : World Content where
  dump := fun item =>
    .obj [("parts", .arr (item.parts.map fun part => .obj [("text", .str (String.ofList (part.text.getD [])))])),
      ("role", .str (item.role.getD ""))]
  config := []
  countTokens := fun _ items => .ok (some (100 * items.length : Nat))
  outgoing := fun _ _ => .ok [say "user" "summarize"]
  generate := fun _ _ => .ok (some { finished := true, content := some (say "model" "two steps"), calls := false })
  conclude := fun _ content => .ok content.parts
  anchor := none
  sha256 := fun text => (smallDigests.lookup (String.ofList text)).getD ""

/-- Two answers give way to a memory; that is all that may go, and the call ends with this on record. -/
theorem compaction_keeps_small :
    let s : Session Content := { history := smallHistory }
    let s' := (call gemini smallPolicy smallWorld false).final 20 s
    (call gemini smallPolicy smallWorld false).answer 20 s = .ok () ∧
      s'.events.countP Event.isCompleted = 1 ∧ Kept gemini 1 s s' ∧ Ended gemini smallPolicy smallWorld s s' ∧
      s'.events.getLast? = some (.deferred "only_prior_summary_is_eligible" 300
        (some "d2b10ee6c949e3103badd888958dc5a78f019686ac401fb6aef3a738f4b1b9f9") none) := by
  intro s s'
  have hanswer : (call gemini smallPolicy smallWorld false).answer 20 s = .ok () := by decide +kernel
  obtain ⟨hgemini, -⟩ := compaction_keeps smallPolicy false 20
  obtain ⟨hkept, hended⟩ := hgemini smallWorld s
  exact ⟨hanswer, by decide +kernel, hkept, hended hanswer, by decide +kernel⟩

end Ramulator.ChiaLoop.Compaction
