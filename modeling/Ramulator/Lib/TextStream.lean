/-
# Ramulator.Lib.TextStream — formatted input from a text file.

A stream has what is left of a text and two state bits, that its end was met and that an extraction failed. An
extraction skips white space and takes a word, a character or a number; one that fails leaves the stream with its
bits, and the extractions after it do nothing. What stands between white space is extracted as it was written
(`extractWord_reads`, `extractUnsigned_reads`).

A loop that goes on while extractions succeed takes at least a character a round. Its bound is the length of the
text, and any larger bound gives what this one gives (`eachRecord_fuel`).
-/
import Ramulator.Lib.NumberText
import Ramulator.Lib.Run

namespace Ramulator.Lib

/-- A stream that is read. -/
structure TextStream where
  rest : List Char
  eof : Bool
  fail : Bool
  deriving DecidableEq, Repr

/-- What extracts a value, or fails and leaves the stream. -/
abbrev Extract (α : Type) := StateT TextStream (Except TextStream) α

namespace TextStream

/-- A stream before anything went wrong. -/
def ofText (cs : List Char) : TextStream := ⟨cs, false, false⟩

/-- The white space of the classic locale. -/
def isSpace (c : Char) : Bool := c ∈ [' ', '\t', '\n', '\x0b', '\x0c', '\r']

/-- What comes before every extraction: a stream that is good loses its leading white space, and fails at its
end. -/
def sentry (s : TextStream) : TextStream :=
  if s.eof || s.fail then { s with fail := true }
  else
    let rest := s.rest.dropWhile isSpace
    ⟨rest, rest.isEmpty, rest.isEmpty⟩

/-- A word, up to the next white space. -/
def extractWord : Extract (List Char) := fun s =>
  let s := s.sentry
  if s.fail then .error s
  else
    let rest := s.rest.dropWhile fun c => !isSpace c
    .ok (s.rest.takeWhile fun c => !isSpace c, ⟨rest, rest.isEmpty, false⟩)

def extractChar : Extract Char := fun s =>
  let s := s.sentry
  if s.fail then .error s
  else
    match s.rest with
    | c :: rest => .ok (c, { s with rest := rest })
    | [] => .error s

/-- A number of an unsigned type. A sign is allowed, and a negative number wraps; digits that exceed the type are
taken, and the extraction fails. -/
def extractUnsigned (bits : Nat) : Extract Nat := fun s =>
  let s := s.sentry
  if s.fail then .error s
  else
    let sign := readSign s.rest
    let digits := takeDigits sign.2
    let value := Nat.ofDigitChars 10 digits.1 0
    let bad := digits.1.isEmpty || 2 ^ bits ≤ value
    let s : TextStream := ⟨digits.2, digits.2.isEmpty, bad⟩
    if bad then .error s else .ok (if sign.1 then (2 ^ bits - value) % 2 ^ bits else value, s)

section Loop

variable {σ α ε : Type}

/-- `while (in >> record) body`, with what it leaves of the stream. The bound is on the rounds. -/
def eachRecord (extract : Extract α) (body : σ → α → Except ε σ) : Nat → σ → TextStream → Except ε (σ × TextStream)
  | 0, st, s => .ok (st, s)
  | fuel + 1, st, s =>
      match extract s with
      | .error s => .ok (st, s)
      | .ok (record, s) => body st record >>= fun st => eachRecord extract body fuel st s

/-- An extraction that succeeds takes something. -/
def Consumes (extract : Extract α) : Prop := ∀ s a s', extract s = .ok (a, s') → s'.rest.length < s.rest.length

/-- A bound beyond the length of the text is never met. -/
theorem eachRecord_fuel {extract : Extract α} (hextract : Consumes extract) (body : σ → α → Except ε σ) {m n : Nat}
    (st : σ) (s : TextStream) (hm : s.rest.length < m) (hn : s.rest.length < n) :
    eachRecord extract body m st s = eachRecord extract body n st s := by
  induction m generalizing n st s with
  | zero => omega
  | succ m ih =>
      obtain ⟨n, rfl⟩ : ∃ k, n = k + 1 := ⟨n - 1, by omega⟩
      unfold eachRecord
      cases hs : extract s with
      | error s' => rfl
      | ok r =>
          have hlt := hextract s r.1 r.2 hs
          dsimp only
          congr 1
          funext st'
          exact ih st' r.2 (by omega) (by omega)

/-- What every round preserves, the loop preserves. -/
theorem eachRecord_invariant {extract : Extract α} {body : σ → α → Except ε σ} (P : σ → Prop)
    (hbody : ∀ st a st', P st → body st a = .ok st' → P st') {fuel : Nat} {st st' : σ} {s s' : TextStream}
    (hst : P st) (h : eachRecord extract body fuel st s = .ok (st', s')) : P st' := by
  induction fuel generalizing st s with
  | zero =>
      cases h
      exact hst
  | succ fuel ih =>
      unfold eachRecord at h
      cases hs : extract s with
      | error s'' =>
          rw [hs] at h
          cases h
          exact hst
      | ok r =>
          rw [hs] at h
          obtain ⟨st'', hbody', hnext⟩ := except_bind_eq_ok.mp h
          exact ih (hbody st r.1 st'' hst hbody') hnext

end Loop

/-! ## How much is taken -/

theorem length_sentry_le (s : TextStream) : s.sentry.rest.length ≤ s.rest.length := by
  unfold sentry
  split
  · exact le_rfl
  · exact (List.dropWhile_sublist isSpace).length_le

theorem length_readSign_le (cs : List Char) : (readSign cs).2.length ≤ cs.length := by
  unfold readSign
  split
  · exact Nat.le_succ _
  · exact Nat.le_succ _
  · exact le_rfl

theorem length_takeDigits_lt {cs : List Char} (h : (takeDigits cs).1 ≠ []) : (takeDigits cs).2.length < cs.length := by
  have hsplit := congrArg List.length (List.takeWhile_append_dropWhile (p := Char.isDigit) (l := cs))
  rw [List.length_append] at hsplit
  have hdigits : 0 < (cs.takeWhile Char.isDigit).length := List.length_pos_iff.mpr h
  show (cs.dropWhile Char.isDigit).length < cs.length
  omega

theorem consumes_extractUnsigned (bits : Nat) : Consumes (extractUnsigned bits) := by
  intro s a s' h
  have hlt (hdigits : (takeDigits (readSign s.sentry.rest).2).1 ≠ []) :
      (takeDigits (readSign s.sentry.rest).2).2.length < s.rest.length :=
    calc
      (takeDigits (readSign s.sentry.rest).2).2.length < (readSign s.sentry.rest).2.length :=
        length_takeDigits_lt hdigits
      _ ≤ s.sentry.rest.length := length_readSign_le _
      _ ≤ s.rest.length := length_sentry_le s
  unfold extractUnsigned at h
  dsimp only at h
  by_cases hfail : s.sentry.fail = true
  · rw [if_pos hfail] at h
    cases h
  · rw [if_neg hfail] at h
    split at h
    · cases h
    · next hbad =>
      rw [Bool.or_eq_true, not_or] at hbad
      obtain ⟨-, rfl⟩ := Prod.mk.inj (Except.ok.inj h)
      exact hlt fun hnil => hbad.1 (List.isEmpty_iff.mpr hnil)

theorem Consumes.bind {α β : Type} {p : Extract α} {q : α → Extract β} (hp : Consumes p)
    (hq : ∀ a s b s', q a s = .ok (b, s') → s'.rest.length ≤ s.rest.length) : Consumes (p >>= q) := by
  intro s b s' h
  obtain ⟨⟨a, t⟩, ha, hb⟩ := except_bind_eq_ok.mp h
  exact lt_of_le_of_lt (hq a t b s' hb) (hp s a t ha)

/-! ## What stands between white space -/

/-- Text that goes on with white space. -/
def Delimited (rest : List Char) : Prop := ∃ c cs, rest = c :: cs ∧ isSpace c = true

theorem delimited_cons {c : Char} (cs : List Char) (hc : isSpace c = true) : Delimited (c :: cs) := ⟨c, cs, rfl, hc⟩

theorem isSpace_of_isDigit {c : Char} (hc : c.isDigit = true) : isSpace c = false := by
  rw [Bool.eq_false_iff]
  intro hspace
  have hmem : c ∈ [' ', '\t', '\n', '\x0b', '\x0c', '\r'] := of_decide_eq_true hspace
  simp only [List.mem_cons, List.not_mem_nil, or_false] at hmem
  rcases hmem with rfl | rfl | rfl | rfl | rfl | rfl <;> cases hc

/-- One white space and something after it. -/
theorem sentry_space {c d : Char} (hc : isSpace c = true) (hd : isSpace d = false) (cs : List Char) :
    (ofText (c :: d :: cs)).sentry = ofText (d :: cs) := by
  unfold sentry ofText
  dsimp only
  rw [List.dropWhile_cons_of_pos hc, List.dropWhile_cons_of_neg (by rw [hd]; decide)]
  rfl

/-- The same, without the white space. -/
theorem sentry_start {d : Char} (hd : isSpace d = false) (cs : List Char) :
    (ofText (d :: cs)).sentry = ofText (d :: cs) := by
  unfold sentry ofText
  dsimp only
  rw [List.dropWhile_cons_of_neg (by rw [hd]; decide)]
  rfl

/-- White space is all that is left. -/
theorem sentry_end {c : Char} (hc : isSpace c = true) : (ofText [c]).sentry = ⟨[], true, true⟩ := by
  unfold sentry ofText
  dsimp only
  rw [List.dropWhile_cons_of_pos hc]
  rfl

theorem extractChar_reads {c d : Char} (hc : isSpace c = true) (hd : isSpace d = false) (rest : List Char) :
    extractChar (ofText (c :: d :: rest)) = .ok (d, ofText rest) := by
  unfold extractChar
  rw [sentry_space hc hd]
  rfl

theorem extractWord_reads {word rest : List Char} (hword : ∀ c ∈ word, isSpace c = false) (hne : word ≠ [])
    (hrest : Delimited rest) : extractWord (ofText (word ++ rest)) = .ok (word, ofText rest) := by
  obtain ⟨d, ds, rfl⟩ := List.exists_cons_of_ne_nil hne
  obtain ⟨c, cs, rfl, hc⟩ := hrest
  have hpos : ∀ a ∈ d :: ds, (!isSpace a) = true := fun a ha => by rw [hword a ha]; rfl
  have hneg : ¬ (!isSpace c) = true := by rw [hc]; decide
  unfold extractWord
  rw [List.cons_append, sentry_start (hword d List.mem_cons_self), ← List.cons_append]
  dsimp only [ofText]
  rw [List.takeWhile_append_of_pos hpos, List.dropWhile_append_of_pos hpos,
    List.takeWhile_cons_of_neg (p := fun a => !isSpace a) hneg,
    List.dropWhile_cons_of_neg (p := fun a => !isSpace a) hneg, List.append_nil]
  rfl

theorem extractWord_end {c : Char} (hc : isSpace c = true) : ∃ s, extractWord (ofText [c]) = .error s := by
  unfold extractWord
  rw [sentry_end hc]
  exact ⟨_, rfl⟩

/-- A number that the type has. -/
theorem extractUnsigned_reads {bits n : Nat} (hn : n < 2 ^ bits) {c : Char} (hc : isSpace c = true) {rest : List Char}
    (hrest : Delimited rest) :
    extractUnsigned bits (ofText (c :: (Nat.toDigits 10 n ++ rest))) = .ok (n, ofText rest) := by
  obtain ⟨e, es, rfl, he⟩ := hrest
  obtain ⟨d, ds, hds⟩ := List.exists_cons_of_ne_nil (Nat.toDigits_ne_nil (b := 10) (n := n))
  have hd : d.isDigit = true := allDigits_toDigits n d (by rw [hds]; exact List.mem_cons_self)
  have hsign : readSign (Nat.toDigits 10 n ++ e :: es) = (false, Nat.toDigits 10 n ++ e :: es) := by
    rw [hds, List.cons_append]
    unfold readSign
    split
    · rename_i heq
      cases heq
      cases hd
    · rename_i heq
      cases heq
      cases hd
    · rfl
  have hdigits : takeDigits (Nat.toDigits 10 n ++ e :: es) = (Nat.toDigits 10 n, e :: es) := by
    refine takeDigits_append (allDigits_toDigits n) fun a ha => ?_
    cases ha
    rw [Bool.eq_false_iff]
    intro hdigit
    rw [isSpace_of_isDigit hdigit] at he
    cases he
  have hbad : ((Nat.toDigits 10 n).isEmpty || decide (2 ^ bits ≤ n)) = false := by
    rw [decide_eq_false (not_le.mpr hn), hds]
    rfl
  have hsentry : (ofText (c :: (Nat.toDigits 10 n ++ e :: es))).sentry = ofText (Nat.toDigits 10 n ++ e :: es) := by
    rw [hds, List.cons_append]
    exact sentry_space hc (isSpace_of_isDigit hd) _
  unfold extractUnsigned
  rw [hsentry]
  dsimp only [ofText]
  rw [hsign]
  dsimp only
  rw [hdigits, Nat.ofDigitChars_ten_toDigits, hbad]
  rfl

/-! ## Records -/

section Reads

variable {α β : Type} {p : Extract α} {q : α → Extract β} {text text' : List Char} {a : α} {b : β}

/-- `p` takes a text that white space follows, and gives `a`. -/
def Reads (p : Extract α) (text : List Char) (a : α) : Prop :=
  ∀ rest, Delimited rest → p (ofText (text ++ rest)) = .ok (a, ofText rest)

/-- A part, and a part that begins with white space. -/
theorem Reads.bind (hp : Reads p text a) (hdelimited : Delimited text') (hq : Reads (q a) text' b) :
    Reads (p >>= q) (text ++ text') b := by
  intro rest hrest
  obtain ⟨c, cs, rfl, hc⟩ := hdelimited
  rw [List.append_assoc]
  show (p (ofText (text ++ (c :: cs ++ rest))) >>= fun r => q r.1 r.2) = _
  rw [hp (c :: cs ++ rest) (delimited_cons _ hc)]
  exact hq rest hrest

/-- What is made of the last part. -/
theorem Reads.bind_pure (hp : Reads p text a) (f : α → β) : Reads (p >>= fun x => pure (f x)) text (f a) := by
  intro rest hrest
  show (p (ofText (text ++ rest)) >>= fun r => pure (f r.1, r.2)) = _
  rw [hp rest hrest]
  rfl

theorem reads_word (hword : ∀ c ∈ text, isSpace c = false) (hne : text ≠ []) : Reads extractWord text text :=
  fun _ hrest => extractWord_reads hword hne hrest

theorem reads_char {c d : Char} (hc : isSpace c = true) (hd : isSpace d = false) : Reads extractChar [c, d] d :=
  fun rest _ => extractChar_reads hc hd rest

theorem reads_unsigned {bits n : Nat} (hn : n < 2 ^ bits) {c : Char} (hc : isSpace c = true) :
    Reads (extractUnsigned bits) (c :: Nat.toDigits 10 n) n :=
  fun _ hrest => extractUnsigned_reads hn hc hrest

end Reads

end TextStream

end Ramulator.Lib
