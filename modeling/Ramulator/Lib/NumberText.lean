/-
# Ramulator.Lib.NumberText — numbers written out in decimal, and read back.

A number is read as its parts: a sign, whole digits, digits of a fraction, and an exponent. What is
written here (integers, and decimals in positional or in scientific form) is read as those parts, and the
parts denote the number that was written, `readNumber_decimalText` and `readNumber_intText`.
-/
import Ramulator.Lib.FloatFormat

namespace Ramulator.Lib

open FloatFormat (Decimal)

/-! ## Reading -/

/-- The digits at the front, and what follows them. -/
def takeDigits (cs : List Char) : List Char × List Char := (cs.takeWhile Char.isDigit, cs.dropWhile Char.isDigit)

/-- A number as it is written. -/
structure NumberParts where
  neg : Bool
  whole : List Char
  fraction : Option (List Char) := none
  exponent : Option Int := none
  deriving DecidableEq, Repr

/-- A sign `-`, if there is one. -/
def readMinus : List Char → Bool × List Char
  | '-' :: cs => (true, cs)
  | cs => (false, cs)

/-- The whole digits: one zero, or digits that do not begin with one. -/
def readWhole : List Char → Option (List Char × List Char)
  | '0' :: cs => some (['0'], cs)
  | c :: cs => if c.isDigit then some (takeDigits (c :: cs)) else none
  | [] => none

/-- The digits after a point, if there are some. -/
def readFraction : List Char → Option (List Char) × List Char
  | '.' :: cs =>
      let digits := takeDigits cs
      if digits.1 = [] then (none, '.' :: cs) else (some digits.1, digits.2)
  | cs => (none, cs)

/-- A sign in front of an exponent, if there is one. -/
def readSign : List Char → Bool × List Char
  | '-' :: cs => (true, cs)
  | '+' :: cs => (false, cs)
  | cs => (false, cs)

/-- An exponent, if there is one. -/
def readExponent : List Char → Option Int × List Char
  | c :: cs =>
      let sign := readSign cs
      let digits := takeDigits sign.2
      if (c = 'e' ∨ c = 'E') ∧ digits.1 ≠ [] then
        let n : Int := Nat.ofDigitChars 10 digits.1 0
        (some (if sign.1 then -n else n), digits.2)
      else (none, c :: cs)
  | [] => (none, [])

/-- A number at the front, and what follows it. -/
def readNumber (cs : List Char) : Option (NumberParts × List Char) := do
  let (neg, cs) := readMinus cs
  let (whole, cs) ← readWhole cs
  let (fraction, cs) := readFraction cs
  let (exponent, cs) := readExponent cs
  pure ({ neg := neg, whole := whole, fraction := fraction, exponent := exponent }, cs)

namespace NumberParts

/-- Without fraction and exponent it is an integer. -/
def isInt (p : NumberParts) : Bool := p.fraction.isNone && p.exponent.isNone

def toInt (p : NumberParts) : Int :=
  let n : Int := Nat.ofDigitChars 10 p.whole 0
  if p.neg then -n else n

/-- The magnitude, as a decimal. -/
def toDecimal (p : NumberParts) : Decimal :=
  let fraction := p.fraction.getD []
  ⟨Nat.ofDigitChars 10 (p.whole ++ fraction) 0, p.exponent.getD 0 - fraction.length⟩

end NumberParts

/-! ## Writing -/

def minusText (neg : Bool) : List Char := if neg then ['-'] else []

def intText (n : Int) : List Char := minusText (n < 0) ++ Nat.toDigits 10 n.natAbs

/-- An exponent, of two digits at least. -/
def exponentText (e : Int) : List Char :=
  (if e < 0 then '-' else '+') :: if e.natAbs < 10 then '0' :: Nat.toDigits 10 e.natAbs
    else Nat.toDigits 10 e.natAbs

/-- A decimal, in positional form where the point is near its digits, else in scientific form. -/
def decimalText (d : Decimal) : List Char :=
  if d.digits = 0 then ['0', '.', '0']
  else
    let digits := Nat.toDigits 10 d.digits
    let point := digits.length + d.exponent
    if -4 < point ∧ point ≤ 16 then
      if point ≤ 0 then '0' :: '.' :: (List.replicate (-point).toNat '0' ++ digits)
      else if digits.length ≤ point then digits ++ (List.replicate d.exponent.toNat '0' ++ ['.', '0'])
      else digits.take point.toNat ++ '.' :: digits.drop point.toNat
    else
      match digits with
      | c :: [] => c :: 'e' :: exponentText (point - 1)
      | c :: cs => c :: '.' :: (cs ++ 'e' :: exponentText (point - 1))
      | [] => []

/-! ## What is written is read -/

/-- Text that does not go on with a number. -/
def Stops (rest : List Char) : Prop := ∀ c ∈ rest.head?, c.isDigit = false ∧ c ≠ '.' ∧ c ≠ 'e' ∧ c ≠ 'E'

def AllDigits (cs : List Char) : Prop := ∀ c ∈ cs, c.isDigit = true

/-- Digits with which a number may begin. -/
def WholeDigits (cs : List Char) : Prop := cs = ['0'] ∨ ∃ c ds, cs = c :: ds ∧ c ≠ '0'

theorem allDigits_toDigits (n : Nat) : AllDigits (Nat.toDigits 10 n) := fun _ hc =>
  Nat.isDigit_of_mem_toDigits (by decide) (by decide) hc

theorem allDigits_replicate_zero (n : Nat) : AllDigits (List.replicate n '0') := by
  intro c hc
  rw [List.eq_of_mem_replicate hc]
  decide

theorem AllDigits.append {cs ds : List Char} (hc : AllDigits cs) (hd : AllDigits ds) :
    AllDigits (cs ++ ds) := by
  intro c h
  rcases List.mem_append.mp h with h | h
  · exact hc c h
  · exact hd c h

/-- Only zero is written with a zero in front. -/
theorem toDigits_head_ne_zero {n : Nat} (hn : n ≠ 0) : ∃ c cs, Nat.toDigits 10 n = c :: cs ∧ c ≠ '0' := by
  induction n using Nat.strong_induction_on with
  | _ n ih =>
      rw [Nat.toDigits_eq_if (by decide)]
      split_ifs with hsmall
      · refine ⟨n.digitChar, [], rfl, ?_⟩
        rw [ne_eq, Nat.digitChar_eq_zero]
        exact hn
      · obtain ⟨c, cs, hcs, hc⟩ := ih (n / 10) (by omega) (by omega)
        exact ⟨c, cs ++ [(n % 10).digitChar], by rw [hcs]; rfl, hc⟩

theorem wholeDigits_toDigits (n : Nat) : WholeDigits (Nat.toDigits 10 n) := by
  by_cases hn : n = 0
  · rw [hn]
    exact .inl (Nat.toDigits_zero 10)
  · exact .inr (toDigits_head_ne_zero hn)

theorem Stops.of_cons {c : Char} {cs : List Char} (hdigit : c.isDigit = false) (hpoint : c ≠ '.')
    (he : c ≠ 'e') (hE : c ≠ 'E') : Stops (c :: cs) := by
  intro c' hc'
  cases hc'
  exact ⟨hdigit, hpoint, he, hE⟩

theorem takeDigits_append {ds rest : List Char} (hds : AllDigits ds)
    (hrest : ∀ c ∈ rest.head?, c.isDigit = false) : takeDigits (ds ++ rest) = (ds, rest) := by
  unfold takeDigits
  rw [List.takeWhile_append_of_pos hds, List.dropWhile_append_of_pos hds]
  cases rest with
  | nil => simp
  | cons c cs =>
      have hc := hrest c rfl
      rw [List.takeWhile_cons_of_neg (by simp [hc]), List.dropWhile_cons_of_neg (by simp [hc]),
        List.append_nil]

theorem readWhole_append {ds rest : List Char} (hds : AllDigits ds) (hwhole : WholeDigits ds)
    (hrest : ∀ c ∈ rest.head?, c.isDigit = false) : readWhole (ds ++ rest) = some (ds, rest) := by
  rcases hwhole with rfl | ⟨c, cs, rfl, hc⟩
  · rfl
  · rw [List.cons_append]
    unfold readWhole
    split
    · exact absurd (by assumption) (by simp_all)
    · rename_i c' cs' _ heq
      cases heq
      rw [if_pos (hds c List.mem_cons_self), ← List.cons_append, takeDigits_append hds hrest]
    · rename_i heq
      cases heq

theorem readFraction_of_stops {rest : List Char} (h : Stops rest) : readFraction rest = (none, rest) := by
  unfold readFraction
  split
  · exact absurd rfl (h '.' rfl).2.1
  · rfl

theorem readFraction_append {ds rest : List Char} (hds : AllDigits ds) (hne : ds ≠ [])
    (hrest : ∀ c ∈ rest.head?, c.isDigit = false) : readFraction ('.' :: (ds ++ rest)) = (some ds, rest) := by
  show (if (takeDigits (ds ++ rest)).1 = [] then _ else _) = _
  rw [takeDigits_append hds hrest, if_neg hne]

theorem readExponent_of_stops {rest : List Char} (h : Stops rest) : readExponent rest = (none, rest) := by
  cases rest with
  | nil => rfl
  | cons c cs =>
      obtain ⟨-, -, he, hE⟩ := h c rfl
      exact if_neg fun hexp => hexp.1.elim he hE

/-- The digits of an exponent, and its sign. -/
theorem readExponent_digits {ds rest : List Char} {e : Int} (hds : AllDigits ds) (hne : ds ≠ [])
    (hvalue : Nat.ofDigitChars 10 ds 0 = e.natAbs) (hrest : ∀ c ∈ rest.head?, c.isDigit = false) :
    readExponent ('e' :: (if e < 0 then '-' else '+') :: (ds ++ rest)) = (some e, rest) := by
  have hsign : readSign ((if e < 0 then '-' else '+') :: (ds ++ rest)) = (decide (e < 0), ds ++ rest) := by
    split_ifs with h
    · rw [decide_eq_true h]
      rfl
    · rw [decide_eq_false h]
      rfl
  unfold readExponent
  dsimp only
  rw [hsign, takeDigits_append hds hrest, if_pos ⟨.inl rfl, hne⟩, hvalue]
  by_cases h : e < 0
  · simp only [decide_eq_true h, if_true]
    exact congrArg (fun i => (some i, rest)) (by omega)
  · simp only [decide_eq_false h, Bool.false_eq_true, if_false]
    exact congrArg (fun i => (some i, rest)) (by omega)

theorem readExponent_exponentText (e : Int) {rest : List Char}
    (hrest : ∀ c ∈ rest.head?, c.isDigit = false) :
    readExponent ('e' :: (exponentText e ++ rest)) = (some e, rest) := by
  unfold exponentText
  rw [List.cons_append]
  by_cases hsmall : e.natAbs < 10
  · rw [if_pos hsmall]
    refine readExponent_digits ((allDigits_replicate_zero 1).append (allDigits_toDigits _))
      (List.cons_ne_nil _ _) ?_ hrest
    rw [Nat.ofDigitChars_cons]
    exact Nat.ofDigitChars_ten_toDigits
  · rw [if_neg hsmall]
    exact readExponent_digits (allDigits_toDigits _) Nat.toDigits_ne_nil Nat.ofDigitChars_ten_toDigits hrest

theorem readMinus_minusText (neg : Bool) {c : Char} (cs : List Char) (hc : c.isDigit = true) :
    readMinus (minusText neg ++ c :: cs) = (neg, c :: cs) := by
  cases neg with
  | true => rfl
  | false =>
      show readMinus (c :: cs) = _
      unfold readMinus
      split
      · rename_i heq
        cases heq
        cases hc
      · rfl

/-- The parts of a number that is written as a sign, whole digits, and what fraction and exponent make of
the rest. -/
theorem readNumber_append (neg : Bool) {whole tail rest : List Char} {fraction : Option (List Char)}
    {exponent : Option Int} {mid : List Char} (hwhole : AllDigits whole) (hlead : WholeDigits whole)
    (htail : ∀ c ∈ tail.head?, c.isDigit = false) (hfraction : readFraction tail = (fraction, mid))
    (hexponent : readExponent mid = (exponent, rest)) :
    readNumber (minusText neg ++ (whole ++ tail)) =
      some ({ neg := neg, whole := whole, fraction := fraction, exponent := exponent }, rest) := by
  have hminus : readMinus (minusText neg ++ (whole ++ tail)) = (neg, whole ++ tail) := by
    cases whole with
    | nil => rcases hlead with h | ⟨_, _, h, -⟩ <;> cases h
    | cons c cs => exact readMinus_minusText neg _ (hwhole c List.mem_cons_self)
  unfold readNumber
  simp only [hminus, readWhole_append hwhole hlead htail, hfraction, hexponent, bind, Option.bind]
  rfl

theorem readNumber_intText (n : Int) {rest : List Char} (h : Stops rest) :
    ∃ p, readNumber (intText n ++ rest) = some (p, rest) ∧ p.isInt = true ∧ p.toInt = n ∧
      p.whole = Nat.toDigits 10 n.natAbs := by
  refine ⟨⟨n < 0, Nat.toDigits 10 n.natAbs, none, none⟩, ?_, rfl, ?_, rfl⟩
  · unfold intText
    rw [List.append_assoc]
    exact readNumber_append _ (allDigits_toDigits _) (wholeDigits_toDigits _) (fun c hc => (h c hc).1)
      (readFraction_of_stops h) (readExponent_of_stops h)
  · unfold NumberParts.toInt
    dsimp only
    rw [Nat.ofDigitChars_ten_toDigits]
    by_cases hneg : n < 0
    · simp only [decide_eq_true hneg, if_true]
      omega
    · simp only [decide_eq_false hneg, Bool.false_eq_true, if_false]
      omega

/-- Whole digits, a point, and digits. -/
theorem readNumber_positional (neg : Bool) {whole fraction rest : List Char} (hwhole : AllDigits whole)
    (hlead : WholeDigits whole) (hfraction : AllDigits fraction) (hne : fraction ≠ []) (h : Stops rest) :
    readNumber (minusText neg ++ (whole ++ '.' :: (fraction ++ rest))) =
      some ({ neg := neg, whole := whole, fraction := some fraction }, rest) :=
  readNumber_append neg hwhole hlead (fun c hc => by cases hc; rfl)
    (readFraction_append hfraction hne fun c hc => (h c hc).1) (readExponent_of_stops h)

/-- One digit, perhaps a point and digits, and an exponent. -/
theorem readNumber_scientific (neg : Bool) {c : Char} {fraction rest : List Char} (e : Int)
    (hc : c.isDigit = true) (hlead : c ≠ '0') (hfraction : AllDigits fraction) (h : Stops rest) :
    readNumber (minusText neg ++
        (c :: (if fraction = [] then [] else '.' :: fraction) ++ 'e' :: (exponentText e ++ rest))) =
      some ({ neg := neg, whole := [c], fraction := if fraction = [] then none else some fraction,
              exponent := some e }, rest) := by
  have hwhole : AllDigits [c] := fun c' hc' => List.mem_singleton.mp hc' ▸ hc
  have hexp : ∀ c' ∈ ('e' :: (exponentText e ++ rest)).head?, c'.isDigit = false := fun c' hc' => by
    cases hc'
    rfl
  have hexponent := readExponent_exponentText e fun c hc => (h c hc).1
  by_cases hnil : fraction = []
  · rw [if_pos hnil, if_pos hnil]
    exact readNumber_append neg hwhole (.inr ⟨c, [], rfl, hlead⟩) hexp rfl hexponent
  · rw [if_neg hnil, if_neg hnil]
    refine readNumber_append neg hwhole (.inr ⟨c, [], rfl, hlead⟩) (fun c' hc' => ?_)
      (readFraction_append hfraction hnil hexp) hexponent
    cases hc'
    rfl

/-- A text that is read as a decimal, wherever it stands. -/
def ReadsAs (text : List Char) (d : Decimal) : Prop :=
  ∀ (neg : Bool) (rest : List Char), Stops rest →
    ∃ p, readNumber (minusText neg ++ (text ++ rest)) = some (p, rest) ∧ p.neg = neg ∧ p.isInt = false ∧
      p.toDecimal.toRat = d.toRat

variable {d : Decimal}

theorem readsAs_positional {whole fraction : List Char} (hwhole : AllDigits whole)
    (hlead : WholeDigits whole) (hfraction : AllDigits fraction) (hne : fraction ≠ [])
    (hvalue : (Nat.ofDigitChars 10 (whole ++ fraction) 0 : ℚ) * 10 ^ (-(fraction.length : Int)) = d.toRat) :
    ReadsAs (whole ++ '.' :: fraction) d := by
  intro neg rest h
  rw [List.append_assoc, List.cons_append]
  refine ⟨_, readNumber_positional neg hwhole hlead hfraction hne h, rfl, rfl, ?_⟩
  rw [← hvalue]
  show _ * (10 : ℚ) ^ ((0 : Int) - fraction.length) = _
  rw [zero_sub]
  rfl

/-- The digits, all of them after the point. -/
theorem readsAs_below (h : (Nat.toDigits 10 d.digits).length + d.exponent ≤ 0) :
    ReadsAs ('0' :: '.' :: (List.replicate (-((Nat.toDigits 10 d.digits).length + d.exponent)).toNat '0' ++
      Nat.toDigits 10 d.digits)) d := by
  refine readsAs_positional (allDigits_replicate_zero 1) (.inl rfl)
    ((allDigits_replicate_zero _).append (allDigits_toDigits _))
    (List.append_ne_nil_of_right_ne_nil _ Nat.toDigits_ne_nil) ?_
  have hexp : -(((List.replicate (-((Nat.toDigits 10 d.digits).length + d.exponent)).toNat '0' ++
      Nat.toDigits 10 d.digits).length : Nat) : Int) = d.exponent := by
    rw [List.length_append, List.length_replicate]
    omega
  rw [hexp, Nat.ofDigitChars_append, Nat.ofDigitChars_append, Nat.ofDigitChars_replicate_zero,
    Nat.ofDigitChars_replicate_zero, Nat.mul_zero, Nat.ofDigitChars_ten_toDigits]
  rfl

/-- The digits, all of them before the point. -/
theorem readsAs_above (hzero : d.digits ≠ 0) (h : 0 ≤ d.exponent) :
    ReadsAs (Nat.toDigits 10 d.digits ++ (List.replicate d.exponent.toNat '0' ++ ['.', '0'])) d := by
  obtain ⟨c, cs, hcons, hlead⟩ := toDigits_head_ne_zero hzero
  obtain ⟨e, he⟩ := Int.eq_ofNat_of_zero_le h
  rw [← List.append_assoc]
  refine readsAs_positional ((allDigits_toDigits _).append (allDigits_replicate_zero _))
    (.inr ⟨c, cs ++ List.replicate d.exponent.toNat '0', ?_, hlead⟩) (allDigits_replicate_zero 1)
    (List.cons_ne_nil _ _) ?_
  · rw [hcons, List.cons_append]
  · have hlast (n : Nat) : Nat.ofDigitChars 10 ['0'] n = 10 * n := Nat.ofDigitChars_cons
    unfold Decimal.toRat
    rw [Nat.ofDigitChars_append, Nat.ofDigitChars_append, Nat.ofDigitChars_ten_toDigits,
      Nat.ofDigitChars_replicate_zero, hlast, he, Int.toNat_natCast, zpow_natCast]
    push_cast
    simp only [List.length_singleton, Nat.cast_one, zpow_neg, zpow_one]
    field_simp

/-- The point among the digits. -/
theorem readsAs_among (hlow : 0 < (Nat.toDigits 10 d.digits).length + d.exponent) (hhigh : d.exponent < 0)
    (hzero : d.digits ≠ 0) :
    ReadsAs ((Nat.toDigits 10 d.digits).take ((Nat.toDigits 10 d.digits).length + d.exponent).toNat ++
      '.' :: (Nat.toDigits 10 d.digits).drop ((Nat.toDigits 10 d.digits).length + d.exponent).toNat) d := by
  obtain ⟨c, cs, hcons, hlead⟩ := toDigits_head_ne_zero hzero
  have hdigits := allDigits_toDigits d.digits
  obtain ⟨k, hk⟩ : ∃ k, ((Nat.toDigits 10 d.digits).length + d.exponent).toNat = k + 1 :=
    Nat.exists_eq_succ_of_ne_zero (by omega)
  refine readsAs_positional (fun c hc => hdigits c (List.mem_of_mem_take hc))
    (.inr ⟨c, cs.take k, ?_, hlead⟩) (fun c hc => hdigits c (List.mem_of_mem_drop hc)) ?_ ?_
  · rw [hk, hcons, List.take_succ_cons]
  · rw [ne_eq, List.drop_eq_nil_iff]
    omega
  · have hexp : -(((Nat.toDigits 10 d.digits).drop
        ((Nat.toDigits 10 d.digits).length + d.exponent).toNat).length : Int) = d.exponent := by
      rw [List.length_drop]
      omega
    rw [hexp, List.take_append_drop, Nat.ofDigitChars_ten_toDigits]
    rfl

/-- One digit before the point, and an exponent. -/
theorem readsAs_scientific {c : Char} {cs : List Char} (hcons : Nat.toDigits 10 d.digits = c :: cs)
    (hlead : c ≠ '0') :
    ReadsAs (c :: (if cs = [] then [] else '.' :: cs) ++
      'e' :: exponentText ((Nat.toDigits 10 d.digits).length + d.exponent - 1)) d := by
  intro neg rest h
  have hdigits := allDigits_toDigits d.digits
  rw [hcons] at hdigits
  rw [List.append_assoc, List.cons_append]
  refine ⟨_, readNumber_scientific neg _ (hdigits c List.mem_cons_self) hlead
    (fun c' hc' => hdigits c' (List.mem_cons_of_mem c hc')) h, rfl, ?_, ?_⟩
  · exact Bool.and_false _
  · have hfraction : (if cs = [] then none else some cs).getD [] = cs := by
      split_ifs with hnil
      · exact hnil.symm
      · rfl
    have hexp : ((Nat.toDigits 10 d.digits).length + d.exponent - 1 : Int) - cs.length = d.exponent := by
      rw [hcons, List.length_cons]
      omega
    unfold NumberParts.toDecimal Decimal.toRat
    dsimp only
    rw [hfraction, Option.getD_some, hexp, List.singleton_append, ← hcons, Nat.ofDigitChars_ten_toDigits]

/-- What a decimal is written as denotes the decimal. -/
theorem readNumber_decimalText (d : Decimal) : ReadsAs (decimalText d) d := by
  unfold decimalText
  by_cases hzero : d.digits = 0
  · rw [if_pos hzero]
    refine readsAs_positional (allDigits_replicate_zero 1) (.inl rfl) (allDigits_replicate_zero 1)
      (List.cons_ne_nil _ _) ?_
    unfold Decimal.toRat
    rw [hzero]
    show ((0 : Nat) : ℚ) * _ = _
    rw [Nat.cast_zero, zero_mul, zero_mul]
  · rw [if_neg hzero]
    dsimp only
    split_ifs with hnear hsmall hlarge
    · exact readsAs_below hsmall
    · exact readsAs_above hzero (by omega)
    · exact readsAs_among (by omega) (by omega) hzero
    · obtain ⟨c, cs, hcons, hlead⟩ := toDigits_head_ne_zero hzero
      have hread := readsAs_scientific hcons hlead
      rw [hcons] at hread ⊢
      cases cs with
      | nil => exact hread
      | cons c' cs => exact hread

/-- It begins with a digit. -/
theorem decimalText_begins (d : Decimal) : ∃ c cs, decimalText d = c :: cs ∧ c.isDigit = true := by
  unfold decimalText
  split_ifs with hzero
  · exact ⟨_, _, rfl, by decide⟩
  · obtain ⟨c, cs, hcons, -⟩ := toDigits_head_ne_zero hzero
    have hc : c.isDigit = true := allDigits_toDigits d.digits c (by rw [hcons]; exact List.mem_cons_self)
    dsimp only
    split_ifs with hnear hsmall hlarge
    · exact ⟨_, _, rfl, by decide⟩
    · exact ⟨c, _, by rw [hcons, List.cons_append], hc⟩
    · obtain ⟨k, hk⟩ : ∃ k, ((Nat.toDigits 10 d.digits).length + d.exponent).toNat = k + 1 :=
        Nat.exists_eq_succ_of_ne_zero (by omega)
      exact ⟨c, _, by rw [hk, hcons, List.take_succ_cons, List.cons_append], hc⟩
    · rw [hcons]
      cases cs with
      | nil => exact ⟨c, _, rfl, hc⟩
      | cons c' cs => exact ⟨c, _, rfl, hc⟩

/-! ## The characters of numbers -/

/-- A character of a number's text. -/
def NumeralChar (c : Char) : Prop := c.isDigit = true ∨ c = '-' ∨ c = '+' ∨ c = '.' ∨ c = 'e'

def Numeral (cs : List Char) : Prop := ∀ c ∈ cs, NumeralChar c

theorem AllDigits.numeral {cs : List Char} (h : AllDigits cs) : Numeral cs := fun c hc => .inl (h c hc)

theorem Numeral.append {cs ds : List Char} (hc : Numeral cs) (hd : Numeral ds) : Numeral (cs ++ ds) := by
  intro c h
  rcases List.mem_append.mp h with h | h
  · exact hc c h
  · exact hd c h

theorem Numeral.cons {c : Char} {cs : List Char} (hc : NumeralChar c) (hcs : Numeral cs) : Numeral (c :: cs) :=
  List.forall_mem_cons.mpr ⟨hc, hcs⟩

theorem Numeral.minusText (neg : Bool) {cs : List Char} (h : Numeral cs) :
    Numeral (Ramulator.Lib.minusText neg ++ cs) := by
  cases neg with
  | true => exact .cons (.inr (.inl rfl)) h
  | false => exact h

theorem numeral_intText (n : Int) : Numeral (intText n) := (allDigits_toDigits n.natAbs).numeral.minusText _

theorem numeral_exponentText (e : Int) : Numeral (exponentText e) := by
  have hdigits := (allDigits_toDigits e.natAbs).numeral
  unfold exponentText
  refine .cons ?_ ?_
  · split_ifs
    · exact .inr (.inl rfl)
    · exact .inr (.inr (.inl rfl))
  · split_ifs
    · exact .cons (.inl rfl) hdigits
    · exact hdigits

theorem numeral_decimalText (d : Decimal) : Numeral (decimalText d) := by
  have hdigits := (allDigits_toDigits d.digits).numeral
  have hzeros (n : Nat) : Numeral (List.replicate n '0') := (allDigits_replicate_zero n).numeral
  have hpoint : NumeralChar '.' := .inr (.inr (.inr (.inl rfl)))
  have he : NumeralChar 'e' := .inr (.inr (.inr (.inr rfl)))
  unfold decimalText
  split_ifs with hzero
  · exact .cons (.inl rfl) (.cons hpoint (.cons (.inl rfl) nofun))
  · dsimp only
    split_ifs with hnear hsmall hlarge
    · exact .cons (.inl rfl) (.cons hpoint ((hzeros _).append hdigits))
    · exact hdigits.append ((hzeros _).append (.cons hpoint (.cons (.inl rfl) nofun)))
    · exact Numeral.append (fun c hc => hdigits c (List.mem_of_mem_take hc))
        (.cons hpoint fun c hc => hdigits c (List.mem_of_mem_drop hc))
    · split
      · next c heq =>
        rw [heq] at hdigits
        exact .cons (hdigits c List.mem_cons_self) (.cons he (numeral_exponentText _))
      · next c cs _ heq =>
        rw [heq] at hdigits
        obtain ⟨hc, hcs⟩ := List.forall_mem_cons.mp hdigits
        exact .cons hc (.cons hpoint (Numeral.append hcs (.cons he (numeral_exponentText _))))
      · exact nofun

end Ramulator.Lib
