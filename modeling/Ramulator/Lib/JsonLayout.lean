/-
# Ramulator.Lib.JsonLayout — indented texts, what can be written, and what a text holds outside its strings.

`indented` is the layout of `json.dumps` with `indent=2`. A value has a text exactly when its numbers have
one (`layOut_isSome_iff`): a float that is not finite has none, and neither has a long integer. What is read
has no long integers (`loads_shortInts`), but it may have a float that is not finite, for a numeral may be
beyond the largest double.

The words `NaN`, `Infinity` and `-Infinity` are the only text with an `N` or an `I` outside of strings, so
a reader that refuses them (`loadsStrict`) is one that looks for these letters first.
-/
import Ramulator.Lib.Json
import Mathlib.Data.Nat.Digits.Defs

namespace Ramulator.Lib

open FloatFormat

namespace Json

/-! ## The indented layout -/

/-- Two spaces for each depth, and a space after a colon. -/
def indented : Layout where
  before depth := '\n' :: List.replicate (2 * depth) ' '
  afterColon := [' ']
  before_space depth c hc := by
    rcases List.mem_cons.mp hc with rfl | hc
    · rfl
    · rw [(List.mem_replicate.mp hc).2]
      rfl
  afterColon_space c hc := by
    rw [List.mem_singleton.mp hc]
    rfl

/-- `json.dumps` with sorted keys and an indent of two, without numbers that are not finite. -/
def dumpsIndented (v : Json) : Option (List Char) := layOut indented (sort v) 0

/-- Members of different names; two of one name are refused. -/
def uniqueHook : Hook := fun ms => if (ms.map Prod.fst).Nodup then some ms else none

theorem uniqueHook_keeps : uniqueHook.Keeps := fun _ h => if_pos h

theorem uniqueHook_eq_some {ms ms' : List (String × Json)} (h : uniqueHook ms = some ms') :
    ms' = ms ∧ (ms.map Prod.fst).Nodup := by
  unfold uniqueHook at h
  split_ifs at h with hnodup
  exact ⟨(Option.some_inj.mp h).symm, hnodup⟩

/-- The sorted value is what its indented text says. -/
theorem loads_dumpsIndented {hook : Hook} (hhook : hook.Keeps) {v : Json} {t : List Char}
    (h : dumpsIndented v = some t) (hd : DistinctKeys v) : loads hook (t ++ ['\n']) = some (sort v) :=
  loads_layOut hhook h (distinctKeys_sort hd) fun c hc => by
    rw [List.mem_singleton.mp hc]
    rfl

theorem dumpsIndented_sort (v : Json) : dumpsIndented (sort v) = dumpsIndented v := by
  unfold dumpsIndented
  rw [sort_sort]

/-! ## A property of the scalars of a value -/

mutual

/-- Each scalar in a value satisfies a property. -/
def Each (P : Json → Prop) : Json → Prop
  | .arr vs => EachItem P vs
  | .obj ms => EachMember P ms
  | v => P v

def EachItem (P : Json → Prop) : List Json → Prop
  | [] => True
  | v :: vs => Each P v ∧ EachItem P vs

def EachMember (P : Json → Prop) : List (String × Json) → Prop
  | [] => True
  | m :: ms => Each P m.2 ∧ EachMember P ms

end

variable {P P' : Json → Prop}

theorem eachItem_iff {vs : List Json} : EachItem P vs ↔ ∀ v ∈ vs, Each P v := by
  induction vs with
  | nil => exact ⟨fun _ => List.forall_mem_nil _, fun _ => trivial⟩
  | cons v vs ih => rw [EachItem, ih, List.forall_mem_cons]

theorem eachMember_iff {ms : List (String × Json)} : EachMember P ms ↔ ∀ m ∈ ms, Each P m.2 := by
  induction ms with
  | nil => exact ⟨fun _ => List.forall_mem_nil _, fun _ => trivial⟩
  | cons m ms ih => rw [EachMember, ih, List.forall_mem_cons]

mutual

theorem each_and : ∀ v : Json, Each (fun w => P w ∧ P' w) v ↔ Each P v ∧ Each P' v
  | .null => Iff.rfl
  | .bool _ => Iff.rfl
  | .int _ => Iff.rfl
  | .float _ => Iff.rfl
  | .str _ => Iff.rfl
  | .arr vs => eachItem_and vs
  | .obj ms => eachMember_and ms

theorem eachItem_and : ∀ vs : List Json, EachItem (fun w => P w ∧ P' w) vs ↔ EachItem P vs ∧ EachItem P' vs
  | [] => by simp only [EachItem, and_self]
  | v :: vs => by
      rw [EachItem, EachItem, EachItem, each_and v, eachItem_and vs]
      exact and_and_and_comm

theorem eachMember_and : ∀ ms : List (String × Json),
    EachMember (fun w => P w ∧ P' w) ms ↔ EachMember P ms ∧ EachMember P' ms
  | [] => by simp only [EachMember, and_self]
  | (_, v) :: ms => by
      rw [EachMember, EachMember, EachMember, each_and v, eachMember_and ms]
      exact and_and_and_comm

end

mutual

/-- The order of members does not matter. -/
theorem each_sort : ∀ v : Json, Each P (sort v) ↔ Each P v
  | .null => Iff.rfl
  | .bool _ => Iff.rfl
  | .int _ => Iff.rfl
  | .float _ => Iff.rfl
  | .str _ => Iff.rfl
  | .arr vs => eachItem_sort vs
  | .obj ms => by
      have hperm := List.perm_insertionSort MemberLe (sortMembers ms)
      have hmembers := eachMember_sort ms
      rw [eachMember_iff] at hmembers
      show EachMember P ((sortMembers ms).insertionSort MemberLe) ↔ EachMember P ms
      rw [eachMember_iff, ← hmembers]
      exact forall_congr' fun m => imp_congr_left hperm.mem_iff

theorem eachItem_sort : ∀ vs : List Json, EachItem P (sortItems vs) ↔ EachItem P vs
  | [] => Iff.rfl
  | v :: vs => and_congr (each_sort v) (eachItem_sort vs)

theorem eachMember_sort : ∀ ms : List (String × Json), EachMember P (sortMembers ms) ↔ EachMember P ms
  | [] => Iff.rfl
  | (_, v) :: ms => and_congr (each_sort v) (eachMember_sort ms)

end

/-! ## Which values have a text -/

/-- An integer is not too long to be written. -/
def ShortInt : Json → Prop
  | .int n => (Nat.toDigits 10 n.natAbs).length ≤ maxIntDigits
  | _ => True

/-- A float is a finite number. -/
def FiniteFloat : Json → Prop
  | .float x => ∃ y, x = .finite y
  | _ => True

/-- Every number of a value is finite. -/
def FiniteNumbers (v : Json) : Prop := Each FiniteFloat v

theorem encodeInt_isSome_iff {n : Int} : (encodeInt n).isSome ↔ ShortInt (.int n) := by
  unfold encodeInt
  split_ifs with h
  · exact iff_of_true rfl h
  · exact iff_of_false (by simp) h

theorem encodeFloat_isSome_iff {x : binary64.Value} : (encodeFloat x).isSome ↔ FiniteFloat (.float x) := by
  cases x with
  | finite x => exact iff_of_true rfl ⟨x, rfl⟩
  | infinite neg =>
      refine iff_of_false (by simp [encodeFloat]) ?_
      rintro ⟨y, hy⟩
      cases hy
  | nan =>
      refine iff_of_false (by simp [encodeFloat]) ?_
      rintro ⟨y, hy⟩
      cases hy

/-- Two texts are put together when there are two. -/
theorem bind_bind_isSome {x y : Option (List Char)} {f : List Char → List Char → List Char} :
    (do
      let a ← x
      let b ← y
      pure (f a b)).isSome ↔ x.isSome ∧ y.isSome := by
  cases x with
  | none => simp
  | some a =>
      cases y with
      | none => simp
      | some b => simp

variable {layout : Layout}

mutual

theorem layOut_isSome_iff_each : ∀ (v : Json) (depth : Nat),
    (layOut layout v depth).isSome ↔ Each (fun w => FiniteFloat w ∧ ShortInt w) v
  | .null, _ => iff_of_true rfl ⟨trivial, trivial⟩
  | .bool _, _ => iff_of_true rfl ⟨trivial, trivial⟩
  | .int n, _ => encodeInt_isSome_iff.trans ⟨fun h => ⟨trivial, h⟩, And.right⟩
  | .float x, _ => encodeFloat_isSome_iff.trans ⟨fun h => ⟨h, trivial⟩, And.left⟩
  | .str _, _ => iff_of_true rfl ⟨trivial, trivial⟩
  | .arr [], _ => iff_of_true rfl trivial
  | .arr (v :: vs), depth => by
      rw [layOut, bind_bind_isSome, layOut_isSome_iff_each v, layOutItems_isSome_iff_each vs]
      rfl
  | .obj [], _ => iff_of_true rfl trivial
  | .obj ((k, v) :: ms), depth => by
      rw [layOut, bind_bind_isSome, layOut_isSome_iff_each v, layOutMembers_isSome_iff_each ms]
      rfl

theorem layOutItems_isSome_iff_each : ∀ (vs : List Json) (depth : Nat),
    (layOutItems layout vs depth).isSome ↔ EachItem (fun w => FiniteFloat w ∧ ShortInt w) vs
  | [], _ => iff_of_true rfl trivial
  | v :: vs, depth => by
      rw [layOutItems, bind_bind_isSome, layOut_isSome_iff_each v, layOutItems_isSome_iff_each vs]
      rfl

theorem layOutMembers_isSome_iff_each : ∀ (ms : List (String × Json)) (depth : Nat),
    (layOutMembers layout ms depth).isSome ↔ EachMember (fun w => FiniteFloat w ∧ ShortInt w) ms
  | [], _ => iff_of_true rfl trivial
  | (k, v) :: ms, depth => by
      rw [layOutMembers, bind_bind_isSome, layOut_isSome_iff_each v, layOutMembers_isSome_iff_each ms]
      rfl

end

/-- A value has an indented text exactly when its numbers are finite and not too long. -/
theorem dumpsIndented_isSome_iff {v : Json} : (dumpsIndented v).isSome ↔ FiniteNumbers v ∧ Each ShortInt v := by
  unfold dumpsIndented FiniteNumbers
  rw [layOut_isSome_iff_each, each_sort, each_and]

/-! ## What is read -/

/-- A property that the values have that are read from parts that have it. -/
structure ReadsOnly (hook : Hook) (Q : Json → Prop) : Prop where
  str : ∀ s, Q (.str s)
  scalar : ∀ {cs v rest}, readScalar cs = some (v, rest) → Q v
  arr : ∀ vs, (∀ v ∈ vs, Q v) → Q (.arr vs)
  obj : ∀ {ms ms'}, hook ms = some ms' → (∀ m ∈ ms, Q m.2) → Q (.obj ms')

/-- A computation in two parts that has a result. -/
theorem option_bind_eq_some {α β : Type} {x : Option α} {f : α → Option β} {b : β} (h : x >>= f = some b) :
    ∃ a, x = some a ∧ f a = some b := Option.bind_eq_some_iff.mp h

variable {hook : Hook} {Q : Json → Prop}

/-- Reading takes a unit of fuel for each call, so the induction is on the fuel, for values, items and members
at once. -/
theorem ReadsOnly.read (hQ : ReadsOnly hook Q) (fuel : Nat) :
    (∀ {cs v rest}, readValue hook fuel cs = some (v, rest) → Q v) ∧
      (∀ {cs vs rest}, readItems hook fuel cs = some (vs, rest) → ∀ v ∈ vs, Q v) ∧
      (∀ {cs ms rest}, readMembers hook fuel cs = some (ms, rest) → ∀ m ∈ ms, Q m.2) := by
  induction fuel with
  | zero =>
      refine ⟨?_, ?_, ?_⟩
      · intro cs v rest h
        cases h
      · intro cs vs rest h
        cases h
      · intro cs ms rest h
        cases h
  | succ fuel ih =>
      obtain ⟨hvalue, hitems, hmembers⟩ := ih
      refine ⟨?_, ?_, ?_⟩
      · intro cs v rest h
        unfold readValue at h
        split at h
        · cases h
        · obtain ⟨⟨text, rest'⟩, -, h⟩ := option_bind_eq_some h
          cases h
          exact hQ.str text
        · cases ‹fuel + 1 = _ + 1›
          split at h
          · cases h
            exact hQ.arr [] (List.forall_mem_nil _)
          · obtain ⟨⟨vs, rest'⟩, hvs, h⟩ := option_bind_eq_some h
            cases h
            exact hQ.arr vs (hitems hvs)
        · cases ‹fuel + 1 = _ + 1›
          split at h
          · obtain ⟨ms', hms', h⟩ := option_bind_eq_some h
            cases h
            exact hQ.obj hms' (List.forall_mem_nil _)
          · obtain ⟨⟨ms, rest'⟩, hms, h⟩ := option_bind_eq_some h
            obtain ⟨ms', hms', h⟩ := option_bind_eq_some h
            cases h
            exact hQ.obj hms' (hmembers hms)
        · exact hQ.scalar h
      · intro cs vs rest h
        rw [readItems] at h
        obtain ⟨⟨v, cs'⟩, hv, h⟩ := option_bind_eq_some h
        dsimp only at h
        split at h
        · cases h
          exact List.forall_mem_singleton.mpr (hvalue hv)
        · obtain ⟨⟨vs', rest'⟩, hvs, h⟩ := option_bind_eq_some h
          cases h
          exact List.forall_mem_cons.mpr ⟨hvalue hv, hitems hvs⟩
        · cases h
      · intro cs ms rest h
        unfold readMembers at h
        split at h
        · cases h
        · cases ‹fuel + 1 = _ + 1›
          obtain ⟨⟨k, cs'⟩, -, h⟩ := option_bind_eq_some h
          dsimp only at h
          split at h
          · obtain ⟨⟨v, cs'⟩, hv, h⟩ := option_bind_eq_some h
            dsimp only at h
            split at h
            · cases h
              exact List.forall_mem_singleton.mpr (hvalue hv)
            · obtain ⟨⟨ms', rest'⟩, hms, h⟩ := option_bind_eq_some h
              cases h
              exact List.forall_mem_cons.mpr ⟨hvalue hv, hmembers hms⟩
            · cases h
          · cases h
        · cases h

theorem ReadsOnly.loads (hQ : ReadsOnly hook Q) {cs : List Char} {v : Json} (h : loads hook cs = some v) : Q v := by
  unfold Json.loads at h
  split at h
  · rename_i w rest hread
    split_ifs at h
    cases h
    exact (hQ.read _).1 hread
  · cases h

theorem ofDigitChars_lt {cs : List Char} (h : AllDigits cs) (n : Nat) :
    Nat.ofDigitChars 10 cs n < (n + 1) * 10 ^ cs.length := by
  induction cs generalizing n with
  | nil => simp [Nat.ofDigitChars_nil]
  | cons c cs ih =>
      have hdigit : c.toNat - '0'.toNat < 10 := by
        have hc := h c List.mem_cons_self
        have hle : c.toNat ≤ 57 := (Char.isDigit_iff_toNat.mp hc).2
        have hzero : '0'.toNat = 48 := rfl
        omega
      have hrest := ih (fun d hd => h d (List.mem_cons_of_mem _ hd)) (10 * n + (c.toNat - '0'.toNat))
      rw [Nat.ofDigitChars_cons, List.length_cons, Nat.pow_succ']
      calc Nat.ofDigitChars 10 cs (10 * n + (c.toNat - '0'.toNat))
          < (10 * n + (c.toNat - '0'.toNat) + 1) * 10 ^ cs.length := hrest
        _ ≤ (10 * (n + 1)) * 10 ^ cs.length := Nat.mul_le_mul_right _ (by omega)
        _ = (n + 1) * (10 * 10 ^ cs.length) := by ring

/-- The whole digits of a number that is read are digits, and at least one. -/
theorem readNumber_whole {cs rest : List Char} {p : NumberParts} (h : readNumber cs = some (p, rest)) :
    AllDigits p.whole ∧ p.whole ≠ [] := by
  unfold readNumber at h
  obtain ⟨⟨whole, cs'⟩, hwhole, h⟩ := option_bind_eq_some h
  cases h
  unfold readWhole at hwhole
  split at hwhole
  · cases hwhole
    exact ⟨List.forall_mem_singleton.mpr rfl, List.cons_ne_nil _ _⟩
  · rename_i c cs'' _
    split_ifs at hwhole with hc
    cases hwhole
    refine ⟨fun d hd => List.all_eq_true.mp (List.all_takeWhile ..) d hd, ?_⟩
    rw [List.takeWhile_cons_of_pos hc]
    exact List.cons_ne_nil _ _
  · cases hwhole

theorem readNumberValue_shortInt {cs rest : List Char} {v : Json} (h : readNumberValue cs = some (v, rest)) :
    Each ShortInt v := by
  unfold readNumberValue at h
  obtain ⟨⟨p, cs'⟩, hp, h⟩ := option_bind_eq_some h
  dsimp only at h
  obtain ⟨hdigits, hne⟩ := readNumber_whole hp
  split_ifs at h with hint hlength
  · cases h
    have habs : p.toInt.natAbs = Nat.ofDigitChars 10 p.whole 0 := by
      unfold NumberParts.toInt
      dsimp only
      split_ifs
      · rw [Int.natAbs_neg, Int.natAbs_natCast]
      · rw [Int.natAbs_natCast]
    have hlt := ofDigitChars_lt hdigits 0
    rw [Nat.zero_add, Nat.one_mul, ← habs] at hlt
    exact Nat.le_trans (Nat.toDigits_length 10 _ _ (List.length_pos_iff.mpr hne) hlt) hlength
  · cases h
    trivial

theorem readWord_eq_some {word : String} {v w : Json} {cs rest : List Char}
    (h : readWord word v cs = some (w, rest)) : w = v := by
  unfold readWord at h
  split_ifs at h
  cases h
  rfl

theorem readScalar_shortInt {cs rest : List Char} {v : Json} (h : readScalar cs = some (v, rest)) :
    Each ShortInt v := by
  unfold readScalar at h
  simp only [Option.orElse_eq_some] at h
  rcases h with h | ⟨-, h | ⟨-, h | ⟨-, h | ⟨-, h | ⟨-, h | ⟨-, h⟩⟩⟩⟩⟩⟩
  · cases readWord_eq_some h
    trivial
  · cases readWord_eq_some h
    trivial
  · cases readWord_eq_some h
    trivial
  · cases readWord_eq_some h
    trivial
  · cases readWord_eq_some h
    trivial
  · cases readWord_eq_some h
    trivial
  · exact readNumberValue_shortInt h

/-- A text has no integer that is too long to be written. -/
theorem loads_shortInts {cs : List Char} {v : Json} (h : loads uniqueHook cs = some v) : Each ShortInt v := by
  have hreads : ReadsOnly uniqueHook (Each ShortInt) := {
    str := fun _ => trivial
    scalar := readScalar_shortInt
    arr := fun vs hvs => eachItem_iff.mpr hvs
    obj := fun {ms ms'} h hms => by
      obtain ⟨rfl, -⟩ := uniqueHook_eq_some h
      exact eachMember_iff.mpr hms
  }
  exact hreads.loads h

/-! ## Texts by their parts -/

/-- A property of texts that a text has which is made of parts that have it. -/
structure Lexical (P : List Char → Prop) : Prop where
  append : ∀ {s t}, P s → P t → P (s ++ t)
  word : ∀ w ∈ ["null", "true", "false"], P w.toList
  mark : ∀ c ∈ ['[', ']', '{', '}', ':', ','], P [c]
  space : ∀ cs, (∀ c ∈ cs, isSpace c = true) → P cs
  numeral : ∀ cs, Numeral cs → P cs
  string : ∀ s, P (stringText s)

variable {P : List Char → Prop}

theorem Lexical.cons (hP : Lexical P) {c : Char} {cs : List Char} (hc : c ∈ ['[', ']', '{', '}', ':', ','])
    (hcs : P cs) : P (c :: cs) := hP.append (hP.mark c hc) hcs

theorem Lexical.member (hP : Lexical P) (k : String) {t : List Char} (ht : P t) :
    P (stringText k ++ ':' :: (layout.afterColon ++ t)) :=
  hP.append (hP.string k) <| hP.cons (by decide) <| hP.append (hP.space _ layout.afterColon_space) ht

theorem numeral_encodeInt {n : Int} {t : List Char} (h : encodeInt n = some t) : Numeral t := by
  unfold encodeInt at h
  split_ifs at h
  cases h
  exact numeral_intText n

theorem numeral_encodeFloat {x : binary64.Value} {t : List Char} (h : encodeFloat x = some t) : Numeral t := by
  cases x with
  | finite x =>
      cases h
      exact (numeral_decimalText _).minusText _
  | infinite neg => cases h
  | nan => cases h

mutual

theorem Lexical.layOut (hP : Lexical P) : ∀ (v : Json) {depth : Nat} {t : List Char},
    Json.layOut layout v depth = some t → P t
  | .null, _, _, h => by
      cases h
      exact hP.word "null" (by decide)
  | .bool b, _, _, h => by
      cases h
      cases b with
      | true => exact hP.word "true" (by decide)
      | false => exact hP.word "false" (by decide)
  | .int n, _, _, h => hP.numeral _ (numeral_encodeInt h)
  | .float x, _, _, h => hP.numeral _ (numeral_encodeFloat h)
  | .str s, _, _, h => by
      cases h
      exact hP.string s
  | .arr [], _, _, h => by
      cases h
      exact hP.cons (by decide) (hP.mark _ (by decide))
  | .arr (v :: vs), depth, _, h => by
      obtain ⟨tv, ts, hv, hvs, rfl⟩ := layOut_arr_eq_some h
      exact hP.cons (by decide) <| hP.append (hP.space _ (layout.before_space _)) <|
        hP.append (hP.layOut v hv) (hP.layOutItems vs hvs)
  | .obj [], _, _, h => by
      cases h
      exact hP.cons (by decide) (hP.mark _ (by decide))
  | .obj ((k, v) :: ms), depth, _, h => by
      obtain ⟨tv, ts, hv, hms, rfl⟩ := layOut_obj_eq_some h
      exact hP.cons (by decide) <| hP.append (hP.space _ (layout.before_space _)) <|
        hP.member k <| hP.append (hP.layOut v hv) (hP.layOutMembers ms hms)

theorem Lexical.layOutItems (hP : Lexical P) : ∀ (vs : List Json) {depth : Nat} {t : List Char},
    Json.layOutItems layout vs depth = some t → P t
  | [], depth, _, h => by
      cases h
      exact hP.append (hP.space _ (layout.before_space depth)) (hP.mark _ (by decide))
  | v :: vs, depth, _, h => by
      obtain ⟨tv, ts, hv, hvs, rfl⟩ := layOutItems_eq_some h
      exact hP.cons (by decide) <| hP.append (hP.space _ (layout.before_space _)) <|
        hP.append (hP.layOut v hv) (hP.layOutItems vs hvs)

theorem Lexical.layOutMembers (hP : Lexical P) : ∀ (ms : List (String × Json)) {depth : Nat} {t : List Char},
    Json.layOutMembers layout ms depth = some t → P t
  | [], depth, _, h => by
      cases h
      exact hP.append (hP.space _ (layout.before_space depth)) (hP.mark _ (by decide))
  | (k, v) :: ms, depth, _, h => by
      obtain ⟨tv, ts, hv, hms, rfl⟩ := layOutMembers_eq_some h
      exact hP.cons (by decide) <| hP.append (hP.space _ (layout.before_space _)) <|
        hP.member k <| hP.append (hP.layOut v hv) (hP.layOutMembers ms hms)

end

/-! ### ASCII -/

/-- A character of ASCII that is not the null character. -/
def IsAscii (c : Char) : Prop := 0 < c.toNat ∧ c.toNat < 128

instance : DecidablePred IsAscii := fun c => inferInstanceAs (Decidable (0 < c.toNat ∧ c.toNat < 128))

theorem isAscii_digitChar {n : Nat} (h : n < 0x10) : IsAscii n.digitChar := by
  revert h
  revert n
  decide

theorem isAscii_escapeUnit (n : Nat) : ∀ c ∈ escapeUnit n, IsAscii c := by
  have hdigit (m : Nat) : IsAscii (m % 0x10).digitChar := isAscii_digitChar (Nat.mod_lt _ (by decide))
  unfold escapeUnit
  simp only [List.forall_mem_cons, hdigit, true_and]
  exact ⟨by decide, by decide, List.forall_mem_nil _⟩

theorem isAscii_shortEscape {c letter : Char} (h : shortEscape c = some letter) : IsAscii letter := by
  unfold shortEscape at h
  split_ifs at h <;>
    cases h <;>
      decide

theorem isAscii_escapeChar (c : Char) : ∀ d ∈ escapeChar c, IsAscii d := by
  unfold escapeChar
  cases hshort : shortEscape c with
  | some letter =>
      exact List.forall_mem_cons.mpr ⟨by decide, List.forall_mem_singleton.mpr (isAscii_shortEscape hshort)⟩
  | none =>
      dsimp only
      split_ifs with hplain
      · have hlow : 32 ≤ c.toNat := hplain.1
        have hhigh : c.toNat ≤ 126 := hplain.2
        exact List.forall_mem_singleton.mpr ⟨by omega, by omega⟩
      · intro d hd
        obtain ⟨n, -, hn⟩ := List.mem_flatMap.mp hd
        exact isAscii_escapeUnit n d hn

theorem isAscii_of_isSpace {c : Char} (h : isSpace c = true) : IsAscii c := by
  have hc : c = ' ' ∨ c = '\t' ∨ c = '\n' ∨ c = '\r' := by simpa [isSpace, or_assoc] using h
  rcases hc with rfl | rfl | rfl | rfl <;> decide

theorem isAscii_of_numeralChar {c : Char} (h : NumeralChar c) : IsAscii c := by
  rcases h with h | rfl | rfl | rfl | rfl
  · obtain ⟨hlow, hhigh⟩ := Char.isDigit_iff_toNat.mp h
    have hzero : '0'.toNat = 48 := rfl
    have hnine : '9'.toNat = 57 := rfl
    exact ⟨by omega, by omega⟩
  all_goals decide

theorem lexical_ascii : Lexical fun cs => ∀ c ∈ cs, IsAscii c where
  append hs ht := List.forall_mem_append.mpr ⟨hs, ht⟩
  word := by simp [IsAscii]
  mark := by simp [IsAscii]
  space _ h c hc := isAscii_of_isSpace (h c hc)
  numeral _ h c hc := isAscii_of_numeralChar (h c hc)
  string s := by
    refine List.forall_mem_cons.mpr ⟨by decide, List.forall_mem_append.mpr ⟨?_, by simp [IsAscii]⟩⟩
    intro c hc
    obtain ⟨d, -, hd⟩ := List.mem_flatMap.mp hc
    exact isAscii_escapeChar d c hd

/-! ### The words for numbers that are not finite -/

/-- Where a scan of a text stands. -/
inductive Scan where
  | outside
  | inside
  | escaped
  deriving DecidableEq

/-- One character; the letters `N` and `I` outside of strings end the scan. -/
def Scan.step : Scan → Char → Option Scan
  | .outside, c => if c = '\x22' then some .inside else if c = 'N' ∨ c = 'I' then none else some .outside
  | .inside, c => if c = '\x22' then some .outside else if c = '\x5c' then some .escaped else some .inside
  | .escaped, _ => some .inside

/-- A text has a word for a number that is not finite. -/
def hasConstant (cs : List Char) : Bool := (cs.foldlM Scan.step .outside).isNone

/-- `json.loads` with a `parse_constant` that refuses. -/
def loadsStrict (hook : Hook) (cs : List Char) : Option Json := if hasConstant cs then none else loads hook cs

theorem scan_of_plain {state : Scan} {cs : List Char} (h : ∀ c ∈ cs, state.step c = some state) :
    cs.foldlM Scan.step state = some state := by
  induction cs with
  | nil => rfl
  | cons c cs ih =>
      rw [List.foldlM_cons, h c List.mem_cons_self]
      exact ih fun d hd => h d (List.mem_cons_of_mem _ hd)

theorem inside_step_digitChar {n : Nat} (h : n < 0x10) : Scan.inside.step n.digitChar = some .inside := by
  revert h
  revert n
  decide

theorem scan_escapeUnit (n : Nat) : (escapeUnit n).foldlM Scan.step .inside = some .inside := by
  have hdigit (m : Nat) : Scan.inside.step (m % 0x10).digitChar = some .inside :=
    inside_step_digitChar (Nat.mod_lt _ (by decide))
  show [(n / 0x1000 % 0x10).digitChar, (n / 0x100 % 0x10).digitChar, (n / 0x10 % 0x10).digitChar,
    (n % 0x10).digitChar].foldlM Scan.step .inside = _
  refine scan_of_plain ?_
  simp only [List.forall_mem_cons, hdigit, true_and]
  exact List.forall_mem_nil _

theorem scan_append {s t : List Char} {state state' : Scan} (hs : s.foldlM Scan.step state = some state') :
    (s ++ t).foldlM Scan.step state = t.foldlM Scan.step state' := by
  rw [List.foldlM_append, hs]
  rfl

theorem scan_flatMap {α : Type} {f : α → List Char} {state : Scan} (xs : List α)
    (h : ∀ x ∈ xs, (f x).foldlM Scan.step state = some state) :
    (xs.flatMap f).foldlM Scan.step state = some state := by
  induction xs with
  | nil => rfl
  | cons x xs ih =>
      rw [List.flatMap_cons, scan_append (h x List.mem_cons_self)]
      exact ih fun y hy => h y (List.mem_cons_of_mem _ hy)

theorem scan_escapeChar (c : Char) : (escapeChar c).foldlM Scan.step .inside = some .inside := by
  unfold escapeChar
  cases hshort : shortEscape c with
  | some letter => rfl
  | none =>
      dsimp only
      split_ifs
      · -- a quote and a backslash have escapes of their own
        refine scan_of_plain (List.forall_mem_singleton.mpr ?_)
        unfold Scan.step
        dsimp only
        rw [if_neg, if_neg]
        · rintro rfl
          cases hshort
        · rintro rfl
          cases hshort
      · exact scan_flatMap _ fun n _ => scan_escapeUnit n

theorem lexical_scan : Lexical fun cs => cs.foldlM Scan.step .outside = some .outside where
  append hs ht := (scan_append hs).trans ht
  word := by decide
  mark := by
    simp only [List.forall_mem_cons, List.not_mem_nil, false_implies, implies_true, and_true]
    decide
  space _ h := scan_of_plain fun c hc => by
    have hc : c = ' ' ∨ c = '\t' ∨ c = '\n' ∨ c = '\r' := by simpa [isSpace, or_assoc] using h c hc
    rcases hc with rfl | rfl | rfl | rfl <;> rfl
  numeral _ h := scan_of_plain fun c hc => by
    have hplain : c ≠ '\x22' ∧ c ≠ 'N' ∧ c ≠ 'I' := by
      rcases h c hc with hdigit | rfl | rfl | rfl | rfl
      · refine ⟨?_, ?_, ?_⟩ <;>
          rintro rfl <;>
            cases hdigit
      all_goals decide
    unfold Scan.step
    dsimp only
    rw [if_neg hplain.1, if_neg (not_or.mpr hplain.2)]
  string s := by
    show (s.toList.flatMap escapeChar ++ ['\x22']).foldlM Scan.step .inside = _
    rw [scan_append (scan_flatMap _ fun c _ => scan_escapeChar c)]
    rfl

/-- What is written has no word for a number that is not finite, so a reader that refuses them reads it. -/
theorem loadsStrict_dumpsIndented (hhook : hook.Keeps) {v : Json} {t : List Char} (h : dumpsIndented v = some t)
    (hd : DistinctKeys v) : loadsStrict hook (t ++ ['\n']) = some (sort v) := by
  have hscan : (t ++ ['\n']).foldlM Scan.step .outside = some .outside :=
    lexical_scan.append (lexical_scan.layOut _ h) rfl
  unfold loadsStrict hasConstant
  rw [hscan]
  exact loads_dumpsIndented hhook h hd

theorem loadsStrict_eq_some {cs : List Char} {v : Json} (h : loadsStrict hook cs = some v) :
    loads hook cs = some v := by
  unfold loadsStrict at h
  split_ifs at h
  exact h

theorem isAscii_dumpsIndented {v : Json} {t : List Char} (h : dumpsIndented v = some t) : ∀ c ∈ t, IsAscii c :=
  lexical_ascii.layOut _ h

end Json

end Ramulator.Lib
