/-
# Ramulator.Lib.Json — JSON values, their canonical text, and a reader for texts.

`encode` writes a value without spaces and in ASCII only, members in the order in which they stand;
`canonicalJson` puts the members of each object in the order of their names first. `loads` reads any text:
spaces, escapes, and numbers as they may be written. What to do with the members of an object is left to
a hook.

`loads_encode`: what `encode` writes, `loads` reads, and it is the value that was written. So `encode` is
injective, and a canonical text has one meaning. `loads_layOut` says it of texts with white space, as a
`Layout` has it.

Numbers that are not finite have no text. As the language has it that this library follows, neither do
integers of more than 4300 digits, and texts with such integers are not read. Strings are sequences of
Unicode scalar values, so a text that escapes half of a surrogate pair is not read.
-/
import Ramulator.Lib.NumberText
import Mathlib.Data.List.Sort

namespace Ramulator.Lib

open FloatFormat

/-- A value. Members keep the order in which they came. -/
inductive Json where
  | null
  | bool (b : Bool)
  | int (n : Int)
  | float (x : binary64.Value)
  | str (s : String)
  | arr (items : List Json)
  | obj (members : List (String × Json))

namespace Json

/-! ## Values -/

/-- The member of a name. -/
def field? : Json → String → Option Json
  | .obj ms, name => ms.lookup name
  | _, _ => none

/-- What counts as true in a condition. -/
def truthy : Json → Bool
  | .null => false
  | .bool b => b
  | .int n => n ≠ 0
  | .float (.finite x) => x.significand ≠ 0
  | .float _ => true
  | .str s => s ≠ ""
  | .arr vs => !vs.isEmpty
  | .obj ms => !ms.isEmpty

/-- The value of a number that is finite; a truth value counts as one. -/
def number? : Json → Option ℚ
  | .bool b => some (if b then 1 else 0)
  | .int n => some n
  | .float (.finite x) => some x.toRat
  | _ => none

mutual

/-- Equality: numbers by their values, objects by the members of each name. -/
def eq : Json → Json → Bool
  | .null, .null => true
  | .str s, .str t => s == t
  | .arr vs, .arr ws => eqItems vs ws
  | .obj ms, .obj ns => ms.length == ns.length && eqMembers ms ns
  | .float (.infinite a), .float (.infinite b) => a == b
  | v, w =>
      match v.number?, w.number? with
      | some a, some b => a == b
      | _, _ => false

def eqItems : List Json → List Json → Bool
  | [], [] => true
  | v :: vs, w :: ws => eq v w && eqItems vs ws
  | _, _ => false

def eqMembers : List (String × Json) → List (String × Json) → Bool
  | [], _ => true
  | (k, v) :: ms, ns =>
      (match ns.lookup k with
        | some w => eq v w
        | none => false) && eqMembers ms ns

end

/-! ## Strings -/

/-- The code units of a character in escapes. -/
def codeUnits (c : Char) : List Nat :=
  if c.toNat < 0x10000 then [c.toNat]
  else [0xd800 + (c.toNat - 0x10000) / 0x400, 0xdc00 + (c.toNat - 0x10000) % 0x400]

def escapeUnit (n : Nat) : List Char :=
  ['\x5c', 'u', (n / 0x1000 % 0x10).digitChar, (n / 0x100 % 0x10).digitChar, (n / 0x10 % 0x10).digitChar,
    (n % 0x10).digitChar]

/-- The letter of a character that has an escape of its own. -/
def shortEscape (c : Char) : Option Char :=
  if c = '\x22' then some '\x22' else if c = '\x5c' then some '\x5c' else if c = '\n' then some 'n'
  else if c = '\r' then some 'r' else if c = '\t' then some 't' else if c = '\x0c' then some 'f'
  else if c = '\x08' then some 'b' else none

/-- A character within quotes. -/
def escapeChar (c : Char) : List Char :=
  match shortEscape c with
  | some letter => ['\x5c', letter]
  | none => if ' ' ≤ c ∧ c ≤ '~' then [c] else (codeUnits c).flatMap escapeUnit

def stringText (s : String) : List Char := '\x22' :: (s.toList.flatMap escapeChar ++ ['\x22'])

/-- What a letter after a backslash stands for. -/
def unescape (c : Char) : Option Nat :=
  if c = '\x22' ∨ c = '\x5c' ∨ c = '/' then some c.toNat else if c = 'n' then some 10
  else if c = 'r' then some 13 else if c = 't' then some 9 else if c = 'f' then some 12
  else if c = 'b' then some 8 else none

def hexValue (c : Char) : Option Nat :=
  if c.isDigit then some (c.toNat - 48)
  else if 'a' ≤ c ∧ c ≤ 'f' then some (c.toNat - 87)
  else if 'A' ≤ c ∧ c ≤ 'F' then some (c.toNat - 55)
  else none

/-- Four hexadecimal digits. -/
def readUnit (a b c d : Char) : Option Nat := do
  let a ← hexValue a
  let b ← hexValue b
  let c ← hexValue c
  let d ← hexValue d
  pure (0x1000 * a + 0x100 * b + 0x10 * c + d)

/-- The code units up to the closing quote, and what follows it. -/
def readUnits : List Char → Option (List Nat × List Char)
  | [] => none
  | '\x22' :: cs => some ([], cs)
  | '\x5c' :: 'u' :: a :: b :: c :: d :: cs => do
      let n ← readUnit a b c d
      let r ← readUnits cs
      pure (n :: r.1, r.2)
  | '\x5c' :: c :: cs => do
      let n ← unescape c
      let r ← readUnits cs
      pure (n :: r.1, r.2)
  | c :: cs =>
      if c < ' ' ∨ c = '\x5c' then none
      else do
        let r ← readUnits cs
        pure (c.toNat :: r.1, r.2)

def isHighSurrogate (n : Nat) : Bool := 0xd800 ≤ n && n < 0xdc00
def isLowSurrogate (n : Nat) : Bool := 0xdc00 ≤ n && n < 0xe000

/-- Code units as characters. -/
def joinUnits : List Nat → Option (List Char)
  | [] => some []
  | [u] => if u.isValidChar then some [Char.ofNat u] else none
  | u :: v :: us =>
      if isHighSurrogate u && isLowSurrogate v then
        (joinUnits us).map (Char.ofNat (0x10000 + 0x400 * (u - 0xd800) + (v - 0xdc00)) :: ·)
      else if u.isValidChar then (joinUnits (v :: us)).map (Char.ofNat u :: ·)
      else none

/-- A string, after its opening quote. -/
def readString (cs : List Char) : Option (String × List Char) := do
  let r ← readUnits cs
  let s ← joinUnits r.1
  pure (String.ofList s, r.2)

/-! ### Strings are read as they were written -/

theorem hexValue_digitChar {d : Nat} (h : d < 0x10) : hexValue d.digitChar = some d := by
  revert h
  revert d
  decide

theorem readUnits_escapeUnit {n : Nat} (h : n < 0x10000) (cs : List Char) :
    readUnits (escapeUnit n ++ cs) = (readUnits cs).map fun r => (n :: r.1, r.2) := by
  have hn : 0x1000 * (n / 0x1000 % 0x10) + 0x100 * (n / 0x100 % 0x10) + 0x10 * (n / 0x10 % 0x10) +
      n % 0x10 = n := by omega
  have hunit : readUnit (n / 0x1000 % 0x10).digitChar (n / 0x100 % 0x10).digitChar
      (n / 0x10 % 0x10).digitChar (n % 0x10).digitChar = some n := by
    unfold readUnit
    rw [hexValue_digitChar (Nat.mod_lt _ (by decide)), hexValue_digitChar (Nat.mod_lt _ (by decide)),
      hexValue_digitChar (Nat.mod_lt _ (by decide)), hexValue_digitChar (Nat.mod_lt _ (by decide))]
    exact congrArg some hn
  show (do
    let n ← readUnit _ _ _ _
    let r ← readUnits cs
    pure (n :: r.1, r.2)) = _
  rw [hunit]
  cases readUnits cs with
  | none => rfl
  | some r => rfl

theorem shortEscape_eq_some {c letter : Char} (h : shortEscape c = some letter) :
    unescape letter = some c.toNat ∧ c.toNat < 0x10000 ∧ letter ≠ 'u' := by
  unfold shortEscape at h
  split_ifs at h with h1 h2 h3 h4 h5 h6 h7
  all_goals
    cases h
    subst c
    decide

theorem readUnits_plain {c : Char} (h : shortEscape c = none) (hlow : ' ' ≤ c) (cs : List Char) :
    readUnits (c :: cs) = (readUnits cs).map fun r => (c.toNat :: r.1, r.2) := by
  have hquote : c ≠ '\x22' := fun hc => by
    subst hc
    cases h
  have hslash : c ≠ '\x5c' := fun hc => by
    subst hc
    cases h
  rw [readUnits.eq_5 c cs hquote (fun _ _ _ _ _ hc => absurd hc hslash) (fun _ _ hc => absurd hc hslash),
    if_neg (by simp [hslash, Char.not_lt.mpr hlow])]
  cases readUnits cs with
  | none => rfl
  | some r => rfl

theorem toNat_lt (c : Char) : c.toNat < 0x110000 := by
  rcases c.valid with h | h
  · exact Nat.lt_trans h (by decide)
  · exact h.2

theorem readUnits_escapeChar (c : Char) (cs : List Char) :
    readUnits (escapeChar c ++ cs) = (readUnits cs).map fun r => (codeUnits c ++ r.1, r.2) := by
  have hlt := toNat_lt c
  unfold escapeChar
  cases hshort : shortEscape c with
  | some letter =>
      obtain ⟨hletter, hsmall, hu⟩ := shortEscape_eq_some hshort
      unfold codeUnits
      rw [if_pos hsmall]
      show readUnits ('\x5c' :: letter :: cs) = _
      rw [readUnits.eq_4 letter cs (fun _ _ _ _ _ h => absurd h hu), hletter]
      cases readUnits cs with
      | none => rfl
      | some r => rfl
  | none =>
      dsimp only
      split_ifs with hplain
      · have hsmall : c.toNat < 0x10000 := Nat.lt_of_le_of_lt (show c.toNat ≤ '~'.toNat from hplain.2) (by decide)
        unfold codeUnits
        rw [if_pos hsmall]
        exact readUnits_plain hshort hplain.1 cs
      · unfold codeUnits
        split_ifs with hsmall
        · exact readUnits_escapeUnit hsmall cs
        · rw [List.flatMap_cons, List.flatMap_singleton, List.append_assoc,
            readUnits_escapeUnit (by omega), readUnits_escapeUnit (by omega), Option.map_map]
          rfl

theorem joinUnits_codeUnits (c : Char) (us : List Nat) :
    joinUnits (codeUnits c ++ us) = (joinUnits us).map (c :: ·) := by
  have hvalid : c.toNat.isValidChar := c.valid
  unfold codeUnits
  split_ifs with hsmall
  · have hscalar : isHighSurrogate c.toNat = false := by
      unfold isHighSurrogate
      rcases hvalid with h | h
      · simp [Nat.not_le.mpr h]
      · simp
        omega
    cases us with
    | nil =>
        show (if c.toNat.isValidChar then some [Char.ofNat c.toNat] else none) = _
        rw [if_pos hvalid, Char.ofNat_toNat]
        rfl
    | cons v us =>
        show joinUnits (c.toNat :: v :: us) = _
        rw [joinUnits, hscalar, Bool.false_and, if_neg (by decide), if_pos hvalid, Char.ofNat_toNat]
  · have hlt := toNat_lt c
    have hpair : 0x10000 + 0x400 * (0xd800 + (c.toNat - 0x10000) / 0x400 - 0xd800) +
        (0xdc00 + (c.toNat - 0x10000) % 0x400 - 0xdc00) = c.toNat := by omega
    have hhigh : isHighSurrogate (0xd800 + (c.toNat - 0x10000) / 0x400) = true := by
      unfold isHighSurrogate
      simp
      omega
    have hlow : isLowSurrogate (0xdc00 + (c.toNat - 0x10000) % 0x400) = true := by
      unfold isLowSurrogate
      simp
      omega
    rw [List.cons_append, List.cons_append, List.nil_append, joinUnits, hhigh, hlow, Bool.and_self,
      if_pos rfl, hpair, Char.ofNat_toNat]

/-- A string is read as it was written. -/
theorem readString_stringText (s : String) (rest : List Char) :
    readString (s.toList.flatMap escapeChar ++ '\x22' :: rest) = some (s, rest) := by
  have hunits (cs : List Char) :
      readUnits (cs.flatMap escapeChar ++ '\x22' :: rest) = some (cs.flatMap codeUnits, rest) := by
    induction cs with
    | nil => rfl
    | cons c cs ih =>
        rw [List.flatMap_cons, List.append_assoc, readUnits_escapeChar, ih]
        rfl
  have hjoin (cs : List Char) : joinUnits (cs.flatMap codeUnits) = some cs := by
    induction cs with
    | nil => rfl
    | cons c cs ih =>
        rw [List.flatMap_cons, joinUnits_codeUnits, ih]
        rfl
  unfold readString
  rw [hunits]
  show (do
    let cs ← joinUnits (s.toList.flatMap codeUnits)
    pure (String.ofList cs, rest)) = _
  rw [hjoin]
  exact congrArg (fun s => some (s, rest)) String.ofList_toList

/-! ## Values as text -/

/-- More digits an integer may not have. -/
def maxIntDigits : Nat := 4300

def encodeInt (n : Int) : Option (List Char) :=
  if (Nat.toDigits 10 n.natAbs).length ≤ maxIntDigits then some (intText n) else none

/-- The shortest decimal; 17 digits tell the numbers of double precision apart. -/
def encodeFloat : binary64.Value → Option (List Char)
  | .finite x => some (minusText x.neg ++ decimalText (x.shortest 17))
  | .infinite _ => none
  | .nan => none

mutual

/-- The text of a value, its members in the order in which they stand. -/
def encode : Json → Option (List Char)
  | .null => some "null".toList
  | .bool b => some (if b then "true".toList else "false".toList)
  | .int n => encodeInt n
  | .float x => encodeFloat x
  | .str s => some (stringText s)
  | .arr [] => some ['[', ']']
  | .arr (v :: vs) => do
      let t ← encode v
      let ts ← encodeItems vs
      pure ('[' :: (t ++ ts))
  | .obj [] => some ['{', '}']
  | .obj ((k, v) :: ms) => do
      let t ← encode v
      let ts ← encodeMembers ms
      pure ('{' :: (stringText k ++ ':' :: (t ++ ts)))

/-- The items after the first, and the closing bracket. -/
def encodeItems : List Json → Option (List Char)
  | [] => some [']']
  | v :: vs => do
      let t ← encode v
      let ts ← encodeItems vs
      pure (',' :: (t ++ ts))

/-- The members after the first, and the closing brace. -/
def encodeMembers : List (String × Json) → Option (List Char)
  | [] => some ['}']
  | (k, v) :: ms => do
      let t ← encode v
      let ts ← encodeMembers ms
      pure (',' :: (stringText k ++ ':' :: (t ++ ts)))

end

/-- The order of names, by code points. -/
def nameLe : List Char → List Char → Bool
  | [], _ => true
  | _ :: _, [] => false
  | c :: cs, d :: ds => if c = d then nameLe cs ds else c.toNat ≤ d.toNat

/-- Members in the order of their names. -/
def MemberLe (m m' : String × Json) : Prop := nameLe m.1.toList m'.1.toList = true

instance : DecidableRel MemberLe := fun m m' =>
  inferInstanceAs (Decidable (nameLe m.1.toList m'.1.toList = true))

mutual

/-- The members of each object in the order of their names. -/
def sort : Json → Json
  | .null => .null
  | .bool b => .bool b
  | .int n => .int n
  | .float x => .float x
  | .str s => .str s
  | .arr vs => .arr (sortItems vs)
  | .obj ms => .obj ((sortMembers ms).insertionSort MemberLe)

def sortItems : List Json → List Json
  | [] => []
  | v :: vs => sort v :: sortItems vs

def sortMembers : List (String × Json) → List (String × Json)
  | [] => []
  | (k, v) :: ms => (k, sort v) :: sortMembers ms

end

/-- `json.dumps` with sorted keys, no spaces, and no numbers that are not finite. -/
def canonicalJson (v : Json) : Option (List Char) := encode (sort v)

/-! ## Reading values -/

def isSpace (c : Char) : Bool := c = ' ' || c = '\t' || c = '\n' || c = '\r'

def skipSpace (cs : List Char) : List Char := cs.dropWhile isSpace

/-- A word that stands for a value. -/
def readWord (word : String) (v : Json) (cs : List Char) : Option (Json × List Char) :=
  if word.toList.isPrefixOf cs then some (v, cs.drop word.length) else none

/-- A number, an integer where it is written as one. -/
def readNumberValue (cs : List Char) : Option (Json × List Char) := do
  let (p, rest) ← readNumber cs
  if p.isInt then
    if p.whole.length ≤ maxIntDigits then pure (.int p.toInt, rest) else none
  else pure (.float (binary64.ofRat p.neg p.toDecimal.toRat), rest)

/-- A number, or a word. -/
def readScalar (cs : List Char) : Option (Json × List Char) :=
  readWord "null" .null cs <|> readWord "true" (.bool true) cs <|> readWord "false" (.bool false) cs <|>
    readWord "NaN" (.float .nan) cs <|> readWord "Infinity" (.float (.infinite false)) cs <|>
    readWord "-Infinity" (.float (.infinite true)) cs <|> readNumberValue cs

/-- What is made of the members of an object. -/
abbrev Hook := List (String × Json) → Option (List (String × Json))

variable (hook : Hook)

mutual

/-- A value at the front, and what follows it. A call takes a unit of fuel. -/
def readValue : Nat → List Char → Option (Json × List Char)
  | 0, _ => none
  | _ + 1, '\x22' :: cs => do
      let (s, rest) ← readString cs
      pure (.str s, rest)
  | fuel + 1, '[' :: cs =>
      match skipSpace cs with
      | ']' :: rest => some (.arr [], rest)
      | cs => do
          let (vs, rest) ← readItems fuel cs
          pure (.arr vs, rest)
  | fuel + 1, '{' :: cs =>
      match skipSpace cs with
      | '}' :: rest => do
          let ms ← hook []
          pure (.obj ms, rest)
      | cs => do
          let (ms, rest) ← readMembers fuel cs
          let ms ← hook ms
          pure (.obj ms, rest)
  | _ + 1, cs => readScalar cs

/-- Items up to the closing bracket. -/
def readItems : Nat → List Char → Option (List Json × List Char)
  | 0, _ => none
  | fuel + 1, cs => do
      let (v, rest) ← readValue fuel cs
      match skipSpace rest with
      | ']' :: rest => pure ([v], rest)
      | ',' :: rest => do
          let (vs, rest) ← readItems fuel (skipSpace rest)
          pure (v :: vs, rest)
      | _ => none

/-- Members up to the closing brace. -/
def readMembers : Nat → List Char → Option (List (String × Json) × List Char)
  | 0, _ => none
  | fuel + 1, '\x22' :: cs => do
      let (k, rest) ← readString cs
      match skipSpace rest with
      | ':' :: rest => do
          let (v, rest) ← readValue fuel (skipSpace rest)
          match skipSpace rest with
          | '}' :: rest => pure ([(k, v)], rest)
          | ',' :: rest => do
              let (ms, rest) ← readMembers fuel (skipSpace rest)
              pure ((k, v) :: ms, rest)
          | _ => none
      | _ => none
  | _ + 1, _ => none

end

/-- `json.loads`: one value, and nothing after it. -/
def loads (cs : List Char) : Option Json :=
  match readValue hook (2 * cs.length + 2) (skipSpace cs) with
  | some (v, rest) => if skipSpace rest = [] then some v else none
  | none => none

/-- Members by name: of two with one name the last value counts, at the place of the first. -/
def dictHook : Hook := fun ms => some (ms.foldl (fun d m =>
  if d.any fun e => e.1 == m.1 then d.map fun e => if e.1 == m.1 then m else e else d ++ [m]) [])

/-! ## Texts with white space -/

/-- Where a text has white space: before what stands at a depth of the value, and after a colon. -/
structure Layout where
  before : Nat → List Char
  afterColon : List Char
  before_space : ∀ depth, ∀ c ∈ before depth, isSpace c = true
  afterColon_space : ∀ c ∈ afterColon, isSpace c = true

variable (layout : Layout)

mutual

/-- The text of a value at a depth. -/
def layOut : Json → Nat → Option (List Char)
  | .null, _ => some "null".toList
  | .bool b, _ => some (if b then "true".toList else "false".toList)
  | .int n, _ => encodeInt n
  | .float x, _ => encodeFloat x
  | .str s, _ => some (stringText s)
  | .arr [], _ => some ['[', ']']
  | .arr (v :: vs), depth => do
      let t ← layOut v (depth + 1)
      let ts ← layOutItems vs depth
      pure ('[' :: (layout.before (depth + 1) ++ (t ++ ts)))
  | .obj [], _ => some ['{', '}']
  | .obj ((k, v) :: ms), depth => do
      let t ← layOut v (depth + 1)
      let ts ← layOutMembers ms depth
      pure ('{' :: (layout.before (depth + 1) ++ (stringText k ++ ':' :: (layout.afterColon ++ (t ++ ts)))))

/-- The items after the first, and the closing bracket. -/
def layOutItems : List Json → Nat → Option (List Char)
  | [], depth => some (layout.before depth ++ [']'])
  | v :: vs, depth => do
      let t ← layOut v (depth + 1)
      let ts ← layOutItems vs depth
      pure (',' :: (layout.before (depth + 1) ++ (t ++ ts)))

/-- The members after the first, and the closing brace. -/
def layOutMembers : List (String × Json) → Nat → Option (List Char)
  | [], depth => some (layout.before depth ++ ['}'])
  | (k, v) :: ms, depth => do
      let t ← layOut v (depth + 1)
      let ts ← layOutMembers ms depth
      pure (',' :: (layout.before (depth + 1) ++ (stringText k ++ ':' :: (layout.afterColon ++ (t ++ ts)))))

end

/-- No white space. -/
def compact : Layout where
  before _ := []
  afterColon := []
  before_space _ _ h := nomatch h
  afterColon_space _ h := nomatch h

mutual

theorem encode_eq_layOut : ∀ (v : Json) (depth : Nat), encode v = layOut compact v depth
  | .null, _ => rfl
  | .bool _, _ => rfl
  | .int _, _ => rfl
  | .float _, _ => rfl
  | .str _, _ => rfl
  | .arr [], _ => rfl
  | .arr (v :: vs), depth => by
      rw [encode, layOut, encode_eq_layOut v (depth + 1), encodeItems_eq_layOut vs depth]
      rfl
  | .obj [], _ => rfl
  | .obj ((k, v) :: ms), depth => by
      rw [encode, layOut, encode_eq_layOut v (depth + 1), encodeMembers_eq_layOut ms depth]
      rfl

theorem encodeItems_eq_layOut : ∀ (vs : List Json) (depth : Nat), encodeItems vs = layOutItems compact vs depth
  | [], _ => rfl
  | v :: vs, depth => by
      rw [encodeItems, layOutItems, encode_eq_layOut v (depth + 1), encodeItems_eq_layOut vs depth]
      rfl

theorem encodeMembers_eq_layOut : ∀ (ms : List (String × Json)) (depth : Nat),
    encodeMembers ms = layOutMembers compact ms depth
  | [], _ => rfl
  | (k, v) :: ms, depth => by
      rw [encodeMembers, layOutMembers, encode_eq_layOut v (depth + 1), encodeMembers_eq_layOut ms depth]
      rfl

end

/-! ## Values are read as they were written -/

mutual

/-- No object has two members of one name. -/
def DistinctKeys : Json → Prop
  | .arr vs => DistinctItems vs
  | .obj ms => (ms.map Prod.fst).Nodup ∧ DistinctMembers ms
  | _ => True

def DistinctItems : List Json → Prop
  | [] => True
  | v :: vs => DistinctKeys v ∧ DistinctItems vs

def DistinctMembers : List (String × Json) → Prop
  | [] => True
  | m :: ms => DistinctKeys m.2 ∧ DistinctMembers ms

end

/-- A hook that leaves members alone that have different names. -/
def Hook.Keeps (hook : Hook) : Prop := ∀ ms, (ms.map Prod.fst).Nodup → hook ms = some ms

variable {hook} {layout}

theorem readWord_ne {word : String} {v : Json} {c d : Char} {cs ws : List Char} (hword : word.toList = d :: ws)
    (h : c ≠ d) : readWord word v (c :: cs) = none := by
  unfold readWord
  rw [hword, if_neg]
  simp [List.isPrefixOf, Ne.symm h]

/-- Text that begins with a digit, perhaps after a sign, is read as a number. -/
theorem readScalar_number (neg : Bool) {c : Char} {cs : List Char} (hc : c.isDigit = true) :
    readScalar (minusText neg ++ c :: cs) = readNumberValue (minusText neg ++ c :: cs) := by
  have hdigit (d : Char) (hd : d.isDigit = false) : c ≠ d := fun h => by
    rw [h, hd] at hc
    cases hc
  unfold readScalar
  cases neg with
  | true =>
      rw [show minusText true ++ c :: cs = '-' :: c :: cs from rfl]
      have hword : readWord "-Infinity" (.float (.infinite true)) ('-' :: c :: cs) = none := by
        unfold readWord
        rw [if_neg]
        have hI := hdigit 'I' (by decide)
        simp [List.isPrefixOf, Ne.symm hI]
      rw [readWord_ne (d := 'n') rfl (by decide), readWord_ne (d := 't') rfl (by decide),
        readWord_ne (d := 'f') rfl (by decide), readWord_ne (d := 'N') rfl (by decide),
        readWord_ne (d := 'I') rfl (by decide), hword]
      rfl
  | false =>
      rw [show minusText false ++ c :: cs = c :: cs from rfl]
      rw [readWord_ne (d := 'n') rfl (hdigit _ (by decide)), readWord_ne (d := 't') rfl (hdigit _ (by decide)),
        readWord_ne (d := 'f') rfl (hdigit _ (by decide)), readWord_ne (d := 'N') rfl (hdigit _ (by decide)),
        readWord_ne (d := 'I') rfl (hdigit _ (by decide)), readWord_ne (d := '-') rfl (hdigit _ (by decide))]
      rfl

theorem encodeInt_begins {n : Int} {t : List Char} (h : encodeInt n = some t) :
    ∃ neg c cs, t = minusText neg ++ c :: cs ∧ c.isDigit = true := by
  unfold encodeInt at h
  split_ifs at h
  cases h
  cases hcons : Nat.toDigits 10 n.natAbs with
  | nil => exact absurd hcons Nat.toDigits_ne_nil
  | cons c cs =>
      refine ⟨n < 0, c, cs, by unfold intText; rw [hcons], ?_⟩
      exact allDigits_toDigits n.natAbs c (by rw [hcons]; exact List.mem_cons_self)

theorem readNumberValue_encodeInt {n : Int} {t rest : List Char} (h : encodeInt n = some t)
    (hstop : Stops rest) : readNumberValue (t ++ rest) = some (.int n, rest) := by
  unfold encodeInt at h
  split_ifs at h with hlength
  cases h
  obtain ⟨p, hread, hint, hvalue, hwhole⟩ := readNumber_intText n hstop
  unfold readNumberValue
  simp only [hread, bind, Option.bind, hint, hwhole, hlength, if_true, hvalue]
  rfl

theorem readNumberValue_encodeFloat {x : binary64.Value} {t rest : List Char} (h : encodeFloat x = some t)
    (hstop : Stops rest) : readNumberValue (t ++ rest) = some (.float x, rest) := by
  cases x with
  | infinite neg => cases h
  | nan => cases h
  | finite x =>
      cases h
      obtain ⟨p, hread, hneg, hint, hvalue⟩ := readNumber_decimalText (x.shortest 17) x.neg rest hstop
      have hround := x.ofRat_shortest 17
      rw [← List.append_assoc] at hread
      unfold readNumberValue
      simp only [hread, bind, Option.bind, hint, hneg, hvalue, hround, Bool.false_eq_true, if_false]
      rfl

/-- A text that begins a value: not with a space, nor with what closes a list or an object. -/
def Begins (t : List Char) : Prop := ∃ c cs, t = c :: cs ∧ isSpace c = false ∧ c ≠ ']' ∧ c ≠ '}'

theorem skipSpace_cons {c : Char} {cs : List Char} (h : isSpace c = false) : skipSpace (c :: cs) = c :: cs :=
  List.dropWhile_cons_of_neg (by simp [h])

theorem begins_of_digit (neg : Bool) {c : Char} {cs : List Char} (hc : c.isDigit = true) :
    Begins (minusText neg ++ c :: cs) := by
  cases neg with
  | true => exact ⟨'-', c :: cs, rfl, by decide, by decide, by decide⟩
  | false =>
      have hne (d : Char) (hd : d.isDigit = false) : c ≠ d := fun h => by
        rw [h, hd] at hc
        cases hc
      refine ⟨c, cs, rfl, ?_, hne _ (by decide), hne _ (by decide)⟩
      unfold isSpace
      simp [hne ' ' (by decide), hne '\t' (by decide), hne '\n' (by decide), hne '\r' (by decide)]

theorem begins_stringText (k : String) : Begins (stringText k) :=
  ⟨'\x22', _, rfl, by decide, by decide, by decide⟩

theorem encodeFloat_begins {x : binary64.Value} {t : List Char} (h : encodeFloat x = some t) :
    ∃ neg c cs, t = minusText neg ++ c :: cs ∧ c.isDigit = true := by
  cases x with
  | infinite neg => cases h
  | nan => cases h
  | finite x =>
      cases h
      obtain ⟨c, cs, hcons, hc⟩ := decimalText_begins (x.shortest 17)
      exact ⟨x.neg, c, cs, by rw [hcons], hc⟩

/-- Two texts that are put together. -/
theorem bind_bind_eq_some {x y : Option (List Char)} {f : List Char → List Char → List Char} {t : List Char}
    (h : (do
      let a ← x
      let b ← y
      pure (f a b)) = some t) : ∃ a b, x = some a ∧ y = some b ∧ t = f a b := by
  cases x with
  | none => cases h
  | some a =>
      cases y with
      | none => cases h
      | some b => exact ⟨a, b, rfl, rfl, (Option.some_inj.mp h).symm⟩

/-- The parts of the text of a list. -/
theorem layOut_arr_eq_some {v : Json} {vs : List Json} {depth : Nat} {t : List Char}
    (h : layOut layout (.arr (v :: vs)) depth = some t) :
    ∃ tv ts, layOut layout v (depth + 1) = some tv ∧ layOutItems layout vs depth = some ts ∧
      t = '[' :: (layout.before (depth + 1) ++ (tv ++ ts)) := by
  rw [layOut] at h
  exact bind_bind_eq_some h

theorem layOut_obj_eq_some {k : String} {v : Json} {ms : List (String × Json)} {depth : Nat} {t : List Char}
    (h : layOut layout (.obj ((k, v) :: ms)) depth = some t) :
    ∃ tv ts, layOut layout v (depth + 1) = some tv ∧ layOutMembers layout ms depth = some ts ∧
      t = '{' :: (layout.before (depth + 1) ++ (stringText k ++ ':' :: (layout.afterColon ++ (tv ++ ts)))) := by
  rw [layOut] at h
  exact bind_bind_eq_some h

theorem layOutItems_eq_some {v : Json} {vs : List Json} {depth : Nat} {t : List Char}
    (h : layOutItems layout (v :: vs) depth = some t) :
    ∃ tv ts, layOut layout v (depth + 1) = some tv ∧ layOutItems layout vs depth = some ts ∧
      t = ',' :: (layout.before (depth + 1) ++ (tv ++ ts)) := by
  rw [layOutItems] at h
  exact bind_bind_eq_some h

theorem layOutMembers_eq_some {k : String} {v : Json} {ms : List (String × Json)} {depth : Nat} {t : List Char}
    (h : layOutMembers layout ((k, v) :: ms) depth = some t) :
    ∃ tv ts, layOut layout v (depth + 1) = some tv ∧ layOutMembers layout ms depth = some ts ∧
      t = ',' :: (layout.before (depth + 1) ++ (stringText k ++ ':' :: (layout.afterColon ++ (tv ++ ts)))) := by
  rw [layOutMembers] at h
  exact bind_bind_eq_some h

theorem layOut_begins {v : Json} {depth : Nat} {t : List Char} (h : layOut layout v depth = some t) :
    Begins t := by
  cases v with
  | null =>
      cases h
      exact ⟨'n', _, rfl, by decide, by decide, by decide⟩
  | bool b =>
      cases h
      cases b with
      | true => exact ⟨'t', _, rfl, by decide, by decide, by decide⟩
      | false => exact ⟨'f', _, rfl, by decide, by decide, by decide⟩
  | int n =>
      obtain ⟨neg, c, cs, rfl, hc⟩ := encodeInt_begins h
      exact begins_of_digit neg hc
  | float x =>
      obtain ⟨neg, c, cs, rfl, hc⟩ := encodeFloat_begins h
      exact begins_of_digit neg hc
  | str s =>
      cases h
      exact begins_stringText s
  | arr vs =>
      cases vs with
      | nil =>
          cases h
          exact ⟨'[', _, rfl, by decide, by decide, by decide⟩
      | cons v vs =>
          obtain ⟨tv, ts, -, -, rfl⟩ := layOut_arr_eq_some h
          exact ⟨'[', _, rfl, by decide, by decide, by decide⟩
  | obj ms =>
      cases ms with
      | nil =>
          cases h
          exact ⟨'{', _, rfl, by decide, by decide, by decide⟩
      | cons m ms =>
          obtain ⟨tv, ts, -, -, rfl⟩ := layOut_obj_eq_some h
          exact ⟨'{', _, rfl, by decide, by decide, by decide⟩

theorem Begins.append {t : List Char} (h : Begins t) (rest : List Char) : Begins (t ++ rest) := by
  obtain ⟨c, cs, rfl, hc⟩ := h
  exact ⟨c, cs ++ rest, rfl, hc⟩

theorem Begins.skipSpace {t : List Char} (h : Begins t) (rest : List Char) :
    skipSpace (t ++ rest) = t ++ rest := by
  obtain ⟨c, cs, rfl, hc, -, -⟩ := h
  exact skipSpace_cons hc

theorem skipSpace_append {space : List Char} (h : ∀ c ∈ space, isSpace c = true) (cs : List Char) :
    skipSpace (space ++ cs) = skipSpace cs :=
  List.dropWhile_append_of_pos h

/-- White space ends a number. -/
theorem stops_of_space {space rest : List Char} (h : ∀ c ∈ space, isSpace c = true) (hrest : Stops rest) :
    Stops (space ++ rest) := by
  cases space with
  | nil => exact hrest
  | cons d space =>
      have hd : d = ' ' ∨ d = '\t' ∨ d = '\n' ∨ d = '\r' := by
        simpa [isSpace, or_assoc] using h d List.mem_cons_self
      rcases hd with rfl | rfl | rfl | rfl <;>
        exact .of_cons (by decide) (by decide) (by decide) (by decide)

/-- What follows a value in a list. -/
theorem layOutItems_stops {vs : List Json} {depth : Nat} {ts : List Char}
    (h : layOutItems layout vs depth = some ts) (rest : List Char) : Stops (ts ++ rest) := by
  cases vs with
  | nil =>
      cases h
      rw [List.append_assoc]
      exact stops_of_space (layout.before_space depth) (.of_cons (by decide) (by decide) (by decide) (by decide))
  | cons v vs =>
      obtain ⟨tv, ts, -, -, rfl⟩ := layOutItems_eq_some h
      exact .of_cons (by decide) (by decide) (by decide) (by decide)

theorem layOutMembers_stops {ms : List (String × Json)} {depth : Nat} {ts : List Char}
    (h : layOutMembers layout ms depth = some ts) (rest : List Char) : Stops (ts ++ rest) := by
  cases ms with
  | nil =>
      cases h
      rw [List.append_assoc]
      exact stops_of_space (layout.before_space depth) (.of_cons (by decide) (by decide) (by decide) (by decide))
  | cons m ms =>
      obtain ⟨tv, ts, -, -, rfl⟩ := layOutMembers_eq_some h
      exact .of_cons (by decide) (by decide) (by decide) (by decide)

theorem readValue_number {neg : Bool} {c : Char} {cs : List Char} (hc : c.isDigit = true) (fuel : Nat) :
    readValue hook (fuel + 1) (minusText neg ++ c :: cs) = readNumberValue (minusText neg ++ c :: cs) := by
  rw [← readScalar_number neg hc]
  have hne (d : Char) (hd : d.isDigit = false) : c ≠ d := fun h => by
    rw [h, hd] at hc
    cases hc
  cases neg with
  | true => rfl
  | false =>
      show readValue hook (fuel + 1) (c :: cs) = readScalar (c :: cs)
      rw [readValue]
      · intro cs' h
        exact hne _ (by decide) (List.cons.inj h).1
      · intro cs' h
        exact hne _ (by decide) (List.cons.inj h).1
      · intro cs' h
        exact hne _ (by decide) (List.cons.inj h).1

theorem readValue_list {cs : List Char} (h : Begins (skipSpace cs)) (fuel : Nat) :
    readValue hook (fuel + 1) ('[' :: cs) =
      (readItems hook fuel (skipSpace cs)).map fun r => (.arr r.1, r.2) := by
  obtain ⟨c, cs', hcs, -, hclose, -⟩ := h
  rw [readValue, hcs]
  split
  · rename_i heq
    exact absurd (List.cons.inj heq).1 hclose
  · cases readItems hook fuel (c :: cs') with
    | none => rfl
    | some r => rfl

theorem readValue_object {cs : List Char} (h : Begins (skipSpace cs)) (fuel : Nat) :
    readValue hook (fuel + 1) ('{' :: cs) = (readMembers hook fuel (skipSpace cs)).bind fun r =>
      (hook r.1).map fun ms => (.obj ms, r.2) := by
  obtain ⟨c, cs', hcs, -, -, hclose⟩ := h
  rw [readValue, hcs]
  split
  · rename_i heq
    exact absurd (List.cons.inj heq).1 hclose
  · cases readMembers hook fuel (c :: cs') with
    | none => rfl
    | some r =>
        show (hook r.1).bind _ = (hook r.1).map _
        cases hook r.1 with
        | none => rfl
        | some ms => rfl

theorem readItems_last {cs cs' rest : List Char} {v : Json} {fuel : Nat}
    (h : readValue hook fuel cs = some (v, cs')) (hclose : skipSpace cs' = ']' :: rest) :
    readItems hook (fuel + 1) cs = some ([v], rest) := by
  rw [readItems, h]
  show (match skipSpace cs' with
    | ']' :: rest => pure ([v], rest)
    | ',' :: rest => _
    | _ => none) = _
  rw [hclose]
  rfl

theorem readItems_more {cs cs' : List Char} {v : Json} {fuel : Nat}
    (h : readValue hook fuel cs = some (v, ',' :: cs')) :
    readItems hook (fuel + 1) cs = (readItems hook fuel (skipSpace cs')).map fun r => (v :: r.1, r.2) := by
  rw [readItems, h]
  show (readItems hook fuel (skipSpace cs')).bind _ = _
  cases readItems hook fuel (skipSpace cs') with
  | none => rfl
  | some r => rfl

theorem readMembers_last {k : String} {cs cs' rest : List Char} {v : Json} {fuel : Nat}
    (h : readValue hook fuel (skipSpace cs) = some (v, cs')) (hclose : skipSpace cs' = '}' :: rest) :
    readMembers hook (fuel + 1) (stringText k ++ ':' :: cs) = some ([(k, v)], rest) := by
  show readMembers hook (fuel + 1) ('\x22' :: (k.toList.flatMap escapeChar ++ ['\x22'] ++ ':' :: cs)) = _
  rw [readMembers, List.append_assoc, List.singleton_append, readString_stringText]
  show (readValue hook fuel (skipSpace cs)).bind _ = _
  rw [h]
  show (match skipSpace cs' with
    | '}' :: rest => pure ([(k, v)], rest)
    | ',' :: rest => _
    | _ => none) = _
  rw [hclose]
  rfl

theorem readMembers_more {k : String} {cs cs' : List Char} {v : Json} {fuel : Nat}
    (h : readValue hook fuel (skipSpace cs) = some (v, ',' :: cs')) :
    readMembers hook (fuel + 1) (stringText k ++ ':' :: cs) =
      (readMembers hook fuel (skipSpace cs')).map fun r => ((k, v) :: r.1, r.2) := by
  show readMembers hook (fuel + 1) ('\x22' :: (k.toList.flatMap escapeChar ++ ['\x22'] ++ ':' :: cs)) = _
  rw [readMembers, List.append_assoc, List.singleton_append, readString_stringText]
  show (readValue hook fuel (skipSpace cs)).bind _ = _
  rw [h]
  show (readMembers hook fuel (skipSpace cs')).bind _ = _
  cases readMembers hook fuel (skipSpace cs') with
  | none => rfl
  | some r => rfl

/-- White space before text that begins a value is passed over. -/
theorem Begins.skip_before {t space : List Char} (h : Begins t) (hspace : ∀ c ∈ space, isSpace c = true)
    (rest : List Char) : Json.skipSpace (space ++ (t ++ rest)) = t ++ rest := by
  rw [skipSpace_append hspace, h.skipSpace rest]

mutual

/-- A value is read as it was written, with fuel in proportion to the text. -/
theorem readValue_layOut (hhook : hook.Keeps) : ∀ (v : Json) {depth : Nat} {t rest : List Char} {fuel : Nat},
    layOut layout v depth = some t → DistinctKeys v → Stops rest → 2 * t.length ≤ fuel →
    readValue hook fuel (t ++ rest) = some (v, rest)
  | .null, _, t, rest, fuel, h, _, _, hfuel => by
      cases h
      obtain ⟨fuel, rfl⟩ := Nat.exists_eq_succ_of_ne_zero (Nat.ne_of_gt (Nat.lt_of_lt_of_le (by decide) hfuel))
      rfl
  | .bool b, _, t, rest, fuel, h, _, _, hfuel => by
      cases h
      cases b with
      | true =>
          obtain ⟨fuel, rfl⟩ :=
            Nat.exists_eq_succ_of_ne_zero (Nat.ne_of_gt (Nat.lt_of_lt_of_le (by decide) hfuel))
          rfl
      | false =>
          obtain ⟨fuel, rfl⟩ :=
            Nat.exists_eq_succ_of_ne_zero (Nat.ne_of_gt (Nat.lt_of_lt_of_le (by decide) hfuel))
          rfl
  | .int n, _, t, rest, fuel, h, _, hstop, hfuel => by
      have hread := readNumberValue_encodeInt h hstop
      obtain ⟨neg, c, cs, rfl, hc⟩ := encodeInt_begins h
      cases fuel with
      | zero => simp at hfuel
      | succ fuel =>
          rw [List.append_assoc, List.cons_append] at hread ⊢
          rw [readValue_number hc, hread]
  | .float x, _, t, rest, fuel, h, _, hstop, hfuel => by
      have hread := readNumberValue_encodeFloat h hstop
      obtain ⟨neg, c, cs, rfl, hc⟩ := encodeFloat_begins h
      cases fuel with
      | zero => simp at hfuel
      | succ fuel =>
          rw [List.append_assoc, List.cons_append] at hread ⊢
          rw [readValue_number hc, hread]
  | .str s, _, t, rest, fuel, h, _, _, hfuel => by
      cases h
      cases fuel with
      | zero => simp [stringText] at hfuel
      | succ fuel =>
          have hread := readString_stringText s rest
          show readValue hook (fuel + 1) ('\x22' :: (s.toList.flatMap escapeChar ++ ['\x22'] ++ rest)) = _
          rw [readValue, List.append_assoc, List.singleton_append, hread]
          rfl
  | .arr [], _, t, rest, fuel, h, _, _, hfuel => by
      cases h
      cases fuel with
      | zero => simp at hfuel
      | succ fuel => rfl
  | .arr (v :: vs), depth, t, rest, fuel, h, hd, _, hfuel => by
      obtain ⟨tv, ts, hv, hvs, rfl⟩ := layOut_arr_eq_some h
      rw [List.length_cons, List.length_append, List.length_append] at hfuel
      obtain ⟨fuel, rfl⟩ : ∃ k, fuel = k + 1 := ⟨fuel - 1, by omega⟩
      have hbegins : Begins (tv ++ ts) := (layOut_begins hv).append ts
      have hskip := hbegins.skip_before (layout.before_space (depth + 1)) rest
      rw [List.cons_append, List.append_assoc, readValue_list (by rw [hskip]; exact hbegins.append rest), hskip,
        readItems_layOut hhook (v :: vs) rfl hv hvs hd (by omega)]
      rfl
  | .obj [], _, t, rest, fuel, h, _, _, hfuel => by
      cases h
      cases fuel with
      | zero => simp at hfuel
      | succ fuel =>
          have hnil := hhook [] List.nodup_nil
          rw [show ['{', '}'] ++ rest = '{' :: '}' :: rest from rfl, readValue, skipSpace_cons (by decide)]
          show (hook []).bind _ = _
          rw [hnil]
          rfl
  | .obj ((k, v) :: ms), depth, t, rest, fuel, h, hd, _, hfuel => by
      obtain ⟨tv, ts, hv, hms, rfl⟩ := layOut_obj_eq_some h
      rw [List.length_cons, List.length_append, List.length_append, List.length_cons, List.length_append,
        List.length_append] at hfuel
      obtain ⟨fuel, rfl⟩ : ∃ k, fuel = k + 1 := ⟨fuel - 1, by omega⟩
      have hbegins : Begins (stringText k ++ ':' :: (layout.afterColon ++ (tv ++ ts))) :=
        (begins_stringText k).append _
      have hskip := hbegins.skip_before (layout.before_space (depth + 1)) rest
      have hkeep := hhook ((k, v) :: ms) hd.1
      rw [List.cons_append, List.append_assoc, readValue_object (by rw [hskip]; exact hbegins.append rest), hskip,
        readMembers_layOut hhook ((k, v) :: ms) rfl hv hms hd.2 (by omega)]
      show (hook ((k, v) :: ms)).map _ = _
      rw [hkeep]
      rfl

/-- Items are read as they were written. -/
theorem readItems_layOut (hhook : hook.Keeps) : ∀ (l : List Json) {v : Json} {vs : List Json} {depth : Nat}
    {tv ts rest : List Char} {fuel : Nat}, l = v :: vs → layOut layout v (depth + 1) = some tv →
    layOutItems layout vs depth = some ts → DistinctItems l → 2 * (tv.length + ts.length) < fuel →
    readItems hook fuel (tv ++ ts ++ rest) = some (l, rest)
  | [], _, _, _, _, _, _, _, hl, _, _, _, _ => by cases hl
  | v :: vs, _, _, depth, tv, ts, rest, fuel, hl, hv, hvs, hd, hfuel => by
      cases hl
      obtain ⟨fuel, rfl⟩ : ∃ k, fuel = k + 1 := ⟨fuel - 1, by omega⟩
      have hvalue : readValue hook fuel (tv ++ (ts ++ rest)) = some (v, ts ++ rest) :=
        readValue_layOut hhook v hv hd.1 (layOutItems_stops hvs rest) (by omega)
      rw [List.append_assoc]
      cases vs with
      | nil =>
          cases hvs
          refine readItems_last hvalue ?_
          rw [List.append_assoc, skipSpace_append (layout.before_space depth)]
          rfl
      | cons w ws =>
          obtain ⟨tw, tws, hw, hws, rfl⟩ := layOutItems_eq_some hvs
          rw [List.length_cons, List.length_append, List.length_append] at hfuel
          have hmore := @readItems_layOut hhook (w :: ws) w ws depth tw tws rest fuel rfl hw hws hd.2 (by omega)
          have hskip :=
            ((layOut_begins hw).append tws).skip_before (layout.before_space (depth + 1)) rest
          rw [List.cons_append, List.append_assoc] at hvalue ⊢
          rw [readItems_more hvalue, hskip, hmore]
          rfl

/-- Members are read as they were written. -/
theorem readMembers_layOut (hhook : hook.Keeps) : ∀ (l : List (String × Json)) {k : String} {v : Json}
    {ms : List (String × Json)} {depth : Nat} {tv ts rest : List Char} {fuel : Nat}, l = (k, v) :: ms →
    layOut layout v (depth + 1) = some tv → layOutMembers layout ms depth = some ts → DistinctMembers l →
    2 * ((stringText k).length + 1 + layout.afterColon.length + (tv.length + ts.length)) < fuel →
    readMembers hook fuel (stringText k ++ ':' :: (layout.afterColon ++ (tv ++ ts)) ++ rest) = some (l, rest)
  | [], _, _, _, _, _, _, _, _, hl, _, _, _, _ => by cases hl
  | (k, v) :: ms, _, _, _, depth, tv, ts, rest, fuel, hl, hv, hms, hd, hfuel => by
      cases hl
      obtain ⟨fuel, rfl⟩ : ∃ k, fuel = k + 1 := ⟨fuel - 1, by omega⟩
      have hskip : skipSpace (layout.afterColon ++ (tv ++ (ts ++ rest))) = tv ++ (ts ++ rest) :=
        (layOut_begins hv).skip_before layout.afterColon_space (ts ++ rest)
      have hvalue : readValue hook fuel (skipSpace (layout.afterColon ++ (tv ++ (ts ++ rest)))) =
          some (v, ts ++ rest) := by
        rw [hskip]
        exact readValue_layOut hhook v hv hd.1 (layOutMembers_stops hms rest) (by omega)
      rw [List.append_assoc, List.cons_append, List.append_assoc, List.append_assoc]
      cases ms with
      | nil =>
          cases hms
          refine readMembers_last hvalue ?_
          rw [List.append_assoc, skipSpace_append (layout.before_space depth)]
          rfl
      | cons m ms =>
          obtain ⟨k', w⟩ := m
          obtain ⟨tw, tws, hw, hws, rfl⟩ := layOutMembers_eq_some hms
          rw [List.length_cons, List.length_append, List.length_append, List.length_cons, List.length_append,
            List.length_append] at hfuel
          have hmore := @readMembers_layOut hhook ((k', w) :: ms) k' w ms depth tw tws rest fuel rfl hw hws hd.2
            (by omega)
          have hskip' := Begins.skip_before ((begins_stringText k').append (':' :: (layout.afterColon ++ (tw ++ tws))))
            (layout.before_space (depth + 1)) rest
          rw [List.cons_append, List.append_assoc] at hvalue ⊢
          rw [readMembers_more hvalue, hskip', hmore]
          rfl

end

/-- What is written is read, and it is the value that was written; white space may surround it. -/
theorem loads_layOut (hhook : hook.Keeps) {v : Json} {depth : Nat} {t space : List Char}
    (h : layOut layout v depth = some t) (hd : DistinctKeys v) (hspace : ∀ c ∈ space, isSpace c = true) :
    loads hook (t ++ space) = some v := by
  have hstop : Stops (space ++ []) := stops_of_space hspace fun c hc => by cases hc
  rw [List.append_nil] at hstop
  have hread := readValue_layOut hhook v h hd hstop (show 2 * t.length ≤ 2 * (t ++ space).length + 2 by
    rw [List.length_append]
    omega)
  have hend : skipSpace space = [] := by
    rw [← List.append_nil space, skipSpace_append hspace]
    rfl
  unfold loads
  rw [(layOut_begins h).skipSpace space, hread]
  show (if skipSpace space = [] then some v else none) = some v
  rw [if_pos hend]

/-- What is written is read, and it is the value that was written. -/
theorem loads_encode (hhook : hook.Keeps) {v : Json} {t : List Char} (h : encode v = some t)
    (hd : DistinctKeys v) : loads hook t = some v := by
  rw [encode_eq_layOut v 0] at h
  rw [← List.append_nil t]
  exact loads_layOut hhook h hd (List.forall_mem_nil _)

/-! ### The dictionary of the members -/

/-- Members of different names make a dictionary as they stand. -/
theorem dictHook_keeps : dictHook.Keeps := by
  intro ms hms
  have hfold (d : List (String × Json)) (hd : ((d ++ ms).map Prod.fst).Nodup) :
      ms.foldl (fun d m => if d.any fun e => e.1 == m.1 then d.map fun e => if e.1 == m.1 then m else e
        else d ++ [m]) d = d ++ ms := by
    clear hms
    induction ms generalizing d with
    | nil => exact (List.append_nil d).symm
    | cons m ms ih =>
        have hnew : (d.any fun e => e.1 == m.1) = false := by
          rw [List.any_eq_false]
          intro e he heq
          rw [List.map_append, List.nodup_append] at hd
          exact hd.2.2 e.1 (List.mem_map_of_mem he) m.1 (List.mem_cons_self) (beq_iff_eq.mp heq)
        rw [List.foldl_cons, hnew, if_neg (by decide), ih (d ++ [m])]
        · rw [List.append_assoc, List.singleton_append]
        · rw [List.append_assoc, List.singleton_append]
          exact hd
  exact congrArg some (hfold [] hms)

/-! ## Canonical values -/

theorem nameLe_total (cs ds : List Char) : nameLe cs ds = true ∨ nameLe ds cs = true := by
  induction cs generalizing ds with
  | nil => exact .inl rfl
  | cons c cs ih =>
      cases ds with
      | nil => exact .inr rfl
      | cons d ds =>
          unfold nameLe
          by_cases h : c = d
          · rw [if_pos h, if_pos h.symm]
            exact ih ds
          · rw [if_neg h, if_neg (Ne.symm h), decide_eq_true_iff, decide_eq_true_iff]
            exact Nat.le_total _ _

theorem nameLe_trans {cs ds es : List Char} (h : nameLe cs ds = true) (h' : nameLe ds es = true) :
    nameLe cs es = true := by
  induction cs generalizing ds es with
  | nil => rfl
  | cons c cs ih =>
      cases ds with
      | nil => cases h
      | cons d ds =>
          cases es with
          | nil => cases h'
          | cons e es =>
              unfold nameLe at h h' ⊢
              by_cases hcd : c = d
              · subst hcd
                rw [if_pos rfl] at h
                by_cases hce : c = e
                · rw [if_pos hce] at h' ⊢
                  exact ih h h'
                · rw [if_neg hce] at h' ⊢
                  exact h'
              · rw [if_neg hcd, decide_eq_true_iff] at h
                by_cases hde : d = e
                · subst hde
                  rw [if_neg hcd, decide_eq_true_iff]
                  exact h
                · rw [if_neg hde, decide_eq_true_iff] at h'
                  have hce : c ≠ e := fun hce => by
                    subst hce
                    exact hcd (Char.toNat_inj.mp (Nat.le_antisymm h h'))
                  rw [if_neg hce, decide_eq_true_iff]
                  exact Nat.le_trans h h'

instance : Std.Total MemberLe := ⟨fun m m' => nameLe_total m.1.toList m'.1.toList⟩

instance : IsTrans (String × Json) MemberLe := ⟨fun _ _ _ h h' => nameLe_trans h h'⟩

theorem sortItems_eq_map (vs : List Json) : sortItems vs = vs.map sort := by
  induction vs with
  | nil => rfl
  | cons v vs ih =>
      rw [sortItems, ih]
      rfl

theorem sortMembers_eq_map (ms : List (String × Json)) :
    sortMembers ms = ms.map fun m => (m.1, sort m.2) := by
  induction ms with
  | nil => rfl
  | cons m ms ih =>
      obtain ⟨k, v⟩ := m
      rw [sortMembers, ih]
      rfl

theorem distinctMembers_iff {ms : List (String × Json)} :
    DistinctMembers ms ↔ ∀ m ∈ ms, DistinctKeys m.2 := by
  induction ms with
  | nil => exact ⟨fun _ => List.forall_mem_nil _, fun _ => trivial⟩
  | cons m ms ih => rw [DistinctMembers, ih, List.forall_mem_cons]

mutual

/-- Sorting twice is sorting once. -/
theorem sort_sort : ∀ v : Json, sort (sort v) = sort v
  | .null => rfl
  | .bool _ => rfl
  | .int _ => rfl
  | .float _ => rfl
  | .str _ => rfl
  | .arr vs => by rw [sort, sort, sortItems_sortItems vs]
  | .obj ms => by
      have hself : sortMembers ((sortMembers ms).insertionSort MemberLe) =
          (sortMembers ms).insertionSort MemberLe := by
        have hmember : ∀ m ∈ (sortMembers ms).insertionSort MemberLe, (m.1, sort m.2) = m := by
          intro m hm
          rw [sortMembers_sortMembers ms m ((List.mem_insertionSort MemberLe).mp hm)]
        rw [sortMembers_eq_map, List.map_congr_left hmember, List.map_id']
      rw [sort, sort, hself, (List.pairwise_insertionSort MemberLe _).insertionSort_eq]

theorem sortItems_sortItems : ∀ vs : List Json, sortItems (sortItems vs) = sortItems vs
  | [] => rfl
  | v :: vs => by rw [sortItems, sortItems, sort_sort v, sortItems_sortItems vs]

theorem sortMembers_sortMembers : ∀ ms : List (String × Json), ∀ m ∈ sortMembers ms, sort m.2 = m.2
  | [], _, h => by cases h
  | (k, v) :: ms, m, h => by
      rw [sortMembers] at h
      rcases List.mem_cons.mp h with rfl | h
      · exact sort_sort v
      · exact sortMembers_sortMembers ms m h

end

mutual

theorem distinctKeys_sort : ∀ {v : Json}, DistinctKeys v → DistinctKeys (sort v)
  | .null, _ => trivial
  | .bool _, _ => trivial
  | .int _, _ => trivial
  | .float _, _ => trivial
  | .str _, _ => trivial
  | .arr vs, h => @distinctItems_sort vs h
  | .obj ms, h => by
      have hperm := List.perm_insertionSort MemberLe (sortMembers ms)
      refine ⟨?_, ?_⟩
      · rw [(hperm.map Prod.fst).nodup_iff, sortMembers_eq_map, List.map_map]
        exact h.1
      · rw [distinctMembers_iff]
        intro m hm
        exact distinctMembers_iff.mp (distinctMembers_sort h.2) m (hperm.mem_iff.mp hm)

theorem distinctItems_sort : ∀ {vs : List Json}, DistinctItems vs → DistinctItems (sortItems vs)
  | [], _ => trivial
  | _ :: _, h => ⟨distinctKeys_sort h.1, distinctItems_sort h.2⟩

theorem distinctMembers_sort : ∀ {ms : List (String × Json)}, DistinctMembers ms →
    DistinctMembers (sortMembers ms)
  | [], _ => trivial
  | (_, _) :: _, h => ⟨distinctKeys_sort h.1, distinctMembers_sort h.2⟩

end

/-- A canonical text is read as the value with its members in order. -/
theorem loads_canonicalJson (hhook : hook.Keeps) {v : Json} {t : List Char} (h : canonicalJson v = some t)
    (hd : DistinctKeys v) : loads hook t = some (sort v) :=
  loads_encode hhook h (distinctKeys_sort hd)

end Json

end Ramulator.Lib
