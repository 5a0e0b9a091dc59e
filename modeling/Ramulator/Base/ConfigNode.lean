/-
# Ramulator.Base.ConfigNode — the values of a configuration, and how a parameter is read.

`ConfigNode` (`base/config_node.h`) keeps a configuration as texts. A component reads its parameters with
`ParamReader` (`base/param.h`): what is not given has its default or is an error, and a text is converted by the
conversions of the language. They skip spaces at the front and stop at the first character that does not belong
to a number.

A configuration file is JSON that Python has written. `ofJson` says which node comes of a value: a number is
the text that stands for it.
-/
import Ramulator.Lib.CInt
import Ramulator.Lib.Json
import Ramulator.Lib.Fallible

namespace Ramulator.Base

open Ramulator.Lib

/-- What ends a computation. An overflow of a signed integer has no defined result. -/
inductive Fault where
  | logic (what : String)
  | runtime (what : String)
  | overflow
  deriving DecidableEq, Repr

/-- The result of arithmetic that may overflow. -/
def checked {α : Type} : Option α → Except Fault α
  | some a => .ok a
  | none => .error .overflow

/-! ## The conversions of texts -/

/-- `isspace`. -/
def isSpace (c : Char) : Bool := c = ' ' || ('\t'.toNat ≤ c.toNat && c.toNat ≤ '\r'.toNat)

/-- The integer at the front of a text. -/
def readInteger (cs : List Char) : Option Int :=
  let sign := readSign (cs.dropWhile isSpace)
  let digits := (takeDigits sign.2).1
  let n : Int := Nat.ofDigitChars 10 digits 0
  if digits = [] then none else some (if sign.1 then -n else n)

/-- `std::stoi`. -/
def stoi (cs : List Char) : Except Fault Int :=
  match readInteger cs with
  | none => .error (.logic "stoi")
  | some n => if CInt.Fits 32 n then .ok n else .error (.logic "stoi")

/-- `std::stoul`. A minus sign negates the number in the type of the result. -/
def stoul (cs : List Char) : Except Fault UInt64 :=
  match readInteger cs with
  | none => .error (.logic "stoul")
  | some n => if n.natAbs < 2 ^ 64 then .ok (UInt64.ofInt n) else .error (.logic "stoul")

theorem isSpace_of_isDigit {c : Char} (h : c.isDigit = true) : isSpace c = false := by
  have hlow : '0'.toNat ≤ c.toNat := (Bool.and_eq_true _ _ ▸ h).1 |> of_decide_eq_true
  unfold isSpace
  rw [Bool.or_eq_false_iff, Bool.and_eq_false_iff]
  refine ⟨decide_eq_false ?_, .inr (decide_eq_false ?_)⟩
  · rintro rfl
    exact absurd hlow (by decide)
  · exact fun hhigh => absurd (hlow.trans hhigh) (by decide)

/-- An integer is read as it is written. -/
theorem readInteger_intText (n : Int) : readInteger (intText n) = some n := by
  obtain ⟨c, cs, hcons⟩ : ∃ c cs, Nat.toDigits 10 n.natAbs = c :: cs :=
    List.exists_cons_of_ne_nil Nat.toDigits_ne_nil
  have hdigits := allDigits_toDigits n.natAbs
  have hc : c.isDigit = true := hdigits c (hcons ▸ List.mem_cons_self)
  have htake : takeDigits (c :: cs) = (Nat.toDigits 10 n.natAbs, []) := by
    have hnil : ∀ c ∈ ([] : List Char).head?, c.isDigit = false := by simp
    have happend := takeDigits_append hdigits hnil
    rw [List.append_nil] at happend
    rw [← hcons, happend]
  have hsign : readSign ((intText n).dropWhile isSpace) = (decide (n < 0), c :: cs) := by
    unfold intText
    rw [hcons]
    cases decide (n < 0) with
    | true => rfl
    | false =>
        show readSign ((c :: cs).dropWhile isSpace) = _
        rw [List.dropWhile_cons_of_neg (by rw [isSpace_of_isDigit hc]; decide)]
        unfold readSign
        split
        · rename_i heq
          cases heq
          cases hc
        · rename_i heq
          cases heq
          cases hc
        · rfl
  unfold readInteger
  dsimp only
  rw [hsign]
  dsimp only
  rw [htake, if_neg Nat.toDigits_ne_nil, Nat.ofDigitChars_ten_toDigits]
  by_cases hneg : n < 0
  · rw [decide_eq_true hneg, if_pos rfl]
    exact congrArg some (by omega)
  · rw [decide_eq_false hneg, if_neg Bool.false_ne_true]
    exact congrArg some (by omega)

theorem stoi_intText {n : Int} (h : CInt.Fits 32 n) : stoi (intText n) = .ok n := by
  unfold stoi
  rw [readInteger_intText]
  exact if_pos h

theorem stoul_intText {n : Int} (h : n.natAbs < 2 ^ 64) : stoul (intText n) = .ok (UInt64.ofInt n) := by
  unfold stoul
  rw [readInteger_intText]
  exact if_pos h

/-! ## Nodes -/

/-- A node: a text, members with names, or a sequence. -/
inductive ConfigNode where
  | null
  | scalar (s : List Char)
  | map (members : List (String × ConfigNode))
  | seq (items : List ConfigNode)

namespace ConfigNode

/-- `operator[]`. -/
def get : ConfigNode → String → ConfigNode
  | .map members, name => (members.lookup name).getD .null
  | _, _ => .null

/-- `as<std::string>`. -/
def asString : ConfigNode → Except Fault (List Char)
  | .null => .error (.runtime "ConfigNode: cannot convert null node")
  | .scalar s => .ok s
  | _ => .error (.runtime "ConfigNode is not a scalar")

/-- `as<int>`. -/
def asInt (node : ConfigNode) : Except Fault Int := node.asString >>= stoi

/-- `as<unsigned>`: what does not fit is cut off. -/
def asUnsigned (node : ConfigNode) : Except Fault UInt32 := (node.asString >>= stoul).map UInt64.toUInt32

/-- `as<uint64_t>`. -/
def asUInt64 (node : ConfigNode) : Except Fault UInt64 := node.asString >>= stoul

/-- `as<bool>`. -/
def asBool (node : ConfigNode) : Except Fault Bool := do
  let s ← node.asString
  if s ∈ ["true", "1", "yes"].map String.toList then pure true
  else if s ∈ ["false", "0", "no"].map String.toList then pure false
  else .error (.runtime ("ConfigNode: cannot convert '" ++ String.ofList s ++ "' to bool"))

/-- `as<std::vector<int>>`: a text counts as a sequence of one. -/
def asInts : ConfigNode → Except Fault (List Int)
  | .seq items => items.mapM asInt
  | node => node.asInt.map fun n => [n]

mutual

/-- The node that a configuration file has for a value. -/
def ofJson : Json → ConfigNode
  | .null => .null
  | .bool b => .scalar (if b then "true".toList else "false".toList)
  | .int n => .scalar (intText n)
  | .float x => .scalar ((Json.encodeFloat x).getD [])
  | .str s => .scalar s.toList
  | .arr items => .seq (ofItems items)
  | .obj members => .map (ofMembers members)

def ofItems : List Json → List ConfigNode
  | [] => []
  | v :: vs => ofJson v :: ofItems vs

def ofMembers : List (String × Json) → List (String × ConfigNode)
  | [] => []
  | (name, v) :: ms => (name, ofJson v) :: ofMembers ms

end

theorem ofItems_eq_map (items : List Json) : ofItems items = items.map ofJson := by
  induction items with
  | nil => rfl
  | cons v vs ih => exact congrArg (ofJson v :: ·) ih

theorem get_ofJson (members : List (String × Json)) (name : String) :
    (ofJson (.obj members)).get name = ((members.lookup name).map ofJson).getD .null := by
  show ((ofMembers members).lookup name).getD .null = _
  congr 1
  induction members with
  | nil => rfl
  | cons m ms ih =>
      obtain ⟨name', v⟩ := m
      show List.lookup name ((name', ofJson v) :: ofMembers ms) = _
      rw [List.lookup_cons, List.lookup_cons]
      cases name == name' with
      | true => rfl
      | false => exact ih

theorem asInt_ofJson {n : Int} (h : CInt.Fits 32 n) : (ofJson (.int n)).asInt = .ok n := stoi_intText h

theorem asUInt64_ofJson {n : Int} (h : n.natAbs < 2 ^ 64) : (ofJson (.int n)).asUInt64 = .ok (UInt64.ofInt n) :=
  stoul_intText h

theorem asBool_ofJson (b : Bool) : (ofJson (.bool b)).asBool = .ok b := by
  cases b <;> rfl

theorem asInts_ofJson {ns : List Int} (h : ∀ n ∈ ns, CInt.Fits 32 n) :
    (ofJson (.arr (ns.map .int))).asInts = .ok ns := by
  show (ofItems (ns.map .int)).mapM asInt = _
  rw [ofItems_eq_map, List.map_map, mapM_ok, List.forall₂_map_left_iff]
  exact List.forall₂_same.mpr fun n hn => asInt_ofJson (h n hn)

end ConfigNode

/-! ## Parameters -/

/-- `ParamReader`. -/
structure ParamReader (α : Type) where
  config : ConfigNode
  name : String
  implName : String
  as : ConfigNode → Except Fault α

namespace ParamReader

variable {α : Type}

/-- `parse`: a `std::runtime_error` is reported with the name, other exceptions pass. -/
def parse (r : ParamReader α) : Except Fault α :=
  match r.as (r.config.get r.name) with
  | .error (.runtime what) =>
      .error (.runtime ("Failed to parse param \"" ++ r.name ++ "\" for \"" ++ r.implName ++ "\": " ++ what))
  | result => result

def required (r : ParamReader α) : Except Fault α :=
  match r.config.get r.name with
  | .null => .error (.runtime
      ("Param \"" ++ r.name ++ "\" for \"" ++ r.implName ++ "\" is required but not given."))
  | _ => r.parse

def defaultVal (r : ParamReader α) (d : α) : Except Fault α :=
  match r.config.get r.name with
  | .null => .ok d
  | _ => r.parse

theorem parse_eq_ok {r : ParamReader α} {a : α} (h : r.as (r.config.get r.name) = .ok a) : r.parse = .ok a := by
  unfold parse
  rw [h]

theorem required_eq_ok {r : ParamReader α} {a : α} (hgiven : r.config.get r.name ≠ .null)
    (h : r.as (r.config.get r.name) = .ok a) : r.required = .ok a := by
  unfold required
  split
  · contradiction
  · exact parse_eq_ok h

theorem defaultVal_eq_ok {r : ParamReader α} {a d : α} (hgiven : r.config.get r.name ≠ .null)
    (h : r.as (r.config.get r.name) = .ok a) : r.defaultVal d = .ok a := by
  unfold defaultVal
  split
  · contradiction
  · exact parse_eq_ok h

end ParamReader

end Ramulator.Base
