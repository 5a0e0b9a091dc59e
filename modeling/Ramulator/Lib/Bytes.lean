/-
# Ramulator.Lib.Bytes — numbers and tables in files.

A number is written in little-endian order in as many bytes as its type has, a signed one by its two's complement.
A file is its bytes and the place at which the next write goes; a write replaces what is there, and goes on at the
end of the file.

A reader takes what it wants from the front of a sequence. `Reads` says that it takes a given sequence of bytes,
whatever follows them, and gives a given value; readers of the parts of a file make a reader of the file. A table
whose entries have one width can also be read at an offset (`slice_flatMap`).
-/
import Mathlib.Data.Nat.Basic
import Mathlib.Data.List.Basic
import Mathlib.Algebra.Order.Ring.Int
import Mathlib.Tactic.Ring
import Mathlib.Tactic.Positivity

namespace Ramulator.Lib

/-! ## Numbers -/

/-- The lowest `w` bytes of a number. -/
def natBytes : Nat → Nat → List UInt8
  | 0, _ => []
  | w + 1, n => UInt8.ofNat n :: natBytes w (n / 256)

/-- The number that bytes stand for. -/
def natOfBytes : List UInt8 → Nat
  | [] => 0
  | b :: bs => b.toNat + 256 * natOfBytes bs

/-- The bytes of an integer of `w` bytes. -/
def intBytes (w : Nat) (x : Int) : List UInt8 := natBytes w (x % 256 ^ w).toNat

/-- The signed integer that bytes stand for. -/
def intOfBytes (bs : List UInt8) : Int := Int.bmod (natOfBytes bs) (256 ^ bs.length)

@[simp] theorem length_natBytes (w n : Nat) : (natBytes w n).length = w := by
  induction w generalizing n with
  | zero => rfl
  | succ w ih => exact congrArg Nat.succ (ih _)

@[simp] theorem length_intBytes (w : Nat) (x : Int) : (intBytes w x).length = w := length_natBytes w _

theorem natOfBytes_natBytes {w n : Nat} (h : n < 256 ^ w) : natOfBytes (natBytes w n) = n := by
  induction w generalizing n with
  | zero => exact (Nat.lt_one_iff.mp h).symm
  | succ w ih =>
      have hrest : n / 256 < 256 ^ w := by
        rw [Nat.pow_succ'] at h
        exact Nat.div_lt_of_lt_mul h
      show (UInt8.ofNat n).toNat + 256 * natOfBytes (natBytes w (n / 256)) = n
      rw [ih hrest, UInt8.toNat_ofNat']
      exact Nat.mod_add_div n 256

theorem natOfBytes_intBytes {w : Nat} {x : Int} (h : 0 ≤ x) (hlt : x < 256 ^ w) :
    (natOfBytes (intBytes w x) : Int) = x := by
  have hmod : x % 256 ^ w = x := Int.emod_eq_of_lt h hlt
  have hnat : x.toNat < 256 ^ w := by
    have hcast : ((256 ^ w : Nat) : Int) = 256 ^ w := by push_cast; rfl
    omega
  unfold intBytes
  rw [hmod, natOfBytes_natBytes hnat]
  exact Int.toNat_of_nonneg h

/-- A signed integer that its bytes can hold. -/
theorem intOfBytes_intBytes {w : Nat} {x : Int} (h : -(256 ^ w : Nat) ≤ 2 * x) (hlt : 2 * x < (256 ^ w : Nat)) :
    intOfBytes (intBytes w x) = x := by
  have hpos : (0 : Int) < 256 ^ w := by positivity
  have hcast : ((256 ^ w : Nat) : Int) = 256 ^ w := by push_cast; rfl
  have hnonneg : 0 ≤ x % 256 ^ w := Int.emod_nonneg x hpos.ne'
  have hmod : (x % 256 ^ w).toNat < 256 ^ w := by
    have := Int.emod_lt_of_pos x hpos
    omega
  unfold intOfBytes
  rw [length_intBytes]
  unfold intBytes
  rw [natOfBytes_natBytes hmod, Int.toNat_of_nonneg hnonneg, ← hcast, Int.emod_bmod]
  exact Int.bmod_eq_of_le_mul_two (by omega) (by omega)

/-! ## Files -/

/-- A file that is open for writing. -/
structure ByteFile where
  bytes : List UInt8 := []
  pos : Nat := 0

namespace ByteFile

/-- The file with its next write at the end. -/
def ofBytes (bs : List UInt8) : ByteFile := ⟨bs, bs.length⟩

def write (f : ByteFile) (bs : List UInt8) : ByteFile :=
  ⟨f.bytes.take f.pos ++ bs ++ f.bytes.drop (f.pos + bs.length), f.pos + bs.length⟩

/-- `seekp`. -/
def seek (f : ByteFile) (pos : Nat) : ByteFile := { f with pos := pos }

/-- A write at the end goes on with the file. -/
@[simp] theorem write_ofBytes (bs bs' : List UInt8) : (ofBytes bs).write bs' = ofBytes (bs ++ bs') := by
  unfold write ofBytes
  rw [List.take_length, List.drop_eq_nil_of_le (Nat.le_add_right _ _), List.append_nil, List.length_append]

/-- Writes at the end, one after another. -/
theorem foldl_write_ofBytes {α : Type} (enc : α → List UInt8) (xs : List α) (bs : List UInt8) :
    xs.foldl (fun f x => write f (enc x)) (ofBytes bs) = ofBytes (bs ++ xs.flatMap enc) := by
  induction xs generalizing bs with
  | nil => rw [List.foldl_nil, List.flatMap_nil, List.append_nil]
  | cons x xs ih => rw [List.foldl_cons, write_ofBytes, ih, List.flatMap_cons, List.append_assoc]

/-- A write within the file replaces as much. -/
theorem write_mid {f : ByteFile} (front old back : List UInt8) {new : List UInt8}
    (hbytes : f.bytes = front ++ old ++ back) (hpos : f.pos = front.length) (hlen : new.length = old.length) :
    f.write new = ⟨front ++ new ++ back, front.length + new.length⟩ := by
  have hdrop : (front ++ old ++ back).drop (front.length + new.length) = back := by
    rw [hlen, ← List.length_append, List.drop_left]
  have htake : (front ++ old ++ back).take front.length = front := by
    rw [List.append_assoc, List.take_left]
  unfold write
  rw [hbytes, hpos, hdrop, htake]

end ByteFile

/-! ## Readers -/

/-- What takes a value from the front of a sequence of bytes. -/
abbrev ByteReader (α : Type) := List UInt8 → Option (α × List UInt8)

namespace ByteReader

variable {α β : Type}

/-- `p` takes `bs` and gives `a`, whatever follows. -/
def Reads (p : ByteReader α) (bs : List UInt8) (a : α) : Prop := ∀ rest, p (bs ++ rest) = some (a, rest)

/-- Bytes, as many as asked for. -/
def take (n : Nat) : ByteReader (List UInt8) := fun bs =>
  if n ≤ bs.length then some (bs.take n, bs.drop n) else none

/-- The value of what is read. -/
def map (f : α → β) (p : ByteReader α) : ByteReader β := fun bs => (p bs).map fun r => (f r.1, r.2)

/-- As many values as asked for. -/
def many (p : ByteReader α) : Nat → ByteReader (List α)
  | 0, bs => some ([], bs)
  | n + 1, bs => do
      let a ← p bs
      let as ← many p n a.2
      pure (a.1 :: as.1, as.2)

/-- A string up to the zero that ends it. -/
def cstring : ByteReader (List UInt8)
  | [] => none
  | b :: bs => if b = 0 then some ([], bs) else do
      let s ← cstring bs
      pure (b :: s.1, s.2)

/-- An unsigned number of `w` bytes. -/
def unsigned (w : Nat) : ByteReader Int := map (fun bs => (natOfBytes bs : Int)) (take w)

/-- A signed number of `w` bytes. -/
def signed (w : Nat) : ByteReader Int := map intOfBytes (take w)

theorem take_reads (bs : List UInt8) : (take bs.length).Reads bs bs := fun rest => by
  unfold take
  rw [if_pos (List.length_append ▸ Nat.le_add_right _ _), List.take_left, List.drop_left]

theorem Reads.map {p : ByteReader α} {bs : List UInt8} {a : α} (h : p.Reads bs a) (f : α → β) :
    (p.map f).Reads bs (f a) := fun rest => by
  unfold ByteReader.map
  rw [h rest]
  rfl

theorem Reads.many {p : ByteReader α} (enc : α → List UInt8) (xs : List α) (h : ∀ x ∈ xs, p.Reads (enc x) x) :
    (p.many xs.length).Reads (xs.flatMap enc) xs := fun rest => by
  induction xs with
  | nil => rfl
  | cons x xs ih =>
      rw [List.flatMap_cons, List.append_assoc]
      show (p (enc x ++ (xs.flatMap enc ++ rest)) >>= fun a => _) = _
      rw [h x List.mem_cons_self]
      show (ByteReader.many p xs.length (xs.flatMap enc ++ rest) >>= fun as => _) = _
      rw [ih fun y hy => h y (List.mem_cons_of_mem _ hy)]
      rfl

theorem cstring_reads {s : List UInt8} (h : (0 : UInt8) ∉ s) : cstring.Reads (s ++ [0]) s := fun rest => by
  induction s with
  | nil => rfl
  | cons b s ih =>
      have hb : b ≠ 0 := fun heq => h (heq ▸ List.mem_cons_self)
      show (if b = 0 then _ else cstring (s ++ [0] ++ rest) >>= fun s => _) = _
      rw [if_neg hb, ih fun hmem => h (List.mem_cons_of_mem _ hmem)]
      rfl

theorem unsigned_reads {w : Nat} {x : Int} (h : 0 ≤ x) (hlt : x < 256 ^ w) :
    (unsigned w).Reads (intBytes w x) x := by
  have hread := (take_reads (intBytes w x)).map fun bs => (natOfBytes bs : Int)
  rw [length_intBytes, natOfBytes_intBytes h hlt] at hread
  exact hread

theorem signed_reads {w : Nat} {x : Int} (h : -(256 ^ w : Nat) ≤ 2 * x) (hlt : 2 * x < (256 ^ w : Nat)) :
    (signed w).Reads (intBytes w x) x := by
  have hread := (take_reads (intBytes w x)).map intOfBytes
  rw [length_intBytes, intOfBytes_intBytes h hlt] at hread
  exact hread

end ByteReader

/-! ## Reading at an offset -/

/-- `n` bytes from an offset on. -/
def slice (bs : List UInt8) (offset n : Nat) : List UInt8 := (bs.drop offset).take n

theorem slice_append {front bs back : List UInt8} {offset n : Nat} (hoffset : offset = front.length)
    (hn : n = bs.length) : slice (front ++ bs ++ back) offset n = bs := by
  subst hoffset hn
  unfold slice
  rw [List.append_assoc, List.drop_left, List.take_left]

/-- A part of a part. -/
theorem slice_slice (bs : List UInt8) {offset n i m : Nat} (h : i + m ≤ n) :
    slice (slice bs offset n) i m = slice bs (offset + i) m := by
  unfold slice
  rw [List.drop_take, List.drop_drop, List.take_take, Nat.min_eq_left (by omega)]

/-- How long a table is. -/
theorem length_flatMap_const {α : Type} {enc : α → List UInt8} {w : Nat} {xs : List α}
    (hw : ∀ x ∈ xs, (enc x).length = w) : (xs.flatMap enc).length = w * xs.length := by
  induction xs with
  | nil => rfl
  | cons x xs ih =>
      rw [List.flatMap_cons, List.length_append, hw x List.mem_cons_self,
        ih fun y hy => hw y (List.mem_cons_of_mem _ hy), List.length_cons, Nat.mul_succ, Nat.add_comm]

/-- The entry of a table. -/
theorem slice_flatMap {α : Type} {enc : α → List UInt8} {w : Nat} {xs : List α}
    (hw : ∀ x ∈ xs, (enc x).length = w) {i : Nat} (hi : i < xs.length) {front back : List UInt8} {offset : Nat}
    (hoffset : offset = front.length + w * i) : slice (front ++ xs.flatMap enc ++ back) offset w = enc xs[i] := by
  have hsplit : xs.flatMap enc = (xs.take i).flatMap enc ++ enc xs[i] ++ (xs.drop (i + 1)).flatMap enc := by
    conv_lhs => rw [← List.take_append_drop i xs, List.drop_eq_getElem_cons hi]
    rw [List.flatMap_append, List.flatMap_cons, List.append_assoc]
  have hfront : ((xs.take i).flatMap enc).length = w * i := by
    rw [length_flatMap_const fun x hx => hw x (List.mem_of_mem_take hx), List.length_take, Nat.min_eq_left hi.le]
  rw [hsplit, ← List.append_assoc, ← List.append_assoc, List.append_assoc _ _ back]
  refine slice_append ?_ (hw _ (List.getElem_mem hi)).symm
  rw [hoffset, List.length_append, hfront]

end Ramulator.Lib
