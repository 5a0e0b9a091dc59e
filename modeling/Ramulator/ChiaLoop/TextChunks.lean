/-
# Ramulator.ChiaLoop.TextChunks — a text cut into pieces of bounded size.

`text_chunks` (`framework/compaction.py`) cuts a text for the summarizer. It takes as many characters as there may
be bytes, and halves that number as long as their encoding is too long. A character has at most four bytes, so
with room for four the number never comes down to zero, and the loops end.
-/
import Ramulator.Lib.Loop
import Mathlib.Order.WellFounded
import Mathlib.Data.Prod.Lex

namespace Ramulator.ChiaLoop.Compaction

open Ramulator.Lib

/-- The encoding of a text. -/
def encode (text : List Char) : List UInt8 := text.flatMap String.utf8EncodeChar

/-- The loops of `text_chunks`: the text that is left, the number of characters that are tried, and what has been
yielded. -/
structure Chunking where
  text : List Char
  length : Option Nat := none
  yielded : List (List Char) := []
  deriving DecidableEq, Repr

/-- One turn: the outer loop's condition, a turn of the inner loop, or the rest of the outer one. -/
def chunkStep (maximumBytes : Nat) (s : Chunking) : Loop.Outcome Chunking (List (List Char)) :=
  match s.length with
  | none =>
      if s.text = [] then .done s.yielded
      else .running { s with length := some (min s.text.length maximumBytes) }
  | some length =>
      if (encode (s.text.take length)).length > maximumBytes then .running { s with length := some (length / 2) }
      else .running { text := s.text.drop length, yielded := s.yielded ++ [s.text.take length] }

/-- `text_chunks`, if it ends within `fuel` turns. -/
def textChunks (fuel : Nat) (text : List Char) (maximumBytes : Nat) : Except String (Option (List (List Char))) :=
  if maximumBytes < 4 then .error "summary chunk must hold at least one UTF-8 character"
  else .ok (Loop.run (chunkStep maximumBytes) fuel { text := text })

/-! ## Encodings -/

theorem encode_append (s t : List Char) : encode (s ++ t) = encode s ++ encode t := List.flatMap_append

theorem flatten_map_encode (chunks : List (List Char)) : (chunks.map encode).flatten = encode chunks.flatten := by
  induction chunks with
  | nil => rfl
  | cons chunk chunks ih =>
      rw [List.map_cons, List.flatten_cons, List.flatten_cons, ih, encode_append]

/-- A character has at most four bytes. -/
theorem length_encode_le (text : List Char) : (encode text).length ≤ 4 * text.length := by
  induction text with
  | nil => exact Nat.le_refl 0
  | cons c text ih =>
      show (String.utf8EncodeChar c ++ encode text).length ≤ 4 * (text.length + 1)
      rw [List.length_append, String.length_utf8EncodeChar]
      have hc := c.utf8Size_le_four
      omega

/-! ## The loops -/

/-- A piece that may be yielded. -/
def Fits (maximumBytes : Nat) (chunk : List Char) : Prop := chunk ≠ [] ∧ (encode chunk).length ≤ maximumBytes

/-- Nothing is lost, and at least one character is tried. -/
structure Inv (text : List Char) (maximumBytes : Nat) (s : Chunking) : Prop where
  joined : s.yielded.flatten ++ s.text = text
  fits : ∀ chunk ∈ s.yielded, Fits maximumBytes chunk
  length : ∀ length, s.length = some length → 0 < length ∧ length ≤ s.text.length

/-- The characters that are left, then the characters that are tried. -/
def remaining (s : Chunking) : Nat ×ₗ Nat :=
  toLex (s.text.length, match s.length with
    | none => s.text.length + 1
    | some length => length)

variable {text : List Char} {maximumBytes : Nat} {s : Chunking}

/-- More than four bytes are more than one character. -/
theorem one_lt_of_long {length : Nat} (hmax : 4 ≤ maximumBytes)
    (hlong : maximumBytes < (encode (s.text.take length)).length) : 1 < length := by
  have hbound := length_encode_le (s.text.take length)
  have htake := List.length_take_le length s.text
  omega

theorem Inv.step (hmax : 4 ≤ maximumBytes) (h : Inv text maximumBytes s) :
    (∃ chunks, chunkStep maximumBytes s = .done chunks ∧ chunks.flatten = text ∧
        ∀ chunk ∈ chunks, Fits maximumBytes chunk) ∨
      ∃ s', chunkStep maximumBytes s = .running s' ∧ Inv text maximumBytes s' ∧ remaining s' < remaining s := by
  unfold chunkStep
  cases hlength : s.length with
  | none =>
      dsimp only
      split_ifs with hnil
      · refine .inl ⟨_, rfl, ?_, h.fits⟩
        rw [← h.joined, hnil, List.append_nil]
      · have hpos := List.length_pos_iff.mpr hnil
        refine .inr ⟨_, rfl, ⟨h.joined, h.fits, fun length heq => ?_⟩, ?_⟩
        · obtain rfl := Option.some.inj heq
          exact ⟨by omega, Nat.min_le_left _ _⟩
        · unfold remaining
          rw [hlength, Prod.Lex.toLex_lt_toLex]
          exact .inr ⟨rfl, Nat.lt_succ_of_le (Nat.min_le_left _ _)⟩
  | some length =>
      obtain ⟨hpos, hle⟩ := h.length length hlength
      dsimp only
      split_ifs with hlong
      · have htwo := one_lt_of_long hmax hlong
        refine .inr ⟨_, rfl, ⟨h.joined, h.fits, fun half heq => ?_⟩, ?_⟩
        · obtain rfl := Option.some.inj heq
          exact ⟨by omega, (Nat.div_le_self _ _).trans hle⟩
        · unfold remaining
          rw [hlength, Prod.Lex.toLex_lt_toLex]
          exact .inr ⟨rfl, Nat.div_lt_self hpos (by decide)⟩
      · refine .inr ⟨_, rfl, ⟨?_, fun chunk hchunk => ?_, nofun⟩, ?_⟩
        · dsimp only
          rw [List.flatten_append, List.flatten_singleton, List.append_assoc, List.take_append_drop]
          exact h.joined
        · rcases List.mem_append.mp hchunk with hchunk | hchunk
          · exact h.fits chunk hchunk
          · rw [List.mem_singleton.mp hchunk]
            refine ⟨List.ne_nil_of_length_pos ?_, Nat.not_lt.mp hlong⟩
            rw [List.length_take]
            omega
        · unfold remaining
          rw [Prod.Lex.toLex_lt_toLex]
          left
          show (s.text.drop length).length < s.text.length
          rw [List.length_drop]
          omega

/-- The cutting ends. The pieces are the text, none is empty, and each has at most so many bytes. -/
theorem textChunks_total (text : List Char) (maximumBytes : Nat) (hmax : 4 ≤ maximumBytes) :
    ∃ fuel chunks, (∀ more, fuel ≤ more → textChunks more text maximumBytes = .ok (some chunks)) ∧
      chunks.flatten = text ∧ (chunks.map encode).flatten = encode text ∧
      ∀ chunk ∈ chunks, chunk ≠ [] ∧ (encode chunk).length ≤ maximumBytes := by
  have hstart : Inv text maximumBytes { text := text } := ⟨rfl, nofun, nofun⟩
  obtain ⟨fuel, chunks, hrun, hjoined, hfits⟩ :=
    Loop.run_of_wellFounded (InvImage.wf remaining wellFounded_lt) (fun s hs => hs.step hmax) hstart
  refine ⟨fuel, chunks, fun more hmore => ?_, hjoined, (flatten_map_encode chunks).trans (congrArg encode hjoined),
    hfits⟩
  unfold textChunks
  rw [if_neg (Nat.not_lt.mpr hmax), Loop.run_mono hmore hrun]

theorem textChunks_total_four : ∃ fuel chunks,
    (∀ more, fuel ≤ more → textChunks more ['a', 'é', '€', '😀'] 4 = .ok (some chunks)) ∧
      chunks.flatten = ['a', 'é', '€', '😀'] ∧ (chunks.map encode).flatten = encode ['a', 'é', '€', '😀'] ∧
      ∀ chunk ∈ chunks, chunk ≠ [] ∧ (encode chunk).length ≤ 4 :=
  textChunks_total _ 4 (by decide)

end Ramulator.ChiaLoop.Compaction
