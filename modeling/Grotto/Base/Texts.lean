/- GID: Grotto/Base/Texts
   digest: Texts and their UTF-8 bytes, slices that may panic, integers, lines and words. -/

import Mathlib.Algebra.Order.Ring.Nat
import Mathlib.Data.Nat.Basic

set_option autoImplicit false

namespace Grotto.Base.Texts

inductive Outcome (ε α : Type)
  | panicked
  | failed (error : ε)
  | returned (value : α)
  deriving DecidableEq

namespace Outcome

variable {ε α β : Type}

def ofExcept : Except ε α → Outcome ε α
  | .error e => .failed e
  | .ok a => .returned a

def map (f : α → β) : Outcome ε α → Outcome ε β
  | .panicked => .panicked
  | .failed e => .failed e
  | .returned a => .returned (f a)

end Outcome

def byteLength (text : List Char) : Nat := (text.map Char.utf8Size).sum

/-- The text before and after a byte offset, if a character begins or the text ends there. -/
def splitAtByte : List Char → Nat → Option (List Char × List Char)
  | text, 0 => some ([], text)
  | [], _ + 1 => none
  | c :: text, n + 1 =>
    if c.utf8Size ≤ n + 1 then
      (splitAtByte text (n + 1 - c.utf8Size)).map fun halves => (c :: halves.1, halves.2)
    else none

/-- `&text[start..stop]`; `none` is a panic. -/
def slice (text : List Char) (start stop : Nat) : Option (List Char) :=
  if start ≤ stop then do
    let front ← splitAtByte text start
    let middle ← splitAtByte front.2 (stop - start)
    return middle.1
  else none

section Ascii

variable {text : List Char} (ascii : ∀ c ∈ text, c.toNat < 128)

theorem utf8Size_ascii {c : Char} (small : c.toNat < 128) : c.utf8Size = 1 := by
  rw [Char.utf8Size_eq_one_iff, UInt32.le_iff_toNat_le]
  change c.toNat ≤ 127
  omega

include ascii in
theorem byteLength_ascii : byteLength text = text.length := by
  unfold byteLength
  rw [List.map_congr_left fun c listed => utf8Size_ascii (ascii c listed), List.map_const',
    List.sum_replicate_nat, Nat.mul_one]

include ascii in
theorem splitAtByte_ascii {n : Nat} (inside : n ≤ text.length) :
    splitAtByte text n = some (text.take n, text.drop n) := by
  induction text generalizing n with
  | nil =>
    obtain rfl := Nat.le_zero.mp inside
    rfl
  | cons c text ih =>
    have small := ascii c List.mem_cons_self
    have rest : ∀ c ∈ text, c.toNat < 128 := fun c listed => ascii c (List.mem_cons_of_mem _ listed)
    cases n with
    | zero => rfl
    | succ n =>
      unfold splitAtByte
      rw [utf8Size_ascii small, if_pos (Nat.le_add_left 1 n), Nat.add_sub_cancel,
        ih rest (Nat.le_of_succ_le_succ inside)]
      rfl

include ascii in
theorem slice_ascii {start stop : Nat} (ordered : start ≤ stop) (inside : stop ≤ text.length) :
    slice text start stop = some ((text.drop start).take (stop - start)) := by
  have rest : ∀ c ∈ text.drop start, c.toNat < 128 :=
    fun c listed => ascii c (List.mem_of_mem_drop listed)
  unfold slice
  rw [if_pos ordered, splitAtByte_ascii ascii (Nat.le_trans ordered inside)]
  change (splitAtByte (text.drop start) (stop - start) >>= fun middle => some middle.1) = _
  rw [splitAtByte_ascii rest (by rw [List.length_drop]; omega)]
  rfl

end Ascii

section Integers

inductive ParseIntError
  | empty | invalidDigit | posOverflow
  deriving DecidableEq

variable (digit : Char → Option Nat) (radix limit : Nat)

/-- The digits of a number after the digits read so far; no value exceeds the limit. -/
def readDigits : List Char → Nat → Except ParseIntError Nat
  | [], value => .ok value
  | c :: rest, value =>
    match digit c with
    | none => .error .invalidDigit
    | some d =>
      if limit < radix * value + d then .error .posOverflow
      else readDigits rest (radix * value + d)

/-- `from_str_radix` of an unsigned type: a leading plus sign is part of a number's spelling. -/
def fromStrRadix : List Char → Except ParseIntError Nat
  | [] => .error .empty
  | ['+'] | ['-'] => .error .invalidDigit
  | '+' :: rest => readDigits digit radix limit rest 0
  | text => readDigits digit radix limit text 0

end Integers

section Utf8

def utf8 (text : List Char) : List UInt8 := text.flatMap String.utf8EncodeChar

def readUtf8 (bytes : List UInt8) : Option (List Char) :=
  (String.fromUTF8? bytes.toByteArray).map String.toList

variable {bytes : List UInt8} {text : List Char}

theorem utf8_append (front back : List Char) : utf8 (front ++ back) = utf8 front ++ utf8 back :=
  List.flatMap_append

theorem length_utf8 (text : List Char) : (utf8 text).length = byteLength text := by
  simp [utf8, byteLength, List.length_flatMap]

theorem readUtf8_eq_some : readUtf8 bytes = some text ↔ bytes = utf8 text := by
  have written : (String.ofList text).toByteArray = (utf8 text).toByteArray := rfl
  unfold readUtf8 String.fromUTF8?
  rw [Option.map_eq_some_iff]
  constructor
  · rintro ⟨s, found, rfl⟩
    split at found
    · obtain rfl := Option.some.inj found
      rw [String.ofList_toList] at written
      exact List.toByteArray_inj.mp written
    · cases found
  · rintro rfl
    have valid : (utf8 text).toByteArray.IsValidUTF8 := .intro text rfl
    refine ⟨String.ofList text, ?_, String.toList_ofList⟩
    rw [dif_pos valid]
    rfl

theorem eq_newline_of_mem {c : Char} (listed : 10 ∈ String.utf8EncodeChar c) : c = '\n' := by
  have ten : ∀ m, (10 : UInt8) = UInt8.ofNat m → m % 256 = 10 := by
    intro m same
    have value := congrArg UInt8.toNat same
    rw [UInt8.toNat_ofNat'] at value
    exact value.symm
  unfold String.utf8EncodeChar at listed
  dsimp only at listed
  split at listed
  · rename_i small
    have value := ten _ (List.mem_singleton.mp listed)
    refine Char.toNat_inj.mp ?_
    change c.val.toNat = 10
    omega
  -- Every byte of a longer encoding is at least 128.
  · have high : ∀ m, 128 ≤ m % 256 → (10 : UInt8) ≠ UInt8.ofNat m := by
      intro m large same
      have value := ten m same
      omega
    exfalso
    split at listed
    · rcases List.mem_cons.mp listed with same | rest
      · exact high _ (by omega) same
      · exact high _ (by omega) (List.mem_singleton.mp rest)
    split at listed
    · simp only [List.mem_cons, List.not_mem_nil, or_false] at listed
      rcases listed with same | same | same
      · exact high _ (by omega) same
      · exact high _ (by omega) same
      · exact high _ (by omega) same
    · simp only [List.mem_cons, List.not_mem_nil, or_false] at listed
      rcases listed with same | same | same | same
      · exact high _ (by omega) same
      · exact high _ (by omega) same
      · exact high _ (by omega) same
      · exact high _ (by omega) same

theorem newline_mem_utf8 (listed : 10 ∈ utf8 text) : '\n' ∈ text := by
  obtain ⟨c, present, byte⟩ := List.mem_flatMap.mp listed
  rw [← eq_newline_of_mem byte]
  exact present

theorem getLast_utf8_newline (front : List Char) : (utf8 (front ++ ['\n'])).getLast? = some 10 := by
  rw [utf8_append, List.getLast?_append]
  rfl

end Utf8

section Lines

def stripReturn (line : List Char) : List Char :=
  if line.getLast? = some '\r' then line.dropLast else line

/-- `str::lines`: the pieces before each line feed, and what follows the last one if there is any. -/
def lines (text : List Char) : List (List Char) :=
  let pieces := text.splitOn '\n'
  pieces.dropLast.map stripReturn ++ if pieces.getLast? = some [] then [] else pieces.getLast?.toList

theorem lines_append {line : List Char} (single : '\n' ∉ line) (rest : List Char) :
    lines (line ++ '\n' :: rest) = stripReturn line :: lines rest := by
  unfold lines
  rw [List.splitOn_append_cons_self_of_not_mem single]
  have some_left : rest.splitOn '\n' ≠ [] := List.splitOn_ne_nil _ _
  simp only [List.dropLast_cons_of_ne_nil some_left, List.map_cons, List.cons_append,
    List.getLast?_cons_of_ne_nil some_left]

/-- `split_whitespace`, for what counts as a space. -/
def words (space : Char → Bool) (text : List Char) : List (List Char) :=
  (text.splitOnP space).filter fun word => decide (word ≠ [])

theorem words_pair {space : Char → Bool} {first second : List Char} {gap : Char} (gapped : space gap = true)
    (leading : first ≠ [] ∧ ∀ c ∈ first, space c = false)
    (trailing : second ≠ [] ∧ ∀ c ∈ second, space c = false) :
    words space (first ++ gap :: second) = [first, second] := by
  unfold words
  rw [List.splitOnP_append_cons_of_forall_mem leading.2 gap gapped, List.splitOnP_eq_singleton trailing.2]
  simp [leading.1, trailing.1]

end Lines

end Grotto.Base.Texts
