/- GID: Grotto/Format/Postcard
   digest: The Postcard serialization of integers, options, sequences, strings and arrays. -/

import Grotto.Format.Combinators

set_option autoImplicit false

namespace Grotto.Format.Postcard

open Varint Combinators

variable {α : Type}

structure Octets (n : Nat) where
  toList : List UInt8
  length_eq : toList.length = n
  deriving DecidableEq

@[simp] theorem Octets.length_toList {n : Nat} (o : Octets n) : o.toList.length = n := o.length_eq

theorem Octets.toList_injective {n : Nat} {a b : Octets n} (equal : a.toList = b.toList) :
    a = b := by
  cases a
  cases b
  simpa using equal

/-- The array of `n` equal bytes. -/
def Octets.replicate (n : Nat) (b : UInt8) : Octets n := ⟨List.replicate n b, by simp⟩

/-- `usize` and `u64` lengths: ten groups, the last of one bit. -/
def usize : Codec Nat := Codec.varint 9 1 (by norm_num)

def u64 : Codec UInt64 :=
  usize.embed UInt64.toNat (fun n => if n < 2 ^ 64 then some (UInt64.ofNat n) else none)
    (by
      intro b
      rw [if_pos b.toNat_lt]
      simp)
    (by
      intro n b found
      split at found
      · rename_i below
        obtain rfl := Option.some.inj found
        exact UInt64.toNat_ofNat_of_lt below
      · simp at found)

/-- `u32` values, in particular enumeration indices: five groups, the last of four bits. -/
def u32 : Codec Nat := Codec.varint 4 15 (by norm_num)

/-- `u16` values: three groups, the last of two bits. -/
def u16 : Codec UInt16 :=
  (Codec.varint 2 3 (by norm_num)).embed UInt16.toNat
    (fun n => if n < 2 ^ 16 then some (UInt16.ofNat n) else none)
    (by
      intro b
      rw [if_pos b.toNat_lt]
      simp)
    (by
      intro n b found
      split at found
      · rename_i below
        obtain rfl := Option.some.inj found
        exact UInt16.toNat_ofNat_of_lt below
      · simp at found)

def bool : Codec Bool :=
  Codec.byte.embed (fun b => if b then 1 else 0)
    (fun n => if n = 0 then some false else if n = 1 then some true else none)
    (by decide)
    (by
      intro n b found
      split at found
      · rename_i zero
        rw [← Option.some.inj found, zero]
        rfl
      · split at found
        · rename_i one
          rw [← Option.some.inj found, one]
          rfl
        · simp at found)

/-- An enumeration written through its table of tags; other tags are refused. -/
def tag {τ : Type} [DecidableEq τ] (c : Codec τ) (toTag : α → τ) (table : List α)
    (total : ∀ a, table.find? (fun b => toTag b = toTag a) = some a) : Codec α :=
  c.embed toTag (fun t => table.find? fun b => toTag b = t) total
    (fun t a found => by simpa using List.find?_some found)

/-- `None` is the byte 0, `Some` the byte 1 followed by its value. -/
def option (c : Codec α) : Codec (Option α) :=
  (bool.dependent (γ := fun b => if b then α else Unit)
    (fun
      | true => c
      | false => Codec.unit)).iso
    (fun
      | some a => ⟨true, a⟩
      | none => ⟨false, ()⟩)
    (fun
      | ⟨true, a⟩ => some a
      | ⟨false, _⟩ => none)
    (by rintro (_ | a) <;> rfl)
    (by rintro ⟨_ | _, a⟩ <;> rfl)

/-- At most `bound` values behind their count. -/
def seq (bound : Nat) (c : Codec α) : Codec (List α) :=
  Codec.counted (usize.guard fun n => decide (n ≤ bound)) c

/-- At most `bound` raw bytes behind their count. -/
def bytes (bound : Nat) : Codec Bytes := seq bound Codec.byte

/-- UTF-8 text of at most `bound` bytes behind its byte length. -/
def string (bound : Nat) : Codec String :=
  (bytes bound).embed (fun s => s.toUTF8.data.toList) (fun b => String.fromUTF8? ⟨b.toArray⟩)
    (by
      intro s
      simp only [Array.toArray_toList, String.fromUTF8?, Option.dite_none_right_eq_some]
      exact ⟨s.isValidUTF8, rfl⟩)
    (by
      intro b s found
      simp only [String.fromUTF8?] at found
      split at found
      · obtain rfl := Option.some.inj found
        simp [String.fromUTF8, String.toUTF8]
      · simp at found)

def octets (n : Nat) : Codec (Octets n) :=
  (Codec.byte.exactly n).iso (fun o => ⟨o.toList, o.length_eq⟩) (fun l => ⟨l.1, l.2⟩)
    (fun _ => rfl) (fun _ => rfl)

private theorem flatMap_byte (l : Bytes) : l.flatMap Codec.byte.encode = l := by
  induction l with
  | nil => rfl
  | cons b l ih => simp [List.flatMap_cons, ih]

@[simp] theorem encode_seq (bound : Nat) (c : Codec α) (values : List α) :
    (seq bound c).encode values = varintBytes 10 values.length ++ values.flatMap c.encode := rfl
@[simp] theorem encode_bytes (bound : Nat) (l : Bytes) :
    (bytes bound).encode l = varintBytes 10 l.length ++ l := by
  simp only [bytes, encode_seq, flatMap_byte]
@[simp] theorem encode_string (bound : Nat) (s : String) :
    (string bound).encode s = varintBytes 10 s.toUTF8.data.toList.length ++ s.toUTF8.data.toList := by
  simp only [string, Codec.encode_embed, encode_bytes]
@[simp] theorem encode_octets (n : Nat) (o : Octets n) : (octets n).encode o = o.toList := by
  simp only [octets, Codec.encode_iso, Codec.encode_exactly, flatMap_byte]

variable {bound : Nat}

@[simp] theorem bounded_usize (n : Nat) : usize.Bounded n ↔ n < 2 ^ 64 := by
  change n < 128 ^ 9 * (1 + 1) ↔ _
  norm_num
@[simp] theorem bounded_u64 (n : UInt64) : u64.Bounded n ↔ True := by
  refine iff_true_intro ?_
  change usize.Bounded n.toNat
  rw [bounded_usize]
  exact n.toNat_lt
@[simp] theorem bounded_u32 (n : Nat) : u32.Bounded n ↔ n < 2 ^ 32 := by
  change n < 128 ^ 4 * (15 + 1) ↔ _
  norm_num
@[simp] theorem bounded_u16 (n : UInt16) : u16.Bounded n ↔ True := by
  refine iff_true_intro ?_
  change n.toNat < 128 ^ 2 * (3 + 1)
  exact n.toNat_lt
@[simp] theorem bounded_bool (b : Bool) : bool.Bounded b ↔ True := Iff.rfl
@[simp] theorem bounded_option_none (c : Codec α) : (option c).Bounded none ↔ True :=
  iff_true_intro ⟨trivial, trivial⟩
@[simp] theorem bounded_option_some (c : Codec α) (a : α) :
    (option c).Bounded (some a) ↔ c.Bounded a :=
  ⟨fun h => h.2, fun h => ⟨trivial, h⟩⟩
theorem bounded_seq (small : bound < 2 ^ 64) (c : Codec α) (values : List α) :
    (seq bound c).Bounded values ↔ values.length ≤ bound ∧ ∀ a ∈ values, c.Bounded a := by
  simp only [seq, Codec.bounded_counted, Codec.bounded_guard, bounded_usize, decide_eq_true_eq]
  constructor
  · rintro ⟨⟨-, fits⟩, all⟩
    exact ⟨fits, all⟩
  · rintro ⟨fits, all⟩
    exact ⟨⟨by omega, fits⟩, all⟩
theorem bounded_bytes (small : bound < 2 ^ 64) (l : Bytes) :
    (bytes bound).Bounded l ↔ l.length ≤ bound := by
  simp [bytes, bounded_seq small]
theorem bounded_string (small : bound < 2 ^ 64) (s : String) :
    (string bound).Bounded s ↔ s.toUTF8.data.toList.length ≤ bound := by
  simp only [string, Codec.bounded_embed, bounded_bytes small]
@[simp] theorem bounded_octets (n : Nat) (o : Octets n) : (octets n).Bounded o ↔ True :=
  iff_true_intro fun _ _ => trivial
@[simp] theorem bounded_tag {τ : Type} [DecidableEq τ] (c : Codec τ) (toTag : α → τ) (table total)
    (a : α) : (tag c toTag table total).Bounded a ↔ c.Bounded (toTag a) := Iff.rfl

@[simp] theorem size_u64 (n : UInt64) : u64.size n = varintSize 10 n.toNat := rfl
@[simp] theorem size_bool (b : Bool) : bool.size b = 1 := rfl
@[simp] theorem size_option_none (c : Codec α) : (option c).size none = 1 := rfl
@[simp] theorem size_option_some (c : Codec α) (a : α) :
    (option c).size (some a) = 1 + c.size a := Nat.add_comm _ _
@[simp] theorem size_seq (bound : Nat) (c : Codec α) (values : List α) :
    (seq bound c).size values = varintSize 10 values.length + (values.map c.size).sum := by
  simp only [Codec.size, encode_seq, List.length_append, List.length_flatMap, varintSize]
  rfl
@[simp] theorem size_bytes (bound : Nat) (l : Bytes) :
    (bytes bound).size l = varintSize 10 l.length + l.length := by
  simp only [Codec.size, encode_bytes, List.length_append, varintSize]
@[simp] theorem size_string (bound : Nat) (s : String) :
    (string bound).size s =
      varintSize 10 s.toUTF8.data.toList.length + s.toUTF8.data.toList.length := by
  simp only [Codec.size, encode_string, List.length_append, varintSize]
@[simp] theorem size_octets (n : Nat) (o : Octets n) : (octets n).size o = n := by
  simp only [Codec.size, encode_octets, Octets.length_toList]

theorem size_u64_le (n : UInt64) : varintSize 10 n.toNat ≤ 10 := by
  have bound := n.toNat_lt
  exact varintSize_le (by omega)

end Grotto.Format.Postcard
