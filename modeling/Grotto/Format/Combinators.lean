/- GID: Grotto/Format/Combinators
   digest: Prefix codecs that carry their round-trip, soundness and framing laws. -/

import Grotto.Format.Varint
import Mathlib.Data.List.Basic

set_option autoImplicit false

namespace Grotto.Format.Combinators

open Varint

/-- A writer and a prefix reader of one format. `Bounded` is the set of values the reader
lets through: the writer may serialize more. A reader may accept several spellings of a
value, but none shorter than the written one. -/
structure Codec (α : Type) where
  encode : α → Bytes
  decode : Bytes → Option (α × Bytes)
  Bounded : α → Prop
  decode_encode : ∀ (a : α) (rest : Bytes), Bounded a →
    decode (encode a ++ rest) = some (a, rest)
  decode_excess : ∀ (a : α) (rest : Bytes), ¬ Bounded a → decode (encode a ++ rest) = none
  decode_sound : ∀ {bytes : Bytes} {a : α} {rest : Bytes}, decode bytes = some (a, rest) →
    Bounded a ∧ ∃ used : Bytes, bytes = used ++ rest ∧ (encode a).length ≤ used.length
  decode_append : ∀ {bytes : Bytes} {a : α} {rest : Bytes} (more : Bytes),
    decode bytes = some (a, rest) → decode (bytes ++ more) = some (a, rest ++ more)

namespace Codec

variable {α β : Type}

def size (c : Codec α) (a : α) : Nat := (c.encode a).length

def unit : Codec Unit where
  encode _ := []
  decode bytes := some ((), bytes)
  Bounded _ := True
  decode_encode := by simp
  decode_excess := by simp
  decode_sound := by
    intro bytes a rest read
    simp only [Option.some.injEq, Prod.mk.injEq, true_and] at read
    exact ⟨trivial, [], by simp [read], le_rfl⟩
  decode_append := by
    intro bytes a rest more read
    simp only [Option.some.injEq, Prod.mk.injEq, true_and] at read
    simp [read]

def byte : Codec UInt8 where
  encode b := [b]
  decode
    | [] => none
    | b :: rest => some (b, rest)
  Bounded _ := True
  decode_encode := by simp
  decode_excess := by simp
  decode_sound := by
    intro bytes a rest read
    cases bytes with
    | nil => simp at read
    | cons b bytes =>
      obtain ⟨rfl, rfl⟩ := Prod.mk.inj (Option.some.inj read)
      exact ⟨trivial, [b], rfl, le_rfl⟩
  decode_append := by
    intro bytes a rest more read
    cases bytes with
    | nil => simp at read
    | cons b bytes =>
      obtain ⟨rfl, rfl⟩ := Prod.mk.inj (Option.some.inj read)
      rfl

/-- Base-128 integers of at most `fuel + 1` groups whose last group is at most `last`. -/
def varint (fuel last : Nat) (narrow : last < 128) : Codec Nat where
  encode n := varintBytes (fuel + 1) n
  decode := readVarint last fuel
  Bounded n := n < 128 ^ fuel * (last + 1)
  decode_encode n rest bound := readVarint_varintBytes narrow fuel n rest bound
  decode_excess n rest excess := readVarint_excess fuel n rest narrow (Nat.not_lt.mp excess)
  decode_sound read := readVarint_sound narrow fuel read
  decode_append more read := readVarint_append fuel more read

/-- Keep only the values that satisfy a check made after reading. -/
def guard (c : Codec α) (check : α → Bool) : Codec α where
  encode := c.encode
  decode bytes := (c.decode bytes).bind fun p => if check p.1 then some p else none
  Bounded a := c.Bounded a ∧ check a = true
  decode_encode a rest bounded := by
    rw [c.decode_encode a rest bounded.1]
    simp [bounded.2]
  decode_excess a rest excess := by
    by_cases bounded : c.Bounded a
    · rw [c.decode_encode a rest bounded]
      have refused : ¬ check a = true := fun accepted => excess ⟨bounded, accepted⟩
      simp [refused]
    · rw [c.decode_excess a rest bounded]
      rfl
  decode_sound := by
    intro bytes a rest read
    obtain ⟨p, inner, accepted⟩ := Option.bind_eq_some_iff.mp read
    split at accepted
    · rename_i checked
      obtain rfl := Option.some.inj accepted
      obtain ⟨bounded, used⟩ := c.decode_sound inner
      exact ⟨⟨bounded, checked⟩, used⟩
    · simp at accepted
  decode_append := by
    intro bytes a rest more read
    obtain ⟨p, inner, accepted⟩ := Option.bind_eq_some_iff.mp read
    split at accepted
    · rename_i checked
      obtain rfl := Option.some.inj accepted
      rw [c.decode_append more inner]
      simp [checked]
    · simp at accepted

/-- Carry a format along an embedding; values outside its image are refused. -/
def embed (c : Codec α) (into : β → α) (back : α → Option β)
    (back_into : ∀ b, back (into b) = some b)
    (into_back : ∀ a b, back a = some b → into b = a) : Codec β where
  encode b := c.encode (into b)
  decode bytes := (c.decode bytes).bind fun p => (back p.1).map fun b => (b, p.2)
  Bounded b := c.Bounded (into b)
  decode_encode b rest bounded := by
    rw [c.decode_encode (into b) rest bounded]
    simp [back_into]
  decode_excess b rest excess := by
    rw [c.decode_excess (into b) rest excess]
    rfl
  decode_sound := by
    intro bytes b rest read
    obtain ⟨⟨a, tail⟩, inner, mapped⟩ := Option.bind_eq_some_iff.mp read
    obtain ⟨b', found, equal⟩ := Option.map_eq_some_iff.mp mapped
    obtain ⟨rfl, rfl⟩ := Prod.mk.inj equal
    rw [into_back a b' found]
    exact c.decode_sound inner
  decode_append := by
    intro bytes b rest more read
    obtain ⟨⟨a, tail⟩, inner, mapped⟩ := Option.bind_eq_some_iff.mp read
    obtain ⟨b', found, equal⟩ := Option.map_eq_some_iff.mp mapped
    obtain ⟨rfl, rfl⟩ := Prod.mk.inj equal
    rw [c.decode_append more inner]
    change (back a).map _ = _
    rw [found]
    rfl

def iso (c : Codec α) (into : β → α) (back : α → β)
    (back_into : ∀ b, back (into b) = b) (into_back : ∀ a, into (back a) = a) : Codec β :=
  c.embed into (fun a => some (back a)) (fun b => by rw [back_into])
    (fun a b found => by rw [← Option.some.inj found, into_back])

def dependent {ι : Type} {γ : ι → Type} (c : Codec ι) (d : (i : ι) → Codec (γ i)) :
    Codec (Sigma γ) where
  encode p := c.encode p.1 ++ (d p.1).encode p.2
  decode bytes := (c.decode bytes).bind fun p =>
    ((d p.1).decode p.2).map fun q => (⟨p.1, q.1⟩, q.2)
  Bounded p := c.Bounded p.1 ∧ (d p.1).Bounded p.2
  decode_encode p rest bounded := by
    rw [List.append_assoc, c.decode_encode p.1 _ bounded.1]
    simp only [Option.bind_some]
    rw [(d p.1).decode_encode p.2 rest bounded.2]
    rfl
  decode_excess p rest excess := by
    rw [List.append_assoc]
    by_cases head : c.Bounded p.1
    · have tail : ¬ (d p.1).Bounded p.2 := fun bounded => excess ⟨head, bounded⟩
      rw [c.decode_encode p.1 _ head]
      simp only [Option.bind_some]
      rw [(d p.1).decode_excess p.2 rest tail]
      rfl
    · rw [c.decode_excess p.1 _ head]
      rfl
  decode_sound := by
    intro bytes p rest read
    obtain ⟨⟨i, middle⟩, first, mapped⟩ := Option.bind_eq_some_iff.mp read
    obtain ⟨⟨b, tail⟩, second, equal⟩ := Option.map_eq_some_iff.mp mapped
    obtain ⟨rfl, rfl⟩ := Prod.mk.inj equal
    obtain ⟨headBounded, head, rfl, headShort⟩ := c.decode_sound first
    obtain ⟨tailBounded, used, tailEq, tailShort⟩ := (d i).decode_sound second
    subst tailEq
    refine ⟨⟨headBounded, tailBounded⟩, head ++ used, by simp, ?_⟩
    simp only [List.length_append]
    omega
  decode_append := by
    intro bytes p rest more read
    obtain ⟨⟨i, middle⟩, first, mapped⟩ := Option.bind_eq_some_iff.mp read
    obtain ⟨⟨b, tail⟩, second, equal⟩ := Option.map_eq_some_iff.mp mapped
    obtain ⟨rfl, rfl⟩ := Prod.mk.inj equal
    rw [c.decode_append more first]
    simp only [Option.bind_some]
    rw [(d i).decode_append more second]
    rfl

def prod (c : Codec α) (d : Codec β) : Codec (α × β) :=
  (c.dependent fun _ => d).iso (fun p => ⟨p.1, p.2⟩) (fun p => (p.1, p.2))
    (fun _ => rfl) (fun _ => rfl)

/-- Read `count` values in sequence. -/
def readMany (c : Codec α) : Nat → Bytes → Option (List α × Bytes)
  | 0, bytes => some ([], bytes)
  | count + 1, bytes => (c.decode bytes).bind fun p =>
    (readMany c count p.2).map fun q => (p.1 :: q.1, q.2)

theorem readMany_encode (c : Codec α) (values : List α) (rest : Bytes)
    (bounded : ∀ a ∈ values, c.Bounded a) :
    readMany c values.length (values.flatMap c.encode ++ rest) = some (values, rest) := by
  induction values with
  | nil => rfl
  | cons a values ih =>
    simp only [List.length_cons, List.flatMap_cons, List.append_assoc, readMany]
    rw [c.decode_encode a _ (bounded a (by simp))]
    simp only [Option.bind_some]
    rw [ih fun b member => bounded b (by simp [member])]
    rfl

theorem readMany_excess (c : Codec α) (values : List α) (rest : Bytes)
    (excess : ¬ ∀ a ∈ values, c.Bounded a) :
    readMany c values.length (values.flatMap c.encode ++ rest) = none := by
  induction values with
  | nil => simp at excess
  | cons a values ih =>
    simp only [List.length_cons, List.flatMap_cons, List.append_assoc, readMany]
    by_cases head : c.Bounded a
    · rw [c.decode_encode a _ head]
      simp only [Option.bind_some]
      have tail : ¬ ∀ b ∈ values, c.Bounded b := by
        intro all
        apply excess
        intro b member
        rcases List.mem_cons.mp member with rfl | member
        · exact head
        · exact all b member
      rw [ih tail]
      rfl
    · rw [c.decode_excess a _ head]
      rfl

theorem readMany_sound (c : Codec α) (count : Nat) {bytes rest : Bytes} {values : List α}
    (read : readMany c count bytes = some (values, rest)) :
    values.length = count ∧ (∀ a ∈ values, c.Bounded a) ∧
      ∃ used : Bytes, bytes = used ++ rest ∧ (values.flatMap c.encode).length ≤ used.length := by
  induction count generalizing bytes values with
  | zero =>
    obtain ⟨rfl, rfl⟩ := Prod.mk.inj (Option.some.inj read)
    exact ⟨rfl, by simp, [], by simp, le_rfl⟩
  | succ count ih =>
    obtain ⟨⟨a, middle⟩, first, mapped⟩ := Option.bind_eq_some_iff.mp read
    obtain ⟨⟨tail, left⟩, second, equal⟩ := Option.map_eq_some_iff.mp mapped
    obtain ⟨rfl, rfl⟩ := Prod.mk.inj equal
    obtain ⟨headBounded, head, rfl, headShort⟩ := c.decode_sound first
    obtain ⟨length, tailBounded, used, tailEq, tailShort⟩ := ih second
    subst tailEq
    refine ⟨by simp [length], ?_, head ++ used, by simp, ?_⟩
    · intro b member
      rcases List.mem_cons.mp member with rfl | member
      · exact headBounded
      · exact tailBounded b member
    · simp only [List.flatMap_cons, List.length_append]
      omega

theorem readMany_append (c : Codec α) (count : Nat) {bytes rest : Bytes} {values : List α}
    (more : Bytes) (read : readMany c count bytes = some (values, rest)) :
    readMany c count (bytes ++ more) = some (values, rest ++ more) := by
  induction count generalizing bytes values with
  | zero =>
    obtain ⟨rfl, rfl⟩ := Prod.mk.inj (Option.some.inj read)
    rfl
  | succ count ih =>
    obtain ⟨⟨a, middle⟩, first, mapped⟩ := Option.bind_eq_some_iff.mp read
    obtain ⟨⟨tail, left⟩, second, equal⟩ := Option.map_eq_some_iff.mp mapped
    obtain ⟨rfl, rfl⟩ := Prod.mk.inj equal
    simp only [readMany]
    rw [c.decode_append more first]
    simp only [Option.bind_some]
    rw [ih second]
    rfl

def exactly (c : Codec α) (count : Nat) : Codec {values : List α // values.length = count} where
  encode values := values.1.flatMap c.encode
  decode bytes := (readMany c count bytes).bind fun p =>
    if length : p.1.length = count then some (⟨p.1, length⟩, p.2) else none
  Bounded values := ∀ a ∈ values.1, c.Bounded a
  decode_encode values rest bounded := by
    obtain ⟨values, rfl⟩ := values
    rw [readMany_encode c values rest bounded]
    simp
  decode_excess values rest excess := by
    obtain ⟨values, rfl⟩ := values
    rw [readMany_excess c values rest excess]
    rfl
  decode_sound := by
    intro bytes values rest read
    obtain ⟨⟨list, tail⟩, inner, checked⟩ := Option.bind_eq_some_iff.mp read
    obtain ⟨length, bounded, used⟩ := readMany_sound c count inner
    rw [dif_pos length] at checked
    obtain ⟨rfl, rfl⟩ := Prod.mk.inj (Option.some.inj checked)
    exact ⟨bounded, used⟩
  decode_append := by
    intro bytes values rest more read
    obtain ⟨⟨list, tail⟩, inner, checked⟩ := Option.bind_eq_some_iff.mp read
    obtain ⟨length, -, -⟩ := readMany_sound c count inner
    rw [dif_pos length] at checked
    obtain ⟨rfl, rfl⟩ := Prod.mk.inj (Option.some.inj checked)
    rw [readMany_append c count more inner]
    simp [length]

def counted (n : Codec Nat) (c : Codec α) : Codec (List α) :=
  (n.dependent c.exactly).iso (fun values => ⟨values.length, values, rfl⟩) (fun p => p.2.1)
    (fun _ => rfl) (by rintro ⟨-, values, rfl⟩; rfl)

@[simp] theorem encode_byte (b : UInt8) : byte.encode b = [b] := rfl
@[simp] theorem encode_embed (c : Codec α) (into : β → α) (back : α → Option β) (h₁ h₂) (b : β) :
    (c.embed into back h₁ h₂).encode b = c.encode (into b) := rfl
@[simp] theorem encode_iso (c : Codec α) (into : β → α) (back : α → β) (h₁ h₂) (b : β) :
    (c.iso into back h₁ h₂).encode b = c.encode (into b) := rfl
@[simp] theorem encode_prod (c : Codec α) (d : Codec β) (p : α × β) :
    (c.prod d).encode p = c.encode p.1 ++ d.encode p.2 := rfl
@[simp] theorem encode_exactly (c : Codec α) (count : Nat) (values) :
    (c.exactly count).encode values = values.1.flatMap c.encode := rfl
@[simp] theorem encode_counted (n : Codec Nat) (c : Codec α) (values : List α) :
    (counted n c).encode values = n.encode values.length ++ values.flatMap c.encode := rfl

@[simp] theorem bounded_byte (b : UInt8) : byte.Bounded b ↔ True := Iff.rfl
@[simp] theorem bounded_guard (c : Codec α) (check : α → Bool) (a : α) :
    (c.guard check).Bounded a ↔ c.Bounded a ∧ check a = true := Iff.rfl
@[simp] theorem bounded_embed (c : Codec α) (into : β → α) (back : α → Option β) (h₁ h₂) (b : β) :
    (c.embed into back h₁ h₂).Bounded b ↔ c.Bounded (into b) := Iff.rfl
@[simp] theorem bounded_iso (c : Codec α) (into : β → α) (back : α → β) (h₁ h₂) (b : β) :
    (c.iso into back h₁ h₂).Bounded b ↔ c.Bounded (into b) := Iff.rfl
@[simp] theorem bounded_prod (c : Codec α) (d : Codec β) (p : α × β) :
    (c.prod d).Bounded p ↔ c.Bounded p.1 ∧ d.Bounded p.2 := Iff.rfl
@[simp] theorem bounded_counted (n : Codec Nat) (c : Codec α) (values : List α) :
    (counted n c).Bounded values ↔ n.Bounded values.length ∧ ∀ a ∈ values, c.Bounded a := Iff.rfl

@[simp] theorem size_iso (c : Codec α) (into : β → α) (back : α → β) (h₁ h₂) (b : β) :
    (c.iso into back h₁ h₂).size b = c.size (into b) := rfl
@[simp] theorem size_prod (c : Codec α) (d : Codec β) (p : α × β) :
    (c.prod d).size p = c.size p.1 + d.size p.2 := by simp [size]

theorem encode_injective (c : Codec α) {a b : α} (left : c.Bounded a) (right : c.Bounded b)
    (equal : c.encode a = c.encode b) : a = b := by
  have first := c.decode_encode a [] left
  rw [equal, c.decode_encode b [] right] at first
  exact (congrArg Prod.fst (Option.some.inj first)).symm

end Codec

end Grotto.Format.Combinators
