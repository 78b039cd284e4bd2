/- GID: Grotto/Protocol/Hex
   digest: Hexadecimal texts of bytes, and how they are read. -/

import Grotto.Protocol.Records

set_option autoImplicit false

namespace Grotto.Protocol.Hex

open Format.Varint (Bytes)
open Records

def hexNibble (value : Nat) : Char :=
  if value < 10 then Char.ofNat (0x30 + value) else Char.ofNat (0x57 + value)

def hexText (bytes : Bytes) : List Char :=
  bytes.flatMap fun b => [hexNibble (b.toNat / 16), hexNibble (b.toNat % 16)]

def hexDigit (c : Char) : Option Nat :=
  let n := c.toNat
  if 0x30 ≤ n ∧ n ≤ 0x39 then some (n - 0x30)
  else if 0x61 ≤ n ∧ n ≤ 0x66 then some (n - 0x57)
  else if 0x41 ≤ n ∧ n ≤ 0x46 then some (n - 0x37)
  else none

/-- `u8::from_str_radix(pair, 16)`: a leading plus sign is part of the number's spelling. -/
def hexPair (high low : Char) : Option UInt8 :=
  if high = '+' then (hexDigit low).map UInt8.ofNat
  else do
    let h ← hexDigit high
    let l ← hexDigit low
    return UInt8.ofNat (16 * h + l)

def hexBytes : List Char → Option Bytes
  | high :: low :: rest => do
      let b ← hexPair high low
      let bytes ← hexBytes rest
      return b :: bytes
  | _ => some []

private theorem nibble_facts : ∀ n < 16, hexDigit (hexNibble n) = some n ∧ hexNibble n ≠ '+' ∧
    (hexNibble n).toNat < 128 ∧ isWhitespace (hexNibble n) = false := by
  decide

theorem hexBytes_hexText (bytes : Bytes) : hexBytes (hexText bytes) = some bytes := by
  induction bytes with
  | nil => rfl
  | cons b bytes ih =>
    have bound := b.toNat_lt
    obtain ⟨high, sign, -⟩ := nibble_facts (b.toNat / 16) (by omega)
    obtain ⟨low, -⟩ := nibble_facts (b.toNat % 16) (by omega)
    have pair : hexPair (hexNibble (b.toNat / 16)) (hexNibble (b.toNat % 16)) = some b := by
      unfold hexPair
      rw [if_neg sign, high, low]
      change some (UInt8.ofNat (16 * (b.toNat / 16) + b.toNat % 16)) = some b
      rw [Nat.div_add_mod, UInt8.ofNat_toNat]
    change (hexPair _ _ >>= fun b => hexBytes (hexText bytes) >>= fun bytes => some (b :: bytes)) = _
    rw [pair, ih]
    rfl

@[simp] theorem length_hexText (bytes : Bytes) : (hexText bytes).length = 2 * bytes.length := by
  induction bytes with
  | nil => rfl
  | cons b bytes ih =>
    change (hexText bytes).length + 2 = 2 * (bytes.length + 1)
    omega

theorem mem_hexText {bytes : Bytes} {c : Char} (listed : c ∈ hexText bytes) :
    c.toNat < 128 ∧ isWhitespace c = false := by
  obtain ⟨b, -, digit⟩ := List.mem_flatMap.mp listed
  have bound := b.toNat_lt
  obtain ⟨-, -, high⟩ := nibble_facts (b.toNat / 16) (by omega)
  obtain ⟨-, -, low⟩ := nibble_facts (b.toNat % 16) (by omega)
  rcases List.mem_cons.mp digit with rfl | rest
  · exact high
  · rw [List.mem_singleton.mp rest]
    exact low

theorem trim_solid {text : List Char} (solid : ∀ c ∈ text, isWhitespace c = false) : trim text = text := by
  have kept : ∀ cs : List Char, (∀ c ∈ cs, isWhitespace c = false) → cs.dropWhile isWhitespace = cs := by
    intro cs solid
    cases cs with
    | nil => rfl
    | cons c cs => exact List.dropWhile_cons_of_neg (by rw [solid c List.mem_cons_self]; decide)
  unfold trim
  rw [kept _ solid, kept _ fun c listed => solid c (List.mem_reverse.mp listed), List.reverse_reverse]

theorem trim_hexText (bytes : Bytes) : trim (hexText bytes) = hexText bytes :=
  trim_solid fun _ listed => (mem_hexText listed).2

def isAscii (text : List Char) : Bool := text.all fun c => c.toNat < 128

inductive ParseFingerprintError
  | invalidLength | invalidHex
  deriving DecidableEq

def parseFingerprintHex (encoded : List Char) : Except ParseFingerprintError Bytes :=
  let encoded := trim encoded
  if encoded.length ≠ 64 ∨ ¬isAscii encoded then .error .invalidLength
  else
    match hexBytes encoded with
    | some bytes => .ok bytes
    | none => .error .invalidHex

theorem isAscii_hexText (bytes : Bytes) : isAscii (hexText bytes) = true :=
  List.all_eq_true.mpr fun _ listed => decide_eq_true (mem_hexText listed).1

theorem parseFingerprintHex_hexText {bytes : Bytes} (length : bytes.length = 32) :
    parseFingerprintHex (hexText bytes) = .ok bytes := by
  unfold parseFingerprintHex
  simp only [trim_hexText, length_hexText, length, isAscii_hexText, hexBytes_hexText]
  rfl

end Grotto.Protocol.Hex
