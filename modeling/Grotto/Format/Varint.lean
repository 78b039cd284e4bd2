/- GID: Grotto/Format/Varint
   digest: Little-endian base-128 integers with a bounded last group. -/

import Mathlib.Data.Nat.Init
import Mathlib.Tactic.Ring
import Mathlib.Tactic.Linarith

set_option autoImplicit false

namespace Grotto.Format.Varint

abbrev Bytes := List UInt8

/-- Base-128 groups of `n`, least significant first, in at most `fuel` bytes.
Every byte but the last carries the continuation bit. -/
def varintBytes : Nat → Nat → Bytes
  | 0, _ => []
  | fuel + 1, n =>
    if n < 128 then [UInt8.ofNat n]
    else UInt8.ofNat (n % 128 + 128) :: varintBytes fuel (n / 128)

/-- Read one integer of at most `fuel + 1` groups. Padded spellings are accepted; the
group at the last admissible position may not exceed `last`. -/
def readVarint (last : Nat) : Nat → Bytes → Option (Nat × Bytes)
  | _, [] => none
  | 0, b :: rest => if b.toNat ≤ last then some (b.toNat, rest) else none
  | fuel + 1, b :: rest =>
    if b.toNat < 128 then some (b.toNat, rest)
    else
      match readVarint last fuel rest with
      | none => none
      | some (n, tail) => some (b.toNat - 128 + 128 * n, tail)

/-- Number of bytes `n` occupies with at most `fuel` groups. -/
def varintSize (fuel n : Nat) : Nat := (varintBytes fuel n).length

variable {fuel n : Nat}

theorem varintBytes_small (small : n < 128) : varintBytes (fuel + 1) n = [UInt8.ofNat n] := by
  simp [varintBytes, small]

theorem varintBytes_large (large : 128 ≤ n) :
    varintBytes (fuel + 1) n =
      UInt8.ofNat (n % 128 + 128) :: varintBytes fuel (n / 128) := by
  simp [varintBytes, Nat.not_lt.mpr large]

private theorem toNat_low (small : n < 128) : (UInt8.ofNat n).toNat = n := by
  rw [UInt8.toNat_ofNat']
  omega

private theorem toNat_high (n : Nat) : (UInt8.ofNat (n % 128 + 128)).toNat = n % 128 + 128 := by
  rw [UInt8.toNat_ofNat']
  omega

variable {last : Nat}

private theorem div_lt_of_bound (bound : n < 128 ^ (fuel + 1) * (last + 1)) :
    n / 128 < 128 ^ fuel * (last + 1) := by
  rw [Nat.div_lt_iff_lt_mul (by norm_num)]
  calc n < 128 ^ (fuel + 1) * (last + 1) := bound
    _ = 128 ^ fuel * (last + 1) * 128 := by ring

private theorem div_ge_of_excess (excess : 128 ^ (fuel + 1) * (last + 1) ≤ n) :
    128 ^ fuel * (last + 1) ≤ n / 128 := by
  rw [Nat.le_div_iff_mul_le (by norm_num)]
  calc 128 ^ fuel * (last + 1) * 128 = 128 ^ (fuel + 1) * (last + 1) := by ring
    _ ≤ n := excess

theorem readVarint_varintBytes (narrow : last < 128) (fuel n : Nat) (rest : Bytes)
    (bound : n < 128 ^ fuel * (last + 1)) :
    readVarint last fuel (varintBytes (fuel + 1) n ++ rest) = some (n, rest) := by
  induction fuel generalizing n with
  | zero =>
    have small : n ≤ last := by simpa [Nat.lt_succ_iff] using bound
    rw [varintBytes_small (by omega)]
    simp [readVarint, toNat_low (show n < 128 by omega), small]
  | succ fuel ih =>
    by_cases small : n < 128
    · rw [varintBytes_small small]
      simp [readVarint, toNat_low small, small]
    have large : 128 ≤ n := by omega
    rw [varintBytes_large large, List.cons_append]
    simp only [readVarint, toNat_high, ih (n / 128) (div_lt_of_bound bound)]
    rw [if_neg (by omega)]
    have groups : n % 128 + 128 - 128 + 128 * (n / 128) = n := by omega
    rw [groups]

theorem readVarint_excess (fuel n : Nat) (rest : Bytes) (narrow : last < 128)
    (excess : 128 ^ fuel * (last + 1) ≤ n) :
    readVarint last fuel (varintBytes (fuel + 1) n ++ rest) = none := by
  induction fuel generalizing n with
  | zero =>
    have beyond : last < n := by simpa [Nat.succ_le_iff] using excess
    by_cases small : n < 128
    · rw [varintBytes_small small]
      simp [readVarint, toNat_low small, Nat.not_le.mpr beyond]
    · rw [varintBytes_large (by omega)]
      simp only [List.cons_append, readVarint, toNat_high]
      rw [if_neg (by omega)]
  | succ fuel ih =>
    have positive : 0 < 128 ^ fuel * (last + 1) := by positivity
    have large : 128 ≤ n := by
      have := Nat.le_div_iff_mul_le (by norm_num : 0 < 128) |>.mp (div_ge_of_excess excess)
      omega
    rw [varintBytes_large large, List.cons_append]
    simp only [readVarint, toNat_high, ih (n / 128) (div_ge_of_excess excess)]
    rw [if_neg (by omega)]

theorem readVarint_append (fuel : Nat) {bytes rest : Bytes} (more : Bytes)
    (read : readVarint last fuel bytes = some (n, rest)) :
    readVarint last fuel (bytes ++ more) = some (n, rest ++ more) := by
  induction fuel generalizing bytes n rest with
  | zero =>
    cases bytes with
    | nil => simp [readVarint] at read
    | cons b bytes =>
      simp only [readVarint] at read
      split at read
      · rename_i fits
        obtain ⟨rfl, rfl⟩ := Prod.mk.inj (Option.some.inj read)
        simp [readVarint, fits]
      · simp at read
  | succ fuel ih =>
    cases bytes with
    | nil => simp [readVarint] at read
    | cons b bytes =>
      simp only [readVarint] at read
      split at read
      · rename_i small
        obtain ⟨rfl, rfl⟩ := Prod.mk.inj (Option.some.inj read)
        simp [readVarint, small]
      rename_i large
      cases inner : readVarint last fuel bytes with
      | none => simp [inner] at read
      | some pair =>
        obtain ⟨m, tail⟩ := pair
        simp only [inner, Option.some.injEq, Prod.mk.injEq] at read
        obtain ⟨rfl, rfl⟩ := read
        simp [readVarint, large, ih inner]

theorem varintSize_le {fuel k n : Nat} (bound : n < 128 ^ (k + 1)) : varintSize fuel n ≤ k + 1 := by
  unfold varintSize
  induction fuel generalizing k n with
  | zero => simp [varintBytes]
  | succ fuel ih =>
    by_cases small : n < 128
    · simp [varintBytes_small small]
    rw [varintBytes_large (by omega), List.length_cons]
    cases k with
    | zero => omega
    | succ k =>
      have shrink : n / 128 < 128 ^ (k + 1) := by
        rw [Nat.div_lt_iff_lt_mul (by norm_num)]
        calc n < 128 ^ (k + 1 + 1) := bound
          _ = 128 ^ (k + 1) * 128 := by ring
      have := ih shrink
      omega

theorem varintSize_pos (fuel n : Nat) : 0 < varintSize (fuel + 1) n := by
  unfold varintSize
  by_cases small : n < 128
  · simp [varintBytes_small small]
  · simp [varintBytes_large (show 128 ≤ n by omega)]

theorem varintSize_mono {fuel m n : Nat} (le : m ≤ n) : varintSize fuel m ≤ varintSize fuel n := by
  unfold varintSize
  induction fuel generalizing m n with
  | zero => simp [varintBytes]
  | succ fuel ih =>
    by_cases small : m < 128
    · rw [varintBytes_small small, List.length_singleton]
      exact varintSize_pos fuel n
    · rw [varintBytes_large (show 128 ≤ m by omega), varintBytes_large (show 128 ≤ n by omega)]
      simpa using ih (Nat.div_le_div_right le)

theorem readVarint_sound (narrow : last < 128) (fuel : Nat) {bytes rest : Bytes}
    (read : readVarint last fuel bytes = some (n, rest)) :
    n < 128 ^ fuel * (last + 1) ∧
      ∃ used : Bytes, bytes = used ++ rest ∧ varintSize (fuel + 1) n ≤ used.length := by
  induction fuel generalizing bytes n rest with
  | zero =>
    cases bytes with
    | nil => simp [readVarint] at read
    | cons b bytes =>
      simp only [readVarint] at read
      split at read
      · rename_i fits
        obtain ⟨rfl, rfl⟩ := Prod.mk.inj (Option.some.inj read)
        refine ⟨by simpa [Nat.lt_succ_iff] using fits, [b], rfl, ?_⟩
        exact varintSize_le (k := 0) (by omega)
      · simp at read
  | succ fuel ih =>
    cases bytes with
    | nil => simp [readVarint] at read
    | cons b bytes =>
      simp only [readVarint] at read
      split at read
      · rename_i small
        obtain ⟨rfl, rfl⟩ := Prod.mk.inj (Option.some.inj read)
        refine ⟨?_, [b], rfl, varintSize_le (k := 0) (by omega)⟩
        have room : 1 ≤ 128 ^ fuel * (last + 1) := Nat.succ_le_of_lt (by positivity)
        calc b.toNat < 128 := small
          _ ≤ 128 * (128 ^ fuel * (last + 1)) := Nat.le_mul_of_pos_right _ room
          _ = 128 ^ (fuel + 1) * (last + 1) := by ring
      · rename_i large
        cases inner : readVarint last fuel bytes with
        | none => simp [inner] at read
        | some pair =>
          obtain ⟨m, tail⟩ := pair
          simp only [inner, Option.some.injEq, Prod.mk.injEq] at read
          obtain ⟨rfl, rfl⟩ := read
          obtain ⟨bound, used, rfl, short⟩ := ih inner
          have group : b.toNat < 256 := b.toNat_lt
          refine ⟨?_, b :: used, rfl, ?_⟩
          · calc b.toNat - 128 + 128 * m < 128 * (m + 1) := by omega
              _ ≤ 128 * (128 ^ fuel * (last + 1)) := Nat.mul_le_mul_left _ bound
              _ = 128 ^ (fuel + 1) * (last + 1) := by ring
          unfold varintSize at short ⊢
          by_cases small : b.toNat - 128 + 128 * m < 128
          · simp [varintBytes_small small]
          · rw [varintBytes_large (by omega), List.length_cons, List.length_cons]
            have quotient : (b.toNat - 128 + 128 * m) / 128 = m := by omega
            rw [quotient]
            omega

end Grotto.Format.Varint
