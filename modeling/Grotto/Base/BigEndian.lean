/- GID: Grotto/Base/BigEndian
   digest: Bytes as numerals, most significant first, and the order of blobs. -/

import Mathlib.Data.List.Basic
import Mathlib.Tactic.Ring

set_option autoImplicit false

namespace Grotto.Base.BigEndian

def fromBeBytes (bytes : List UInt8) : Nat := bytes.foldl (fun n byte => 256 * n + byte.toNat) 0

private theorem foldl_eq (bytes : List UInt8) (n : Nat) :
    bytes.foldl (fun n byte => 256 * n + byte.toNat) n = n * 256 ^ bytes.length + fromBeBytes bytes := by
  induction bytes generalizing n with
  | nil =>
    change n = n * 256 ^ 0 + 0
    omega
  | cons byte bytes ih =>
    unfold fromBeBytes
    rw [List.foldl_cons, List.foldl_cons, ih, ih (256 * 0 + byte.toNat), List.length_cons, Nat.pow_succ]
    ring

theorem fromBeBytes_cons (byte : UInt8) (bytes : List UInt8) :
    fromBeBytes (byte :: bytes) = byte.toNat * 256 ^ bytes.length + fromBeBytes bytes := by
  change bytes.foldl _ (256 * 0 + byte.toNat) = _
  rw [foldl_eq, Nat.mul_zero, Nat.zero_add]

theorem fromBeBytes_lt (bytes : List UInt8) : fromBeBytes bytes < 256 ^ bytes.length := by
  induction bytes with
  | nil => decide
  | cons byte bytes ih =>
    have small : byte.toNat ≤ 255 := Nat.le_of_lt_succ byte.toNat_lt
    have bound := Nat.mul_le_mul_right (256 ^ bytes.length) small
    rw [fromBeBytes_cons, List.length_cons, Nat.pow_succ]
    omega

/-- The comparison of blobs: byte by byte, a proper beginning before what it begins. -/
def blobLe : List UInt8 → List UInt8 → Bool
  | [], _ => true
  | _ :: _, [] => false
  | a :: as, b :: bs => a < b || (a == b && blobLe as bs)

theorem blobLe_iff {as bs : List UInt8} (length : as.length = bs.length) :
    blobLe as bs = true ↔ fromBeBytes as ≤ fromBeBytes bs := by
  induction as generalizing bs with
  | nil =>
    obtain rfl := List.length_eq_zero_iff.mp length.symm
    exact iff_of_true rfl (Nat.le_refl _)
  | cons a as ih =>
    obtain ⟨b, bs, rfl⟩ := List.exists_cons_of_length_eq_add_one length.symm
    have shorter := Nat.succ.inj length
    have low := fromBeBytes_lt as
    have high := fromBeBytes_lt bs
    rw [shorter] at low
    rw [fromBeBytes_cons, fromBeBytes_cons, shorter]
    unfold blobLe
    rw [Bool.or_eq_true, Bool.and_eq_true, decide_eq_true_eq, beq_iff_eq, ih shorter]
    rcases Nat.lt_trichotomy a.toNat b.toNat with less | same | more
    · have bound := Nat.mul_le_mul_right (256 ^ bs.length) (Nat.succ_le_of_lt less)
      rw [Nat.succ_mul] at bound
      exact iff_of_true (.inl (UInt8.lt_iff_toNat_lt.mpr less)) (by omega)
    · obtain rfl := UInt8.toNat_inj.mp same
      constructor
      · rintro (less | ⟨-, rest⟩)
        · exact absurd less (UInt8.lt_irrefl a)
        · omega
      · intro whole
        exact .inr ⟨rfl, by omega⟩
    · have bound := Nat.mul_le_mul_right (256 ^ bs.length) (Nat.succ_le_of_lt more)
      rw [Nat.succ_mul] at bound
      refine iff_of_false ?_ (by omega)
      rintro (less | ⟨rfl, -⟩)
      · exact Nat.lt_asymm more (UInt8.lt_iff_toNat_lt.mp less)
      · exact Nat.lt_irrefl _ more

def best (blob next : List UInt8) : List UInt8 := if blobLe next blob then blob else next

/-- `MAX` of blobs. -/
def maxBlob : List (List UInt8) → Option (List UInt8)
  | [] => none
  | blob :: blobs => some (blobs.foldl best blob)

variable {width : Nat}

theorem best_spec {blob next : List UInt8} (length : next.length = blob.length) :
    (best blob next = blob ∨ best blob next = next) ∧ fromBeBytes blob ≤ fromBeBytes (best blob next) ∧
      fromBeBytes next ≤ fromBeBytes (best blob next) := by
  have order := blobLe_iff length
  unfold best
  by_cases less : blobLe next blob = true
  · rw [if_pos less]
    exact ⟨.inl rfl, Nat.le_refl _, order.mp less⟩
  · rw [if_neg less]
    exact ⟨.inr rfl, Nat.le_of_not_le fun back => less (order.mpr back), Nat.le_refl _⟩

theorem foldl_best {blob : List UInt8} {blobs : List (List UInt8)}
    (sized : ∀ other ∈ blob :: blobs, other.length = width) :
    blobs.foldl best blob ∈ blob :: blobs ∧
      ∀ other ∈ blob :: blobs, fromBeBytes other ≤ fromBeBytes (blobs.foldl best blob) := by
  induction blobs generalizing blob with
  | nil =>
    refine ⟨List.mem_cons_self, fun other listed => ?_⟩
    rw [List.mem_singleton.mp listed]
    exact Nat.le_refl _
  | cons next blobs ih =>
    have first := sized blob List.mem_cons_self
    have second := sized next (List.mem_cons_of_mem _ List.mem_cons_self)
    obtain ⟨one, above, over'⟩ := best_spec (second.trans first.symm)
    have rest : ∀ other ∈ best blob next :: blobs, other.length = width := by
      intro other listed
      rcases List.mem_cons.mp listed with rfl | listed
      · rcases one with same | same
        · rw [same, first]
        · rw [same, second]
      · exact sized other (List.mem_cons_of_mem _ (List.mem_cons_of_mem _ listed))
    obtain ⟨listed, greatest⟩ := ih rest
    have top := greatest _ List.mem_cons_self
    rw [List.foldl_cons]
    constructor
    · rcases List.mem_cons.mp listed with same | listed
      · rw [same]
        rcases one with same | same
        · rw [same]
          exact List.mem_cons_self
        · rw [same]
          exact List.mem_cons_of_mem _ List.mem_cons_self
      · exact List.mem_cons_of_mem _ (List.mem_cons_of_mem _ listed)
    · intro other listed
      rcases List.mem_cons.mp listed with rfl | listed
      · exact Nat.le_trans above top
      · rcases List.mem_cons.mp listed with rfl | listed
        · exact Nat.le_trans over' top
        · exact greatest other (List.mem_cons_of_mem _ listed)

theorem maxBlob_spec {blobs : List (List UInt8)} (sized : ∀ blob ∈ blobs, blob.length = width) :
    blobs = [] ∧ maxBlob blobs = none ∨ ∃ greatest ∈ blobs, maxBlob blobs = some greatest ∧
      ∀ blob ∈ blobs, fromBeBytes blob ≤ fromBeBytes greatest := by
  cases blobs with
  | nil => exact .inl ⟨rfl, rfl⟩
  | cons blob blobs =>
    obtain ⟨listed, above⟩ := foldl_best sized
    exact .inr ⟨_, listed, rfl, above⟩

end Grotto.Base.BigEndian
