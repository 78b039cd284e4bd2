/- GID: Grotto/Client/Parsing
   digest: The parsers of identifiers, fingerprints and contact cards, with their slices, and the texts
   they accept. -/

import Grotto.Base.Texts
import Grotto.Client.Contacts

set_option autoImplicit false

namespace Grotto.Client.Parsing

open Format.Varint (Bytes)
open Format.Postcard (Octets)
open Protocol.Records Protocol.Hex
open Base.Texts Contacts

/-- `u8::from_str_radix(text, 16)`. -/
def byteFromStr (text : List Char) : Except ParseIntError UInt8 :=
  (fromStrRadix hexDigit 16 255 text).map UInt8.ofNat

/-- The loop of every decoder: the pairs of characters from an index on, one for each byte. -/
def readPairs (text : List Char) : Nat → Nat → Outcome ParseIntError Bytes
  | 0, _ => .returned []
  | count + 1, index =>
    match slice text (2 * index) (2 * index + 2) with
    | none => .panicked
    | some pair =>
      match byteFromStr pair with
      | .error e => .failed e
      | .ok byte => (readPairs text count (index + 1)).map (byte :: ·)

/-- The loop over the bytes of an array, failures replaced by the decoder's own. -/
def decodeHex {ε : Type} (count : Nat) (invalid : ε) (text : List Char) : Outcome ε (Octets count) :=
  match readPairs text count 0 with
  | .panicked => .panicked
  | .failed _ => .failed invalid
  | .returned bytes =>
    if length : bytes.length = count then .returned ⟨bytes, length⟩ else .panicked

/-- The shape of the three decoders: a text of the wrong size is refused before its pairs are read. -/
def sizedHex {ε : Type} (count : Nat) (wrongSize invalid : ε) (text : List Char) :
    Outcome ε (Octets count) :=
  if byteLength text ≠ 2 * count ∨ ¬isAscii text then .failed wrongSize
  else decodeHex count invalid text

inductive ParseIdError
  | invalidLength | invalidHex
  deriving DecidableEq

/-- `FromStr` of the three identifiers. -/
def idFromStr {α : Type} (make : Octets 16 → α) (value : List Char) : Outcome ParseIdError α :=
  (sizedHex 16 .invalidLength .invalidHex value).map make

def userIdFromStr : List Char → Outcome ParseIdError UserId := idFromStr UserId.mk
def roomIdFromStr : List Char → Outcome ParseIdError RoomId := idFromStr RoomId.mk
def messageIdFromStr : List Char → Outcome ParseIdError MessageId := idFromStr MessageId.mk

/-- `Display` of the three identifiers. -/
def userIdText (id : UserId) : List Char := hexText id.bytes.toList
def roomIdText (id : RoomId) : List Char := hexText id.bytes.toList
def messageIdText (id : MessageId) : List Char := hexText id.bytes.toList

/-- `parse_fingerprint_hex`. -/
def fingerprintFromStr (encoded : List Char) : Outcome ParseFingerprintError (Octets 32) :=
  sizedHex 32 .invalidLength .invalidHex (trim encoded)

/-- `ContactCard::parse`. -/
def cardFromStr (crypto : Crypto) (text : List Char) : Outcome StoreError ContactCard :=
  match sizedHex ContactCard.cardBytes (.invalidData "invalid contact card size")
      (.invalidData "invalid contact encoding") text with
  | .panicked => .panicked
  | .failed e => .failed e
  | .returned bytes =>
    if bytes.toList.head? ≠ some 1 then .failed (.invalidData "unsupported contact card version")
    else
      let card := ContactCard.ofBytes bytes.toList bytes.length_toList
      if crypto.verifyStrict card.transportKey card.transcript card.signature then .returned card
      else .failed (.invalidData "invalid contact signature")

variable {c : Char}

section Digits

def isHex (c : Char) : Bool :=
  (0x30 ≤ c.toNat && c.toNat ≤ 0x39) || (0x61 ≤ c.toNat && c.toNat ≤ 0x66) ||
    (0x41 ≤ c.toNat && c.toNat ≤ 0x46)

theorem isHex_iff : isHex c = true ↔ ∃ d, hexDigit c = some d := by
  unfold isHex hexDigit
  simp only [Bool.or_eq_true, Bool.and_eq_true, decide_eq_true_eq]
  constructor
  · intro within
    split
    · exact ⟨_, rfl⟩
    · split
      · exact ⟨_, rfl⟩
      · rw [if_pos (by omega)]
        exact ⟨_, rfl⟩
  · rintro ⟨d, found⟩
    split at found
    · omega
    split at found
    · omega
    · split at found
      · omega
      · cases found

theorem isHex_ascii (hex : isHex c = true) : c.toNat < 128 := by
  unfold isHex at hex
  simp only [Bool.or_eq_true, Bool.and_eq_true, decide_eq_true_eq] at hex
  omega

private theorem digit_table : ∀ n < 128, (hexDigit (Char.ofNat n)).all fun d =>
    decide (d < 16 ∧ hexNibble d = (Char.ofNat n).toLower) := by
  decide

theorem hexDigit_some {d : Nat} (found : hexDigit c = some d) :
    d < 16 ∧ hexNibble d = c.toLower := by
  have row := digit_table c.toNat (isHex_ascii (isHex_iff.mpr ⟨d, found⟩))
  rw [Char.ofNat_toNat, found] at row
  exact of_decide_eq_true row

theorem plus_not_hex : isHex '+' = false := by decide

private theorem nibble_table : ∀ n < 16, isHex (hexNibble n) = true := by
  decide

theorem isHex_hexText {bytes : Bytes} (listed : c ∈ hexText bytes) : isHex c = true := by
  obtain ⟨b, -, digit⟩ := List.mem_flatMap.mp listed
  have bound := b.toNat_lt
  rcases List.mem_cons.mp digit with rfl | rest
  · exact nibble_table _ (by omega)
  · rw [List.mem_singleton.mp rest]
    exact nibble_table _ (by omega)

end Digits

variable {count : Nat}

section Decoding

variable {text : List Char}

theorem byteFromStr_pair (high low : Char) : (byteFromStr [high, low]).toOption = hexPair high low := by
  have single : ∀ value < 16, (readDigits hexDigit 16 255 [low] value).toOption =
      (hexDigit low).map (16 * value + ·) := by
    intro value small
    unfold readDigits
    cases found : hexDigit low with
    | none => rfl
    | some d =>
      have bound := (hexDigit_some found).1
      dsimp only
      rw [if_neg (by omega)]
      rfl
  have mapped : ∀ {r : Except ParseIntError Nat}, (r.map UInt8.ofNat).toOption =
      r.toOption.map UInt8.ofNat := by
    intro r
    cases r <;> rfl
  unfold byteFromStr
  rw [mapped]
  unfold hexPair
  by_cases signed : high = '+'
  · subst signed
    change Option.map UInt8.ofNat (readDigits hexDigit 16 255 [low] 0).toOption = _
    rw [if_pos rfl, single 0 (by decide)]
    simp
  · have plain : fromStrRadix hexDigit 16 255 [high, low] =
        readDigits hexDigit 16 255 [high, low] 0 := by
      unfold fromStrRadix
      split
      · simp_all
      · simp_all
      · simp_all
      · simp_all
      · rfl
    rw [plain, if_neg signed]
    unfold readDigits
    cases found : hexDigit high with
    | none => rfl
    | some h =>
      have bound := (hexDigit_some found).1
      dsimp only
      rw [if_neg (by omega), single _ (by omega)]
      simp only [Nat.mul_zero, Nat.zero_add]
      cases hexDigit low <;> rfl

/-- Pairs of a digit or a plus sign and a digit. -/
def isSpelling : List Char → Bool
  | [] => true
  | [_] => false
  | high :: low :: rest => (high = '+' || isHex high) && isHex low && isSpelling rest

/-- The byte of a pair, a plus sign worth nothing. -/
def pairValue (high low : Char) : UInt8 :=
  UInt8.ofNat (16 * (hexDigit high).getD 0 + (hexDigit low).getD 0)

def spelled : List Char → Bytes
  | high :: low :: rest => pairValue high low :: spelled rest
  | _ => []

/-- A text that spells `count` bytes. -/
def Spells (count : Nat) (text : List Char) : Prop :=
  text.length = 2 * count ∧ isSpelling text = true

theorem hexPair_eq (high low : Char) : hexPair high low =
    if (high = '+' || isHex high) && isHex low then some (pairValue high low) else none := by
  have digit : ∀ c, isHex c = (hexDigit c).isSome := by
    intro c
    rw [Bool.eq_iff_iff, isHex_iff, Option.isSome_iff_exists]
  rw [digit, digit]
  unfold hexPair pairValue
  by_cases signed : high = '+'
  · subst signed
    have worthless : hexDigit '+' = none := by decide
    rw [if_pos rfl, worthless]
    cases hexDigit low with
    | none => rfl
    | some l =>
      change some (UInt8.ofNat l) = some (UInt8.ofNat (16 * 0 + l))
      rw [Nat.mul_zero, Nat.zero_add]
  · rw [if_neg signed, decide_eq_false signed]
    cases hexDigit high <;> cases hexDigit low <;> rfl

theorem hexText_pairValue {high low : Char} (left : isHex high = true) (right : isHex low = true) :
    hexText [pairValue high low] = [high.toLower, low.toLower] := by
  obtain ⟨h, high'⟩ := isHex_iff.mp left
  obtain ⟨l, low'⟩ := isHex_iff.mp right
  obtain ⟨highSmall, highText⟩ := hexDigit_some high'
  obtain ⟨lowSmall, lowText⟩ := hexDigit_some low'
  have whole : (pairValue high low).toNat = 16 * h + l := by
    rw [pairValue, high', low', UInt8.toNat_ofNat']
    exact Nat.mod_eq_of_lt (show 16 * h + l < 256 by omega)
  have upper : (16 * h + l) / 16 = h := by omega
  have lower : (16 * h + l) % 16 = l := by omega
  simp only [hexText, List.flatMap_cons, List.flatMap_nil, List.append_nil, whole, upper, lower,
    highText, lowText]

theorem pair_of_length (length : text.length = 2 * (count + 1)) :
    ∃ high low rest, text = high :: low :: rest ∧ rest.length = 2 * count := by
  rcases text with _ | ⟨high, _ | ⟨low, rest⟩⟩
  · simp at length
  · simp only [List.length_cons, List.length_nil] at length
    omega
  · simp only [List.length_cons] at length
    exact ⟨high, low, rest, rfl, by omega⟩

theorem length_spelled (length : text.length = 2 * count) : (spelled text).length = count := by
  induction count generalizing text with
  | zero =>
    obtain rfl := List.length_eq_zero_iff.mp length
    rfl
  | succ count ih =>
    obtain ⟨high, low, rest, rfl, shorter⟩ := pair_of_length length
    exact congrArg (· + 1) (ih shorter)

theorem hexBytes_eq (length : text.length = 2 * count) :
    hexBytes text = if isSpelling text then some (spelled text) else none := by
  induction count generalizing text with
  | zero =>
    obtain rfl := List.length_eq_zero_iff.mp length
    rfl
  | succ count ih =>
    obtain ⟨high, low, rest, rfl, shorter⟩ := pair_of_length length
    change (hexPair high low >>= fun b => hexBytes rest >>= fun bytes => some (b :: bytes)) = _
    rw [hexPair_eq, ih shorter, isSpelling, spelled]
    cases (decide (high = '+') || isHex high) && isHex low <;> cases isSpelling rest <;> rfl

theorem spells_of_hex (length : text.length = 2 * count)
    (digits : ∀ c ∈ text, isHex c = true) : Spells count text := by
  induction count generalizing text with
  | zero =>
    obtain rfl := List.length_eq_zero_iff.mp length
    exact ⟨length, rfl⟩
  | succ count ih =>
    obtain ⟨high, low, rest, rfl, shorter⟩ := pair_of_length length
    obtain ⟨-, spelling⟩ := ih shorter fun c listed =>
      digits c (List.mem_cons_of_mem _ (List.mem_cons_of_mem _ listed))
    refine ⟨length, ?_⟩
    rw [isSpelling, digits high (by simp), digits low (by simp), spelling, Bool.or_true]
    rfl

theorem spelling_cons {high low : Char} {rest : List Char}
    (spelling : isSpelling (high :: low :: rest) = true) :
    (high = '+' ∨ isHex high = true) ∧ isHex low = true ∧ isSpelling rest = true := by
  simpa [isSpelling, and_assoc] using spelling

/-- A spelling without a plus sign is hexadecimal, and its bytes are written as it is in lower case. -/
theorem Spells.exact (spells : Spells count text) (unsigned : '+' ∉ text) :
    (∀ c ∈ text, isHex c = true) ∧ hexText (spelled text) = text.map Char.toLower := by
  obtain ⟨length, spelling⟩ := spells
  induction count generalizing text with
  | zero =>
    obtain rfl := List.length_eq_zero_iff.mp length
    exact ⟨fun c listed => absurd listed List.not_mem_nil, rfl⟩
  | succ count ih =>
    obtain ⟨high, low, rest, rfl, shorter⟩ := pair_of_length length
    obtain ⟨first, lowHex, later⟩ := spelling_cons spelling
    have highHex := first.resolve_left fun signed => unsigned (signed ▸ List.mem_cons_self)
    obtain ⟨digits, lower⟩ := ih (fun listed =>
      unsigned (List.mem_cons_of_mem _ (List.mem_cons_of_mem _ listed))) shorter later
    refine ⟨?_, ?_⟩
    · intro c listed
      rcases List.mem_cons.mp listed with rfl | listed
      · exact highHex
      · rcases List.mem_cons.mp listed with rfl | listed
        · exact lowHex
        · exact digits c listed
    · change hexText [pairValue high low] ++ hexText (spelled rest) = _
      rw [hexText_pairValue highHex lowHex, lower]
      rfl

theorem Spells.ascii (spells : Spells count text) : ∀ c ∈ text, c.toNat < 128 := by
  obtain ⟨length, spelling⟩ := spells
  induction count generalizing text with
  | zero =>
    obtain rfl := List.length_eq_zero_iff.mp length
    exact fun c listed => absurd listed List.not_mem_nil
  | succ count ih =>
    obtain ⟨high, low, rest, rfl, shorter⟩ := pair_of_length length
    obtain ⟨first, lowHex, later⟩ := spelling_cons spelling
    intro c listed
    rcases List.mem_cons.mp listed with rfl | listed
    · rcases first with rfl | highHex
      · decide
      · exact isHex_ascii highHex
    · rcases List.mem_cons.mp listed with rfl | listed
      · exact isHex_ascii lowHex
      · exact ih shorter later c listed

end Decoding

section Slices

variable {text : List Char} (ascii : ∀ c ∈ text, c.toNat < 128)

include ascii in
theorem readPairs_ascii {count index : Nat} (length : text.length = 2 * (index + count)) :
    (∃ e, readPairs text count index = .failed e ∧ hexBytes (text.drop (2 * index)) = none) ∨
      ∃ bytes, readPairs text count index = .returned bytes ∧
        hexBytes (text.drop (2 * index)) = some bytes := by
  induction count generalizing index with
  | zero =>
    refine .inr ⟨[], rfl, ?_⟩
    rw [List.drop_eq_nil_of_le (by omega)]
    rfl
  | succ count ih =>
    have shorter : (text.drop (2 * index)).length = 2 * (count + 1) := by
      rw [List.length_drop]
      omega
    obtain ⟨high, low, rest, front, -⟩ := pair_of_length shorter
    have pair : slice text (2 * index) (2 * index + 2) = some [high, low] := by
      rw [slice_ascii ascii (by omega) (by omega), front, Nat.add_sub_cancel_left]
      rfl
    have onward : text.drop (2 * (index + 1)) = rest := by
      rw [Nat.mul_add, ← List.drop_drop, front]
      rfl
    have byte := byteFromStr_pair high low
    have next := @ih (index + 1) (by omega)
    rw [onward] at next
    rw [front]
    unfold readPairs hexBytes
    rw [pair]
    dsimp only
    cases read : byteFromStr [high, low] with
    | error e =>
      rw [read] at byte
      refine .inl ⟨e, rfl, ?_⟩
      rw [← byte]
      rfl
    | ok value =>
      rw [read] at byte
      rw [← byte]
      rcases next with ⟨e, failed, none⟩ | ⟨bytes, returned, some⟩
      · refine .inl ⟨e, ?_, ?_⟩
        · rw [failed]
          rfl
        · rw [none]
          rfl
      · refine .inr ⟨value :: bytes, ?_, ?_⟩
        · rw [returned]
          rfl
        · rw [some]
          rfl

include ascii in
theorem decodeHex_ascii {ε : Type} (invalid : ε) (length : text.length = 2 * count) :
    decodeHex count invalid text = .failed invalid ∧ hexBytes text = none ∨
      ∃ bytes : Octets count, decodeHex count invalid text = .returned bytes ∧
        hexBytes text = some bytes.toList := by
  have read := @readPairs_ascii text ascii count 0 (by rw [length, Nat.zero_add])
  rw [Nat.mul_zero, List.drop_zero] at read
  unfold decodeHex
  rcases read with ⟨e, failed, none⟩ | ⟨bytes, returned, some⟩
  · rw [failed]
    exact .inl ⟨rfl, none⟩
  have counted : bytes.length = count := by
    rw [hexBytes_eq length] at some
    split at some
    · rw [← Option.some.inj some, length_spelled length]
    · cases some
  rw [returned]
  dsimp only
  rw [dif_pos counted]
  exact .inr ⟨_, rfl, some⟩

end Slices

section Exactness

variable {ε α : Type}

def HexText (digits : Nat) (text : List Char) : Prop :=
  text.length = digits ∧ ∀ c ∈ text, isHex c = true

/-- What is accepted is hexadecimal, and its value is rendered as the text in lower case. -/
def Faithful (parse : List Char → Outcome ε α) (render : α → List Char) (digits : Nat)
    (normal : List Char → List Char) (s : List Char) : Prop :=
  ∀ v, parse s = .returned v →
    HexText digits (normal s) ∧ render v = (normal s).map Char.toLower

def Complete (parse : List Char → Outcome ε α) (digits : Nat) (normal : List Char → List Char)
    (s : List Char) : Prop :=
  HexText digits (normal s) → ∃ v, parse s = .returned v

/-- A spelling with a plus sign. -/
def Signed (count : Nat) (text : List Char) : Prop := Spells count text ∧ '+' ∈ text

theorem faithful_iff (count : Nat) {parse : List Char → Outcome ε α} {render : α → List Char}
    {normal : List Char → List Char} {s : List Char} {further : Prop}
    (accepts : (∃ v, parse s = .returned v) ↔ Spells count (normal s) ∧ further)
    (reads : ∀ v, parse s = .returned v → render v = hexText (spelled (normal s))) :
    Faithful parse render (2 * count) normal s ↔ ¬(Signed count (normal s) ∧ further) := by
  constructor
  · rintro faithful ⟨⟨spells, signed⟩, rest⟩
    obtain ⟨v, accepted⟩ := accepts.mpr ⟨spells, rest⟩
    have hex := (faithful v accepted).1.2 '+' signed
    rw [plus_not_hex] at hex
    cases hex
  · intro unsigned v accepted
    obtain ⟨spells, rest⟩ := accepts.mp ⟨v, accepted⟩
    obtain ⟨digits, lower⟩ := spells.exact fun signed => unsigned ⟨⟨spells, signed⟩, rest⟩
    exact ⟨⟨spells.1, digits⟩, (reads v accepted).trans lower⟩

theorem sized_iff (text : List Char) (size : Nat) :
    byteLength text ≠ size ∨ ¬isAscii text = true ↔ text.length ≠ size ∨ ¬isAscii text = true := by
  by_cases ascii : isAscii text = true
  · rw [byteLength_ascii fun c listed => of_decide_eq_true (List.all_eq_true.mp ascii c listed)]
  · exact iff_of_true (.inr ascii) (.inr ascii)

theorem sized_cases (text : List Char) (count : Nat) :
    (byteLength text ≠ 2 * count ∨ ¬isAscii text = true) ∧ ¬Spells count text ∨
      ¬(byteLength text ≠ 2 * count ∨ ¬isAscii text = true) ∧ text.length = 2 * count ∧
        ∀ c ∈ text, c.toNat < 128 := by
  rw [sized_iff]
  by_cases ascii : isAscii text = true
  · by_cases length : text.length = 2 * count
    · refine .inr ⟨fun wrong => wrong.elim (absurd length) (absurd ascii), length, fun c listed => ?_⟩
      exact of_decide_eq_true (List.all_eq_true.mp ascii c listed)
    · exact .inl ⟨.inl length, fun spells => length spells.1⟩
  · refine .inl ⟨.inr ascii, fun spells => ascii (List.all_eq_true.mpr fun c listed => ?_)⟩
    exact decide_eq_true (spells.ascii c listed)

theorem sizedHex_cases (count : Nat) (wrongSize invalid : ε) (text : List Char) :
    (∃ e, sizedHex count wrongSize invalid text = .failed e) ∧ ¬Spells count text ∨
      Spells count text ∧ ∃ bytes : Octets count,
        sizedHex count wrongSize invalid text = .returned bytes ∧ bytes.toList = spelled text := by
  unfold sizedHex
  rcases sized_cases text count with ⟨wrong, other⟩ | ⟨right, length, ascii⟩
  · rw [if_pos wrong]
    exact .inl ⟨⟨_, rfl⟩, other⟩
  rw [if_neg right]
  have read := hexBytes_eq length
  rcases decodeHex_ascii ascii invalid length with ⟨failed, none⟩ | ⟨bytes, decoded, some⟩
  · rw [failed]
    refine .inl ⟨⟨_, rfl⟩, fun spells => ?_⟩
    rw [none, if_pos spells.2] at read
    cases read
  · rw [decoded]
    rw [some] at read
    split at read
    · rename_i spelling
      exact .inr ⟨⟨length, spelling⟩, bytes, rfl, Option.some.inj read⟩
    · cases read

theorem spelled_hexText (bytes : Bytes) : spelled (hexText bytes) = bytes := by
  have read := hexBytes_eq (length_hexText bytes)
  rw [hexBytes_hexText] at read
  split at read
  · exact (Option.some.inj read).symm
  · cases read

theorem sizedHex_hexText (wrongSize invalid : ε) (bytes : Octets count) :
    sizedHex count wrongSize invalid (hexText bytes.toList) = .returned bytes := by
  have spells : Spells count (hexText bytes.toList) :=
    spells_of_hex (by simp) fun c listed => isHex_hexText listed
  rcases sizedHex_cases count wrongSize invalid (hexText bytes.toList) with
    ⟨-, other⟩ | ⟨-, read, returned, same⟩
  · exact absurd spells other
  · rw [spelled_hexText] at same
    rw [returned, Octets.toList_injective same]

section Identifiers

variable {make : Octets 16 → α} {render : α → List Char}
  (rendered : ∀ bytes : Octets 16, render (make bytes) = hexText bytes.toList) (s : List Char)

theorem idFromStr_cases : (∃ e, idFromStr make s = .failed e) ∧ ¬Spells 16 s ∨
    Spells 16 s ∧ ∃ bytes : Octets 16, idFromStr make s = .returned (make bytes) ∧
      bytes.toList = spelled s := by
  unfold idFromStr
  rcases sizedHex_cases 16 ParseIdError.invalidLength .invalidHex s with
    ⟨⟨e, failed⟩, other⟩ | ⟨spells, bytes, returned, same⟩
  · rw [failed]
    exact .inl ⟨⟨e, rfl⟩, other⟩
  · rw [returned]
    exact .inr ⟨spells, bytes, rfl, same⟩

theorem idFromStr_total : idFromStr make s ≠ .panicked := by
  rcases @idFromStr_cases _ make s with ⟨⟨e, failed⟩, -⟩ | ⟨-, bytes, returned, -⟩
  · rw [failed]
    intro impossible
    cases impossible
  · rw [returned]
    intro impossible
    cases impossible

include rendered in
theorem idFromStr_exact : Faithful (idFromStr make) render 32 id s ∧ Complete (idFromStr make) 32 id s ↔
    ¬Signed 16 s := by
  have cases := @idFromStr_cases _ make s
  have accepts : (∃ v, idFromStr make s = .returned v) ↔ Spells 16 s ∧ True := by
    rw [and_true]
    rcases cases with ⟨⟨e, failed⟩, other⟩ | ⟨spells, bytes, returned, -⟩
    · rw [failed]
      exact iff_of_false (fun ⟨_, impossible⟩ => nomatch impossible) other
    · exact iff_of_true ⟨_, returned⟩ spells
  have complete : Complete (idFromStr make) 32 id s := fun hex =>
    accepts.mpr ⟨spells_of_hex hex.1 hex.2, trivial⟩
  refine (and_iff_left complete).trans ((faithful_iff 16 accepts ?_).trans (by rw [and_true, id]))
  intro v accepted
  rcases cases with ⟨⟨e, failed⟩, -⟩ | ⟨-, bytes, returned, same⟩
  · rw [failed] at accepted
    cases accepted
  · rw [returned] at accepted
    cases accepted
    exact (rendered bytes).trans (congrArg hexText same)

include rendered in
theorem idFromStr_render (bytes : Octets 16) :
    idFromStr make (render (make bytes)) = .returned (make bytes) := by
  unfold idFromStr
  rw [rendered, sizedHex_hexText]
  rfl

end Identifiers

section Fingerprints

variable (s : List Char)

theorem fingerprintFromStr_total : fingerprintFromStr s ≠ .panicked := by
  unfold fingerprintFromStr
  rcases sizedHex_cases 32 ParseFingerprintError.invalidLength .invalidHex (trim s) with
    ⟨⟨e, failed⟩, -⟩ | ⟨-, bytes, returned, -⟩
  · rw [failed]
    intro impossible
    cases impossible
  · rw [returned]
    intro impossible
    cases impossible

theorem fingerprintFromStr_exact : Faithful fingerprintFromStr (fun d => hexText d.toList) 64 trim s ∧
    Complete fingerprintFromStr 64 trim s ↔ ¬Signed 32 (trim s) := by
  have cases := sizedHex_cases 32 ParseFingerprintError.invalidLength .invalidHex (trim s)
  have accepts : (∃ v, fingerprintFromStr s = .returned v) ↔ Spells 32 (trim s) ∧ True := by
    rw [and_true]
    unfold fingerprintFromStr
    rcases cases with ⟨⟨e, failed⟩, other⟩ | ⟨spells, bytes, returned, -⟩
    · rw [failed]
      exact iff_of_false (fun ⟨_, impossible⟩ => nomatch impossible) other
    · exact iff_of_true ⟨_, returned⟩ spells
  have complete : Complete fingerprintFromStr 64 trim s := fun hex =>
    accepts.mpr ⟨spells_of_hex hex.1 hex.2, trivial⟩
  refine (and_iff_left complete).trans ((faithful_iff 32 accepts ?_).trans (by rw [and_true]))
  intro v accepted
  unfold fingerprintFromStr at accepted
  rcases cases with ⟨⟨e, failed⟩, -⟩ | ⟨-, bytes, returned, same⟩
  · rw [failed] at accepted
    cases accepted
  · rw [returned] at accepted
    cases accepted
    exact congrArg hexText same

theorem fingerprintFromStr_eq :
    (fingerprintFromStr s).map Octets.toList = .ofExcept (parseFingerprintHex s) := by
  unfold fingerprintFromStr sizedHex parseFingerprintHex
  rcases sized_cases (trim s) 32 with ⟨wrong, -⟩ | ⟨right, length, ascii⟩
  · rw [if_pos wrong, if_pos ((sized_iff _ _).mp wrong)]
    rfl
  rw [if_neg right, if_neg fun wrong => right ((sized_iff _ _).mpr wrong)]
  rcases decodeHex_ascii ascii ParseFingerprintError.invalidHex length with
    ⟨failed, none⟩ | ⟨bytes, read, some⟩
  · rw [failed, none]
    rfl
  · rw [read, some]
    rfl

theorem fingerprintFromStr_render (digest : Octets 32) :
    fingerprintFromStr (hexText digest.toList) = .returned digest := by
  unfold fingerprintFromStr
  rw [trim_hexText, sizedHex_hexText]

end Fingerprints

section Cards

variable (crypto : Crypto)

theorem bytes_ofBytes {bytes : Bytes} (length : bytes.length = ContactCard.cardBytes)
    (version : bytes.head? = some 1) : (ContactCard.ofBytes bytes length).bytes = bytes := by
  obtain ⟨rest, rfl⟩ := List.head?_eq_some_iff.mp version
  have fields : rest.take 16 ++ (rest.drop 16).take 32 ++ (rest.drop 48).take 32 ++ rest.drop 80 =
      rest := by
    have signature : rest.drop 80 = (rest.drop 48).drop 32 := by rw [List.drop_drop]
    have keys : rest.drop 48 = (rest.drop 16).drop 32 := by rw [List.drop_drop]
    rw [signature, List.append_assoc _ ((rest.drop 48).take 32), List.take_append_drop, keys,
      List.append_assoc, List.take_append_drop, List.take_append_drop]
  exact congrArg (1 :: ·) fields

/-- A text whose bytes are a card with a valid signature. -/
def SpellsCard (s : List Char) : Prop :=
  ∃ card : ContactCard, spelled s = card.bytes ∧
    crypto.verifyStrict card.transportKey card.transcript card.signature = true

theorem cardFromStr_cases (s : List Char) :
    (∃ e, cardFromStr crypto s = .failed e) ∧ ¬(Spells 145 s ∧ SpellsCard crypto s) ∨
      (Spells 145 s ∧ SpellsCard crypto s) ∧
        ∃ card, cardFromStr crypto s = .returned card ∧ card.bytes = spelled s := by
  unfold cardFromStr
  rcases sizedHex_cases ContactCard.cardBytes (StoreError.invalidData "invalid contact card size")
      (.invalidData "invalid contact encoding") s with ⟨⟨e, failed⟩, other⟩ | ⟨spells, bytes, returned, same⟩
  · rw [failed]
    exact .inl ⟨⟨e, rfl⟩, fun both => other both.1⟩
  rw [returned]
  dsimp only
  split
  · rename_i version
    refine .inl ⟨⟨_, rfl⟩, ?_⟩
    rintro ⟨-, card, read, -⟩
    rw [same, read] at version
    exact version rfl
  rename_i version
  have read := bytes_ofBytes bytes.length_toList (not_ne_iff.mp version)
  split
  · rename_i verified
    exact .inr ⟨⟨spells, _, same.symm.trans read.symm, verified⟩, _, rfl, read.trans same⟩
  · rename_i forged
    refine .inl ⟨⟨_, rfl⟩, ?_⟩
    rintro ⟨-, card, spelling, verified⟩
    rw [ContactCard.bytes_injective (read.trans (same.trans spelling))] at forged
    exact forged verified

theorem cardFromStr_eq (s : List Char) : cardFromStr crypto s = .ofExcept (ContactCard.parse crypto s) := by
  unfold cardFromStr sizedHex ContactCard.parse
  rcases sized_cases s ContactCard.cardBytes with ⟨wrong, -⟩ | ⟨right, length, ascii⟩
  · rw [if_pos wrong, if_pos ((sized_iff _ _).mp wrong)]
    rfl
  rw [if_neg right, if_neg fun wrong => right ((sized_iff _ _).mpr wrong)]
  rcases decodeHex_ascii ascii (StoreError.invalidData "invalid contact encoding") length with
    ⟨failed, none⟩ | ⟨bytes, read, some⟩
  · rw [failed, none]
    rfl
  rw [read, some]
  dsimp only
  rw [dif_pos bytes.length_toList]
  split
  · rfl
  · split
    · rfl
    · rfl

theorem cardFromStr_total (s : List Char) : cardFromStr crypto s ≠ .panicked := by
  rcases cardFromStr_cases crypto s with ⟨⟨e, failed⟩, -⟩ | ⟨-, card, returned, -⟩
  · rw [failed]
    intro impossible
    cases impossible
  · rw [returned]
    intro impossible
    cases impossible

theorem cardFromStr_exact (s : List Char) : Faithful (cardFromStr crypto) ContactCard.encode 290 id s ↔
    ¬(Signed 145 s ∧ SpellsCard crypto s) := by
  have cases := cardFromStr_cases crypto s
  refine faithful_iff 145 ?_ ?_
  · rcases cases with ⟨⟨e, failed⟩, other⟩ | ⟨spells, card, returned, -⟩
    · rw [failed]
      exact iff_of_false (fun ⟨_, impossible⟩ => nomatch impossible) other
    · exact iff_of_true ⟨_, returned⟩ spells
  · intro card accepted
    rcases cases with ⟨⟨e, failed⟩, -⟩ | ⟨-, read, returned, same⟩
    · rw [failed] at accepted
      cases accepted
    · rw [returned] at accepted
      cases accepted
      exact congrArg hexText same

theorem cardFromStr_encode (card : ContactCard) : cardFromStr crypto card.encode = .returned card ↔
    crypto.verifyStrict card.transportKey card.transcript card.signature = true := by
  have read := sizedHex_hexText (StoreError.invalidData "invalid contact card size")
    (.invalidData "invalid contact encoding") (⟨card.bytes, card.length_bytes⟩ : Octets _)
  unfold cardFromStr ContactCard.encode
  rw [read]
  dsimp only
  have version : ¬card.bytes.head? ≠ some 1 := not_not_intro rfl
  rw [if_neg version, ContactCard.ofBytes_bytes]
  split
  · rename_i verified
    exact ⟨fun _ => verified, fun _ => rfl⟩
  rename_i forged
  constructor
  · intro impossible
    cases impossible
  · exact fun verified => absurd verified forged

end Cards

end Exactness

section Results

variable (crypto : Crypto) (s : List Char)

/-- What the parsers accept of a text is hexadecimal of the right length and is rendered as the text in
lower case; the identifiers and fingerprints accept all of it. -/
def ParsersExact : Prop :=
  (Faithful userIdFromStr userIdText 32 id s ∧ Complete userIdFromStr 32 id s) ∧
  (Faithful roomIdFromStr roomIdText 32 id s ∧ Complete roomIdFromStr 32 id s) ∧
  (Faithful messageIdFromStr messageIdText 32 id s ∧ Complete messageIdFromStr 32 id s) ∧
  (Faithful fingerprintFromStr (fun digest => hexText digest.toList) 64 trim s ∧
    Complete fingerprintFromStr 64 trim s) ∧
  Faithful (cardFromStr crypto) ContactCard.encode 290 id s

/-- Texts with a plus sign at the front of a pair, of a size that some parser takes; as a card only if
its bytes are a signed card. -/
def SignedInput : Prop :=
  Signed 16 s ∨ Signed 32 (trim s) ∨ Signed 145 s ∧ SpellsCard crypto s

def ParsersTotal : Prop :=
  userIdFromStr s ≠ .panicked ∧ roomIdFromStr s ≠ .panicked ∧ messageIdFromStr s ≠ .panicked ∧
  fingerprintFromStr s ≠ .panicked ∧ cardFromStr crypto s ≠ .panicked

/-- The parsers accept exactly hexadecimal of every text but those with a plus sign in the place of a
pair's first digit; they never panic, and they read back every value that is rendered. -/
theorem parsers_exact_iff (user : UserId) (room : RoomId) (message : MessageId) (digest : Octets 32)
    (card : ContactCard) :
    (ParsersExact crypto s ↔ ¬SignedInput crypto s) ∧ ParsersTotal crypto s ∧
    userIdFromStr (userIdText user) = .returned user ∧
    roomIdFromStr (roomIdText room) = .returned room ∧
    messageIdFromStr (messageIdText message) = .returned message ∧
    fingerprintFromStr (hexText digest.toList) = .returned digest ∧
    (cardFromStr crypto card.encode = .returned card ↔
      crypto.verifyStrict card.transportKey card.transcript card.signature = true) := by
  refine ⟨?_, ?_, ?_, ?_, ?_, ?_, ?_⟩
  · have users := @idFromStr_exact _ UserId.mk userIdText (fun _ => rfl) s
    have rooms := @idFromStr_exact _ RoomId.mk roomIdText (fun _ => rfl) s
    have messages := @idFromStr_exact _ MessageId.mk messageIdText (fun _ => rfl) s
    unfold ParsersExact SignedInput userIdFromStr roomIdFromStr messageIdFromStr
    rw [users, rooms, messages, fingerprintFromStr_exact s, cardFromStr_exact crypto s, not_or, not_or,
      and_self_left, and_self_left]
  · exact ⟨idFromStr_total s, idFromStr_total s, idFromStr_total s, fingerprintFromStr_total s,
      cardFromStr_total crypto s⟩
  · exact @idFromStr_render _ UserId.mk userIdText (fun _ => rfl) user.bytes
  · exact @idFromStr_render _ RoomId.mk roomIdText (fun _ => rfl) room.bytes
  · exact @idFromStr_render _ MessageId.mk messageIdText (fun _ => rfl) message.bytes
  · exact fingerprintFromStr_render digest
  · exact cardFromStr_encode crypto card

/-- Sixteen times `+1`. -/
def signedText : List Char := (List.replicate 16 ['+', '1']).flatten

/-- A text that is not hexadecimal is accepted as an identifier, whose rendering is another text. -/
theorem signed_text_accepted :
    userIdFromStr signedText = .returned ⟨⟨List.replicate 16 1, rfl⟩⟩ ∧
    ¬HexText 32 signedText ∧
    userIdText ⟨⟨List.replicate 16 1, rfl⟩⟩ ≠ signedText.map Char.toLower := by
  refine ⟨by decide +kernel, ?_, by decide⟩
  intro hex
  exact absurd (hex.2 '+' (by decide)) (by decide)

end Results

end Grotto.Client.Parsing
