/- GID: Grotto/Client/RelayPins
   digest: The file of relay fingerprints trusted on first use, over any calls, failed and torn writes. -/

import Grotto.Base.Keyed
import Grotto.Client.Parsing

set_option autoImplicit false

namespace Grotto.Client.RelayPins

open Format.Varint (Bytes)
open Protocol.Records Protocol.Hex Base.Keyed Base.Texts
open Contacts Parsing

def maxPinFile : Nat := 64 * 1024

inductive PinError
  | io
  | text (reason : List Char)
  deriving DecidableEq

namespace PinError

def budget : PinError := .text "relay pin file exceeds its size budget".toList
def incomplete : PinError := .text "incomplete relay pin record".toList
def malformed : PinError := .text "malformed relay pin record".toList

def mismatch (path address : List Char) : PinError :=
  .text ("relay fingerprint mismatch for ".toList ++ address ++
    ": pinned entry differs. Verify out of band, then delete ".toList ++ path ++
    " or set GROTTO_RELAY_FINGERPRINT.".toList)

end PinError

def isRecord (line : List Char) : Bool :=
  match words isWhitespace line with
  | [_, fingerprint] => (parseFingerprintHex fingerprint).isOk
  | _ => false

/-- The first line of the address decides; `false` when there is none. -/
def checkLines (path address fingerprint : List Char) : List (List Char) → Except PinError Bool
  | [] => .ok false
  | line :: rest =>
    match words isWhitespace line with
    | [] => checkLines path address fingerprint rest
    | first :: fields =>
      if first = address then
        if fields.head? = some fingerprint then .ok true else .error (.mismatch path address)
      else checkLines path address fingerprint rest

/-- `format!("{addr} {fingerprint}\n")`. -/
def record (address fingerprint : List Char) : List Char := address ++ ' ' :: fingerprint ++ ['\n']

/-- The bytes a call appends; `none` when the pin is there already. -/
def newRecord (path address fingerprint : List Char) (file : Bytes) : Except PinError (Option Bytes) :=
  if file.length > maxPinFile then .error .budget
  else
    match readUtf8 file with
    | none => .error .io
    | some existing =>
      if existing ≠ [] ∧ existing.getLast? ≠ some '\n' then .error .incomplete
      else if ¬(lines existing).all isRecord then .error .malformed
      else
        match checkLines path address fingerprint (lines existing) with
        | .error e => .error e
        | .ok true => .ok none
        | .ok false =>
          let line := utf8 (record address fingerprint)
          if file.length + line.length > maxPinFile then .error .budget else .ok (some line)

/-- What stops a call: opening, measuring or reading the file fails, or seeking its end; `write_all` fails
after some bytes; `sync_all` fails. A crash leaves the file as the failure at its place does. -/
inductive Fault
  | opening | seeking
  | writing (cut : Nat)
  | syncing
  deriving DecidableEq

/-- `ensure_pinned`: its result and the file afterwards. -/
def ensurePinned (path address fingerprint : List Char) (fault : Option Fault) (file : Bytes) :
    Except PinError Bool × Bytes :=
  if fault = some .opening then (.error .io, file)
  else
    match newRecord path address fingerprint file with
    | .error e => (.error e, file)
    | .ok none => (.ok false, file)
    | .ok (some line) =>
      match fault with
      | some .seeking => (.error .io, file)
      | some (.writing cut) => (.error .io, file ++ line.take cut)
      | some .syncing => (.error .io, file ++ line)
      | _ => (.ok true, file ++ line)

structure Pin where
  address : List Char
  fingerprint : List Char
  named : address ≠ []
  solid : ∀ c ∈ address, isWhitespace c = false
  length : fingerprint.length = 64
  digits : ∀ c ∈ fingerprint, isHex c = true

structure Visit where
  pin : Pin
  fault : Option Fault

def Pin.line (pin : Pin) : Bytes := utf8 (record pin.address pin.fingerprint)

def Visit.Torn (visit : Visit) : Prop :=
  ∃ n, visit.fault = some (.writing n) ∧ 0 < n ∧ n < visit.pin.line.length

section Calls

variable (path : List Char)

def call (fault : Option Fault) (pin : Pin) (file : Bytes) : Except PinError Bool × Bytes :=
  ensurePinned path pin.address pin.fingerprint fault file

def step (file : Bytes) (visit : Visit) : Bytes := (call path visit.fault visit.pin file).2

def run (visits : List Visit) (file : Bytes) : Bytes := visits.foldl (step path) file

def Stuck (file : Bytes) : Prop := ∀ fault pin, ∃ error, call path fault pin file = (.error error, file)

end Calls

section Records

variable {pin : Pin}

def render (pins : List Pin) : List Char := pins.flatMap fun pin => record pin.address pin.fingerprint

theorem hex_solid {c : Char} (hex : isHex c = true) : isWhitespace c = false := by
  unfold isHex at hex
  simp only [Bool.or_eq_true, Bool.and_eq_true, decide_eq_true_eq] at hex
  refine Bool.eq_false_of_not_eq_true fun space => ?_
  unfold isWhitespace at space
  simp only [Bool.or_eq_true, Bool.and_eq_true, decide_eq_true_eq, beq_iff_eq] at space
  omega

theorem Pin.clear (pin : Pin) : ∀ c ∈ pin.fingerprint, isWhitespace c = false :=
  fun c listed => hex_solid (pin.digits c listed)

def Pin.text (pin : Pin) : List Char := pin.address ++ ' ' :: pin.fingerprint

theorem words_text (pin : Pin) : words isWhitespace pin.text = [pin.address, pin.fingerprint] := by
  refine words_pair rfl ⟨pin.named, pin.solid⟩ ⟨?_, pin.clear⟩
  intro empty
  have length := pin.length
  rw [empty] at length
  cases length

theorem mem_text {c : Char} (listed : c ∈ pin.text) : c = ' ' ∨ isWhitespace c = false := by
  rcases List.mem_append.mp listed with inside | rest
  · exact .inr (pin.solid c inside)
  · rcases List.mem_cons.mp rest with space | inside
    · exact .inl space
    · exact .inr (pin.clear c inside)

theorem newline_not_mem (pin : Pin) : '\n' ∉ pin.text := by
  intro listed
  rcases mem_text listed with space | solid
  · cases space
  · cases solid

theorem parses (pin : Pin) : (parseFingerprintHex pin.fingerprint).isOk = true := by
  have pairs : pin.fingerprint.length = 2 * 32 := pin.length
  have read := hexBytes_eq pairs
  rw [if_pos (spells_of_hex pairs pin.digits).2] at read
  have ascii : isAscii pin.fingerprint = true :=
    List.all_eq_true.mpr fun c listed => decide_eq_true (isHex_ascii (pin.digits c listed))
  unfold parseFingerprintHex
  simp only [trim_solid pin.clear, pin.length, ascii, read]
  rfl

theorem isRecord_text (pin : Pin) : isRecord pin.text = true := by
  unfold isRecord
  rw [words_text]
  exact parses pin

theorem stripReturn_text (pin : Pin) : stripReturn pin.text = pin.text := by
  refine if_neg fun last => ?_
  rcases mem_text (List.mem_of_getLast? last) with space | solid
  · cases space
  · cases solid

theorem lines_render (pins : List Pin) : lines (render pins) = pins.map Pin.text := by
  induction pins with
  | nil => rfl
  | cons pin pins ih =>
    have split : render (pin :: pins) = pin.text ++ '\n' :: render pins := by
      simp [render, record, Pin.text]
    rw [split, lines_append (newline_not_mem pin), stripReturn_text, ih]
    rfl

theorem checkLines_render (path : List Char) (pin : Pin) (pins : List Pin) :
    checkLines path pin.address pin.fingerprint (pins.map Pin.text) =
      match pins.find? fun old => decide (old.address = pin.address) with
      | none => .ok false
      | some old =>
        if old.fingerprint = pin.fingerprint then .ok true else .error (.mismatch path pin.address) := by
  induction pins with
  | nil => rfl
  | cons old pins ih =>
    rw [List.map_cons, List.find?_cons]
    unfold checkLines
    rw [words_text]
    by_cases same : old.address = pin.address
    · simp [same]
    · simp [same, ih]

theorem getLast_render (pins : List Pin) (some_pin : pins ≠ []) : (render pins).getLast? = some '\n' := by
  obtain ⟨front, last, rfl⟩ := List.eq_nil_or_concat' pins |>.resolve_left some_pin
  have split : render (front ++ [last]) = (render front ++ last.text) ++ ['\n'] := by
    simp [render, record, Pin.text]
  rw [split, List.getLast?_concat]

end Records

section Files

variable {path : List Char} {file : Bytes} {pins : List Pin} {pin : Pin}

/-- A file of whole records for distinct addresses, within the budget. -/
structure Book (pins : List Pin) (file : Bytes) : Prop where
  written : file = utf8 (render pins)
  distinct : (pins.map Pin.address).Nodup
  small : file.length ≤ maxPinFile

theorem newRecord_book (book : Book pins file) (pin : Pin) :
    newRecord path pin.address pin.fingerprint file =
      match pins.find? fun old => decide (old.address = pin.address) with
      | some old =>
        if old.fingerprint = pin.fingerprint then .ok none else .error (.mismatch path pin.address)
      | none =>
        if file.length + pin.line.length > maxPinFile then .error .budget else .ok (some pin.line) := by
  have read : readUtf8 file = some (render pins) := readUtf8_eq_some.mpr book.written
  have whole : ¬(render pins ≠ [] ∧ (render pins).getLast? ≠ some '\n') := by
    rintro ⟨nonempty, unended⟩
    refine unended (getLast_render pins ?_)
    rintro rfl
    exact nonempty rfl
  have formed : (lines (render pins)).all isRecord = true := by
    rw [lines_render, List.all_map]
    exact List.all_eq_true.mpr fun pin _ => isRecord_text pin
  unfold newRecord
  rw [if_neg (Nat.not_lt.mpr book.small), read]
  dsimp only
  rw [if_neg whole, if_neg (not_not.mpr formed), lines_render, checkLines_render]
  cases found : pins.find? fun old => decide (old.address = pin.address) with
  | none => rfl
  | some old =>
    dsimp only
    by_cases same : old.fingerprint = pin.fingerprint
    · rw [if_pos same, if_pos same]
    · rw [if_neg same, if_neg same]

def Cut (file : Bytes) : Prop := file ≠ [] ∧ file.getLast? ≠ some 10

theorem newRecord_cut (path address fingerprint : List Char) (cut : Cut file) :
    ∃ error, newRecord path address fingerprint file = .error error := by
  unfold newRecord
  split
  · exact ⟨_, rfl⟩
  cases read : readUtf8 file with
  | none => exact ⟨_, rfl⟩
  | some existing =>
    have written := readUtf8_eq_some.mp read
    have unended : existing ≠ [] ∧ existing.getLast? ≠ some '\n' := by
      refine ⟨?_, fun ended => ?_⟩
      · rintro rfl
        exact cut.1 written
      · obtain ⟨front, rfl⟩ := List.getLast?_eq_some_iff.mp ended
        exact cut.2 (by rw [written, getLast_utf8_newline])
    exact ⟨.incomplete, if_pos unended⟩

/-- How much of a new record a call appends. -/
def extent (line : Bytes) : Option Fault → Nat
  | none | some .syncing => line.length
  | some (.writing cut) => cut
  | _ => 0

section Outcomes

variable {pin : Pin} (fault : Option Fault)

theorem call_error {error : PinError}
    (failed : newRecord path pin.address pin.fingerprint file = .error error) :
    ∃ reason, call path fault pin file = (.error reason, file) := by
  unfold call ensurePinned
  split
  · exact ⟨_, rfl⟩
  · rw [failed]
    exact ⟨_, rfl⟩

theorem call_known (known : newRecord path pin.address pin.fingerprint file = .ok none) :
    call path fault pin file = (if fault = some .opening then .error .io else .ok false, file) := by
  unfold call ensurePinned
  rw [known]
  split
  · rfl
  · rfl

theorem call_new {line : Bytes} (new : newRecord path pin.address pin.fingerprint file = .ok (some line)) :
    call path fault pin file =
      (if fault = none then .ok true else .error .io, file ++ line.take (extent line fault)) := by
  unfold call ensurePinned
  rw [new]
  rcases fault with _ | _ | _ | cut | _ <;> simp [extent]

end Outcomes

theorem Cut.stuck (cut : Cut file) : Stuck path file := by
  intro fault pin
  obtain ⟨error, failed⟩ := newRecord_cut path pin.address pin.fingerprint cut
  exact call_error fault failed

theorem step_cut (cut : Cut file) (visit : Visit) : step path file visit = file := by
  obtain ⟨error, failed⟩ := cut.stuck visit.fault visit.pin
  exact congrArg Prod.snd failed

theorem run_cut (cut : Cut file) (visits : List Visit) : run path visits file = file := by
  induction visits with
  | nil => rfl
  | cons visit visits ih =>
    change run path visits (step path file visit) = file
    rw [step_cut cut]
    exact ih

theorem cut_append (pin : Pin) {n : Nat} (begun : 0 < n) (short : n < pin.line.length) :
    Cut (file ++ pin.line.take n) := by
  have split : pin.line = utf8 pin.text ++ [10] := by
    have text : record pin.address pin.fingerprint = pin.text ++ ['\n'] := by
      simp [record, Pin.text]
    unfold Pin.line
    rw [text, utf8_append]
    rfl
  rw [split, List.length_append, List.length_singleton] at short
  have front : pin.line.take n = (utf8 pin.text).take n := by
    rw [split]
    exact List.take_append_of_le_length (by omega)
  have some_left : (utf8 pin.text).take n ≠ [] := by
    intro empty
    have size := congrArg List.length empty
    rw [List.length_take, List.length_nil] at size
    omega
  rw [front]
  refine ⟨fun empty => some_left (List.append_eq_nil_iff.mp empty).2, fun last => ?_⟩
  rw [List.getLast?_append_of_ne_nil _ some_left] at last
  have listed := List.mem_of_mem_take (List.mem_of_getLast? last)
  exact newline_not_mem pin (newline_mem_utf8 listed)

theorem Book.append (book : Book pins file) (absent : ∀ old ∈ pins, old.address ≠ pin.address)
    (fits : file.length + pin.line.length ≤ maxPinFile) : Book (pins ++ [pin]) (file ++ pin.line) where
  written := by
    rw [book.written]
    simp [render, Pin.line, utf8_append]
  distinct := nodup_map_append book.distinct absent
  small := by
    rw [List.length_append]
    exact fits

theorem Book.newRecord_cases (path : List Char) (book : Book pins file) (pin : Pin) :
    (∃ error, newRecord path pin.address pin.fingerprint file = .error error) ∨
      newRecord path pin.address pin.fingerprint file = .ok none ∨
      newRecord path pin.address pin.fingerprint file = .ok (some pin.line) ∧
        Book (pins ++ [pin]) (file ++ pin.line) := by
  rw [newRecord_book book]
  cases found : pins.find? fun old => decide (old.address = pin.address) with
  | some old =>
    dsimp only
    split
    · exact .inr (.inl rfl)
    · exact .inl ⟨_, rfl⟩
  | none =>
    dsimp only
    split
    · exact .inl ⟨_, rfl⟩
    · rename_i fits
      refine .inr (.inr ⟨rfl, book.append (fun old listed same => ?_) (Nat.not_lt.mp fits)⟩)
      exact List.find?_eq_none.mp found old listed (decide_eq_true same)

theorem Book.step (path : List Char) (book : Book pins file) (visit : Visit) :
    RelayPins.step path file visit = file ∨
      (¬visit.Torn ∧ RelayPins.step path file visit = file ++ visit.pin.line ∧
        Book (pins ++ [visit.pin]) (file ++ visit.pin.line)) ∨
      visit.Torn ∧ Cut (RelayPins.step path file visit) := by
  obtain ⟨pin, fault⟩ := visit
  rcases book.newRecord_cases path pin with ⟨error, failed⟩ | known | ⟨recorded, larger⟩
  · obtain ⟨reason, same⟩ := call_error fault failed
    exact .inl (congrArg Prod.snd same)
  · exact .inl (congrArg Prod.snd (call_known fault known))
  · have result : RelayPins.step path file ⟨pin, fault⟩ = file ++ pin.line.take (extent pin.line fault) :=
      congrArg Prod.snd (call_new fault recorded)
    rw [result]
    have torn : Visit.Torn ⟨pin, fault⟩ ↔
        0 < extent pin.line fault ∧ extent pin.line fault < pin.line.length := by
      unfold Visit.Torn
      rcases fault with _ | _ | _ | cut | _ <;> simp [extent]
    by_cases whole : pin.line.length ≤ extent pin.line fault
    · rw [List.take_of_length_le whole]
      exact .inr (.inl ⟨fun tears => absurd (torn.mp tears).2 (Nat.not_lt.mpr whole), rfl, larger⟩)
    · rcases Nat.eq_zero_or_pos (extent pin.line fault) with nothing | begun
      · rw [nothing]
        exact .inl (List.append_nil file)
      · have short := Nat.not_le.mp whole
        exact .inr (.inr ⟨torn.mpr ⟨begun, short⟩, cut_append pin begun short⟩)

theorem Book.run (path : List Char) (book : Book pins file) (visits : List Visit) :
    (∃ more, Book (pins ++ more) (RelayPins.run path visits file) ∧
        ∀ pin ∈ more, ∃ visit ∈ visits, visit.pin = pin) ∨
      (∃ visit ∈ visits, visit.Torn) ∧ Cut (RelayPins.run path visits file) := by
  induction visits generalizing pins file with
  | nil => exact .inl ⟨[], (List.append_nil pins).symm ▸ book, fun _ listed => absurd listed List.not_mem_nil⟩
  | cons visit visits ih =>
    change (∃ more, Book (pins ++ more) (RelayPins.run path visits (RelayPins.step path file visit)) ∧ _) ∨
      _ ∧ Cut (RelayPins.run path visits (RelayPins.step path file visit))
    have onward : ∀ more : List Pin, Book (pins ++ more) (RelayPins.step path file visit) →
        (∀ pin ∈ more, visit.pin = pin) →
        (∃ more, Book (pins ++ more) (RelayPins.run path visits (RelayPins.step path file visit)) ∧
          ∀ pin ∈ more, ∃ visit' ∈ visit :: visits, visit'.pin = pin) ∨
        (∃ visit' ∈ visit :: visits, visit'.Torn) ∧
          Cut (RelayPins.run path visits (RelayPins.step path file visit)) := by
      intro more larger named
      rcases ih larger with ⟨further, final, visited⟩ | ⟨⟨torn, listed, tears⟩, cut⟩
      · refine .inl ⟨more ++ further, List.append_assoc pins more further ▸ final, fun pin listed => ?_⟩
        rcases List.mem_append.mp listed with now | later
        · exact ⟨visit, List.mem_cons_self, named pin now⟩
        · obtain ⟨other, listed, same⟩ := visited pin later
          exact ⟨other, List.mem_cons_of_mem _ listed, same⟩
      · exact .inr ⟨⟨torn, List.mem_cons_of_mem _ listed, tears⟩, cut⟩
    rcases book.step path visit with same | ⟨-, grown, larger⟩ | ⟨tears, cut⟩
    · refine onward [] ?_ fun _ listed => absurd listed List.not_mem_nil
      rw [same, List.append_nil]
      exact book
    · exact onward _ (grown ▸ larger) fun pin listed => (List.mem_singleton.mp listed).symm
    · rw [run_cut cut]
      exact .inr ⟨⟨visit, List.mem_cons_self, tears⟩, cut⟩

theorem Book.call_recorded (path : List Char) (book : Book pins file) (known : pin ∈ pins)
    {other : Pin} (same : other.address = pin.address) (fault : Option Fault) :
    call path fault other file = (if fault = some .opening then .error .io
      else if other.fingerprint = pin.fingerprint then .ok false
      else .error (.mismatch path pin.address), file) := by
  have found := find?_of_mem book.distinct known
  unfold call ensurePinned
  rw [newRecord_book book, same, found]
  dsimp only
  by_cases agrees : pin.fingerprint = other.fingerprint
  · rw [if_pos agrees, if_pos agrees.symm]
    split
    · rfl
    · rfl
  · rw [if_neg agrees, if_neg (Ne.symm agrees)]
    split
    · rfl
    · rfl

theorem Book.call_first (path : List Char) (book : Book pins file)
    (new : ∀ old ∈ pins, old.address ≠ pin.address) : call path none pin file =
      if file.length + pin.line.length > maxPinFile then (.error .budget, file)
      else (.ok true, file ++ pin.line) := by
  have missing : (pins.find? fun old => decide (old.address = pin.address)) = none :=
    List.find?_eq_none.mpr fun old listed same => new old listed (of_decide_eq_true same)
  unfold call ensurePinned
  rw [if_neg (by simp), newRecord_book book, missing]
  dsimp only
  by_cases full : file.length + pin.line.length > maxPinFile
  · rw [if_pos full, if_pos full]
  · rw [if_neg full, if_neg full]

theorem Book.call_apart (path : List Char) (book : Book pins file) {pin other : Pin}
    (larger : Book (pins ++ [pin]) (file ++ pin.line)) (apart : other.address ≠ pin.address) :
    (call path none other (file ++ pin.line)).1 = (call path none other file).1 ∨
      (call path none other file).1 = .ok true ∧
        (call path none other (file ++ pin.line)).1 = .error .budget ∧
        maxPinFile < (file ++ pin.line).length + other.line.length := by
  by_cases known : ∃ old ∈ pins, old.address = other.address
  · obtain ⟨old, listed, same⟩ := known
    rw [larger.call_recorded path (List.mem_append_left _ listed) same.symm,
      book.call_recorded path listed same.symm]
    exact .inl rfl
  · push Not at known
    have unknown : ∀ old ∈ pins ++ [pin], old.address ≠ other.address := by
      intro old listed
      rcases List.mem_append.mp listed with before | now
      · exact known old before
      · rw [List.mem_singleton.mp now]
        exact apart.symm
    rw [larger.call_first path unknown, book.call_first path known]
    by_cases fuller : (file ++ pin.line).length + other.line.length > maxPinFile
    · rw [if_pos fuller]
      split
      · exact .inl rfl
      · exact .inr ⟨rfl, rfl, fuller⟩
    · have room : ¬file.length + other.line.length > maxPinFile := by
        rw [List.length_append] at fuller
        omega
      rw [if_neg fuller, if_neg room]
      exact .inl rfl

end Files

section Histories

def pinFile (path : List Char) (visits : List Visit) : Bytes := run path visits []

theorem book_nil : Book [] [] := ⟨rfl, List.nodup_nil, Nat.zero_le _⟩

theorem pinFile_cases (path : List Char) (visits : List Visit) :
    (∃ pins, Book pins (pinFile path visits) ∧ ∀ pin ∈ pins, ∃ visit ∈ visits, visit.pin = pin) ∨
      (∃ visit ∈ visits, visit.Torn) ∧ Cut (pinFile path visits) :=
  book_nil.run path visits

theorem pinFile_append (path : List Char) (visits later : List Visit) :
    pinFile path (visits ++ later) = run path later (pinFile path visits) :=
  List.foldl_append

/-- What a call does to the file, by its result: an error leaves a part of the record behind only if
writing or synchronizing it failed. -/
def Accounts (fault : Option Fault) (line file : Bytes) : Except PinError Bool × Bytes → Prop
  | (.ok true, after) => after = file ++ line
  | (.ok false, after) => after = file
  | (.error _, after) => after = file ∨ after = file ++ line.take (extent line fault) ∧
      (fault = some .syncing ∨ ∃ cut, fault = some (.writing cut))

theorem accounts_call (path : List Char) (visits : List Visit) (fault : Option Fault) (pin : Pin) :
    Accounts fault pin.line (pinFile path visits) (call path fault pin (pinFile path visits)) := by
  rcases pinFile_cases path visits with ⟨pins, book, -⟩ | ⟨-, cut⟩
  · rcases book.newRecord_cases path pin with ⟨error, failed⟩ | known | ⟨recorded, -⟩
    · obtain ⟨reason, same⟩ := call_error fault failed
      rw [same]
      exact .inl rfl
    · rw [call_known fault known]
      split
      · exact .inl rfl
      · exact rfl
    · rw [call_new fault recorded]
      rcases fault with _ | _ | _ | cut | _ <;> simp [Accounts, extent]
  · obtain ⟨reason, same⟩ := cut.stuck fault pin
    rw [same]
    exact .inl rfl

theorem recorded_kept (path : List Char) (visits : List Visit) {visit : Visit} (later : List Visit)
    (whole : ¬visit.Torn) (changed : step path (pinFile path visits) visit ≠ pinFile path visits)
    {other : Pin} (same : other.address = visit.pin.address) (fault : Option Fault) :
    call path fault other (pinFile path (visits ++ visit :: later)) =
        (if fault = some .opening then .error .io
          else if other.fingerprint = visit.pin.fingerprint then .ok false
          else .error (.mismatch path visit.pin.address), pinFile path (visits ++ visit :: later)) ∨
      (∃ torn ∈ later, torn.Torn) ∧ Stuck path (pinFile path (visits ++ visit :: later)) := by
  have recorded : ∃ pins, Book (pins ++ [visit.pin]) (step path (pinFile path visits) visit) := by
    rcases pinFile_cases path visits with ⟨pins, book, -⟩ | ⟨-, cut⟩
    · rcases book.step path visit with unchanged | ⟨-, grown, larger⟩ | ⟨torn, -⟩
      · exact absurd unchanged changed
      · exact ⟨pins, grown ▸ larger⟩
      · exact absurd torn whole
    · exact absurd (step_cut cut visit) changed
  obtain ⟨pins, book⟩ := recorded
  rw [pinFile_append]
  change call path fault other (run path later (step path _ visit)) =
    (_, run path later (step path _ visit)) ∨ _ ∧ Stuck path (run path later (step path _ visit))
  rcases book.run path later with ⟨more, grown, -⟩ | ⟨torn, cut⟩
  · exact .inl (grown.call_recorded path (by simp) same fault)
  · exact .inr ⟨torn, cut.stuck⟩

/-- Over every history of calls, failures and crashes: what a call leaves, by its result; a first call for
an address is recorded if the budget allows it; a recorded pin is kept, with every other fingerprint of
its address refused, until a torn record stops all calls; another address gets the answer it got before,
or an error for the budget; without a tear the file is a list of whole records within its budget. -/
theorem pins_never_change (path : List Char) (visits : List Visit) :
    (∀ fault pin, Accounts fault pin.line (pinFile path visits)
      (call path fault pin (pinFile path visits))) ∧
    (∀ pin : Pin, (∀ visit ∈ visits, ¬visit.Torn ∧ visit.pin.address ≠ pin.address) →
      (pinFile path visits).length + pin.line.length ≤ maxPinFile →
      call path none pin (pinFile path visits) = (.ok true, pinFile path visits ++ pin.line)) ∧
    (∀ (visit : Visit) (later : List Visit) (fault : Option Fault) (other : Pin), ¬visit.Torn →
      step path (pinFile path visits) visit ≠ pinFile path visits →
      other.address = visit.pin.address →
        call path fault other (pinFile path (visits ++ visit :: later)) =
          (if fault = some .opening then .error .io
            else if other.fingerprint = visit.pin.fingerprint then .ok false
            else .error (.mismatch path visit.pin.address), pinFile path (visits ++ visit :: later)) ∨
        (∃ torn ∈ later, torn.Torn) ∧ Stuck path (pinFile path (visits ++ visit :: later))) ∧
    (∀ (visit : Visit) (other : Pin), ¬visit.Torn → other.address ≠ visit.pin.address →
      (call path none other (pinFile path (visits ++ [visit]))).1 =
        (call path none other (pinFile path visits)).1 ∨
      (call path none other (pinFile path visits)).1 = .ok true ∧
        (call path none other (pinFile path (visits ++ [visit]))).1 = .error .budget ∧
        maxPinFile < (pinFile path (visits ++ [visit])).length + other.line.length) ∧
    ((∀ visit ∈ visits, ¬visit.Torn) → ∃ pins, Book pins (pinFile path visits)) ∧
    ∀ visit : Visit, visit.Torn → pinFile path (visits ++ [visit]) = pinFile path visits ∨
      ∀ later, pinFile path (visits ++ visit :: later) = pinFile path (visits ++ [visit]) ∧
        Stuck path (pinFile path (visits ++ visit :: later)) := by
  refine ⟨accounts_call path visits, fun pin fresh fits => ?_,
    fun visit later fault other whole changed same =>
    recorded_kept path visits later whole changed same fault, fun visit other whole apart => ?_,
    fun whole => ?_, fun visit torn => ?_⟩
  · rcases pinFile_cases path visits with ⟨pins, book, visited⟩ | ⟨⟨visit, listed, torn⟩, -⟩
    · rw [book.call_first path, if_neg (Nat.not_lt.mpr fits)]
      intro old listed
      obtain ⟨visit, called, rfl⟩ := visited old listed
      exact (fresh visit called).2
    · exact absurd torn (fresh visit listed).1
  · rw [pinFile_append]
    change (call path none other (step path _ visit)).1 = _ ∨
      _ ∧ (call path none other (step path _ visit)).1 = _ ∧ _ < (step path _ visit).length + _
    rcases pinFile_cases path visits with ⟨pins, book, -⟩ | ⟨-, cut⟩
    · rcases book.step path visit with unchanged | ⟨-, grown, larger⟩ | ⟨torn, -⟩
      · rw [unchanged]
        exact .inl rfl
      · rw [grown]
        exact book.call_apart path larger apart
      · exact absurd torn whole
    · rw [step_cut cut]
      exact .inl rfl
  · rcases pinFile_cases path visits with ⟨pins, book, -⟩ | ⟨⟨visit, listed, torn⟩, -⟩
    · exact ⟨pins, book⟩
    · exact absurd torn (whole visit listed)
  · have stays : Cut (step path (pinFile path visits) visit) → ∀ later,
        pinFile path (visits ++ visit :: later) = pinFile path (visits ++ [visit]) ∧
          Stuck path (pinFile path (visits ++ visit :: later)) := by
      intro cut later
      have same : pinFile path (visits ++ visit :: later) = step path (pinFile path visits) visit := by
        rw [pinFile_append]
        exact run_cut cut later
      rw [same, pinFile_append]
      exact ⟨rfl, cut.stuck⟩
    rcases pinFile_cases path visits with ⟨pins, book, -⟩ | ⟨-, cut⟩
    · rcases book.step path visit with unchanged | ⟨whole, -⟩ | ⟨-, cut⟩
      · exact .inl ((pinFile_append path visits [visit]).trans unchanged)
      · exact absurd torn whole
      · exact .inr (stays cut)
    · exact .inl ((pinFile_append path visits [visit]).trans (step_cut cut visit))

section Samples

/-- An address of one letter more than `n`. -/
def lettered (n : Nat) : Pin where
  address := List.replicate (n + 1) 'a'
  fingerprint := List.replicate 64 '0'
  named := by simp
  solid c listed := by rw [List.eq_of_mem_replicate listed]; decide
  length := List.length_replicate
  digits c listed := by rw [List.eq_of_mem_replicate listed]; decide

theorem length_lettered (n : Nat) : (lettered n).line.length = n + 67 := by
  have ascii : ∀ c ∈ record (lettered n).address (lettered n).fingerprint, c.toNat < 128 := by
    intro c listed
    simp only [record, lettered, List.mem_append, List.mem_cons, List.mem_replicate] at listed
    rcases listed with (⟨-, rfl⟩ | rfl | ⟨-, rfl⟩) | rfl | none
    · decide
    · decide
    · decide
    · decide
    · cases none
  unfold Pin.line
  rw [length_utf8, byteLength_ascii ascii]
  simp [record, lettered]

theorem book_lettered (path : List Char) {n : Nat} (small : n + 67 ≤ maxPinFile) :
    call path none (lettered n) [] = (.ok true, (lettered n).line) ∧ Book [lettered n] (lettered n).line := by
  have size := length_lettered n
  have fits : ([] : Bytes).length + (lettered n).line.length ≤ maxPinFile := by
    rw [size, List.length_nil, Nat.zero_add]
    exact small
  have absent : ∀ old ∈ ([] : List Pin), old.address ≠ (lettered n).address :=
    fun old listed => absurd listed List.not_mem_nil
  refine ⟨?_, book_nil.append absent fits⟩
  rw [book_nil.call_first path absent, if_neg (Nat.not_lt.mpr fits)]
  rfl

theorem pin_recorded_once :
    call [] none (lettered 0) (pinFile [] []) = (.ok true, (lettered 0).line) ∧
    (call [] none (lettered 0) (pinFile [] [⟨lettered 0, none⟩, ⟨lettered 1, none⟩])).1 = .ok false := by
  obtain ⟨-, first, -⟩ := pins_never_change [] []
  obtain ⟨-, -, kept, -⟩ := pins_never_change [] []
  have answer := first (lettered 0) (fun _ listed => absurd listed List.not_mem_nil)
    (by rw [length_lettered]; decide)
  refine ⟨answer, ?_⟩
  have changed : step [] (pinFile [] []) ⟨lettered 0, none⟩ ≠ pinFile [] [] := by
    intro same
    have size := congrArg List.length ((congrArg Prod.snd answer).symm.trans same)
    rw [List.length_append, length_lettered] at size
    cases size
  rcases kept ⟨lettered 0, none⟩ [⟨lettered 1, none⟩] none (lettered 0) (by rintro ⟨n, none, -⟩; cases none)
    changed rfl with known | ⟨⟨torn, listed, n, tears, -⟩, -⟩
  · exact congrArg Prod.fst known
  · rw [List.mem_singleton.mp listed] at tears
    cases tears

theorem crowded (path : List Char) {n : Nat} (other : n ≠ 0) (small : n + 67 ≤ maxPinFile)
    (large : maxPinFile < n + 67 + 67) :
    (call path none (lettered 0) (pinFile path [⟨lettered n, none⟩])).1 = .error .budget := by
  obtain ⟨long, book⟩ := book_lettered path small
  have full : pinFile path [⟨lettered n, none⟩] = (lettered n).line := congrArg Prod.snd long
  have over' : (lettered n).line.length + (lettered 0).line.length > maxPinFile := by
    rw [length_lettered, length_lettered, Nat.zero_add]
    exact large
  rw [full, book.call_first path, if_pos over']
  intro old listed same
  rw [List.mem_singleton.mp listed] at same
  have lengths := congrArg List.length same
  simp only [lettered, List.length_replicate] at lengths
  omega

/-- A long record takes the room of another address, and a record whose write or synchronization fails
stays in the file, in part or whole, with an error for an answer. -/
theorem failed_write_leaves_record :
    (call [] none (lettered 0) (pinFile [] [])).1 = .ok true ∧
    (call [] none (lettered 0) (pinFile [] [⟨lettered 65419, none⟩])).1 = .error .budget ∧
    call [] (some .syncing) (lettered 0) (pinFile [] []) = (.error .io, (lettered 0).line) ∧
    call [] (some (.writing 1)) (lettered 0) (pinFile [] []) = (.error .io, (lettered 0).line.take 1) := by
  obtain ⟨first, -⟩ := book_lettered [] (show 0 + 67 ≤ maxPinFile by decide)
  have new : newRecord [] (lettered 0).address (lettered 0).fingerprint [] =
    .ok (some (lettered 0).line) := by
    rw [newRecord_book book_nil]
    exact if_neg (by rw [length_lettered]; decide)
  refine ⟨congrArg Prod.fst first, crowded [] (by decide) (by decide) (by decide), ?_, ?_⟩
  · exact (call_new _ new).trans (by simp [extent])
  · exact call_new _ new

end Samples

end Histories

end Grotto.Client.RelayPins
