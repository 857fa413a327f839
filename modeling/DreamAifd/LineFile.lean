import Mathlib

/-! Files of one record a line, as bytes. Reading back a file that a writer left whole yields its
records; what was cut off in the middle is a last line that may not be readable. -/
namespace DreamAifd.LineFile

variable {ρ : Type}

def newline : UInt8 := 10

/-- The lines of a file; the last one may lack its newline. -/
def lines : List UInt8 → List (List UInt8)
  | [] => []
  | byte :: rest =>
    if byte = newline then [] :: lines rest
    else
      match lines rest with
      | [] => [[byte]]
      | line :: later => (byte :: line) :: later

inductive ReadError
  | undecodable
  | notJson
  deriving DecidableEq

/-- Writing a record as the bytes of one line, which reads back as the record. Records that cannot be
encoded raise. -/
structure Codec (ρ : Type) where
  dumps : ρ → Option (List UInt8)
  loads : List UInt8 → Except ReadError ρ
  oneLine : ∀ record text, dumps record = some text → newline ∉ text
  roundTrip : ∀ record text, dumps record = some text → loads text = .ok record

theorem lines_line {text : List UInt8} (oneLine : newline ∉ text) (rest : List UInt8) :
    lines (text ++ newline :: rest) = text :: lines rest := by
  induction text with
  | nil => rw [List.nil_append, lines, if_pos rfl]
  | cons byte text ih =>
    rw [List.mem_cons, not_or] at oneLine
    rw [List.cons_append, lines, if_neg (Ne.symm oneLine.1), ih oneLine.2]

namespace Codec

variable (codec : Codec ρ)

def text : List ρ → Option (List UInt8)
  | [] => some []
  | record :: records => do
    let line ← codec.dumps record
    let rest ← text records
    some (line ++ newline :: rest)

theorem text_append {records later : List ρ} {bytes rest : List UInt8} (first : codec.text records = some bytes)
    (second : codec.text later = some rest) : codec.text (records ++ later) = some (bytes ++ rest) := by
  induction records generalizing bytes with
  | nil =>
    cases first
    exact second
  | cons record records ih =>
    obtain ⟨line, dumped, tail⟩ := Option.bind_eq_some_iff.mp first
    obtain ⟨after, followed, same⟩ := Option.bind_eq_some_iff.mp tail
    cases same
    rw [List.cons_append, text, dumped, ih followed]
    simp

theorem eq_nil_of_text {records : List ρ} (written : codec.text records = some []) : records = [] := by
  cases records with
  | nil => rfl
  | cons record records =>
    obtain ⟨line, dumped, tail⟩ := Option.bind_eq_some_iff.mp written
    obtain ⟨after, followed, same⟩ := Option.bind_eq_some_iff.mp tail
    simp at same

/-- A file of whole records has their lines, each of them readable. -/
theorem lines_text {records : List ρ} {bytes : List UInt8} (written : codec.text records = some bytes) :
    (lines bytes).map codec.loads = records.map .ok := by
  induction records generalizing bytes with
  | nil =>
    cases written
    rfl
  | cons record records ih =>
    obtain ⟨line, dumped, tail⟩ := Option.bind_eq_some_iff.mp written
    obtain ⟨after, followed, same⟩ := Option.bind_eq_some_iff.mp tail
    cases same
    rw [lines_line (codec.oneLine _ _ dumped), List.map_cons, List.map_cons, ih followed,
      codec.roundTrip _ _ dumped]

def records (file : List UInt8) : List ρ := ((lines file).map codec.loads).filterMap Except.toOption

theorem records_text {records : List ρ} {bytes : List UInt8} (written : codec.text records = some bytes) :
    codec.records bytes = records := by
  rw [Codec.records, codec.lines_text written, List.filterMap_map]
  exact List.filterMap_some

end Codec

end DreamAifd.LineFile
