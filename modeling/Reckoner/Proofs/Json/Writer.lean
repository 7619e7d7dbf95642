import Mathlib
import Reckoner.Json.Writer
import Reckoner.Proofs.Json.Limits

namespace Reckoner.Json

namespace Draft

/-- What is written, unless something stops the writing. -/
def result (draft : Draft) : Except Excess (List Char) :=
  match draft.excess with
  | none => .ok draft.text
  | some excess => .error excess

@[simp] theorem text_of (text : List Char) : (of text).text = text := rfl

theorem result_of (text : List Char) : (of text).result = .ok text := rfl

theorem result_append (first second : Draft) : (first ++ second).result = do
    let text ← first.result
    let more ← second.result
    return text ++ more := by
  obtain ⟨text, excess⟩ := first
  change (append _ second).result = _
  cases excess with
  | some excess => rfl
  | none =>
    obtain ⟨more, excess⟩ := second
    cases excess <;> rfl

theorem result_append_eq_ok {first second : Draft} {chars : List Char} : (first ++ second).result = .ok chars ↔
    ∃ text more, first.result = .ok text ∧ second.result = .ok more ∧ text ++ more = chars := by
  rw [result_append]
  cases first.result <;> cases second.result <;> simp [bind, Except.bind, pure, Except.pure]

theorem eq_of_result {draft : Draft} {text : List Char} (written : draft.result = .ok text) : draft = of text := by
  obtain ⟨start, excess⟩ := draft
  cases excess with
  | some excess => exact nomatch written
  | none =>
    cases written
    rfl

end Draft

variable {room level : Nat} {before : List Char}

theorem result_writeWhole (value : Value) : (writeWhole room level before value).result =
    (value.follow writingNeed room).map fun _ => before ++ print level value := by
  unfold writeWhole
  cases value.follow writingNeed room <;> rfl

/-- A value is written as it is printed, if it is followed to its end. -/
def WritesAsPrinted (value : Value) : Prop :=
  ∀ room level before, (write room level before value).result =
    (value.follow writingNeed room).map fun _ => before ++ print level value

theorem result_writeItems {items : List Value} (each : ∀ item ∈ items, WritesAsPrinted item) :
    (writeItems room level items).result =
      (Value.followItems writingNeed room items).map fun _ => printItems level items := by
  induction items with
  | nil => rfl
  | cons item rest ih =>
    obtain ⟨first, others⟩ := List.forall_mem_cons.1 each
    rw [writeItems, Draft.result_append, first, ih others, Value.followItems]
    cases item.follow writingNeed room with
    | error excess => rfl
    | ok _ =>
      cases Value.followItems writingNeed room rest with
      | error excess => rfl
      | ok _ => exact congrArg Except.ok (by simp [printItems])

theorem result_writeEntries {entries : List (CodePoints × Value)} (each : ∀ entry ∈ entries, WritesAsPrinted entry.2) :
    (writeEntries room level entries).result =
      (Value.followEntries writingNeed room entries).map fun _ => printEntries level entries := by
  induction entries with
  | nil => rfl
  | cons entry rest ih =>
    obtain ⟨name, value⟩ := entry
    obtain ⟨first, others⟩ := List.forall_mem_cons.1 each
    rw [writeEntries, Draft.result_append, Draft.result_append, Draft.result_of, first, ih others, Value.followEntries]
    dsimp only
    cases value.follow writingNeed room with
    | error excess => rfl
    | ok _ =>
      cases Value.followEntries writingNeed room rest with
      | error excess => rfl
      | ok _ => exact congrArg Except.ok (by simp [printEntries])

theorem writesAsPrinted (value : Value) : WritesAsPrinted value := by
  induction value using Value.of_parts with
  | null | flag | whole | real | text => exact fun room level before => result_writeWhole _
  | list items ih =>
    intro room level before
    rw [write.eq_def, Draft.result_append, Draft.result_of, Value.follow.eq_def]
    split_ifs
    · rfl
    · cases items with
      | nil => rfl
      | cons item rest =>
        obtain ⟨first, others⟩ := List.forall_mem_cons.1 ih
        dsimp only
        rw [Draft.result_append, Draft.result_append, first, result_writeItems others, Value.followItems]
        cases item.follow writingNeed (room - 1) with
        | error excess => rfl
        | ok _ =>
          cases Value.followItems writingNeed (room - 1) rest with
          | error excess => rfl
          | ok _ => exact congrArg Except.ok (by simp [print])
  | mapping entries ih =>
    intro room level before
    rw [write.eq_def, Draft.result_append, Draft.result_of, Value.follow.eq_def]
    split_ifs
    · rfl
    · rcases entries with _ | ⟨⟨name, value⟩, rest⟩
      · rfl
      · obtain ⟨first, others⟩ := List.forall_mem_cons.1 ih
        dsimp only
        rw [Draft.result_append, Draft.result_append, Draft.result_append, Draft.result_of, first,
          result_writeEntries others, Value.followEntries]
        dsimp only
        cases value.follow writingNeed (room - 1) with
        | error excess => rfl
        | ok _ =>
          cases Value.followEntries writingNeed (room - 1) rest with
          | error excess => rfl
          | ok _ => exact congrArg Except.ok (by simp [print])

end Reckoner.Json
