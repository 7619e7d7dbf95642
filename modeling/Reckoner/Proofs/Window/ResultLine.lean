import Mathlib
import Reckoner.Proofs.Evaluation.Alphabet
import Reckoner.Proofs.FrontEnds
import Reckoner.Proofs.Rendering.Words

namespace Reckoner.Window

theorem finding_eq_answer {question : Question} {settings : Settings} {answer : Answer} :
    Finding.of question settings = .answer answer ↔
      calculate question.problem question.bindings settings = .ok answer := by
  unfold Finding.of
  rcases calculate question.problem question.bindings settings with (⟨cause, equation⟩ | kind) | found <;> simp

/-- The line ends in a sign, a blank and the rendered value. -/
theorem toList_resultLine (w : Window) (problem : String) {answer : Answer} {rendered : Rendered}
    (same : answer.text = rendered.line) :
    ∃ before sign, (sign = '=' ∨ sign = '\u2248') ∧
      (w.resultLine problem answer).toList = before ++ sign :: ' ' :: rendered.text.toList := by
  have text : ∃ sign, (sign = '=' ∨ sign = '\u2248') ∧ answer.text.toList = sign :: ' ' :: rendered.text.toList := by
    rw [same, Rendered.line, String.toList_append]
    cases rendered.rounded
    · exact ⟨'=', Or.inl rfl, rfl⟩
    · exact ⟨'\u2248', Or.inr rfl, rfl⟩
  obtain ⟨sign, isSign, text⟩ := text
  unfold resultLine
  split
  · refine ⟨(problem ++ " ").toList, sign, isSign, ?_⟩
    rw [String.toList_append, text]
  · exact ⟨[], sign, isSign, text⟩

theorem prefix_append_of_not_mem {name text rest : List Char} {mark : Char} (other : mark ∉ name) :
    name <+: text ++ mark :: rest ↔ name <+: text := by
  refine ⟨fun starts => ?_, fun starts => starts.trans (List.prefix_append _ _)⟩
  by_contra longer
  have length : text.length < name.length := by
    by_contra short
    exact longer (List.prefix_of_prefix_length_le starts (List.prefix_append _ _) (Nat.le_of_not_lt short))
  have marked : text ++ [mark] <+: text ++ mark :: rest := ⟨rest, by simp⟩
  have within := List.prefix_of_prefix_length_le marked starts (by simpa using length)
  exact other (within.subset (List.mem_append_right _ List.mem_cons_self))

/-- Replacing the name of the last result goes on anew behind a character that the name does not have: a name that is
replaced ends before it. -/
theorem replaceAnswer_append {replacement rest : List Char} {mark : Char} (other : mark ∉ answerName)
    {before : List Char}
    {skip : Nat} (within : skip ≤ before.length) :
    replaceAnswer replacement skip (before ++ mark :: rest) =
      replaceAnswer replacement skip before ++ mark :: replaceAnswer replacement 0 rest := by
  induction before generalizing skip with
  | nil =>
    obtain rfl : skip = 0 := Nat.le_zero.1 within
    have apart : answerName.isPrefixOf (mark :: rest) = false :=
      Bool.eq_false_iff.2 fun starts =>
        nomatch (@prefix_append_of_not_mem answerName [] rest mark other).1 (List.isPrefixOf_iff_prefix.1 starts)
    rw [List.nil_append, replaceAnswer.eq_3, apart]
    rfl
  | cons c before ih =>
    cases skip with
    | succ skip => exact ih (Nat.le_of_succ_le_succ within)
    | zero =>
      rw [List.cons_append, replaceAnswer, replaceAnswer, ← List.cons_append]
      simp only [List.isPrefixOf_iff_prefix, prefix_append_of_not_mem other]
      split
      · rename_i starts
        have long := starts.length_le
        change 3 ≤ before.length + 1 at long
        rw [ih (by omega), List.append_assoc]
      · rw [ih (Nat.zero_le _), List.cons_append]

theorem replaceAnswer_ne_nil {x : Float} {text : List Char} (written : text ≠ []) :
    replaceAnswer (operand x) 0 text ≠ [] := by
  obtain ⟨c, rest, rfl⟩ := List.exists_cons_of_ne_nil written
  rw [replaceAnswer]
  split
  · exact List.append_ne_nil_of_left_ne_nil (List.cons_ne_nil _ _) _
  · exact List.cons_ne_nil _ _

theorem normalize_append_cons {before rest : List Char} {mark : Char} (shown : Text.isBlank mark = false)
    (noComma : mark ≠ ',') : normalize (before ++ mark :: rest) = normalize before ++ mark :: normalize rest := by
  unfold normalize
  rw [List.filter_append, List.map_append, List.filter_cons_of_pos (by rw [shown]; rfl), List.map_cons, if_neg noComma]

/-- A sign in the middle of a formula is in the middle of its problem. -/
theorem problem_of_sign {formula problem : String} {lastResult : Option Float} {before rest : List Char} {sign : Char}
    (isSign : sign = '=' ∨ sign = '\u2248') (more : ∃ c ∈ rest, Text.isBlank c = false)
    (shape : formula.toList = before ++ sign :: rest) (asked : problemOf formula lastResult = .ok problem) :
    ∃ first second, second ≠ [] ∧ problem.toList = first ++ sign :: second := by
  have plain : Text.isBlank sign = false ∧ sign ≠ ',' ∧ sign ∉ answerName := by
    rcases isSign with rfl | rfl <;> decide +kernel
  obtain ⟨shown, noComma, other⟩ := plain
  have left : normalize rest ≠ [] := by
    obtain ⟨c, member, written⟩ := more
    exact normalize_ne_nil (List.all_eq_false.2 ⟨c, member, by simp [written]⟩)
  unfold problemOf at asked
  dsimp only at asked
  rw [shape, normalize_append_cons shown noComma] at asked
  split at asked
  · split at asked
    · exact nomatch asked
    · cases asked
      rw [String.toList_ofList, replaceAnswer_append other (Nat.zero_le _)]
      exact ⟨_, _, replaceAnswer_ne_nil left, rfl⟩
  · cases asked
    exact ⟨_, _, left, String.toList_ofList⟩

/-- A formula whose calculation has an answer reads neither like the line of a result nor like the waiting text. -/
theorem ne_of_answer {formula line : String} {lastResult : Option Float} {question : Question} {settings : Settings}
    {answer : Answer} (asked : questionOf formula line lastResult = .ok question)
    (found : Finding.of question settings = .answer answer) :
    formula ≠ waitingText ∧ ∀ w : Window, formula ≠ w.resultLine question.problem answer := by
  obtain ⟨problem, isProblem, asked⟩ := bind_eq_ok.1 asked
  obtain ⟨numbers, _, same⟩ := bind_eq_ok.1 asked
  cases same
  obtain ⟨evaluated, rendered, drawn, text⟩ := calculate_eq_ok.1 (finding_eq_answer.1 found)
  have finite := (proper_of_evaluate evaluated).1
  refine ⟨?_, fun w same => ?_⟩
  · rintro rfl
    have dots : problemOf waitingText lastResult = .ok waitingText := rfl
    obtain rfl : waitingText = problem := Except.ok.inj (dots.symm.trans isProblem)
    have stops (bound : String → Bool) (names : List String) :
        Token.scan bound names waitingText = .error (.invalidLiteral waitingText) := rfl
    obtain ⟨tokens, scanned, _⟩ := evaluate_eq_ok.1 evaluated
    exact nomatch (stops _ _).symm.trans scanned
  · obtain ⟨before, sign, isSign, shape⟩ := w.toList_resultLine problem text
    have foreign : Token.isLegible sign = false := by
      rcases isSign with rfl | rfl <;> decide +kernel
    obtain ⟨c, member, shown⟩ := exists_shown_of_render finite drawn
    have more : ∃ c ∈ ' ' :: rendered.text.toList, Text.isBlank c = false := ⟨c, List.mem_cons_of_mem _ member, shown⟩
    obtain ⟨first, second, left, marked⟩ := problem_of_sign isSign more (same ▸ shape) isProblem
    exact not_evaluate_of_foreign foreign left marked evaluated

end Reckoner.Window
