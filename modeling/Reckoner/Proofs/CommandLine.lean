import Mathlib
import Reckoner.Proofs.Evaluation.Substitution
import Reckoner.Proofs.FrontEnds

namespace Reckoner

theorem Token.toNat_of_isWordChar {c : Char} (isWord : isWordChar c = true) : 48 ≤ c.toNat ∧ c.toNat ≤ 122 := by
  simp only [isWordChar, Char.isAlphanum, Char.isAlpha, Char.isUpper, Char.isLower, Char.isDigit, Bool.or_eq_true,
    Bool.and_eq_true, decide_eq_true_eq, UInt32.le_iff_toNat_le, ge_iff_le] at isWord
  change (((65 ≤ c.toNat ∧ c.toNat ≤ 90) ∨ (97 ≤ c.toNat ∧ c.toNat ≤ 122)) ∨ (48 ≤ c.toNat ∧ c.toNat ≤ 57)) ∨ c = '_'
    at isWord
  rcases isWord with ((upper | lower) | digit) | rfl
  · omega
  · omega
  · omega
  · decide

/-- A name as the scanner reads it: letters, digits and underscores, without a digit at the start. -/
def IsIdentifier (name : String) : Prop :=
  (∃ c ∈ name.toList.head?, Token.startsWord c = true) ∧ ∀ c ∈ name.toList, Token.isWordChar c = true

namespace IsIdentifier

variable {name : String}

theorem wholeWord (identifier : IsIdentifier name) : Token.WholeWord [] name.toList [] :=
  ⟨identifier.1, identifier.2, nofun, nofun⟩

theorem exists_cons (identifier : IsIdentifier name) : ∃ c rest, name.toList = c :: rest := by
  obtain ⟨⟨c, first, _⟩, _⟩ := identifier
  exact ⟨c, _, List.eq_cons_of_mem_head? first⟩

theorem clean (identifier : IsIdentifier name) : ∀ c ∈ name.toList, Text.isBlank c = false ∧ c ≠ ',' := by
  intro c member
  obtain ⟨low, high⟩ := Token.toNat_of_isWordChar (identifier.2 c member)
  constructor
  · simp only [Text.isBlank, Text.blankRanges, List.any_cons, List.any_nil, Bool.or_false, Bool.or_eq_false_iff,
      Bool.and_eq_false_iff, decide_eq_false_iff_not]
    omega
  · rintro rfl
    exact absurd low (by decide)

theorem noEquals (identifier : IsIdentifier name) : '=' ∉ name.toList :=
  fun member => absurd (identifier.2 '=' member) (by decide)

end IsIdentifier

/-- A name that is bound is scanned as a single token. -/
theorem Token.scan_identifier {bound : String → Bool} {names : List String} {name : String}
    (identifier : IsIdentifier name) (isBound : bound name = true) :
    Token.scan bound names name = .ok [.name name false] := by
  obtain ⟨c, rest, begins⟩ := identifier.exists_cons
  have whole := identifier.wholeWord
  have noEquals : name.toList.getLast? ≠ some '=' := fun last => identifier.noEquals (List.mem_of_getLast? last)
  have same : String.ofList (c :: rest) = name := by rw [← begins, String.ofList_toList]
  rw [begins] at whole
  rw [← same] at isBound
  have read := @lexeme_wholeWord bound names 0 [] rest [] c whole isBound
  rw [List.append_nil] at read
  rw [Token.scan, dropEquals_of_getLast?_ne noEquals, begins, scanFrom]
  change (lexeme bound names 0 ([] : List Char).getLast? c rest >>= fun _ => _) = _
  rw [read]
  change (scanFrom bound names rest.length (0 + 1) (some c) rest >>= fun tokens => _) = _
  rw [scanFrom_of_length_le _ _ le_rfl, same]
  rfl

/-- A name that is bound to a proper value evaluates to it. -/
theorem evaluate_identifier {bindings : Bindings} {functions : FunctionTable} {name : String} {value : Float}
    (finite : bindings.AllFinite) (identifier : IsIdentifier name) (bound : bindings.get? name = some (.real value))
    (proper : Evaluation.Proper value) : (evaluate name bindings functions).result = .ok value := by
  have isBound : bindings.contains name = true := by rw [OrderedMap.contains, bound]; rfl
  have sum := Double.zero_add_of_ne proper.2
  have replaced := @Evaluation.evaluateTokens_bound bindings functions name value finite bound [] []
  have alone := @Evaluation.evaluateTokens_number bindings functions (Double.text value) value (sum.symm ▸ proper.1)
  rw [sum] at alone
  exact evaluate_eq_ok.2 ⟨_, Token.scan_identifier identifier isBound, replaced.trans alone⟩

namespace Assignment

/-- The written form of a finite number can be assigned to every name. -/
theorem readAll_text {name : String} {value : Float} (identifier : IsIdentifier name) (finite : value.isFinite = true) :
    readAll [name ++ "=" ++ Double.text value] = .ok (.ofList [(name, value)]) := by
  obtain ⟨c, rest, begins⟩ := identifier.exists_cons
  have text : name ++ "=" ++ Double.text value = String.ofList (name.toList ++ '=' :: Double.chars value) := by
    rw [← String.toList_inj]
    simp [Double.text]
  have cleanValue : ∀ c ∈ Double.chars value, Text.isBlank c = false ∧ c ≠ ',' := fun c member =>
    (Double.clean_of_mem_chars finite member).imp id And.left
  have read := read_append (begins ▸ List.cons_ne_nil c rest) identifier.noEquals identifier.clean cleanValue
    (Double.read?_chars finite) finite
  rw [String.ofList_toList] at read
  rw [readAll, text, List.mapM_cons, read]
  rfl

end Assignment

namespace CommandLine

variable {formula : String} {arguments : List String} {settings : Settings}

/-- The classes and codes of the failures that are printed. -/
def printedCategories : List (FailureKind × String) := closedCategories ++ Assignment.categories

/-- How the command line ends without a log: with a finite number on its first output, or with
a message on its second. -/
inductive EndsCleanly : Printed → Prop
  | value {value : Float} (finite : value.isFinite = true) : EndsCleanly ⟨0, Double.text value ++ "\n", ""⟩
  | unwritten {code message : String} (among : code = "7003" ∨ code = "7004")
      (known : catalogueMessage? code = some message) : EndsCleanly ⟨1, "", message ++ "\n"⟩
  | failure {cause : Failure} (listed : cause.category ∈ printedCategories) :
      EndsCleanly ⟨1, "", "Error " ++ cause.report.code ++ ": " ++ cause.report.message ++ "\n"⟩

theorem evaluateWith_settles (formula : String) (arguments : List String) (settings : Settings) :
    Settles (fun stop => ∃ cause about, stop = .failure cause about ∧ cause.category ∈ printedCategories)
      Evaluation.Proper (evaluateWith formula arguments settings).result := by
  cases reads : Assignment.readAll arguments with
  | error cause =>
    rw [result_evaluateWith_of_error reads]
    exact ⟨cause, none, rfl, List.mem_append_right _ ((Assignment.readAll_settles arguments).of_error reads)⟩
  | ok numbers =>
    rw [result_evaluateWith_of_ok reads]
    refine (evaluate_settles (Assignment.allFinite_of_readAll reads) _ formula).mono ?_ fun _ proper => proper
    rintro _ ⟨cause, rfl, listed⟩
    exact ⟨cause, some formula, rfl, List.mem_append_left _ listed⟩

theorem run_of_blank (blank : Text.allBlank formula.toList = true) :
    run (formula :: arguments) settings false = .ok (.failed "the written formula is empty.") := by
  have kept : normalize formula.toList = [] := by
    rw [normalize, List.map_eq_nil_iff, List.filter_eq_nil_iff]
    intro c member
    rw [List.all_eq_true.1 blank c member]
    decide
  rw [run, kept]
  rfl

/-- What the command line comes to: a proper value that it prints, or a message. -/
theorem run_settles (arguments : List String) (settings : Settings) :
    (∃ value, Evaluation.Proper value ∧ run arguments settings false = .ok (.success (Double.text value))) ∨
      ∃ message, run arguments settings false = .ok (.failed message) ∧ EndsCleanly (.failed message) := by
  cases arguments with
  | nil => exact Or.inr ⟨_, rfl, .unwritten (Or.inr rfl) rfl⟩
  | cons formula arguments =>
    cases written : Text.allBlank formula.toList with
    | true => exact Or.inr ⟨_, run_of_blank written, .unwritten (Or.inl rfl) rfl⟩
    | false =>
      have settles := evaluateWith_settles (String.ofList (normalize formula.toList)) arguments settings
      rw [run_of_written written]
      rcases result :
        (evaluateWith (String.ofList (normalize formula.toList)) arguments settings).result with stop | value
      · obtain ⟨cause, about, rfl, listed⟩ := settles.of_error result
        exact Or.inr ⟨_, rfl, .failure listed⟩
      · exact Or.inl ⟨value, settles.of_ok result, rfl⟩

theorem exists_of_run_eq_success {text : String} (printed : run arguments settings false = .ok (.success text)) :
    ∃ value, Evaluation.Proper value ∧ text = Double.text value := by
  rcases run_settles arguments settings with ⟨value, proper, same⟩ | ⟨message, same, _⟩
  · exact ⟨value, proper, Printed.success_inj (Except.ok.inj (printed.symm.trans same))⟩
  · exact nomatch printed.symm.trans same

/-- A proper value is printed again when a name stands for it. -/
theorem run_identifier {name : String} {value : Float} (identifier : IsIdentifier name)
    (proper : Evaluation.Proper value) :
    run [name, name ++ "=" ++ Double.text value] settings false = .ok (.success (Double.text value)) := by
  obtain ⟨c, rest, begins⟩ := identifier.exists_cons
  have written : Text.allBlank name.toList = false := by
    rw [begins, Text.allBlank, List.all_cons, (identifier.clean c (begins ▸ List.mem_cons_self)).1, Bool.false_and]
  have reads := Assignment.readAll_text identifier proper.1
  have bound : (bindings (.ofList [(name, value)])).get? name = some (.real value) := by
    change List.lookup name [(name, Value.real value)] = _
    rw [List.lookup_cons, beq_self_eq_true]
  rw [run_of_written written, normalize_of_clean identifier.clean, String.ofList_toList,
    result_evaluateWith_of_ok reads,
    evaluate_identifier (Assignment.allFinite_of_readAll reads) identifier bound proper]
  rfl

/-- Whatever its arguments and settings are, the command line ends cleanly, and a number that it printed is printed
again when it is assigned to a name that is the formula. -/
theorem run_ends_cleanly :
    (∀ (arguments : List String) (settings : Settings),
      ∃ printed, run arguments settings false = .ok printed ∧ EndsCleanly printed) ∧
    ∀ (arguments : List String) (settings : Settings) (text : String),
      run arguments settings false = .ok ⟨0, text ++ "\n", ""⟩ → ∀ (name : String) (others : Settings),
        IsIdentifier name → run [name, name ++ "=" ++ text] others false = .ok ⟨0, text ++ "\n", ""⟩ := by
  constructor
  · intro arguments settings
    rcases run_settles arguments settings with ⟨value, proper, same⟩ | ⟨message, same, clean⟩
    · exact ⟨_, same, .value proper.1⟩
    · exact ⟨_, same, clean⟩
  · intro arguments settings text printed name others identifier
    obtain ⟨value, proper, rfl⟩ := exists_of_run_eq_success printed
    exact run_identifier identifier proper

/-- A third, which needs all the digits that a double can have, under a name that begins like a function. -/
theorem run_third_again :
    run ["x / -3", "x = 1"] Settings.defaults false = .ok ⟨0, "-0.3333333333333333" ++ "\n", ""⟩ ∧
      IsIdentifier "sin_3" ∧ run ["sin_3", "sin_3" ++ "=" ++ "-0.3333333333333333"] .empty false =
        .ok ⟨0, "-0.3333333333333333" ++ "\n", ""⟩ := by
  have printed : run ["x / -3", "x = 1"] Settings.defaults false =
      .ok ⟨0, "-0.3333333333333333" ++ "\n", ""⟩ := by decide +kernel
  have identifier : IsIdentifier "sin_3" := ⟨⟨'s', rfl, rfl⟩, List.all_eq_true.1 rfl⟩
  exact ⟨printed, identifier, run_ends_cleanly.2 _ _ _ printed _ _ identifier⟩

end CommandLine

end Reckoner
