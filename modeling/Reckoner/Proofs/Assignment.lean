import Mathlib
import Reckoner.CommandLine
import Reckoner.Proofs.Evaluation.Flat
import Reckoner.Proofs.OrderedMap
import Reckoner.Proofs.Settling
import Reckoner.Proofs.Token.Scan

namespace Reckoner

theorem normalize_of_clean {text : List Char} (clean : ∀ c ∈ text, Text.isBlank c = false ∧ c ≠ ',') :
    normalize text = text := by
  have kept : text.filter (fun c => !Text.isBlank c) = text :=
    List.filter_eq_self.2 fun c member => by rw [(clean c member).1]; rfl
  have same : text.map (fun c => if c = ',' then '.' else c) = text.map id :=
    List.map_congr_left fun c member => if_neg (clean c member).2
  rw [normalize, kept, same, List.map_id]

namespace Assignment

variable {mark : Char}

theorem splitOn_of_not_mem {piece : List Char} (clean : mark ∉ piece) : splitOn mark piece = [piece] := by
  induction piece with
  | nil => rfl
  | cons c rest ih =>
    obtain ⟨other, later⟩ := not_or.1 (mt List.mem_cons.2 clean)
    rw [splitOn, if_neg (Ne.symm other), ih later]

theorem splitOn_append {piece : List Char} (clean : mark ∉ piece) (rest : List Char) :
    splitOn mark (piece ++ mark :: rest) = piece :: splitOn mark rest := by
  induction piece with
  | nil => rw [List.nil_append, splitOn, if_pos rfl]
  | cons c piece ih =>
    obtain ⟨other, later⟩ := not_or.1 (mt List.mem_cons.2 clean)
    rw [List.cons_append, splitOn, if_neg (Ne.symm other), ih later]

/-- Joined pieces come apart again. -/
theorem splitOn_intercalate {first : List Char} {pieces : List (List Char)}
    (clean : ∀ piece ∈ first :: pieces, mark ∉ piece) :
    splitOn mark ([mark].intercalate (first :: pieces)) = first :: pieces := by
  induction pieces generalizing first with
  | nil =>
    rw [List.intercalate_singleton]
    exact splitOn_of_not_mem (clean first List.mem_cons_self)
  | cons second rest ih =>
    rw [List.intercalate_cons_cons, List.append_assoc, List.singleton_append,
      splitOn_append (clean first List.mem_cons_self),
      ih fun piece member => clean piece (List.mem_cons_of_mem first member)]

/-- A line of assignments is read as those of the texts are that it is joined from and that are not blank. -/
theorem readLine_intercalate_filter {arguments : List String} (clean : ∀ argument ∈ arguments, ';' ∉ argument.toList) :
    readLine (";".intercalate arguments) =
      readAll (arguments.filter fun argument => !Text.allBlank argument.toList) := by
  rw [readLine, String.toList_intercalate]
  change readAll (((splitOn ';' ([';'].intercalate _)).filter _).map _) = _
  cases arguments with
  | nil => rfl
  | cons first rest =>
    have apart : ∀ piece ∈ (first :: rest).map String.toList, ';' ∉ piece := by
      intro piece member
      obtain ⟨argument, among, rfl⟩ := List.mem_map.1 member
      exact clean argument among
    have back : String.ofList ∘ String.toList = id := funext fun _ => String.ofList_toList
    rw [List.map_cons, splitOn_intercalate apart, ← List.map_cons, List.filter_map, List.map_map, back, List.map_id]
    rfl

/-- A line of assignments is read as the assignments are that it is joined from. -/
theorem readLine_intercalate {arguments : List String}
    (assigned : ∀ argument ∈ arguments, Text.allBlank argument.toList = false ∧ ';' ∉ argument.toList) :
    readLine (";".intercalate arguments) = readAll arguments := by
  rw [readLine_intercalate_filter fun argument among => (assigned argument among).2,
    List.filter_eq_self.2 fun argument among => by rw [(assigned argument among).1]; rfl]

/-- A line that is read is known by the entries that it gives, whatever is known of failures. -/
theorem readLine_of_entries {line : String} {entries : List (String × Float)}
    (read : (readLine line).toOption.map OrderedMap.entries = some entries) : readLine line = .ok ⟨entries⟩ := by
  cases reads : readLine line with
  | error cause =>
    rw [reads] at read
    exact nomatch read
  | ok numbers =>
    rw [reads] at read
    obtain rfl := Option.some.inj read
    rfl

theorem splitAt?_append {name : List Char} (clean : mark ∉ name) (value : List Char) :
    splitAt? mark (name ++ mark :: value) = some (name, value) := by
  have others : ∀ c ∈ name, decide (c ≠ mark) = true :=
    fun c member => decide_eq_true fun same => clean (same ▸ member)
  have stop : decide (mark ≠ mark) = false := decide_eq_false fun differ => differ rfl
  rw [splitAt?, List.dropWhile_append_of_pos others, List.takeWhile_append_of_pos others,
    List.dropWhile_cons_of_neg (by rw [stop]; exact Bool.false_ne_true), List.takeWhile_cons, stop]
  exact congrArg (fun front => some (front, value)) (List.append_nil name)

/-- A text that is a name and the text of a finite number once it is normalized, with an equals sign between them,
assigns the number to the name. -/
theorem read_of_normalize {argument : String} {name value : List Char} {number : Float}
    (normal : normalize argument.toList = name ++ '=' :: value) (begun : name ≠ []) (noEquals : '=' ∉ name)
    (reads : Double.read? value = some number) (finite : number.isFinite = true) :
    read argument = .ok (String.ofList name, number) := by
  obtain ⟨first, rest, rfl⟩ := List.exists_cons_of_ne_nil begun
  rw [read, normal, splitAt?_append noEquals]
  simp only [reads, finite, if_true]

/-- A name and the text of a finite number, with an equals sign between them and none of the characters that are changed
before reading, assign the number to the name. -/
theorem read_append {name value : List Char} {number : Float} (begun : name ≠ []) (noEquals : '=' ∉ name)
    (cleanName : ∀ c ∈ name, Text.isBlank c = false ∧ c ≠ ',')
    (cleanValue : ∀ c ∈ value, Text.isBlank c = false ∧ c ≠ ',') (reads : Double.read? value = some number)
    (finite : number.isFinite = true) :
    read (String.ofList (name ++ '=' :: value)) = .ok (String.ofList name, number) := by
  have clean : ∀ c ∈ name ++ '=' :: value, Text.isBlank c = false ∧ c ≠ ',' :=
    List.forall_mem_append.2 ⟨cleanName, List.forall_mem_cons.2 ⟨by decide, cleanValue⟩⟩
  exact read_of_normalize (by rw [String.toList_ofList, normalize_of_clean clean]) begun noEquals reads finite

/-- The classes and codes of the failures of assignments. -/
def categories : List (FailureKind × String) := [(.input, "7001"), (.input, "7002")]

theorem read_settles (argument : String) :
    Settles (fun cause => cause.category ∈ categories) (fun _ => True) (read argument) := by
  unfold read
  split
  · exact List.mem_cons_self
  · exact List.mem_cons_self
  · split
    · split
      · trivial
      · exact List.mem_cons_of_mem _ List.mem_cons_self
    · exact List.mem_cons_of_mem _ List.mem_cons_self

theorem readAll_settles (arguments : List String) :
    Settles (fun cause => cause.category ∈ categories) (fun _ => True) (readAll arguments) := by
  have pairs : Settles (fun cause => cause.category ∈ categories) (fun _ => True) (arguments.mapM read) := by
    induction arguments with
    | nil => trivial
    | cons argument rest ih =>
      rw [List.mapM_cons]
      exact (read_settles argument).bind fun _ _ => ih.bind fun _ _ => trivial
  unfold readAll
  cases read : arguments.mapM read with
  | error cause => exact pairs.of_error read
  | ok _ => trivial

theorem isFinite_of_read {argument name : String} {number : Float} (reads : read argument = .ok (name, number)) :
    number.isFinite = true := by
  unfold read at reads
  split at reads
  · exact nomatch reads
  · exact nomatch reads
  · split at reads
    · split at reads
      · rename_i finite
        cases reads
        exact finite
      · exact nomatch reads
    · exact nomatch reads

theorem isFinite_of_mapM {arguments : List String} {pairs : List (String × Float)}
    (reads : arguments.mapM read = .ok pairs) : ∀ pair ∈ pairs, pair.2.isFinite = true := by
  induction arguments generalizing pairs with
  | nil =>
    cases reads
    exact List.forall_mem_nil _
  | cons argument rest ih =>
    rw [List.mapM_cons] at reads
    obtain ⟨⟨name, number⟩, first, reads⟩ := bind_eq_ok.1 reads
    obtain ⟨others, later, same⟩ := bind_eq_ok.1 reads
    cases same
    exact List.forall_mem_cons.2 ⟨isFinite_of_read first, ih later⟩

/-- Assignments that are read bind variables to finite numbers. -/
theorem allFinite_of_readAll {arguments : List String} {numbers : OrderedMap String Float}
    (reads : readAll arguments = .ok numbers) : (CommandLine.bindings numbers).AllFinite := by
  have finite : ∀ entry ∈ numbers.entries, entry.2.isFinite = true := by
    unfold readAll at reads
    cases pairs : arguments.mapM read with
    | error cause =>
      rw [pairs] at reads
      exact nomatch reads
    | ok found =>
      rw [pairs] at reads
      cases reads
      exact @OrderedMap.forall_putAll _ _ _ (fun number : Float => number.isFinite = true) .empty _
        (List.forall_mem_nil _)
        (isFinite_of_mapM pairs)
  intro name value found
  obtain ⟨_, _, split, _⟩ := List.lookup_eq_some_iff.1 found
  have member : (name, value) ∈ (CommandLine.bindings numbers).entries :=
    split ▸ List.mem_append_right _ List.mem_cons_self
  obtain ⟨entry, among, same⟩ := List.mem_map.1 member
  cases same
  exact ⟨entry.2, rfl, finite entry among⟩

end Assignment

end Reckoner
