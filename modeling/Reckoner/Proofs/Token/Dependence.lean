import Mathlib
import Reckoner.Proofs.Token.Lossless

namespace Reckoner.Token

variable {bound also : String → Bool} {names others : List String}

/-- A text mentions a name where it stands as a whole word, behind characters that can all be read. -/
def Mentions (text : List Char) (name : String) : Prop :=
  ∃ before rest, text = before ++ (name.toList ++ rest) ∧ WholeWord before name.toList rest ∧
    ∀ c ∈ before, isLegible c = true

/-- Whether a function is among the tokens of an expression. -/
def ReadsFunction (bound : String → Bool) (names : List String) (expression name : String) : Prop :=
  ∃ tokens, scan bound names expression = .ok tokens ∧ .function name ∈ tokens

/-- A word without a longest start starts with none of the names. -/
theorem not_prefix_of_longestStart? {word : List Char} (none : longestStart? names word = none) :
    ∀ name ∈ names, ¬ name.toList <+: word := by
  induction names using List.reverseRecOn with
  | nil => exact List.forall_mem_nil _
  | append_singleton front name ih =>
    rw [longestStart?, List.foldl_append, List.foldl_cons, List.foldl_nil] at none
    split at none
    · cases none
    · rename_i worse
      refine List.forall_mem_append.2 ⟨ih none, List.forall_mem_singleton.2 fun starts => worse ?_⟩
      exact ⟨List.isPrefixOf_iff_prefix.2 starts, by rw [none]; rfl⟩

/-- The order of the names does not matter: two longest starts of a word are the same. -/
theorem longestStart?_congr (same : ∀ name, name ∈ names ↔ name ∈ others) (word : List Char) :
    longestStart? names word = longestStart? others word := by
  cases first : longestStart? names word with
  | none =>
    cases second : longestStart? others word with
    | none => rfl
    | some other =>
      obtain ⟨listed, starts⟩ := longestStart?_some second
      exact absurd starts (not_prefix_of_longestStart? first other ((same other).2 listed))
  | some found =>
    obtain ⟨⟨listed, starts⟩, longest⟩ := longestStart?_spec first
    cases second : longestStart? others word with
    | none => exact absurd starts (not_prefix_of_longestStart? second found ((same found).1 listed))
    | some other =>
      obtain ⟨⟨otherListed, otherStarts⟩, otherLongest⟩ := longestStart?_spec second
      have longer : found.length ≤ other.length := otherLongest found ((same found).1 listed) starts
      have shorter : other.length ≤ found.length := longest other ((same other).2 otherListed) otherStarts
      have size : found.toList.length = other.toList.length := by
        rw [String.length_toList, String.length_toList]
        omega
      have text := (List.prefix_of_prefix_length_le starts otherStarts size.le).eq_of_length size
      rw [String.toList_inj.1 text]

/-- What is read at a place depends on the set of the function names, and on whether the word there is bound. -/
theorem lexeme_congr (position : Nat) {before : Option Char} {c : Char} {rest : List Char}
    (sameNames : ∀ name, name ≠ "" → (name ∈ names ↔ name ∈ others))
    (sameBound : startsWord c = true → before.any isWordChar = false →
      bound (String.ofList (wordOf (c :: rest))) = also (String.ofList (wordOf (c :: rest)))) :
    lexeme bound names position before c rest = lexeme also others position before c rest := by
  have same : ∀ name, name ∈ names.filter (· ≠ "") ↔ name ∈ others.filter (· ≠ "") := by
    intro name
    simp only [List.mem_filter, decide_eq_true_eq]
    exact and_congr_left (sameNames name)
  have longest := longestStart?_congr same ((c :: rest).takeWhile isWordChar)
  unfold lexeme
  by_cases starts : startsWord c = true
  · cases attached : before.any isWordChar with
    | true => simp only [longest, Bool.not_true, Bool.false_eq_true, and_false, if_false]
    | false =>
      have isBound := sameBound starts attached
      rw [wordOf] at isBound
      simp only [longest, isBound]
  · simp only [starts, Bool.false_eq_true, if_false]

theorem mentions_wordOf {done rest : List Char} {c : Char} (starts : startsWord c = true)
    (free : done.getLast?.any isWordChar = false) (legible : ∀ d ∈ done, isLegible d = true) :
    Mentions (done ++ c :: rest) (String.ofList (wordOf (c :: rest))) := by
  have whole : wordOf (c :: rest) ++ (c :: rest).dropWhile isWordChar = c :: rest := List.takeWhile_append_dropWhile
  refine ⟨done, (c :: rest).dropWhile isWordChar, by rw [String.toList_ofList, whole], ?_, legible⟩
  rw [String.toList_ofList]
  refine ⟨⟨c, ?_, starts⟩, fun d member => List.mem_takeWhile_imp member, any_isWordChar_eq_false.1 free,
    head?_of_wordOf (by rw [whole])⟩
  rw [wordOf, List.takeWhile_cons_of_pos (isWordChar_of_startsWord starts)]
  rfl

/-- A scan goes on in the same way as long as the names that the text mentions are bound or not. -/
theorem scanFrom_congr {done text : List Char} {skip : Nat} (position : Nat)
    (sameNames : ∀ name, name ≠ "" → (name ∈ names ↔ name ∈ others))
    (sameBound : ∀ name, Mentions (done ++ text) name → bound name = also name)
    (legible : ∀ c ∈ done, isLegible c = true) (passed : ∀ c ∈ text.take skip, isLegible c = true) :
    scanFrom bound names skip position done.getLast? text = scanFrom also others skip position done.getLast? text := by
  induction text generalizing done skip position with
  | nil => cases skip <;> rfl
  | cons c rest ih =>
    have further {skip : Nat} (first : isLegible c = true) (passed : ∀ d ∈ rest.take skip, isLegible d = true) :
        scanFrom bound names skip (position + 1) (some c) rest =
          scanFrom also others skip (position + 1) (some c) rest := by
      have behind := @ih (done ++ [c]) skip (position + 1) (by rwa [List.append_assoc])
        (List.forall_mem_append.2 ⟨legible, List.forall_mem_singleton.2 first⟩) passed
      rwa [List.getLast?_concat] at behind
    cases skip with
    | succ skip =>
      obtain ⟨first, later⟩ := List.forall_mem_cons.1 passed
      exact further first later
    | zero =>
      have same := @lexeme_congr bound also names others position done.getLast? c rest sameNames
        fun starts free => sameBound _ (mentions_wordOf starts free legible)
      rw [scanFrom, scanFrom, ← same]
      cases read : lexeme bound names position done.getLast? c rest with
      | error cause => rfl
      | ok found =>
        obtain ⟨first, taken⟩ := (lexeme_legible position done.getLast? c rest).of_ok read
        have behind := @further (found.2 - 1) first (by
          cases size : found.2 with
          | zero => exact List.forall_mem_nil _
          | succ length =>
            rw [size] at taken
            exact (List.forall_mem_cons.1 taken).2)
        change (do
          let tokens ← scanFrom bound names (found.2 - 1) (position + 1) (some c) rest
          return found.1 :: tokens) = _
        rw [behind]
        rfl

theorem mentions_of_dropEquals {text : List Char} {name : String} (mentions : Mentions (dropEquals text) name) :
    Mentions text name := by
  unfold dropEquals at mentions
  split at mentions
  · rename_i last
    obtain ⟨before, rest, whole, word, legible⟩ := mentions
    refine ⟨before, rest ++ ['='], ?_, ⟨word.starts, word.chars, word.freeBefore, ?_⟩, legible⟩
    · rw [← List.dropLast_append_getLast? '=' last, whole]
      simp only [List.append_assoc]
    · cases rest with
      | nil =>
        rintro c same
        cases same
        rfl
      | cons d rest => exact word.freeBehind
  · exact mentions

theorem scan_congr {expression : String} (sameNames : ∀ name, name ≠ "" → (name ∈ names ↔ name ∈ others))
    (sameBound : ∀ name, Mentions expression.toList name → bound name = also name) :
    scan bound names expression = scan also others expression :=
  @scanFrom_congr bound also names others [] _ 0 0 sameNames
    (fun name mentions => sameBound name (mentions_of_dropEquals mentions)) (List.forall_mem_nil _)
    (List.forall_mem_nil _)

theorem ReadsAs.exists_start {before : Option Char} {text : List Char} {word : String} {attached : Bool}
    (reads : ReadsAs bound names before text (.name word attached)) :
    ∃ c rest, text = c :: rest ∧ startsWord c = true := by
  cases reads with
  | mark isMark => rcases mark?_cases isMark with ⟨_, same⟩ | ⟨_, same⟩ | ⟨_, _, same⟩ <;> cases same
  | name starts => exact ⟨_, _, rfl, starts⟩

/-- The names that may be replaced by values are names that the text mentions. -/
theorem mentions_of_scan {expression name : String} {tokens : List Token}
    (scanned : scan bound names expression = .ok tokens) (member : .name name false ∈ tokens) :
    Mentions expression.toList name := by
  obtain ⟨front, back, rfl⟩ := List.append_of_mem member
  have legible := isLegible_of_scanFrom scanned (List.forall_mem_nil _)
  have reads := readsAs_of_scanFrom scanned
  have whole := spelled_of_scanFrom scanned
  obtain ⟨c, rest, isText, starts⟩ := reads.exists_start
  obtain ⟨word, free⟩ := reads.of_name
  rw [spelled_append, spelled_cons, isText] at whole
  rw [isText] at word
  rw [Option.or_none] at free
  have before : ∀ d ∈ spelled front, isLegible d = true :=
    fun d member => legible d (whole ▸ List.mem_append_left _ member)
  have mentions := @mentions_wordOf (spelled front) rest c starts free.symm before
  rw [whole, ← word] at mentions
  exact mentions_of_dropEquals mentions

end Reckoner.Token
