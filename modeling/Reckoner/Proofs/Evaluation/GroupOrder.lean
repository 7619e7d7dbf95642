import Mathlib
import Reckoner.Proofs.Evaluation.Closed
import Reckoner.Proofs.Evaluation.Matching

namespace Reckoner.Evaluation

variable {bindings : Bindings} {functions : FunctionTable} {room : Nat}

/-- What stands at a position once some groups have values: the value of a group at its left parenthesis, and nothing
behind that up to its right one. -/
def standing (values : List (Group × Float)) (position : Nat) (token : Token) : Option Token :=
  if values.any fun entry => entry.1.start < position ∧ position ≤ entry.1.finish then none
  else match values.find? fun entry => entry.1.start = position with
    | some entry => some (.ofValue entry.2)
    | none => some token

/-- What stands of tokens whose first one is at a position. -/
def stands (values : List (Group × Float)) (position : Nat) (tokens : List Token) : List Token :=
  (tokens.zipIdx position).filterMap fun (token, i) => standing values i token

/-- What stands from one position of a list up to another. -/
def standsBetween (values : List (Group × Float)) (tokens : List Token) (first last : Nat) : List Token :=
  stands values first ((tokens.drop first).take (last - first))

/-- Evaluates what stands in a group, and adds its value to those of the groups before it. -/
def evaluateGroup (bindings : Bindings) (functions : FunctionTable) (tokens : List Token)
    (values : List (Group × Float)) (group : Group) : Traced (List (Group × Float)) := do
  let value ← evaluateFlat groupRoom bindings functions (standsBetween values tokens (group.start + 1) group.finish)
  Traced.note (.group (standsBetween values tokens group.start (group.finish + 1)) value)
  return (group, value) :: values

/-- Evaluates the groups of a list by falling positions. The parentheses without a partner are complained about when
that is done, the left ones first. -/
def resolveInOrder (bindings : Bindings) (functions : FunctionTable) (tokens : List Token) : Traced (List Token) := do
  let matching := Matching.of tokens
  let values ← matching.order.foldlM (evaluateGroup bindings functions tokens) []
  if matching.opens ≠ [] then Traced.fail .unmatchedOpen
  else if matching.strays ≠ [] then Traced.fail .unmatchedClose
  else return stands values 0 tokens

variable {values : List (Group × Float)} {position : Nat}

@[simp] theorem stands_nil : stands values position [] = [] := rfl

theorem stands_cons (token : Token) (rest : List Token) :
    stands values position (token :: rest) =
      (standing values position token).toList ++ stands values (position + 1) rest := by
  rw [stands, List.zipIdx_cons, List.filterMap_cons]
  dsimp only
  cases standing values position token <;> rfl

theorem stands_append (front back : List Token) :
    stands values position (front ++ back) =
      stands values position front ++ stands values (position + front.length) back := by
  rw [stands, List.zipIdx_append, List.filterMap_append]
  rfl

theorem standing_of_mem {group : Group} (token : Token) (member : group ∈ values.map Prod.fst)
    (after : group.start < position) (within : position ≤ group.finish) : standing values position token = none := by
  obtain ⟨entry, isEntry, rfl⟩ := List.mem_map.1 member
  exact if_pos (List.any_eq_true.2 ⟨entry, isEntry, decide_eq_true ⟨after, within⟩⟩)

theorem standing_of_apart (token : Token)
    (apart : ∀ group ∈ values.map Prod.fst, position < group.start ∨ group.start < position ∧ group.finish < position) :
    standing values position token = some token := by
  have outside : values.any (fun entry => entry.1.start < position ∧ position ≤ entry.1.finish) = false := by
    refine List.any_eq_false.2 fun entry isEntry inside => ?_
    have bounds := of_decide_eq_true inside
    have := apart entry.1 (List.mem_map_of_mem isEntry)
    omega
  have noStart : values.find? (fun entry => entry.1.start = position) = none := by
    refine List.find?_eq_none.2 fun entry isEntry starts => ?_
    have same := of_decide_eq_true starts
    have := apart entry.1 (List.mem_map_of_mem isEntry)
    omega
  rw [standing, outside, noStart]
  rfl

/-- A right parenthesis stands only where it was, outside the groups that have values. -/
theorem isClose_of_standing {token found : Token} (stands : standing values position token = some found)
    (closes : found.isClose = true) : token = found ∧
      ∀ group ∈ values.map Prod.fst, ¬ (group.start < position ∧ position ≤ group.finish) := by
  unfold standing at stands
  split at stands
  · exact nomatch stands
  · rename_i outside
    split at stands
    · cases stands
      exact nomatch closes
    · refine ⟨Option.some.inj stands, fun group member inside => outside ?_⟩
      obtain ⟨entry, isEntry, rfl⟩ := List.mem_map.1 member
      exact List.any_eq_true.2 ⟨entry, isEntry, decide_eq_true inside⟩

section Added

variable {group : Group} {value : Float}

theorem standing_start (token : Token) (first : ∀ other ∈ values.map Prod.fst, group.start < other.start) :
    standing ((group, value) :: values) group.start token = some (.ofValue value) := by
  have outside : ((group, value) :: values).any
      (fun entry => entry.1.start < group.start ∧ group.start ≤ entry.1.finish) = false := by
    refine List.any_eq_false.2 (List.forall_mem_cons.2 ⟨fun inside => ?_, fun entry isEntry inside => ?_⟩)
    · exact Nat.lt_irrefl _ (of_decide_eq_true inside).1
    · exact Nat.lt_asymm (of_decide_eq_true inside).1 (first entry.1 (List.mem_map_of_mem isEntry))
  rw [standing, outside, List.find?_cons_of_pos (by exact decide_eq_true rfl)]
  rfl

theorem standing_behind (token : Token) (behind : group.finish < position) (ordered : group.start < group.finish) :
    standing ((group, value) :: values) position token = standing values position token := by
  have outside : ¬ (group.start < position ∧ position ≤ group.finish) := by omega
  have noStart : ¬ group.start = position := by omega
  rw [standing, List.find?_cons_of_neg (by simpa using noStart)]
  simp only [List.any_cons, outside, decide_false, Bool.false_or]
  rfl

end Added

theorem exists_of_mem_stands {tokens : List Token} {found : Token} (member : found ∈ stands values position tokens) :
    ∃ front token back, tokens = front ++ token :: back ∧
      standing values (position + front.length) token = some found := by
  induction tokens generalizing position with
  | nil => exact nomatch member
  | cons token rest ih =>
    rw [stands_cons] at member
    rcases List.mem_append.1 member with first | later
    · exact ⟨[], token, rest, rfl, Option.mem_toList.1 first⟩
    · obtain ⟨front, other, back, rfl, same⟩ := ih later
      exact ⟨token :: front, other, back, rfl, by rw [← same, List.length_cons, Nat.add_right_comm, Nat.add_assoc]⟩

theorem stands_eq_nil {tokens : List Token}
    (none : ∀ i token, position ≤ i → i < position + tokens.length → standing values i token = none) :
    stands values position tokens = [] := by
  induction tokens generalizing position with
  | nil => rfl
  | cons token rest ih =>
    have first := none position token le_rfl (by rw [List.length_cons]; omega)
    have behind := @ih (position + 1) fun i other above within =>
      none i other (by omega) (by rw [List.length_cons]; omega)
    rw [stands_cons, first, behind]
    rfl

theorem stands_congr {others : List (Group × Float)} {tokens : List Token}
    (same : ∀ i token, position ≤ i → standing values i token = standing others i token) :
    stands values position tokens = stands others position tokens := by
  induction tokens generalizing position with
  | nil => rfl
  | cons token rest ih =>
    rw [stands_cons, stands_cons, same position token le_rfl,
      ih fun i other above => same i other (Nat.le_of_succ_le above)]

theorem standsBetween_append (front middle back : List Token) :
    standsBetween values (front ++ (middle ++ back)) front.length (front.length + middle.length) =
      stands values front.length middle := by
  rw [standsBetween, List.drop_left, Nat.add_sub_cancel_left, List.take_left]

/-- Evaluating groups adds their values, the last one in front. -/
theorem groups_of_foldlM {tokens : List Token} {list : List Group} {result : List (Group × Float)}
    (evaluated : (list.foldlM (evaluateGroup bindings functions tokens) values).result = .ok result) :
    result.map Prod.fst = list.reverse ++ values.map Prod.fst := by
  induction list generalizing values with
  | nil =>
    cases evaluated
    rfl
  | cons group rest ih =>
    rw [List.foldlM_cons] at evaluated
    obtain ⟨next, first, later⟩ := Traced.result_bind_eq_ok.1 evaluated
    obtain ⟨value, _, rfl⟩ := Traced.result_bind_note_eq_ok.1 first
    rw [ih later, List.map_cons, List.reverse_cons, List.append_assoc, List.singleton_append]

section Suffix

variable {rest : List Token}

/-- The values of all groups of a list that starts at a position. -/
def Covers (values : List (Group × Float)) (position : Nat) (rest : List Token) : Prop :=
  ∀ group, group ∈ values.map Prod.fst ↔ group ∈ (Matching.run [] position rest).groups

theorem covers_of_foldlM {tokens : List Token} (left : (Matching.run [] position rest).opens = [])
    (evaluated : ((Matching.run [] position rest).order.foldlM (evaluateGroup bindings functions tokens) []).result =
      .ok values) : Covers values position rest := by
  intro group
  rw [groups_of_foldlM evaluated, List.map_nil, List.append_nil, List.mem_reverse, Matching.mem_order, left]
  exact and_iff_left (List.forall_mem_nil _)

theorem Covers.standing_before (covers : Covers values (position + 1) rest) (token : Token) :
    standing values position token = some token :=
  standing_of_apart token fun group member => Or.inl (Matching.start_of_nil ((covers group).1 member))

theorem Covers.standing_stray (covers : Covers values position rest) {stray : Nat} (token : Token)
    (member : stray ∈ (Matching.run [] position rest).strays) : standing values stray token = some token := by
  have sound := Matching.sound_of_nil position rest
  refine standing_of_apart token fun group inValues => ?_
  have isGroup := (covers group).1 inValues
  exact (sound.apart group isGroup stray member).imp_right fun behind =>
    ⟨(sound.finish group isGroup).2.trans behind, behind⟩

/-- The right parentheses that stand are those without a partner. -/
theorem Covers.exists_stray {front back : List Token} {found : Token} (covers : Covers values position (front ++ back))
    (member : found ∈ stands values position front) (closes : found.isClose = true) :
    ∃ stray ∈ (Matching.run [] position (front ++ back)).strays, stray < position + front.length := by
  have sound := Matching.sound_of_nil position (front ++ back)
  obtain ⟨inner, token, after, rfl, same⟩ := exists_of_mem_stands member
  obtain ⟨rfl, outside⟩ := isClose_of_standing same closes
  refine ⟨position + inner.length, ?_, by rw [List.length_append, List.length_cons]; omega⟩
  refine (sound.closes inner token (after ++ back) (by rw [List.append_assoc]; rfl) closes).resolve_right ?_
  rintro ⟨group, isGroup, finish⟩
  exact outside group ((covers group).2 isGroup) ⟨finish ▸ (sound.finish group isGroup).2, finish.ge⟩

theorem Covers.no_close (covers : Covers values position rest) (none : (Matching.run [] position rest).strays = []) :
    ∀ token ∈ stands values position rest, token.isClose = false := by
  intro token member
  by_contra closes
  rw [← List.append_nil rest] at covers
  obtain ⟨stray, isStray, _⟩ := covers.exists_stray member (by simpa using closes)
  rw [List.append_nil, none] at isStray
  exact nomatch isStray

/-- The first right parenthesis that stands is the first one without a partner. -/
theorem Covers.stands_split {stray : Nat} {others : List Nat} (covers : Covers values position rest)
    (strays : (Matching.run [] position rest).strays = stray :: others) :
    ∃ inner closing after, rest = inner ++ closing :: after ∧ stray = position + inner.length ∧
      closing.isClose = true ∧ standing values stray closing = some closing ∧
      (∀ token ∈ stands values position inner, token.isClose = false) ∧
      stands values position rest = stands values position inner ++ closing :: stands values (stray + 1) after := by
  have sound := Matching.sound_of_nil position rest
  have isStray : stray ∈ (Matching.run [] position rest).strays := strays ▸ List.mem_cons_self
  obtain ⟨inner, closing, after, rfl, place, closes⟩ := sound.strays stray isStray
  have stays := covers.standing_stray closing isStray
  refine ⟨inner, closing, after, rfl, place, closes, stays, fun token member => ?_, ?_⟩
  · by_contra isClose
    obtain ⟨earlier, isEarlier, less⟩ := covers.exists_stray member (by simpa using isClose)
    have sorted := sound.sorted
    rw [strays] at isEarlier sorted
    rcases List.mem_cons.1 isEarlier with rfl | later
    · omega
    · have := (List.pairwise_cons.1 sorted).1 earlier later
      omega
  · rw [stands_append, ← place, stands_cons, stays]
    rfl

/-- The value of a group takes the place of the group. -/
theorem Covers.stands_group {token closing : Token} {inner after : List Token} {stray : Nat}
    (covers : Covers values (position + 1) rest) (place : stray = position + 1 + inner.length) (value : Float) :
    stands ((⟨position, stray⟩, value) :: values) position (token :: (inner ++ closing :: after)) =
      .ofValue value :: stands values (stray + 1) after := by
  have first : ∀ group ∈ values.map Prod.fst, position < group.start := fun group member =>
    Matching.start_of_nil ((covers group).1 member)
  have size : (inner ++ [closing]).length = inner.length + 1 := List.length_append
  have inside : stands ((⟨position, stray⟩, value) :: values) (position + 1) (inner ++ [closing]) = [] := by
    refine stands_eq_nil fun i other above within => standing_of_mem other List.mem_cons_self above ?_
    change i ≤ stray
    omega
  have behind : stands ((⟨position, stray⟩, value) :: values) (stray + 1) after = stands values (stray + 1) after :=
    stands_congr fun i other above => standing_behind other above (by change position < stray; omega)
  have further : position + 1 + (inner ++ [closing]).length = stray + 1 := by omega
  rw [stands_cons, standing_start token first, List.append_cons, stands_append, inside, further, behind]
  rfl

/-- Closing a group is evaluating what stands in it. -/
theorem closeGroup_stands {before : List Token} {token : Token} {stray : Nat} {others : List Nat}
    (covers : Covers values (before.length + 1) rest)
    (strays : (Matching.run [] (before.length + 1) rest).strays = stray :: others) :
    closeGroup bindings functions token (stands values (before.length + 1) rest) = do
      let values ← evaluateGroup bindings functions (before ++ token :: rest) values ⟨before.length, stray⟩
      return stands values before.length (token :: rest) := by
  obtain ⟨inner, closing, after, rfl, place, closes, stays, clean, split⟩ := covers.stands_split strays
  have content : standsBetween values (before ++ token :: (inner ++ closing :: after)) (before.length + 1) stray =
      stands values (before.length + 1) inner := by
    have between := @standsBetween_append values (before ++ [token]) inner (closing :: after)
    rwa [List.append_assoc, List.length_append, List.length_singleton, ← place] at between
  have whole : standsBetween values (before ++ token :: (inner ++ closing :: after)) before.length (stray + 1) =
      token :: (stands values (before.length + 1) inner ++ [closing]) := by
    have between := @standsBetween_append values before (token :: (inner ++ [closing])) after
    have size : before.length + (token :: (inner ++ [closing])).length = stray + 1 := by
      rw [place, List.length_cons, List.length_append, List.length_singleton]
      omega
    rwa [size, List.cons_append, List.append_assoc, stands_cons, covers.standing_before, stands_append, ← place,
      stands_cons, stays] at between
  rw [closeGroup, split, breakFirst?_append _ clean closes, evaluateGroup, content, whole]
  simp only [bind_assoc, pure_bind, covers.stands_group place]

end Suffix

/-- The sweep from the end evaluates the groups of a matching in their order, and stops at the last left parenthesis
without a partner. -/
theorem sweepGroups_eq (before rest : List Token) :
    sweepGroups bindings functions rest = (do
      let values ← (Matching.run [] before.length rest).order.foldlM
        (evaluateGroup bindings functions (before ++ rest)) []
      if (Matching.run [] before.length rest).opens = [] then return stands values before.length rest
      else Traced.fail .unmatchedOpen) := by
  induction rest generalizing before with
  | nil =>
    have none : (Matching.run [] before.length []).order = [] := List.mergeSort_nil
    rw [none]
    rfl
  | cons token rest ih =>
    have swept := ih (before ++ [token])
    rw [List.length_append, List.length_singleton, List.append_assoc, List.singleton_append] at swept
    rw [sweepGroups, swept, bind_assoc]
    by_cases left : (Matching.run [] (before.length + 1) rest).opens = []
    · simp only [left, if_true, pure_bind]
      cases opens : token.isOpen with
      | false =>
        obtain ⟨order, same⟩ := @Matching.order_run_of_not_open before.length token rest opens
        rw [order, same, left]
        refine Traced.bind_congr_of_ok fun values evaluated => ?_
        have stays := (covers_of_foldlM left evaluated).standing_before token
        simp only [Bool.false_eq_true, if_false, if_true, stands_cons, stays]
        rfl
      | true =>
        cases strays : (Matching.run [] (before.length + 1) rest).strays with
        | nil =>
          obtain ⟨order, unmatched⟩ := Matching.order_run_of_unmatched opens (Or.inr strays)
          rw [order]
          simp only [unmatched, if_false, if_true]
          refine Traced.bind_congr_of_ok fun values evaluated => ?_
          have none := (covers_of_foldlM left evaluated).no_close strays
          rw [closeGroup, breakFirst?_eq_none_iff.2 none]
        | cons stray others =>
          obtain ⟨order, matched⟩ := Matching.order_run_of_matched opens left strays
          rw [order, List.foldlM_append, bind_assoc]
          simp only [matched, if_true, List.foldlM_cons, List.foldlM_nil, bind_pure]
          refine Traced.bind_congr_of_ok fun values evaluated => ?_
          exact closeGroup_stands (covers_of_foldlM left evaluated) strays
    · simp only [left, if_false, Traced.fail_bind]
      cases opens : token.isOpen with
      | false =>
        obtain ⟨order, same⟩ := @Matching.order_run_of_not_open before.length token rest opens
        simp only [order, same, left, if_false]
      | true =>
        obtain ⟨order, unmatched⟩ := Matching.order_run_of_unmatched opens (Or.inl left)
        simp only [order, unmatched, if_false]

/-- What is left of the parentheses decides whether a list is closed. -/
theorem Covers.checkClosed_stands {tokens : List Token} (covers : Covers values 0 tokens) :
    Traced.ofFailing (checkClosed (stands values 0 tokens)) =
      if (Matching.of tokens).strays = [] then return () else Traced.fail .unmatchedClose := by
  cases strays : (Matching.of tokens).strays with
  | nil =>
    rw [checkClosed_eq_ok.2 (covers.no_close strays)]
    rfl
  | cons stray others =>
    obtain ⟨inner, closing, after, _, _, closes, _, _, split⟩ := covers.stands_split strays
    have closing : (stands values 0 tokens).any Token.isClose = true := by
      rw [split, List.any_append, List.any_cons, closes, Bool.true_or, Bool.or_true]
    rw [checkClosed, if_pos closing]
    rfl

theorem resolveGroups_eq_resolveInOrder (tokens : List Token) :
    resolveGroups bindings functions tokens = resolveInOrder bindings functions tokens := by
  rw [resolveGroups_eq, sweepGroups_eq [] tokens, resolveInOrder, bind_assoc]
  refine Traced.bind_congr_of_ok fun values evaluated => ?_
  by_cases left : (Matching.of tokens).opens = []
  · have covers : Covers values 0 tokens := covers_of_foldlM left evaluated
    have checked := covers.checkClosed_stands
    change (if (Matching.of tokens).opens = [] then _ else _) >>= _ = _
    simp only [left, if_true, pure_bind, List.length_nil, checked, ne_eq, not_true, if_false]
    by_cases strays : (Matching.of tokens).strays = []
    · simp only [strays, if_true, pure_bind, not_true, if_false]
    · simp only [strays, if_false, Traced.fail_bind, not_false_eq_true, if_true]
  · change (if (Matching.of tokens).opens = [] then _ else _) >>= _ = _
    simp only [left, if_false, Traced.fail_bind, ne_eq, not_false_eq_true, if_true]

/-- A stop that does not complain about parentheses. -/
def SparesParentheses : Stop → Prop
  | .failure cause _ => cause.report.code ≠ "3009" ∧ cause.report.code ≠ "3010"
  | .fault _ => True

theorem spares_of_ne {cause : Failure} (noOpen : cause ≠ .unmatchedOpen) (noClose : cause ≠ .unmatchedClose) :
    SparesParentheses (.of cause) := by
  cases cause <;> first
    | exact absurd rfl noOpen
    | exact absurd rfl noClose
    | simp [SparesParentheses, Stop.of, Failure.report, Report.defaultCode]

theorem spares_of_isFlat {cause : Failure} (flat : cause.IsFlat) : SparesParentheses (.of cause) :=
  spares_of_ne (by rintro rfl; exact flat) (by rintro rfl; exact flat)

theorem refuseValue_spares (name : String) (value : Value) : SparesParentheses (refuseValue room name value) := by
  unfold refuseValue
  split
  · exact spares_of_ne (by simp) (by simp)
  · trivial

theorem substitute_spares (tokens : List Token) :
    Settles SparesParentheses (fun _ => True) (substitute room bindings tokens) := by
  have one (token : Token) : Settles SparesParentheses (fun _ => True) (substituteToken room bindings token) := by
    unfold substituteToken
    split
    · split
      · unfold bindingValue
        split
        · split
          · trivial
          · exact refuseValue_spares _ _
        · exact refuseValue_spares _ _
        · trivial
      · trivial
    · trivial
  induction tokens with
  | nil => trivial
  | cons token rest ih => exact (one token).bind fun _ _ => ih.bind fun _ _ => trivial

/-- A list without parentheses is never blamed for its parentheses. -/
theorem evaluateFlat_spares (tokens : List Token) :
    Settles SparesParentheses (fun _ => True) (evaluateFlat room bindings functions tokens).result := by
  refine (evaluateFlat_settles_of (fun _ => spares_of_isFlat) ?_).mono (fun _ spares => spares) fun _ _ => trivial
  exact (substitute_spares tokens).mono (fun _ spares => spares) fun _ _ _ _ =>
    Or.inr (spares_of_ne (by simp) (by simp))

theorem evaluateGroup_spares (tokens : List Token) (values : List (Group × Float)) (group : Group) :
    Settles SparesParentheses (fun _ => True) (evaluateGroup bindings functions tokens values group).result :=
  Traced.settles_bind (evaluateFlat_spares _) fun _ _ => Traced.settles_bind settles_note fun _ _ => trivial

/-- The groups of a list are evaluated by falling positions of their left parentheses, each with the groups inside it
replaced by their values, and the first that has no value stops it. Parentheses without a partner are complained about
after the groups behind them. They never leave an answer, and without them nothing is blamed on parentheses. -/
theorem resolveGroups_in_order (bindings : Bindings) (functions : FunctionTable) (tokens : List Token) :
    resolveGroups bindings functions tokens = resolveInOrder bindings functions tokens ∧
      ((Matching.of tokens).Balanced → ∀ cause equation,
        (resolveGroups bindings functions tokens).result = .error (.failure cause equation) →
          cause.report.code ≠ "3009" ∧ cause.report.code ≠ "3010") ∧
      (¬ (Matching.of tokens).Balanced → ∀ answer, (resolveGroups bindings functions tokens).result ≠ .ok answer) := by
  have same : resolveGroups bindings functions tokens = resolveInOrder bindings functions tokens :=
    resolveGroups_eq_resolveInOrder tokens
  refine ⟨same, fun balanced cause equation stopped => ?_, fun unbalanced answer resolved => ?_⟩
  · have settles : Settles SparesParentheses (fun _ => True) (resolveInOrder bindings functions tokens).result := by
      refine Traced.settles_bind (Traced.settles_foldlM trivial fun values group _ => evaluateGroup_spares _ _ _)
        fun values _ => ?_
      simp only [balanced.1, balanced.2, ne_eq, not_true, if_false]
      trivial
    exact settles.of_error (same ▸ stopped)
  · rw [same] at resolved
    obtain ⟨values, _, resolved⟩ := Traced.result_bind_eq_ok.1 resolved
    split at resolved
    · exact nomatch resolved
    · rename_i opens
      split at resolved
      · exact nomatch resolved
      · rename_i strays
        exact unbalanced ⟨not_not.1 opens, not_not.1 strays⟩

/-- Two groups that close, and a left parenthesis before them that does not. -/
theorem resolveGroups_unclosed :
    (Matching.of [.lparen "(", .lparen "(", .name "x" false, .rparen ")", .operator .minus, .lparen "(",
      .name "x" false, .rparen ")"]).order = [⟨5, 7⟩, ⟨1, 3⟩] ∧
    ∀ answer, (resolveGroups (.ofList [("x", .real 2.0)]) .empty
      [.lparen "(", .lparen "(", .name "x" false, .rparen ")", .operator .minus, .lparen "(", .name "x" false,
        .rparen ")"]).result ≠ .ok answer :=
  ⟨Matching.order_eq (by decide) (by decide) (by decide), (resolveGroups_in_order _ _ _).2.2 (by decide)⟩

end Reckoner.Evaluation
