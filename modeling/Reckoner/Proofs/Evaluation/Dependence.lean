import Mathlib
import Reckoner.Proofs.Evaluation.Chains
import Reckoner.Proofs.Evaluation.Closed
import Reckoner.Proofs.Token.Dependence

namespace Reckoner

namespace Evaluation

variable {bindings others : Bindings} {functions table : FunctionTable} {room : Nat}

/-- Bindings and tables that give the same for all that a list of tokens asks them. -/
structure Concur (bindings others : Bindings) (functions table : FunctionTable) (tokens : List Token) : Prop where
  names : ∀ name, .name name false ∈ tokens → bindings.get? name = others.get? name
  functions : ∀ name, .function name ∈ tokens → functions.get? name = table.get? name

/-- Computed numbers ask for nothing. -/
theorem Concur.of_mem {tokens swept : List Token} (concur : Concur bindings others functions table tokens)
    (mem : ∀ token ∈ swept, token ∈ tokens ∨ ∃ value, token = Token.ofValue value) :
    Concur bindings others functions table swept where
  names name member := by
    rcases mem _ member with old | ⟨value, same⟩
    · exact concur.names name old
    · exact nomatch same
  functions name member := by
    rcases mem _ member with old | ⟨value, same⟩
    · exact concur.functions name old
    · exact nomatch same

section Flat

theorem substitute_congr {tokens : List Token}
    (same : ∀ name, .name name false ∈ tokens →
      substituteToken room bindings (.name name false) = substituteToken room others (.name name false)) :
    substitute room bindings tokens = substitute room others tokens := by
  induction tokens with
  | nil => rfl
  | cons token rest ih =>
    have first : substituteToken room bindings token = substituteToken room others token := by
      cases token with
      | name name attached =>
        cases attached with
        | true => rfl
        | false => exact same name List.mem_cons_self
      | _ => rfl
    rw [substitute, substitute, first, ih fun name member => same name (List.mem_cons_of_mem token member)]

theorem mem_of_substitute {tokens replaced : List Token}
    (substituted : substitute room bindings tokens = .ok replaced) :
    ∀ token ∈ replaced, token ∈ tokens ∨ ∃ value, token = Token.ofValue value := by
  induction tokens generalizing replaced with
  | nil =>
    cases substituted
    exact List.forall_mem_nil _
  | cons token rest ih =>
    obtain ⟨first, isFirst, later⟩ := bind_eq_ok.1 substituted
    obtain ⟨behind, isBehind, same⟩ := bind_eq_ok.1 later
    cases same
    refine List.forall_mem_cons.2 ⟨?_, fun found member => (ih isBehind found member).imp_left (List.mem_cons_of_mem _)⟩
    rcases substituteToken_cases token with kept | ⟨name, value, _, _, replaced⟩
    · cases kept.symm.trans isFirst
      exact Or.inl List.mem_cons_self
    · rw [replaced] at isFirst
      cases isNumber : bindingValue room name value with
      | error stop =>
        rw [isNumber] at isFirst
        cases isFirst
      | ok number =>
        rw [isNumber] at isFirst
        cases isFirst
        exact Or.inr ⟨number, rfl⟩

theorem nestedValue_congr {calls : List OpenCall} (value : Float)
    (same : ∀ call ∈ calls, functions.get? call.name = table.get? call.name) :
    nestedValue functions calls value = nestedValue table calls value := by
  induction calls with
  | nil => rfl
  | cons call inner ih =>
    obtain ⟨first, later⟩ := List.forall_mem_cons.1 same
    have called (argument : Float) : callValue functions call.name argument = callValue table call.name argument := by
      rw [callValue, callValue, FunctionTable.apply, FunctionTable.apply, first]
    simp only [nestedValue, ih later, called]

/-- The value of a piece depends on the functions in it. -/
theorem settle_congr {piece : Piece}
    (same : ∀ name, .function name ∈ piece.tokens → functions.get? name = table.get? name) :
    piece.settle functions = piece.settle table := by
  cases piece with
  | other token => rfl
  | chain row =>
    have calls : ∀ call ∈ row.calls, functions.get? call.name = table.get? call.name := fun call member =>
      same call.name (List.mem_append_left _ (List.mem_flatMap_of_mem member List.mem_cons_self))
    simp only [Piece.settle, Chain.value, nestedValue_congr row.argument calls]

theorem mapM_settle_congr {pieces : List Piece}
    (same : ∀ name, .function name ∈ pieces.flatMap Piece.tokens → functions.get? name = table.get? name) :
    pieces.mapM (Piece.settle functions) = pieces.mapM (Piece.settle table) := by
  induction pieces with
  | nil => rfl
  | cons piece rest ih =>
    have first := @settle_congr functions table piece fun name member => same name (List.mem_append_left _ member)
    have later := ih fun name member => same name (List.mem_append_right _ member)
    rw [List.mapM_cons, List.mapM_cons, first, later]

theorem applyFunctions_congr {tokens : List Token}
    (same : ∀ name, .function name ∈ tokens → functions.get? name = table.get? name) :
    applyFunctions functions tokens = applyFunctions table tokens := by
  have settled := @mapM_settle_congr functions table (Piece.cut [] tokens) (by rwa [flatMap_cut])
  rw [applyFunctions_eq, applyFunctions_eq, sweepCalls_eq, sweepCalls_eq, settled]

theorem evaluateFlat_congr {tokens : List Token} (concur : Concur bindings others functions table tokens) :
    evaluateFlat room bindings functions tokens = evaluateFlat room others table tokens := by
  have same (name : String) (member : .name name false ∈ tokens) :
      substituteToken room bindings (.name name false) = substituteToken room others (.name name false) := by
    rw [substituteToken, substituteToken, concur.names name member]
  rw [evaluateFlat, evaluateFlat, substitute_congr same]
  refine Traced.bind_congr_of_ok fun replaced substituted => ?_
  rw [applyFunctions_congr (concur.of_mem (mem_of_substitute substituted)).functions]

end Flat

section Groups

theorem closeGroup_congr {opening : Token} {rest : List Token}
    (same : ∀ inner, inner <+: rest →
      evaluateFlat groupRoom bindings functions inner = evaluateFlat groupRoom others table inner) :
    closeGroup bindings functions opening rest = closeGroup others table opening rest := by
  unfold closeGroup
  rcases parts : breakFirst? Token.isClose rest with _ | ⟨inner, closing, after⟩
  · rfl
  · obtain ⟨rfl, _, _⟩ := eq_of_breakFirst? parts
    simp only [same inner (List.prefix_append inner _)]

section Agreement

variable {holds : List Token → Prop}
  (flat : ∀ room tokens, holds tokens →
    evaluateFlat room bindings functions tokens = evaluateFlat room others table tokens)
  (kept : ∀ {tokens swept}, holds tokens → (∀ token ∈ swept, token ∈ tokens ∨ ∃ value, token = Token.ofValue value) →
    holds swept)

include flat kept

/-- Where lists without groups are evaluated alike, so are the groups of a list. -/
theorem sweepGroups_congr_of_flat {tokens : List Token} (start : holds tokens) :
    sweepGroups bindings functions tokens = sweepGroups others table tokens := by
  induction tokens with
  | nil => rfl
  | cons token rest ih =>
    have behind := kept start fun other member => Or.inl (List.mem_cons_of_mem token member)
    rw [sweepGroups, sweepGroups, ← ih behind]
    refine Traced.bind_congr_of_ok fun swept isSwept => ?_
    have left := kept behind (sweepGroups_eq_ok.1 isSwept).mem
    rw [closeGroup_congr fun inner isPrefix =>
      flat _ inner (kept left fun other member => Or.inl (isPrefix.subset member))]

theorem evaluateTokens_congr_of_flat {tokens : List Token} (start : holds tokens) :
    evaluateTokens bindings functions tokens = evaluateTokens others table tokens := by
  rw [evaluateTokens, evaluateTokens, resolveGroups_eq, resolveGroups_eq, ← sweepGroups_congr_of_flat flat kept start,
    bind_assoc, bind_assoc]
  refine Traced.bind_congr_of_ok fun swept isSwept => ?_
  simp only [bind_assoc, pure_bind, flat _ swept (kept start (sweepGroups_eq_ok.1 isSwept).mem)]

end Agreement

theorem evaluateTokens_congr_of_concur {tokens : List Token} (concur : Concur bindings others functions table tokens) :
    evaluateTokens bindings functions tokens = evaluateTokens others table tokens :=
  evaluateTokens_congr_of_flat (fun _ _ => evaluateFlat_congr) Concur.of_mem concur

end Groups

end Evaluation

open Evaluation

variable {bindings others : Bindings} {functions table : FunctionTable}

theorem mem_keys_iff_contains {name : String} : name ∈ functions.keys ↔ functions.contains name = true := by
  refine ⟨contains_of_mem_keys, fun listed => ?_⟩
  obtain ⟨entry, inEntries, same⟩ := List.lookup_isSome_iff.1 listed
  exact List.mem_map.2 ⟨entry, inEntries, (eq_of_beq same).symm⟩

theorem evaluate_congr {expression : String}
    (sameBindings : ∀ name, Token.Mentions expression.toList name → bindings.get? name = others.get? name)
    (sameNames : ∀ name, name ≠ "" → functions.contains name = table.contains name)
    (sameFunctions : ∀ name, Token.ReadsFunction bindings.contains functions.keys expression name →
      functions.get? name = table.get? name) :
    evaluate expression bindings functions = evaluate expression others table := by
  have sameScan : Token.scan bindings.contains functions.keys expression =
      Token.scan others.contains table.keys expression := by
    refine Token.scan_congr (fun name filled => ?_) fun name mentions => ?_
    · rw [mem_keys_iff_contains, mem_keys_iff_contains, sameNames name filled]
    · rw [OrderedMap.contains, OrderedMap.contains, sameBindings name mentions]
  rw [evaluate, evaluate, ← sameScan]
  refine congrArg _ (Traced.bind_congr_of_ok fun tokens isScanned => ?_)
  have scanned := Traced.result_ofFailing_eq_ok.1 isScanned
  have concur : Concur bindings others functions table tokens :=
    ⟨fun name member => sameBindings name (Token.mentions_of_scan scanned member),
      fun name member => sameFunctions name ⟨tokens, scanned, member⟩⟩
  rw [evaluateTokens_congr_of_concur concur]

/-- The functions that take or give angles. -/
def angular : List String := ["sin", "cos", "tan", "atan"]

theorem get?_elementary {name : String} (apart : name ∉ angular) :
    (FunctionTable.elementary true).get? name = (FunctionTable.elementary false).get? name := by
  simp only [angular, List.mem_cons, not_or, List.not_mem_nil, not_false_eq_true, and_true] at apart
  obtain ⟨noSine, noCosine, noTangent, noArctangent⟩ := apart
  simp only [FunctionTable.elementary, OrderedMap.ofList, OrderedMap.putAll, List.foldl_cons, List.foldl_nil,
    OrderedMap.get?_put, beq_iff_eq, noSine, noCosine, noTangent, noArctangent, if_false]

/-- Both tables of functions have the same names. -/
theorem contains_elementary (name : String) :
    (FunctionTable.elementary true).contains name = (FunctionTable.elementary false).contains name := by
  simp only [FunctionTable.elementary, OrderedMap.contains, OrderedMap.ofList, OrderedMap.putAll, List.foldl_cons,
    List.foldl_nil, OrderedMap.get?_put]
  split_ifs <;> rfl

/-- An evaluation depends on what the text mentions: on the values of the names that stand in it as whole words, on
which functions there are, and on those among its tokens. A binding that it does not mention makes no difference,
whatever its value, and the unit of angles makes none where no function of angles is among the tokens. -/
theorem evaluate_depends_on_mentions (expression : String) :
    (∀ {bindings others : Bindings} {functions table : FunctionTable},
      (∀ name, Token.Mentions expression.toList name → bindings.get? name = others.get? name) →
      (∀ name, name ≠ "" → functions.contains name = table.contains name) →
      (∀ name, Token.ReadsFunction bindings.contains functions.keys expression name →
        functions.get? name = table.get? name) →
      evaluate expression bindings functions = evaluate expression others table) ∧
    (∀ (bindings : Bindings) (functions : FunctionTable) (name : String) (value : Value),
      ¬ Token.Mentions expression.toList name →
      evaluate expression (bindings.put name value) functions = evaluate expression bindings functions) ∧
    (∀ bindings : Bindings,
      (∀ name ∈ angular,
        ¬ Token.ReadsFunction bindings.contains (FunctionTable.elementary true).keys expression name) →
      evaluate expression bindings (.elementary true) = evaluate expression bindings (.elementary false)) := by
  refine ⟨evaluate_congr, fun bindings functions name value unused => ?_, fun bindings none => ?_⟩
  · refine evaluate_congr (fun other mentions => ?_) (fun _ _ => rfl) fun _ _ => rfl
    have apart : other ≠ name := by
      rintro rfl
      exact unused mentions
    rw [OrderedMap.get?_put, if_neg (by simpa using apart)]
  · refine evaluate_congr (fun _ _ => rfl) (fun name _ => contains_elementary name) fun name isRead => ?_
    exact get?_elementary fun member => none name member isRead

/-- A binding that cannot be used, and another unit of angles, in an expression that asks for neither. -/
theorem evaluate_root_unmentioned :
    evaluate "sqrt(x)" (.ofList [("x", .real 4.0), ("y", .null)]) (.elementary true) =
        evaluate "sqrt(x)" (.ofList [("x", .real 4.0)]) (.elementary false) ∧
      evaluate "sqrt(x)" (.put (.ofList [("x", .real 4.0)]) "y" .null) .empty =
        evaluate "sqrt(x)" (.ofList [("x", .real 4.0)]) .empty ∧
      evaluate "sqrt(x)" (.ofList [("x", .real 4.0), ("y", .null)]) (.elementary true) =
        evaluate "sqrt(x)" (.ofList [("x", .real 4.0), ("y", .null)]) (.elementary false) := by
  have unmentioned : ¬ Token.Mentions "sqrt(x)".toList "y" := by
    rintro ⟨before, rest, whole, _⟩
    have member : 'y' ∈ before ++ ("y".toList ++ rest) := List.mem_append_right _ List.mem_cons_self
    exact absurd (whole ▸ member) (by decide)
  have root (name : String) (reads : Token.ReadsFunction
      (OrderedMap.ofList [("x", Value.real 4.0), ("y", Value.null)]).contains (FunctionTable.elementary true).keys
      "sqrt(x)" name) : name ∉ angular := by
    obtain ⟨tokens, scanned, member⟩ := reads
    have found : Token.scan (OrderedMap.ofList [("x", Value.real 4.0), ("y", Value.null)]).contains
        (FunctionTable.elementary true).keys "sqrt(x)" =
          .ok [.function "sqrt", .lparen "(", .name "x" false, .rparen ")"] :=
      Token.scan_of_mapError (by decide +kernel)
    cases scanned.symm.trans found
    obtain rfl : name = "sqrt" := by simpa using member
    decide
  obtain ⟨agree, unused, turned⟩ := evaluate_depends_on_mentions "sqrt(x)"
  refine ⟨agree (fun name mentions => ?_) (fun name _ => contains_elementary name) fun name reads => ?_,
    unused _ _ "y" .null unmentioned, turned _ fun name member reads => root name reads member⟩
  · have apart : name ≠ "y" := by
      rintro rfl
      exact unmentioned mentions
    exact (OrderedMap.get?_put _ "y" name _).trans (if_neg (by simpa using apart))
  · exact get?_elementary (root name reads)

end Reckoner
