namespace Reckoner

variable {α : Type}

/-- The parts of a list before, at and after the first element that satisfies a test. -/
def breakFirst? (test : α → Bool) : List α → Option (List α × α × List α)
  | [] => none
  | a :: rest =>
    if test a then some ([], a, rest)
    else (breakFirst? test rest).map fun (before, b, after) => (a :: before, b, after)

/-- The parts of a list before, at and after the last element that satisfies a test. -/
def breakLast? (test : α → Bool) : List α → Option (List α × α × List α)
  | [] => none
  | a :: rest =>
    match breakLast? test rest with
    | some (before, b, after) => some (a :: before, b, after)
    | none => if test a then some ([], a, rest) else none

/-- Breaking at the first element loses nothing, and no earlier element satisfies the test. -/
theorem eq_of_breakFirst? {test : α → Bool} {l before after : List α} {a : α}
    (h : breakFirst? test l = some (before, a, after)) :
    l = before ++ a :: after ∧ test a ∧ ∀ b ∈ before, test b = false := by
  induction l generalizing before with
  | nil => simp [breakFirst?] at h
  | cons b rest ih =>
    by_cases hb : test b
    · simp only [breakFirst?, hb, if_true, Option.some.injEq, Prod.mk.injEq] at h
      obtain ⟨rfl, rfl, rfl⟩ := h
      simp [hb]
    · simp only [breakFirst?, hb] at h
      obtain ⟨⟨before', a', after'⟩, found, same⟩ := Option.map_eq_some_iff.1 h
      simp only [Prod.mk.injEq] at same
      obtain ⟨rfl, rfl, rfl⟩ := same
      obtain ⟨rfl, ha, none⟩ := ih found
      exact ⟨rfl, ha, by simpa [hb] using none⟩

/-- There is nothing to break at exactly when no element satisfies the test. -/
theorem breakFirst?_eq_none_iff {test : α → Bool} {l : List α} :
    breakFirst? test l = none ↔ ∀ a ∈ l, test a = false := by
  induction l with
  | nil => simp [breakFirst?]
  | cons a rest ih => by_cases h : test a <;> simp [breakFirst?, h, ih]

/-- Breaking comes to the same before and after a change of the elements that the test does not see. -/
theorem breakFirst?_map {test : α → Bool} {f : α → α} (same : ∀ a, test (f a) = test a) (l : List α) :
    breakFirst? test (l.map f) =
      (breakFirst? test l).map fun (before, a, after) => (before.map f, f a, after.map f) := by
  induction l with
  | nil => rfl
  | cons a rest ih =>
    rw [List.map_cons, breakFirst?, breakFirst?, same, ih]
    split
    · rfl
    · simp only [Option.map_map, Function.comp_def, List.map_cons]

/-- There is nothing to break at exactly when no element satisfies the test. -/
theorem breakLast?_eq_none_iff {test : α → Bool} {l : List α} :
    breakLast? test l = none ↔ ∀ a ∈ l, test a = false := by
  induction l with
  | nil => simp [breakLast?]
  | cons a rest ih =>
    cases h : breakLast? test rest with
    | some found =>
      have some_rest : ¬ ∀ b ∈ rest, test b = false := fun all => by simp [ih.2 all] at h
      simp only [breakLast?, h, List.mem_cons, forall_eq_or_imp, reduceCtorEq, false_iff]
      exact fun all => some_rest all.2
    | none => by_cases ha : test a <;> simp_all [breakLast?]

/-- Breaking at the last element loses nothing, and no later element satisfies the test. -/
theorem eq_of_breakLast? {test : α → Bool} {l before after : List α} {a : α}
    (h : breakLast? test l = some (before, a, after)) :
    l = before ++ a :: after ∧ test a ∧ ∀ b ∈ after, test b = false := by
  induction l generalizing before with
  | nil => simp [breakLast?] at h
  | cons b rest ih =>
    cases found : breakLast? test rest with
    | some parts =>
      obtain ⟨before', a', after'⟩ := parts
      simp only [breakLast?, found, Option.some.injEq, Prod.mk.injEq] at h
      obtain ⟨rfl, rfl, rfl⟩ := h
      obtain ⟨rfl, ha, none⟩ := ih found
      exact ⟨rfl, ha, none⟩
    | none =>
      by_cases hb : test b
      · simp only [breakLast?, found, hb, if_true, Option.some.injEq, Prod.mk.injEq] at h
        obtain ⟨rfl, rfl, rfl⟩ := h
        exact ⟨rfl, hb, breakLast?_eq_none_iff.1 found⟩
      · simp [breakLast?, found, hb] at h

/-- An element with none of its kind before it is the first one. -/
theorem breakFirst?_append {test : α → Bool} {before : List α} {a : α} (after : List α)
    (clean : ∀ b ∈ before, test b = false) (found : test a = true) :
    breakFirst? test (before ++ a :: after) = some (before, a, after) := by
  induction before with
  | nil => simp [breakFirst?, found]
  | cons b before ih =>
    have rest := ih fun c member => clean c (List.mem_cons_of_mem b member)
    simp [breakFirst?, clean b List.mem_cons_self, rest]

/-- An element with none of its kind behind it is the last one. -/
theorem breakLast?_append {test : α → Bool} (before : List α) {a : α} {after : List α}
    (clean : ∀ b ∈ after, test b = false) (found : test a = true) :
    breakLast? test (before ++ a :: after) = some (before, a, after) := by
  induction before with
  | nil => simp [breakLast?, breakLast?_eq_none_iff.2 clean, found]
  | cons b before ih => simp [breakLast?, ih]

end Reckoner
