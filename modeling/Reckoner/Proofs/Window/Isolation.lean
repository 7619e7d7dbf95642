import Reckoner.Proofs.Window.Invariant

namespace Reckoner.Window

/-- The calculations that report in an action, with what they tell the window. -/
def delivering (w : Window) : Action → List (Job × Message)
  | .finish place => (w.running[place]?.map fun job => (job, w.message job)).toList
  | _ => []

/-- The calculations that an action starts: they run behind those that ran before it. -/
def starting (w : Window) (action : Action) : List Job :=
  (w.react action).window.running.drop w.running.length

/-- The calculations that report during actions, with what they tell the window, in the order of their reports. -/
def delivered (w : Window) : List Action → List (Job × Message)
  | [] => []
  | action :: rest => w.delivering action ++ (w.react action).window.delivered rest

/-- The calculations that actions start, in the order of their starts. -/
def started (w : Window) : List Action → List Job
  | [] => []
  | action :: rest => w.starting action ++ (w.react action).window.started rest

/-- What the window is told during actions. -/
def messages (w : Window) (actions : List Action) : List Message := (w.delivered actions).map Prod.snd

/-- Settings that were read are never changed: later ones are read besides them. -/
theorem Change.readings_suffix {w next : Window} (changed : Change w next) : w.readings <:+ next.readings := by
  cases changed with
  | reread => exact List.suffix_cons _ _
  | undone =>
    unfold undo
    split <;> exact List.suffix_rfl
  | _ => exact List.suffix_rfl

theorem Changes.readings_suffix {w next : Window} (changed : Changes w next) : w.readings <:+ next.readings := by
  induction changed with
  | refl => exact List.suffix_rfl
  | tail _ changed ih => exact ih.trans changed.readings_suffix

/-- The settings that a calculation was started with stay where it finds them. -/
theorem settingsAt_of_suffix {w next : Window} (kept : w.readings <:+ next.readings) :
    next.settingsAt w.replaced.length = w.settings := by
  obtain ⟨newer, same⟩ := kept
  have last : w.readings.reverse = w.replaced.reverse ++ [w.settings] := List.reverse_cons
  have within : w.replaced.length < w.readings.reverse.length := by
    rw [List.length_reverse]
    exact Nat.lt_succ_self _
  rw [settingsAt, ← same, List.reverse_append, List.getElem?_append_left within, last, ← List.length_reverse,
    List.getElem?_concat_length]
  rfl

theorem delivering_of_ne {w : Window} {action : Action} (other : ∀ place, action ≠ .finish place) :
    w.delivering action = [] := by
  cases action with
  | finish place => exact absurd rfl (other place)
  | _ => rfl

/-- Until it reports a calculation runs on, and finds its settings unchanged. -/
theorem running_after {w : Window} {job : Job} {actions : List Action} (busy : w.busy = true)
    (running : w.running = [job]) (quiet : ∀ action ∈ actions, action ≠ .finish 0) :
    (w.after actions).running = [job] ∧ w.readings <:+ (w.after actions).readings ∧ w.delivered actions = [] := by
  induction actions generalizing w with
  | nil => exact ⟨running, List.suffix_rfl, rfl⟩
  | cons action rest ih =>
    have later := fun a member => quiet a (List.mem_cons_of_mem action member)
    by_cases other : ∀ place, action ≠ .finish place
    · have changed := changes_react other fun idle => absurd busy (Bool.eq_false_iff.1 idle)
      obtain ⟨still, same⟩ := changed.of_busy busy
      obtain ⟨atEnd, kept, none⟩ := ih still (same.trans running) later
      refine ⟨atEnd, changed.readings_suffix.trans kept, ?_⟩
      rw [delivered, delivering_of_ne other, none, List.nil_append]
    · obtain ⟨place, same⟩ := not_forall.1 other
      rw [not_not.1 same] at quiet ⊢
      obtain ⟨place, rfl⟩ := Nat.exists_eq_add_one_of_ne_zero
        (fun zero => quiet _ List.mem_cons_self (congrArg Action.finish zero))
      have missing : w.running[place + 1]? = none := by rw [running]; rfl
      have idles : w.finish (place + 1) = (w, .none) := by rw [finish, missing]
      have stays : (w.react (.finish (place + 1))).window = w := congrArg Prod.fst idles
      obtain ⟨atEnd, kept, none⟩ := ih busy running later
      rw [after, delivered, stays, none, delivering, missing]
      exact ⟨atEnd, kept, rfl⟩

/-- A start that is accepted finds an idle window. Its calculation is made in the window that the actions that wait
leave behind, and it is the only one. -/
theorem begins_of_accepted {w : Window} {press : Action} {waiting : List Action} (holds : Invariant w)
    (idle : w.busy = false) (asks : Asks press waiting) (accepted : (w.react press).window.busy = true) :
    ∃ question, questionOf w.formula w.assignments w.lastResult = .ok question ∧
      (w.react press).window.readings = (w.await.after waiting).readings ∧
      (w.react press).window.running = [⟨question, (w.await.after waiting).replaced.length⟩] := by
  have enabled := holds.enter_iff.2 idle
  cases accepts : w.accept with
  | error refused =>
    rw [react_asks_of_error asks enabled accepts] at accepted
    change refused.1.busy = true at accepted
    rw [eq_of_accept_error accepts] at accepted
    exact absurd accepted (Bool.eq_false_iff.1 idle)
  | ok question =>
    have handled := changes_after_of_waiting (w := w.await) rfl (holds.running_of_idle idle) waiting
    rw [react_asks_of_ok asks enabled accepts]
    refine ⟨question, (accept_eq_ok.1 accepts).2, rfl, ?_⟩
    change (w.await.after waiting).running ++ _ = _
    rw [(handled.of_busy rfl).2]
    change w.running ++ _ = _
    rw [holds.running_of_idle idle, List.nil_append]

/-- Until it reports, a calculation that was accepted is the only one, and has the question of its start and the
settings that it was made with. -/
theorem pending_after_start {w : Window} {press : Action} {waiting actions : List Action} (holds : Invariant w)
    (idle : w.busy = false) (asks : Asks press waiting) (accepted : (w.react press).window.busy = true)
    (quiet : ∀ action ∈ actions, action ≠ .finish 0) :
    ∃ question job, questionOf w.formula w.assignments w.lastResult = .ok question ∧
      (w.after (press :: actions)).running = [job] ∧
      (w.after (press :: actions)).message job = .of question (w.await.after waiting).settings := by
  obtain ⟨question, asked, same, alone⟩ := begins_of_accepted holds idle asks accepted
  obtain ⟨runsOn, kept, _⟩ := running_after accepted alone quiet
  rw [same] at kept
  exact ⟨question, _, asked, runsOn, congrArg (Message.of question) (settingsAt_of_suffix kept)⟩

end Reckoner.Window
