import Mathlib
import PathRouter.Proofs.Builder.Reachable
import PathRouter.Router

/-!
A router in one place, seen through the calls on it and what they come back with. As long as no call
to freeze succeeds it is a builder that finds nothing. From the first one that does, it is the
frozen router that this builder compiles to. Of the steps that freezing takes only the first one,
the compilation, can fail; so a router that fails to freeze has lost nothing.
-/

namespace PathRouter

section

variable [SizeRule]

inductive Call (α : Type)
  | add (method : Method) (path : Path) (handler : α)
  | freeze
  | find (method : Method) (path : Path)

inductive Answer (α : Type)
  | done (log : Log)
  | refused (error : RouterError) (log : Log)
  | found (result : Option (Match α)) (log : Log)

variable {α : Type}

def Call.registration? : Call α → Option (Method × Path × α)
  | .add method path handler => some (method, path, handler)
  | .freeze | .find .. => none

def registrations (calls : List (Call α)) : List (Method × Path × α) :=
  calls.filterMap Call.registration?

/-- What a builder answers on its own. It can not look anything up. -/
def Builder.answer (builder : Builder α) : Call α → Answer α
  | .add method path handler =>
    match (add method path handler).run builder with
    | .ok log _ => .done log
    | .error e _ => .refused e []
  | .freeze =>
    match builder.freeze.run [] with
    | .ok _ log => .done log
    | .error e log => .refused e log
  | .find method path => .found none [.notFrozen method path]

/-- What a frozen router answers on its own. It can only look things up. -/
def FrozenRouter.answer (router : FrozenRouter α) : Call α → Answer α
  | .add .. | .freeze => .refused .alreadyFrozen []
  | .find method path => .found (router.find method path) []

/-- No call to freeze among these succeeds for the builder with the registrations before it. -/
def Builder.StaysOpen (builder : Builder α) (calls : List (Call α)) : Prop :=
  ∀ before after, calls = before ++ .freeze :: after →
    ∀ frozen log, (builder.addAll (registrations before)).freeze.run [] ≠ .ok frozen log

omit [SizeRule] in
theorem registrations_append (calls calls' : List (Call α)) :
    registrations (calls ++ calls') = registrations calls ++ registrations calls' :=
  List.filterMap_append

theorem Builder.StaysOpen.of_append {builder : Builder α} {calls calls' : List (Call α)}
    (h : builder.StaysOpen (calls ++ calls')) : builder.StaysOpen calls := by
  intro before after hcalls
  exact h before (after ++ calls') (by rw [hcalls, List.append_assoc, List.cons_append])

theorem Builder.staysOpen_of_not_mem {builder : Builder α} {calls : List (Call α)}
    (h : Call.freeze ∉ calls) : builder.StaysOpen calls := by
  intro before after hcalls
  rw [hcalls] at h
  exact absurd (List.mem_append_right before List.mem_cons_self) h

theorem Builder.addAll_append (builder : Builder α) (calls calls' : List (Method × Path × α)) :
    builder.addAll (calls ++ calls') = (builder.addAll calls).addAll calls' :=
  List.foldl_append

namespace Router

def call (router : Router α) : Call α → Answer α × Router α
  | .add method path handler =>
    match (Router.add method path handler).run router with
    | .ok log after => (.done log, after)
    | .error e after => (.refused e [], after)
  | .freeze =>
    match freeze.run (router, []) with
    | .ok _ (after, log) => (.done log, after)
    | .error e (after, log) => (.refused e log, after)
  | .find method path => (.found (router.find method path) (router.findLog method path), router)

def after (router : Router α) (calls : List (Call α)) : Router α :=
  calls.foldl (fun router call => (router.call call).2) router

def answers : Router α → List (Call α) → List (Answer α)
  | _, [] => []
  | router, call :: calls => (router.call call).1 :: (router.call call).2.answers calls

variable {router : Router α} {builder : Builder α} {frozen : FrozenRouter α}

theorem after_cons (router : Router α) (c : Call α) (calls : List (Call α)) :
    router.after (c :: calls) = (router.call c).2.after calls := rfl

theorem answers_cons (router : Router α) (c : Call α) (calls : List (Call α)) :
    router.answers (c :: calls) = (router.call c).1 :: (router.call c).2.answers calls := rfl

theorem after_append (router : Router α) (calls calls' : List (Call α)) :
    router.after (calls ++ calls') = (router.after calls).after calls' :=
  List.foldl_append

theorem answers_append (router : Router α) (calls calls' : List (Call α)) :
    router.answers (calls ++ calls') =
      router.answers calls ++ (router.after calls).answers calls' := by
  induction calls generalizing router with
  | nil => rfl
  | cons c calls ih => rw [List.cons_append, answers_cons, ih, answers_cons, List.cons_append,
      after_cons]

theorem length_answers (router : Router α) (calls : List (Call α)) :
    (router.answers calls).length = calls.length := by
  induction calls generalizing router with
  | nil => rfl
  | cons c calls ih => rw [answers_cons, List.length_cons, ih, List.length_cons]

/-! ### One call -/

omit [SizeRule] in
theorem run_reporting {β : Type} (action : EStateM RouterError Log β) (router : Router α)
    (log : Log) : (reporting action).run (router, log) =
      match action.run log with
      | .ok result log => .ok result (router, log)
      | .error e log => .error e (router, log) := rfl

/-- The router in its place is what its builder freezes to afterwards, or is the builder still. -/
theorem run_freeze_building (builder : Builder α) (log : Log) :
    freeze.run (building builder, log) =
      match builder.freeze.run log with
      | .ok frozen log' => .ok () (.frozen frozen, log')
      | .error e log' => .error e (.building builder, log') := by
  rw [Builder.freeze, freeze]
  simp only [EStateM.run_bind, EStateM.run_get, run_reporting]
  cases builder.compile.run log with
  | error e log' => rfl
  | ok compiled log' => rfl

theorem call_building_freeze (builder : Builder α) : (building builder).call .freeze =
    match builder.freeze.run [] with
    | .ok frozen log => (.done log, .frozen frozen)
    | .error e log => (.refused e log, .building builder) := by
  rw [call, run_freeze_building]
  cases builder.freeze.run [] <;> rfl

theorem answer_building (builder : Builder α) (c : Call α) :
    ((building builder).call c).1 = builder.answer c := by
  cases c with
  | add method path handler =>
      simp only [call, Builder.answer, Router.add, EStateM.run]
      cases Builder.add method path handler builder <;> rfl
  | freeze =>
      rw [call_building_freeze, Builder.answer]
      cases builder.freeze.run [] <;> rfl
  | find method path => rfl

theorem call_building {c : Call α}
    (h : c = .freeze → ∀ frozen log, builder.freeze.run [] ≠ .ok frozen log) :
    ((building builder).call c).2 = building (builder.addAll (registrations [c])) := by
  cases c with
  | add method path handler =>
      show _ = building (builder.attempt (method, path, handler))
      simp only [call, Builder.attempt, Router.add, EStateM.run]
      cases Builder.add method path handler builder <;> rfl
  | freeze =>
      rw [call_building_freeze]
      cases hfreeze : builder.freeze.run [] with
      | error e log => rfl
      | ok frozen log => exact absurd hfreeze (h rfl frozen log)
  | find method path => rfl

theorem call_frozen (frozen : FrozenRouter α) (c : Call α) :
    (Router.frozen frozen).call c = (frozen.answer c, .frozen frozen) := by
  cases c <;> rfl

theorem call_freeze_of_refused {e : RouterError} {log : Log}
    (h : (router.call .freeze).1 = .refused e log) : (router.call .freeze).2 = router := by
  cases router with
  | frozen inner => rfl
  | building builder =>
      rw [call_building_freeze] at h ⊢
      cases hfreeze : builder.freeze.run [] with
      | error e log => rfl
      | ok frozen log =>
          rw [hfreeze] at h
          cases h

/-! ### Runs of calls -/

/-- Until a call to freeze succeeds, the router has what its builder would have. -/
theorem after_of_staysOpen {calls : List (Call α)} (h : builder.StaysOpen calls) :
    (building builder).after calls = building (builder.addAll (registrations calls)) := by
  induction calls using List.reverseRecOn with
  | nil => rfl
  | append_singleton calls c ih =>
      rw [after_append, ih h.of_append, after_cons, after, List.foldl_nil,
        call_building fun hc => h calls [] (by rw [hc]), registrations_append,
        Builder.addAll_append]

theorem after_frozen (frozen : FrozenRouter α) (calls : List (Call α)) :
    (Router.frozen frozen).after calls = .frozen frozen := by
  induction calls with
  | nil => rfl
  | cons c calls ih => rw [after_cons, call_frozen, ih]

theorem answers_frozen (frozen : FrozenRouter α) (calls : List (Call α)) :
    (Router.frozen frozen).answers calls = calls.map frozen.answer := by
  induction calls with
  | nil => rfl
  | cons c calls ih => rw [answers_cons, call_frozen, ih, List.map_cons]

/-- The call to freeze that succeeds leaves the frozen router, whatever comes after it. -/
theorem after_of_freeze {before : List (Call α)} (hopen : builder.StaysOpen before) {log : Log}
    (hfreeze : (builder.addAll (registrations before)).freeze.run [] = .ok frozen log)
    (rest : List (Call α)) :
    (building builder).after (before ++ .freeze :: rest) = .frozen frozen ∧
      (building builder).answers (before ++ .freeze :: rest) =
        (building builder).answers before ++ .done log :: rest.map frozen.answer := by
  have hcall : ((building builder).after before).call .freeze = (.done log, .frozen frozen) := by
    rw [after_of_staysOpen hopen, call_building_freeze, hfreeze]
  constructor
  · rw [after_append, after_cons, hcall, after_frozen]
  · rw [answers_append, answers_cons, hcall, answers_frozen]

/-- After any calls the router is still open, or one of them has frozen it. -/
theorem staysOpen_or_freeze (builder : Builder α) (calls : List (Call α)) :
    builder.StaysOpen calls ∨ ∃ before rest frozen log, calls = before ++ .freeze :: rest ∧
      builder.StaysOpen before ∧
      (builder.addAll (registrations before)).freeze.run [] = .ok frozen log := by
  induction calls using List.reverseRecOn with
  | nil =>
      refine Or.inl fun before after hcalls => ?_
      cases before <;> cases hcalls
  | append_singleton calls c ih =>
      rcases ih with hopen | ⟨before, rest, frozen, log, rfl, hopen, hfreeze⟩
      · by_cases hlast : ∃ frozen log, c = .freeze ∧
          (builder.addAll (registrations calls)).freeze.run [] = .ok frozen log
        · obtain ⟨frozen, log, rfl, hfreeze⟩ := hlast
          exact Or.inr ⟨calls, [], frozen, log, rfl, hopen, hfreeze⟩
        · refine Or.inl fun before after hcalls frozen log hfreeze => ?_
          -- the call to freeze is the last one, or one of those before
          cases after using List.reverseRecOn with
          | nil =>
              obtain ⟨rfl, hc⟩ := List.append_inj' hcalls rfl
              exact hlast ⟨frozen, log, (List.cons.inj hc).1, hfreeze⟩
          | append_singleton after last =>
              rw [← List.cons_append, ← List.append_assoc] at hcalls
              exact hopen before after (List.append_inj' hcalls rfl).1 frozen log hfreeze
      · exact Or.inr ⟨before, rest ++ [c], frozen, log, by simp, hopen, hfreeze⟩

/-- A router in one place is its builder first, and then what that builder compiles to. Until a call
to freeze succeeds, every call is answered as by a builder with the same registrations, and nothing
is found. A call to freeze that is refused might as well not have been made. From the first one that
succeeds, the router is the frozen one for good, and answers as that one does. -/
theorem staged_lifecycle (builder : Builder α) :
    (∀ before, builder.StaysOpen before →
      (building builder).after before = building (builder.addAll (registrations before)) ∧
      ∀ c rest, ((building builder).answers (before ++ c :: rest))[before.length]? =
        some ((builder.addAll (registrations before)).answer c)) ∧
    (∀ before rest e log,
      ((building builder).answers (before ++ .freeze :: rest))[before.length]? =
        some (.refused e log) →
      (building builder).answers (before ++ rest) =
        ((building builder).answers (before ++ .freeze :: rest)).eraseIdx before.length ∧
      (building builder).after (before ++ rest) =
        (building builder).after (before ++ .freeze :: rest)) ∧
    ∀ before rest frozen log, builder.StaysOpen before →
      (builder.addAll (registrations before)).freeze.run [] = .ok frozen log →
      (building builder).after (before ++ .freeze :: rest) = .frozen frozen ∧
      (building builder).answers (before ++ .freeze :: rest) =
        (building builder).answers before ++ .done log :: rest.map frozen.answer := by
  have hplace (calls rest : List (Call α)) (c : Call α) :
      ((building builder).answers (calls ++ c :: rest))[calls.length]? =
        some (((building builder).after calls).call c).1 := by
    rw [answers_append, answers_cons, List.getElem?_append_right (by rw [length_answers]),
      length_answers, Nat.sub_self, List.getElem?_cons_zero]
  refine ⟨fun before hopen => ?_, fun before rest e log hrefused => ?_,
    fun before rest frozen log hopen hfreeze => after_of_freeze hopen hfreeze rest⟩
  · have hafter := after_of_staysOpen hopen
    refine ⟨hafter, fun c rest => ?_⟩
    rw [hplace, hafter, answer_building]
  · rw [hplace, Option.some.injEq] at hrefused
    have hsame := call_freeze_of_refused hrefused
    constructor
    · rw [answers_append, answers_append, answers_cons, hsame,
        List.eraseIdx_append_of_length_le (by rw [length_answers]), length_answers, Nat.sub_self,
        List.eraseIdx_cons_zero]
    · rw [after_append, after_append, after_cons, hsame]

end Router

end

/-- Two routes in conflict do not freeze, and one of them alone does. -/
theorem Router.staged_lifecycle_conflict :
    (∃ e log, ((building ({} : Builder Nat)).answers [.add "GET" "/a/:b".toList 1,
        .add "GET" "/a/:c".toList 2, .freeze, .find "GET" "/a/x".toList])[2]? =
          some (.refused e log)) ∧
    (building ({} : Builder Nat)).answers [.add "GET" "/a/:b".toList 1,
        .add "GET" "/a/:c".toList 2, .find "GET" "/a/x".toList] =
      ((building ({} : Builder Nat)).answers [.add "GET" "/a/:b".toList 1,
        .add "GET" "/a/:c".toList 2, .freeze, .find "GET" "/a/x".toList]).eraseIdx 2 ∧
    ∃ frozen, (building ({} : Builder Nat)).after [.add "GET" "/a/:b".toList 1, .freeze,
        .add "GET" "/a/:c".toList 2, .freeze] = .frozen frozen ∧
      (frozen.find "GET" "/a/x".toList).map (·.handlers.toList) = some [1] := by
  obtain ⟨hopen, hrefused, hfrozen⟩ := staged_lifecycle ({} : Builder Nat)
  have hconflict : (match (({} : Builder Nat).addAll [("GET", "/a/:b".toList, 1),
      ("GET", "/a/:c".toList, 2)]).freeze.run [] with
    | .ok _ _ => true
    | .error _ _ => false) = false := by
    cbv
  have halone : (match (({} : Builder Nat).addAll [("GET", "/a/:b".toList, 1)]).freeze.run [] with
    | .ok router _ => (router.find "GET" "/a/x".toList).map (·.handlers.toList)
    | .error _ _ => none) = some [1] := by
    cbv
  split at hconflict
  · cases hconflict
  · next e log hfreeze =>
      have hanswer := (hopen [.add "GET" "/a/:b".toList 1, .add "GET" "/a/:c".toList 2]
        (Builder.staysOpen_of_not_mem (by simp))).2 .freeze [.find "GET" "/a/x".toList]
      have hfailed : (({} : Builder Nat).addAll [("GET", "/a/:b".toList, 1),
          ("GET", "/a/:c".toList, 2)]).answer .freeze = .refused e log := by
        simp only [Builder.answer, hfreeze]
      replace hanswer := hanswer.trans (congrArg some hfailed)
      refine ⟨⟨e, log, hanswer⟩, (hrefused _ _ e log hanswer).1, ?_⟩
      split at halone
      · next router log' hfreeze' =>
          exact ⟨router, (hfrozen [.add "GET" "/a/:b".toList 1] _ router log'
            (Builder.staysOpen_of_not_mem (by simp)) hfreeze').1, halone⟩
      · cases halone

end PathRouter
