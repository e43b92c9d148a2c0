import PathRouter.Proofs.Builder.Add

/-!
The builders that a program can come by: registrations one after the other, be they accepted or
refused, with changes of the limits and of the expander in between. All of them are well-formed, so
a registration is all or nothing. It is refused because its own wildcard does not compile, before
anything has been stored; the searches for middleware that follow only meet wildcards that have been
compiled before.
-/

namespace PathRouter

section

variable [SizeRule]

theorem Path.wildcard?_eq_error {path : Path} {e : RouterError} : path.wildcard? = .error e ↔
    path.isWildcard = true ∧ Wildcard.ofPath path = .error e := by
  rw [Path.wildcard?]
  cases path.isWildcard with
  | false => simp
  | true => cases Wildcard.ofPath path <;> simp [Except.map]

namespace Builder

variable {α : Type}

/-- The builder after a registration, whether it has been accepted or not. -/
def attempt (builder : Builder α) (call : Method × Path × α) : Builder α :=
  match (add call.1 call.2.1 call.2.2).run builder with
  | .ok _ after => after
  | .error _ after => after

def addAll (builder : Builder α) (calls : List (Method × Path × α)) : Builder α :=
  calls.foldl attempt builder

theorem addAll_concat (builder : Builder α) (calls : List (Method × Path × α))
    (call : Method × Path × α) :
    builder.addAll (calls ++ [call]) = (builder.addAll calls).attempt call := by
  rw [addAll, List.foldl_append]
  rfl

inductive Reachable : Builder α → Prop
  | new : Reachable {}
  | attempt {builder : Builder α} (call : Method × Path × α) :
    Reachable builder → Reachable (builder.attempt call)
  | withConfig {builder : Builder α} (config : Config) :
    Reachable builder → Reachable (builder.withConfig config)
  | withExpander {builder : Builder α} (expander : Expander) :
    Reachable builder → Reachable (builder.withExpander expander)

variable {builder : Builder α}

theorem Reachable.addAll (h : builder.Reachable) (calls : List (Method × Path × α)) :
    (builder.addAll calls).Reachable := by
  induction calls generalizing builder with
  | nil => exact h
  | cons call calls ih => exact ih (h.attempt call)

/-- A registration is accepted and made, or refused and without effect. -/
theorem WellFormed.attempt_cases (h : builder.WellFormed) (call : Method × Path × α) :
    (∃ wildcard, call.2.1.canonical.wildcard? = .ok wildcard ∧
      Added call.1 call.2.1.canonical wildcard call.2.2 builder (builder.attempt call)) ∨
    ((∃ e, call.2.1.canonical.wildcard? = .error e) ∧ builder.attempt call = builder) := by
  cases hwildcard : call.2.1.canonical.wildcard? with
  | error e =>
      refine Or.inr ⟨⟨e, rfl⟩, ?_⟩
      rw [Builder.attempt, h.run_add_error call.1 hwildcard]
  | ok wildcard =>
      obtain ⟨log, after, hrun, hadded⟩ := h.exists_run_add call.1 hwildcard call.2.2
      refine Or.inl ⟨wildcard, rfl, ?_⟩
      rw [Builder.attempt, hrun]
      exact hadded

/-- What holds at first and is kept by every accepted registration holds of all reachable builders,
if it does not speak of the settings. -/
theorem Reachable.invariant {P : Builder α → Prop} (hnew : P {})
    (hadded : ∀ before after method path wildcard handler, before.WellFormed → P before →
      path.wildcard? = .ok wildcard → Added method path wildcard handler before after → P after)
    (hsettings : ∀ before config expander, P before → P { before with config, expander })
    (h : builder.Reachable) : builder.WellFormed ∧ P builder := by
  induction h with
  | new => exact ⟨wellFormed_empty, hnew⟩
  | attempt call _ ih =>
      obtain ⟨hwf, hP⟩ := ih
      rcases hwf.attempt_cases call with ⟨wildcard, hwildcard, hstep⟩ | ⟨-, hsame⟩
      · exact ⟨hstep.wellFormed hwf, hadded _ _ _ _ _ _ hwf hP hwildcard hstep⟩
      · rw [hsame]
        exact ⟨hwf, hP⟩
  | withConfig config _ ih => exact ⟨ih.1.withSettings config _, hsettings _ config _ ih.2⟩
  | withExpander expander _ ih => exact ⟨ih.1.withSettings _ expander, hsettings _ _ expander ih.2⟩

theorem Reachable.wellFormed (h : builder.Reachable) : builder.WellFormed :=
  (h.invariant (P := fun _ => True) trivial (fun _ _ _ _ _ _ _ _ _ _ => trivial)
    fun _ _ _ _ => trivial).1

/-- A registration fails just if its path is a wildcard that does not compile, and then the builder
is the same as before. No later step of it fails: once the handler is stored and the method has its
tables, every search for an inherited chain succeeds, and so does the rest. -/
theorem add_all_or_nothing (h : builder.Reachable) (method : Method) (path : Path) (handler : α) :
    (∀ e after, (add method path handler).run builder = .error e after ↔
      path.canonical.isWildcard = true ∧ Wildcard.ofPath path.canonical = .error e ∧
        after = builder) ∧
    ∀ wildcard id specialized prepared,
      (prepare method path.canonical handler).run builder =
        .ok (wildcard, id, specialized) prepared →
      (∀ other key, ∃ chain, (inheritedChain other key).run prepared = .ok chain prepared) ∧
      ∃ log after, (register (prepared.targets method) path.canonical wildcard id).run prepared =
        .ok log after := by
  have hwf := h.wellFormed
  simp only [← and_assoc, ← Path.wildcard?_eq_error]
  cases hwildcard : path.canonical.wildcard? with
  | error cause =>
      refine ⟨fun e after => ?_, fun wildcard id specialized prepared hprepare => ?_⟩
      · rw [hwf.run_add_error method hwildcard handler, EStateM.Result.error.injEq,
          Except.error.injEq, eq_comm (a := after)]
      · rw [hwf.run_prepare_error method hwildcard handler] at hprepare
        cases hprepare
  | ok wildcard =>
      refine ⟨fun e after => ?_, fun wildcard' id specialized prepared hprepare => ?_⟩
      · obtain ⟨log, added, hrun, -⟩ := hwf.exists_run_add method hwildcard handler
        rw [hrun]
        constructor
        · intro hfailed
          cases hfailed
        · rintro ⟨hfailed, -⟩
          cases hfailed
      · obtain ⟨_, cache, hprepared, hsearchable, -, hpath⟩ :=
          hwf.run_prepare method hwildcard handler
        rw [hprepared] at hprepare
        cases hprepare
        refine ⟨fun other key => hsearchable.exists_run_inheritedChain other key, ?_⟩
        obtain ⟨propagated, hregister⟩ := hsearchable.run_register
          (fun other hother => (mem_targets.1 hother).1) (nodup_targets hsearchable.nodup method)
          hpath builder.handlers.size
        exact ⟨propagated, _, hregister⟩

end Builder

end

/-- A wildcard that is too big, after registrations and a change of the limits. -/
theorem Builder.add_all_or_nothing_stars : ∃ builder : Builder Nat,
    builder = ((({} : Builder Nat).attempt ("GET", "/a/*".toList, 1)).attempt
      ("ALL", "/a/:x".toList, 2)).withConfig { nestLimit := 3 } ∧
    builder.Reachable ∧
    ∃ e, (add "PUT" (List.replicate 30000 '*') 3).run builder = .error e builder := by
  -- the number of stars is kept out of sight, so that nothing writes the path out
  obtain ⟨n, hn⟩ : ∃ n, n = 30000 := ⟨_, rfl⟩
  rw [← hn]
  have hcanonical : Path.canonical (List.replicate n '*') = List.replicate n '*' := by
    refine if_neg fun heq => ?_
    have hlen := congrArg List.length heq
    rw [List.length_replicate, hn] at hlen
    cases hlen
  have hwild : Path.isWildcard (List.replicate n '*') = true := by
    rw [Path.isWildcard, List.getLast?_replicate, if_neg (by omega)]
    rfl
  obtain ⟨e, he⟩ := Wildcard.exists_error_of_stars (Nat.le_of_eq hn.symm)
  have hreach := ((Reachable.new.attempt ("GET", "/a/*".toList, 1)).attempt
    ("ALL", "/a/:x".toList, 2)).withConfig { nestLimit := 3 }
  refine ⟨_, rfl, hreach, e, ?_⟩
  exact ((add_all_or_nothing hreach "PUT" (List.replicate n '*') 3).1 e _).2
    ⟨by rw [hcanonical, hwild], by rw [hcanonical, he], rfl⟩

end PathRouter
