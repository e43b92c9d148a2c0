import Mathlib.Data.List.Basic
import Mathlib.Tactic.Common

/-!
What a successful run says about its parts. A sequence that succeeds is a first part that succeeds
and a second part that succeeds from there; a loop that succeeds is one step after the other, so
whatever every step keeps holds at the end.
-/

namespace PathRouter

variable {ε σ α β : Type}

/-! ### Results with errors -/

theorem bind_eq_ok {x : Except ε α} {f : α → Except ε β} {b : β} :
    x >>= f = .ok b ↔ ∃ a, x = .ok a ∧ f a = .ok b := by
  cases x with
  | error e => simp [bind, Except.bind]
  | ok a => simp [bind, Except.bind]

theorem exists_ok_of_toOption_bind {x : Except ε α} {f : α → Option β} {b : β}
    (h : x.toOption.bind f = some b) : ∃ a, x = .ok a ∧ f a = some b := by
  cases x with
  | error e => cases h
  | ok a => exact ⟨a, rfl, h⟩

theorem ne_error_of_toOption {x : Except ε α} (h : x.toOption.isSome = true) (e : ε) :
    x ≠ .error e := by
  rintro rfl
  cases h

theorem forall₂_of_mapM_eq_ok {f : α → Except ε β} {as : List α} {bs : List β}
    (h : as.mapM f = .ok bs) : List.Forall₂ (fun a b => f a = .ok b) as bs := by
  induction as generalizing bs with
  | nil =>
      cases h
      exact List.Forall₂.nil
  | cons a as ih =>
      rw [List.mapM_cons, bind_eq_ok] at h
      obtain ⟨b, hb, h⟩ := h
      obtain ⟨bs', hbs, h⟩ := bind_eq_ok.1 h
      cases h
      exact List.Forall₂.cons hb (ih hbs)

theorem exists_mapM_eq_ok {f : α → Except ε β} {as : List α} (h : ∀ a ∈ as, ∃ b, f a = .ok b) :
    ∃ bs, as.mapM f = .ok bs := by
  induction as with
  | nil => exact ⟨[], rfl⟩
  | cons a as ih =>
      obtain ⟨b, hb⟩ := h a List.mem_cons_self
      obtain ⟨bs, hbs⟩ := ih fun a ha => h a (List.mem_cons_of_mem _ ha)
      refine ⟨b :: bs, ?_⟩
      rw [List.mapM_cons, bind_eq_ok]
      exact ⟨b, hb, bind_eq_ok.2 ⟨bs, hbs, rfl⟩⟩

theorem exists_getElem?_of_forall₂ {R : α → β → Prop} {as : List α} {bs : List β}
    (h : List.Forall₂ R as bs) {i : Nat} {a : α} (ha : as[i]? = some a) :
    ∃ b, bs[i]? = some b ∧ R a b := by
  induction h generalizing i with
  | nil => simp at ha
  | @cons a' b _ _ hab _ ih =>
      cases i with
      | zero =>
          obtain rfl : a' = a := by simpa using ha
          exact ⟨b, rfl, hab⟩
      | succ i => exact ih ha

/-- What each step of a loop carries over to one more element holds of the whole list. -/
theorem foldlM_induction {I : List β → α → Prop} {f : α → β → Except ε α}
    (hstep : ∀ before a b a', I before a → f a b = .ok a' → I (before ++ [b]) a')
    {before bs : List β} {a a' : α} (ha : I before a) (h : bs.foldlM f a = .ok a') :
    I (before ++ bs) a' := by
  induction bs generalizing before a with
  | nil =>
      cases h
      simpa using ha
  | cons b bs ih =>
      rw [List.foldlM_cons, bind_eq_ok] at h
      obtain ⟨a₁, ha₁, h⟩ := h
      simpa using ih (hstep before a b a₁ ha ha₁) h

theorem foldlM_eq_error_iff {f : α → β → Except ε α} {bs : List β} {a : α} {e : ε} :
    bs.foldlM f a = .error e ↔ ∃ before b after a', bs = before ++ b :: after ∧
      before.foldlM f a = .ok a' ∧ f a' b = .error e := by
  constructor
  · intro h
    induction bs generalizing a with
    | nil => cases h
    | cons b bs ih =>
        rw [List.foldlM_cons] at h
        cases hb : f a b with
        | error e' =>
            rw [hb] at h
            cases h
            exact ⟨[], b, bs, a, rfl, rfl, hb⟩
        | ok a₁ =>
            rw [hb] at h
            obtain ⟨before, b', after, a', rfl, hbefore, hfailed⟩ := ih h
            refine ⟨b :: before, b', after, a', rfl, ?_, hfailed⟩
            rw [List.foldlM_cons, bind_eq_ok]
            exact ⟨a₁, hb, hbefore⟩
  · rintro ⟨before, b, after, a', rfl, hbefore, hfailed⟩
    rw [List.foldlM_append, hbefore]
    show (b :: after).foldlM f a' = .error e
    rw [List.foldlM_cons, hfailed]
    rfl

theorem exists_of_foldlM_eq_error {f : α → β → Except ε α} {bs : List β} {a : α} {e : ε}
    (h : bs.foldlM f a = .error e) : ∃ b ∈ bs, ∃ a', f a' b = .error e := by
  obtain ⟨before, b, after, a', rfl, -, hfailed⟩ := foldlM_eq_error_iff.1 h
  exact ⟨b, List.mem_append_right _ List.mem_cons_self, a', hfailed⟩

/-- A loop commutes with a change of its elements and of its state, if each of its steps does. -/
theorem foldlM_map_comm {β' α' : Type} {f : α → β → Except ε α} {f' : α' → β' → Except ε α'}
    {g : β → β'} {h : α → α'} (hstep : ∀ a b, f' (h a) (g b) = (f a b).map h) (bs : List β)
    (a : α) : (bs.map g).foldlM f' (h a) = (bs.foldlM f a).map h := by
  induction bs generalizing a with
  | nil => rfl
  | cons b bs ih =>
      rw [List.map_cons, List.foldlM_cons, List.foldlM_cons, hstep]
      cases f a b with
      | error e => rfl
      | ok a' => exact ih a'

theorem mapM_map_comm {α' β' : Type} {f : α → Except ε β} {f' : α' → Except ε β'} {g : α → α'}
    {h : β → β'} (hstep : ∀ a, f' (g a) = (f a).map h) (as : List α) :
    (as.map g).mapM f' = (as.mapM f).map (List.map h) := by
  induction as with
  | nil => rfl
  | cons a as ih =>
      rw [List.map_cons, List.mapM_cons, List.mapM_cons, hstep, ih]
      cases f a with
      | error e => rfl
      | ok b =>
          cases as.mapM f with
          | error e => rfl
          | ok bs => rfl

/-- Loops do the same if their steps do, as far as an invariant of the loop goes. -/
theorem foldlM_congr {I : α → Prop} {f g : α → β → Except ε α}
    (hsame : ∀ a b, I a → f a b = g a b) (hstep : ∀ a b a', I a → g a b = .ok a' → I a')
    (bs : List β) {a : α} (ha : I a) : bs.foldlM f a = bs.foldlM g a := by
  induction bs generalizing a with
  | nil => rfl
  | cons b bs ih =>
      rw [List.foldlM_cons, List.foldlM_cons, hsame a b ha]
      cases hb : g a b with
      | error e => rfl
      | ok a' => exact ih (hstep a b a' ha hb)

theorem mapM_congr {f g : α → Except ε β} {as : List α} (h : ∀ a ∈ as, f a = g a) :
    as.mapM f = as.mapM g := by
  induction as with
  | nil => rfl
  | cons a as ih =>
      rw [List.mapM_cons, List.mapM_cons, h a List.mem_cons_self,
        ih fun a ha => h a (List.mem_cons_of_mem _ ha)]

/-! ### Runs with a state -/

theorem run_bind_eq_ok {x : EStateM ε σ α} {f : α → EStateM ε σ β} {s s' : σ} {b : β} :
    (x >>= f).run s = .ok b s' ↔ ∃ a s₁, x.run s = .ok a s₁ ∧ (f a).run s₁ = .ok b s' := by
  rw [EStateM.run_bind]
  cases x.run s with
  | error e s₁ => simp
  | ok a s₁ => simp

theorem run_discard_eq_ok {x : EStateM ε σ α} {s s' : σ} :
    (discard x).run s = .ok ⟨⟩ s' ↔ ∃ a, x.run s = .ok a s' := by
  show EStateM.map (Function.const α PUnit.unit) x s = _ ↔ ∃ a, x s = .ok a s'
  rw [EStateM.map]
  cases x s with
  | error e s₁ => simp
  | ok a s₁ => simp

theorem run_discard_of_error {x : EStateM ε σ α} {s s' : σ} {e : ε} (h : x.run s = .error e s') :
    (discard x).run s = .error e s' := by
  show EStateM.map (Function.const α PUnit.unit) x s = _
  rw [EStateM.map, show x s = .error e s' from h]

theorem run_modifyGet (f : σ → α × σ) (s : σ) :
    (modifyGet f : EStateM ε σ α).run s = .ok (f s).1 (f s).2 := rfl

theorem run_bind_of_ok {x : EStateM ε σ α} {f : α → EStateM ε σ β} {s s' : σ} {a : α}
    (h : x.run s = .ok a s') : (x >>= f).run s = (f a).run s' := by
  rw [EStateM.run_bind, h]

theorem run_bind_of_error {x : EStateM ε σ α} {f : α → EStateM ε σ β} {s s' : σ} {e : ε}
    (h : x.run s = .error e s') : (x >>= f).run s = .error e s' := by
  rw [EStateM.run_bind, h]

theorem run_forM {f : β → EStateM ε σ PUnit} {bs : List β} (s : List β → σ)
    (hstep : ∀ before b after, bs = before ++ b :: after →
      (f b).run (s before) = .ok ⟨⟩ (s (before ++ [b]))) :
    (bs.forM f).run (s []) = .ok ⟨⟩ (s bs) := by
  induction bs generalizing s with
  | nil => rfl
  | cons b bs ih =>
      show (f b >>= fun _ => bs.forM f).run (s []) = _
      rw [run_bind_of_ok (hstep [] b bs rfl)]
      apply ih fun before => s (b :: before)
      intro before b' after hbs
      exact hstep (b :: before) b' after (by rw [hbs, List.cons_append])

theorem forM_induction {I : List β → σ → Prop} {f : β → EStateM ε σ PUnit}
    (hstep : ∀ before b s s', I before s → (f b).run s = .ok ⟨⟩ s' → I (before ++ [b]) s')
    {before bs : List β} {s s' : σ} (hs : I before s) (h : (bs.forM f).run s = .ok ⟨⟩ s') :
    I (before ++ bs) s' := by
  induction bs generalizing before s with
  | nil =>
      cases h
      rwa [List.append_nil]
  | cons b bs ih =>
      obtain ⟨⟨⟩, s₁, hb, hrest⟩ := run_bind_eq_ok.1 h
      rw [List.append_cons]
      exact ih (hstep before b s s₁ hs hb) hrest

theorem exists_run_mapM {f : β → EStateM ε σ α} {bs : List β} (s : List β → σ)
    (hstep : ∀ before b after, bs = before ++ b :: after →
      ∃ a, (f b).run (s before) = .ok a (s (before ++ [b]))) :
    ∃ as, (bs.mapM f).run (s []) = .ok as (s bs) := by
  induction bs generalizing s with
  | nil => exact ⟨[], rfl⟩
  | cons b bs ih =>
      obtain ⟨a, ha⟩ := hstep [] b bs rfl
      obtain ⟨as, has⟩ := ih (fun before => s (b :: before)) fun before b' after hbs =>
        hstep (b :: before) b' after (by rw [hbs, List.cons_append])
      refine ⟨a :: as, ?_⟩
      rw [List.mapM_cons, run_bind_of_ok ha]
      exact run_bind_of_ok has

theorem exists_run_mapM_of_forall {f : β → EStateM ε σ α} {bs : List β}
    (hstep : ∀ b ∈ bs, ∀ s, ∃ a s', (f b).run s = .ok a s') (s : σ) :
    ∃ as s', (bs.mapM f).run s = .ok as s' := by
  induction bs generalizing s with
  | nil => exact ⟨[], s, rfl⟩
  | cons b bs ih =>
      obtain ⟨a, s₁, ha⟩ := hstep b List.mem_cons_self s
      obtain ⟨as, s₂, has⟩ := ih (fun b hb => hstep b (List.mem_cons_of_mem _ hb)) s₁
      refine ⟨a :: as, s₂, ?_⟩
      rw [List.mapM_cons, run_bind_of_ok ha]
      exact run_bind_of_ok has

theorem forall₂_of_run_mapM_eq_ok {f : α → EStateM ε σ β} {as : List α} {bs : List β} {s s' : σ}
    (h : (as.mapM f).run s = .ok bs s') :
    List.Forall₂ (fun a b => ∃ s₁ s₂, (f a).run s₁ = .ok b s₂) as bs := by
  induction as generalizing bs s with
  | nil =>
      cases h
      exact List.Forall₂.nil
  | cons a as ih =>
      rw [List.mapM_cons, run_bind_eq_ok] at h
      obtain ⟨b, s₁, hb, h⟩ := h
      obtain ⟨bs', s₂, hbs, h⟩ := run_bind_eq_ok.1 h
      cases h
      exact List.Forall₂.cons ⟨s, s₁, hb⟩ (ih hbs)

end PathRouter
