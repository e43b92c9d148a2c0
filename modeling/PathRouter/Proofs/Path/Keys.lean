import Mathlib.Data.List.Chain
import PathRouter.Proofs.Path.Tokenize

/-!
What may follow a key along a path. A parameter takes the whole rest of its segment, so a slash or
the end comes behind it; the two wildcards read to the end, so nothing comes behind them. Only a
star inside a path may be followed by anything.
-/

namespace PathRouter

theorem Path.head?_tokenize_afterName {path : Path} {token : Token}
    (h : token ∈ path.afterName.tokenize.head?) : token = .char '/' ∨ token = .tailStar := by
  rw [afterName] at h
  cases hrest : path.dropWhile (· ≠ '/') with
  | nil =>
      rw [hrest, tokenize] at h
      cases h
  | cons c rest =>
      have hslash : c = '/' := by
        have hhead := List.head?_dropWhile_not (fun c => decide (c ≠ '/')) path
        rw [hrest, List.head?_cons] at hhead
        simpa using hhead
      rw [hrest, hslash, tokenize, if_neg fun hcolon => absurd hcolon.1 (by decide)] at h
      split at h
      · exact Or.inr (Option.some.inj h).symm
      · exact Or.inl (Option.some.inj h).symm

/-- Nothing comes behind a tail, and a slash behind a parameter. -/
theorem Path.isChain_tokenize (path : Path) : path.tokenize.IsChain fun token next =>
    token ≠ .tailStar ∧ ((∃ name, token = .param name) → next = .char '/' ∨ next = .tailStar) := by
  induction path using Path.tokenize.induct with
  | case1 =>
      rw [tokenize]
      exact List.IsChain.nil
  | case2 c rest h ih =>
      rw [tokenize, if_pos h, List.isChain_cons]
      exact ⟨fun next hnext => ⟨Token.noConfusion, fun _ => head?_tokenize_afterName hnext⟩, ih⟩
  | case3 c rest h htail =>
      rw [tokenize, if_neg h, if_pos htail]
      exact List.IsChain.singleton _
  | case4 c rest h htail ih =>
      rw [tokenize, if_neg h, if_neg htail, List.isChain_cons]
      refine ⟨fun next _ => ?_, ih⟩
      split
      · exact ⟨Token.noConfusion, fun hparam => Token.noConfusion hparam.choose_spec⟩
      · exact ⟨Token.noConfusion, fun hparam => Token.noConfusion hparam.choose_spec⟩

theorem isChain_map_key_stepsOf {R : Token → Token → Prop} {S : Key → Key → Prop}
    (hstep : ∀ token next atEnd, R token next → S (token.step false).key (next.step atEnd).key)
    {tokens : List Token} (h : tokens.IsChain R) : ((stepsOf tokens).map Step.key).IsChain S := by
  induction h with
  | nil => exact List.IsChain.nil
  | singleton token => exact List.IsChain.singleton _
  | cons_cons hR _ ih => exact List.IsChain.cons_cons (hstep _ _ _ hR) ih

namespace Key

def WildcardLast (keys : List Key) : Prop := keys.IsChain fun key _ => key.isWildcard = false

theorem WildcardLast.tail {key : Key} {rest : List Key} (h : WildcardLast (key :: rest)) :
    WildcardLast rest :=
  List.IsChain.tail h

theorem WildcardLast.eq_nil {key : Key} {rest : List Key} (h : WildcardLast (key :: rest))
    (hwild : key.isWildcard = true) : rest = [] := by
  cases rest with
  | nil => rfl
  | cons next rest =>
      rw [WildcardLast, List.isChain_cons_cons, hwild] at h
      cases h.1

end Key

theorem Path.wildcardLast_keys (path : Path) : Key.WildcardLast path.keys := by
  refine isChain_map_key_stepsOf (fun token next atEnd h => ?_) path.isChain_tokenize
  cases token with
  | tailStar => exact absurd rfl h.1
  | char c | param name | star => rfl

/-- Every star of a path that is not the last token stands before a slash. -/
def Path.StarsFillSegments (path : Path) : Prop :=
  path.tokenize.IsChain fun token next =>
    token = .star → next = .char '/' ∨ next = .tailStar

instance (path : Path) : Decidable path.StarsFillSegments :=
  inferInstanceAs (Decidable (List.IsChain _ _))

/-- What one key reads ends where the next one begins: behind a label comes a slash or a tail, and
behind a wildcard nothing. -/
def Key.StopsBefore (key next : Key) : Prop :=
  key.isWildcard = false ∧ (key = .label → next = .literal '/' ∨ next = .tailWildcard)

theorem Key.wildcardLast_of_stopsBefore {keys : List Key} (h : keys.IsChain StopsBefore) :
    WildcardLast keys :=
  h.imp fun _ _ hstops => hstops.1

/-- Where stars fill their segments, every key stops before the next one. -/
theorem Path.StarsFillSegments.isChain_keys {path : Path} (h : path.StarsFillSegments) :
    path.keys.IsChain Key.StopsBefore := by
  have hboth : path.tokenize.IsChain fun token next => token ≠ .tailStar ∧
      ((token = .star ∨ ∃ name, token = .param name) → next = .char '/' ∨ next = .tailStar) := by
    rw [List.isChain_iff_getElem]
    intro i hi
    obtain ⟨htail, hparam⟩ := List.isChain_iff_getElem.1 path.isChain_tokenize i hi
    exact ⟨htail, fun hlabel => hlabel.elim (List.isChain_iff_getElem.1 h i hi) hparam⟩
  refine isChain_map_key_stepsOf (fun token next atEnd ⟨htail, hnext⟩ => ?_) hboth
  have hslash (hlabel : token = .star ∨ ∃ name, token = .param name) :
      (next.step atEnd).key = .literal '/' ∨ (next.step atEnd).key = .tailWildcard := by
    rcases hnext hlabel with rfl | rfl
    · exact Or.inl rfl
    · exact Or.inr rfl
  cases token with
  | char c => exact ⟨rfl, Key.noConfusion⟩
  | param name => exact ⟨rfl, fun _ => hslash (Or.inr ⟨name, rfl⟩)⟩
  | star => exact ⟨rfl, fun _ => hslash (Or.inl rfl)⟩
  | tailStar => exact absurd rfl htail

end PathRouter
