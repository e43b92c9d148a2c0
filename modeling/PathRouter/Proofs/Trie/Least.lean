import PathRouter.Proofs.Path.Keys
import PathRouter.Proofs.Trie.First

/-!
The first walk as the least one. If every key stops before the next one, then the text alone tells
how far each key of a walk reads. Two walks that begin with the same keys are then at the same place
in the text, so the first of them is the one with the lesser key where they part.
-/

namespace PathRouter

namespace Key

/-- The order of keys: literals by code point, then labels, tails, and whole rests. -/
def Before : Key → Key → Prop
  | .literal c, .literal d => c.toNat < d.toNat
  | .literal _, _ => True
  | .label, .tailWildcard | .label, .onlyWildcard | .tailWildcard, .onlyWildcard => True
  | _, _ => False

theorem before_iff_rank_lt {k k' : Key} : k.Before k' ↔ k.rank < k'.rank := by
  have hlt (c : Char) : (literal c).rank < label.rank := rank_literal_lt c
  have hlabel : label.rank < tailWildcard.rank := Nat.lt_succ_self _
  have htail : tailWildcard.rank < onlyWildcard.rank := Nat.lt_succ_self _
  cases k with
  | literal c =>
      have hc := hlt c
      cases k' with
      | literal d => exact Iff.rfl
      | label | tailWildcard | onlyWildcard => exact iff_of_true trivial (by omega)
  | label | tailWildcard | onlyWildcard =>
      cases k' with
      | literal d =>
          have hd := hlt d
          exact iff_of_false id (by omega)
      | label | tailWildcard | onlyWildcard =>
          first
          | exact iff_of_true trivial (by omega)
          | exact iff_of_false id (by omega)

/-- The order of paths: the first keys that differ decide, and the end comes before all keys. -/
def Precedes (keys keys' : List Key) : Prop := List.Lex Before keys keys'

theorem Precedes.asymm {keys keys' : List Key} (h : Precedes keys keys') :
    ¬Precedes keys' keys := by
  refine List.lex_asymm (fun hxy hyx => ?_) h
  rw [before_iff_rank_lt] at hxy hyx
  omega

end Key

namespace Node

variable {node node' : Node} {text : List Char} {i j j' r r' : Nat} {vs vs' : List Visit}

theorem Fits.slash_or_end (h : node.Fits text j vs r)
    (hstops : (Key.label :: vs.map Visit.key).IsChain Key.StopsBefore) :
    text[j]? = some '/' ∨ j = text.length := by
  cases vs with
  | nil => exact Or.inr h.1
  | cons v vs =>
      obtain ⟨child, -, -, -, hspans, hfits⟩ := h
      rw [List.map_cons, List.isChain_cons_cons] at hstops
      rcases hstops.1.2 rfl with hkey | hkey
      · rw [hkey, Key.pattern, Pattern.spans_char] at hspans
        exact Or.inl hspans.1
      · rw [hkey, Key.pattern, Pattern.spans_tail] at hspans
        rcases hspans with hstop | ⟨hslash, -⟩
        · -- a tail that reads nothing is the end of the path, hence of the text
          have hnil := (Key.wildcardLast_of_stopsBefore hstops.2).eq_nil (hkey ▸ rfl)
          rw [List.map_eq_nil_iff.1 hnil] at hfits
          exact Or.inr (hstop ▸ hfits.1)
        · exact Or.inl hslash

/-- A stretch of one segment does not go past a place where the segment ends. -/
theorem le_of_slash_or_end (hij : i < j) (hend : text[j]? = some '/' ∨ j = text.length)
    (hj' : j' ≤ text.length) (hmem : '/' ∉ Pattern.slice text i j') : j' ≤ j := by
  by_contra hlt
  rw [Nat.not_le] at hlt
  rcases hend with hslash | hlast
  · rw [← Pattern.slice_append (Nat.le_of_lt hij) (Nat.le_of_lt hlt),
      Pattern.slice_succ hslash hlt] at hmem
    exact hmem (List.mem_append_right _ List.mem_cons_self)
  · omega

/-- A key reads equally far in two walks. -/
theorem Fits.stop_unique {key : Key} (hspans : key.pattern.Spans text i j)
    (hspans' : key.pattern.Spans text i j') (h : node.Fits text j vs r)
    (h' : node'.Fits text j' vs' r')
    (hstops : (key :: vs.map Visit.key).IsChain Key.StopsBefore)
    (hstops' : (key :: vs'.map Visit.key).IsChain Key.StopsBefore) : j = j' := by
  cases key with
  | literal c =>
      rw [Key.pattern, Pattern.spans_char] at hspans hspans'
      rw [hspans.2, hspans'.2]
  | label =>
      rw [Key.pattern, Pattern.spans_segment] at hspans hspans'
      obtain ⟨hij, hj, hmem⟩ := hspans
      obtain ⟨hij', hj', hmem'⟩ := hspans'
      exact Nat.le_antisymm (le_of_slash_or_end hij' (h'.slash_or_end hstops') hj hmem)
        (le_of_slash_or_end hij (h.slash_or_end hstops) hj' hmem')
  | tailWildcard | onlyWildcard =>
      -- nothing comes behind a wildcard, so both read to the end of the text
      have hnil := (Key.wildcardLast_of_stopsBefore hstops).eq_nil rfl
      have hnil' := (Key.wildcardLast_of_stopsBefore hstops').eq_nil rfl
      rw [List.map_eq_nil_iff.1 hnil] at h
      rw [List.map_eq_nil_iff.1 hnil'] at h'
      rw [h.1, h'.1]

/-- The keys of the first walk are the least of all. -/
theorem first_least (h : node.children.Proper)
    (hstops : ∀ ks, (node.routeAt ks).isSome → ks.IsChain Key.StopsBefore) {first other : Walk}
    (hfirst : (node.walks text i).head? = some first) (hother : other ∈ node.walks text i) :
    first.visits.map Visit.key = other.visits.map Visit.key ∨
      Key.Precedes (first.visits.map Visit.key) (other.visits.map Visit.key) := by
  obtain ⟨visits, route⟩ := other
  induction visits generalizing node i first with
  | nil =>
      rcases first_edge h hfirst with ⟨hend, -⟩ | ⟨v, w, child, -, -, -, -, hleast⟩
      · exact Or.inl (by rw [hend])
      · obtain ⟨v', vs, hvisits, -⟩ := hleast _ hother
        cases hvisits
  | cons u us ih =>
      rcases first_edge h hfirst with ⟨hend, -⟩ | ⟨v, w, child, rfl, hget, hspans, hw, hleast⟩
      · rw [hend]
        exact Or.inr List.Lex.nil
      obtain ⟨v', vs, hvisits, hle⟩ := hleast _ hother
      obtain ⟨rfl, rfl⟩ := List.cons.inj hvisits
      rcases Nat.lt_or_eq_of_le hle with hlt | heq
      · exact Or.inr (List.Lex.rel (Key.before_iff_rank_lt.2 hlt))
      -- both walks take the same edge, which reads equally far, and go on from one node
      have hkey := Key.rank_injective heq
      obtain ⟨child', hget', -, -, hspans', hfits'⟩ := (mem_walks h).1 hother
      rw [← hkey, hget, Option.some.injEq] at hget'
      subst hget'
      have hchild := (h.live_of_get? hget).2
      have hfits := (mem_walks hchild).1 (List.mem_of_head? hw)
      have hroute (ks : List Key) : child.routeAt ks = node.routeAt (v.key :: ks) := by
        rw [routeAt_cons, hget, Option.bind_some]
      have hstop : v.stop = u.stop := by
        rw [← hkey] at hspans'
        refine Fits.stop_unique hspans hspans' hfits hfits' (hstops _ ?_) (hstops _ ?_)
        · rw [← hroute, hfits.routeAt]
          rfl
        · rw [← hroute, hfits'.routeAt]
          rfl
      rw [← hstop] at hfits'
      have hbelow (ks : List Key) (hsome : (child.routeAt ks).isSome) :
          ks.IsChain Key.StopsBefore := by
        rw [hroute] at hsome
        exact (hstops _ hsome).tail
      rw [Walk.along, List.map_cons, List.map_cons, ← hkey]
      rcases ih hchild hbelow hw ((mem_walks hchild).2 hfits') with hsame | hbefore
      · exact Or.inl (by rw [hsame])
      · exact Or.inr (List.Lex.cons hbefore)

end Node

end PathRouter
