import Mathlib.Data.List.Forall2
import PathRouter.Proofs.Path.Reading
import PathRouter.Proofs.Trie.Composite

/-!
What the walks of a text are. A walk fits a node if it goes along the edges that are there, and its
keys read the text piece by piece. So walks are the same as readings of the text by the key lists
that lead to a route, and the slots on the way bind what the parameters of a path read.
-/

namespace PathRouter

/-! ### Keys -/

def Key.Reads : Key → List Char → Prop
  | .literal c, piece => piece = [c]
  | .label, piece => piece ≠ [] ∧ '/' ∉ piece
  | .tailWildcard, piece => piece = [] ∨ ∃ rest, piece = '/' :: rest ∧ '\n' ∉ rest
  | .onlyWildcard, piece => '\n' ∉ piece

theorem Token.reads_step {token : Token} {atEnd : Bool} {piece : List Char} :
    (token.step atEnd).key.Reads piece ↔ token.Reads atEnd piece := by
  cases token <;> cases atEnd <;> rfl

theorem reading_iff_forall₂ {tokens : List Token} {pieces : List (List Char)} :
    Reading tokens pieces ↔ List.Forall₂ Key.Reads ((stepsOf tokens).map Step.key) pieces := by
  induction tokens generalizing pieces with
  | nil => cases pieces <;> simp [Reading, stepsOf]
  | cons token tokens ih =>
      cases pieces with
      | nil => simp [Reading, stepsOf]
      | cons piece pieces =>
          rw [Reading, stepsOf, List.map_cons, List.forall₂_cons, Token.reads_step, ih]

def Key.ReadAll (keys : List Key) (text : List Char) : Prop :=
  ∃ pieces, List.Forall₂ Key.Reads keys pieces ∧ pieces.flatten = text

theorem Path.matches_iff {path : Path} {text : List Char} :
    path.Matches text ↔ Key.ReadAll path.keys text := by
  unfold Matches Key.ReadAll
  simp only [reading_iff_forall₂]
  exact Iff.rfl

namespace Key

theorem readAll_nil {text : List Char} : ReadAll [] text ↔ text = [] := by
  simp [ReadAll, eq_comm]

theorem readAll_cons {key : Key} {keys : List Key} {text : List Char} :
    ReadAll (key :: keys) text ↔
      ∃ piece rest, key.Reads piece ∧ ReadAll keys rest ∧ text = piece ++ rest := by
  constructor
  · rintro ⟨pieces, hall, rfl⟩
    obtain ⟨piece, rest, hpiece, hrest, rfl⟩ := List.forall₂_cons_left_iff.1 hall
    exact ⟨piece, rest.flatten, hpiece, ⟨rest, hrest, rfl⟩, List.flatten_cons⟩
  · rintro ⟨piece, _, hpiece, ⟨rest, hrest, rfl⟩, rfl⟩
    exact ⟨piece :: rest, List.Forall₂.cons hpiece hrest, List.flatten_cons⟩

theorem readAll_singleton {key : Key} {text : List Char} :
    ReadAll [key] text ↔ key.Reads text := by
  rw [readAll_cons]
  simp [readAll_nil]

theorem readAll_append {front back : List Key} {text : List Char} :
    ReadAll (front ++ back) text ↔
      ∃ before after, ReadAll front before ∧ ReadAll back after ∧ text = before ++ after := by
  induction front generalizing text with
  | nil => simp [readAll_nil]
  | cons key front ih =>
      rw [List.cons_append, readAll_cons]
      constructor
      · rintro ⟨piece, rest, hpiece, hrest, rfl⟩
        obtain ⟨before, after, hbefore, hafter, rfl⟩ := ih.1 hrest
        refine ⟨piece ++ before, after, ?_, hafter, (List.append_assoc ..).symm⟩
        exact readAll_cons.2 ⟨piece, before, hpiece, hbefore, rfl⟩
      · rintro ⟨_, after, hfront, hafter, rfl⟩
        obtain ⟨piece, before, hpiece, hbefore, rfl⟩ := readAll_cons.1 hfront
        refine ⟨piece, before ++ after, hpiece, ?_, List.append_assoc ..⟩
        exact ih.2 ⟨before, after, hbefore, hafter, rfl⟩

theorem readAll_literals {path : Path} {text : List Char} :
    ReadAll (path.map literal) text ↔ text = path := by
  induction path generalizing text with
  | nil => exact readAll_nil
  | cons c path ih =>
      rw [List.map_cons, readAll_cons]
      simp [Reads, ih]

theorem readAll_literals_append {path : Path} {key : Key} {text : List Char} :
    ReadAll (path.map literal ++ [key]) text ↔ ∃ rest, text = path ++ rest ∧ key.Reads rest := by
  rw [readAll_append]
  simp only [readAll_literals, readAll_singleton]
  constructor
  · rintro ⟨_, rest, rfl, hrest, htext⟩
    exact ⟨rest, htext, hrest⟩
  · rintro ⟨rest, htext, hrest⟩
    exact ⟨path, rest, rfl, hrest, htext⟩

end Key

namespace Pattern

theorem eq_singleton_slice {text : List Char} {i j : Nat} {c : Char} :
    text[i]? = some c ∧ j = i + 1 ↔ i ≤ j ∧ j ≤ text.length ∧ slice text i j = [c] := by
  constructor
  · rintro ⟨h, rfl⟩
    obtain ⟨hlt, -⟩ := List.getElem?_eq_some_iff.1 h
    exact ⟨by omega, hlt, by rw [slice_succ h (by omega), slice_self]⟩
  · rintro ⟨hij, hj, h⟩
    have hlen := length_slice (i := i) hj
    rw [h, List.length_singleton] at hlen
    obtain ⟨d, hd⟩ : ∃ d, text[i]? = some d := ⟨text[i], List.getElem?_eq_getElem (by omega)⟩
    rw [slice_succ hd (by omega)] at h
    exact ⟨by rw [hd, (List.cons.inj h).1], by omega⟩

end Pattern

open Pattern (slice)

/-- A key spans the stretches of text that it may read. -/
theorem Key.spans_pattern {key : Key} {text : List Char} {i j : Nat} (hi : i ≤ text.length) :
    key.pattern.Spans text i j ↔ i ≤ j ∧ j ≤ text.length ∧ key.Reads (slice text i j) := by
  cases key with
  | literal c => rw [pattern, Pattern.spans_char, Pattern.eq_singleton_slice, Reads]
  | label =>
      rw [pattern, Pattern.spans_segment, Reads]
      constructor
      · rintro ⟨hij, hj, hmem⟩
        refine ⟨by omega, hj, fun hnil => ?_, hmem⟩
        have hlen := Pattern.length_slice (i := i) hj
        rw [hnil, List.length_nil] at hlen
        omega
      · rintro ⟨hij, hj, hne, hmem⟩
        refine ⟨Nat.lt_of_le_of_ne hij fun e => hne ?_, hj, hmem⟩
        rw [e, Pattern.slice_self]
  | tailWildcard =>
      rw [pattern, Pattern.spans_tail, Reads]
      constructor
      · rintro (rfl | ⟨hc, hrun⟩)
        · exact ⟨Nat.le_refl _, hi, Or.inl (Pattern.slice_self text j)⟩
        · obtain ⟨hlt, -⟩ := List.getElem?_eq_some_iff.1 hc
          obtain ⟨hij, hj, hmem⟩ := (Pattern.spans_anyRun hlt).1 hrun
          exact ⟨by omega, hj, Or.inr ⟨_, Pattern.slice_succ hc (by omega), hmem⟩⟩
      · rintro ⟨hij, hj, hnil | ⟨rest, hcons, hmem⟩⟩
        · have hlen := Pattern.length_slice (i := i) hj
          rw [hnil, List.length_nil] at hlen
          exact Or.inl (by omega)
        · have hlen := Pattern.length_slice (i := i) hj
          rw [hcons, List.length_cons] at hlen
          obtain ⟨d, hd⟩ : ∃ d, text[i]? = some d := ⟨text[i], List.getElem?_eq_getElem (by omega)⟩
          rw [Pattern.slice_succ hd (by omega)] at hcons
          obtain ⟨rfl, rfl⟩ := List.cons.inj hcons
          exact Or.inr ⟨hd, (Pattern.spans_anyRun (by omega)).2 ⟨by omega, hj, hmem⟩⟩
  | onlyWildcard => exact Pattern.spans_anyRun hi

/-! ### Fitting walks -/

/-- The visits go along edges below the node, from the position to the end of the text, and lead to
a node with the route. -/
def Node.Fits (text : List Char) : Node → Nat → List Visit → Nat → Prop
  | node, i, [], r => i = text.length ∧ node.route = some r
  | node, i, v :: vs, r =>
    ∃ child, node.children.get? v.key = some child ∧ v.slot = child.slot ∧ v.start = i ∧
      v.key.pattern.Spans text i v.stop ∧ child.Fits text v.stop vs r

theorem Walk.mem_ending {text : List Char} {route : Option Nat} {i : Nat} {w : Walk} :
    w ∈ Walk.ending text route i ↔ i = text.length ∧ route = some w.route ∧ w.visits = [] := by
  obtain ⟨visits, r⟩ := w
  rw [ending]
  split
  · next hi => cases route <;> simp [hi, and_comm, eq_comm]
  · next hi => simp [hi]

/-- A walk through a proper forest is an edge that is there, and a walk from the node behind it. -/
theorem Forest.mem_walks {edges : Forest} (h : edges.Proper) {text : List Char} {i : Nat}
    {w : Walk} : w ∈ edges.walks text i ↔
      ∃ v w' child, w = Walk.along v w' ∧ edges.get? v.key = some child ∧ v.slot = child.slot ∧
        v.start = i ∧ v.key.pattern.Spans text i v.stop ∧ w' ∈ child.walks text v.stop := by
  induction edges with
  | nil => simp [walks]
  | node key slot route children siblings _ ihs =>
      rw [walks, List.mem_append, ihs h.2.2.2]
      constructor
      · rintro (hfirst | ⟨v, w', child, rfl, hget, hrest⟩)
        · obtain ⟨o, ho, hw⟩ := List.mem_flatMap.1 hfirst
          obtain ⟨w', hw', rfl⟩ := List.mem_map.1 hw
          exact ⟨_, w', ⟨slot, route, children⟩, rfl, by rw [get?, if_pos rfl], rfl, rfl,
            ⟨o.2, ho⟩, hw'⟩
        · exact ⟨v, w', child, rfl, (get?_siblings h hget).2, hrest⟩
      · rintro ⟨v, w', child, rfl, hget, hslot, hstart, hspans, hw'⟩
        by_cases hk : v.key = key
        · rw [get?, if_pos hk, Option.some.injEq] at hget
          subst hget
          obtain ⟨k, s, start, stop⟩ := v
          simp only at hk hslot hstart hw'
          subst hk hslot hstart
          obtain ⟨marks, ho⟩ := hspans
          exact Or.inl (List.mem_flatMap.2 ⟨_, ho, List.mem_map.2 ⟨w', hw', rfl⟩⟩)
        · rw [get?, if_neg hk] at hget
          exact Or.inr ⟨v, w', child, rfl, hget, hslot, hstart, hspans, hw'⟩

/-- The walks from a node are those that fit it. -/
theorem Node.mem_walks {node : Node} (h : node.children.Proper) {text : List Char} {i : Nat}
    {w : Walk} : w ∈ node.walks text i ↔ node.Fits text i w.visits w.route := by
  obtain ⟨visits, r⟩ := w
  induction visits generalizing node i with
  | nil =>
      rw [walks, List.mem_append, Walk.mem_ending, Forest.mem_walks h, Fits]
      constructor
      · rintro (⟨hi, hroute, -⟩ | ⟨v, w', child, hw, -⟩)
        · exact ⟨hi, hroute⟩
        · simp [Walk.along] at hw
      · rintro ⟨hi, hroute⟩
        exact Or.inl ⟨hi, hroute, rfl⟩
  | cons v vs ih =>
      rw [walks, List.mem_append, Walk.mem_ending, Forest.mem_walks h, Fits]
      constructor
      · rintro (⟨-, -, hnil⟩ | ⟨v', ⟨vs', r'⟩, child, hw, hget, hslot, hstart, hspans, hw'⟩)
        · simp at hnil
        · simp only [Walk.along, Walk.mk.injEq, List.cons.injEq] at hw
          obtain ⟨⟨rfl, rfl⟩, rfl⟩ := hw
          exact ⟨child, hget, hslot, hstart, hspans, (ih (h.live_of_get? hget).2).1 hw'⟩
      · rintro ⟨child, hget, hslot, hstart, hspans, hfits⟩
        exact Or.inr ⟨v, ⟨vs, r⟩, child, rfl, hget, hslot, hstart, hspans,
          (ih (h.live_of_get? hget).2).2 hfits⟩

def piecesOf (text : List Char) (vs : List Visit) : List (List Char) :=
  vs.map fun v => slice text v.start v.stop

namespace Node

variable {text : List Char}

theorem Fits.routeAt {node : Node} {i : Nat} {vs : List Visit} {r : Nat}
    (h : node.Fits text i vs r) : node.routeAt (vs.map Visit.key) = some r := by
  induction vs generalizing node i with
  | nil => exact h.2
  | cons v vs ih =>
      obtain ⟨child, hget, -, -, -, hfits⟩ := h
      rw [List.map_cons, routeAt_cons, hget]
      exact ih hfits

theorem Fits.reads {node : Node} {i : Nat} {vs : List Visit} {r : Nat} (hi : i ≤ text.length)
    (h : node.Fits text i vs r) :
    List.Forall₂ Key.Reads (vs.map Visit.key) (piecesOf text vs) ∧
      (piecesOf text vs).flatten = text.drop i := by
  induction vs generalizing node i with
  | nil =>
      obtain ⟨rfl, -⟩ := h
      simp [piecesOf]
  | cons v vs ih =>
      obtain ⟨child, -, -, rfl, hspans, hfits⟩ := h
      obtain ⟨hle, hstop, hreads⟩ := (Key.spans_pattern hi).1 hspans
      obtain ⟨hall, hflat⟩ := ih hstop hfits
      refine ⟨List.Forall₂.cons hreads hall, ?_⟩
      rw [piecesOf, List.map_cons, List.flatten_cons, ← piecesOf, hflat, ← Pattern.slice_to_end,
        ← Pattern.slice_to_end, Pattern.slice_append hle hstop]

/-- Keys that lead to a route and read the rest of the text give a fitting walk. -/
theorem exists_fits {node : Node} {i : Nat} {keys : List Key} {pieces : List (List Char)} {r : Nat}
    (hi : i ≤ text.length) (hroute : node.routeAt keys = some r)
    (hreads : List.Forall₂ Key.Reads keys pieces) (hflat : text.drop i = pieces.flatten) :
    ∃ vs, vs.map Visit.key = keys ∧ node.Fits text i vs r := by
  induction hreads generalizing node i with
  | nil =>
      rw [List.flatten_nil, List.drop_eq_nil_iff] at hflat
      exact ⟨[], rfl, by omega, hroute⟩
  | @cons key piece keys pieces hpiece _ ih =>
      rw [List.flatten_cons] at hflat
      rw [routeAt_cons] at hroute
      cases hget : node.children.get? key with
      | none => simp [hget] at hroute
      | some child =>
          rw [hget, Option.bind_some] at hroute
          have hlen := congrArg List.length hflat
          rw [List.length_drop, List.length_append] at hlen
          have hstop : i + piece.length ≤ text.length := by omega
          have hspans : key.pattern.Spans text i (i + piece.length) := by
            rw [Key.spans_pattern hi, Pattern.slice_of_drop_eq hflat]
            exact ⟨by omega, hstop, hpiece⟩
          obtain ⟨vs, hkeys, hfits⟩ := ih hstop hroute (Pattern.drop_of_drop_eq hflat)
          exact ⟨⟨key, child.slot, i, i + piece.length⟩ :: vs, by rw [List.map_cons, hkeys],
            child, hget, rfl, rfl, hspans, hfits⟩

/-- What the parameters of a path read on a fitting walk stands under the slots of its names. -/
theorem Fits.boundBy_eq {node : Node} {i : Nat} {vs : List Visit} {r : Nat}
    (h : node.Fits text i vs r) {tokens : List Token}
    (hkeys : vs.map Visit.key = (stepsOf tokens).map Step.key)
    (hslotted : Slotted node.slotAt (stepsOf tokens)) {value : Nat → Option (List Char)}
    (hvalue : ∀ v ∈ vs, ∀ s, v.slot = some s → value s = some (slice text v.start v.stop)) :
    (namesWith node.slotAt (stepsOf tokens)).filterMap
        (fun pair => (value pair.2).map fun piece => (pair.1, piece)) =
      boundBy tokens (piecesOf text vs) := by
  induction tokens generalizing node i vs with
  | nil =>
      obtain rfl : vs = [] := by simpa [stepsOf] using hkeys
      rfl
  | cons token tokens ih =>
      cases vs with
      | nil => simp [stepsOf] at hkeys
      | cons v vs =>
          obtain ⟨child, hget, hslot, -, -, hfits⟩ := h
          rw [stepsOf, List.map_cons, List.map_cons, List.cons.injEq] at hkeys
          obtain ⟨hkey, hkeys⟩ := hkeys
          obtain ⟨hnamed, hslotted⟩ := hslotted
          -- below the first key, the slots are those of the child that the walk goes to
          have hchild : (fun ks => node.slotAt ((token.step tokens.isEmpty).key :: ks)) =
              child.slotAt := by
            funext ks
            rw [slotAt_cons, ← hkey, hget, Option.bind_some]
          have hfirst : node.slotAt [(token.step tokens.isEmpty).key] = v.slot := by
            rw [hslot]
            exact congrFun hchild []
          rw [hchild] at hslotted
          rw [hfirst] at hnamed
          have hrest := ih hfits hkeys hslotted fun u hu => hvalue u (List.mem_cons_of_mem v hu)
          rw [stepsOf, namesWith, hchild, hfirst, List.filterMap_append, hrest]
          cases token with
          | param name =>
              obtain ⟨s, hs⟩ := Option.isSome_iff_exists.1 (hnamed rfl)
              simp [Token.step, hs, hvalue v List.mem_cons_self s hs, boundBy, piecesOf]
          | char c => rfl
          | star => rfl
          | tailStar => rfl

end Node

end PathRouter
