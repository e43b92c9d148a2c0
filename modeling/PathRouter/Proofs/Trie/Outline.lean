import PathRouter.Proofs.Trie.Conflicts
import PathRouter.Proofs.Trie.Fits

/-!
What of a trie a text can tell. The numbers in a trie are due to the order in which its paths were
merged: the indices of the routes, and the slots, which also depend on the names. The outline is
what is left without them, the edges and the ends of the routes. The key lists that end in a route
determine it, as siblings are in the order of their keys and no branch is a dead end; and it in turn
determines the walks, up to the numbers on them.
-/

namespace PathRouter

/-! ### Outlines and their walks -/

/-- The forest without its slots, and with one index for all routes. -/
def Forest.outline : Forest → Forest
  | .nil => .nil
  | .node key _ route children siblings =>
    .node key none (route.map fun _ => 0) children.outline siblings.outline

def Node.outline (node : Node) : Node where
  route := node.route.map fun _ => 0
  children := node.children.outline

def Visit.outline (v : Visit) : Visit := { v with slot := none }

def Walk.outline (w : Walk) : Walk := ⟨w.visits.map Visit.outline, 0⟩

theorem Walk.ending_outline (text : List Char) (route : Option Nat) (i : Nat) :
    ending text (route.map fun _ => 0) i = (ending text route i).map outline := by
  rw [ending, ending]
  split
  · cases route <;> rfl
  · rfl

theorem Forest.walks_outline (edges : Forest) (text : List Char) (i : Nat) :
    edges.outline.walks text i = (edges.walks text i).map Walk.outline := by
  induction edges generalizing i with
  | nil => rfl
  | node key slot route children siblings ihc ihs =>
      rw [outline, walks, walks, List.map_append, ihs, List.map_flatMap]
      congr 1
      refine List.flatMap_congr fun o _ => ?_
      rw [Walk.ending_outline, ihc, ← List.map_append, List.map_map, List.map_map]
      rfl

theorem Node.walks_outline (node : Node) (text : List Char) (i : Nat) :
    node.outline.walks text i = (node.walks text i).map Walk.outline := by
  rw [walks, walks, List.map_append, ← Walk.ending_outline, ← Forest.walks_outline]
  rfl

theorem Walk.keys_outline (w : Walk) :
    w.outline.visits.map Visit.key = w.visits.map Visit.key :=
  List.map_map

theorem piecesOf_outline (text : List Char) (w : Walk) :
    piecesOf text w.outline.visits = piecesOf text w.visits :=
  List.map_map

/-! ### The same ends -/

/-- The same key lists lead to a route, through an edge of the one forest or of the other. -/
def Forest.SameEnds (edges edges' : Forest) : Prop :=
  ∀ key ks, ((edges.get? key).bind fun child => child.routeAt ks).isSome =
    ((edges'.get? key).bind fun child => child.routeAt ks).isSome

def Node.SameEnds (node node' : Node) : Prop :=
  ∀ ks, (node.routeAt ks).isSome = (node'.routeAt ks).isSome

theorem Node.SameEnds.children {node node' : Node} (h : node.SameEnds node') :
    node.children.SameEnds node'.children := by
  intro key ks
  rw [← routeAt_cons, ← routeAt_cons]
  exact h (key :: ks)

theorem route_outline_eq {route route' : Option Nat} (h : route.isSome = route'.isSome) :
    (route.map fun _ => 0) = route'.map fun _ => 0 := by
  cases route with
  | none => rw [Option.isNone_iff_eq_none.1 (Option.isSome_eq_false_iff.1 h.symm)]
  | some r =>
      obtain ⟨r', rfl⟩ := Option.isSome_iff_exists.1 h.symm
      rfl

namespace Forest

variable {edges edges' : Forest}

theorem SameEnds.symm (h : edges.SameEnds edges') : edges'.SameEnds edges :=
  fun key ks => (h key ks).symm

/-- There are routes behind every edge, so the other forest has it, too. -/
theorem SameEnds.mem_keys (h : edges.SameEnds edges') (hproper : edges.Proper) {key : Key}
    (hkey : key ∈ edges.keys) : key ∈ edges'.keys := by
  cases hget : edges.get? key with
  | none => exact absurd hkey ((get?_eq_none_iff edges key).1 hget)
  | some child =>
      obtain ⟨ks, hroute⟩ := (hproper.live_of_get? hget).exists_route
      have hends := h key ks
      rw [hget, Option.bind_some, hroute] at hends
      cases hget' : edges'.get? key with
      | none =>
          rw [hget'] at hends
          cases hends
      | some child' => exact mem_keys_of_get? hget'

variable {key key' : Key} {slot slot' route route' : Option Nat}
  {children children' siblings siblings' : Forest}

/-- The first key is the least one, so forests with the same ends start with the same key. -/
theorem SameEnds.rank_le
    (h : (node key slot route children siblings).SameEnds
      (node key' slot' route' children' siblings'))
    (hproper : (node key slot route children siblings).Proper)
    (hproper' : (node key' slot' route' children' siblings').Proper) : key'.rank ≤ key.rank := by
  rcases List.mem_cons.1 (h.mem_keys hproper List.mem_cons_self) with rfl | hmem
  · exact Nat.le_refl _
  · exact Nat.le_of_lt (hproper'.1 key hmem)

theorem SameEnds.first
    (h : (node key slot route children siblings).SameEnds
      (node key slot' route' children' siblings')) :
    Node.SameEnds ⟨slot, route, children⟩ ⟨slot', route', children'⟩ := by
  intro ks
  have hends := h key ks
  rwa [get?, get?, if_pos rfl, if_pos rfl] at hends

theorem SameEnds.rest
    (h : (node key slot route children siblings).SameEnds
      (node key slot' route' children' siblings'))
    (hproper : (node key slot route children siblings).Proper)
    (hproper' : (node key slot' route' children' siblings').Proper) :
    siblings.SameEnds siblings' := by
  intro k ks
  by_cases hk : k = key
  · -- the first key stands among no siblings
    have hnone {edges : Forest} (hrank : ∀ k ∈ edges.keys, key.rank < k.rank) :
        edges.get? k = none :=
      (get?_eq_none_iff edges k).2 fun hmem => Nat.lt_irrefl _ (hk ▸ hrank k hmem)
    rw [hnone hproper.1, hnone hproper'.1]
  · have hends := h k ks
    rwa [get?, get?, if_neg hk, if_neg hk] at hends

/-- The ends of the routes determine the outline. -/
theorem outline_eq_of_sameEnds (hproper : edges.Proper) (hproper' : edges'.Proper)
    (h : edges.SameEnds edges') : edges.outline = edges'.outline := by
  induction edges generalizing edges' with
  | nil =>
      cases edges' with
      | nil => rfl
      | node => cases h.symm.mem_keys hproper' List.mem_cons_self
  | node key slot route children siblings ihc ihs =>
      cases edges' with
      | nil => cases h.mem_keys hproper List.mem_cons_self
      | node key' slot' route' children' siblings' =>
          obtain rfl : key = key' := Key.rank_injective
            (Nat.le_antisymm (h.symm.rank_le hproper' hproper) (h.rank_le hproper hproper'))
          have hroute : (route.map fun _ => 0) = route'.map fun _ => 0 :=
            route_outline_eq (h.first [])
          have hchildren := ihc hproper.2.2.1 hproper'.2.2.1 h.first.children
          have hsiblings := ihs hproper.2.2.2 hproper'.2.2.2 (h.rest hproper hproper')
          rw [outline, outline, hroute, hchildren, hsiblings]

end Forest

/-- Texts have the same walks from nodes with the same ends, but for the numbers on them. -/
theorem Node.SameEnds.walks {node node' : Node} (h : node.SameEnds node')
    (hproper : node.children.Proper) (hproper' : node'.children.Proper) (text : List Char)
    (i : Nat) :
    (node.walks text i).map Walk.outline = (node'.walks text i).map Walk.outline := by
  have hroute : (node.route.map fun _ => 0) = node'.route.map fun _ => 0 :=
    route_outline_eq (h [])
  rw [← walks_outline, ← walks_outline, outline, outline, hroute,
    Forest.outline_eq_of_sameEnds hproper hproper' h.children]

end PathRouter
