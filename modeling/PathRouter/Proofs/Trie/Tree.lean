import Mathlib.Data.List.Basic
import Mathlib.Tactic.Common
import PathRouter.Trie

/-!
The tree of a trie as two partial maps from key lists: the route that ends under the keys, and the
slot of the node they lead to. Grafting a path changes the first map at one place, and claiming
slots extends the second one by fresh slots; both keep the tree in order and without dead ends.
-/

namespace PathRouter

theorem Key.rank_literal_lt (c : Char) : (literal c).rank < 0x110000 := by
  have hc := c.valid
  simp only [UInt32.isValidChar, Nat.isValidChar] at hc
  change c.val.toNat < _
  omega

theorem Key.rank_injective {k k' : Key} (h : k.rank = k'.rank) : k = k' := by
  have hlt (c : Char) : c.toNat < 0x110000 := rank_literal_lt c
  cases k <;> cases k' <;> simp only [Key.rank] at h <;> try rfl
  case literal.literal c c' => rw [Char.toNat_inj.1 h]
  case literal.label c | literal.tailWildcard c | literal.onlyWildcard c =>
    have := hlt c
    omega
  case label.literal c | tailWildcard.literal c | onlyWildcard.literal c =>
    have := hlt c
    omega
  all_goals omega

namespace Forest

/-- The edges are in the strict order of their keys, and no branch is a dead end: every node has a
route or an edge. -/
def Proper : Forest → Prop
  | .nil => True
  | .node key _ route children siblings =>
    (∀ k ∈ siblings.keys, key.rank < k.rank) ∧ (route.isSome ∨ children ≠ .nil) ∧
      children.Proper ∧ siblings.Proper

theorem mem_keys_of_get? {edges : Forest} {key : Key} {node : Node}
    (h : edges.get? key = some node) : key ∈ edges.keys := by
  by_contra hmem
  rw [(get?_eq_none_iff edges key).2 hmem] at h
  cases h

theorem mem_keys_set {edges : Forest} {key k : Key} {new : Node} :
    k ∈ (edges.set key new).keys ↔ k = key ∨ k ∈ edges.keys := by
  have hset := get?_eq_none_iff (edges.set key new) k
  have hold := get?_eq_none_iff edges k
  rw [get?_set] at hset
  by_cases hk : k = key
  · simpa [hk] using hset
  · rw [if_neg hk] at hset
    simpa [hk] using not_iff_not.1 (hset.symm.trans hold)

theorem set_ne_nil (edges : Forest) (key : Key) (new : Node) : edges.set key new ≠ .nil := by
  cases edges with
  | nil => simp [set]
  | node k slot route children siblings =>
      simp only [set]
      split
      · simp
      · split <;> simp

end Forest

def Node.Live (node : Node) : Prop :=
  (node.route.isSome ∨ node.children ≠ .nil) ∧ node.children.Proper

namespace Forest

theorem Proper.live_of_get? {edges : Forest} (h : edges.Proper) {key : Key} {node : Node}
    (hget : edges.get? key = some node) : node.Live := by
  induction edges with
  | nil => simp at hget
  | node k slot route children siblings _ ih =>
      obtain ⟨-, hlive, hchildren, hsiblings⟩ := h
      by_cases hk : key = k
      · simp only [get?, if_pos hk, Option.some.injEq] at hget
        subst hget
        exact ⟨hlive, hchildren⟩
      · rw [get?, if_neg hk] at hget
        exact ih hsiblings hget

theorem Proper.set {edges : Forest} (h : edges.Proper) (key : Key) {new : Node} (hnew : new.Live) :
    (edges.set key new).Proper := by
  induction edges with
  | nil => exact ⟨by simp [keys], hnew.1, hnew.2, trivial⟩
  | node k slot route children siblings _ ih =>
      obtain ⟨hrank, hlive, hchildren, hsiblings⟩ := h
      simp only [Forest.set]
      split
      · next hk =>
          subst hk
          exact ⟨hrank, hnew.1, hnew.2, hsiblings⟩
      · next hk =>
          split
          · next hlt =>
              -- the new key stands before all others
              refine ⟨fun k' hk' => ?_, hnew.1, hnew.2, hrank, hlive, hchildren, hsiblings⟩
              rcases List.mem_cons.1 hk' with rfl | hmem
              · exact hlt
              · exact Nat.lt_trans hlt (hrank k' hmem)
          · next hlt =>
              -- it stands further behind, so only the siblings change
              refine ⟨fun k' hk' => ?_, hlive, hchildren, ih hsiblings⟩
              rcases mem_keys_set.1 hk' with rfl | hmem
              · have hne : k'.rank ≠ k.rank := fun e => hk (Key.rank_injective e)
                omega
              · exact hrank k' hmem

end Forest

namespace Node

/-! ### The two maps -/

def follow : Node → List Key → Option Node
  | node, [] => some node
  | node, key :: rest => (node.children.get? key).bind fun child => child.follow rest

def routeAt (node : Node) (keys : List Key) : Option Nat := (node.follow keys).bind Node.route

def slotAt (node : Node) (keys : List Key) : Option Nat := (node.follow keys).bind Node.slot

@[simp] theorem follow_nil (node : Node) : node.follow [] = some node := rfl

theorem follow_cons (node : Node) (key : Key) (rest : List Key) :
    node.follow (key :: rest) = (node.children.get? key).bind fun child => child.follow rest := rfl

@[simp] theorem routeAt_nil (node : Node) : node.routeAt [] = node.route := rfl

@[simp] theorem slotAt_nil (node : Node) : node.slotAt [] = node.slot := rfl

theorem routeAt_cons (node : Node) (key : Key) (rest : List Key) :
    node.routeAt (key :: rest) = (node.children.get? key).bind fun child => child.routeAt rest := by
  rw [routeAt, follow_cons, Option.bind_assoc]
  rfl

theorem slotAt_cons (node : Node) (key : Key) (rest : List Key) :
    node.slotAt (key :: rest) = (node.children.get? key).bind fun child => child.slotAt rest := by
  rw [slotAt, follow_cons, Option.bind_assoc]
  rfl

theorem routeAt_empty (keys : List Key) : ({} : Node).routeAt keys = none := by
  cases keys <;> rfl

theorem slotAt_empty (keys : List Key) : ({} : Node).slotAt keys = none := by
  cases keys <;> rfl

/-- Paths through a changed edge go on in the new child; all others are as before. -/
theorem routeAt_set (node child : Node) (key k : Key) (rest : List Key) :
    ({ node with children := node.children.set key child } : Node).routeAt (k :: rest) =
      if k = key then child.routeAt rest else node.routeAt (k :: rest) := by
  rw [routeAt_cons, routeAt_cons, Forest.get?_set]
  split <;> rfl

theorem slotAt_set (node child : Node) (key k : Key) (rest : List Key) :
    ({ node with children := node.children.set key child } : Node).slotAt (k :: rest) =
      if k = key then child.slotAt rest else node.slotAt (k :: rest) := by
  rw [slotAt_cons, slotAt_cons, Forest.get?_set]
  split <;> rfl

/-! ### Grafting -/

/-- A path that is admitted ends where no route ends yet. -/
theorem routeAt_of_admits {node : Node} {keys : List Key} (h : node.admits keys = true) :
    node.routeAt keys = none := by
  induction keys generalizing node with
  | nil => simpa [admits] using h
  | cons key rest ih =>
      rw [routeAt_cons]
      cases hchild : node.children.get? key with
      | none => rfl
      | some child =>
          rw [admits, hchild] at h
          exact ih h

theorem routeAt_graft (index : Nat) (node : Node) (keys ks : List Key) :
    (node.graft index keys).routeAt ks = if ks = keys then some index else node.routeAt ks := by
  induction keys generalizing node ks with
  | nil =>
      cases ks with
      | nil => rfl
      | cons k ks => simp [graft, routeAt_cons]
  | cons key rest ih =>
      cases ks with
      | nil => rfl
      | cons k ks =>
          rw [graft, routeAt_set, ih]
          by_cases hk : k = key
          · subst hk
            rw [routeAt_cons]
            cases node.children.get? k <;> simp [routeAt_empty]
          · simp [hk]

theorem slotAt_graft (index : Nat) (node : Node) (keys ks : List Key) :
    (node.graft index keys).slotAt ks = node.slotAt ks := by
  induction keys generalizing node ks with
  | nil => cases ks <;> rfl
  | cons key rest ih =>
      cases ks with
      | nil => rfl
      | cons k ks =>
          rw [graft, slotAt_set, ih]
          by_cases hk : k = key
          · subst hk
            rw [slotAt_cons, if_pos rfl]
            cases node.children.get? k <;> simp [slotAt_empty]
          · rw [if_neg hk]

theorem isSome_follow_graft (index : Nat) (node : Node) (keys : List Key) :
    ((node.graft index keys).follow keys).isSome := by
  have hroute := routeAt_graft index node keys keys
  rw [if_pos rfl, routeAt] at hroute
  cases hf : (node.graft index keys).follow keys with
  | none => simp [hf] at hroute
  | some child => rfl

theorem live_graft (index : Nat) {node : Node} (h : node.children.Proper) (keys : List Key) :
    (node.graft index keys).Live := by
  induction keys generalizing node with
  | nil => exact ⟨Or.inl rfl, h⟩
  | cons key rest ih =>
      refine ⟨Or.inr (Forest.set_ne_nil _ _ _), h.set key (ih ?_)⟩
      cases hchild : node.children.get? key with
      | none => exact trivial
      | some child => exact (h.live_of_get? hchild).2

/-! ### Claiming slots -/

/-- The second tree has the routes of the first one, and its slots with some new ones: each of them
is in the given range, and belongs to one node only. -/
structure Gains (before after : Node) (next next' : Nat) : Prop where
  le : next ≤ next'
  routes : ∀ ks, after.routeAt ks = before.routeAt ks
  kept : ∀ ks s, before.slotAt ks = some s → after.slotAt ks = some s
  fresh : ∀ ks s, before.slotAt ks = none → after.slotAt ks = some s → next ≤ s ∧ s < next'
  apart : ∀ ks ks' s, before.slotAt ks = none → before.slotAt ks' = none →
    after.slotAt ks = some s → after.slotAt ks' = some s → ks = ks'

namespace Gains

theorem refl (node : Node) (next : Nat) : Gains node node next next where
  le := Nat.le_refl next
  routes _ := rfl
  kept _ _ h := h
  fresh ks s hnone hsome := by
    rw [hnone] at hsome
    cases hsome
  apart ks ks' s hnone _ hsome _ := by
    rw [hnone] at hsome
    cases hsome

theorem old_or_fresh {before after : Node} {n n' : Nat} (h : Gains before after n n')
    {ks : List Key} {s : Nat} (hs : after.slotAt ks = some s) :
    before.slotAt ks = some s ∨ (before.slotAt ks = none ∧ n ≤ s ∧ s < n') := by
  cases hold : before.slotAt ks with
  | none => exact Or.inr ⟨rfl, h.fresh ks s hold hs⟩
  | some t => exact Or.inl ((h.kept ks t hold).symm.trans hs)

theorem trans {a b c : Node} {n n' n'' : Nat} (hab : Gains a b n n') (hbc : Gains b c n' n'') :
    Gains a c n n'' where
  le := Nat.le_trans hab.le hbc.le
  routes ks := (hbc.routes ks).trans (hab.routes ks)
  kept ks s h := hbc.kept ks s (hab.kept ks s h)
  fresh ks s hnone hs := by
    have hle := hab.le
    have hle' := hbc.le
    rcases hbc.old_or_fresh hs with hold | ⟨-, hfresh⟩
    · have hfresh := hab.fresh ks s hnone hold
      omega
    · omega
  apart ks ks' s hnone hnone' hs hs' := by
    -- the first step's slots lie below `n'` and the second one's do not, so both are of one step
    rcases hbc.old_or_fresh hs with hold | ⟨hb, hfresh⟩
    · have hlt := (hab.fresh ks s hnone hold).2
      rcases hbc.old_or_fresh hs' with hold' | ⟨-, hfresh'⟩
      · exact hab.apart ks ks' s hnone hnone' hold hold'
      · omega
    · rcases hbc.old_or_fresh hs' with hold' | ⟨hb', -⟩
      · have hlt := (hab.fresh ks' s hnone' hold').2
        omega
      · exact hbc.apart ks ks' s hb hb' hs hs'

/-- A slot that a node gains by a change of a child lies below that child. -/
theorem exists_slotAt_below {node child child' : Node} {key : Key}
    (hchild : node.children.get? key = some child) {ks : List Key} {s : Nat}
    (hnone : node.slotAt ks = none)
    (hs : ({ node with children := node.children.set key child' } : Node).slotAt ks = some s) :
    ∃ ks', ks = key :: ks' ∧ child.slotAt ks' = none ∧ child'.slotAt ks' = some s := by
  cases ks with
  | nil =>
      rw [slotAt_nil] at hnone hs
      rw [hnone] at hs
      cases hs
  | cons k ks =>
      rw [slotAt_set] at hs
      split at hs
      · next hk =>
          rw [hk, slotAt_cons, hchild] at hnone
          exact ⟨ks, by rw [hk], hnone, hs⟩
      · rw [hnone] at hs
        cases hs

/-- What a child gains, its parent gains below it. -/
theorem below {node child child' : Node} {key : Key} {n n' : Nat}
    (hchild : node.children.get? key = some child) (h : Gains child child' n n') :
    Gains node { node with children := node.children.set key child' } n n' where
  le := h.le
  routes ks := by
    cases ks with
    | nil => rfl
    | cons k ks =>
        rw [routeAt_set]
        split
        · next hk => rw [hk, h.routes, routeAt_cons, hchild, Option.bind_some]
        · rfl
  kept ks s hs := by
    cases ks with
    | nil => exact hs
    | cons k ks =>
        rw [slotAt_set]
        split
        · next hk =>
            rw [hk, slotAt_cons, hchild] at hs
            exact h.kept ks s hs
        · exact hs
  fresh ks s hnone hs := by
    obtain ⟨ks', rfl, hbelow, hbelow'⟩ := exists_slotAt_below hchild hnone hs
    exact h.fresh ks' s hbelow hbelow'
  apart ks ks' s hnone hnone' hs hs' := by
    obtain ⟨l, rfl, hl, hl'⟩ := exists_slotAt_below hchild hnone hs
    obtain ⟨m, rfl, hm, hm'⟩ := exists_slotAt_below hchild hnone' hs'
    rw [h.apart l m s hl hm hl' hm']

end Gains

/-- The slots in the tree are below a bound, and each belongs to one node only. -/
structure SlotsBelow (node : Node) (next : Nat) : Prop where
  lt : ∀ ks s, node.slotAt ks = some s → s < next
  apart : ∀ ks ks' s, node.slotAt ks = some s → node.slotAt ks' = some s → ks = ks'

theorem Gains.slotsBelow {before after : Node} {next next' : Nat}
    (h : Gains before after next next') (hbelow : before.SlotsBelow next) :
    after.SlotsBelow next' := by
  have hle := h.le
  constructor
  case lt =>
    intro ks s hs
    rcases h.old_or_fresh hs with hold | ⟨-, hfresh⟩
    · have hlt := hbelow.lt ks s hold
      omega
    · exact hfresh.2
  case apart =>
    intro ks ks' s hs hs'
    rcases h.old_or_fresh hs with hold | ⟨hb, hfresh⟩
    · have hlt := hbelow.lt ks s hold
      rcases h.old_or_fresh hs' with hold' | ⟨-, hfresh'⟩
      · exact hbelow.apart ks ks' s hold hold'
      · omega
    · rcases h.old_or_fresh hs' with hold' | ⟨hb', -⟩
      · have hlt := hbelow.lt ks' s hold'
        omega
      · exact h.apart ks ks' s hb hb' hs hs'

@[simp] theorem route_claimSlot (node : Node) (step : Step) (next : Nat) :
    (node.claimSlot step next).1.route = node.route := by
  rw [claimSlot]
  split <;> rfl

@[simp] theorem children_claimSlot (node : Node) (step : Step) (next : Nat) :
    (node.claimSlot step next).1.children = node.children := by
  rw [claimSlot]
  split <;> rfl

theorem isSome_slot_claimSlot {node : Node} {step : Step} (h : step.name?.isSome) (next : Nat) :
    (node.claimSlot step next).1.slot.isSome := by
  rw [claimSlot]
  cases hslot : node.slot <;> simp [h, hslot]

/-- The only slot that is claimed for a step is that of the node it leads to, and for a name. -/
theorem eq_nil_of_slotAt_claimSlot {node : Node} {step : Step} {next : Nat} {ks : List Key}
    {s : Nat} (hnone : node.slotAt ks = none)
    (hs : (node.claimSlot step next).1.slotAt ks = some s) :
    ks = [] ∧ s = next ∧ step.name?.isSome := by
  rw [claimSlot] at hs
  split at hs
  · next h =>
      rw [Bool.and_eq_true] at h
      cases ks with
      | nil => exact ⟨rfl, (Option.some.inj hs).symm, h.1⟩
      | cons k ks =>
          have hold : node.slotAt (k :: ks) = some s := hs
          rw [hold] at hnone
          cases hnone
  · rw [hnone] at hs
    cases hs

theorem gains_claimSlot (node : Node) (step : Step) (next : Nat) :
    Gains node (node.claimSlot step next).1 next (node.claimSlot step next).2 := by
  constructor
  case le =>
    rw [claimSlot]
    split
    · exact Nat.le_succ next
    · exact Nat.le_refl next
  case routes =>
    intro ks
    cases ks with
    | nil => simp
    | cons k ks => rw [routeAt_cons, routeAt_cons, children_claimSlot]
  case kept =>
    intro ks s hs
    cases ks with
    | nil =>
        rw [slotAt_nil] at hs
        simp [claimSlot, hs]
    | cons k ks =>
        rw [slotAt_cons, children_claimSlot, ← slotAt_cons]
        exact hs
  case fresh =>
    intro ks s hnone hs
    obtain ⟨rfl, rfl, hname⟩ := eq_nil_of_slotAt_claimSlot hnone hs
    rw [slotAt_nil] at hnone
    simp [claimSlot, hname, hnone]
  case apart =>
    intro ks ks' s hnone hnone' hs hs'
    rw [(eq_nil_of_slotAt_claimSlot hnone hs).1, (eq_nil_of_slotAt_claimSlot hnone' hs').1]

theorem gains_claimSlots (node : Node) (steps : List Step) (next : Nat) :
    Gains node (node.claimSlots steps next).1 next (node.claimSlots steps next).2 := by
  induction steps generalizing node next with
  | nil => exact Gains.refl node next
  | cons step rest ih =>
      rw [claimSlots]
      cases hchild : node.children.get? step.key with
      | none => exact Gains.refl node next
      | some child => exact Gains.below hchild ((gains_claimSlot child step next).trans (ih _ _))

theorem proper_claimSlots {node : Node} (h : node.children.Proper) (steps : List Step)
    (next : Nat) : (node.claimSlots steps next).1.children.Proper ∧
      (node.Live → (node.claimSlots steps next).1.Live) := by
  induction steps generalizing node next with
  | nil => exact ⟨h, id⟩
  | cons step rest ih =>
      rw [claimSlots]
      cases hchild : node.children.get? step.key with
      | none => exact ⟨h, id⟩
      | some child =>
          have hlive := h.live_of_get? hchild
          have hclaimed : (child.claimSlot step next).1.Live := by
            rw [Live, route_claimSlot, children_claimSlot]
            exact hlive
          have hset := h.set step.key ((ih hclaimed.2 (child.claimSlot step next).2).2 hclaimed)
          exact ⟨hset, fun _ => ⟨Or.inr (Forest.set_ne_nil _ _ _), hset⟩⟩

/-! ### Bindings -/

def Slotted (slotAt : List Key → Option Nat) : List Step → Prop
  | [] => True
  | step :: rest =>
    (step.name?.isSome → (slotAt [step.key]).isSome) ∧
      Slotted (fun ks => slotAt (step.key :: ks)) rest

def namesWith (slotAt : List Key → Option Nat) : List Step → List (List Char × Nat)
  | [] => []
  | step :: rest =>
    (step.name?.bind fun name => (slotAt [step.key]).map (name, ·)).toList ++
      namesWith (fun ks => slotAt (step.key :: ks)) rest

theorem namesWith_none (steps : List Step) : namesWith (fun _ => none) steps = [] := by
  induction steps with
  | nil => rfl
  | cons step rest ih => cases h : step.name? <;> simp [namesWith, ih, h]

theorem exists_of_mem_namesWith {slotAt : List Key → Option Nat} {steps : List Step}
    {pair : List Char × Nat} (h : pair ∈ namesWith slotAt steps) :
    ∃ key ks, slotAt (key :: ks) = some pair.2 := by
  induction steps generalizing slotAt with
  | nil => cases h
  | cons step rest ih =>
      rcases List.mem_append.1 h with hown | hrest
      · obtain ⟨name, -, hname⟩ := Option.bind_eq_some_iff.1 (Option.mem_toList.1 hown)
        obtain ⟨slot, hslot, rfl⟩ := Option.map_eq_some_iff.1 hname
        exact ⟨step.key, [], hslot⟩
      · obtain ⟨key, ks, hslot⟩ := ih hrest
        exact ⟨step.key, key :: ks, hslot⟩

theorem bindings_eq_namesWith (node : Node) (steps : List Step) :
    node.bindings steps = namesWith node.slotAt steps := by
  induction steps generalizing node with
  | nil => rfl
  | cons step rest ih =>
      simp only [bindings, namesWith, slotAt_cons]
      cases hchild : node.children.get? step.key with
      | none => cases h : step.name? <;> simp [namesWith_none]
      | some child => simp [ih]

/-- A path with all its slots keeps them, and so its bindings, when slots are gained. -/
theorem Slotted.mono {f g : List Key → Option Nat} (hfg : ∀ ks s, f ks = some s → g ks = some s)
    {steps : List Step} (h : Slotted f steps) :
    Slotted g steps ∧ namesWith g steps = namesWith f steps := by
  induction steps generalizing f g with
  | nil => exact ⟨trivial, rfl⟩
  | cons step rest ih =>
      obtain ⟨hslot, hrest⟩ := h
      obtain ⟨ihs, ihn⟩ := ih (fun ks s => hfg (step.key :: ks) s) hrest
      cases hname : step.name? with
      | none => exact ⟨⟨by simp [hname], ihs⟩, by simp [namesWith, hname, ihn]⟩
      | some name =>
          obtain ⟨s, hs⟩ := Option.isSome_iff_exists.1 (hslot (by simp [hname]))
          have hs' := hfg _ _ hs
          exact ⟨⟨by simp [hs'], ihs⟩, by simp [namesWith, hname, hs, hs', ihn]⟩

/-- Along a path that is in the tree, all named steps get slots. -/
theorem slotted_claimSlots {node : Node} {steps : List Step}
    (h : (node.follow (steps.map Step.key)).isSome) (next : Nat) :
    Slotted (node.claimSlots steps next).1.slotAt steps := by
  induction steps generalizing node next with
  | nil => trivial
  | cons step rest ih =>
      rw [List.map_cons, follow_cons] at h
      cases hchild : node.children.get? step.key with
      | none => simp [hchild] at h
      | some child =>
          rw [hchild, Option.bind_some] at h
          have hfollow : ((child.claimSlot step next).1.follow (rest.map Step.key)).isSome := by
            cases hrest : rest.map Step.key with
            | nil => rfl
            | cons k ks =>
                rw [hrest, follow_cons] at h
                rw [follow_cons, children_claimSlot]
                exact h
          have hgains := gains_claimSlots (child.claimSlot step next).1 rest
            (child.claimSlot step next).2
          rw [claimSlots, hchild]
          simp only [Slotted, slotAt_set, if_true]
          refine ⟨fun hname => ?_, ih hfollow _⟩
          -- the slot of the child itself is claimed before the rest of the path, which keeps it
          have hclaimed : (child.claimSlot step next).1.slot.isSome :=
            isSome_slot_claimSlot hname next
          obtain ⟨s, hs⟩ := Option.isSome_iff_exists.1 hclaimed
          rw [hgains.kept [] s hs]
          rfl

end Node

end PathRouter
