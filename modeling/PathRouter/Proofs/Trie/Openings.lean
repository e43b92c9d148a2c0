import PathRouter.Proofs.Trie.Text

/-!
What the capturing brackets in the text of a trie open. Each belongs to the group in its place: it
stands behind the end of a route and is empty, or it is around a label. Slots are only ever given to
nodes that labels lead to, so there is no other kind.
-/

namespace PathRouter

open Pattern (Lexeme)

def Group.OpensBetween : Group → List Lexeme → List Lexeme → Prop
  | .route _, front, back => front.getLast? = some .stop ∧ back.head? = some .close
  | .slot _, _, back => ∃ rest, back = .segment :: .close :: rest

theorem Group.OpensBetween.extend {g : Group} {front back : List Lexeme}
    (h : g.OpensBetween front back) (before after : List Lexeme) :
    g.OpensBetween (before ++ front) (back ++ after) := by
  cases g with
  | route index =>
      obtain ⟨hfront, hback⟩ := h
      exact ⟨by simp [List.getLast?_append, hfront], by simp [List.head?_append, hback]⟩
  | slot index =>
      obtain ⟨rest, rfl⟩ := h
      exact ⟨rest ++ after, rfl⟩

/-- The capturing brackets among the lexemes are those of the groups, one after the other. -/
structure Opens (groups : List Group) (lexemes : List Lexeme) : Prop where
  count : lexemes.count .capture = groups.length
  opens : ∀ front back, lexemes = front ++ .capture :: back →
    ∃ g, groups[front.count .capture]? = some g ∧ g.OpensBetween front back

namespace Opens

variable {gs gs' : List Group} {ls ls' : List Lexeme}

theorem of_not_mem (h : Lexeme.capture ∉ ls) : Opens [] ls where
  count := List.count_eq_zero.2 h
  opens front back hls := absurd (hls ▸ by simp) h

theorem route (index : Nat) : Opens [.route index] [.stop, .capture, .close] where
  count := rfl
  opens front back hls := by
    rcases front with _ | ⟨a, _ | ⟨b, front⟩⟩
    · simp at hls
    · obtain ⟨rfl, -, rfl⟩ : Lexeme.stop = a ∧ _ := by simpa using hls
      exact ⟨_, rfl, rfl, rfl⟩
    · rcases front with _ | ⟨c, front⟩ <;> simp at hls

theorem slot (index : Nat) : Opens [.slot index] [.capture, .segment, .close] where
  count := rfl
  opens front back hls := by
    rcases front with _ | ⟨a, front⟩
    · obtain rfl : _ = back := by simpa using hls
      exact ⟨_, rfl, _, rfl⟩
    · rcases front with _ | ⟨b, _ | ⟨c, front⟩⟩ <;> simp at hls

theorem append (h : Opens gs ls) (h' : Opens gs' ls') : Opens (gs ++ gs') (ls ++ ls') where
  count := by rw [List.count_append, List.length_append, h.count, h'.count]
  opens front back hls := by
    -- a bracket of the second part
    have hsecond (middle : List Lexeme) (hfront : front = ls ++ middle)
        (hls' : ls' = middle ++ .capture :: back) :
        ∃ g, (gs ++ gs')[front.count .capture]? = some g ∧ g.OpensBetween front back := by
      obtain ⟨g, hg, hopens⟩ := h'.opens middle back hls'
      refine ⟨g, ?_, ?_⟩
      · rw [hfront, List.count_append, h.count, List.getElem?_append_right (Nat.le_add_right ..),
          Nat.add_sub_cancel_left]
        exact hg
      · rw [hfront, ← List.append_nil back]
        exact hopens.extend ls []
    rcases List.append_eq_append_iff.1 hls with ⟨middle, hfront, hls'⟩ | ⟨middle, rfl, hback⟩
    · exact hsecond middle hfront hls'
    · cases middle with
      | nil => exact hsecond [] (by simp) hback.symm
      | cons lexeme middle =>
          obtain ⟨rfl, rfl⟩ := List.cons.inj hback
          obtain ⟨g, hg, hopens⟩ := h.opens front middle rfl
          have hlt := (List.getElem?_eq_some_iff.1 hg).1
          exact ⟨g, by rw [List.getElem?_append_left hlt, hg], by simpa using hopens.extend [] ls'⟩

theorem bracket (h : Opens gs ls) : Opens gs (.bracket :: (ls ++ [.close])) := by
  have hbracket : Opens [] [Lexeme.bracket] := of_not_mem (by simp)
  have hclose : Opens [] [Lexeme.close] := of_not_mem (by simp)
  simpa using (hbracket.append h).append hclose

theorem choice_cons {p : Pattern} {ps : List Pattern} (h : Opens gs p.lexemes)
    (h' : Opens gs' (Pattern.choice ps).lexemes) :
    Opens (gs ++ gs') (Pattern.choice (p :: ps)).lexemes := by
  cases ps with
  | nil => simpa [Pattern.choice, Pattern.lexemes] using h.append h'
  | cons q ps =>
      have hbar : Opens [] [Lexeme.bar] := of_not_mem (by simp)
      simpa [Pattern.choice, Pattern.lexemes] using h.append (hbar.append h')

theorem branch {ps : List Pattern} (h : Opens gs (Pattern.choice ps).lexemes) :
    Opens gs (Pattern.branch ps).lexemes := by
  match ps with
  | [] | [p] => exact h
  | p :: q :: ps => exact h.bracket

end Opens

/-! ### Slots stand at labels -/

def Forest.SlotsAtLabels : Forest → Prop
  | .nil => True
  | .node key slot _ children siblings =>
    (slot.isSome → key = .label) ∧ children.SlotsAtLabels ∧ siblings.SlotsAtLabels

theorem Key.opens_edge {key : Key} {slot : Option Nat} (h : slot.isSome → key = .label)
    (next : Nat) : Opens (slot.map Group.slot).toList (key.edge slot next).lexemes := by
  cases slot with
  | some s =>
      obtain rfl := h rfl
      exact .slot s
  | none =>
      refine .of_not_mem ?_
      cases key <;> simp [edge, pattern, Pattern.tail, Pattern.lexemes]

namespace Forest

def OpensGroups (edges : Forest) : Prop :=
  ∀ next, Opens edges.groups (Pattern.choice (edges.patterns next)).lexemes

end Forest

theorem Node.opens_reading_of {node : Node} (h : node.children.OpensGroups) (next : Nat) :
    Opens node.groups (node.reading next).lexemes := by
  obtain ⟨slot, route, children⟩ := node
  refine .branch ?_
  cases route with
  | none => exact h _
  | some index => exact Opens.choice_cons (.route index) (h _)

theorem Forest.SlotsAtLabels.opens {edges : Forest} (h : edges.SlotsAtLabels) :
    edges.OpensGroups := by
  intro next
  induction edges generalizing next with
  | nil => exact .of_not_mem (by simp [patterns, Pattern.choice, Pattern.lexemes])
  | node key slot route children siblings ihc ihs =>
      obtain ⟨hlabel, hchildren, hsiblings⟩ := h
      have hedge := key.opens_edge hlabel next
      have hnode := @Node.opens_reading_of { slot, route, children } (ihc hchildren)
        (next + slot.toList.length)
      have hseq : Opens _ (Pattern.seq (key.edge slot next)
          (Node.reading { slot, route, children } (next + slot.toList.length))).lexemes :=
        hedge.append hnode
      rw [patterns_node]
      simpa [groups, Node.groups] using hseq.choice_cons (ihs hsiblings _)

/-- Only nodes that labels lead to have slots, as the keys to them tell. -/
def Node.SlotsAtLabels (node : Node) : Prop :=
  ∀ ks s, node.slotAt ks = some s → ks.getLast? = some .label

theorem Forest.Proper.slotsAtLabels {edges : Forest} (h : edges.Proper)
    (hslots : ∀ key child, edges.get? key = some child → ∀ ks s, child.slotAt ks = some s →
      (key :: ks).getLast? = some .label) : edges.SlotsAtLabels := by
  induction edges with
  | nil => trivial
  | node key slot route children siblings ihc ihs =>
      have hfirst := hslots key { slot, route, children } (by rw [get?, if_pos rfl])
      refine ⟨fun hslot => ?_, ihc h.2.2.1 fun k child hget ks s hs => ?_,
        ihs h.2.2.2 fun k child hget => hslots k child (get?_siblings h hget).2⟩
      · obtain ⟨s, hs⟩ := Option.isSome_iff_exists.1 hslot
        exact Option.some.inj (hfirst [] s hs)
      · refine hfirst (k :: ks) s ?_
        rw [Node.slotAt_cons, hget]
        exact hs

theorem Node.SlotsAtLabels.children {node : Node} (h : node.SlotsAtLabels)
    (hproper : node.children.Proper) : node.children.SlotsAtLabels := by
  refine hproper.slotsAtLabels fun key child hget ks s hs => h (key :: ks) s ?_
  rw [slotAt_cons, hget]
  exact hs

theorem Node.SlotsAtLabels.claimSlots {node : Node} (h : node.SlotsAtLabels) (path : Path)
    (next : Nat) : (node.claimSlots path.steps next).1.SlotsAtLabels := by
  intro ks s hs
  cases hold : node.slotAt ks with
  | none => exact (getLast?_of_slotAt_claimSlots hold hs).2
  | some t => exact h ks t hold

namespace Trie

/-- Whatever the calls were, slots were only given to nodes that labels lead to. -/
theorem History.slotsAtLabels_ofCalls (calls : List Insertion) :
    (ofCalls calls).trie.root.SlotsAtLabels := by
  refine (ofCalls_induction (I := fun history => history.Sound ∧ history.trie.root.SlotsAtLabels)
    ⟨sound_empty, ?_⟩ (fun history insertion h => ⟨h.1.call insertion, ?_⟩) calls).2
  · intro ks s hs
    rw [show ({} : History).trie.root.slotAt ks = none from Node.slotAt_empty ks] at hs
    cases hs
  · obtain ⟨hsound, hslots⟩ := h
    obtain heq | ⟨slots, trie, hinsert, heq⟩ | ⟨e, trie, hinsert, heq⟩ :=
      call_cases hsound.proper insertion
    · rw [heq]
      exact hslots
    · rw [heq]
      obtain ⟨-, rfl, -⟩ := insert_eq_ok hinsert
      refine Node.SlotsAtLabels.claimSlots (fun ks s hs => hslots ks s ?_) insertion.path _
      rwa [Node.slotAt_graft] at hs
    · rw [heq]
      obtain ⟨-, rfl⟩ := insert_eq_error hinsert
      exact hslots.claimSlots insertion.path _

end Trie

end PathRouter
