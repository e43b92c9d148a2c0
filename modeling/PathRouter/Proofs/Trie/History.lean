import PathRouter.Proofs.Trie.Place

/-!
Tries that lists of calls lead to. A call merges or checks a path, and may fail; whatever comes of
it, the next call finds the trie as it was left. What counts afterwards are the paths that were
merged, with their indices and with the slots that their names got: the routes of the tree are
theirs, and the slots stay where they were given out.
-/

namespace PathRouter

namespace Trie

/-- A path that was merged, with the index of its route and the slots of its names. -/
structure Record where
  path : Path
  index : Nat
  slots : List (List Char × Nat)

/-- A trie, and the records of the paths that were merged into it, in their order. -/
structure History where
  trie : Trie := {}
  merged : List Record := []

namespace History

def call (history : History) (insertion : Insertion) : History :=
  match (place insertion).run history.trie with
  | .ok slots trie =>
    { trie
      merged := if insertion.checkOnly then history.merged
        else history.merged ++ [{ path := insertion.path, index := insertion.index, slots }] }
  | .error _ trie => { history with trie }

def ofCalls (calls : List Insertion) : History := calls.foldl call {}

/-- What holds of the empty trie and is kept by each call holds after all calls. -/
theorem ofCalls_induction {I : History → Prop} (start : I {})
    (step : ∀ history insertion, I history → I (history.call insertion))
    (calls : List Insertion) : I (ofCalls calls) :=
  List.foldlRecOn calls call start fun history h insertion _ => step history insertion h

/-- A call leaves all as it is, or merges its path and records it, or is refused and records
nothing. -/
theorem call_cases {history : History} (h : history.trie.root.children.Proper)
    (insertion : Insertion) :
    history.call insertion = history ∨
      (∃ slots trie,
        (insert insertion.path insertion.index).run history.trie = .ok slots trie ∧
          history.call insertion =
            ⟨trie, history.merged ++ [⟨insertion.path, insertion.index, slots⟩]⟩) ∨
      ∃ e trie, (insert insertion.path insertion.index).run history.trie = .error e trie ∧
        history.call insertion = { history with trie } := by
  obtain ⟨path, index, checkOnly⟩ := insertion
  cases checkOnly with
  | true =>
      left
      rw [call, run_place_check path index h]
      cases history.trie.admits path <;> rfl
  | false =>
      right
      rw [call, place_eq_insert]
      cases hinsert : (insert path index).run history.trie with
      | ok slots trie => exact Or.inl ⟨slots, trie, rfl, rfl⟩
      | error e trie => exact Or.inr ⟨e, trie, rfl, rfl⟩

/-- What a history knows of its records: under the keys of a merged path ends the route with its
index, and its names have the slots of the nodes they lead to. -/
structure Sound (history : History) : Prop where
  grown : Grown (history.merged.map Record.path) history.trie
  routes : ∀ ks i, history.trie.root.routeAt ks = some i ↔
    ∃ r ∈ history.merged, r.path.keys = ks ∧ r.index = i
  slots_below : history.trie.root.SlotsBelow history.trie.slots
  slots : ∀ r ∈ history.merged, r.slots = Node.namesWith history.trie.root.slotAt r.path.steps ∧
    Node.Slotted history.trie.root.slotAt r.path.steps

theorem sound_empty : ({} : History).Sound where
  grown := Grown.empty
  routes ks i := by
    have hnone : ({} : History).trie.root.routeAt ks = none := Node.routeAt_empty ks
    simp [hnone]
  slots_below := by
    have hnone : ∀ ks, ({} : History).trie.root.slotAt ks = none := Node.slotAt_empty
    constructor <;> simp [hnone]
  slots r h := by simp at h

theorem Sound.proper {history : History} (h : history.Sound) :
    history.trie.root.children.Proper :=
  h.grown.orderly.1.proper

theorem Sound.merge {history : History} (h : history.Sound) {path : Path} {index : Nat}
    {slots : List (List Char × Nat)} {trie : Trie}
    (hinsert : (insert path index).run history.trie = .ok slots trie) :
    Sound ⟨trie, history.merged ++ [⟨path, index, slots⟩]⟩ := by
  have hmerges := merges_of_insert hinsert
  constructor
  case grown =>
    rw [List.map_append]
    exact h.grown.merged hinsert
  case routes =>
    intro ks i
    have hnone := hmerges.free
    have hold := h.routes ks i
    simp only [hmerges.routes, List.mem_append, List.mem_singleton, or_and_right, exists_or,
      exists_eq_left]
    by_cases hks : ks = path.keys
    · rw [hks, hnone] at hold
      have hfree := hold.not.1 (by simp)
      simp [hks, hfree]
    · simp [hks, Ne.symm hks, hold]
  case slots_below => exact hmerges.slots_below h.slots_below
  case slots =>
    intro r hr
    rcases List.mem_append.1 hr with hr | hr
    · -- slots that were given out are kept, so the names stay where they are
      obtain ⟨hnames, hslotted⟩ := h.slots r hr
      obtain ⟨hslotted', hnames'⟩ := hslotted.mono hmerges.kept
      exact ⟨hnames.trans hnames'.symm, hslotted'⟩
    · obtain rfl := List.mem_singleton.1 hr
      exact ⟨hmerges.names, hmerges.slotted⟩

theorem Sound.refuse {history : History} (h : history.Sound) {path : Path} {index : Nat}
    {e : TrieError} {trie : Trie}
    (hinsert : (insert path index).run history.trie = .error e trie) :
    Sound { history with trie } := by
  obtain ⟨-, rfl⟩ := insert_eq_error hinsert
  have hgains := Node.gains_claimSlots history.trie.root path.steps history.trie.slots
  constructor
  case grown => exact h.grown.refused hinsert
  case routes =>
    intro ks i
    rw [hgains.routes]
    exact h.routes ks i
  case slots_below => exact hgains.slotsBelow h.slots_below
  case slots =>
    intro r hr
    obtain ⟨hnames, hslotted⟩ := h.slots r hr
    obtain ⟨hslotted', hnames'⟩ := hslotted.mono hgains.kept
    exact ⟨hnames.trans hnames'.symm, hslotted'⟩

theorem Sound.call {history : History} (h : history.Sound) (insertion : Insertion) :
    (history.call insertion).Sound := by
  obtain heq | ⟨slots, trie, hinsert, heq⟩ | ⟨e, trie, hinsert, heq⟩ :=
    call_cases h.proper insertion
  · rw [heq]
    exact h
  · rw [heq]
    exact h.merge hinsert
  · rw [heq]
    exact h.refuse hinsert

theorem sound_ofCalls (calls : List Insertion) : (ofCalls calls).Sound :=
  ofCalls_induction sound_empty (fun _ insertion h => h.call insertion) calls

/-- A call is refused just if its path conflicts with one that was merged, whether the path is to be
merged itself or only checked. -/
theorem Sound.exists_place_eq_error_iff {history : History} (h : history.Sound)
    (insertion : Insertion) :
    (∃ e trie', (place insertion).run history.trie = .error e trie') ↔
      ∃ r ∈ history.merged, insertion.path.Conflicts r.path := by
  have hconflicts : (∃ r ∈ history.merged, insertion.path.Conflicts r.path) ↔
      history.trie.admits insertion.path = false := by
    rw [h.grown.admits_eq_false_iff]
    simp only [List.mem_map, exists_exists_and_eq_and]
  rw [hconflicts]
  obtain ⟨path, index, checkOnly⟩ := insertion
  cases checkOnly with
  | true =>
      rw [run_place_check path index h.proper]
      cases history.trie.admits path with
      | true => simp
      | false => exact iff_of_true ⟨_, _, rfl⟩ rfl
  | false =>
      rw [place_eq_insert]
      exact exists_insert_eq_error_iff index

end History

end Trie

end PathRouter
