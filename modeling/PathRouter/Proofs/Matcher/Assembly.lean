import PathRouter.Matcher
import PathRouter.Proofs.Run
import PathRouter.Proofs.Trie.Grown

/-!
What a matcher in the making knows of the entries that it took in. The trie has a route for each
dynamic entry under the keys of its path, and for nothing else; the slots of the parameters stay
where they were given out, and no two nodes share one.
-/

namespace PathRouter

def staticEntries (entries : List Entry) : List Entry := entries.filter (·.1.isStatic)

def dynamicEntries (entries : List Entry) : List Entry := entries.filter (!·.1.isStatic)

theorem mem_staticEntries {entries : List Entry} {e : Entry} :
    e ∈ staticEntries entries ↔ e ∈ entries ∧ e.1.isStatic = true := by
  simp [staticEntries]

theorem mem_dynamicEntries {entries : List Entry} {e : Entry} :
    e ∈ dynamicEntries entries ↔ e ∈ entries ∧ e.1.isStatic = false := by
  simp [dynamicEntries]

/-- The assembly has taken in the entries: what its tree, its tables and its list of merged entries
have to do with them. -/
structure Assembly.Holds (entries : List Entry) (a : Assembly) : Prop where
  proper : a.trie.root.children.Proper
  /-- The routes of the tree are those of the merged entries. -/
  routes : ∀ ks i, a.trie.root.routeAt ks = some i ↔ ∃ p, a.pending[i]? = some p ∧ p.path.keys = ks
  slots_below : a.trie.root.SlotsBelow a.trie.slots
  slots : ∀ p ∈ a.pending, p.slots = Node.namesWith a.trie.root.slotAt p.path.steps ∧
    Node.Slotted a.trie.root.slotAt p.path.steps
  pending : a.pending.map (fun p => (p.path, p.chain)) = dynamicEntries entries
  statics : a.statics = .ofList (staticEntries entries)

namespace Assembly

/-- Takes in one entry. A static path only has to be free of conflicts with the trie. -/
def add (assembly : Assembly) (entry : Entry) : Except RouterError Assembly :=
  let (path, chain) := entry
  if path.isStatic then
    match (Trie.check path).run assembly.trie with
    | .ok _ trie => .ok { assembly with trie, statics := assembly.statics.set path chain }
    | .error _ _ => .error (.unsupportedPath path)
  else
    match (Trie.insert path assembly.pending.length).run assembly.trie with
    | .ok slots trie =>
      .ok { assembly with trie, pending := assembly.pending ++ [{ path, chain, slots }] }
    | .error _ _ => .error (.unsupportedPath path)

theorem holds_nil : ({} : Assembly).Holds [] where
  proper := trivial
  routes ks i := by
    have hnone : ({} : Assembly).trie.root.routeAt ks = none := Node.routeAt_empty ks
    simp [hnone]
  slots_below := by
    have hnone : ∀ ks, ({} : Assembly).trie.root.slotAt ks = none := Node.slotAt_empty
    constructor <;> simp [hnone]
  slots p h := by simp at h
  pending := rfl
  statics := rfl

theorem dynamicEntries_append (entries : List Entry) (e : Entry) :
    dynamicEntries (entries ++ [e]) =
      if e.1.isStatic then dynamicEntries entries else dynamicEntries entries ++ [e] := by
  cases h : e.1.isStatic <;> simp [dynamicEntries, h]

theorem staticEntries_append (entries : List Entry) (e : Entry) :
    staticEntries (entries ++ [e]) =
      if e.1.isStatic then staticEntries entries ++ [e] else staticEntries entries := by
  cases h : e.1.isStatic <;> simp [staticEntries, h]

theorem exists_getElem?_concat {α : Type} {P : α → Prop} (as : List α) (a : α) (i : Nat) :
    (∃ x, (as ++ [a])[i]? = some x ∧ P x) ↔
      (∃ x, as[i]? = some x ∧ P x) ∨ i = as.length ∧ P a := by
  rw [List.getElem?_append]
  split
  · next hlt => simp [Nat.ne_of_lt hlt]
  · next hge =>
      have hnone : as[i]? = none := List.getElem?_eq_none (by omega)
      rw [hnone, List.getElem?_singleton]
      by_cases hi : i = as.length
      · simp [hi]
      · have hne : i - as.length ≠ 0 := by omega
        simp [hi, hne]

theorem Holds.merge {entries : List Entry} {a : Assembly} (h : a.Holds entries) {path : Path}
    {chain : Chain} (hdynamic : path.isStatic = false) {slots : List (List Char × Nat)}
    {trie : Trie} (hinsert : (Trie.insert path a.pending.length).run a.trie = .ok slots trie) :
    ({ a with trie, pending := a.pending ++ [{ path, chain, slots }] } : Assembly).Holds
      (entries ++ [(path, chain)]) := by
  have hmerges := Trie.merges_of_insert hinsert
  constructor
  case proper => exact hmerges.proper h.proper
  case routes =>
    intro ks i
    have hnone := hmerges.free
    simp only [hmerges.routes, exists_getElem?_concat, ← h.routes]
    by_cases hks : ks = path.keys
    · simp [hks, hnone, eq_comm]
    · simp [hks, Ne.symm hks]
  case slots_below => exact hmerges.slots_below h.slots_below
  case slots =>
    intro p hp
    rcases List.mem_append.1 hp with hp | hp
    · -- the slots of earlier entries are kept, so their names stay where they are
      obtain ⟨hnames, hslotted⟩ := h.slots p hp
      obtain ⟨hslotted', hnames'⟩ := hslotted.mono hmerges.kept
      exact ⟨hnames.trans hnames'.symm, hslotted'⟩
    · obtain rfl := List.mem_singleton.1 hp
      exact ⟨hmerges.names, hmerges.slotted⟩
  case pending => simp [dynamicEntries_append, hdynamic, h.pending]
  case statics => simp [staticEntries_append, hdynamic, h.statics]

theorem Holds.set {entries : List Entry} {a : Assembly} (h : a.Holds entries) {path : Path}
    {chain : Chain} (hstatic : path.isStatic = true) :
    ({ a with statics := a.statics.set path chain } : Assembly).Holds
      (entries ++ [(path, chain)]) where
  proper := h.proper
  routes := h.routes
  slots_below := h.slots_below
  slots := h.slots
  pending := by simp [dynamicEntries_append, hstatic, h.pending]
  statics := by
    rw [staticEntries_append, if_pos hstatic, OrderedMap.ofList, List.foldl_append,
      ← OrderedMap.ofList, ← h.statics]
    rfl

theorem Holds.add {entries : List Entry} {a : Assembly} (h : a.Holds entries) {e : Entry}
    {a' : Assembly} (hadd : a.add e = .ok a') : a'.Holds (entries ++ [e]) := by
  obtain ⟨path, chain⟩ := e
  cases hpath : path.isStatic with
  | true =>
      simp only [Assembly.add, hpath, if_true] at hadd
      split at hadd
      · next trie hcheck =>
          cases hadd
          rw [Trie.check_eq_ok hcheck]
          exact h.set hpath
      · cases hadd
  | false =>
      simp only [Assembly.add, hpath, Bool.false_eq_true, if_false] at hadd
      split at hadd
      · next slots trie hinsert =>
          cases hadd
          exact h.merge hpath hinsert
      · cases hadd

theorem holds_of_foldlM {entries : List Entry} {a : Assembly}
    (h : entries.foldlM Assembly.add {} = .ok a) : a.Holds entries := by
  have hinv := foldlM_induction (I := fun entries (a : Assembly) => a.Holds entries)
    (fun _ _ _ _ hold hadd => hold.add hadd) holds_nil h
  rwa [List.nil_append] at hinv

end Assembly

end PathRouter
