import Mathlib.Data.List.ReduceOption
import PathRouter.Proofs.Trie.Openings

/-!
The ordinals of the groups. If the routes of a trie have different indices, no two groups stand for
the same, and the ordinals from one up to their number are shared out among the routes and the
slots, each to one of them; and they count the capturing brackets of the text.
-/

namespace PathRouter

open Pattern (Lexeme)

def positions {α : Type} (as : List (Option α)) : List Nat :=
  (List.range as.length).filter fun place => as[place]?.join.isSome

theorem mem_positions {α : Type} {as : List (Option α)} {place : Nat} :
    place ∈ positions as ↔ ∃ a, as[place]? = some (some a) := by
  rw [positions, List.mem_filter, List.mem_range, Option.isSome_iff_exists]
  constructor
  · rintro ⟨-, a, ha⟩
    exact ⟨a, Option.join_eq_some_iff.1 ha⟩
  · rintro ⟨a, ha⟩
    exact ⟨(List.getElem?_eq_some_iff.1 ha).1, a, Option.join_eq_some_iff.2 ha⟩

theorem nodup_positions {α : Type} (as : List (Option α)) : (positions as).Nodup :=
  List.nodup_range.filter _

namespace Composite

variable {composite : Composite}

theorem mem_groups_of_groupOf? {n : Nat} {g : Group} (h : composite.groupOf? n = some g) :
    g ∈ composite.groups := by
  cases n with
  | zero => cases h
  | succ k => exact List.mem_of_getElem? h

theorem isSome_groupOf?_iff {n : Nat} :
    (composite.groupOf? n).isSome ↔ n ∈ List.range' 1 composite.groups.length := by
  cases n with
  | zero => simp [groupOf?]
  | succ k =>
      simp only [groupOf?, isSome_getElem?, List.mem_range'_1]
      omega

theorem groupOf?_inj (h : composite.groups.Nodup) {n n' : Nat} {g : Group}
    (hn : composite.groupOf? n = some g) (hn' : composite.groupOf? n' = some g) : n = n' := by
  cases n with
  | zero => cases hn
  | succ k =>
      cases n' with
      | zero => cases hn'
      | succ k' =>
          simp only [groupOf?] at hn hn'
          obtain ⟨hlt, -⟩ := List.getElem?_eq_some_iff.1 hn
          rw [(List.getElem?_inj hlt h).1 (hn.trans hn'.symm)]

theorem ordinalOf?_eq_some_iff (h : composite.groups.Nodup) {slot n : Nat} :
    composite.ordinalOf? slot = some n ↔ composite.groupOf? n = some (.slot slot) := by
  have hfirst {n : Nat} (hn : composite.ordinalOf? slot = some n) :
      composite.groupOf? n = some (.slot slot) := by
    obtain ⟨k, hk, rfl⟩ := Option.map_eq_some_iff.1 hn
    obtain ⟨hlt, hg, -⟩ := List.idxOf?_eq_some_iff.1 hk
    exact List.getElem?_eq_some_iff.2 ⟨hlt, hg⟩
  refine ⟨hfirst, fun hn => ?_⟩
  obtain ⟨m, hm⟩ := exists_ordinalOf? (mem_groups_of_groupOf? hn)
  rw [hm, groupOf?_inj h hn (hfirst hm)]

theorem mem_slotOrdinals_iff (h : composite.groups.Nodup)
    (hlt : ∀ s, Group.slot s ∈ composite.groups → s < composite.slots) {n : Nat} :
    some n ∈ composite.slotOrdinals ↔ ∃ s, composite.groupOf? n = some (.slot s) := by
  simp only [slotOrdinals, List.mem_map, List.mem_range, ordinalOf?_eq_some_iff h]
  exact ⟨fun ⟨s, _, hs⟩ => ⟨s, hs⟩, fun ⟨s, hs⟩ => ⟨s, hlt s (mem_groups_of_groupOf? hs), hs⟩⟩

theorem nodup_slotOrdinals (h : composite.groups.Nodup) :
    composite.slotOrdinals.reduceOption.Nodup := by
  rw [slotOrdinals, List.reduceOption, List.filterMap_map]
  refine List.nodup_range.filterMap fun s s' n hn hn' => ?_
  -- one ordinal is the place of one group
  have hs := (ordinalOf?_eq_some_iff h).1 (Option.mem_def.1 hn)
  have hs' := (ordinalOf?_eq_some_iff h).1 (Option.mem_def.1 hn')
  exact (Group.slot.injEq ..).mp (Option.some.inj (hs.symm.trans hs'))

/-- Every ordinal is that of one route or of one slot. -/
theorem perm_ordinals (h : composite.groups.Nodup)
    (hlt : ∀ s, Group.slot s ∈ composite.groups → s < composite.slots) :
    (positions composite.routeOf ++ composite.slotOrdinals.reduceOption).Perm
      (List.range' 1 composite.groups.length) := by
  have hroute (n : Nat) : n ∈ positions composite.routeOf ↔
      ∃ r, composite.groupOf? n = some (.route r) := by
    simp only [mem_positions, getElem?_routeOf_iff]
  have hslot (n : Nat) : n ∈ composite.slotOrdinals.reduceOption ↔
      ∃ s, composite.groupOf? n = some (.slot s) := by
    rw [List.reduceOption_mem_iff, mem_slotOrdinals_iff h hlt]
  have hnodup : (positions composite.routeOf ++ composite.slotOrdinals.reduceOption).Nodup := by
    refine List.nodup_append.2 ⟨nodup_positions _, nodup_slotOrdinals h, fun n hn n' hn' e => ?_⟩
    subst e
    obtain ⟨r, hr⟩ := (hroute n).1 hn
    obtain ⟨s, hs⟩ := (hslot n).1 hn'
    rw [hr] at hs
    cases hs
  refine (List.perm_ext_iff_of_nodup hnodup List.nodup_range').2 fun n => ?_
  rw [List.mem_append, hroute, hslot, ← isSome_groupOf?_iff]
  constructor
  · rintro (⟨r, hr⟩ | ⟨s, hs⟩)
    · rw [hr, Option.isSome_some]
    · rw [hs, Option.isSome_some]
  · intro hn
    obtain ⟨g, hg⟩ := Option.isSome_iff_exists.1 hn
    cases g with
    | route r => exact Or.inl ⟨r, hg⟩
    | slot s => exact Or.inr ⟨s, hg⟩

theorem getElem?_slotOrdinals {slot : Nat} (h : slot < composite.slots) :
    composite.slotOrdinals[slot]? = some (composite.ordinalOf? slot) := by
  rw [slotOrdinals, List.getElem?_map, List.getElem?_range h, Option.map_some]

end Composite

/-! ### Parameters and their nodes -/

def namedNodes : List Step → List (List Key)
  | [] => []
  | step :: rest =>
    (step.name?.map fun _ => [step.key]).toList ++ (namedNodes rest).map (step.key :: ·)

def Path.parameterNodes (path : Path) : List (List Key) := namedNodes path.steps

theorem Node.map_slot_namesWith {slotAt : List Key → Option Nat} {steps : List Step}
    (h : Slotted slotAt steps) :
    (namesWith slotAt steps).map (fun pair => some pair.2) = (namedNodes steps).map slotAt := by
  induction steps generalizing slotAt with
  | nil => rfl
  | cons step rest ih =>
      obtain ⟨hslot, hrest⟩ := h
      rw [namesWith, namedNodes, List.map_append, List.map_append, ih hrest, List.map_map]
      cases hname : step.name? with
      | none => simp [Function.comp_def]
      | some name =>
          obtain ⟨s, hs⟩ := Option.isSome_iff_exists.1 (hslot (by simp [hname]))
          simp [hs, Function.comp_def]

namespace Trie

/-- What the compiled form says of the groups in the text: their ordinals are those of the routes
and of the slots, each of one of them, and tell what the capturing brackets open. -/
structure Ordered (compiled : Compiled) (lexemes : List Lexeme) : Prop where
  perm : (positions compiled.routes ++ compiled.ordinals.reduceOption).Perm
    (List.range' 1 (lexemes.count .capture))
  routes : ∀ front back index, lexemes = front ++ .capture :: back →
    compiled.routes[front.count .capture + 1]? = some (some index) →
      front.getLast? = some .stop ∧ back.head? = some .close
  slots : ∀ front back, lexemes = front ++ .capture :: back →
    some (front.count .capture + 1) ∈ compiled.ordinals → ∃ rest, back = .segment :: .close :: rest

variable {history : History}

namespace History

/-- If the merged paths have different indices, no group belongs to two nodes. -/
theorem Sound.apart (h : history.Sound) (hdistinct : (history.merged.map Record.index).Nodup) :
    history.trie.root.Apart := by
  intro g ks ks' hg hg'
  cases g with
  | slot s => exact h.slots_below.apart ks ks' s hg hg'
  | route i =>
      obtain ⟨r, hr, hkeys, hi⟩ := (h.routes ks i).1 hg
      obtain ⟨r', hr', hkeys', hi'⟩ := (h.routes ks' i).1 hg'
      obtain rfl := List.inj_on_of_nodup_map hdistinct hr hr' (hi.trans hi'.symm)
      exact hkeys.symm.trans hkeys'

end History

theorem slot_lt_of_mem_groups {trie : Trie} (h : trie.root.children.Proper)
    (hbelow : trie.root.SlotsBelow trie.slots) :
    ∀ s, Group.slot s ∈ trie.composite.groups → s < trie.slots := by
  intro s hs
  obtain ⟨ks, hks⟩ := exists_labels_of_mem_groups h hs
  exact hbelow.lt ks s hks

/-- The text of a trie has the brackets of its groups; without a text there are none. -/
theorem exists_opens {trie : Trie} (h : trie.root.children.Proper)
    (hslots : trie.root.SlotsAtLabels) :
    ∃ lexemes, Pattern.lexemes? (trie.compile.text.getD []) = some lexemes ∧
      Opens trie.composite.groups lexemes := by
  by_cases hlive : trie.root.Live
  · rw [text_compile, pattern_composite_of_live hlive, Option.map_some, Option.getD_some]
    refine ⟨_, Pattern.lexemes?_text _, ?_⟩
    have hstart : Opens [] [Lexeme.start] := .of_not_mem (by simp)
    exact hstart.append (Node.opens_reading_of (hslots.children h).opens 1)
  · obtain ⟨hpattern, hgroups⟩ := composite_of_not_live h hlive
    rw [text_compile, hpattern, hgroups]
    exact ⟨[], rfl, .of_not_mem (by simp)⟩

theorem ordered_of_opens {composite : Composite} {lexemes : List Lexeme}
    (h : Opens composite.groups lexemes) (hnodup : composite.groups.Nodup)
    (hlt : ∀ s, Group.slot s ∈ composite.groups → s < composite.slots) {text : Option (List Char)} :
    Ordered ⟨text, composite.routeOf, composite.slotOrdinals⟩ lexemes := by
  constructor
  case perm =>
    rw [h.count]
    exact Composite.perm_ordinals hnodup hlt
  case routes =>
    intro front back index hlexemes hroute
    obtain ⟨g, hg, hopens⟩ := h.opens front back hlexemes
    have hg' : composite.groupOf? (front.count .capture + 1) = some g := hg
    rw [Composite.getElem?_routeOf_iff.1 hroute, Option.some.injEq] at hg'
    rwa [← hg'] at hopens
  case slots =>
    intro front back hlexemes hslot
    obtain ⟨g, hg, hopens⟩ := h.opens front back hlexemes
    have hg' : composite.groupOf? (front.count .capture + 1) = some g := hg
    obtain ⟨s, hs⟩ := (Composite.mem_slotOrdinals_iff hnodup hlt).1 hslot
    rw [hs, Option.some.injEq] at hg'
    rwa [← hg'] at hopens

namespace History

theorem Sound.compile_eq (h : history.Sound)
    (hdistinct : (history.merged.map Record.index).Nodup) :
    history.trie.composite.groups.Nodup ∧
      history.trie.compile.ordinals = history.trie.composite.slotOrdinals := by
  have hnodup := nodup_groups_composite h.proper (h.apart hdistinct)
  exact ⟨hnodup, ordinals_compile hnodup (slot_lt_of_mem_groups h.proper h.slots_below)⟩

theorem Sound.existsUnique_ordinal (h : history.Sound)
    (hdistinct : (history.merged.map Record.index).Nodup) {r : Record} (hr : r ∈ history.merged) :
    ∃! n : Nat, history.trie.compile.routes[n]? = some (some r.index) := by
  obtain ⟨hnodup, -⟩ := h.compile_eq hdistinct
  have hmem := mem_groups_of_routeAt ((h.routes _ _).2 ⟨r, hr, rfl, rfl⟩)
  obtain ⟨k, hk⟩ := List.getElem?_of_mem hmem
  have hgroup : history.trie.composite.groupOf? (k + 1) = some (.route r.index) := hk
  simp only [routes_compile, Composite.getElem?_routeOf_iff]
  exact ⟨k + 1, hgroup, fun n hn => Composite.groupOf?_inj hnodup hn hgroup⟩

theorem Sound.exists_ordinal (h : history.Sound)
    (hdistinct : (history.merged.map Record.index).Nodup) {r : Record} (hr : r ∈ history.merged)
    {pair : List Char × Nat} (hpair : pair ∈ r.slots) :
    ∃ n, history.trie.compile.ordinals[pair.2]? = some (some n) := by
  rw [(h.slots r hr).1] at hpair
  obtain ⟨key, ks, hslot⟩ := Node.exists_of_mem_namesWith hpair
  have hlt := h.slots_below.lt _ _ hslot
  obtain ⟨n, hn⟩ := Composite.exists_ordinalOf? (mem_groups_of_slotAt hslot)
  exact ⟨n, by rw [(h.compile_eq hdistinct).2, Composite.getElem?_slotOrdinals hlt, hn]⟩

theorem Sound.slotAt_parameterNode (h : history.Sound) {r : Record} (hr : r ∈ history.merged) :
    r.slots.length = r.path.parameterNodes.length ∧
      ∀ p ∈ r.slots.zip r.path.parameterNodes, history.trie.root.slotAt p.2 = some p.1.2 := by
  obtain ⟨hnames, hslotted⟩ := h.slots r hr
  have hmap := Node.map_slot_namesWith hslotted
  rw [← hnames] at hmap
  refine ⟨by simpa [Path.parameterNodes] using congrArg List.length hmap, fun p hp => ?_⟩
  obtain ⟨i, hi⟩ := List.getElem?_of_mem hp
  obtain ⟨hpair, hnode⟩ := List.getElem?_zip_eq_some.1 hi
  have hplace := congrArg (·[i]?) hmap
  simp only [List.getElem?_map, hpair, Path.parameterNodes] at hplace hnode
  rw [hnode, Option.map_some, Option.map_some, Option.some.injEq] at hplace
  exact hplace.symm

end History

end Trie

end PathRouter
