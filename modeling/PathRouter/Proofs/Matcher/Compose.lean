import PathRouter.Proofs.Matcher.Assembly
import PathRouter.Proofs.Trie.Ordinals

/-!
A matcher is built the same, whether in the steps in which it is done or in one go from the
composite pattern: entries are placed as they are added, the text of the pattern is read as the
pattern, slots get the ordinals of their groups, and as no route is asked for twice, each is handed
out to the place of its ordinal.
-/

namespace PathRouter

def Pending.route (composite : Composite) (entry : Pending) : Except RouterError Route := do
  let params ← entry.slots.mapM fun (name, slot) =>
    match composite.ordinalOf? slot with
    | some ordinal => .ok (name, ordinal)
    | none => .error (.unsupportedPath entry.path)
  return { chain := entry.chain, params }

/-- The matcher of the given entries, from the composite pattern of their trie. -/
def Matcher.compose [SizeRule] (config : Config) (entries : List Entry) :
    Except RouterError Matcher := do
  let assembly ← (shortestFirst entries).foldlM Assembly.add {}
  let composite := assembly.trie.composite
  let merged ← assembly.pending.mapM (Pending.route composite)
  let routes := composite.routeOf.map fun index => index.bind (merged[·]?)
  match composite.pattern with
  | none => return { routes, statics := assembly.statics }
  | some pattern =>
    match pattern.checked config with
    | .ok pattern => return { pattern := some pattern, routes, statics := assembly.statics }
    | .error cause => throw (.pattern cause)

/-! ### Handing out -/

def AskedOnce (places : List (Option Nat)) : Prop :=
  ∀ k k' i : Nat, places[k]? = some (some i) → places[k']? = some (some i) → k = k'

/-- If nothing is asked for twice, all is in stock when it is asked for. -/
theorem handOut_eq_map {α : Type} {places : List (Option Nat)} {stock : List (Option α)}
    {as : List α} (honce : AskedOnce places)
    (hstock : ∀ k i : Nat, places[k]? = some (some i) → stock[i]?.join = as[i]?) :
    handOut places stock = places.map fun place => place.bind (as[·]?) := by
  induction places generalizing stock with
  | nil => rfl
  | cons place rest ih =>
      have hrest : AskedOnce rest := fun k k' i hk hk' =>
        Nat.succ.inj (honce (k + 1) (k' + 1) i hk hk')
      cases place with
      | none =>
          rw [handOut, List.map_cons, ih hrest fun k i hk => hstock (k + 1) i hk]
          rfl
      | some i =>
          have hothers (k j : Nat) (hk : rest[k]? = some (some j)) :
              (stock.set i none)[j]?.join = as[j]? := by
            have hne : i ≠ j := by
              rintro rfl
              exact absurd (honce 0 (k + 1) i rfl hk) (Nat.succ_ne_zero k).symm
            rw [List.getElem?_set_ne hne]
            exact hstock (k + 1) j hk
          rw [handOut, List.map_cons, ih hrest hothers, hstock 0 i rfl]
          rfl

namespace Assembly

theorem place_eq_add {a : Assembly} (h : a.trie.root.children.Proper) (entry : Entry) :
    a.place entry = a.add entry := by
  obtain ⟨path, chain⟩ := entry
  cases hpath : path.isStatic with
  | true =>
      cases hadmits : a.trie.admits path <;>
        simp [place, add, hpath, Trie.run_place_check path _ h, Trie.run_check, hadmits]
  | false =>
      cases hinsert : (Trie.insert path a.pending.length).run a.trie <;>
        simp [place, add, hpath, Trie.place_eq_insert, hinsert]

theorem foldlM_place (entries : List Entry) :
    entries.foldlM place {} = entries.foldlM add {} := by
  refine foldlM_congr (I := fun a => ∃ taken, a.Holds taken)
    (fun a entry ⟨_, ha⟩ => place_eq_add ha.proper entry)
    (fun a entry a' ⟨_, ha⟩ hadd => ⟨_, ha.add hadd⟩) entries ⟨[], holds_nil⟩

variable {entries : List Entry} {a : Assembly}

theorem Holds.apart (h : a.Holds entries) : a.trie.root.Apart := by
  intro g ks ks' hg hg'
  cases g with
  | slot s => exact h.slots_below.apart ks ks' s hg hg'
  | route r =>
      obtain ⟨p, hp, hkeys⟩ := (h.routes ks r).1 hg
      obtain ⟨p', hp', hkeys'⟩ := (h.routes ks' r).1 hg'
      rw [hp] at hp'
      cases hp'
      exact hkeys.symm.trans hkeys'

theorem Holds.nodup_groups (h : a.Holds entries) : a.trie.composite.groups.Nodup :=
  Trie.nodup_groups_composite h.proper h.apart

/-- The ordinals of the compiled form are those of the composite pattern. -/
theorem Holds.remap_eq_route (h : a.Holds entries) {p : Pending} (hp : p ∈ a.pending) :
    p.remap a.trie.compile.ordinals = p.route a.trie.composite := by
  have hordinals : a.trie.compile.ordinals = a.trie.composite.slotOrdinals :=
    Trie.ordinals_compile h.nodup_groups (Trie.slot_lt_of_mem_groups h.proper h.slots_below)
  rw [Pending.remap, Pending.route]
  congr 1
  refine mapM_congr fun pair hpair => ?_
  obtain ⟨name, slot⟩ := pair
  rw [(h.slots p hp).1] at hpair
  obtain ⟨key, ks, hslot⟩ := Node.exists_of_mem_namesWith hpair
  have hlt : slot < a.trie.composite.slots := h.slots_below.lt _ _ hslot
  have hplace := Composite.getElem?_slotOrdinals hlt
  cases hordinal : a.trie.composite.ordinalOf? slot <;> simp [hordinals, hplace, hordinal]

theorem Holds.askedOnce (h : a.Holds entries) : AskedOnce a.trie.compile.routes := by
  intro k k' i hk hk'
  rw [Trie.routes_compile, Composite.getElem?_routeOf_iff] at hk hk'
  exact Composite.groupOf?_inj h.nodup_groups hk hk'

theorem Holds.handOut_eq (h : a.Holds entries) (merged : List Route) :
    handOut a.trie.compile.routes (merged.map some) =
      a.trie.composite.routeOf.map fun index => index.bind (merged[·]?) := by
  rw [← Trie.routes_compile]
  refine handOut_eq_map h.askedOnce fun k i _ => ?_
  cases hi : merged[i]? <;> simp [hi]

end Assembly

/-- Building a matcher step by step comes to the same as building it in one go. -/
theorem Matcher.build_eq_compose [SizeRule] (config : Config) (entries : List Entry) :
    build config entries = compose config entries := by
  cases entries with
  | nil =>
      simp only [build, compose, shortestFirst, List.mergeSort_nil]
      rfl
  | cons entry rest =>
      rw [build, compose, Assembly.foldlM_place]
      simp only [List.isEmpty_cons, Bool.false_eq_true, if_false]
      cases ha : (shortestFirst (entry :: rest)).foldlM Assembly.add {} with
      | error cause => rfl
      | ok a =>
          have h := Assembly.holds_of_foldlM ha
          show (a.pending.mapM (Pending.remap a.trie.compile.ordinals) >>= _) =
            (a.pending.mapM (Pending.route a.trie.composite) >>= _)
          rw [mapM_congr fun p hp => h.remap_eq_route hp]
          congr 1
          funext merged
          have hread := Trie.read?_compile h.proper
          cases hpattern : a.trie.composite.pattern with
          | none => simp [h.handOut_eq, hread, hpattern]
          | some pattern =>
              cases hchecked : pattern.checked config <;>
                simp [h.handOut_eq, hread, hpattern, hchecked]

end PathRouter
