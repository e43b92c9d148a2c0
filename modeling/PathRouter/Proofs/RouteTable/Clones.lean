import Mathlib.Logic.Function.Basic
import PathRouter.Proofs.OrderedMap.Columns
import PathRouter.Proofs.RouteTable

/-!
Tables that are kept in columns, changed one by one and cloned in between. No change fails, and each
table is what comes of its own changes: those that were made to it, and before them, if it is a
clone, those that had been made to its source by then.
-/

namespace PathRouter

namespace Columns

variable {table : Columns Path Chain}

/-- Fails if a value cannot be set. -/
def change (table : Columns Path Chain) : RouteTable.Change → Option (Columns Path Chain)
  | .set path chain => (table.set path chain).map Prod.snd
  | .modify path f => some (table.modify path f)
  | .update f => some (table.update f)

theorem Aligned.change (h : table.Aligned) (new : RouteTable.Change) :
    ∃ after, table.change new = some after ∧ after.Aligned ∧
      after.toMap = RouteTable.change table.toMap new := by
  cases new with
  | set path chain =>
      obtain ⟨after, hset, hafter⟩ := h.set path chain
      exact ⟨after, congrArg (Option.map Prod.snd) hset, hafter⟩
  | modify path f => exact ⟨_, rfl, h.modify path f⟩
  | update f => exact ⟨_, rfl, h.update f⟩

end Columns

namespace RouteTable

inductive Step
  | change (table : Nat) (new : Change)
  /-- Gives one table the contents of another one. -/
  | clone (source target : Nat)

def Step.target : Step → Nat
  | .change table _ => table
  | .clone _ target => target

def step (tables : Nat → Columns Path Chain) : Step → Option (Nat → Columns Path Chain)
  | .change table new => ((tables table).change new).map (Function.update tables table)
  | .clone source target => some (Function.update tables target (tables source))

def run (steps : List Step) : Option (Nat → Columns Path Chain) := steps.foldlM step fun _ => {}

/-- A change is one more in the history of its table, and a clone takes over that of its source. -/
def record (histories : Nat → List Change) : Step → Nat → List Change
  | .change table new => Function.update histories table (histories table ++ [new])
  | .clone source target => Function.update histories target (histories source)

def histories (steps : List Step) : Nat → List Change := steps.foldl record fun _ => []

variable {tables after : Nat → Columns Path Chain}

theorem run_concat (steps : List Step) (next : Step) :
    run (steps ++ [next]) = (run steps).bind (step · next) := by
  simp only [run, List.foldlM_append, List.foldlM_cons, List.foldlM_nil, bind_pure]
  rfl

theorem histories_concat (steps : List Step) (next : Step) :
    histories (steps ++ [next]) = record (histories steps) next := by
  rw [histories, List.foldl_append]
  rfl

/-- Each table is aligned, and is the map that the changes in its history make. -/
def Made (tables : Nat → Columns Path Chain) (histories : Nat → List Change) : Prop :=
  ∀ i, (tables i).Aligned ∧ (tables i).toMap = ofChanges (histories i)

theorem made_empty : Made (fun _ => {}) fun _ => [] := fun _ => ⟨Columns.aligned_empty, rfl⟩

theorem Made.update {histories : Nat → List Change} (h : Made tables histories) (target : Nat)
    {table : Columns Path Chain} (haligned : table.Aligned) {changes : List Change}
    (hmap : table.toMap = ofChanges changes) :
    Made (Function.update tables target table) (Function.update histories target changes) := by
  intro i
  by_cases hi : i = target
  · rw [hi, Function.update_self, Function.update_self]
    exact ⟨haligned, hmap⟩
  · rw [Function.update_of_ne hi, Function.update_of_ne hi]
    exact h i

/-- A step succeeds, is recorded, and leaves the tables that it does not write. -/
theorem Made.step {histories : Nat → List Change} (h : Made tables histories) (next : Step) :
    ∃ after, step tables next = some after ∧ Made after (record histories next) ∧
      ∀ i, i ≠ next.target → after i = tables i := by
  cases next with
  | change table new =>
      obtain ⟨haligned, hmap⟩ := h table
      obtain ⟨changed, hchange, hchanged, hnew⟩ := haligned.change new
      refine ⟨Function.update tables table changed, congrArg (Option.map _) hchange,
        h.update table hchanged ?_, fun i hi => Function.update_of_ne hi ..⟩
      rw [hnew, hmap, ofChanges_concat]
  | clone source target =>
      exact ⟨_, rfl, h.update target (h source).1 (h source).2,
        fun i hi => Function.update_of_ne hi ..⟩

theorem exists_run (steps : List Step) :
    ∃ tables, run steps = some tables ∧ Made tables (histories steps) := by
  induction steps using List.reverseRecOn with
  | nil => exact ⟨_, rfl, made_empty⟩
  | append_singleton steps next ih =>
      obtain ⟨tables, hrun, hmade⟩ := ih
      obtain ⟨after, hstep, hafter, -⟩ := hmade.step next
      refine ⟨after, ?_, histories_concat steps next ▸ hafter⟩
      rw [run_concat, hrun, Option.bind_some, hstep]

/-- A table is what it was until a step writes it. -/
theorem exists_run_append {steps : List Step} (hrun : run steps = some tables) {i : Nat}
    {later : List Step} (hlater : ∀ next ∈ later, i ≠ next.target) :
    ∃ after, run (steps ++ later) = some after ∧ after i = tables i := by
  induction later using List.reverseRecOn with
  | nil => exact ⟨tables, by rw [List.append_nil, hrun], rfl⟩
  | append_singleton later next ih =>
      obtain ⟨between, hbetween, hkept⟩ := ih fun step hstep =>
        hlater step (List.mem_append_left _ hstep)
      obtain ⟨_, hmade, hhistories⟩ := exists_run (steps ++ later)
      obtain rfl := Option.some.inj (hbetween.symm.trans hmade)
      obtain ⟨after, hstep, -, hleft⟩ := hhistories.step next
      refine ⟨after, ?_, (hleft i (hlater next (by simp))).trans hkept⟩
      rw [← List.append_assoc, run_concat, hbetween, Option.bind_some, hstep]

/-- Whatever is done to tables in columns, nothing fails. Keys, values and index of each fit
together, so that setting a value succeeds once more, and all that can be read of the table is as in
the list of keys and values that the changes in its history make. A table is left alone by steps
that write other ones, be they clones of it or what it was cloned from. -/
theorem tables_ofChanges (steps : List Step) :
    ∃ tables, run steps = some tables ∧ ∀ i,
      let table := tables i
      let map := ofChanges (histories steps i)
      table.Aligned ∧ table.size = map.size ∧ table.isEmpty = map.isEmpty ∧
      (∀ path, table.get? path = map.get? path) ∧ table.keys.toList = map.keys ∧
      table.entries = map.entries ∧
      (∀ path chain, ∃ after, table.set path chain = some (chain, after)) ∧
      ∀ later, (∀ next ∈ later, i ≠ next.target) →
        ∃ after, run (steps ++ later) = some after ∧ after i = table := by
  obtain ⟨tables, hrun, hmade⟩ := exists_run steps
  refine ⟨tables, hrun, fun i => ?_⟩
  intro table map
  obtain ⟨haligned, hmap⟩ := hmade i
  have hmap : table.toMap = map := hmap
  refine ⟨haligned, ?_, ?_, fun path => ?_, ?_, congrArg OrderedMap.entries hmap,
    fun path chain => ?_, fun later hlater => exists_run_append hrun hlater⟩
  · rw [← hmap, haligned.size_toMap]
  · rw [← hmap, haligned.isEmpty_toMap]
  · rw [← hmap, haligned.get?_toMap]
  · rw [← hmap, haligned.keys_toMap]
  · obtain ⟨after, hset, -⟩ := haligned.set path chain
    exact ⟨after, hset⟩

example :
    let path := "/x".toList
    (run [.change 0 (.set path [1]), .clone 0 1, .change 1 (.modify path (· ++ [2])),
        .change 0 (.set "/b".toList []), .change 0 (.set path [3])]).map
      (fun tables => ((tables 0).entries, (tables 1).entries)) =
      some ([(path, [3]), ("/b".toList, [])], [(path, [1, 2])]) := by
  decide

end RouteTable

end PathRouter
