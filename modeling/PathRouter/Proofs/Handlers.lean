import Mathlib.Data.List.Basic
import Mathlib.Data.List.Induction
import Mathlib.Tactic.Common
import PathRouter.Handlers

/-!
Handlers taken from both ends of a view. Each call does to the list of what is to come what its name
says, so whatever is called, what was taken in front, what is to come and what was taken behind make
up the handlers that the view started with. Once there is nothing to come, nothing is taken any
more.
-/

namespace PathRouter

namespace Handlers

variable {α : Type} {handlers : Handlers α}

def Within (handlers : Handlers α) : Prop := ∀ id ∈ handlers.ids, id < handlers.store.size

instance (handlers : Handlers α) : Decidable handlers.Within :=
  inferInstanceAs (Decidable (∀ id ∈ handlers.ids, id < handlers.store.size))

/-- The handlers that so many calls of `next` yield, and the view they leave. -/
def skip : Nat → Handlers α → List α × Handlers α
  | 0, handlers => ([], handlers)
  | n + 1, handlers =>
    let later := skip n handlers.next.2
    (handlers.next.1.toList ++ later.1, later.2)

/-! ### The list of what is to come -/

theorem next_snd (handlers : Handlers α) :
    handlers.next.2 = { handlers with ids := handlers.ids.tail } := by
  obtain ⟨store, ids⟩ := handlers
  cases ids <;> rfl

theorem nextBack_concat (store : Array α) (front : Chain) (id : HandlerId) :
    nextBack { store, ids := front ++ [id] } = (store[id]?, { store, ids := front }) := by
  simp [nextBack]

theorem skip_snd (handlers : Handlers α) (n : Nat) :
    (handlers.skip n).2 = { handlers with ids := handlers.ids.drop n } := by
  induction n generalizing handlers with
  | zero => rfl
  | succ n ih => rw [skip, ih, next_snd, List.drop_tail]

/-- To skip is to take, and to leave what is taken. -/
theorem nth_eq (handlers : Handlers α) (n : Nat) : handlers.nth n = (handlers.skip n).2.next := by
  rw [skip_snd, nth]

namespace Within

theorem of_subset (h : handlers.Within) {ids : Chain} (hids : ids ⊆ handlers.ids) :
    Within { handlers with ids } :=
  fun id hid => h id (hids hid)

theorem exists_handler (h : handlers.Within) {id : HandlerId} (hid : id ∈ handlers.ids) :
    ∃ handler, handlers.store[id]? = some handler :=
  ⟨_, getElem?_pos handlers.store id (h id hid)⟩

theorem map_toList (h : handlers.Within) :
    handlers.toList.map some = handlers.ids.map (handlers.store[·]?) := by
  obtain ⟨store, ids⟩ := handlers
  rw [toList]
  induction ids with
  | nil => rfl
  | cons id ids ih =>
      obtain ⟨handler, hhandler⟩ := h.exists_handler List.mem_cons_self
      rw [List.filterMap_cons_some hhandler, List.map_cons, List.map_cons, hhandler,
        ih (h.of_subset (List.subset_cons_self id ids))]

theorem length_toList (h : handlers.Within) : handlers.toList.length = handlers.size := by
  have hlength := congrArg List.length h.map_toList
  rwa [List.length_map, List.length_map] at hlength

theorem toList_drop (h : handlers.Within) (n : Nat) :
    toList { handlers with ids := handlers.ids.drop n } = handlers.toList.drop n := by
  -- no position is made up, so the handlers are told apart as the entries of the store are
  apply List.map_injective_iff.2 fun _ _ => Option.some.inj
  rw [(h.of_subset (List.drop_subset n handlers.ids)).map_toList, List.map_drop, List.map_drop,
    h.map_toList]

theorem next (h : handlers.Within) : handlers.next.1 = handlers.toList.head? ∧
    handlers.next.2.toList = handlers.toList.tail ∧ handlers.next.2.Within := by
  obtain ⟨store, ids⟩ := handlers
  cases ids with
  | nil => exact ⟨rfl, rfl, h⟩
  | cons id ids =>
      obtain ⟨handler, hhandler⟩ := h.exists_handler List.mem_cons_self
      have hlist : toList { store, ids := id :: ids } = handler :: toList { store, ids } :=
        List.filterMap_cons_some hhandler
      rw [hlist]
      exact ⟨hhandler, rfl, h.of_subset (List.subset_cons_self id ids)⟩

theorem nextBack (h : handlers.Within) : handlers.nextBack.1 = handlers.toList.getLast? ∧
    handlers.nextBack.2.toList = handlers.toList.dropLast ∧ handlers.nextBack.2.Within := by
  obtain ⟨store, ids⟩ := handlers
  rcases List.eq_nil_or_concat ids with rfl | ⟨front, id, rfl⟩
  · exact ⟨rfl, rfl, h⟩
  · rw [List.concat_eq_append] at h ⊢
    obtain ⟨handler, hhandler⟩ := h.exists_handler (List.mem_append_right front List.mem_cons_self)
    have hlist : toList { store, ids := front ++ [id] } =
        toList { store, ids := front } ++ [handler] := by
      rw [toList, List.filterMap_append, List.filterMap_cons_some hhandler]
      rfl
    rw [nextBack_concat, hlist, List.getLast?_concat, List.dropLast_concat]
    exact ⟨hhandler, rfl, h.of_subset (List.subset_append_left front [id])⟩

theorem skip (h : handlers.Within) (n : Nat) : (handlers.skip n).1 = handlers.toList.take n ∧
    (handlers.skip n).2.toList = handlers.toList.drop n ∧ (handlers.skip n).2.Within := by
  refine ⟨?_, ?_, ?_⟩
  · induction n generalizing handlers with
    | zero => rfl
    | succ n ih =>
        obtain ⟨hnext, htail, hrest⟩ := h.next
        show handlers.next.1.toList ++ (handlers.next.2.skip n).1 = _
        rw [ih hrest, hnext, htail]
        cases handlers.toList with
        | nil => simp
        | cons handler coming => rfl
  · rw [skip_snd, h.toList_drop]
  · rw [skip_snd]
    exact h.of_subset (List.drop_subset n _)

theorem nth (h : handlers.Within) (n : Nat) : (handlers.nth n).1 = handlers.toList[n]? ∧
    (handlers.nth n).2.toList = handlers.toList.drop (n + 1) ∧ (handlers.nth n).2.Within := by
  obtain ⟨-, hskipped, hrest⟩ := h.skip n
  obtain ⟨hnext, htail, hwithin⟩ := hrest.next
  rw [nth_eq, hnext, htail, hskipped, List.head?_drop, List.tail_drop]
  exact ⟨rfl, rfl, hwithin⟩

end Within

/-! ### Calls -/

inductive Call
  | next
  | nextBack
  | nth (n : Nat)
  | size
  | sizeHint
  /-- Copies the view, and takes from the copy what it has. -/
  | clone
  deriving DecidableEq, Repr

inductive Answer (α : Type)
  | taken (handler : Option α)
  | size (n : Nat)
  | bounds (lower upper : Nat)
  | listed (handlers : List α)
  deriving DecidableEq, Repr

def call (handlers : Handlers α) : Call → Answer α × Handlers α
  | .next => (.taken handlers.next.1, handlers.next.2)
  | .nextBack => (.taken handlers.nextBack.1, handlers.nextBack.2)
  | .nth n => (.taken (handlers.nth n).1, (handlers.nth n).2)
  | .size => (.size handlers.size, handlers)
  | .sizeHint => (.bounds handlers.sizeHint.1 handlers.sizeHint.2, handlers)
  | .clone => (.listed handlers.toList, handlers)

/-- What a call takes in front: what it yields, behind what it skips. -/
def takenInFront (handlers : Handlers α) : Call → List α
  | .next => handlers.next.1.toList
  | .nth n => (handlers.skip n).1 ++ (handlers.nth n).1.toList
  | .nextBack | .size | .sizeHint | .clone => []

def takenBehind (handlers : Handlers α) : Call → List α
  | .nextBack => handlers.nextBack.1.toList
  | .next | .nth _ | .size | .sizeHint | .clone => []

/-- What was taken from both ends, each in the order in which it was, and the view that is left. -/
structure Ends (α : Type) where
  front : List α
  rest : Handlers α
  back : List α

def Ends.call (ends : Ends α) (call : Call) : Ends α where
  front := ends.front ++ ends.rest.takenInFront call
  rest := (ends.rest.call call).2
  back := ends.back ++ ends.rest.takenBehind call

def ends (handlers : Handlers α) (calls : List Call) : Ends α :=
  calls.foldl Ends.call { front := [], rest := handlers, back := [] }

theorem ends_append (handlers : Handlers α) (calls more : List Call) :
    handlers.ends (calls ++ more) = more.foldl Ends.call (handlers.ends calls) :=
  List.foldl_append

namespace Within

/-- A call moves handlers from what is to come to the two ends, and loses none. -/
theorem call (h : handlers.Within) (call : Call) : (handlers.call call).2.Within ∧
    handlers.takenInFront call ++ (handlers.call call).2.toList ++
      (handlers.takenBehind call).reverse = handlers.toList := by
  cases call with
  | next =>
      obtain ⟨hnext, htail, hrest⟩ := h.next
      refine ⟨hrest, ?_⟩
      rw [takenInFront, takenBehind, Handlers.call, hnext, htail, List.reverse_nil, List.append_nil]
      cases handlers.toList <;> rfl
  | nextBack =>
      obtain ⟨hlast, hfront, hrest⟩ := h.nextBack
      refine ⟨hrest, ?_⟩
      rw [takenInFront, takenBehind, Handlers.call, hlast, hfront, List.nil_append]
      rcases List.eq_nil_or_concat handlers.toList with hnil | ⟨front, last, hconcat⟩
      · rw [hnil]
        rfl
      · rw [hconcat, List.concat_eq_append, List.getLast?_concat, List.dropLast_concat]
        rfl
  | nth n =>
      obtain ⟨hskipped, -, -⟩ := h.skip n
      obtain ⟨hnth, hdrop, hrest⟩ := h.nth n
      refine ⟨hrest, ?_⟩
      rw [takenInFront, takenBehind, Handlers.call, hskipped, hnth, hdrop, List.reverse_nil,
        List.append_nil, ← List.take_add_one, List.take_append_drop]
  | size | sizeHint | clone => exact ⟨h, List.append_nil _⟩

/-- A call that could have taken a handler and did not leaves nothing to come. -/
theorem toList_eq_nil (h : handlers.Within) {call : Call}
    (hnone : (handlers.call call).1 = .taken none) : (handlers.call call).2.toList = [] := by
  cases call with
  | next =>
      obtain ⟨hnext, htail, -⟩ := h.next
      rw [Handlers.call, Answer.taken.injEq, hnext, List.head?_eq_none_iff] at hnone
      rw [Handlers.call, htail, hnone, List.tail_nil]
  | nextBack =>
      obtain ⟨hlast, hfront, -⟩ := h.nextBack
      rw [Handlers.call, Answer.taken.injEq, hlast, List.getLast?_eq_none_iff] at hnone
      rw [Handlers.call, hfront, hnone, List.dropLast_nil]
  | nth n =>
      obtain ⟨hnth, hdrop, -⟩ := h.nth n
      rw [Handlers.call, Answer.taken.injEq, hnth, List.getElem?_eq_none_iff] at hnone
      rw [Handlers.call, hdrop, List.drop_eq_nil_iff]
      omega
  | size | sizeHint | clone => cases hnone

/-- Where nothing is to come, nothing is taken, and nothing is to come afterwards. -/
theorem exhausted (h : handlers.Within) (hnil : handlers.toList = []) (call : Call) :
    (handlers.call call).2.toList = [] ∧
      ∀ handler, (handlers.call call).1 = .taken handler → handler = none := by
  constructor
  · have hwhole := (h.call call).2
    rw [hnil, List.append_eq_nil_iff, List.append_eq_nil_iff] at hwhole
    exact hwhole.1.2
  · intro handler hanswer
    cases call with
    | next => rw [← Answer.taken.inj hanswer, h.next.1, hnil, List.head?_nil]
    | nextBack => rw [← Answer.taken.inj hanswer, h.nextBack.1, hnil, List.getLast?_nil]
    | nth n => rw [← Answer.taken.inj hanswer, (h.nth n).1, hnil, List.getElem?_nil]
    | size | sizeHint | clone => cases hanswer

/-- The two ends and what is to come make up the handlers of the view. -/
theorem ends (h : handlers.Within) (calls : List Call) :
    (handlers.ends calls).rest.Within ∧
      (handlers.ends calls).front ++ (handlers.ends calls).rest.toList ++
        (handlers.ends calls).back.reverse = handlers.toList := by
  induction calls using List.reverseRecOn with
  | nil => exact ⟨h, List.append_nil _⟩
  | append_singleton calls call ih =>
      obtain ⟨hrest, hwhole⟩ := ih
      obtain ⟨hleft, hmoved⟩ := hrest.call call
      refine ⟨by rwa [ends_append], ?_⟩
      rw [← hwhole, ← hmoved, ends_append]
      simp only [List.foldl_cons, List.foldl_nil, Ends.call, List.reverse_append, List.append_assoc]

theorem ends_exhausted (h : handlers.Within) {calls : List Call}
    (hnil : (handlers.ends calls).rest.toList = []) (later : List Call) :
    (handlers.ends (calls ++ later)).rest.toList = [] := by
  induction later using List.reverseRecOn with
  | nil => rwa [List.append_nil]
  | append_singleton later call ih =>
      have hrest := (h.ends (calls ++ later)).1
      rw [← List.append_assoc, ends_append]
      exact (hrest.exhausted ih call).1

end Within

/-- A view yields its handlers from both ends, each of them once. After all calls, what was taken in
front or skipped there, what a copy of the view has, and what was taken from the back, read
backwards, are the handlers of all positions in order; the copy has what the view yields to `next`,
and its length is the size and both bounds. A call that could have taken a handler and did not is
followed by no other one that takes one. -/
theorem taken_from_both_ends (h : handlers.Within) (calls : List Call) :
    let ends := handlers.ends calls
    let coming := ends.rest.toList
    (ends.front ++ coming ++ ends.back.reverse).map some =
      handlers.ids.map (handlers.store[·]?) ∧
    (ends.rest.call .clone).1 = .listed coming ∧ (∀ n, (ends.rest.skip n).1 = coming.take n) ∧
    (ends.rest.call .size).1 = .size coming.length ∧
    (ends.rest.call .sizeHint).1 = .bounds coming.length coming.length ∧
    ∀ call later other handler, (ends.rest.call call).1 = .taken none →
      ((handlers.ends (calls ++ call :: later)).rest.call other).1 = .taken handler →
        handler = none := by
  intro ends coming
  obtain ⟨hrest, hwhole⟩ := h.ends calls
  have hsize : ends.rest.size = coming.length := hrest.length_toList.symm
  refine ⟨?_, rfl, fun n => (hrest.skip n).1, congrArg Answer.size hsize,
    congrArg₂ Answer.bounds hsize hsize, ?_⟩
  · show ((handlers.ends calls).front ++ (handlers.ends calls).rest.toList ++
      (handlers.ends calls).back.reverse).map some = _
    rw [hwhole, h.map_toList]
  · intro call later other handler hnone hanswer
    have hnil : (handlers.ends (calls ++ [call])).rest.toList = [] := by
      rw [ends_append]
      exact hrest.toList_eq_nil hnone
    have hlater := h.ends_exhausted hnil later
    rw [List.append_cons] at hanswer
    exact (((h.ends _).1.exhausted hlater other).2 handler hanswer)

/-- Two handlers are left when one is skipped to take the other, and none when it is tried again. -/
theorem taken_from_both_ends_meeting :
    let handlers : Handlers Nat := { store := #[10, 20, 30], ids := [2, 0, 2, 1] }
    let calls := [Call.next, .clone, .nextBack, .nth 1, .size]
    handlers.Within ∧ (handlers.ends calls).front = [30, 10, 30] ∧
      (handlers.ends calls).back = [20] ∧ (handlers.ends calls).rest.toList = [] ∧
      ([30, 10, 30] ++ [] ++ [20].reverse).map some = handlers.ids.map (handlers.store[·]?) ∧
      ((handlers.ends calls).rest.call .sizeHint).1 = .bounds 0 0 ∧
      ((handlers.ends calls).rest.call (.nth 1)).1 = .taken none ∧
      ∀ handler, ((handlers.ends (calls ++ [.nth 1, .size])).rest.call .nextBack).1 =
        .taken handler → handler = none := by
  intro handlers calls
  have hwithin : handlers.Within := by decide
  have hnone : ((handlers.ends calls).rest.call (.nth 1)).1 = .taken none := rfl
  obtain ⟨hwhole, -, -, -, hbounds, hlater⟩ := taken_from_both_ends hwithin calls
  exact ⟨hwithin, rfl, rfl, rfl, hwhole, hbounds, hnone,
    fun handler => hlater (.nth 1) [.size] .nextBack handler hnone⟩

end Handlers

end PathRouter
