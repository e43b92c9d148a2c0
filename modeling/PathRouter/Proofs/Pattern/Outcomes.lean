import PathRouter.Pattern.Match

/-!
What a pattern matches, told without rows. `outcomes` lists every way in which a pattern matches
from a position, the preferred one first, as a backtracking search would come across them. A row
holds the first outcome that the continuation accepts, so a search takes the head of the list:
membership in the list decides whether there is a match, and the order decides which.
-/

namespace PathRouter

namespace Pattern

/-- How far a run of class characters may reach into a text, longest run first. -/
@[grind =] def runLengths (inClass : Char → Bool) : List Char → List Nat
  | [] => [0]
  | c :: text => if inClass c then (runLengths inClass text).map (· + 1) ++ [0] else [0]

/-- One way to match: where the match ends, and the ends of the groups on the way. -/
abbrev Outcome := Nat × List Mark

/-- All ways in which the pattern matches from a position, the preferred one first. -/
@[grind =] def outcomes : Pattern → List Char → Nat → List Outcome
  | .empty, _, i => [(i, [])]
  | .start, _, i => if i = 0 then [(i, [])] else []
  | .stop, text, i => if i = text.length then [(i, [])] else []
  | .char c, text, i => if text[i]?.any (· == c) then [(i + 1, [])] else []
  | .segment, text, i =>
    if text[i]?.any inSegment then
      (runLengths inSegment (text.drop (i + 1))).map fun n => (i + 1 + n, [])
    else []
  | .anyRun, text, i => (runLengths inLine (text.drop i)).map fun n => (i + n, [])
  | .seq p q, text, i =>
    (p.outcomes text i).flatMap fun o => (q.outcomes text o.1).map fun o' => (o'.1, o.2 ++ o'.2)
  | .alt p q, text, i => p.outcomes text i ++ q.outcomes text i
  | .group p, text, i => p.outcomes text i
  | .capture n p, text, i =>
    (p.outcomes text i).map fun o => (o.1, .opened n i :: (o.2 ++ [.closed n o.1]))

/-! ### Rows hold the first accepted outcome -/

def Outcome.into (row : Row (List Mark)) (o : Outcome) : Option (List Mark) :=
  (row.entry o.1).map (o.2 ++ ·)

def firstInto (row : Row (List Mark)) (os : List Outcome) : Option (List Mark) :=
  os.findSome? (Outcome.into row)

@[simp] theorem firstInto_nil (row : Row (List Mark)) : firstInto row [] = none := rfl

@[simp] theorem firstInto_singleton (row : Row (List Mark)) (i : Nat) :
    firstInto row [(i, [])] = row.entry i := by
  cases h : row.entry i <;> simp [firstInto, Outcome.into, h]

theorem firstInto_append (row : Row (List Mark)) (os os' : List Outcome) :
    firstInto row (os ++ os') = (firstInto row os <|> firstInto row os') := by
  simp [firstInto, List.findSome?_append]

/-- A greedy run of a class prefers the longest run after which the row has something. -/
theorem entry_readMany_eq (inClass : Char → Bool) {text : List Char} {row : Row (List Mark)}
    (h : row.length = text.length + 1) (i : Nat) :
    (Row.readMany inClass text row).entry i =
      firstInto row ((runLengths inClass (text.drop i)).map fun n => (i + n, [])) := by
  by_cases hi : i < text.length
  · -- the rows are filled from the right, so the induction goes towards the end of the text
    have ih := entry_readMany_eq inClass h (i + 1)
    rw [Row.entry_readMany inClass h, ih, List.drop_eq_getElem_cons hi]
    by_cases hc : inClass text[i]
    · simp only [runLengths, hc, if_true, List.getElem?_eq_getElem hi, Option.any_some,
        List.map_append, List.map_map, firstInto_append]
      simp [Function.comp_def, Nat.add_comm, Nat.add_left_comm]
    · simp [runLengths, hc, List.getElem?_eq_getElem hi]
  · have hlen : text.length ≤ i := by omega
    rw [Row.entry_readMany inClass h, List.drop_eq_nil_of_le hlen, List.getElem?_eq_none hlen]
    simp [runLengths]
termination_by text.length - i

theorem length_run (p : Pattern) {text : List Char} {row : Row (List Mark)}
    (h : row.length = text.length + 1) : (p.run text row).length = text.length + 1 := by
  induction p generalizing row with
  | empty => exact h
  | start => rw [run, Row.length_atStart, h]
  | stop => rw [run, Row.length_atStop, h]
  | char c => exact Row.length_readOne _ h
  | segment => exact Row.length_readOne _ (Row.length_readMany _ h)
  | anyRun => exact Row.length_readMany _ h
  | seq p q ihp ihq => exact ihp (ihq h)
  | alt p q ihp ihq => rw [run, Row.length_orElse ((ihp h).trans (ihq h).symm), ihp h]
  | group p ih => exact ih h
  | capture n p ih =>
      rw [run, Row.length_mapAt]
      exact ih (by rw [Row.length_mapAt, h])

/-- The row of a pattern and a continuation holds, for each position, the first outcome of the
pattern there that the continuation accepts. -/
theorem entry_run (p : Pattern) {text : List Char} {row : Row (List Mark)}
    (h : row.length = text.length + 1) (i : Nat) :
    (p.run text row).entry i = firstInto row (p.outcomes text i) := by
  induction p generalizing row i with
  | empty => simp [run, outcomes]
  | start =>
      rw [run, Row.entry_atStart, outcomes]
      split <;> simp
  | stop =>
      rw [run, Row.entry_atStop, outcomes, h]
      by_cases hi : i = text.length <;> simp [hi]
  | char c =>
      rw [run, Row.entry_readOne _ h, outcomes]
      split <;> simp
  | segment =>
      rw [run, Row.entry_readOne _ (Row.length_readMany _ h), outcomes]
      split
      · exact entry_readMany_eq inSegment h (i + 1)
      · rfl
  | anyRun => exact entry_readMany_eq inLine h i
  | seq p q ihp ihq =>
      -- the row of `q` is what `p` goes on with, so each outcome of `p` is followed by those of `q`
      rw [run, ihp (length_run q h), outcomes]
      generalize p.outcomes text i = os
      induction os with
      | nil => rfl
      | cons o os ih =>
          have hhead : Outcome.into (q.run text row) o =
              firstInto row ((q.outcomes text o.1).map fun o' => (o'.1, o.2 ++ o'.2)) := by
            rw [Outcome.into, ihq h]
            simp [firstInto, List.findSome?_map, Function.comp_def, Outcome.into, List.append_assoc]
          rw [List.flatMap_cons, firstInto_append, ← ih, ← hhead]
          cases hv : Outcome.into (q.run text row) o <;> simp [firstInto, hv]
  | alt p q ihp ihq =>
      rw [run, Row.entry_orElse (by rw [length_run p h, length_run q h]), ihp h, ihq h, outcomes,
        firstInto_append]
  | group p ih => exact ih h i
  | capture n p ih =>
      rw [run, Row.entry_mapAt, ih (by rw [Row.length_mapAt, h]), outcomes]
      simp [firstInto, List.findSome?_map, Function.comp_def, Outcome.into, Row.entry_mapAt]

end Pattern

end PathRouter
