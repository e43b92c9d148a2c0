import Mathlib.Data.List.Basic
import Mathlib.Tactic.Common
import PathRouter.Pattern.Reader

/-!
Patterns are read back from their texts. A list of lexemes is the only one with its text, whatever
characters stand in it; and the reader takes the lexemes of a pattern for what they were written
for, if the pattern is put together in the one way that its text can tell.
-/

namespace PathRouter

namespace Pattern

/-! ### Lexemes -/

/-- No lexeme starts with a question mark, so the one that may follow an open bracket is seen for
what it is. -/
theorem head?_flatMap_spelling (lexemes : List Lexeme) :
    (lexemes.flatMap Lexeme.spelling).head? ≠ some '?' := by
  cases lexemes with
  | nil => simp
  | cons lexeme rest =>
      cases lexeme with
      | char c =>
          rw [List.flatMap_cons, Lexeme.spelling, escape]
          split
          · simp
          · next hc =>
              rintro h
              obtain rfl : c = '?' := by simpa using h
              exact hc (by decide)
      | _ => simp [Lexeme.spelling]

theorem lexemes?_spelling_append (lexeme : Lexeme) {rest : List Char} (h : rest.head? ≠ some '?') :
    lexemes? (lexeme.spelling ++ rest) = (lexemes? rest).map (lexeme :: ·) := by
  cases lexeme with
  | char c =>
      rw [Lexeme.spelling, escape]
      split
      · next hc => simp [lexemes?, hc]
      · next hc =>
          rw [List.singleton_append, lexemes?, if_neg hc]
          -- all other rules are for characters that are special
          all_goals
            simp only [special, List.mem_cons, not_or] at hc
            grind
  | capture =>
      rw [Lexeme.spelling, List.singleton_append, lexemes?]
      all_goals grind
  | _ => rfl

theorem lexemes?_flatMap_spelling (lexemes : List Lexeme) :
    lexemes? (lexemes.flatMap Lexeme.spelling) = some lexemes := by
  induction lexemes with
  | nil => rfl
  | cons lexeme rest ih =>
      rw [List.flatMap_cons, lexemes?_spelling_append lexeme (head?_flatMap_spelling rest), ih,
        Option.map_some]

/-- A text that can be cut into lexemes is nothing but their spellings. -/
theorem lexemes?_eq_some_iff {text : List Char} {lexemes : List Lexeme} :
    lexemes? text = some lexemes ↔ lexemes.flatMap Lexeme.spelling = text := by
  constructor
  · intro h
    fun_induction lexemes? text generalizing lexemes with
    | case1 =>
        cases h
        rfl
    | case3 | case5 | case13 => cases h
    | _ =>
        -- the rule that was used has cut off one lexeme
        obtain ⟨after, hafter, rfl⟩ := Option.map_eq_some_iff.1 h
        simp_all [Lexeme.spelling, escape]
  · rintro rfl
    exact lexemes?_flatMap_spelling lexemes

def lexemes : Pattern → List Lexeme
  | .empty => []
  | .start => [.start]
  | .stop => [.stop]
  | .char c => [.char c]
  | .segment => [.segment]
  | .anyRun => [.anyRun]
  | .seq p q => p.lexemes ++ q.lexemes
  | .alt p q => p.lexemes ++ .bar :: q.lexemes
  | .group p => .bracket :: (p.lexemes ++ [.close])
  | .capture _ p => .capture :: (p.lexemes ++ [.close])

theorem flatMap_spelling_lexemes (p : Pattern) : p.lexemes.flatMap Lexeme.spelling = p.text := by
  induction p <;> simp_all [lexemes, text, Lexeme.spelling]

theorem lexemes?_text (p : Pattern) : lexemes? p.text = some p.lexemes := by
  rw [← flatMap_spelling_lexemes, lexemes?_flatMap_spelling]

/-! ### Patterns that their texts can tell -/

def IsItem : Pattern → Prop
  | .empty | .seq _ _ | .alt _ _ => False
  | _ => True

def IsBranch : Pattern → Prop
  | .alt _ _ => False
  | _ => True

/-- Sequences and alternations nest to the right, and alternations in sequences are bracketed. A
text tells no other pattern. -/
def Canonical : Pattern → Prop
  | .seq p q => (p.IsItem ∧ p.Canonical) ∧ q ≠ .empty ∧ q.IsBranch ∧ q.Canonical
  | .alt p q => (p.IsBranch ∧ p.Canonical) ∧ q.Canonical
  | .group p => p.Canonical
  | .capture _ p => p.Canonical
  | _ => True

def captures : Pattern → Nat
  | .seq p q | .alt p q => p.captures + q.captures
  | .group p => p.captures
  | .capture _ p => 1 + p.captures
  | _ => 0

/-- The ordinals of the groups are counted up from `next`, in the order of the text. -/
def CountsFrom : Pattern → Nat → Prop
  | .seq p q, next | .alt p q, next => p.CountsFrom next ∧ q.CountsFrom (next + p.captures)
  | .group p, next => p.CountsFrom next
  | .capture n p, next => n = next ∧ p.CountsFrom (next + 1)
  | _, _ => True

def items : Pattern → List Pattern
  | .empty => []
  | .seq p q => p :: q.items
  | p => [p]

def branches : Pattern → List Pattern
  | .alt p q => p :: q.branches
  | p => [p]

theorem concat_items {p : Pattern} (hp : p.IsBranch) (h : p.Canonical) : concat p.items = p := by
  induction p with
  | seq p q _ ih =>
      obtain ⟨-, hne, hq, hcanonical⟩ := h
      have hitems := ih hq hcanonical
      cases q with
      | empty => exact absurd rfl hne
      | alt => exact hq.elim
      | _ => simp_all [items, concat]
  | alt => exact hp.elim
  | _ => rfl

theorem choice_branches (p : Pattern) : choice p.branches = p := by
  induction p with
  | alt p q _ ih =>
      have hq : ∃ b bs, q.branches = b :: bs := by cases q <;> exact ⟨_, _, rfl⟩
      obtain ⟨b, bs, hbranches⟩ := hq
      rw [branches, hbranches, choice, ← hbranches, ih]
      simp
  | _ => rfl

/-! ### Reading -/

/-- Taken as a part of a sequence, the pattern adds its items. -/
def ReadsItems (p : Pattern) : Prop :=
  ∀ reader : Reader, p.CountsFrom (reader.captures + 1) →
    p.lexemes.foldlM Reader.take reader = some
      { reader with
        items := p.items.reverse ++ reader.items
        captures := reader.captures + p.captures }

def ReadsBranches (p : Pattern) : Prop :=
  ∀ reader : Reader, reader.items = [] → p.CountsFrom (reader.captures + 1) →
    ∃ after, p.lexemes.foldlM Reader.take reader = some after ∧
      after.branches = p.branches.reverse ++ reader.alternatives ∧
      after.opened = reader.opened ∧ after.captures = reader.captures + p.captures

/-- A part of a sequence may also stand as a branch. -/
theorem ReadsItems.readsBranches {p : Pattern} (h : p.ReadsItems) (hp : p.IsBranch)
    (hcanonical : p.Canonical) : p.ReadsBranches := by
  intro reader hitems hcounts
  refine ⟨_, h reader hcounts, ?_, rfl, rfl⟩
  have hbranches : p.branches = [p] := by
    cases p with
    | alt => exact hp.elim
    | _ => rfl
  simp [Reader.branches, hitems, hbranches, concat_items hp hcanonical]

/-- A bracketed pattern is one item, whatever its branches. -/
theorem ReadsBranches.leave {p : Pattern} (h : p.ReadsBranches) (reader : Reader)
    {ordinal : Option Nat} (hcounts : p.CountsFrom (reader.captures + ordinal.toList.length + 1)) :
    (p.lexemes ++ [Lexeme.close]).foldlM Reader.take (reader.enter ordinal) = some
      { reader with
        items := bracketed ordinal p :: reader.items
        captures := reader.captures + ordinal.toList.length + p.captures } := by
  obtain ⟨after, hafter, hbranches, hopened, hcaptures⟩ := h (reader.enter ordinal) rfl hcounts
  have hcontent : after.content = p := by
    rw [Reader.content, hbranches]
    simp [Reader.enter, choice_branches]
  rw [List.foldlM_append, hafter]
  simp [Reader.take, Reader.leave, hopened, Reader.enter, hcontent, hcaptures]

theorem ReadsBranches.readsItems_group {p : Pattern} (h : p.ReadsBranches) :
    (group p).ReadsItems :=
  fun reader hcounts => h.leave reader hcounts

theorem ReadsBranches.readsItems_capture {p : Pattern} (h : p.ReadsBranches) (n : Nat) :
    (capture n p).ReadsItems := by
  intro reader hcounts
  obtain ⟨rfl, hcounts⟩ := hcounts
  refine (@leave p h reader (some (reader.captures + 1)) hcounts).trans ?_
  rw [Nat.add_assoc]
  rfl

theorem ReadsItems.seq {p q : Pattern} (hp : p.ReadsItems) (hitem : p.IsItem) (hq : q.ReadsItems) :
    (seq p q).ReadsItems := by
  intro reader hcounts
  have hitems : p.items = [p] := by
    cases p with
    | empty | seq | alt => exact hitem.elim
    | _ => rfl
  obtain ⟨hcp, hcq⟩ := hcounts
  rw [Nat.add_right_comm] at hcq
  rw [lexemes, List.foldlM_append, hp reader hcp]
  refine (hq _ hcq).trans ?_
  simp [items, captures, hitems, Nat.add_assoc]

theorem ReadsBranches.alt {p q : Pattern} (hp : p.ReadsItems) (hbranch : p.IsBranch)
    (hcanonical : p.Canonical) (hq : q.ReadsBranches) : (alt p q).ReadsBranches := by
  intro reader hitems hcounts
  obtain ⟨hcp, hcq⟩ := hcounts
  rw [Nat.add_right_comm] at hcq
  have hp := hp reader hcp
  -- the bar ends the branch, and the rest starts with one branch more
  obtain ⟨after, hafter, hbranches, hopened, hcaptures⟩ :=
    hq { reader with
      alternatives := p :: reader.alternatives
      captures := reader.captures + p.captures } hitems hcq
  refine ⟨after, ?_, ?_, hopened, ?_⟩
  · rw [lexemes, List.foldlM_append, hp]
    simpa [Reader.take, Reader.branches, hitems, concat_items hbranch hcanonical] using hafter
  · simpa [branches] using hbranches
  · rw [hcaptures, captures, Nat.add_assoc]

theorem ReadsItems.reads {p : Pattern} (h : p.ReadsItems) (hp : p.IsBranch)
    (hcanonical : p.Canonical) : (p.IsBranch → p.ReadsItems) ∧ p.ReadsBranches :=
  ⟨fun _ => h, h.readsBranches hp hcanonical⟩

/-- The reader takes all lexemes of a canonical pattern for what they were written for. -/
theorem reads_of_canonical {p : Pattern} (h : p.Canonical) :
    (p.IsBranch → p.ReadsItems) ∧ p.ReadsBranches := by
  induction p with
  | seq p q ihp ihq =>
      obtain ⟨⟨hitem, hp⟩, hq⟩ := id h
      have hbranch : p.IsBranch := by
        cases p with
        | alt => exact hitem.elim
        | _ => trivial
      exact (((ihp hp).1 hbranch).seq hitem ((ihq hq.2.2).1 hq.2.1)).reads trivial h
  | alt p q ihp ihq =>
      obtain ⟨⟨hbranch, hp⟩, hq⟩ := h
      exact ⟨fun hp => hp.elim, .alt ((ihp hp).1 hbranch) hbranch hp (ihq hq).2⟩
  | group p ih => exact (ih h).2.readsItems_group.reads trivial h
  | capture n p ih => exact ((ih h).2.readsItems_capture n).reads trivial h
  | _ => exact ReadsItems.reads (fun _ _ => rfl) trivial h

/-- A canonical pattern whose groups are counted from one is read back from its text. -/
theorem read?_text {p : Pattern} (h : p.Canonical) (hcounts : p.CountsFrom 1) :
    read? p.text = some p := by
  obtain ⟨after, hafter, hbranches, hopened, -⟩ := (reads_of_canonical h).2 {} rfl hcounts
  have hcontent : after.content = p := by
    rw [Reader.content, hbranches]
    simp [choice_branches]
  simp [read?, lexemes?_text, hafter, hopened, hcontent]

end Pattern

end PathRouter
