import PathRouter.Proofs.Path.Tokenize

/-!
Paths in segments. Between two slashes stands a plain text or a parameter that fills the segment,
and behind the last slash there may be a star. The names of the parameters neither show in the keys
of such a path nor tell whether it is static: other names only make the path longer or shorter.
-/

namespace PathRouter

/-- No colon of a path follows a slash in a part without slashes. -/
theorem Path.hasSlashColon_append {front back : Path} (h : '/' ∉ front) :
    hasSlashColon (front ++ back) = back.hasSlashColon := by
  induction front with
  | nil => rfl
  | cons c front ih =>
      rw [List.mem_cons, not_or] at h
      rw [List.cons_append, hasSlashColon, ih h.2, beq_eq_false_iff_ne.2 (Ne.symm h.1),
        Bool.false_and, Bool.false_or]

/-- What stands between two slashes: plain text, or a parameter and nothing else. -/
inductive Segment
  | text (chars : List Char) (plain : '/' ∉ chars ∧ ':' ∉ chars ∧ '*' ∉ chars)
  | param (name : List Char) (named : name ≠ [] ∧ '/' ∉ name ∧ '*' ∉ name)

namespace Segment

def spelling : Segment → List Char
  | .text chars _ => chars
  | .param name _ => ':' :: name

def keys : Segment → List Key
  | .text chars _ => chars.map .literal
  | .param _ _ => [.label]

def isParam : Segment → Bool
  | .text _ _ => false
  | .param _ _ => true

inductive Renamed : Segment → Segment → Prop
  | text (chars : List Char) plain : Renamed (.text chars plain) (.text chars plain)
  | param (name : List Char) named (name' : List Char) named' :
      Renamed (.param name named) (.param name' named')

theorem Renamed.keys_eq {s s' : Segment} (h : s.Renamed s') : s'.keys = s.keys := by
  cases h <;> rfl

theorem Renamed.isParam_eq {s s' : Segment} (h : s.Renamed s') : s'.isParam = s.isParam := by
  cases h <;> rfl

variable {rest rest' : List Segment}

theorem flatMap_keys_of_renamed (h : List.Forall₂ Renamed rest rest') :
    rest'.flatMap (fun s => .literal '/' :: s.keys) =
      rest.flatMap fun s => .literal '/' :: s.keys := by
  induction h with
  | nil => rfl
  | cons hs _ ih => rw [List.flatMap_cons, List.flatMap_cons, hs.keys_eq, ih]

theorem any_isParam_of_renamed (h : List.Forall₂ Renamed rest rest') :
    rest'.any isParam = rest.any isParam := by
  induction h with
  | nil => rfl
  | cons hs _ ih => rw [List.any_cons, List.any_cons, hs.isParam_eq, ih]

variable (s : Segment)

theorem star_notMem_spelling : '*' ∉ s.spelling := by
  cases s with
  | text chars plain => exact plain.2.2
  | param name named =>
      rw [spelling, List.mem_cons, not_or]
      exact ⟨by decide, named.2.2⟩

theorem slash_notMem_spelling : '/' ∉ s.spelling := by
  cases s with
  | text chars plain => exact plain.1
  | param name named =>
      rw [spelling, List.mem_cons, not_or]
      exact ⟨by decide, named.2.1⟩

variable {back : Path} (hback : back = [] ∨ ∃ after, back = '/' :: after)
include hback

theorem keys_append : Path.keys (s.spelling ++ back) = s.keys ++ back.keys := by
  cases s with
  | text chars plain =>
      refine Path.keys_append plain.2.1 plain.2.2 fun hstar => ?_
      rcases hback with rfl | ⟨after, rfl⟩ <;> cases hstar
  | param name named =>
      have hname : Path.leadingName (name ++ back) = name :=
        takeWhile_append_of_slash_or_end named.2.1 hback
      have hafter : Path.afterName (name ++ back) = back := by
        have hparts := Path.leadingName_append_afterName (name ++ back)
        rwa [hname, List.append_cancel_left_eq] at hparts
      unfold Path.keys Path.steps
      rw [spelling, List.cons_append, Path.tokenize, if_pos ⟨rfl, hname.symm ▸ named.1⟩, hname,
        hafter]
      rfl

theorem keys_slash_append :
    Path.keys ('/' :: (s.spelling ++ back)) = .literal '/' :: (s.keys ++ back.keys) := by
  have hstar : s.spelling ++ back ≠ ['*'] := by
    intro hstar
    rcases List.append_eq_singleton_iff.1 hstar with ⟨-, hend⟩ | ⟨hspelling, -⟩
    · rcases hback with rfl | ⟨after, rfl⟩ <;> cases hend
    · exact s.star_notMem_spelling (hspelling ▸ List.mem_singleton_self _)
  have hslash : Path.keys (['/'] ++ (s.spelling ++ back)) = .literal '/' :: _ :=
    Path.keys_append (by decide) (by decide) fun h => absurd h hstar
  rw [← s.keys_append hback]
  exact hslash

/-- A colon follows the slash in front of a segment if the segment is a parameter. -/
theorem hasSlashColon_slash_append :
    Path.hasSlashColon ('/' :: (s.spelling ++ back)) = (s.isParam || back.hasSlashColon) := by
  rw [Path.hasSlashColon, Path.hasSlashColon_append s.slash_notMem_spelling]
  congr 1
  cases s with
  | text chars plain =>
      cases chars with
      | nil => rcases hback with rfl | ⟨after, rfl⟩ <;> rfl
      | cons c chars =>
          have hc : c ≠ ':' := fun hcolon => plain.2.1 (hcolon ▸ List.mem_cons_self)
          simp [spelling, isParam, hc]
  | param name named => rfl

end Segment

/-! ### Whole paths -/

/-- The text of some segments behind their slashes, and of a star behind a slash of its own. -/
def Path.behindSlashes : List Segment → Bool → Path
  | [], tail => if tail then ['/', '*'] else []
  | s :: rest, tail => '/' :: (s.spelling ++ behindSlashes rest tail)

structure Template where
  first : Segment
  rest : List Segment
  /-- Whether a star comes behind a last slash. -/
  tail : Bool

namespace Path

variable (rest : List Segment) (tail : Bool)

theorem behindSlashes_eq : behindSlashes rest tail = [] ∨
    ∃ after, behindSlashes rest tail = '/' :: after := by
  cases rest with
  | nil =>
      cases tail with
      | false => exact Or.inl rfl
      | true => exact Or.inr ⟨_, rfl⟩
  | cons s rest => exact Or.inr ⟨_, rfl⟩

theorem keys_behindSlashes : (behindSlashes rest tail).keys =
    rest.flatMap (fun s => .literal '/' :: s.keys) ++ if tail then [.tailWildcard] else [] := by
  induction rest with
  | nil => cases tail <;> decide +kernel
  | cons s rest ih =>
      rw [behindSlashes, s.keys_slash_append (behindSlashes_eq rest tail), ih, List.flatMap_cons,
        List.cons_append, List.cons_append, List.append_assoc]

theorem star_mem_behindSlashes : '*' ∈ behindSlashes rest tail ↔ tail = true := by
  induction rest with
  | nil => cases tail <;> decide
  | cons s rest ih =>
      rw [behindSlashes, List.mem_cons, List.mem_append, ih]
      simp [s.star_notMem_spelling]

theorem hasSlashColon_behindSlashes :
    (behindSlashes rest tail).hasSlashColon = rest.any Segment.isParam := by
  induction rest with
  | nil => cases tail <;> rfl
  | cons s rest ih =>
      rw [behindSlashes, s.hasSlashColon_slash_append (behindSlashes_eq rest tail), ih,
        List.any_cons]

end Path

namespace Template

def path (t : Template) : Path := t.first.spelling ++ Path.behindSlashes t.rest t.tail

example : path ⟨.text [] (by decide), [.text ['a'] (by decide), .param ['x'] (by decide)], true⟩ =
    "/a/:x/*".toList := by
  decide

structure Renamed (t t' : Template) : Prop where
  first : t.first.Renamed t'.first
  rest : List.Forall₂ Segment.Renamed t.rest t'.rest
  tail : t'.tail = t.tail

variable (t : Template) {t' : Template}

theorem keys_path : t.path.keys = t.first.keys ++
    (t.rest.flatMap (fun s => .literal '/' :: s.keys) ++
      if t.tail then [.tailWildcard] else []) := by
  rw [path, t.first.keys_append (Path.behindSlashes_eq t.rest t.tail), Path.keys_behindSlashes]

/-- A path is static if it has no tail, and no parameter behind a slash. -/
theorem isStatic_path : t.path.isStatic = (!t.tail && !t.rest.any Segment.isParam) := by
  have hstar : t.path.contains '*' = t.tail := by
    rw [Bool.eq_iff_iff, List.contains_iff_mem, path, List.mem_append, Path.star_mem_behindSlashes]
    simp [t.first.star_notMem_spelling]
  rw [Path.isStatic, hstar, path, Path.hasSlashColon_append t.first.slash_notMem_spelling,
    Path.hasSlashColon_behindSlashes]

variable {t}

theorem Renamed.keys_path (h : t.Renamed t') : t'.path.keys = t.path.keys := by
  rw [t.keys_path, t'.keys_path, h.first.keys_eq, Segment.flatMap_keys_of_renamed h.rest, h.tail]

theorem Renamed.isStatic_path (h : t.Renamed t') : t'.path.isStatic = t.path.isStatic := by
  rw [t.isStatic_path, t'.isStatic_path, Segment.any_isParam_of_renamed h.rest, h.tail]

end Template

/-- Two paths in segments that differ in the names of their parameters only. -/
def Path.Renamed (path path' : Path) : Prop :=
  ∃ t t' : Template, t.Renamed t' ∧ t.path = path ∧ t'.path = path'

namespace Path.Renamed

variable {path path' : Path}

theorem keys_eq (h : path.Renamed path') : path'.keys = path.keys := by
  obtain ⟨t, t', hrenamed, rfl, rfl⟩ := h
  exact hrenamed.keys_path

theorem isStatic_eq (h : path.Renamed path') : path'.isStatic = path.isStatic := by
  obtain ⟨t, t', hrenamed, rfl, rfl⟩ := h
  exact hrenamed.isStatic_path

end Path.Renamed

end PathRouter
