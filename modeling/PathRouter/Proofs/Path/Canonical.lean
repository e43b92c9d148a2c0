import Mathlib.Data.List.TakeWhile
import PathRouter.Path.Scan
import PathRouter.Proofs.Path.Keys

/-!
The tokens of a path. The loop that cuts at bytes comes to the end, without a cut inside a
character, and reads the tokens that the characters tell. These spell the path, and among the lists
of tokens that do so they are the only one in which names, colons, stars and tails stand as a path
is read: a list that is canonical is read back from its spelling.
-/

namespace PathRouter

namespace Path

/-! ### Cuts at bytes -/

theorem cutAt?_zero (path : Path) : path.cutAt? 0 = some ([], path) := by
  cases path with
  | nil => rfl
  | cons c rest => exact if_pos rfl

theorem cutAt?_append (front back : Path) :
    (front ++ back).cutAt? front.byteLength = some (front, back) := by
  induction front with
  | nil => exact cutAt?_zero back
  | cons c front ih =>
      have hpos := Char.utf8Size_pos c
      rw [List.cons_append, byteLength, cutAt?, if_neg (by omega), if_pos (by omega),
        Nat.add_sub_cancel_left, ih]
      rfl

theorem slashAt?_eq (path : Path) :
    path.slashAt? = if path.afterName = [] then none else some (byteLength path.leadingName) := by
  induction path with
  | nil => rfl
  | cons c rest ih =>
      by_cases hslash : c = '/'
      · simp [slashAt?, leadingName, afterName, hslash, byteLength]
      · have hname : leadingName (c :: rest) = c :: leadingName rest :=
          List.takeWhile_cons_of_pos (decide_eq_true hslash)
        have hafter : afterName (c :: rest) = afterName rest :=
          List.dropWhile_cons_of_pos (decide_eq_true hslash)
        rw [slashAt?, if_neg hslash, ih, hname, hafter, byteLength]
        by_cases hend : afterName rest = []
        · rw [if_pos hend, if_pos hend]
          rfl
        · rw [if_neg hend, if_neg hend, Option.map_some, Nat.add_comm]

theorem elim_slashAt? (rest : Path) :
    rest.slashAt?.elim (byteLength (':' :: rest)) (· + 1) =
      byteLength (':' :: rest.leadingName) := by
  rw [slashAt?_eq]
  by_cases hafter : rest.afterName = []
  · have hname : rest.leadingName = rest := by
      have happend := rest.leadingName_append_afterName
      rwa [hafter, List.append_nil] at happend
    rw [if_pos hafter, hname]
    rfl
  · rw [if_neg hafter]
    exact Nat.add_comm ..

theorem cutAt?_cons (c : Char) (rest : Path) : cutAt? c.utf8Size (c :: rest) = some ([c], rest) :=
  cutAt?_append [c] rest

/-! ### The loop -/

theorem cutCharacter_cons (c : Char) (rest : Path) : cutCharacter c (c :: rest) =
    if c = '/' ∧ rest = ['*'] then some (.tailStar, [])
    else some (if c = '*' then .star else .char c, rest) := by
  have htext : c :: rest = ['/', '*'] ↔ c = '/' ∧ rest = ['*'] := by rw [List.cons.injEq]
  by_cases htail : c = '/' ∧ rest = ['*']
  · rw [cutCharacter, if_pos (htext.2 htail), if_pos htail]
  · rw [cutCharacter, if_neg (mt htext.1 htail), if_neg htail, cutAt?_cons]
    rfl

theorem cutToken_param {rest : Path} (h : leadingName rest ≠ []) :
    cutToken ':' (':' :: rest) = some (.param (leadingName rest), afterName rest) := by
  have hbehind : cutAt? 1 (':' :: rest) = some ([':'], rest) := cutAt?_cons ':' rest
  have hstop : 1 < byteLength (':' :: leadingName rest) := Nat.add_lt_add_left (byteLength_pos h) 1
  have htoken : cutAt? (byteLength (':' :: leadingName rest)) (':' :: rest) =
      some (':' :: leadingName rest, afterName rest) := by
    have happend := cutAt?_append (':' :: leadingName rest) (afterName rest)
    rwa [List.cons_append, leadingName_append_afterName] at happend
  have hname : cutAt? 1 (':' :: leadingName rest) = some ([':'], leadingName rest) :=
    cutAt?_cons ':' _
  rw [cutToken, if_pos rfl, hbehind]
  simp only [Option.bind_eq_bind, Option.bind_some, elim_slashAt?, if_pos hstop, htoken, hname]
  rfl

theorem cutToken_of_not_param {c : Char} {rest : Path} (h : ¬(c = ':' ∧ leadingName rest ≠ [])) :
    cutToken c (c :: rest) = cutCharacter c (c :: rest) := by
  by_cases hcolon : c = ':'
  · subst hcolon
    have hempty : leadingName rest = [] := by
      by_contra hne
      exact h ⟨rfl, hne⟩
    have hbehind : cutAt? 1 (':' :: rest) = some ([':'], rest) := cutAt?_cons ':' rest
    rw [cutToken, if_pos rfl, hbehind]
    simp only [Option.bind_eq_bind, Option.bind_some, elim_slashAt?, hempty]
    rfl
  · rw [cutToken, if_neg hcolon]

/-- A turn cuts off the first of the tokens, and the others are those of what it leaves. -/
theorem cutToken_cons (c : Char) (rest : Path) : ∃ token left,
    cutToken c (c :: rest) = some (token, left) ∧
      tokenize (c :: rest) = token :: tokenize left ∧ left.length ≤ rest.length := by
  by_cases hparam : c = ':' ∧ leadingName rest ≠ []
  · obtain ⟨rfl, hname⟩ := hparam
    refine ⟨_, _, cutToken_param hname, ?_, length_afterName_le rest⟩
    rw [tokenize, if_pos ⟨rfl, hname⟩]
  · rw [cutToken_of_not_param hparam, cutCharacter_cons, tokenize, if_neg hparam]
    by_cases htail : c = '/' ∧ rest = ['*']
    · rw [if_pos htail, if_pos htail]
      exact ⟨.tailStar, [], rfl, by rw [tokenize], Nat.zero_le _⟩
    · rw [if_neg htail, if_neg htail]
      exact ⟨_, rest, rfl, rfl, Nat.le_refl _⟩

/-- The loop ends after as many turns as the path has characters, if not before, and no cut of it
fails. -/
theorem scan_eq {turns : Nat} {path : Path} (h : path.length ≤ turns) :
    scan turns path = some path.tokenize := by
  induction turns generalizing path with
  | zero =>
      rw [List.eq_nil_of_length_eq_zero (Nat.le_zero.1 h), tokenize]
      rfl
  | succ turns ih =>
      cases path with
      | nil =>
          rw [tokenize]
          rfl
      | cons c rest =>
          obtain ⟨token, left, hcut, htokens, hleft⟩ := cutToken_cons c rest
          have hturns : left.length ≤ turns := hleft.trans (Nat.le_of_succ_le_succ h)
          rw [scan, hcut, htokens]
          simp only [Option.bind_eq_bind, Option.bind_some, ih hturns]
          rfl

example : scan 5 "/é/:é/*".toList =
    some [.char '/', .char 'é', .char '/', .param ['é'], .tailStar] := by
  decide +kernel

end Path

/-! ### Canonical tokens -/

namespace Token

structure Canonical (tokens : List Token) : Prop where
  /-- A name has a character, and none of its characters is a slash. -/
  names : ∀ name, .param name ∈ tokens → name ≠ [] ∧ '/' ∉ name
  /-- Behind a parameter comes a slash, a tail or the end, and so it does behind a colon that is an
  ordinary character. -/
  segments : tokens.IsChain fun token next =>
    (∃ name, token = .param name) ∨ token = .char ':' → next = .char '/' ∨ next = .tailStar
  /-- No star is an ordinary character. -/
  stars : .char '*' ∉ tokens
  /-- Nothing comes behind a tail. -/
  tails : tokens.IsChain fun token _ => token ≠ .tailStar
  /-- A slash and a star at the end are a tail. -/
  ending : ¬ [.char '/', .star] <:+ tokens

namespace Canonical

variable {token : Token} {tokens : List Token}

theorem nil : Canonical [] := by
  constructor
  case names => exact fun _ hmem => absurd hmem List.not_mem_nil
  case segments => exact List.IsChain.nil
  case stars => exact List.not_mem_nil
  case tails => exact List.IsChain.nil
  case ending => simp

theorem tail (h : Canonical (token :: tokens)) : Canonical tokens := by
  constructor
  case names => exact fun name hmem => h.names name (List.mem_cons_of_mem _ hmem)
  case segments => exact h.segments.tail
  case stars => exact fun hmem => h.stars (List.mem_cons_of_mem _ hmem)
  case tails => exact h.tails.tail
  case ending => exact fun hsuffix => h.ending (hsuffix.trans (List.suffix_cons _ _))

/-- A token stands in front of canonical tokens if it fits to the first of them. -/
theorem cons (h : Canonical tokens) (hname : ∀ name, token = .param name → name ≠ [] ∧ '/' ∉ name)
    (hsegment : (∃ name, token = .param name) ∨ token = .char ':' →
      ∀ next ∈ tokens.head?, next = .char '/' ∨ next = .tailStar)
    (hstar : token ≠ .char '*') (htail : token = .tailStar → tokens = [])
    (hending : token = .char '/' → tokens ≠ [.star]) : Canonical (token :: tokens) := by
  constructor
  case names =>
    intro name hmem
    rcases List.mem_cons.1 hmem with heq | hmem
    · exact hname name heq.symm
    · exact h.names name hmem
  case segments =>
    exact List.isChain_cons.2 ⟨fun next hnext hopen => hsegment hopen next hnext, h.segments⟩
  case stars => exact fun hmem => (List.mem_cons.1 hmem).elim (hstar ∘ Eq.symm) h.stars
  case tails =>
    refine List.isChain_cons.2 ⟨fun next hnext heq => ?_, h.tails⟩
    rw [htail heq] at hnext
    cases hnext
  case ending =>
    intro hsuffix
    rcases List.suffix_cons_iff.1 hsuffix with heq | hsuffix
    · obtain ⟨htoken, htokens⟩ := List.cons.inj heq
      exact hending htoken.symm htokens.symm
    · exact h.ending hsuffix

theorem slash_or_end (h : Canonical (token :: tokens))
    (hopen : (∃ name, token = .param name) ∨ token = .char ':') :
    tokens.flatMap spelling = [] ∨ ∃ after, tokens.flatMap spelling = '/' :: after := by
  cases tokens with
  | nil => exact Or.inl rfl
  | cons next tokens =>
      rcases (List.isChain_cons_cons.1 h.segments).1 hopen with rfl | rfl
      · exact Or.inr ⟨_, rfl⟩
      · exact Or.inr ⟨_, rfl⟩

end Canonical

end Token

namespace Path

theorem canonical_tokenize (path : Path) : Token.Canonical path.tokenize := by
  induction path using Path.tokenize.induct with
  | case1 =>
      rw [tokenize]
      exact .nil
  | case2 c rest h ih =>
      rw [tokenize, if_pos h]
      have hslash : '/' ∉ leadingName rest := fun hmem => by simpa using List.mem_takeWhile_imp hmem
      refine ih.cons ?_ (fun _ next => head?_tokenize_afterName) Token.noConfusion Token.noConfusion
        Token.noConfusion
      rintro name ⟨⟩
      exact ⟨h.2, hslash⟩
  | case3 c rest h htail =>
      rw [tokenize, if_neg h, if_pos htail]
      exact Token.Canonical.nil.cons (fun _ => Token.noConfusion) (by simp) Token.noConfusion
        (fun _ => rfl) Token.noConfusion
  | case4 c rest h htail ih =>
      rw [tokenize, if_neg h, if_neg htail]
      split
      · exact ih.cons (fun _ => Token.noConfusion) (fun hopen => by simp at hopen) Token.noConfusion
          Token.noConfusion Token.noConfusion
      · next hstar =>
          refine ih.cons (fun _ => Token.noConfusion) ?_ ?_ Token.noConfusion ?_
          · -- a colon that opens no parameter has the slash, or the end, right behind it
            intro hopen next hnext
            have hcolon : c = ':' := by simpa using hopen
            have hempty : leadingName rest = [] := by
              by_contra hne
              exact h ⟨hcolon, hne⟩
            have hrest : afterName rest = rest := by
              have happend := leadingName_append_afterName rest
              rwa [hempty, List.nil_append] at happend
            rw [← hrest] at hnext
            exact head?_tokenize_afterName hnext
          · exact fun heq => hstar (Token.char.inj heq)
          · intro hslash htokens
            have hspelling := flatMap_spelling_tokenize rest
            rw [htokens] at hspelling
            exact htail ⟨Token.char.inj hslash, hspelling.symm⟩

end Path

/-- Canonical tokens are read back from what they spell. -/
theorem Token.Canonical.tokenize_spelling {tokens : List Token} (h : Canonical tokens) :
    Path.tokenize (tokens.flatMap spelling) = tokens := by
  induction tokens with
  | nil =>
      rw [List.flatMap_nil, Path.tokenize]
  | cons token tokens ih =>
      have hrest := ih h.tail
      rw [List.flatMap_cons]
      cases token with
      | char c =>
          have hparam : ¬(c = ':' ∧ Path.leadingName (tokens.flatMap spelling) ≠ []) := by
            rintro ⟨rfl, hne⟩
            exact hne (takeWhile_append_of_slash_or_end List.not_mem_nil
              (h.slash_or_end (Or.inr rfl)))
          have htail : ¬(c = '/' ∧ tokens.flatMap spelling = ['*']) := by
            rintro ⟨rfl, hstar⟩
            have htokens : tokens = [.star] := by
              rw [← hrest, hstar]
              decide +kernel
            exact h.ending (htokens ▸ List.suffix_rfl)
          have hstar : c ≠ '*' := fun heq => h.stars (heq ▸ List.mem_cons_self)
          rw [spelling, List.singleton_append, Path.tokenize, if_neg hparam, if_neg htail,
            if_neg hstar, hrest]
      | param name =>
          obtain ⟨hne, hslash⟩ := h.names name List.mem_cons_self
          have hname : Path.leadingName (name ++ tokens.flatMap spelling) = name :=
            takeWhile_append_of_slash_or_end hslash (h.slash_or_end (Or.inl ⟨name, rfl⟩))
          have hafter : Path.afterName (name ++ tokens.flatMap spelling) =
              tokens.flatMap spelling := by
            have happend := Path.leadingName_append_afterName (name ++ tokens.flatMap spelling)
            rw [hname] at happend
            exact List.append_cancel_left happend
          rw [spelling, List.cons_append, Path.tokenize, hname, if_pos ⟨rfl, hne⟩, hafter, hrest]
      | star =>
          rw [spelling, List.singleton_append, Path.tokenize, if_neg (by simp), if_neg (by simp),
            if_pos rfl, hrest]
      | tailStar =>
          cases tokens with
          | nil => decide +kernel
          | cons next tokens => exact absurd rfl (List.isChain_cons_cons.1 h.tails).1

namespace Path

/-- Reading a path comes to the end and loses nothing. Cutting tokens off at bytes takes no more
turns than the path has characters, and no cut falls inside a character. The tokens spell the path,
they are canonical, and no other canonical tokens spell it. -/
theorem tokenize_lossless (path : Path) :
    (∀ more, scan (path.length + more) path = some path.tokenize) ∧
    path.tokenize.flatMap Token.spelling = path ∧ Token.Canonical path.tokenize ∧
    ∀ tokens, Token.Canonical tokens → tokens.flatMap Token.spelling = path →
      tokens = path.tokenize := by
  refine ⟨fun more => scan_eq (Nat.le_add_right _ more), flatMap_spelling_tokenize path,
    canonical_tokenize path, fun tokens htokens hspelling => ?_⟩
  rw [← hspelling, htokens.tokenize_spelling]

end Path

end PathRouter
