import Hnatsd.Server.Proofs.SublistLookup

/-!
# `matchLiteral` on tokens

The cache is updated by `matchLiteral`, which walks the bytes of a literal subject and of a
subscription subject. On subjects whose wildcards are whole tokens and on literals without empty
or wildcard tokens it decides what the trie decides on tokens.
-/

namespace Hnatsd.Server
open Misc List

variable {p t : Bytes} {ps : List Bytes}

/-- Wildcards are whole tokens. -/
def wholeWildcards (ts : List Bytes) : Prop :=
  ∀ t ∈ ts, (pwc ∈ t → t = [pwc]) ∧ (fwc ∈ t → t = [fwc])

/-- Tokens that are neither empty nor hold a wildcard. -/
def literalTokens (ts : List Bytes) : Prop :=
  ∀ t ∈ ts, t ≠ [] ∧ pwc ∉ t ∧ fwc ∉ t

instance (ts : List Bytes) : Decidable (wholeWildcards ts) :=
  inferInstanceAs (Decidable (∀ t ∈ ts, _ ∧ _))

instance (ts : List Bytes) : Decidable (literalTokens ts) :=
  inferInstanceAs (Decidable (∀ t ∈ ts, _ ∧ _))

theorem btsep_ne_pwc : btsep ≠ pwc := by decide
theorem btsep_ne_fwc : btsep ≠ fwc := by decide

theorem not_mem_of_mem_tokens {subject : Bytes} (mem : t ∈ tokens subject) : btsep ∉ t := by
  induction subject generalizing t with
  | nil =>
    obtain rfl : t = [] := by simpa [tokens] using mem
    simp
  | cons b subject ih =>
    rw [tokens, splitOn_cons_eq_if_modifyHead] at mem
    by_cases sep : b = btsep
    · simp only [sep, beq_self_eq_true, if_true, mem_cons] at mem
      rcases mem with rfl | mem
      · simp
      · exact ih mem
    · have differ : (b == btsep) = false := beq_eq_false_iff_ne.mpr sep
      simp only [differ, Bool.false_eq_true, if_false] at mem
      cases split : subject.splitOn btsep with
      | nil => exact absurd split (splitOn_ne_nil _ _)
      | cons first rest =>
        rw [split, modifyHead_cons, mem_cons] at mem
        have inTokens : ∀ t' ∈ first :: rest, btsep ∉ t' := by
          intro t' mem'
          apply ih
          rwa [tokens, split]
        rcases mem with rfl | mem
        · simpa [Ne.symm sep] using inTokens first (by simp)
        · exact inTokens t (by simp [mem])

theorem join_tokens (subject : Bytes) : [btsep].intercalate (tokens subject) = subject :=
  intercalate_splitOn btsep

/-- What follows a token in a subject: nothing, or a separator and the other tokens. -/
def joinRest (ts : List Bytes) : Bytes :=
  match ts with
  | [] => []
  | t :: ts => btsep :: [btsep].intercalate (t :: ts)

theorem join_cons (t : Bytes) (ts : List Bytes) :
    [btsep].intercalate (t :: ts) = t ++ joinRest ts := by
  cases ts with
  | nil => simp [joinRest]
  | cons t' ts => simp [joinRest, intercalate_cons_cons]

theorem matchLiteral_rest (ps ts : List Bytes) :
    matchLiteral (joinRest ts) (joinRest ps) =
      if ps = [] ∨ ts = [] then decide (ps = [] ∧ ts = [])
      else matchLiteral ([btsep].intercalate ts) ([btsep].intercalate ps) := by
  cases ps with
  | nil => cases ts <;> rfl
  | cons p ps =>
    cases ts with
    | nil => rfl
    | cons t ts => simp [joinRest, matchLiteral, btsep_ne_pwc, btsep_ne_fwc]

/-- A token without wildcards matches an equal token only. -/
theorem matchLiteral_token (ps ts : List Bytes) (noPwc : pwc ∉ p) (noFwc : fwc ∉ p)
    (noSep : btsep ∉ p) (noSep' : btsep ∉ t) :
    matchLiteral (t ++ joinRest ts) (p ++ joinRest ps) =
      (decide (p = t) && matchLiteral (joinRest ts) (joinRest ps)) := by
  induction p generalizing t with
  | nil =>
    cases t with
    | nil => simp
    | cons c t =>
      have differ : c ≠ btsep := fun same => noSep' (same ▸ mem_cons_self ..)
      cases ps with
      | nil => simp [joinRest, matchLiteral]
      | cons p' ps =>
        simp [joinRest, matchLiteral, btsep_ne_pwc, btsep_ne_fwc, Ne.symm differ]
  | cons b p ih =>
    have isPwc : b ≠ pwc := fun same => noPwc (same ▸ mem_cons_self ..)
    have isFwc : b ≠ fwc := fun same => noFwc (same ▸ mem_cons_self ..)
    have isSep : b ≠ btsep := fun same => noSep (same ▸ mem_cons_self ..)
    cases t with
    | nil =>
      cases ts with
      | nil => simp [joinRest, matchLiteral]
      | cons t' ts => simp [joinRest, matchLiteral, isPwc, isFwc, isSep]
    | cons c t =>
      have tail := ih (t := t) (fun mem => noPwc (mem_cons_of_mem _ mem))
        (fun mem => noFwc (mem_cons_of_mem _ mem))
        (fun mem => noSep (mem_cons_of_mem _ mem))
        (fun mem => noSep' (mem_cons_of_mem _ mem))
      by_cases same : b = c
      · subst same
        simp [matchLiteral, isPwc, isFwc, tail]
      · simp [matchLiteral, isPwc, isFwc, same]

theorem dropWhile_token (ts : List Bytes) (noSep : btsep ∉ t) :
    (t ++ joinRest ts).dropWhile (· ≠ btsep) = joinRest ts := by
  induction t with
  | nil => cases ts <;> simp [joinRest]
  | cons c t ih =>
    have differ : c ≠ btsep := fun same => noSep (same ▸ mem_cons_self ..)
    simp only [cons_append, dropWhile_cons, ne_eq, differ, not_false_eq_true,
      decide_true, if_true]
    exact ih fun mem => noSep (mem_cons_of_mem _ mem)

/-- A token without wildcards. -/
def plainToken (p : Bytes) : Bool := pwc ∉ p ∧ fwc ∉ p

/-- The subjects whose wildcards bytes and tokens read alike: stars fill their tokens, the last
token is one star or a `>` with anything behind it. -/
def wholeTokens : List Bytes → Bool
  | [] => true
  | [p] => plainToken p || p = [pwc] || p.head? = some fwc
  | p :: p' :: ps => (plainToken p || p.all (· = pwc)) && wholeTokens (p' :: ps)

/-- The literal ends in an empty token where the subject ends in a wildcard. -/
def endsEmpty : List Bytes → List Bytes → Bool
  | [p], [t] => t = [] && !plainToken p
  | _ :: ps, _ :: ts => endsEmpty ps ts
  | _, _ => false

theorem plainToken_iff : plainToken p = true ↔ pwc ∉ p ∧ fwc ∉ p := decide_eq_true_iff

theorem tokensMatch_plain (plain : plainToken p = true) (ps : List Bytes) (t : Bytes)
    (ts : List Bytes) :
    tokensMatch (p :: ps) (t :: ts) = (decide (p = t) && tokensMatch ps ts) := by
  obtain ⟨noPwc, noFwc⟩ := plainToken_iff.mp plain
  have first : p.head? ≠ some pwc := fun head => noPwc (mem_of_head? head)
  have second : p.head? ≠ some fwc := fun head => noFwc (mem_of_head? head)
  simp [tokensMatch, first, second]

/-- Stars skip nothing in front of a separator. -/
theorem matchLiteral_stars {stars : Bytes} (all : stars.all (· = pwc) = true)
    (literal subject : Bytes) :
    matchLiteral (btsep :: literal) (stars ++ subject) = matchLiteral (btsep :: literal) subject := by
  induction stars with
  | nil => rfl
  | cons b stars ih =>
    simp only [all_cons, Bool.and_eq_true, decide_eq_true_eq] at all
    obtain ⟨rfl, rest⟩ := all
    rw [← ih rest, cons_append, matchLiteral, if_pos rfl, dropWhile_cons_of_neg (by simp)]

/-- Behind the first star the literal is at the end of its token. -/
theorem matchLiteral_pwc (ts : List Bytes) (subject : Bytes) (noSep : btsep ∉ t)
    (some : t ≠ [] ∨ ts ≠ []) :
    matchLiteral (t ++ joinRest ts) (pwc :: subject) = matchLiteral (joinRest ts) subject := by
  have skipped := dropWhile_token ts noSep
  cases literal : t ++ joinRest ts with
  | nil =>
    obtain ⟨rfl, rest⟩ := append_eq_nil_iff.mp literal
    cases ts with
    | nil => simp at some
    | cons t' ts => cases rest
  | cons c left =>
    rw [literal] at skipped
    rw [matchLiteral, if_pos rfl, skipped]

/-- A token of stars skips one token, if another follows. -/
theorem matchLiteral_starToken (ts : List Bytes) (nonempty : p ≠ [])
    (all : p.all (· = pwc) = true) (more : ps ≠ []) (noSep : btsep ∉ t) :
    matchLiteral (t ++ joinRest ts) (p ++ joinRest ps) =
      matchLiteral (joinRest ts) (joinRest ps) := by
  obtain ⟨b, stars, rfl⟩ := exists_cons_of_ne_nil nonempty
  obtain ⟨p', ps, rfl⟩ := exists_cons_of_ne_nil more
  simp only [all_cons, Bool.and_eq_true, decide_eq_true_eq] at all
  obtain ⟨rfl, all⟩ := all
  cases ts with
  | nil =>
    -- the literal is used up before the separator of the subject
    rw [cons_append]
    by_cases empty : t = []
    · subst empty
      rfl
    · rw [matchLiteral_pwc [] _ noSep (Or.inl empty)]
      cases stars <;> rfl
  | cons t' ts =>
    rw [cons_append, matchLiteral_pwc (t' :: ts) _ noSep (Or.inr (by simp))]
    exact matchLiteral_stars all _ _

theorem matchLiteral_last (ts : List Bytes) (whole : wholeTokens [p] = true)
    (noSep : btsep ∉ p) (noSep' : btsep ∉ t) :
    matchLiteral (t ++ joinRest ts) p = (tokensMatch [p] (t :: ts) && !endsEmpty [p] (t :: ts)) := by
  have done : tokensMatch [] ts = decide (ts = []) := by cases ts <;> rfl
  have nothing : (t ++ joinRest ts = []) ↔ t = [] ∧ ts = [] := by cases ts <;> simp [joinRest]
  by_cases plain : plainToken p = true
  · obtain ⟨noPwc, noFwc⟩ := plainToken_iff.mp plain
    have token := matchLiteral_token [] ts noPwc noFwc noSep noSep'
    rw [show p ++ joinRest [] = p from append_nil p] at token
    have rest : matchLiteral (joinRest ts) (joinRest []) = decide (ts = []) := by cases ts <;> rfl
    rw [token, rest, tokensMatch_plain plain, done]
    cases ts <;> simp [endsEmpty, plain]
  · have empty : endsEmpty [p] (t :: ts) = (decide (ts = []) && decide (t = [])) := by
      cases ts <;> simp [endsEmpty, plain]
    simp only [wholeTokens, plain, Bool.false_or, Bool.or_eq_true, decide_eq_true_eq] at whole
    rw [empty]
    rcases whole with rfl | full
    · -- one star takes one token, but no empty one at the end of the literal
      rw [tokensMatch_star rfl, done]
      by_cases some : t ≠ [] ∨ ts ≠ []
      · rw [matchLiteral_pwc ts [] noSep' some]
        cases ts with
        | nil => simpa [joinRest, matchLiteral] using some
        | cons t' ts => simp [joinRest, matchLiteral]
      · obtain ⟨rfl, rfl⟩ : t = [] ∧ ts = [] := by simpa using some
        rfl
    · -- `>` takes all that is left, but not nothing
      obtain ⟨rest, rfl⟩ := head?_eq_some_iff.mp full
      rw [tokensMatch_full full]
      cases literal : t ++ joinRest ts with
      | nil => simp [matchLiteral, nothing.mp literal]
      | cons c left =>
        have some : ¬(ts = [] ∧ t = []) := fun is => by
          rw [nothing.mpr is.symm] at literal
          cases literal
        simpa [matchLiteral, pwc_ne_fwc.symm, or_iff_not_imp_left] using some

/-- Both ways of matching step over a token of the subject that others follow. -/
theorem match_step {p p' t : Bytes} {ps ts : List Bytes}
    (whole : (plainToken p || p.all (· = pwc)) = true) (noSep : btsep ∉ p) (noSep' : btsep ∉ t) :
    ∃ ok : Bool, (∀ ts', tokensMatch (p :: p' :: ps) (t :: ts') = (ok && tokensMatch (p' :: ps) ts')) ∧
      matchLiteral ([btsep].intercalate (t :: ts)) ([btsep].intercalate (p :: p' :: ps)) =
        (ok && matchLiteral (joinRest ts) (joinRest (p' :: ps))) := by
  rw [join_cons, join_cons]
  by_cases plain : plainToken p = true
  · obtain ⟨noPwc, noFwc⟩ := plainToken_iff.mp plain
    exact ⟨p = t, tokensMatch_plain plain _ t, matchLiteral_token _ ts noPwc noFwc noSep noSep'⟩
  · have all : p.all (· = pwc) = true := by simpa [plain] using whole
    have nonempty : p ≠ [] := by
      rintro rfl
      exact plain rfl
    have star : p.head? = some pwc := by
      obtain ⟨b, rest, rfl⟩ := exists_cons_of_ne_nil nonempty
      simp only [all_cons, Bool.and_eq_true, decide_eq_true_eq] at all
      rw [head?_cons, all.1]
    refine ⟨true, fun ts' => ?_, ?_⟩
    · rw [tokensMatch_star star, Bool.true_and]
    · rw [matchLiteral_starToken ts nonempty all (by simp) noSep', Bool.true_and]

/-- On whole wildcards the two ways of matching agree, token by token, up to the end of the
literal. -/
theorem matchLiteral_whole (ps ts : List Bytes) (psNonempty : ps ≠ []) (tsNonempty : ts ≠ [])
    (whole : wholeTokens ps = true) (noSep : ∀ p ∈ ps, btsep ∉ p) (noSep' : ∀ t ∈ ts, btsep ∉ t) :
    matchLiteral ([btsep].intercalate ts) ([btsep].intercalate ps) =
      (tokensMatch ps ts && !endsEmpty ps ts) := by
  induction ps generalizing ts with
  | nil => exact absurd rfl psNonempty
  | cons p ps ih =>
    obtain ⟨t, ts, rfl⟩ := exists_cons_of_ne_nil tsNonempty
    have sepP := noSep p (by simp)
    have sepT := noSep' t (by simp)
    cases ps with
    | nil =>
      rw [join_cons, join_cons, show p ++ joinRest [] = p from append_nil p]
      exact matchLiteral_last ts whole sepP sepT
    | cons p' ps =>
      simp only [wholeTokens, Bool.and_eq_true] at whole
      obtain ⟨ok, tokensStep, step⟩ := @match_step p p' t ps ts whole.1 sepP sepT
      rw [step, tokensStep, matchLiteral_rest]
      cases ts with
      | nil => simp [tokensMatch]
      | cons t' ts =>
        rw [if_neg (by simp), ih (t' :: ts) (by simp) (by simp) whole.2
          (fun p mem => noSep p (mem_cons_of_mem _ mem))
          (fun t mem => noSep' t (mem_cons_of_mem _ mem)), Bool.and_assoc]
        rfl

theorem wholeTokens_of_wholeWildcards {sfwc : Bool}
    (accepted : insertable ps sfwc = true) (whole : wholeWildcards ps) : wholeTokens ps = true := by
  induction ps generalizing sfwc with
  | nil => rfl
  | cons p ps ih =>
    obtain ⟨-, restAccepted⟩ := insertable_cons accepted
    have rest := ih restAccepted fun p' mem => whole p' (mem_cons_of_mem _ mem)
    obtain ⟨wholePwc, wholeFwc⟩ := whole p (by simp)
    by_cases star : pwc ∈ p
    · obtain rfl := wholePwc star
      cases ps with
      | nil => rfl
      | cons p' ps => simpa [wholeTokens] using rest
    by_cases full : fwc ∈ p
    · obtain rfl := wholeFwc full
      cases ps with
      | nil => rfl
      | cons p' ps => exact absurd (insertable_cons restAccepted).1 (by simp [Key.ofToken, fwc, pwc])
    · have plain : plainToken p = true := plainToken_iff.mpr ⟨star, full⟩
      cases ps with
      | nil => simp [wholeTokens, plain]
      | cons p' ps => simpa [wholeTokens, plain] using rest

theorem endsEmpty_of_nonempty {ts : List Bytes} (nonempty : ∀ t ∈ ts, t ≠ []) :
    endsEmpty ps ts = false := by
  fun_induction endsEmpty ps ts with
  | case1 p t => simp [nonempty t (by simp)]
  | case2 p ps t ts _ ih => exact ih fun t' mem => nonempty t' (mem_cons_of_mem _ mem)
  | case3 => rfl

theorem matchLiteral_eq_tokensMatch {subject literal : Bytes}
    (accepted : insertable (tokens subject) false = true) (whole : wholeWildcards (tokens subject))
    (plain : literalTokens (tokens literal)) :
    matchLiteral literal subject = tokensMatch (tokens subject) (tokens literal) := by
  have agree := matchLiteral_whole (tokens subject) (tokens literal) (splitOn_ne_nil _ _)
    (splitOn_ne_nil _ _) (wholeTokens_of_wholeWildcards accepted whole)
    (fun p mem => not_mem_of_mem_tokens mem) (fun t mem => not_mem_of_mem_tokens mem)
  rwa [join_tokens, join_tokens, endsEmpty_of_nonempty fun t mem => (plain t mem).1, Bool.not_false,
    Bool.and_true] at agree

end Hnatsd.Server
