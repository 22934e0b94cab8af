import Hnatsd.Server.Proofs.PermissionsSound

/-!
# The cache's matcher and the trie

`addToCache` and `removeFromCache` ask `matchLiteral` which cached results a subscription touches;
the trie decides which results it is in. They agree on subjects whose wildcards are whole tokens,
except that `matchLiteral` does not let a wildcard at the end of a subject take an empty token at
the end of a literal. Every other accepted subject but one odd kind is read differently on some
literal.
-/

namespace Hnatsd.Server
open Misc List Sublist

variable {sfwc : Bool} {p t : Bytes} {ps : List Bytes}

/-- The odd kind: a `>` behind stars ends the walk over the bytes, and the last token, a `>` again,
lets the trie accept all that the walk accepts. -/
def hiddenFull : List Bytes → Bool
  | [] | [_] => false
  | [p, q] =>
      p.head? = some pwc && (p.dropWhile (· = pwc)).head? = some fwc && q.head? = some fwc
  | p :: p' :: p'' :: ps =>
      (plainToken p || p.all (· = pwc)) && hiddenFull (p' :: p'' :: ps)

/-- A token that starts with a star and is followed by others: the walk goes on behind its stars. -/
theorem matchLiteral_behindStars {t' : Bytes} (ts : List Bytes) (rest : Bytes)
    (star : p.head? = some pwc) (noSep : btsep ∉ t) :
    matchLiteral (t ++ joinRest (t' :: ts)) (p ++ rest) =
      matchLiteral (joinRest (t' :: ts)) (p.dropWhile (· = pwc) ++ rest) := by
  obtain ⟨tail, rfl⟩ := head?_eq_some_iff.mp star
  have stars : (tail.takeWhile (· = pwc)).all (· = pwc) = true := all_takeWhile
  have split : tail ++ rest = tail.takeWhile (· = pwc) ++ (tail.dropWhile (· = pwc) ++ rest) := by
    rw [← append_assoc, takeWhile_append_dropWhile]
  rw [cons_append, matchLiteral_pwc (t' :: ts) _ noSep (Or.inr (by simp)), split]
  rw [dropWhile_cons_of_pos (by simp)]
  exact matchLiteral_stars stars _ _

/-- Where the literal is at an end of its last token, nothing that follows a star matches. -/
theorem matchLiteral_starLast {rest : Bytes} (star : p.head? = some pwc) (noSep : btsep ∉ t)
    (more : p.tail ++ rest ≠ []) : matchLiteral (t ++ joinRest []) (p ++ rest) = false := by
  obtain ⟨tail, rfl⟩ := head?_eq_some_iff.mp star
  rw [cons_append]
  by_cases empty : t = []
  · subst empty
    rfl
  · rw [matchLiteral_pwc [] _ noSep (Or.inl empty)]
    obtain ⟨b, left, cons⟩ := exists_cons_of_ne_nil more
    rw [tail_cons] at cons
    rw [cons]
    rfl

theorem matchLiteral_hidden (ps ts : List Bytes) (tsNonempty : ts ≠ [])
    (hidden : hiddenFull ps = true) (noSep : ∀ p ∈ ps, btsep ∉ p) (noSep' : ∀ t ∈ ts, btsep ∉ t) :
    matchLiteral ([btsep].intercalate ts) ([btsep].intercalate ps) = tokensMatch ps ts := by
  induction ps generalizing ts with
  | nil => cases hidden
  | cons p ps ih =>
    obtain ⟨t, ts, rfl⟩ := exists_cons_of_ne_nil tsNonempty
    have sepP := noSep p (by simp)
    have sepT := noSep' t (by simp)
    match ps, ih, hidden with
    | [q], _, hidden =>
      simp only [hiddenFull, Bool.and_eq_true, decide_eq_true_eq] at hidden
      obtain ⟨⟨star, full⟩, last⟩ := hidden
      rw [join_cons, join_cons, tokensMatch_star star]
      cases ts with
      | nil => exact matchLiteral_starLast star sepT (by simp [joinRest])
      | cons t' ts =>
        obtain ⟨behind, dropped⟩ := head?_eq_some_iff.mp full
        rw [matchLiteral_behindStars ts _ star sepT, dropped, tokensMatch_full last]
        simp [joinRest, matchLiteral, pwc_ne_fwc.symm]
    | p' :: p'' :: ps, ih, hidden =>
      simp only [hiddenFull, Bool.and_eq_true] at hidden
      obtain ⟨ok, tokensStep, step⟩ :=
        @match_step p p' t (p'' :: ps) ts hidden.1 sepP sepT
      rw [step, tokensStep, matchLiteral_rest]
      cases ts with
      | nil => simp [tokensMatch]
      | cons t' ts =>
        rw [if_neg (by simp), ih (t' :: ts) (by simp) hidden.2
          (fun p mem => noSep p (mem_cons_of_mem _ mem))
          (fun t mem => noSep' t (mem_cons_of_mem _ mem))]

section Disagreement

/-- A token that the trie lets the given token of a subject match. -/
def sampleToken (p : Bytes) : Bytes :=
  if p.head? = some pwc ∨ p.head? = some fwc then bytesOf "x" else p

theorem tokensMatch_sample (accepted : insertable ps sfwc = true) :
    tokensMatch ps (ps.map sampleToken) = true := by
  induction ps generalizing sfwc with
  | nil => rfl
  | cons p ps ih =>
    obtain ⟨-, rest⟩ := insertable_cons accepted
    rw [map_cons]
    rcases ofToken_cases p with ⟨star, -⟩ | ⟨-, full, key⟩ | ⟨noStar, noFull, -⟩
    · rw [tokensMatch_star star]
      exact ih rest
    · rw [key, decide_eq_true rfl] at rest
      rw [tokensMatch_full full, (insertable_after_fwc ps).mp rest]
      rfl
    · have same : sampleToken p = p := if_neg (by simp [noStar, noFull])
      simp [tokensMatch, noStar, noFull, same, ih rest]

/-- Tokens of a literal, none of them empty. -/
def FilledTokens (ts : List Bytes) : Prop := ∀ t ∈ ts, t ≠ [] ∧ btsep ∉ t

theorem filledTokens_cons {ts : List Bytes} (nonempty : t ≠ []) (noSep : btsep ∉ t)
    (rest : FilledTokens ts) : FilledTokens (t :: ts) := by
  intro t' mem
  rcases mem_cons.mp mem with rfl | mem
  · exact ⟨nonempty, noSep⟩
  · exact rest t' mem

theorem filledTokens_x {ts : List Bytes} (rest : FilledTokens ts) :
    FilledTokens (bytesOf "x" :: ts) :=
  filledTokens_cons (by decide) (by decide) rest

theorem filledTokens_nil : FilledTokens [] := fun _ mem => absurd mem not_mem_nil

theorem filledTokens_sample (accepted : insertable ps sfwc = true)
    (noSep : ∀ p ∈ ps, btsep ∉ p) : FilledTokens (ps.map sampleToken) := by
  induction ps generalizing sfwc with
  | nil => exact filledTokens_nil
  | cons p ps ih =>
    obtain ⟨filled, rest⟩ := insertable_cons accepted
    have tail := ih rest fun p mem => noSep p (mem_cons_of_mem _ mem)
    rw [map_cons, sampleToken]
    split_ifs
    · exact filledTokens_x tail
    · exact filledTokens_cons (fun empty => filled (Or.inl empty)) (noSep p (by simp)) tail

/-- A literal without empty tokens on which the two ways of matching differ. -/
def Differ (ps : List Bytes) : Prop :=
  ∃ ts, ts ≠ [] ∧ FilledTokens ts ∧
    matchLiteral ([btsep].intercalate ts) ([btsep].intercalate ps) ≠ tokensMatch ps ts

theorem matchLiteral_prefix {a : Bytes} (plain : plainToken a = true) (literal subject : Bytes) :
    matchLiteral (a ++ literal) (a ++ subject) = matchLiteral literal subject := by
  induction a with
  | nil => rfl
  | cons b a ih =>
    obtain ⟨noPwc, noFwc⟩ := plainToken_iff.mp plain
    have isPwc : b ≠ pwc := fun same => noPwc (same ▸ mem_cons_self ..)
    have isFwc : b ≠ fwc := fun same => noFwc (same ▸ mem_cons_self ..)
    have rest : plainToken a = true := plainToken_iff.mpr
      ⟨fun mem => noPwc (mem_cons_of_mem _ mem), fun mem => noFwc (mem_cons_of_mem _ mem)⟩
    simp [matchLiteral, isPwc, isFwc, ih rest]

/-- What a wildcard inside a token leaves to be matched does not depend on the literal's token. -/
theorem matchLiteral_wildcard (w : UInt8) (wild : w = pwc ∨ w = fwc) (subject : Bytes)
    (ts : List Bytes) : ∃ result, ∀ t, t ≠ [] → btsep ∉ t →
      matchLiteral (t ++ joinRest ts) (w :: subject) = result := by
  rcases wild with rfl | rfl
  · exact ⟨_, fun t nonempty noSep => matchLiteral_pwc ts subject noSep (Or.inl nonempty)⟩
  · refine ⟨true, fun t nonempty _ => ?_⟩
    obtain ⟨c, t, rfl⟩ := exists_cons_of_ne_nil nonempty
    simp [matchLiteral, pwc_ne_fwc.symm]

/-- A wildcard behind the first byte of a token is a literal byte to the trie. -/
theorem differ_of_inner
    (accepted : insertable (p :: ps) sfwc = true) (noSep : ∀ q ∈ p :: ps, btsep ∉ q)
    (noStar : p.head? ≠ some pwc) (noFull : p.head? ≠ some fwc) (inner : plainToken p = false) :
    Differ (p :: ps) := by
  obtain ⟨filled, rest⟩ := insertable_cons accepted
  have sepP := noSep p (by simp)
  have samples := filledTokens_sample rest fun q mem => noSep q (mem_cons_of_mem _ mem)
  -- the bytes in front of the first wildcard
  let isPlain : UInt8 → Bool := fun b => b ≠ pwc ∧ b ≠ fwc
  have front : plainToken (p.takeWhile isPlain) = true := by
    have all : ∀ b ∈ p.takeWhile isPlain, b ≠ pwc ∧ b ≠ fwc := by
      intro b mem
      simpa [isPlain] using mem_takeWhile_imp mem
    exact plainToken_iff.mpr ⟨fun mem => (all _ mem).1 rfl, fun mem => (all _ mem).2 rfl⟩
  have split : p.takeWhile isPlain ++ p.dropWhile isPlain = p := takeWhile_append_dropWhile
  generalize p.takeWhile isPlain = a at front split
  cases behind : p.dropWhile isPlain with
  | nil =>
    rw [behind, append_nil] at split
    rw [split, inner] at front
    cases front
  | cons w b =>
    rw [behind] at split
    have wild : w = pwc ∨ w = fwc := by
      have stops := head?_dropWhile_not isPlain p
      rw [behind, head?_cons] at stops
      simpa [isPlain, or_iff_not_imp_left] using stops
    obtain ⟨result, same⟩ := matchLiteral_wildcard w wild (b ++ joinRest ps) (ps.map sampleToken)
    have bytes (t : Bytes) (nonempty : t ≠ []) (sepT : btsep ∉ t) :
        matchLiteral ([btsep].intercalate ((a ++ t) :: ps.map sampleToken))
          ([btsep].intercalate (p :: ps)) = result := by
      rw [join_cons, join_cons, ← split, append_assoc, append_assoc,
        matchLiteral_prefix front]
      exact same t nonempty sepT
    have sepA : btsep ∉ a := fun mem => sepP (split ▸ mem_append_left _ mem)
    have sepB : btsep ∉ w :: b := fun mem => sepP (split ▸ mem_append_right _ mem)
    -- the token itself is what the trie wants, any other with its front is not
    cases result with
    | false =>
      refine ⟨p :: ps.map sampleToken, by simp, ?_, ?_⟩
      · exact filledTokens_cons (fun empty => filled (Or.inl empty)) sepP samples
      · have found := bytes (w :: b) (by simp) sepB
        rw [split] at found
        simp [found, tokensMatch, noStar, noFull, tokensMatch_sample rest]
    | true =>
      refine ⟨(a ++ bytesOf "x") :: ps.map sampleToken, by simp, ?_, ?_⟩
      · refine filledTokens_cons (by simp [bytesOf]) ?_ samples
        rw [mem_append, not_or]
        exact ⟨sepA, by decide⟩
      · have other : p ≠ a ++ bytesOf "x" := by
          intro is
          rw [← split, append_right_inj] at is
          obtain ⟨rfl, -⟩ := List.cons.inj (is.trans (show bytesOf "x" = [120] from rfl))
          exact absurd wild (by decide)
        rw [bytes _ (by decide) (by decide)]
        simp [tokensMatch, noStar, noFull, other]

/-- Behind a star that is not its whole token the bytes and the tokens part. -/
theorem differ_of_star
    (accepted : insertable (p :: ps) sfwc = true) (noSep : ∀ q ∈ p :: ps, btsep ∉ q)
    (star : p.head? = some pwc) (mixed : wholeTokens (p :: ps) = false)
    (notStars : ps ≠ [] → p.all (· = pwc) = false) (notHidden : hiddenFull (p :: ps) = false) :
    Differ (p :: ps) := by
  obtain ⟨-, rest⟩ := insertable_cons accepted
  have sepP := noSep p (by simp)
  have samples := filledTokens_sample rest fun q mem => noSep q (mem_cons_of_mem _ mem)
  cases ps with
  | nil =>
    refine ⟨[bytesOf "x"], by simp, filledTokens_x filledTokens_nil, ?_⟩
    have more : p.tail ++ [] ≠ [] := by
      obtain ⟨tail, rfl⟩ := head?_eq_some_iff.mp star
      intro none'
      rw [append_nil, tail_cons] at none'
      subst none'
      cases mixed
    rw [join_cons, join_cons, show p ++ joinRest [] = p ++ [] from rfl,
      matchLiteral_starLast star (by decide) more, tokensMatch_star star]
    decide
  | cons q ps =>
    cases behind : p.dropWhile (· = pwc) with
    | nil =>
      have all : p.all (· = pwc) = true := by
        rw [all_eq_true]
        exact dropWhile_eq_nil_iff.mp behind
      rw [notStars (by simp)] at all
      cases all
    | cons c b =>
      have notPwc : c ≠ pwc := by
        have stops := head?_dropWhile_not (fun b => decide (b = pwc)) p
        rw [behind, head?_cons] at stops
        simpa using stops
      have notSep : c ≠ btsep := fun same =>
        sepP (same ▸ (dropWhile_sublist _).subset (behind ▸ mem_cons_self ..))
      have bytes (t' : Bytes) (ts : List Bytes) :
          matchLiteral ([btsep].intercalate (bytesOf "x" :: t' :: ts))
            ([btsep].intercalate (p :: q :: ps)) = decide (c = fwc) := by
        rw [join_cons, join_cons, matchLiteral_behindStars ts _ star (by decide), behind]
        by_cases full : c = fwc <;>
          simp [joinRest, matchLiteral, notPwc, notSep, full, pwc_ne_fwc.symm]
      by_cases full : c = fwc
      · -- the walk ends here; one token less or more than the trie wants
        have accepts := decide_eq_true full
        cases ps with
        | nil =>
          have lastNot : q.head? ≠ some fwc := by
            intro last
            simp [hiddenFull, star, behind, full, last] at notHidden
          refine ⟨[bytesOf "x", bytesOf "x", bytesOf "x"], by simp,
            filledTokens_x (filledTokens_x (filledTokens_x filledTokens_nil)), ?_⟩
          rw [bytes, accepts, tokensMatch_star star]
          simp [tokensMatch, lastNot]
        | cons q' ps =>
          refine ⟨[bytesOf "x", bytesOf "x"], by simp,
            filledTokens_x (filledTokens_x filledTokens_nil), ?_⟩
          rw [bytes, accepts, tokensMatch_star star]
          simp [tokensMatch]
      · refine ⟨bytesOf "x" :: (q :: ps).map sampleToken, by simp, filledTokens_x samples, ?_⟩
        rw [map_cons, bytes, tokensMatch_star star, ← map_cons, tokensMatch_sample rest]
        simp [full]

theorem Differ.cons {p' : Bytes} (differ : Differ (p' :: ps))
    (accepted : insertable (p :: p' :: ps) sfwc = true) (noSep : ∀ q ∈ p :: p' :: ps, btsep ∉ q)
    (whole : (plainToken p || p.all (· = pwc)) = true) : Differ (p :: p' :: ps) := by
  obtain ⟨ts, nonempty, filled, differs⟩ := differ
  obtain ⟨sampled, sepT⟩ := filledTokens_sample accepted noSep (sampleToken p) (by simp)
  obtain ⟨ok, tokensStep, step⟩ :=
    @match_step p p' _ ps ts whole (noSep p (by simp)) sepT
  have taken : ok = true := by
    have all := tokensMatch_sample accepted
    rw [map_cons, tokensStep, Bool.and_eq_true] at all
    exact all.1
  refine ⟨sampleToken p :: ts, by simp, filledTokens_cons sampled sepT filled, ?_⟩
  rwa [step, tokensStep, taken, matchLiteral_rest, if_neg (by simp [nonempty]), Bool.true_and,
    Bool.true_and]

/-- Every accepted subject that is neither whole nor of the odd kind is read differently on some
literal. -/
theorem differ_of_mixed (ps : List Bytes) (sfwc : Bool) (accepted : insertable ps sfwc = true)
    (noSep : ∀ p ∈ ps, btsep ∉ p) (mixed : wholeTokens ps = false)
    (notHidden : hiddenFull ps = false) : Differ ps := by
  induction ps generalizing sfwc with
  | nil => cases mixed
  | cons p ps ih =>
    obtain ⟨-, rest⟩ := insertable_cons accepted
    by_cases step : (plainToken p || p.all (· = pwc)) = true ∧ ps ≠ []
    · -- the difference is further on
      obtain ⟨whole, more⟩ := step
      obtain ⟨p', ps, rfl⟩ := exists_cons_of_ne_nil more
      refine (ih _ rest (fun q mem => noSep q (mem_cons_of_mem _ mem)) ?_ ?_).cons accepted
        noSep whole
      · simpa [wholeTokens, whole] using mixed
      · cases ps with
        | nil => rfl
        | cons p'' ps => simpa [hiddenFull, whole] using notHidden
    rw [not_and, not_ne_iff, Bool.or_eq_true] at step
    rcases ofToken_cases p with ⟨star, -⟩ | ⟨-, full, key⟩ | ⟨noStar, noFull, -⟩
    · refine differ_of_star accepted noSep star mixed (fun more => ?_) notHidden
      rw [← Bool.not_eq_true]
      exact fun all => more (step (Or.inr all))
    · -- a token that starts with `>` is the last
      rw [key, decide_eq_true rfl] at rest
      obtain rfl := (insertable_after_fwc ps).mp rest
      simp [wholeTokens, full] at mixed
    · refine differ_of_inner accepted noSep noStar noFull ?_
      rw [← Bool.not_eq_true]
      intro plain
      obtain rfl := step (Or.inl plain)
      simp [wholeTokens, plain] at mixed

end Disagreement

section Agreement

variable (g : Grow)

/-- `matchLiteral` accepts a literal for a subscription exactly if a sublist that holds nothing else
returns the subscription for it. -/
def MatchersAgree (sub : Subscription) (literal : Bytes) : Prop :=
  matchLiteral literal sub.subject = true ↔
    Reaches g (newSublist.insert g sub).1 sub literal

theorem insertable_of_inserted {sub : Subscription}
    (inserted : (newSublist.insert g sub).2 = none) :
    insertable (tokens sub.subject) false = true := by
  by_contra refused
  rw [(insert_refused g inv_newSublist (Bool.eq_false_iff.mpr refused)).1] at inserted
  cases inserted

theorem alone_reaches_iff {sub : Subscription}
    (inserted : (newSublist.insert g sub).2 = none) (literal : Bytes) :
    Reaches g (newSublist.insert g sub).1 sub literal ↔
      tokensMatch (tokens sub.subject) (tokens literal) = true :=
  reaches_iff g (insert_accepted g inv_newSublist (insertable_of_inserted g inserted)).2
    (mem_singleton.mpr rfl) literal

end Agreement

end Hnatsd.Server
