import Hnatsd.Server.Permissions
import Hnatsd.Server.Proofs.SublistRun
import Hnatsd.Server.Proofs.SublistSubjects

/-!
# Subscribe permissions

`processSub` looks the subject of a subscription up as if it were a literal. Without a `>` at its
end this is sound: what the subscription matches, the allowed subject that matched it matches too.
A `>` at the end is one token for the lookup but stands for any number of them, so it is sound
exactly when the subjects with `n` stars in its place are allowed as well, for every `n`.
-/

namespace Hnatsd.Server
open Misc List

variable {last subject : Bytes} {allowed as ps ts : List Bytes} {n : Nat}

section Tokens

/-- A pattern that matches another pattern, taken as a literal, matches all that one matches, if
the other has no `>`. -/
theorem tokensMatch_trans (noFwc : ∀ p ∈ ps, p.head? ≠ some fwc)
    (covers : tokensMatch as ps = true) (selects : tokensMatch ps ts = true) :
    tokensMatch as ts = true := by
  induction as generalizing ps ts with
  | nil =>
    cases ps with
    | nil => exact selects
    | cons p ps => simp [tokensMatch] at covers
  | cons a as ih =>
    cases ps with
    | nil => simp [tokensMatch] at covers
    | cons p ps =>
      cases ts with
      | nil => simp [tokensMatch] at selects
      | cons t ts =>
        have first := noFwc p (by simp)
        have rest : ∀ p' ∈ ps, p'.head? ≠ some fwc := fun p' mem => noFwc p' (by simp [mem])
        -- the tail of the selecting pattern matches the tail of the subject in any case
        have tail : tokensMatch ps ts = true := by
          by_cases star : p.head? = some pwc
          · rwa [tokensMatch_star star] at selects
          · rw [tokensMatch_lit star first, Bool.and_eq_true] at selects
            exact selects.2
        rcases ofToken_cases a with ⟨star, -⟩ | ⟨-, full, -⟩ | ⟨star, full, -⟩
        · rw [tokensMatch_star star] at covers ⊢
          exact ih rest covers tail
        · rwa [tokensMatch_full full] at covers ⊢
        · rw [tokensMatch_lit star full, Bool.and_eq_true, decide_eq_true_eq] at covers ⊢
          obtain ⟨rfl, covers⟩ := covers
          rw [tokensMatch_lit star full, Bool.and_eq_true, decide_eq_true_eq] at selects
          exact ⟨selects.1, ih rest covers tail⟩

/-- What a pattern with `>` at its end matches, it matches with some number of stars there. -/
theorem tokensMatch_stars
    (noFwc : ∀ p ∈ ps, p.head? ≠ some fwc) (selects : tokensMatch (ps ++ [last]) ts = true) :
    ∃ n, 1 ≤ n ∧ tokensMatch (ps ++ replicate n [pwc]) ts = true := by
  induction ps generalizing ts with
  | nil =>
    cases ts with
    | nil => simp [tokensMatch] at selects
    | cons t ts =>
      refine ⟨ts.length + 1, by omega, ?_⟩
      simp only [nil_append]
      clear selects
      induction ts generalizing t with
      | nil => simp [tokensMatch]
      | cons t' ts ih => simpa [replicate_succ, tokensMatch] using ih t'
  | cons p ps ih =>
    cases ts with
    | nil => simp [tokensMatch] at selects
    | cons t ts =>
      have first := noFwc p (by simp)
      have rest : ∀ p' ∈ ps, p'.head? ≠ some fwc := fun p' mem => noFwc p' (by simp [mem])
      by_cases star : p.head? = some pwc
      · rw [cons_append, tokensMatch_star star] at selects
        obtain ⟨n, pos, found⟩ := ih rest selects
        exact ⟨n, pos, by rwa [cons_append, tokensMatch_star star]⟩
      · rw [cons_append, tokensMatch_lit star first, Bool.and_eq_true,
          decide_eq_true_eq] at selects
        obtain ⟨n, pos, found⟩ := ih rest selects.2
        refine ⟨n, pos, ?_⟩
        rw [cons_append, tokensMatch_lit star first, Bool.and_eq_true, decide_eq_true_eq]
        exact ⟨selects.1, found⟩

/-- Put a literal token in the place of every star. -/
def instantiate (fresh : Bytes) (ps : List Bytes) : List Bytes :=
  ps.map fun p => if p.head? = some pwc then fresh else p

/-- A pattern ending in `>` matches its own stars and any further tokens, instantiated. -/
theorem tokensMatch_full_append {fresh : Bytes}
    (full : last.head? = some fwc) (pos : 1 ≤ n) (noFwc : ∀ p ∈ ps, p.head? ≠ some fwc) :
    tokensMatch (ps ++ [last]) (instantiate fresh (ps ++ replicate n [pwc])) = true := by
  induction ps with
  | nil =>
    obtain ⟨n, rfl⟩ : ∃ n', n = n' + 1 := ⟨n - 1, by omega⟩
    rw [nil_append, replicate_succ, nil_append, instantiate, map_cons,
      tokensMatch_full full]
    rfl
  | cons p ps ih =>
    have tail := ih fun p' mem => noFwc p' (by simp [mem])
    rw [cons_append, cons_append, instantiate, map_cons]
    by_cases star : p.head? = some pwc
    · rw [tokensMatch_star star]
      exact tail
    · rw [tokensMatch_lit star (noFwc p (by simp)), if_neg star]
      rw [Bool.and_eq_true, decide_eq_true_eq]
      exact ⟨rfl, tail⟩

/-- A pattern that does not know the token put in for the stars matches the stars themselves. -/
theorem tokensMatch_of_instantiate {fresh : Bytes} (unknown : fresh ∉ as)
    (covers : tokensMatch as (instantiate fresh ps) = true) : tokensMatch as ps = true := by
  induction as generalizing ps with
  | nil => cases ps <;> simp_all [instantiate, tokensMatch]
  | cons a as ih =>
    cases ps with
    | nil => simp [instantiate, tokensMatch] at covers
    | cons p ps =>
      rw [mem_cons, not_or] at unknown
      rw [instantiate, map_cons] at covers
      rcases ofToken_cases a with ⟨star, -⟩ | ⟨-, full, -⟩ | ⟨star, full, -⟩
      · rw [tokensMatch_star star] at covers ⊢
        exact ih unknown.2 covers
      · rwa [tokensMatch_full full] at covers ⊢
      · rw [tokensMatch_lit star full, Bool.and_eq_true, decide_eq_true_eq] at covers ⊢
        by_cases replaced : p.head? = some pwc
        · rw [if_pos replaced] at covers
          exact absurd covers.1.symm unknown.1
        · rw [if_neg replaced] at covers
          exact ⟨covers.1, ih unknown.2 covers.2⟩

/-- Only insertable subjects match subjects without empty tokens. -/
theorem insertable_of_tokensMatch (nonempty : ∀ t ∈ ts, t ≠ [])
    (covers : tokensMatch as ts = true) : insertable as false = true := by
  induction as generalizing ts with
  | nil => rfl
  | cons a as ih =>
    cases ts with
    | nil => simp [tokensMatch] at covers
    | cons t ts =>
      have rest : ∀ t' ∈ ts, t' ≠ [] := fun t' mem => nonempty t' (by simp [mem])
      rcases ofToken_cases a with ⟨star, key⟩ | ⟨star, full, key⟩ | ⟨star, full, key⟩
      · rw [tokensMatch_star star] at covers
        have given : a ≠ [] := by rintro rfl; simp at star
        simp [insertable, given, key, ih rest covers]
      · rw [tokensMatch_full full, decide_eq_true_eq] at covers
        have given : a ≠ [] := by rintro rfl; simp at full
        simp [insertable, given, covers]
      · rw [tokensMatch_lit star full, Bool.and_eq_true, decide_eq_true_eq] at covers
        have given : a ≠ [] := by rw [covers.1]; exact nonempty t (by simp)
        simp [insertable, given, key, ih rest covers.2]

/-- In an insertable subject only the last token starts with `>`. -/
theorem insertable_noFwc {sfwc : Bool}
    (accepted : insertable (ps ++ [last]) sfwc = true) :
    (∀ p ∈ ps, p.head? ≠ some fwc ∧ p ≠ []) ∧ last ≠ [] := by
  induction ps generalizing sfwc with
  | nil =>
    simp only [nil_append, insertable, Bool.and_eq_true, decide_eq_true_eq] at accepted
    exact ⟨by simp, accepted.1.1⟩
  | cons p ps ih =>
    simp only [cons_append, insertable, Bool.and_eq_true, decide_eq_true_eq] at accepted
    obtain ⟨⟨given, -⟩, tail⟩ := accepted
    obtain ⟨rest, lastGiven⟩ := ih tail
    refine ⟨fun q mem => ?_, lastGiven⟩
    rcases mem_cons.mp mem with rfl | mem
    · refine ⟨fun full => ?_, given⟩
      have key : Key.ofToken q = .fwc := by
        rcases ofToken_cases q with ⟨star, -⟩ | ⟨-, -, key⟩ | ⟨-, notFull, -⟩
        · rw [full, Option.some.injEq] at star
          exact absurd star.symm pwc_ne_fwc
        · exact key
        · exact absurd full notFull
      -- a token behind `>` is refused
      cases ps with
      | nil => simp [insertable, key] at tail
      | cons p' ps => simp [insertable, key] at tail
    · exact rest q mem

end Tokens

section Registered

variable (g : Grow)

/-- The sublist of a user's permissions holds the allowed subjects that are valid, and remembers
right answers only. -/
structure Grants (s : Sublist) (allowed : List Bytes) : Prop where
  holds : ∃ live, Inv s live ∧ (∀ x ∈ live, x.queue = none) ∧
    ∀ a, (∃ x ∈ live, x.subject = a) ↔ a ∈ allowed ∧ insertable (tokens a) false = true
  cached : ∀ e ∈ s.cache, e.2.psubs = (matchPaths (tokens e.1)).flatMap (psubsAt (some s.root))

theorem grants_insertSubjects (subjects : List Bytes) (ptr : Nat) :
    Grants (insertSubjects g subjects ptr) subjects := by
  -- the loop from any state with an empty cache
  have loop : ∀ (todo done : List Bytes) (ptr : Nat) (s : Sublist) (live : List Subscription),
      Inv s live → s.cache = [] → (∀ x ∈ live, x.queue = none) →
      (∀ a, (∃ x ∈ live, x.subject = a) ↔ a ∈ done ∧ insertable (tokens a) false = true) →
      Grants ((todo.zipIdx ptr).foldl
        (fun s named => (s.insert g { ptr := named.2, subject := named.1 }).1) s)
        (done ++ todo) := by
    intro todo
    induction todo with
    | nil =>
      intro done ptr s live inv noCache plain members
      refine ⟨⟨live, inv, plain, by simpa using members⟩, ?_⟩
      simp [noCache]
    | cons subject todo ih =>
      intro done ptr s live inv noCache plain members
      have split : done ++ subject :: todo = (done ++ [subject]) ++ todo := by simp
      rw [split]
      simp only [zipIdx_cons, foldl_cons]
      have noCache' : (s.insert g { ptr := ptr, subject := subject }).1.cache = [] := by
        unfold Sublist.insert
        split <;> simp [noCache, Sublist.addToCache]
      cases ok : insertable (tokens subject) false with
      | true =>
        obtain ⟨-, after⟩ := @insert_accepted g s live { ptr := ptr, subject := subject } inv ok
        refine ih _ _ _ _ after noCache' ?_ ?_
        · intro x mem
          rcases mem_cons.mp mem with rfl | mem
          · rfl
          · exact plain x mem
        · intro a
          constructor
          · rintro ⟨x, mem, rfl⟩
            rcases mem_cons.mp mem with rfl | mem
            · exact ⟨by simp, ok⟩
            · obtain ⟨inDone, valid⟩ := (members x.subject).mp ⟨x, mem, rfl⟩
              exact ⟨by simp [inDone], valid⟩
          · rintro ⟨mem, valid⟩
            rcases mem_append.mp mem with mem | mem
            · obtain ⟨x, inLive, same⟩ := (members a).mpr ⟨mem, valid⟩
              exact ⟨x, mem_cons_of_mem _ inLive, same⟩
            · obtain rfl : a = subject := by simpa using mem
              exact ⟨_, mem_cons_self .., rfl⟩
      | false =>
        obtain ⟨-, after⟩ := @insert_refused g s live { ptr := ptr, subject := subject } inv ok
        refine ih _ _ _ _ after noCache' plain ?_
        intro a
        rw [members a]
        constructor
        · rintro ⟨mem, valid⟩
          exact ⟨by simp [mem], valid⟩
        · rintro ⟨mem, valid⟩
          rcases mem_append.mp mem with mem | mem
          · exact ⟨mem, valid⟩
          · obtain rfl : a = subject := by simpa using mem
            simp [ok] at valid
  exact loop subjects [] ptr .newSublist [] inv_newSublist rfl (by simp) (by simp)

/-- The plain subscriptions of a lookup depend on the trie only. -/
theorem lookup_psubs (s : Sublist) (subject : Bytes) :
    (s.lookup g subject).2.psubs =
      (matchPaths (tokens subject)).flatMap (psubsAt (some s.root)) := by
  rw [Sublist.lookup, matchLevel_eq]

theorem Grants.matchSubject {s : Sublist} (grants : Grants s allowed)
    (subject : Bytes) (pick : Nat) :
    Grants (s.matchSubject g subject pick).1 allowed ∧
      (s.matchSubject g subject pick).2.psubs =
        (matchPaths (tokens subject)).flatMap (psubsAt (some s.root)) := by
  obtain ⟨live, inv, plain, members⟩ := grants.holds
  have after := matchSubject_inv g inv subject pick
  refine ⟨⟨⟨live, after, plain, members⟩, ?_⟩, ?_⟩
  · cases hit : s.cache.lookup subject with
    | some r => simpa [Sublist.matchSubject, hit] using grants.cached
    | none =>
      have added : ∀ e ∈ assocSet s.cache subject (s.lookup g subject).2,
          e.2.psubs = (matchPaths (tokens e.1)).flatMap (psubsAt (some s.root)) := by
        intro e mem
        rcases mem_assocSet mem with rfl | ⟨inCache, -⟩
        · exact lookup_psubs g s subject
        · exact grants.cached e inCache
      simp only [Sublist.matchSubject, hit]
      intro e mem
      split at mem
      · split at mem
        · exact added e (mem_assocErase mem).1
        · exact added e mem
      · exact added e mem
  · cases hit : s.cache.lookup subject with
    | some r =>
      have right := grants.cached (subject, r) (mem_of_lookup hit)
      simpa [Sublist.matchSubject, hit] using right
    | none =>
      simp only [Sublist.matchSubject, hit]
      exact lookup_psubs g s subject

/-- `c.perms` of a registered user after a number of permission checks. -/
def checkedPermissions (user : UserPermissions) (checked : List (Bytes × Nat)) :
    Option Permissions :=
  checked.foldl (fun perms (subject, pick) => (checkSubPermission g perms subject pick).1)
    (registerUser g none (some user))

theorem grants_checkedPermissions (user : UserPermissions) (checked : List (Bytes × Nat)) :
    ∃ p, checkedPermissions g user checked = some p ∧ Grants p.sub user.subscribe := by
  have loop : ∀ (checked : List (Bytes × Nat)) (p : Permissions), Grants p.sub user.subscribe →
      ∃ p', checked.foldl (fun perms (subject, pick) => (checkSubPermission g perms subject pick).1)
        (some p) = some p' ∧ Grants p'.sub user.subscribe := by
    intro checked
    induction checked with
    | nil => exact fun p grants => ⟨p, rfl, grants⟩
    | cons entry checked ih =>
      intro p grants
      exact ih _ (grants.matchSubject g entry.1 entry.2).1
  exact loop checked _ (grants_insertSubjects g user.subscribe user.publish.length)

/-- The check finds a subject allowed when a valid allowed subject matches its tokens. -/
theorem checkSubPermission_iff {p : Permissions}
    (grants : Grants p.sub allowed) (subject : Bytes) (pick : Nat) :
    (checkSubPermission g (some p) subject pick).2 = true ↔
      ∃ a ∈ allowed, insertable (tokens a) false = true ∧
        tokensMatch (tokens a) (tokens subject) = true := by
  obtain ⟨live, inv, plain, members⟩ := grants.holds
  have found : (p.sub.matchSubject g subject pick).2.psubs.Perm (matching live false subject) := by
    rw [(grants.matchSubject g subject pick).2]
    exact (List.Perm.flatMap_left _ fun q _ => inv.holds.plain q).trans
      (plain_matching live subject)
  simp only [checkSubPermission, found.length_eq, decide_eq_true_eq, ne_eq,
    length_eq_zero_iff]
  constructor
  · intro some_match
    obtain ⟨x, mem⟩ := exists_mem_of_ne_nil _ some_match
    simp only [matching, mem_filter, Bool.and_eq_true] at mem
    obtain ⟨allowed, valid⟩ := (members x.subject).mp ⟨x, mem.1, rfl⟩
    exact ⟨x.subject, allowed, valid, mem.2.2⟩
  · rintro ⟨a, allowed, valid, covers⟩
    obtain ⟨x, inLive, rfl⟩ := (members a).mpr ⟨allowed, valid⟩
    have selected : x ∈ matching live false subject := by
      simp [matching, inLive, plain x inLive, covers]
    exact ne_nil_of_mem selected

end Registered

section Server

variable (g : Grow)

/-- A lookup of `subject` in the server's sublist returns `sub`. -/
def Reaches (sl : Sublist) (sub : Subscription) (subject : Bytes) : Prop :=
  sub ∈ (sl.lookup g subject).2.psubs ∨
    ∃ qr ∈ (sl.lookup g subject).2.qsubs, some sub ∈ (sl.lookup g subject).1.read qr

theorem reaches_iff {sl : Sublist} {live : List Subscription} {sub : Subscription}
    (inv : Inv sl live) (mem : sub ∈ live) (subject : Bytes) :
    Reaches g sl sub subject ↔ tokensMatch (tokens sub.subject) (tokens subject) = true := by
  obtain ⟨gs, visiting, -, members, plain⟩ := lookup_spec g inv.holds subject
  have inPlain : sub ∈ (sl.lookup g subject).2.psubs ↔ sub ∈ matching live false subject :=
    plain.mem_iff
  have inGroups : (∃ qr ∈ (sl.lookup g subject).2.qsubs,
      some sub ∈ (sl.lookup g subject).1.read qr) ↔ sub ∈ matching live true subject := by
    rw [← members.mem_iff]
    constructor
    · rintro ⟨qr, inResult, shown⟩
      obtain ⟨i, at_i⟩ := mem_iff_getElem?.mp inResult
      obtain ⟨group, at_group, read⟩ := visiting.reads.getElem at_i
      have inGroup : some sub ∈ group.map some := read ▸ shown
      exact mem_flatten.mpr ⟨group, mem_of_getElem? at_group, by simpa using inGroup⟩
    · intro inFlat
      obtain ⟨group, inGs, inGroup⟩ := mem_flatten.mp inFlat
      have cell : group.map some ∈ (sl.lookup g subject).2.qsubs.map (sl.lookup g subject).1.read := by
        have reads : (sl.lookup g subject).2.qsubs.map (sl.lookup g subject).1.read =
            gs.map fun group => group.map some := visiting.reads
        rw [reads]
        exact mem_map_of_mem inGs
      obtain ⟨qr, inResult, read⟩ := mem_map.mp cell
      refine ⟨qr, inResult, ?_⟩
      rw [read]
      exact mem_map_of_mem inGroup
  rw [Reaches, inPlain, inGroups]
  cases named : sub.queue <;> simp [matching, mem, named]

theorem processSub_inserted {c c' : SubClient} {arg : Bytes} {ptr client pick : Nat}
    {sub : Subscription} {forward : Bool}
    (ran : processSub g c arg ptr client pick = (c', .inserted sub forward)) :
    (checkSubPermission g c.perms sub.subject pick).2 = true ∧
      ∃ sl sl', c.srv = some sl ∧ sl.insert g sub = (sl', none) ∧ c'.srv = some sl' := by
  unfold processSub at ran
  split at ran
  · cases ran
  · split at ran
    · cases ran
    · split at ran
      · cases ran
      · rename_i perms allowed
        split at ran
        · cases ran
        · split at ran
          · cases ran
          · rename_i sl served
            split at ran
            · cases ran
            · rename_i sl' inserted
              cases ran
              exact ⟨by rw [allowed], sl, sl', served, inserted, rfl⟩

/-- The last token starts with `>`. -/
def EndsInFwc (subject : Bytes) : Prop :=
  (tokens subject).getLast?.bind head? = some fwc

/-- The subject with `n` stars in the place of its last token. -/
def withStars (subject : Bytes) (n : Nat) : Bytes :=
  [btsep].intercalate ((tokens subject).dropLast ++ replicate n [pwc])

theorem tokens_withStars (pos : 1 ≤ n) :
    tokens (withStars subject n) = (tokens subject).dropLast ++ replicate n [pwc] := by
  refine splitOn_intercalate btsep ?_ ?_
  · intro t mem
    rcases mem_append.mp mem with mem | mem
    · exact not_mem_of_mem_tokens ((dropLast_sublist _).subset mem)
    · rw [(mem_replicate.mp mem).2]
      decide
  · intro empty
    have := congrArg length empty
    simp at this
    omega

/-- A token longer than every token of the given subjects. -/
theorem exists_fresh (subjects : List Bytes) :
    ∃ n, 1 ≤ n ∧ ∀ a ∈ subjects, replicate n (97 : UInt8) ∉ tokens a := by
  have bound : ∀ ts : List Bytes, ∃ n, ∀ t ∈ ts, t.length < n := by
    intro ts
    induction ts with
    | nil => exact ⟨0, by simp⟩
    | cons t ts ih =>
      obtain ⟨n, shorter⟩ := ih
      refine ⟨max n (t.length + 1), fun t' mem => ?_⟩
      rcases mem_cons.mp mem with rfl | mem
      · omega
      · have := shorter t' mem
        omega
  obtain ⟨n, shorter⟩ := bound (subjects.flatMap tokens)
  refine ⟨n + 1, by omega, fun a mem known => ?_⟩
  have := shorter _ (mem_flatMap.mpr ⟨a, mem, known⟩)
  rw [length_replicate] at this
  omega

/-- Whatever the subscription matches, an allowed subject matches too. -/
def SubscribeSound (allowed : List Bytes) (sl : Sublist) (sub : Subscription) : Prop :=
  ∀ literal, isValidLiteralSubject literal = true → Reaches g sl sub literal →
    ∃ a ∈ allowed, tokensMatch (tokens a) (tokens literal) = true

/-- Without `>` at its end, an accepted subject is sound. -/
theorem sound_of_not_endsInFwc
    (accepted : insertable (tokens subject) false = true) (open_ended : ¬EndsInFwc subject)
    (covered : ∃ a ∈ allowed, insertable (tokens a) false = true ∧
      tokensMatch (tokens a) (tokens subject) = true)
    (selects : tokensMatch (tokens subject) ts = true) :
    ∃ a ∈ allowed, tokensMatch (tokens a) ts = true := by
  obtain ⟨a, mem, -, covers⟩ := covered
  obtain ⟨ps, last, split⟩ : ∃ ps last, tokens subject = ps ++ [last] :=
    ⟨_, _, (dropLast_append_getLast (tokens_ne_nil subject)).symm⟩
  have lastPlain : last.head? ≠ some fwc := by
    simpa [EndsInFwc, split] using open_ended
  rw [split] at accepted
  obtain ⟨rest, -⟩ := insertable_noFwc accepted
  refine ⟨a, mem, tokensMatch_trans (fun p inPs => ?_) covers selects⟩
  rw [split] at inPs
  rcases mem_append.mp inPs with inPs | inPs
  · exact (rest p inPs).1
  · rw [mem_singleton.mp inPs]
    exact lastPlain

/-- The tokens of a subject with `n` stars at its end hold no `>`. -/
theorem stars_noFwc (rest : ∀ p ∈ ps, p.head? ≠ some fwc ∧ p ≠ []) :
    ∀ p ∈ ps ++ replicate n [pwc], p.head? ≠ some fwc := by
  intro p mem
  rcases mem_append.mp mem with mem | mem
  · exact (rest p mem).1
  · rw [(mem_replicate.mp mem).2]
    decide

/-- A subject ending in `>` is sound when it is allowed with any number of stars instead. -/
theorem sound_of_stars
    (accepted : insertable (tokens subject) false = true)
    (covered : ∀ n, 1 ≤ n → ∃ a ∈ allowed, insertable (tokens a) false = true ∧
      tokensMatch (tokens a) (tokens (withStars subject n)) = true)
    (selects : tokensMatch (tokens subject) ts = true) :
    ∃ a ∈ allowed, tokensMatch (tokens a) ts = true := by
  have split := (dropLast_append_getLast (tokens_ne_nil subject)).symm
  rw [split] at accepted selects
  obtain ⟨rest, -⟩ := insertable_noFwc accepted
  obtain ⟨n, pos, starred⟩ := tokensMatch_stars (fun p mem => (rest p mem).1) selects
  obtain ⟨a, mem, -, covers⟩ := covered n pos
  rw [tokens_withStars pos] at covers
  exact ⟨a, mem, tokensMatch_trans (stars_noFwc rest) covers starred⟩

/-- A token that is not the last of an insertable subject and not a star is a literal token. -/
theorem instantiate_literal {m : Nat} (pos : 1 ≤ m)
    (rest : ∀ p ∈ ps, p.head? ≠ some fwc ∧ p ≠ []) :
    ∀ t ∈ instantiate (replicate m 97) (ps ++ replicate n [pwc]),
      t ≠ [] ∧ t.head? ≠ some pwc ∧ t.head? ≠ some fwc := by
  have fresh : replicate m (97 : UInt8) ≠ [] ∧
      (replicate m (97 : UInt8)).head? = some 97 := by
    obtain ⟨m, rfl⟩ : ∃ m', m = m' + 1 := ⟨m - 1, by omega⟩
    simp [replicate_succ]
  intro t mem
  obtain ⟨p, inPs, rfl⟩ := mem_map.mp mem
  by_cases star : p.head? = some pwc
  · rw [if_pos star, fresh.2]
    exact ⟨fresh.1, by decide, by decide⟩
  · rw [if_neg star]
    rcases mem_append.mp inPs with inPs | inPs
    · exact ⟨(rest p inPs).2, star, (rest p inPs).1⟩
    · rw [(mem_replicate.mp inPs).2] at star
      exact absurd rfl star

theorem isValidLiteral_of_tokens
    (literal : ∀ t ∈ tokens subject, t ≠ [] ∧ t.head? ≠ some pwc ∧ t.head? ≠ some fwc) :
    isValidLiteralSubject subject = true := by
  rw [isValidLiteralSubject, all_eq_true]
  intro t mem
  obtain ⟨given, star, full⟩ := literal t mem
  have pos : t.length ≠ 0 := by simpa using given
  simp [pos, star, full]

/-- When every literal is covered, so is the subject with stars: put a token in their place that
no allowed subject knows. -/
theorem stars_of_sound (pos : 1 ≤ n)
    (accepted : insertable (tokens subject) false = true) (full : EndsInFwc subject)
    (sound : ∀ literal, isValidLiteralSubject literal = true →
      tokensMatch (tokens subject) (tokens literal) = true →
      ∃ a ∈ allowed, tokensMatch (tokens a) (tokens literal) = true) :
    ∃ a ∈ allowed, insertable (tokens a) false = true ∧
      tokensMatch (tokens a) (tokens (withStars subject n)) = true := by
  obtain ⟨m, mpos, fresh⟩ := exists_fresh allowed
  have split := (dropLast_append_getLast (tokens_ne_nil subject)).symm
  have lastFull : ((tokens subject).getLast (tokens_ne_nil subject)).head? = some fwc := by
    simpa [EndsInFwc, getLast?_eq_some_getLast (tokens_ne_nil subject)] using full
  rw [split] at accepted
  obtain ⟨rest, -⟩ := insertable_noFwc accepted
  -- the literal: stars of the subject and of its end instantiated
  let ts := instantiate (replicate m 97) ((tokens subject).dropLast ++ replicate n [pwc])
  have literal := instantiate_literal (n := n) mpos rest
  have noSep : ∀ t ∈ ts, btsep ∉ t := by
    intro t mem
    obtain ⟨p, inPs, rfl⟩ := mem_map.mp mem
    by_cases star : p.head? = some pwc
    · rw [if_pos star, mem_replicate]
      exact fun bad => absurd bad.2 (by decide)
    · rw [if_neg star]
      rcases mem_append.mp inPs with inPs | inPs
      · exact not_mem_of_mem_tokens ((dropLast_sublist _).subset inPs)
      · rw [(mem_replicate.mp inPs).2]
        decide
  have given : ts ≠ [] := by
    intro empty
    have := congrArg length empty
    simp [ts, instantiate] at this
    omega
  have tokensEq : tokens ([btsep].intercalate ts) = ts := splitOn_intercalate btsep noSep given
  have selected : tokensMatch (tokens subject) ts = true := by
    rw [split]
    exact tokensMatch_full_append lastFull pos (fun p mem => (rest p mem).1)
  obtain ⟨a, mem, covers⟩ := sound ([btsep].intercalate ts)
    (isValidLiteral_of_tokens (by rw [tokensEq]; exact literal)) (by rw [tokensEq]; exact selected)
  rw [tokensEq] at covers
  refine ⟨a, mem, insertable_of_tokensMatch (fun t inTs => (literal t inTs).1) covers, ?_⟩
  rw [tokens_withStars pos]
  exact tokensMatch_of_instantiate (fresh a mem) covers

/-- The subscriptions `processSub` accepts are sound exactly when they do not end in `>` or are
allowed with any number of stars in its place. -/
theorem subscribe_sound_iff (user : UserPermissions) (checked : List (Bytes × Nat))
    (ops : List SublistOp) (c c' : SubClient) (arg : Bytes) (ptr client pick : Nat)
    (sub : Subscription) (forward : Bool) (registered : c.perms = checkedPermissions g user checked)
    (served : c.srv = some (runOps g ops).1)
    (accepted : processSub g c arg ptr client pick = (c', .inserted sub forward)) :
    (∀ sl, c'.srv = some sl → SubscribeSound g user.subscribe sl sub) ↔
      (¬EndsInFwc sub.subject ∨
        ∀ n, 1 ≤ n → (checkSubPermission g c.perms (withStars sub.subject n) 0).2 = true) := by
  obtain ⟨allowed, sl, sl', servedBy, inserted, servedNow⟩ := processSub_inserted g accepted
  obtain ⟨p, perms, grants⟩ := grants_checkedPermissions g user checked
  rw [registered, perms, checkSubPermission_iff g grants] at allowed
  rw [registered, perms]
  simp only [checkSubPermission_iff g grants]
  -- the server's sublist now holds the subscription
  obtain rfl : sl = (runOps g ops).1 := by
    rw [served, Option.some.injEq] at servedBy
    exact servedBy.symm
  have inv := inv_runOps g ops
  have valid : insertable (tokens sub.subject) false = true := by
    cases ok : insertable (tokens sub.subject) false with
    | true => rfl
    | false =>
      have refused := (insert_refused g inv ok).1
      rw [inserted] at refused
      cases refused
  have after := (insert_accepted g inv valid).2
  rw [inserted] at after
  have reaches := reaches_iff g after (mem_cons_self ..)
  have only : (∀ s, c'.srv = some s → SubscribeSound g user.subscribe s sub) ↔
      SubscribeSound g user.subscribe sl' sub := by
    rw [servedNow]
    exact ⟨fun every => every sl' rfl, fun sound s same => Option.some.inj same ▸ sound⟩
  rw [only]
  simp only [SubscribeSound, reaches]
  constructor
  · intro sound
    by_cases full : EndsInFwc sub.subject
    · exact Or.inr fun n pos => stars_of_sound pos valid full sound
    · exact Or.inl full
  · rintro (open_ended | stars) literal - selects
    · exact sound_of_not_endsInFwc valid open_ended allowed selects
    · exact sound_of_stars valid stars selects

end Server

section Wider

/-- A client that may subscribe to the given subjects, on a server without subscriptions. -/
private def permitted (subjects : List String) : SubClient where
  typ := .client
  connected := true
  perms := checkedPermissions Grow.double ⟨[], subjects.map bytesOf⟩ []
  subs := []
  srv := some (runOps Grow.double []).1

private def fullFoo : Subscription := { ptr := 7, subject := bytesOf "foo.>", sid := bytesOf "1" }

/-- `foo.>` is accepted where `foo.>` is allowed. -/
theorem subscribe_sound_iff_full :
    (∀ sl, (processSub Grow.double (permitted ["foo.>"]) (bytesOf "foo.> 1") 7 0 0).1.srv = some sl →
      SubscribeSound Grow.double [bytesOf "foo.>"] sl fullFoo) ↔
      (¬EndsInFwc fullFoo.subject ∨
        ∀ n, 1 ≤ n → (checkSubPermission Grow.double (permitted ["foo.>"]).perms
          (withStars fullFoo.subject n) 0).2 = true) := by
  have outcome : (processSub Grow.double (permitted ["foo.>"]) (bytesOf "foo.> 1") 7 0 0).2 =
      .inserted fullFoo true := by
    decide +kernel
  have ran : processSub Grow.double (permitted ["foo.>"]) (bytesOf "foo.> 1") 7 0 0 =
      ((processSub Grow.double (permitted ["foo.>"]) (bytesOf "foo.> 1") 7 0 0).1,
        .inserted fullFoo true) := by
    rw [← outcome]
  exact subscribe_sound_iff Grow.double ⟨[], [bytesOf "foo.>"]⟩ [] [] (permitted ["foo.>"]) _
    (bytesOf "foo.> 1") 7 0 0 fullFoo true rfl rfl ran

/-- `foo.>` is also accepted where only `foo.*` is allowed, and then matches `foo.a.b`. -/
theorem subscribe_not_sound :
    (processSub Grow.double (permitted ["foo.*"]) (bytesOf "foo.> 1") 7 0 0).2 =
        .inserted fullFoo true ∧
      (∃ sl, (processSub Grow.double (permitted ["foo.*"]) (bytesOf "foo.> 1") 7 0 0).1.srv = some sl ∧
        Reaches Grow.double sl fullFoo (bytesOf "foo.a.b")) ∧
      isValidLiteralSubject (bytesOf "foo.a.b") = true ∧
      ¬∃ a ∈ [bytesOf "foo.*"], tokensMatch (tokens a) (tokens (bytesOf "foo.a.b")) = true := by
  have outcome : (processSub Grow.double (permitted ["foo.*"]) (bytesOf "foo.> 1") 7 0 0).2 =
      .inserted fullFoo true := by
    decide +kernel
  have ran : processSub Grow.double (permitted ["foo.*"]) (bytesOf "foo.> 1") 7 0 0 =
      ((processSub Grow.double (permitted ["foo.*"]) (bytesOf "foo.> 1") 7 0 0).1,
        .inserted fullFoo true) := by
    rw [← outcome]
  refine ⟨outcome, ?_, by decide, by decide⟩
  obtain ⟨-, sl, sl', served, inserted, now⟩ := processSub_inserted Grow.double ran
  refine ⟨sl', now, ?_⟩
  obtain rfl : (runOps Grow.double []).1 = sl := Option.some.inj served
  have valid : insertable (tokens fullFoo.subject) false = true := by decide
  have after := (insert_accepted Grow.double (inv_runOps Grow.double []) valid).2
  rw [inserted] at after
  rw [reaches_iff Grow.double after (mem_cons_self ..)]
  decide

end Wider

end Hnatsd.Server
