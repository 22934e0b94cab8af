import Hnatsd.Server.Proofs.PermissionsSound

/-!
# The subject filter of the configuration

`checkSubjectArray` admits the permission subjects that `IsValidSubject` accepts, and `RegisterUser`
inserts them without looking at the error. The filter asks for `>` as a whole token, `Insert` only
looks at the first byte of a token: they part on a longer token that starts with `>` and is not the
last one.
-/

namespace Hnatsd.Server
open Misc

theorem ofToken_eq_fwc_iff (t : Bytes) : Key.ofToken t = .fwc ↔ t.head? = some fwc := by
  constructor
  · intro key
    rcases ofToken_cases t with ⟨-, isPwc⟩ | ⟨-, full, -⟩ | ⟨-, -, isLit⟩
    · simp [isPwc] at key
    · exact full
    · simp [isLit] at key
  · intro full
    have notStar : t.head? ≠ some pwc := by
      rw [full]
      decide
    rw [Key.ofToken, if_neg notStar, if_pos full]

/-- Behind a `>` no token is accepted. -/
theorem validTokens_after_fwc (ts : List Bytes) : validTokens ts true = true ↔ ts = [] := by
  cases ts <;> simp [validTokens]

/-- The filter: no token is empty, and only the last one may be `>`. -/
theorem validTokens_iff (ts : List Bytes) :
    validTokens ts false = true ↔ [] ∉ ts ∧ [fwc] ∉ ts.dropLast := by
  induction ts with
  | nil => simp [validTokens]
  | cons t ts ih =>
    cases t with
    | nil => simp [validTokens]
    | cons b rest =>
      have rest_iff : [fwc] ∉ ((b :: rest) :: ts).dropLast ↔
          ((b :: rest) = [fwc] → ts = []) ∧ [fwc] ∉ ts.dropLast := by
        cases ts with
        | nil => simp
        | cons t' ts => simp [eq_comm]
      rw [rest_iff]
      cases rest with
      | nil =>
        by_cases full : b = fwc
        · subst full
          have step : validTokens ([fwc] :: ts) false = validTokens ts true := by
            simp [validTokens]
          rw [step, validTokens_after_fwc]
          constructor
          · rintro rfl
            simp
          · intro ok
            exact ok.2.1 rfl
        · have step : validTokens ([b] :: ts) false = validTokens ts false := by
            simp [validTokens, full]
          rw [step, ih]
          simp [full]
      | cons b' rest =>
        have step : validTokens ((b :: b' :: rest) :: ts) false = validTokens ts false := by
          simp [validTokens]
        rw [step, ih]
        simp

/-- `Insert`: no token is empty, and only the last one may start with `>`. -/
theorem insertable_iff (ts : List Bytes) :
    insertable ts false = true ↔ [] ∉ ts ∧ ∀ t ∈ ts.dropLast, t.head? ≠ some fwc := by
  induction ts with
  | nil => simp [insertable]
  | cons t ts ih =>
    have step : insertable (t :: ts) false = true ↔
        t ≠ [] ∧ insertable ts (Key.ofToken t = .fwc) = true := by simp [insertable]
    have rest_iff : (∀ u ∈ (t :: ts).dropLast, u.head? ≠ some fwc) ↔
        (t.head? = some fwc → ts = []) ∧ ∀ u ∈ ts.dropLast, u.head? ≠ some fwc := by
      cases ts with
      | nil => simp
      | cons t' ts => simp
    rw [step, rest_iff]
    by_cases full : t.head? = some fwc
    · have key := (ofToken_eq_fwc_iff t).mpr full
      have nonempty : t ≠ [] := by
        rintro rfl
        simp at full
      rw [decide_eq_true key, insertable_after_fwc]
      constructor
      · rintro ⟨-, rfl⟩
        simp [nonempty.symm]
      · intro ok
        exact ⟨nonempty, ok.2.1 full⟩
    · have key : Key.ofToken t ≠ .fwc := fun key => full ((ofToken_eq_fwc_iff t).mp key)
      rw [decide_eq_false key, ih]
      simp only [List.mem_cons, not_or, full, false_implies, true_and]
      constructor
      · rintro ⟨nonempty, others, rest⟩
        exact ⟨⟨fun empty => nonempty empty.symm, others⟩, rest⟩
      · rintro ⟨⟨nonempty, others⟩, rest⟩
        exact ⟨fun empty => nonempty empty.symm, others, rest⟩

theorem isValidSubject_iff (subject : Bytes) :
    isValidSubject subject = true ↔
      [] ∉ tokens subject ∧ [fwc] ∉ (tokens subject).dropLast := by
  unfold isValidSubject
  split
  next empty =>
    subst empty
    simp [tokens]
  next => exact validTokens_iff _

/-- `Insert` reports what it makes of the tokens, whatever the trie holds. -/
theorem insert_ok_iff (g : Grow) (s : Sublist) (sub : Subscription) :
    (s.insert g sub).2 = none ↔ insertable (tokens sub.subject) false = true := by
  cases accepted : insertable (tokens sub.subject) false with
  | true =>
    obtain ⟨l', ran, -⟩ := insertAt_accepted g sub (tokens sub.subject) false s.heap s.root
      (tokens_ne_nil _) accepted
    simp [Sublist.insert, ran]
  | false =>
    obtain ⟨l', ran, -⟩ := insertAt_refused g sub (tokens sub.subject) false s.heap s.root accepted
    simp [Sublist.insert, ran]

/-- The subjects on which filter and trie agree: those both refuse, for an empty token or a `>`
that is not the last token, and those without a longer token that starts with `>` before the
last. -/
def FullWildcardsPlain (subject : Bytes) : Prop :=
  [] ∈ tokens subject ∨ [fwc] ∈ (tokens subject).dropLast ∨
    ∀ t ∈ (tokens subject).dropLast, 1 < t.length → t.head? ≠ some fwc

/-- A token starts with `>` when it is `>`, or longer and starts with it. -/
theorem head_eq_fwc_cases {t : Bytes} (full : t.head? = some fwc) : t = [fwc] ∨ 1 < t.length := by
  cases t with
  | nil => simp at full
  | cons b rest =>
    cases rest with
    | nil =>
      left
      simpa using full
    | cons b' rest => simp

theorem agree_iff (subject : Bytes) :
    (isValidSubject subject = true ↔ insertable (tokens subject) false = true) ↔
      FullWildcardsPlain subject := by
  rw [isValidSubject_iff, insertable_iff]
  constructor
  · intro agree
    by_cases empty : [] ∈ tokens subject
    · exact Or.inl empty
    by_cases inner : [fwc] ∈ (tokens subject).dropLast
    · exact Or.inr (Or.inl inner)
    · exact Or.inr (Or.inr fun t mem _ => (agree.mp ⟨empty, inner⟩).2 t mem)
  · rintro (empty | inner | plain)
    · exact ⟨fun ok => absurd empty ok.1, fun ok => absurd empty ok.1⟩
    · exact ⟨fun ok => absurd inner ok.2, fun ok => absurd rfl (ok.2 _ inner)⟩
    · refine ⟨fun ok => ⟨ok.1, fun t mem full => ?_⟩, fun ok => ⟨ok.1, fun mem => ?_⟩⟩
      · rcases head_eq_fwc_cases full with rfl | long
        · exact ok.2 mem
        · exact plain t mem long full
      · exact ok.2 _ mem rfl

theorem checkSubjectArray_ok_iff (sa : List Bytes) :
    checkSubjectArray sa = .ok sa ↔ ∀ s ∈ sa, isValidSubject s = true := by
  unfold checkSubjectArray
  cases bad : sa.find? fun s => !isValidSubject s with
  | none =>
    have valid := List.find?_eq_none.mp bad
    simpa using valid
  | some s =>
    have invalid := List.find?_some bad
    have mem := List.mem_of_find?_eq_some bad
    constructor
    · intro ok
      cases ok
    · intro valid
      simp [valid s mem] at invalid

/-- A permission subject is in place: the trie has a subscription for it at the end of its path. -/
def Installed (s : Sublist) (subject : Bytes) : Prop :=
  ∃ x ∈ psubsAt (some s.root) (pathOf (tokens subject)), x.subject = subject

theorem Grants.installed_iff {s : Sublist} {allowed : List Bytes} (grants : Grants s allowed)
    {subject : Bytes} (mem : subject ∈ allowed) :
    Installed s subject ↔ insertable (tokens subject) false = true := by
  obtain ⟨live, inv, plain, members⟩ := grants.holds
  have here := inv.holds.plain (pathOf (tokens subject))
  constructor
  · rintro ⟨x, inNode, rfl⟩
    have inLive : x ∈ live := List.mem_of_mem_filter (here.mem_iff.mp inNode)
    exact inv.accepted x inLive
  · intro valid
    obtain ⟨x, inLive, rfl⟩ := (members subject).mpr ⟨mem, valid⟩
    refine ⟨x, here.mem_iff.mpr ?_, rfl⟩
    simp [plainAt, inLive, plain x inLive]

theorem Grants.all_installed_iff {s : Sublist} {allowed : List Bytes} (grants : Grants s allowed)
    (admitted : checkSubjectArray allowed = .ok allowed) :
    (∀ subject ∈ allowed, Installed s subject) ↔
      ∀ subject ∈ allowed, FullWildcardsPlain subject := by
  refine forall₂_congr fun subject mem => ?_
  have valid := (checkSubjectArray_ok_iff allowed).mp admitted subject mem
  rw [grants.installed_iff mem, ← agree_iff]
  simp [valid]

/-- Filter and trie agree on exactly the subjects without a hidden full wildcard, and `RegisterUser`
installs what the filter admitted exactly when all of it is of that kind. -/
theorem filter_agrees_iff (g : Grow) (s : Sublist) (sub : Subscription) :
    ((isValidSubject sub.subject = true ↔ (s.insert g sub).2 = none) ↔
        FullWildcardsPlain sub.subject) ∧
      ∀ (perms : Option Permissions) (user : UserPermissions),
        checkSubjectArray user.publish = .ok user.publish →
        checkSubjectArray user.subscribe = .ok user.subscribe →
        ∃ p, registerUser g perms (some user) = some p ∧
          (((∀ subject ∈ user.publish, Installed p.pub subject) ∧
              ∀ subject ∈ user.subscribe, Installed p.sub subject) ↔
            ∀ subject ∈ user.publish ++ user.subscribe, FullWildcardsPlain subject) := by
  refine ⟨?_, fun perms user publish subscribe => ⟨_, rfl, ?_⟩⟩
  · rw [insert_ok_iff]
    exact agree_iff sub.subject
  · rw [(grants_insertSubjects g user.publish 0).all_installed_iff publish,
      (grants_insertSubjects g user.subscribe user.publish.length).all_installed_iff subscribe]
    simp only [List.mem_append, or_imp, forall_and]

/-- `foo.>` and `a.*` pass the filter and are installed. -/
theorem filter_agrees_foo_fwc :
    ∃ p, registerUser .double none (some ⟨[bytesOf "foo.>"], [bytesOf "a.*"]⟩) = some p ∧
      (∀ subject ∈ [bytesOf "foo.>"], Installed p.pub subject) ∧
      ∀ subject ∈ [bytesOf "a.*"], Installed p.sub subject := by
  obtain ⟨p, registered, installed⟩ :=
    (filter_agrees_iff .double .newSublist { ptr := 0, subject := bytesOf "foo.>" }).2 none
      ⟨[bytesOf "foo.>"], [bytesOf "a.*"]⟩ (by decide) (by decide)
  refine ⟨p, registered, installed.mpr fun subject mem => Or.inr (Or.inr ?_)⟩
  simp only [List.mem_append, List.mem_singleton] at mem
  rcases mem with rfl | rfl
  · decide
  · decide

/-- `>foo.bar` passes the filter; `Insert` refuses it, and the user is left without it. -/
theorem hidden_wildcard_not_installed :
    isValidSubject (bytesOf ">foo.bar") = true ∧
      (Sublist.newSublist.insert .double { ptr := 0, subject := bytesOf ">foo.bar" }).2 =
        some .invalidSubject ∧
      checkSubjectArray [bytesOf ">foo.bar"] = .ok [bytesOf ">foo.bar"] ∧
      ((registerUser .double none (some ⟨[bytesOf ">foo.bar"], []⟩)).map
        fun p => p.pub.root.numNodes) = some 1 ∧
      ((registerUser .double none (some ⟨[bytesOf ">foo.bar"], []⟩)).map
        fun p => (p.pub.lookup .double (bytesOf ">foo.bar")).2.psubs) = some [] := by
  decide +kernel

end Hnatsd.Server
