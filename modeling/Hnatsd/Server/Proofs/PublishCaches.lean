import Hnatsd.Server.PublishCheck
import Hnatsd.Server.Proofs.PermissionsSound

/-!
# The publish caches

Whether a message is let through does not depend on the cache of decisions: the sublist of a user's
permissions never changes, so a decision stays right. The results never exceed their bound. The
decisions do: the loop that is meant to prune them deletes from the results, so there is one for
every subject that was ever checked.
-/

namespace Hnatsd.Server
open Misc List

variable {p : Permissions}

section Pruning

theorem length_assocErase_le (results : List (Bytes × Answer)) (k : Bytes) :
    (assocErase results k).length ≤ results.length := length_filter_le _ _

theorem length_assocErase_lt {results : List (Bytes × Answer)} {k : Bytes}
    (present : k ∈ results.map Prod.fst) : (assocErase results k).length < results.length := by
  obtain ⟨e, mem, rfl⟩ := mem_map.mp present
  exact length_filter_lt_length_iff_exists.mpr ⟨e, mem, by simp⟩

theorem length_foldl_assocErase_le (results : List (Bytes × Answer)) (keys : List Bytes) :
    (keys.foldl assocErase results).length ≤ results.length := by
  induction keys generalizing results with
  | nil => exact le_refl _
  | cons key keys ih => exact le_trans (ih _) (length_assocErase_le results key)

theorem length_assocSet_le (results : List (Bytes × Answer)) (k : Bytes) (r : Answer) :
    (assocSet results k r).length ≤ results.length + 1 :=
  Nat.succ_le_succ (length_assocErase_le results k)

/-- A pruned map is within the bound: when it is exceeded, it is by one, and the loop deletes. -/
theorem length_prune_le {results : List (Bytes × Answer)}
    (size : results.length ≤ maxResultCacheSize + 1) (order : RangeOrder) :
    (ResultCache.prune results (order.arrange (results.map Prod.fst))).length ≤
      maxResultCacheSize := by
  unfold ResultCache.prune
  split_ifs with large
  · have perm := order.perm (results.map Prod.fst)
    cases keys : order.arrange (results.map Prod.fst) with
    | nil =>
      have same := perm.length_eq
      rw [keys, length_map, length_nil] at same
      omega
    | cons key rest =>
      have present : key ∈ results.map Prod.fst := by
        rw [← perm.mem_iff, keys]
        exact mem_cons_self
      rw [take_succ_cons, foldl_cons]
      have fewer := length_assocErase_lt present
      have further := length_foldl_assocErase_le (assocErase results key) (rest.take pruneSize)
      omega
  · exact not_lt.mp large

end Pruning

section Client

variable (g : Grow)

theorem Sublist.matchSubject_root (s : Sublist) (subject : Bytes) (pick : Nat) :
    (s.matchSubject g subject pick).1.root = s.root := by
  unfold Sublist.matchSubject
  split <;> rfl

/-- Whether the sublist with this root has a plain result for a subject. -/
def plainResult (root : Level) (subject : Bytes) : Bool :=
  (matchPaths (tokens subject)).flatMap (psubsAt (some root)) ≠ []

/-- What the permissions of a client are after a number of subjects have been checked. -/
structure Decided (user : UserPermissions) (root : Level) (checked : List Bytes)
    (p : Permissions) : Prop where
  grants : Grants p.pub user.publish
  root_eq : p.pub.root = root
  unique : UniqueKeys p.pcache
  keys : ∀ k, k ∈ p.pcache.map Prod.fst ↔ k ∈ checked
  right : ∀ e ∈ p.pcache, e.2 = plainResult root e.1

theorem Decided.size {user : UserPermissions} {root : Level} {checked : List Bytes} (decided : Decided user root checked p) :
    p.pcache.length = checked.dedup.length := by
  have perm : (p.pcache.map Prod.fst).Perm checked.dedup := by
    rw [perm_ext_iff_of_nodup decided.unique (nodup_dedup checked)]
    intro k
    rw [decided.keys, mem_dedup]
  rw [← length_map, perm.length_eq]

/-- `Match` finds what the root says, whatever it has cached. -/
theorem Decided.matches {user : UserPermissions} {root : Level} {checked : List Bytes} (decided : Decided user root checked p) (subject : Bytes) (pick : Nat) :
    decide ((p.pub.matchSubject g subject pick).2.psubs.length ≠ 0) = plainResult root subject := by
  rw [(decided.grants.matchSubject g subject pick).2, decided.root_eq, plainResult]
  simp only [ne_eq, length_eq_zero_iff]

variable {g} {user : UserPermissions} {root : Level} {checked : List Bytes} {c : PubClient}
  {m : Publication}

/-- A decision that was made before is the one that would be made again. -/
theorem Decided.known (decided : Decided user root checked p) {subject : Bytes}
    {allowed : Bool} (hit : p.pcache.lookup subject = some allowed) :
    allowed = plainResult root subject ∧ Decided user root (checked ++ [subject]) p := by
  have entry := mem_of_lookup hit
  refine ⟨decided.right _ entry, { decided with keys := fun k => ?_ }⟩
  have known : subject ∈ checked :=
    (decided.keys subject).mp (mem_map.mpr ⟨_, entry, rfl⟩)
  rw [decided.keys, mem_append, mem_singleton]
  constructor
  · exact Or.inl
  · rintro (before | rfl)
    · exact before
    · exact known

/-- A new decision is added. -/
theorem Decided.decide (decided : Decided user root checked p) (subject : Bytes)
    (pick : Nat) :
    Decided user root (checked ++ [subject]) { p with
      pub := (p.pub.matchSubject g subject pick).1
      pcache := assocSet p.pcache subject (plainResult root subject) } := by
  constructor
  · exact (decided.grants.matchSubject g subject pick).1
  · rw [Sublist.matchSubject_root, decided.root_eq]
  · exact decided.unique.set subject _
  · intro k
    rw [mem_append, mem_singleton, ← decided.keys k]
    constructor
    · intro mem
      obtain ⟨e, stored, rfl⟩ := mem_map.mp mem
      rcases mem_assocSet stored with rfl | ⟨old, -⟩
      · exact Or.inr rfl
      · exact Or.inl (mem_map.mpr ⟨e, old, rfl⟩)
    · rintro (old | rfl)
      · obtain ⟨e, stored, rfl⟩ := mem_map.mp old
        by_cases same : e.1 = subject
        · rw [same]
          exact mem_map.mpr ⟨_, mem_cons_self, rfl⟩
        · exact mem_map.mpr ⟨e, mem_assocSet_of_ne stored same, rfl⟩
      · exact mem_map.mpr ⟨_, mem_cons_self, rfl⟩
  · intro e stored
    rcases mem_assocSet stored with rfl | ⟨old, -⟩
    · rfl
    · exact decided.right e old

/-- The check lets through what `Match` has a plain result for, and remembers the subject. -/
theorem checkPubPermission_decided {p : Permissions} (decided : Decided user root checked p)
    (subject : Bytes) (pick : Nat) :
    ∃ p', checkPubPermission g (some p) subject pick = (some p', plainResult root subject) ∧
      Decided user root (checked ++ [subject]) p' := by
  cases hit : p.pcache.lookup subject with
  | some allowed =>
    obtain ⟨rfl, after⟩ := decided.known hit
    exact ⟨p, by simp only [checkPubPermission, hit], after⟩
  | none =>
    refine ⟨_, ?_, decided.decide (g := g) subject pick⟩
    simp only [checkPubPermission, hit, decided.matches g subject pick]

theorem checkPub_decided {p : Permissions} (perms : c.perms = some p)
    (decided : Decided user root checked p) :
    (c.checkPub g m).2 = plainResult root m.subject ∧
      (∃ p', (c.checkPub g m).1.perms = some p' ∧
        Decided user root (checked ++ [m.subject]) p') ∧
      (c.checkPub g m).1.resultsSize ≤ c.resultsSize := by
  obtain ⟨p', result, after⟩ := @checkPubPermission_decided g _ _ _ p decided m.subject m.pick
  unfold PubClient.checkPub
  simp only [perms, result]
  refine ⟨trivial, ⟨p', rfl, after⟩, ?_⟩
  unfold PubClient.resultsSize
  dsimp only
  split_ifs
  · cases c.results with
    | none => exact le_refl _
    | some results => exact length_foldl_assocErase_le results _
  · exact le_refl _

theorem findResult_bounded (size : c.resultsSize ≤ maxResultCacheSize) :
    (c.findResult g m).1.perms = c.perms ∧
      (c.findResult g m).1.resultsSize ≤ maxResultCacheSize := by
  have loaded : (c.loadResults m).length ≤ maxResultCacheSize := by
    unfold PubClient.loadResults
    split_ifs
    · exact size
    · exact Nat.zero_le _
  cases hit : (c.loadResults m).lookup m.subject with
  | some r =>
    simp only [PubClient.findResult, hit]
    exact ⟨trivial, loaded⟩
  | none =>
    simp only [PubClient.findResult, hit]
    refine ⟨trivial, length_prune_le ?_ m.resultOrder⟩
    have grown := length_assocSet_le (c.loadResults m) m.subject (m.matched.answer g m.subject)
    omega

/-- The state of a client with permissions after the subjects that were checked. -/
structure PubClient.Sound (user : UserPermissions) (root : Level) (checked : List Bytes)
    (c : PubClient) : Prop where
  perms : ∃ p, c.perms = some p ∧ Decided user root checked p
  results : c.resultsSize ≤ maxResultCacheSize

/-- The subjects of messages that come to the permission check. -/
def checkedSubjects (msgs : List Publication) : List Bytes :=
  (msgs.map Publication.subject).filter fun subject => !isReserved subject

/-- One message: the step of the induction over a sequence of them. -/
theorem processMsg_sound (sound : c.Sound user root checked) :
    (c.processMsg g m).1.Sound user root (checked ++ checkedSubjects [m]) ∧
      (isReserved m.subject = false →
        (c.processMsg g m).2.letThrough = plainResult root m.subject) := by
  obtain ⟨p, perms, decided⟩ := sound.perms
  unfold PubClient.processMsg checkedSubjects
  cases reserved : isReserved m.subject with
  | true => simpa [reserved] using sound
  | false =>
    obtain ⟨answer, after, shrunk⟩ := @checkPub_decided g user root checked c m p perms decided
    have bounded := le_trans shrunk sound.results
    simp only [map_cons, map_nil, filter_cons, reserved, Bool.not_false, if_true,
      filter_nil, if_false, Bool.false_eq_true, true_implies]
    generalize c.checkPub g m = checkedClient at answer after bounded
    obtain ⟨c', allowed⟩ := checkedClient
    cases allowed with
    | false => exact ⟨⟨after, bounded⟩, answer⟩
    | true =>
      cases served : c'.served with
      | false => simpa [served] using ⟨⟨after, bounded⟩, answer⟩
      | true =>
        obtain ⟨samePerms, size⟩ := @findResult_bounded g c' m bounded
        simp only [served, if_true]
        refine ⟨⟨?_, size⟩, answer⟩
        rw [samePerms]
        exact after

end Client

section Runs

variable (g : Grow)

/-- A client whose user has been registered with permissions. -/
def registeredClient (user : UserPermissions) (served : Bool) : PubClient :=
  { perms := registerUser g none (some user), served := served }

theorem processMsgs_sound (user : UserPermissions) (served : Bool) (msgs : List Publication) :
    ((registeredClient g user served).processMsgs g msgs).Sound user
      (insertSubjects g user.publish 0).root (checkedSubjects msgs) := by
  have start : (registeredClient g user served).Sound user (insertSubjects g user.publish 0).root
      [] := by
    refine ⟨⟨_, rfl, grants_insertSubjects g user.publish 0, rfl, nodup_nil, ?_, ?_⟩, ?_⟩
    · exact fun k => Iff.rfl
    · exact fun e mem => (not_mem_nil mem).elim
    · exact Nat.zero_le _
  have loop : ∀ (msgs : List Publication) (checked : List Bytes) (c : PubClient),
      c.Sound user (insertSubjects g user.publish 0).root checked →
      (c.processMsgs g msgs).Sound user (insertSubjects g user.publish 0).root
        (checked ++ checkedSubjects msgs) := by
    intro msgs
    induction msgs with
    | nil =>
      intro checked c sound
      rw [checkedSubjects, map_nil, filter_nil, append_nil]
      exact sound
    | cons m msgs ih =>
      intro checked c sound
      have rest := ih _ _ (@processMsg_sound g user _ checked c m sound).1
      have joined : checked ++ checkedSubjects [m] ++ checkedSubjects msgs =
          checked ++ checkedSubjects (m :: msgs) := by
        rw [append_assoc, checkedSubjects, checkedSubjects, checkedSubjects,
          ← filter_append, ← map_append, singleton_append]
      rw [joined] at rest
      exact rest
  exact loop msgs [] _ start

/-- The cache of decisions holds one for each subject that was checked. -/
theorem pcacheSize_eq (user : UserPermissions) (served : Bool) (msgs : List Publication) :
    ((registeredClient g user served).processMsgs g msgs).pcacheSize =
      (checkedSubjects msgs).dedup.length := by
  obtain ⟨p, perms, decided⟩ := (processMsgs_sound g user served msgs).perms
  rw [PubClient.pcacheSize, perms, ← decided.size]
  rfl

/-- `c.perms.pub.Match` of a subject has a plain result. -/
def PubClient.pubMatches (c : PubClient) (subject : Bytes) (pick : Nat) : Bool :=
  c.perms.any fun p => (p.pub.matchSubject g subject pick).2.psubs.length ≠ 0

theorem pubMatches_eq (user : UserPermissions) (served : Bool) (msgs : List Publication)
    (subject : Bytes) (pick : Nat) :
    ((registeredClient g user served).processMsgs g msgs).pubMatches g subject pick =
      plainResult (insertSubjects g user.publish 0).root subject := by
  obtain ⟨p, perms, decided⟩ := (processMsgs_sound g user served msgs).perms
  rw [PubClient.pubMatches, perms, Option.any_some, decided.matches g subject pick]

/-- A message of a client with permissions that is not reserved is let through exactly when `Match`
has a plain result for it, and the results stay within their bound. The decisions do as long as no
more different subjects have been checked than there is room for. -/
theorem publish_caches_iff (user : UserPermissions) (served : Bool) (msgs : List Publication) :
    (∀ before m after, msgs = before ++ m :: after → isReserved m.subject = false →
        ((((registeredClient g user served).processMsgs g before).processMsg g m).2.letThrough ↔
          ((registeredClient g user served).processMsgs g before).pubMatches g m.subject m.pick)) ∧
      (∀ before after, msgs = before ++ after →
        ((registeredClient g user served).processMsgs g before).resultsSize ≤
          maxResultCacheSize) ∧
      ((∀ before after, msgs = before ++ after →
          ((registeredClient g user served).processMsgs g before).pcacheSize ≤ maxPermCacheSize) ↔
        (checkedSubjects msgs).dedup.length ≤ maxPermCacheSize) := by
  refine ⟨?_, ?_, ?_, ?_⟩
  · intro before m after split unreserved
    have sound := processMsgs_sound g user served before
    rw [(@processMsg_sound g _ _ _ _ m sound).2 unreserved, pubMatches_eq]
  · intro before after split
    exact (processMsgs_sound g user served before).results
  · intro bounded
    rw [← pcacheSize_eq g user served]
    exact bounded msgs [] (append_nil msgs).symm
  · intro few before after split
    rw [pcacheSize_eq]
    have part : (checkedSubjects before).dedup ⊆ (checkedSubjects msgs).dedup := by
      intro k mem
      rw [mem_dedup] at mem ⊢
      rw [split, checkedSubjects, map_append, filter_append]
      exact mem_append_left _ mem
    exact le_trans (subperm_of_subset (nodup_dedup _) part).length_le few

/-- Whatever a client has published before, a message passes exactly when its subject is not reserved
and a valid subject of the user's publish permissions matches it. -/
theorem publish_permitted_iff (user : UserPermissions) (served : Bool) (msgs : List Publication)
    (m : Publication) :
    (((registeredClient g user served).processMsgs g msgs).processMsg g m).2.letThrough = true ↔
      isReserved m.subject = false ∧ ∃ a ∈ user.publish, insertable (tokens a) false = true ∧
        tokensMatch (tokens a) (tokens m.subject) = true := by
  have sound := processMsgs_sound g user served msgs
  obtain ⟨p, -, decided⟩ := sound.perms
  cases reserved : isReserved m.subject with
  | true => simp [PubClient.processMsg, reserved, PubOutcome.letThrough]
  | false =>
    have matched := decided.matches g m.subject m.pick
    rw [(processMsg_sound sound).2 reserved, ← matched, eq_self, true_and]
    -- the check reads the sublist it is given, here that of the publish subjects
    exact checkSubPermission_iff g (p := { p with sub := p.pub }) decided.grants m.subject m.pick

end Runs

/-- A message published on a server without subscriptions. -/
def publicationOf (subject : Bytes) (nonempty : subject ≠ []) : Publication where
  subject := subject
  nonempty := nonempty
  pick := 0
  permOrder := .asListed
  loaded := .newSublist
  matched := .newSublist
  resultOrder := .asListed

/-- A client that may publish to `foo.*` publishes to `foo.bar` twice and to `bar`. -/
theorem publish_caches_foo :
    (((registeredClient .double ⟨[bytesOf "foo.*"], []⟩ true).processMsgs .double
        [publicationOf (bytesOf "foo.bar") (by decide)]).processMsg .double
          (publicationOf (bytesOf "foo.bar") (by decide))).2.letThrough = true ∧
      ((registeredClient .double ⟨[bytesOf "foo.*"], []⟩ true).processMsgs .double
        [publicationOf (bytesOf "foo.bar") (by decide), publicationOf (bytesOf "foo.bar") (by decide),
          publicationOf (bytesOf "bar") (by decide)]).pcacheSize ≤ maxPermCacheSize := by
  obtain ⟨transparent, -, bounded⟩ := publish_caches_iff .double ⟨[bytesOf "foo.*"], []⟩ true
    [publicationOf (bytesOf "foo.bar") (by decide), publicationOf (bytesOf "foo.bar") (by decide),
      publicationOf (bytesOf "bar") (by decide)]
  refine ⟨?_, bounded.mpr (by decide) _ [] rfl⟩
  refine (transparent [_] _ [_] rfl (by decide)).mpr ?_
  rw [pubMatches_eq]
  decide

/-- Messages on as many subjects of one byte. -/
def oneByteMessages (n : Nat) : List Publication :=
  (range n).map fun i => publicationOf [UInt8.ofNat (65 + i)] (cons_ne_nil _ _)

/-- After messages on 33 subjects there are 33 decisions. -/
theorem pcache_exceeds :
    maxPermCacheSize = 32 ∧
      ((registeredClient .double ⟨[], []⟩ true).processMsgs .double
        (oneByteMessages 33)).pcacheSize = 33 := by
  refine ⟨rfl, ?_⟩
  rw [pcacheSize_eq]
  decide

end Hnatsd.Server
