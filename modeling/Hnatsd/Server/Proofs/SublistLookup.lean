import Hnatsd.Server.Proofs.SublistGroups
import Hnatsd.Server.Proofs.SublistPaths

/-!
# What a lookup returns

The paths `matchLevel` visits are those of the matching patterns, each once. It concatenates the
plain subscriptions at these paths and merges the groups; while it does so it may append to the
slice of a node it has visited, so slices that end where a visited slice ends, or before, read the
same afterwards.
-/

namespace Hnatsd.Server
open Misc List

variable {p : Bytes} {gs : List (List Subscription)} {qs seen : List Slice}
  {rest : List Subscription} {qr : Slice} {h h₀ : SubHeap} {first : Subscription}

/-- Whether the tokens of a subscription match those of a subject: a token that starts with `*`
stands for one token, a last one that starts with `>` for one or more, any other for itself. -/
def tokensMatch : List Bytes → List Bytes → Bool
  | [], [] => true
  | p :: ps, t :: ts =>
      if p.head? = some pwc then tokensMatch ps ts
      else if p.head? = some fwc then ps = []
      else p = t && tokensMatch ps ts
  | _, _ => false

theorem pwc_ne_fwc : Server.pwc ≠ Server.fwc := by decide

theorem tokensMatch_star (star : p.head? = some pwc) (ps : List Bytes) (t : Bytes)
    (ts : List Bytes) : tokensMatch (p :: ps) (t :: ts) = tokensMatch ps ts := by
  simp [tokensMatch, star]

theorem tokensMatch_full (full : p.head? = some fwc) (ps : List Bytes) (t : Bytes)
    (ts : List Bytes) : tokensMatch (p :: ps) (t :: ts) = decide (ps = []) := by
  simp [tokensMatch, full, pwc_ne_fwc.symm]

theorem tokensMatch_lit (star : p.head? ≠ some pwc) (full : p.head? ≠ some fwc)
    (ps : List Bytes) (t : Bytes) (ts : List Bytes) :
    tokensMatch (p :: ps) (t :: ts) = (decide (p = t) && tokensMatch ps ts) := by
  simp [tokensMatch, star, full]

/-- `Key.ofToken` by its three cases. -/
theorem ofToken_cases (p : Bytes) :
    (p.head? = some pwc ∧ Key.ofToken p = .pwc) ∨
      (p.head? ≠ some pwc ∧ p.head? = some fwc ∧ Key.ofToken p = .fwc) ∨
      (p.head? ≠ some pwc ∧ p.head? ≠ some fwc ∧ Key.ofToken p = .lit p) := by
  unfold Key.ofToken
  by_cases single : p.head? = some pwc
  · exact Or.inl ⟨single, by simp [single]⟩
  · by_cases full : p.head? = some fwc
    · exact Or.inr (Or.inl ⟨single, full, by simp [full, pwc_ne_fwc.symm]⟩)
    · exact Or.inr (Or.inr ⟨single, full, by simp [single, full]⟩)

/-- The paths a lookup visits are the paths of the patterns that match. -/
theorem mem_matchPaths (ps : List Bytes) {ts : List Bytes} (nonempty : ts ≠ []) :
    pathOf ps ∈ matchPaths ts ↔ tokensMatch ps ts = true := by
  induction ts generalizing ps with
  | nil => exact absurd rfl nonempty
  | cons t ts ih =>
    cases ps with
    | nil =>
      refine ⟨fun mem => absurd rfl (matchPaths_ne_nil mem), ?_⟩
      simp [tokensMatch]
    | cons p ps =>
      have emptyPath : pathOf ps = [] ↔ ps = [] := by simp [pathOf]
      cases ts with
      | nil =>
        have last : tokensMatch ps [] = true ↔ ps = [] := by cases ps <;> simp [tokensMatch]
        rcases ofToken_cases p with ⟨first, key⟩ | ⟨first, second, key⟩ | ⟨first, second, key⟩
        · simp [matchPaths, tokensMatch, pathOf, key, first, last]
        · simp [matchPaths, tokensMatch, pathOf, key, second, pwc_ne_fwc.symm]
        · simp [matchPaths, tokensMatch, pathOf, key, first, second, last]
      | cons t' ts =>
        have below := ih ps (by simp)
        have step : pathOf (p :: ps) = Key.ofToken p :: pathOf ps := rfl
        rcases ofToken_cases p with ⟨first, key⟩ | ⟨first, second, key⟩ | ⟨first, second, key⟩
        · rw [step, key]
          simp [matchPaths, tokensMatch, first, below]
        · rw [step, key]
          simp [matchPaths, tokensMatch, second, pwc_ne_fwc.symm, emptyPath]
        · rw [step, key]
          simp only [matchPaths, tokensMatch, first, second, if_false, mem_cons,
            mem_append, mem_map, List.cons.injEq, Bool.and_eq_true, decide_eq_true_eq,
            ← below]
          constructor
          · rintro (⟨absurdKey, -⟩ | ⟨q, -, absurdKey, -⟩ | ⟨q, mem, same, rfl⟩)
            · cases absurdKey
            · cases absurdKey
            · cases same
              exact ⟨rfl, mem⟩
          · rintro ⟨rfl, mem⟩
            exact Or.inr (Or.inr ⟨_, mem, rfl, rfl⟩)

theorem matchPaths_nodup (ts : List Bytes) : (matchPaths ts).Nodup := by
  induction ts with
  | nil => simp [matchPaths]
  | cons t ts ih =>
    cases ts with
    | nil => simp [matchPaths]
    | cons t' ts =>
      have below : ∀ k : Key, ((matchPaths (t' :: ts)).map (k :: ·)).Nodup := fun k =>
        ih.map fun p q same => (List.cons.inj same).2
      rw [matchPaths, nodup_cons, nodup_append]
      refine ⟨?_, below .pwc, below (.lit t), ?_⟩
      · simp
      · intro p left q right same
        obtain ⟨p', -, rfl⟩ := mem_map.mp left
        obtain ⟨q', -, rfl⟩ := mem_map.mp right
        cases same

section Lookup

variable (g : Grow)

/-- Visiting a node adds its plain subscriptions and then its groups, one after the other. -/
theorem addOptNode_eq (l : Option Level) (p : List Key) (hr : SubHeap × SublistResult) :
    addOptNode g (nodeAt l p) hr =
      (((qsubsAt l p).foldl (fun hq qr => addQueueToResults g hq.1 hq.2 qr) (hr.1, hr.2.qsubs)).1,
        ⟨hr.2.psubs ++ psubsAt l p,
          ((qsubsAt l p).foldl (fun hq qr => addQueueToResults g hq.1 hq.2 qr)
            (hr.1, hr.2.qsubs)).2⟩) := by
  cases found : nodeAt l p with
  | none => simp [addOptNode, qsubsAt, psubsAt, found]
  | some n => simp [addOptNode, addNodeToResults, qsubsAt, psubsAt, found]

/-- `matchLevel` is one pass over the groups at the matching paths. -/
theorem matchLevel_eq (l : Option Level) (ts : List Bytes) (h : SubHeap) :
    matchLevel g l ts (h, {}) =
      ((((matchPaths ts).flatMap (qsubsAt l)).foldl
          (fun hq qr => addQueueToResults g hq.1 hq.2 qr) (h, [])).1,
        ⟨(matchPaths ts).flatMap (psubsAt l),
          (((matchPaths ts).flatMap (qsubsAt l)).foldl
            (fun hq qr => addQueueToResults g hq.1 hq.2 qr) (h, [])).2⟩) := by
  have pass : ∀ (ps : List (List Key)) (h : SubHeap) (psubs : List Subscription) (qs : List Slice),
      ps.foldl (fun hr p => addOptNode g (nodeAt l p) hr) (h, ⟨psubs, qs⟩) =
        (((ps.flatMap (qsubsAt l)).foldl
            (fun hq qr => addQueueToResults g hq.1 hq.2 qr) (h, qs)).1,
          ⟨psubs ++ ps.flatMap (psubsAt l),
            ((ps.flatMap (qsubsAt l)).foldl
              (fun hq qr => addQueueToResults g hq.1 hq.2 qr) (h, qs)).2⟩) := by
    intro ps
    induction ps with
    | nil => intro h psubs qs; simp
    | cons p ps ih =>
      intro h psubs qs
      rw [foldl_cons, addOptNode_eq, ih]
      simp only [flatMap_cons, foldl_append, append_assoc]
  rw [matchLevel_eq_foldl]
  exact pass (matchPaths ts) h [] []

/-- The queue name of the group a slice shows. -/
def groupName (h : SubHeap) (s : Slice) : Option Bytes :=
  match h.read s with
  | some first :: _ => some (queueKey first)
  | _ => none

/-- Two slices show groups of one queue name. -/
def SharesQueue (h : SubHeap) (s s' : Slice) : Prop :=
  groupName h s ≠ none ∧ groupName h s = groupName h s'

instance (h : SubHeap) (s s' : Slice) : Decidable (SharesQueue h s s') :=
  inferInstanceAs (Decidable (_ ∧ _))

/-- The state of a lookup that started in `h₀` and has visited the slices `seen`: its result so
far is `qs` and shows `gs`. A group of the result is backed by a new array or by that of the
visited slice it began with. -/
structure Visiting (h₀ h : SubHeap) (seen qs : List Slice) (gs : List (List Subscription)) :
    Prop where
  separate : Separate h qs
  reads : Reads h qs gs
  source : ∀ u ∈ qs, h₀.arrays.length ≤ u.arr ∨
    ∃ s ∈ seen, u.arr = s.arr ∧ u.off = s.off ∧ s.len ≤ u.len ∧
      (h.read u).head? = (h₀.read s).head?
  frame : ∀ t, h₀.Valid t →
    (∀ s s', [s, s'].Sublist seen → SharesQueue h₀ s s' → s.arr = t.arr →
      t.off + t.len ≤ s.off + s.len) →
    h.Valid t ∧ h.read t = h₀.read t
  grown : h₀.arrays.length ≤ h.arrays.length

theorem visiting_start (h₀ : SubHeap) : Visiting h₀ h₀ [] [] [] :=
  ⟨separate_nil h₀, reads_nil h₀, by simp, fun _ valid _ => ⟨valid, rfl⟩, Nat.le_refl _⟩

section

variable (visiting : Visiting h₀ h seen qs gs)
include visiting

/-- A slice that shares no array with the visited ones still reads as at the start. -/
theorem Visiting.read_away
    {t : Slice} (valid : h₀.Valid t)
    (away : ∀ s ∈ seen, s.arr ≠ t.arr) : h.Valid t ∧ h.read t = h₀.read t := by
  refine visiting.frame t valid fun s s' order _ same => ?_
  exact absurd same (away s (order.subset (mem_cons_self ..)))

/-- The visited slice takes a place in the result when no group there has its name. -/
theorem visiting_push (valid : h₀.Valid qr)
    (shown : h₀.read qr = (first :: rest).map some) (away : ∀ s ∈ seen, s.arr ≠ qr.arr)
    (fresh : gs.findIdx? (fun group => group.head?.map queueKey = some (queueKey first)) = none) :
    Visiting h₀ h (seen ++ [qr]) (qs ++ [qr]) (merge queueKey gs first rest) := by
  obtain ⟨valid', read'⟩ := visiting.read_away valid away
  refine ⟨⟨?_, ?_⟩, ?_, ?_, ?_, visiting.grown⟩
  · intro u mem
    rcases mem_append.mp mem with mem | mem
    · exact visiting.separate.valid u mem
    · rwa [mem_singleton.mp mem]
  · rw [map_append, nodup_append]
    refine ⟨visiting.separate.distinct, by simp, ?_⟩
    intro a left b right
    obtain ⟨u, mem, rfl⟩ := mem_map.mp left
    obtain rfl : b = qr.arr := by simpa using right
    rcases visiting.source u mem with new | ⟨s, inSeen, sameArr, -⟩
    · have := valid.1
      omega
    · rw [sameArr]
      exact away s inSeen
  · refine visiting.reads.merge_none fresh ?_
    rw [map_append, map_cons, map_nil, read', shown]
  · intro u mem
    rcases mem_append.mp mem with mem | mem
    · rcases visiting.source u mem with new | ⟨s, inSeen, facts⟩
      · exact Or.inl new
      · exact Or.inr ⟨s, mem_append_left _ inSeen, facts⟩
    · rw [mem_singleton.mp mem]
      exact Or.inr ⟨qr, by simp, rfl, rfl, Nat.le_refl _, by rw [read']⟩
  · intro t other behind
    refine visiting.frame t other fun s s' order => ?_
    exact behind s s' (order.trans (sublist_append_left ..))

/-- The visited group is appended to the group of its name. -/
theorem visiting_append
    {u : Slice} {i : Nat} (shown : h₀.read qr = (first :: rest).map some)
    (found : gs.findIdx? (fun group => group.head?.map queueKey = some (queueKey first)) = some i)
    (at_i : qs[i]? = some u) :
    Visiting h₀ (h.append g none u ((first :: rest).map some)).1 (seen ++ [qr])
      (qs.set i (h.append g none u ((first :: rest).map some)).2)
      (merge queueKey gs first rest) := by
  have mem : u ∈ qs := mem_of_getElem? at_i
  have valid := visiting.separate.valid u mem
  obtain ⟨rewrites, cells⟩ := rewrites_append g none ((first :: rest).map some) visiting.separate at_i
  -- the group at `i` is not empty and has the queue name of the visited one
  obtain ⟨x, xs, shownU, sameKey⟩ : ∃ x xs, h.read u = some x :: xs ∧ queueKey x = queueKey first :=
    by
    obtain ⟨bound, holds, -⟩ := findIdx?_eq_some_iff_getElem.mp found
    obtain ⟨group, at_group, shownGroup⟩ := visiting.reads.getElem at_i
    rw [getElem?_eq_getElem bound, Option.some.injEq] at at_group
    rw [at_group] at holds
    cases group with
    | nil => simp at holds
    | cons x xs => exact ⟨x, xs.map some, shownGroup, by simpa using holds⟩
  refine ⟨rewrites.separate, visiting.reads.merge_some at_i found cells, ?_, ?_,
    Nat.le_trans visiting.grown rewrites.grown⟩
  · intro u' mem'
    obtain ⟨j, at_j⟩ := mem_iff_getElem?.mp mem'
    have shown' : (h.append g none u ((first :: rest).map some)).1.read u' =
        if i = j then h.read u ++ (first :: rest).map some else h.read u' := by
      have cell := congrArg (fun cells => cells[j]?) cells
      simp only [getElem?_map, at_j, Option.map_some, getElem?_set,
        length_map] at cell
      by_cases same : i = j
      · subst same
        simpa [(List.getElem?_eq_some_iff.mp at_i).1] using cell
      · rw [getElem?_set, if_neg same] at at_j
        simpa [same, at_j] using cell
    rw [getElem?_set] at at_j
    by_cases same : i = j
    · rw [if_pos same, if_pos (List.getElem?_eq_some_iff.mp at_i).1, Option.some.injEq] at at_j
      rcases Heap.append_arr h g none u ((first :: rest).map some) with ⟨kept, offKept⟩ | ⟨new, -⟩
      · rcases visiting.source u mem with old | ⟨s, inSeen, sameArr, sameOff, longer, head⟩
        · left
          rw [← at_j, kept]
          exact old
        · refine Or.inr ⟨s, mem_append_left _ inSeen, ?_, ?_, ?_, ?_⟩
          · rw [← at_j, kept, sameArr]
          · rw [← at_j, offKept, sameOff]
          · rw [← at_j, Heap.append_len valid]
            omega
          · rw [shown', if_pos same, ← head, shownU]
            rfl
      · left
        rw [← at_j, new]
        exact visiting.grown
    · rw [if_neg same] at at_j
      rcases visiting.source u' (mem_of_getElem? at_j) with old | ⟨s, inSeen, facts⟩
      · exact Or.inl old
      · rw [shown', if_neg same]
        exact Or.inr ⟨s, mem_append_left _ inSeen, facts⟩
  · intro t other behind
    obtain ⟨validT, readT⟩ := visiting.frame t other fun s s' order =>
      behind s s' (order.trans (sublist_append_left ..))
    refine ⟨Heap.valid_append valid validT, ?_⟩
    rw [Heap.read_append_frame valid validT ?_, readT]
    intro sameT
    rcases visiting.source u mem with old | ⟨s, inSeen, sameArr, sameOff, longer, head⟩
    · have := other.1
      omega
    · have order : [s, qr].Sublist (seen ++ [qr]) :=
        (singleton_sublist.mpr inSeen).append (List.Sublist.refl [qr])
      have shares : SharesQueue h₀ s qr := by
        rw [shownU, head?_cons] at head
        obtain ⟨ys, shownS⟩ := head?_eq_some_iff.mp head.symm
        simp [SharesQueue, groupName, shownS, shown, sameKey]
      have := behind s qr order shares (by rw [← sameArr, sameT])
      omega

/-- One slice of the pass. -/
theorem visiting_step (valid : h₀.Valid qr)
    (shown : h₀.read qr = (first :: rest).map some) (queued : first.queue ≠ none)
    (away : ∀ s ∈ seen, s.arr ≠ qr.arr) :
    Visiting h₀ (addQueueToResults g h qs qr).1 (seen ++ [qr]) (addQueueToResults g h qs qr).2
      (merge queueKey gs first rest) := by
  have shown' : h.read qr = some first :: rest.map some := by
    rw [(visiting.read_away valid away).2, shown, map_cons]
  have index := findQSliceForSub_reads queued visiting.reads
  cases found : findQSliceForSub h first qs with
  | none =>
    have run : addQueueToResults g h qs qr = (h, qs ++ [qr]) := by
      simp [addQueueToResults, shown', found]
    rw [run]
    exact visiting_push visiting valid shown away (index.symm.trans found)
  | some i =>
    have inside : i < qs.length := by
      rw [visiting.reads.length]
      exact (findIdx?_eq_some_iff_getElem.mp (index.symm.trans found)).1
    have at_i : qs[i]? = some qs[i] := getElem?_eq_getElem inside
    have run : addQueueToResults g h qs qr =
        ((h.append g none qs[i] ((first :: rest).map some)).1,
          qs.set i (h.append g none qs[i] ((first :: rest).map some)).2) := by
      simp [addQueueToResults, shown', found, at_i]
    rw [run]
    exact visiting_append g visiting shown (index.symm.trans found) at_i

/-- A pass over slices of separate arrays groups all their members by queue name. -/
theorem visiting_run {todo : List Slice}
    {groups : List (List Subscription)} (grouped : Grouped queueKey gs)
    (separate : Separate h₀ (seen ++ todo))
    (reads : Reads h₀ todo groups)
    (proper : ∀ group ∈ groups, group ≠ [] ∧ (∀ x ∈ group, x.queue ≠ none) ∧
      ∀ x ∈ group, ∀ y ∈ group, queueKey x = queueKey y) :
    ∃ gs', Visiting h₀ (todo.foldl (fun hq qr => addQueueToResults g hq.1 hq.2 qr) (h, qs)).1
        (seen ++ todo) (todo.foldl (fun hq qr => addQueueToResults g hq.1 hq.2 qr) (h, qs)).2 gs' ∧
      Grouped queueKey gs' ∧ gs'.flatten.Perm (gs.flatten ++ groups.flatten) := by
  induction todo generalizing h seen qs gs groups with
  | nil =>
    obtain rfl : groups = [] := eq_nil_of_length_eq_zero reads.length.symm
    refine ⟨gs, ?_, grouped, by simp⟩
    simpa using visiting
  | cons qr todo ih =>
    cases groups with
    | nil => simp [Reads] at reads
    | cons group groups =>
      obtain ⟨nonempty, queued, same⟩ := proper group (by simp)
      obtain ⟨first, rest, rfl⟩ := exists_cons_of_ne_nil nonempty
      obtain ⟨shown, readsTail⟩ : h₀.read qr = (first :: rest).map some ∧ Reads h₀ todo groups := by
        simpa [Reads] using reads
      have away : ∀ s ∈ seen, s.arr ≠ qr.arr := by
        have distinct := separate.distinct
        rw [map_append, nodup_append] at distinct
        intro s mem
        exact distinct.2.2 _ (mem_map_of_mem mem) _ (by simp)
      have step := visiting_step g visiting (separate.valid qr (by simp)) shown
        (queued first (by simp)) away
      have groupedStep : Grouped queueKey (merge queueKey gs first rest) :=
        grouped_merge grouped fun y mem => same y (by simp [mem]) first (by simp)
      have split : seen ++ qr :: todo = seen ++ [qr] ++ todo := by simp
      rw [split] at separate ⊢
      obtain ⟨gs', visiting', grouped', members⟩ := ih step groupedStep separate readsTail
        fun group' mem => proper group' (by simp [mem])
      refine ⟨gs', by simpa using visiting', grouped', members.trans ?_⟩
      have merged := flatten_merge_perm queueKey gs first rest
      simpa using merged.append_right groups.flatten

end

end Lookup

end Hnatsd.Server
