import Hnatsd.Misc.Slice

/-!
# Lists of slices over separate arrays

The slices a data structure holds are usually backed by arrays of their own. `Separate` says so,
and `Rewrites` says what an operation that replaces some of them may touch: their arrays and new
ones. Slices held elsewhere then read as before.
-/

namespace Hnatsd.Misc
open List Heap

variable {qs : List Slice} {i : Nat} {s : Slice}

variable {α : Type}

/-- Valid slices, no two of which share an array. -/
structure Separate (h : Heap α) (qs : List Slice) : Prop where
  valid : ∀ s ∈ qs, h.Valid s
  distinct : (qs.map Slice.arr).Nodup

/-- From `h` to `h'` the slices `qs` became `qs'`, and only the arrays of `qs` and new arrays
were written. -/
structure Rewrites (h h' : Heap α) (qs qs' : List Slice) : Prop where
  separate : Separate h' qs'
  frame : ∀ t, h.Valid t → (∀ s ∈ qs, t.arr ≠ s.arr) → h'.Valid t ∧ h'.read t = h.read t
  arrs : ∀ s ∈ qs', (∃ s₀ ∈ qs, s.arr = s₀.arr) ∨ h.arrays.length ≤ s.arr
  grown : h.arrays.length ≤ h'.arrays.length

theorem separate_nil (h : Heap α) : Separate h [] := ⟨by simp, by simp⟩

theorem rewrites_refl {h : Heap α} (separate : Separate h qs) :
    Rewrites h h qs qs :=
  ⟨separate, fun _ valid _ => ⟨valid, rfl⟩, fun s mem => Or.inl ⟨s, mem, rfl⟩, Nat.le_refl _⟩

/-- Slices at different places of a separate list have different arrays. -/
theorem Separate.arr_ne {h : Heap α} (separate : Separate h qs) {j : Nat}
    {t : Slice} (at_i : qs[i]? = some s) (at_j : qs[j]? = some t) (differ : i ≠ j) :
    s.arr ≠ t.arr := by
  intro same
  obtain ⟨inside, left⟩ := List.getElem?_eq_some_iff.mp at_i
  obtain ⟨inside', right⟩ := List.getElem?_eq_some_iff.mp at_j
  have bound : i < (qs.map Slice.arr).length := by simpa using inside
  have bound' : j < (qs.map Slice.arr).length := by simpa using inside'
  have equal : (qs.map Slice.arr)[i] = (qs.map Slice.arr)[j] := by simp [left, right, same]
  exact differ (separate.distinct.getElem_inj_iff.mp equal)

/-- Replacing one slice by one that keeps its array or has a new one. -/
theorem rewrites_set {h h' : Heap α} {s' : Slice}
    (separate : Separate h qs) (at_i : qs[i]? = some s)
    (frame : ∀ t, h.Valid t → t.arr ≠ s.arr → h'.Valid t ∧ h'.read t = h.read t)
    (valid' : h'.Valid s') (arr : s'.arr = s.arr ∨ h.arrays.length ≤ s'.arr)
    (grown : h.arrays.length ≤ h'.arrays.length) :
    Rewrites h h' qs (qs.set i s') ∧
      (qs.set i s').map h'.read = (qs.map h.read).set i (h'.read s') := by
  have inside : i < qs.length := (List.getElem?_eq_some_iff.mp at_i).1
  have mem : s ∈ qs := mem_of_getElem? at_i
  have others : ∀ j t, j ≠ i → qs[j]? = some t → h'.Valid t ∧ h'.read t = h.read t := by
    intro j t differ at_j
    exact frame t (separate.valid t (mem_of_getElem? at_j))
      (separate.arr_ne at_j at_i differ)
  have member : ∀ t ∈ qs.set i s', t = s' ∨ ∃ j, j ≠ i ∧ qs[j]? = some t := by
    intro t inSet
    obtain ⟨j, at_j⟩ := mem_iff_getElem?.mp inSet
    rw [getElem?_set] at at_j
    by_cases same : i = j
    · rw [if_pos same, if_pos (same ▸ inside), Option.some.injEq] at at_j
      exact Or.inl at_j.symm
    · rw [if_neg same] at at_j
      exact Or.inr ⟨j, Ne.symm same, at_j⟩
  refine ⟨⟨⟨?_, ?_⟩, ?_, ?_, grown⟩, ?_⟩
  · intro t inSet
    rcases member t inSet with rfl | ⟨j, differ, at_j⟩
    · exact valid'
    · exact (others j t differ at_j).1
  · -- the array of the new slice is the old one, or none of those in the list
    rw [map_set]
    rcases arr with kept | fresh
    · have noChange : (qs.map Slice.arr).set i s'.arr = qs.map Slice.arr := by
        apply ext_getElem?
        intro j
        rw [getElem?_set]
        by_cases same : i = j
        · subst same
          simp only [if_true, length_map, inside, kept, getElem?_map, at_i,
            Option.map_some]
        · simp [same]
      rw [noChange]
      exact separate.distinct
    · refine separate.distinct.set ?_
      intro present
      obtain ⟨t, inList, arrEq⟩ := mem_map.mp present
      have := (separate.valid t inList).1
      omega
  · intro t valid away
    exact frame t valid (away s mem)
  · intro t inSet
    rcases member t inSet with rfl | ⟨j, -, at_j⟩
    · rcases arr with kept | fresh
      · exact Or.inl ⟨s, mem, kept⟩
      · exact Or.inr fresh
    · exact Or.inl ⟨t, mem_of_getElem? at_j, rfl⟩
  · apply ext_getElem?
    intro j
    simp only [getElem?_map, getElem?_set, length_map]
    by_cases same : i = j
    · subst same
      simp [inside]
    · rw [if_neg same, if_neg same]
      cases at_j : qs[j]? with
      | none => rfl
      | some t => simp [(others j t (Ne.symm same) at_j).2]

/-- `append` to one of the slices. -/
theorem rewrites_append {h : Heap α} (g : Grow) (z : α)
    (xs : List α) (separate : Separate h qs) (at_i : qs[i]? = some s) :
    Rewrites h (h.append g z s xs).1 qs (qs.set i (h.append g z s xs).2) ∧
      (qs.set i (h.append g z s xs).2).map (h.append g z s xs).1.read =
        (qs.map h.read).set i (h.read s ++ xs) := by
  have valid := separate.valid s (mem_of_getElem? at_i)
  have frame : ∀ t, h.Valid t → t.arr ≠ s.arr →
      (h.append g z s xs).1.Valid t ∧ (h.append g z s xs).1.read t = h.read t := by
    intro t other apart
    exact ⟨valid_append valid other,
      read_append_frame valid other fun same => absurd same apart⟩
  have arr : (h.append g z s xs).2.arr = s.arr ∨ h.arrays.length ≤ (h.append g z s xs).2.arr := by
    rcases append_arr h g z s xs with ⟨kept, -⟩ | ⟨fresh, -⟩
    · exact Or.inl kept
    · exact Or.inr (Nat.le_of_eq fresh.symm)
  have update := rewrites_set separate at_i frame (valid_append_self valid) arr
    (arrays_length_le_append ..)
  rwa [read_append valid] at update

/-- A slice with a new array joins the list. -/
theorem rewrites_make {h : Heap α} (z : α) (xs : List α) (n : Nat)
    (separate : Separate h qs) :
    Rewrites h (h.make z xs n).1 qs (qs ++ [(h.make z xs n).2]) ∧
      (qs ++ [(h.make z xs n).2]).map (h.make z xs n).1.read = qs.map h.read ++ [xs] := by
  have old : ∀ t, h.Valid t → (h.make z xs n).1.Valid t ∧ (h.make z xs n).1.read t = h.read t :=
    fun t valid => ⟨valid_make_old valid, read_make_old valid⟩
  refine ⟨⟨⟨?_, ?_⟩, fun t valid _ => old t valid, ?_, by simp [make]⟩, ?_⟩
  · intro t mem
    rcases mem_append.mp mem with mem | mem
    · exact (old t (separate.valid t mem)).1
    · rw [mem_singleton.mp mem]
      exact valid_make_new ..
  · rw [map_append, nodup_append]
    refine ⟨separate.distinct, by simp, ?_⟩
    intro a mem b new
    obtain ⟨t, inList, rfl⟩ := mem_map.mp mem
    have := (separate.valid t inList).1
    simp only [map_cons, make_arr, map_nil, mem_singleton] at new
    omega
  · intro t mem
    rcases mem_append.mp mem with mem | mem
    · exact Or.inl ⟨t, mem, rfl⟩
    · rw [mem_singleton.mp mem]
      exact Or.inr (Nat.le_refl _)
  · rw [map_append, map_cons, map_nil, read_make_new]
    congr 1
    exact map_congr_left fun t mem => (old t (separate.valid t mem)).2

/-- Dropping a slice, and changing the order. -/
theorem Rewrites.drop {h h' : Heap α} {qs' qs'' : List Slice}
    (rewrites : Rewrites h h' qs qs') (whole : qs'.Perm (s :: qs'')) : Rewrites h h' qs qs'' := by
  have sub : ∀ t ∈ qs'', t ∈ qs' := fun t mem => whole.mem_iff.mpr (mem_cons_of_mem _ mem)
  have distinct : ((s :: qs'').map Slice.arr).Nodup :=
    (whole.map Slice.arr).nodup_iff.mp rewrites.separate.distinct
  exact ⟨⟨fun t mem => rewrites.separate.valid t (sub t mem), (nodup_cons.mp distinct).2⟩,
    rewrites.frame, fun t mem => rewrites.arrs t (sub t mem), rewrites.grown⟩

end Hnatsd.Misc
