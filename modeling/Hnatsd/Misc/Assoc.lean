import Mathlib

/-!
# Maps as association lists

A map holds each key at most once: `assocSet` drops the old binding of its key. Iteration order
is the order of the list, and nothing here depends on it.
-/

namespace Hnatsd.Misc
open List

variable {κ β : Type} [DecidableEq κ]

/-- `m[k] = v`. -/
def assocSet (m : List (κ × β)) (k : κ) (v : β) : List (κ × β) :=
  (k, v) :: m.filter (fun e => e.1 ≠ k)

/-- `delete(m, k)`. -/
def assocErase (m : List (κ × β)) (k : κ) : List (κ × β) :=
  m.filter (fun e => e.1 ≠ k)

theorem lookup_cons_ite [BEq κ] [LawfulBEq κ] (m : List (κ × β)) (k k' : κ) (v : β) :
    ((k, v) :: m).lookup k' = if k' = k then some v else m.lookup k' := by
  by_cases same : k' = k
  · simp [same]
  · have differ : (k' == k) = false := beq_eq_false_iff_ne.mpr same
    simp [lookup_cons, differ, same]

theorem lookup_assocErase [BEq κ] [LawfulBEq κ] (m : List (κ × β)) (k k' : κ) :
    (assocErase m k).lookup k' = if k' = k then none else m.lookup k' := by
  induction m with
  | nil => simp [assocErase]
  | cons e m ih =>
    obtain ⟨key, value⟩ := e
    simp only [assocErase, filter_cons] at ih ⊢
    by_cases dropped : key = k
    · simp only [dropped, ne_eq, not_true_eq_false, decide_false, Bool.false_eq_true, if_false]
      rw [ih, lookup_cons_ite]
      by_cases same : k' = k <;> simp [same]
    · simp only [ne_eq, dropped, not_false_eq_true, decide_true, if_true]
      rw [lookup_cons_ite, lookup_cons_ite, ih]
      by_cases same : k' = key
      · simp [same, dropped]
      · simp [same]

theorem lookup_assocSet [BEq κ] [LawfulBEq κ] (m : List (κ × β)) (k k' : κ) (v : β) :
    (assocSet m k v).lookup k' = if k' = k then some v else m.lookup k' := by
  have erased := lookup_assocErase m k k'
  rw [assocErase] at erased
  rw [assocSet, lookup_cons_ite, erased]
  by_cases same : k' = k <;> simp [same]

theorem mem_of_lookup [BEq κ] [LawfulBEq κ] {m : List (κ × β)} {k : κ} {v : β} (found : m.lookup k = some v) :
    (k, v) ∈ m := by
  induction m with
  | nil => simp at found
  | cons e m ih =>
    obtain ⟨key, value⟩ := e
    rw [lookup_cons_ite] at found
    by_cases same : k = key
    · simp only [same, if_true, Option.some.injEq] at found
      simp [same, found]
    · simp only [same, if_false] at found
      exact mem_cons_of_mem _ (ih found)

/-- A map with every key once. -/
def UniqueKeys (m : List (κ × β)) : Prop := (m.map Prod.fst).Nodup

theorem UniqueKeys.erase {m : List (κ × β)} (unique : UniqueKeys m) (k : κ) :
    UniqueKeys (assocErase m k) :=
  List.Nodup.sublist (filter_sublist.map Prod.fst) unique

theorem UniqueKeys.set {m : List (κ × β)} (unique : UniqueKeys m) (k : κ) (v : β) :
    UniqueKeys (assocSet m k v) := by
  refine nodup_cons.mpr ⟨fun mem => ?_, unique.erase k⟩
  obtain ⟨e, kept, same⟩ := mem_map.mp mem
  exact of_decide_eq_true (mem_filter.mp kept).2 same

theorem UniqueKeys.lookup_of_mem [BEq κ] [LawfulBEq κ] {m : List (κ × β)} (unique : UniqueKeys m)
    {k : κ} {v : β} (mem : (k, v) ∈ m) : m.lookup k = some v := by
  induction m with
  | nil => cases mem
  | cons e m ih =>
    obtain ⟨key, value⟩ := e
    obtain ⟨new, rest⟩ := nodup_cons.mp unique
    rw [lookup_cons_ite]
    rcases mem_cons.mp mem with here | there
    · cases here
      rw [if_pos rfl]
    · have other : k ≠ key := by
        rintro rfl
        exact new (mem_map.mpr ⟨_, there, rfl⟩)
      rw [if_neg other]
      exact ih rest there

theorem mem_assocSet {m : List (κ × β)} {k : κ} {v : β} {e : κ × β} (mem : e ∈ assocSet m k v) :
    e = (k, v) ∨ (e ∈ m ∧ e.1 ≠ k) := by
  rcases mem_cons.mp mem with here | there
  · exact Or.inl here
  · obtain ⟨old, other⟩ := mem_filter.mp there
    exact Or.inr ⟨old, by simpa using other⟩

theorem mem_assocErase {m : List (κ × β)} {k : κ} {e : κ × β} (mem : e ∈ assocErase m k) :
    e ∈ m ∧ e.1 ≠ k := by
  obtain ⟨old, other⟩ := mem_filter.mp mem
  exact ⟨old, by simpa using other⟩

theorem mem_assocErase_of_ne {m : List (κ × β)} {k : κ} {e : κ × β} (mem : e ∈ m) (ne : e.1 ≠ k) :
    e ∈ assocErase m k :=
  mem_filter.mpr ⟨mem, decide_eq_true ne⟩

theorem mem_assocSet_of_ne {m : List (κ × β)} {k : κ} {v : β} {e : κ × β} (mem : e ∈ m)
    (ne : e.1 ≠ k) : e ∈ assocSet m k v :=
  mem_cons_of_mem _ (mem_assocErase_of_ne mem ne)

end Hnatsd.Misc
