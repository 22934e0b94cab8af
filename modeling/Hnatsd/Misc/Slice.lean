import Mathlib

/-!
# Slices over backing arrays

A slice is a window into a backing array: an address, an offset, a length and the capacity that
remains from the offset. `append` writes in place while capacity remains and otherwise moves the
contents to a new array, so two slices of one array can see each other's writes. The heap never
frees an array and never changes an array's length; what an operation may change is therefore
said cell by cell, and the frame lemmas below give the slices it leaves alone.
-/

namespace Hnatsd.Misc
open List

variable {g : Grow} {a b i n : Nat} {s t : Slice}

/-- A window into the array at `arr`: `len` cells from `off` are visible, `cap` are reachable. -/
structure Slice where
  arr : Nat
  off : Nat
  len : Nat
  cap : Nat
  len_le_cap : len ≤ cap
  deriving DecidableEq

/-- How much capacity a full slice gets when it has to move. -/
structure Grow where
  cap : Nat → Nat → Nat
  le_cap : ∀ old need, need ≤ cap old need

/-- Doubling, or exactly what is needed when doubling does not suffice. -/
def Grow.double : Grow where
  cap old need := max (2 * old) need
  le_cap _ _ := Nat.le_max_right _ _

/-- The backing arrays, by address. -/
structure Heap (α : Type) where
  arrays : List (List α)

namespace Heap

variable {α : Type}

def empty : Heap α := ⟨[]⟩

def array (h : Heap α) (a : Nat) : List α := h.arrays.getD a []

/-- The visible cells of a slice. -/
def read (h : Heap α) (s : Slice) : List α := ((h.array s.arr).drop s.off).take s.len

/-- Replace the cells of `cells` from position `i` on by `xs`. -/
def overwrite (cells : List α) (i : Nat) (xs : List α) : List α :=
  cells.take i ++ xs ++ cells.drop (i + xs.length)

/-- Store `xs` into the array at `a`, from cell `i` on. -/
def write (h : Heap α) (a i : Nat) (xs : List α) : Heap α :=
  ⟨h.arrays.set a (overwrite (h.array a) i xs)⟩

/-- A new array that holds `xs`, padded with `z` to `n` cells. -/
def make (h : Heap α) (z : α) (xs : List α) (n : Nat) : Heap α × Slice :=
  (⟨h.arrays ++ [xs ++ replicate (n - xs.length) z]⟩,
    ⟨h.arrays.length, 0, xs.length, max xs.length n, Nat.le_max_left _ _⟩)

/-- `append(s, xs...)`: in place while the capacity lasts, else into a new array. -/
def append (h : Heap α) (g : Grow) (z : α) (s : Slice) (xs : List α) : Heap α × Slice :=
  if fits : s.len + xs.length ≤ s.cap then
    (h.write s.arr (s.off + s.len) xs, { s with len := s.len + xs.length, len_le_cap := fits })
  else
    h.make z (h.read s ++ xs) (g.cap s.cap (s.len + xs.length))

/-- The slice lies inside an array that exists. -/
def Valid (h : Heap α) (s : Slice) : Prop :=
  s.arr < h.arrays.length ∧ s.off + s.cap ≤ (h.array s.arr).length

theorem length_overwrite {cells xs : List α} (fits : i + xs.length ≤ cells.length) :
    (overwrite cells i xs).length = cells.length := by
  simp only [overwrite, length_append, length_take, length_drop]
  omega

/-- A write leaves the cells before it as they were. -/
theorem take_overwrite {cells xs : List α} (before : n ≤ i) (inside : i ≤ cells.length) :
    (overwrite cells i xs).take n = cells.take n := by
  have long : n ≤ (cells.take i).length := by simp; omega
  rw [overwrite, append_assoc, take_append_of_le_length long, take_take,
    Nat.min_eq_left before]

theorem drop_overwrite {cells xs : List α} (inside : i ≤ cells.length) :
    (overwrite cells i xs).drop i = xs ++ cells.drop (i + xs.length) := by
  have prefixLength : (cells.take i).length = i := by simp [inside]
  rw [overwrite, append_assoc, drop_append_of_le_length (Nat.le_of_eq prefixLength.symm),
    drop_of_length_le (Nat.le_of_eq prefixLength), nil_append]

@[simp] theorem write_arrays_length (h : Heap α) (a i : Nat) (xs : List α) :
    (h.write a i xs).arrays.length = h.arrays.length := by
  simp [write]

theorem array_write_self {h : Heap α} {xs : List α} (exist : a < h.arrays.length) :
    (h.write a i xs).array a = overwrite (h.array a) i xs := by
  simp [write, array, exist]

theorem array_write_ne {h : Heap α} {xs : List α} (other : b ≠ a) :
    (h.write a i xs).array b = h.array b := by
  simp [write, array, Ne.symm other]

theorem array_length_write {h : Heap α} {a i : Nat} {xs : List α}
    (fits : i + xs.length ≤ (h.array a).length) (b : Nat) :
    ((h.write a i xs).array b).length = (h.array b).length := by
  by_cases same : b = a
  · subst same
    by_cases exist : b < h.arrays.length
    · rw [array_write_self exist, length_overwrite fits]
    · simp [write, array, set_eq_of_length_le (Nat.le_of_not_lt exist)]
  · rw [array_write_ne same]

theorem array_make_old {h : Heap α} {z : α} {xs : List α} (old : b < h.arrays.length) :
    (h.make z xs n).1.array b = h.array b := by
  simp [make, array, getElem?_append_left old]

theorem array_make_new (h : Heap α) (z : α) (xs : List α) (n : Nat) :
    (h.make z xs n).1.array h.arrays.length = xs ++ replicate (n - xs.length) z := by
  simp [make, array]

theorem read_length {h : Heap α} (valid : h.Valid s) : (h.read s).length = s.len := by
  have := valid.2
  have := s.len_le_cap
  simp only [read, length_take, length_drop]
  omega

/-- Writing into another array, or behind what a slice shows, is not seen through the slice. -/
theorem read_write_frame {h : Heap α} {xs : List α}
    (inside : i ≤ (h.array a).length) (apart : t.arr = a → t.off + t.len ≤ i) :
    (h.write a i xs).read t = h.read t := by
  by_cases same : t.arr = a
  · have before := apart same
    by_cases exist : a < h.arrays.length
    · simp only [read, same, array_write_self exist]
      rw [take_drop, take_drop, take_overwrite before inside]
    · simp [read, write, array, set_eq_of_length_le (Nat.le_of_not_lt exist)]
  · simp only [read, array_write_ne same]

/-- Storing one cell a slice shows replaces it in what the slice shows. -/
theorem read_write_cell {h : Heap α} {x : α} (valid : h.Valid s)
    (shown : i < s.len) : (h.write s.arr (s.off + i) [x]).read s = (h.read s).set i x := by
  have bound := valid.2
  have fits := s.len_le_cap
  apply ext_getElem?
  intro j
  simp only [read, array_write_self valid.1, overwrite, getElem?_take, getElem?_drop,
    getElem?_set, length_take, length_drop, length_singleton]
  by_cases visible : j < s.len
  · have inside : s.off + i ≤ (h.array s.arr).length := by omega
    rcases Nat.lt_trichotomy j i with before | here | after
    · rw [if_pos visible, if_neg (by omega), if_pos visible, append_assoc,
        getElem?_append_left (by simp; omega), getElem?_take_of_lt (by omega)]
    · subst here
      rw [if_pos visible, if_pos rfl, if_pos (by omega), append_assoc,
        getElem?_append_right (by rw [length_take]; omega)]
      simp [Nat.min_eq_left inside]
    · rw [if_pos visible, if_neg (by omega), if_pos visible,
        getElem?_append_right (by simp; omega), getElem?_drop]
      congr 1
      simp only [length_append, length_take, length_singleton]
      omega
  · rw [if_neg visible, if_neg visible]
    by_cases same : i = j
    · omega
    · rw [if_neg same]

/-- A shorter slice of the same cells shows a beginning of them. -/
theorem read_shorter (h : Heap α) (s : Slice) (n : Nat) (fits : n ≤ s.cap) (shorter : n ≤ s.len) :
    h.read { s with len := n, len_le_cap := fits } = (h.read s).take n := by
  simp only [read, take_take, Nat.min_eq_left shorter]

theorem valid_write {h : Heap α} {xs : List α}
    (fits : i + xs.length ≤ (h.array a).length) (valid : h.Valid t) :
    (h.write a i xs).Valid t := by
  refine ⟨by simpa using valid.1, ?_⟩
  rw [array_length_write fits]
  exact valid.2

theorem read_make_old {h : Heap α} {z : α} {xs : List α}
    (valid : h.Valid t) : (h.make z xs n).1.read t = h.read t := by
  simp only [read, array_make_old valid.1]

theorem valid_make_old {h : Heap α} {z : α} {xs : List α}
    (valid : h.Valid t) : (h.make z xs n).1.Valid t := by
  refine ⟨?_, ?_⟩
  · have := valid.1
    simp only [make, length_append, length_singleton]
    omega
  · rw [array_make_old valid.1]
    exact valid.2

theorem read_make_new (h : Heap α) (z : α) (xs : List α) (n : Nat) :
    (h.make z xs n).1.read (h.make z xs n).2 = xs := by
  have cells := array_make_new h z xs n
  simp only [read, make] at cells ⊢
  simp [cells]

theorem valid_make_new (h : Heap α) (z : α) (xs : List α) (n : Nat) :
    (h.make z xs n).1.Valid (h.make z xs n).2 := by
  refine ⟨by simp [make], ?_⟩
  have cells := array_make_new h z xs n
  simp only [make] at cells ⊢
  rw [cells]
  simp only [length_append, length_replicate]
  omega

@[simp] theorem make_arr (h : Heap α) (z : α) (xs : List α) (n : Nat) :
    (h.make z xs n).2.arr = h.arrays.length := rfl

/-- What `append` does, in its two cases. -/
theorem append_cases (h : Heap α) (g : Grow) (z : α) (s : Slice) (xs : List α) :
    (∃ fits : s.len + xs.length ≤ s.cap, h.append g z s xs =
      (h.write s.arr (s.off + s.len) xs,
        { s with len := s.len + xs.length, len_le_cap := fits })) ∨
    (s.cap < s.len + xs.length ∧ h.append g z s xs =
      h.make z (h.read s ++ xs) (g.cap s.cap (s.len + xs.length))) := by
  by_cases fits : s.len + xs.length ≤ s.cap
  · exact Or.inl ⟨fits, by simp [append, fits]⟩
  · exact Or.inr ⟨Nat.lt_of_not_le fits, by simp [append, fits]⟩

/-- Cells written right behind a slice are seen through the longer slice. -/
theorem read_write_extend {h : Heap α} {xs : List α} (valid : h.Valid s)
    (fits : s.len + n ≤ s.cap) (length : xs.length = n) :
    (h.write s.arr (s.off + s.len) xs).read { s with len := s.len + n, len_le_cap := fits } =
      h.read s ++ xs := by
  subst length
  have bound := valid.2
  have inside : s.off + s.len ≤ (h.array s.arr).length := by omega
  simp only [read, array_write_self valid.1]
  -- the window splits at the old end: unchanged cells, then the cells just written
  rw [take_add, drop_drop, take_drop,
    take_overwrite (Nat.le_refl _) inside, drop_overwrite inside, take_drop,
    take_left]

theorem read_append {h : Heap α} {z : α} {xs : List α}
    (valid : h.Valid s) :
    (h.append g z s xs).1.read (h.append g z s xs).2 = h.read s ++ xs := by
  rcases append_cases h g z s xs with ⟨fits, eq⟩ | ⟨-, eq⟩
  · rw [eq]
    exact read_write_extend valid fits rfl
  · rw [eq, read_make_new]

theorem valid_append_self {h : Heap α} {z : α} {xs : List α}
    (valid : h.Valid s) : (h.append g z s xs).1.Valid (h.append g z s xs).2 := by
  rcases append_cases h g z s xs with ⟨fits, eq⟩ | ⟨-, eq⟩
  · rw [eq]
    have bound := valid.2
    have moved : (h.write s.arr (s.off + s.len) xs).Valid s := valid_write (by omega) valid
    exact ⟨moved.1, moved.2⟩
  · rw [eq]
    exact valid_make_new ..

theorem valid_append {h : Heap α} {z : α} {xs : List α}
    (valid : h.Valid s) (other : h.Valid t) : (h.append g z s xs).1.Valid t := by
  rcases append_cases h g z s xs with ⟨fits, eq⟩ | ⟨-, eq⟩
  · rw [eq]
    have bound := valid.2
    exact valid_write (by omega) other
  · rw [eq]
    exact valid_make_old other

/-- A slice of another array, or one that ends where the appended slice ends or before, reads
the same after an append. -/
theorem read_append_frame {h : Heap α} {z : α} {xs : List α}
    (valid : h.Valid s) (other : h.Valid t)
    (apart : t.arr = s.arr → t.off + t.len ≤ s.off + s.len) :
    (h.append g z s xs).1.read t = h.read t := by
  rcases append_cases h g z s xs with ⟨fits, eq⟩ | ⟨-, eq⟩
  · rw [eq]
    have bound := valid.2
    exact read_write_frame (by omega) apart
  · rw [eq, read_make_old other]

/-- Arrays other than the slice's own are not written. -/
theorem array_append_ne {h : Heap α} {z : α} {xs : List α}
    (old : b < h.arrays.length) (other : b ≠ s.arr) :
    (h.append g z s xs).1.array b = h.array b := by
  rcases append_cases h g z s xs with ⟨fits, eq⟩ | ⟨-, eq⟩
  · rw [eq]
    exact array_write_ne other
  · rw [eq]
    exact array_make_old old

theorem array_length_append {h : Heap α} {z : α} {xs : List α}
    (valid : h.Valid s) (old : b < h.arrays.length) :
    ((h.append g z s xs).1.array b).length = (h.array b).length := by
  rcases append_cases h g z s xs with ⟨fits, eq⟩ | ⟨-, eq⟩
  · rw [eq]
    have bound := valid.2
    exact array_length_write (by omega) b
  · rw [eq, array_make_old old]

/-- Appending does not lose capacity. -/
theorem cap_le_append {h : Heap α} {z : α} {xs : List α}
    (valid : h.Valid s) : s.cap ≤ (h.append g z s xs).2.cap := by
  rcases append_cases h g z s xs with ⟨fits, eq⟩ | ⟨moved, eq⟩
  · simp [eq]
  · rw [eq]
    simp only [make, length_append, read_length valid]
    omega

/-- An append keeps the array or takes one that did not exist before. -/
theorem append_arr (h : Heap α) (g : Grow) (z : α) (s : Slice) (xs : List α) :
    ((h.append g z s xs).2.arr = s.arr ∧ (h.append g z s xs).2.off = s.off) ∨
      ((h.append g z s xs).2.arr = h.arrays.length ∧ (h.append g z s xs).2.off = 0) := by
  rcases append_cases h g z s xs with ⟨fits, eq⟩ | ⟨-, eq⟩
  · rw [eq]
    exact Or.inl ⟨rfl, rfl⟩
  · rw [eq]
    exact Or.inr ⟨rfl, rfl⟩

theorem append_len {h : Heap α} {z : α} {xs : List α}
    (valid : h.Valid s) : (h.append g z s xs).2.len = s.len + xs.length := by
  rcases append_cases h g z s xs with ⟨fits, eq⟩ | ⟨-, eq⟩
  · rw [eq]
  · rw [eq]
    simp [make, read_length valid]

theorem arrays_length_le_append (h : Heap α) (g : Grow) (z : α) (s : Slice) (xs : List α) :
    h.arrays.length ≤ (h.append g z s xs).1.arrays.length := by
  rcases append_cases h g z s xs with ⟨fits, eq⟩ | ⟨-, eq⟩
  · rw [eq]
    simp
  · rw [eq]
    simp [make]

end Heap

end Hnatsd.Misc
