import Hnatsd.Server.Parser

/-!
# Header arguments of PUB and MSG

`processPub` and `processMsgArgs` cut an argument into slices of it. Read from memory these are
the tokens of the argument's bytes, so what a header is taken for depends on its bytes alone.
-/

namespace Hnatsd.Server
open Misc List

variable {mem : Heap UInt8} {toks : List Bytes} {cfg : ParserConfig} {pa : PubValues}
  {arg : Slice}

/-- The ranges of the tokens lie inside the argument. -/
theorem splitRanges_bounds (xs : Bytes) (i : Nat) (start : Option Nat)
    (before : ∀ s, start = some s → s ≤ i) :
    ∀ r ∈ splitRanges xs i start, r.1 ≤ r.2 ∧ r.2 ≤ i + xs.length := by
  induction xs generalizing i start with
  | nil =>
    cases start with
    | none => simp [splitRanges]
    | some s =>
      have := before s rfl
      simp [splitRanges, this]
  | cons b xs ih =>
    intro r mem
    have length : (b :: xs).length = xs.length + 1 := rfl
    simp only [splitRanges] at mem
    split at mem
    · have rest : ∀ r ∈ splitRanges xs (i + 1) none, r.1 ≤ r.2 ∧ r.2 ≤ i + (b :: xs).length := by
        intro r mem
        have := ih (i + 1) none (by simp) r mem
        omega
      cases start with
      | none => exact rest r mem
      | some s =>
        rcases mem_cons.mp mem with rfl | mem
        · have := before s rfl
          simp only [length]
          omega
        · exact rest r mem
    · have inside : ∀ s, some (start.getD i) = some s → s ≤ i + 1 := by
        rintro s ⟨⟩
        cases start with
        | none => simp
        | some s =>
          have := before s rfl
          simp only [Option.getD_some]
          omega
      have := ih (i + 1) (some (start.getD i)) inside r mem
      omega

theorem read_subSlice {r : Nat × Nat} (inside : r.2 ≤ arg.len) :
    mem.read (subSlice arg r) = slice (mem.read arg) r := by
  simp only [Heap.read, subSlice, slice, take_take, Nat.min_eq_left inside]
  rw [drop_take, drop_drop]

/-- The tokens of an argument that does not leave its array, read from memory. -/
theorem map_read_argSlices (valid : mem.Valid arg) :
    (argSlices mem arg).map mem.read = splitArg (mem.read arg) := by
  rw [argSlices, splitArg, map_map]
  refine map_congr_left fun r mem' => ?_
  have := (splitRanges_bounds (mem.read arg) 0 none (by simp) r mem').2
  rw [Heap.read_length valid] at this
  exact read_subSlice (by omega)

/-- A slice that lies inside another. -/
def Slice.Inside (s arg : Slice) : Prop :=
  s.arr = arg.arr ∧ arg.off ≤ s.off ∧ s.off + s.len ≤ arg.off + arg.len ∧ s.cap = s.len

theorem argSlices_inside (valid : mem.Valid arg) :
    ∀ s ∈ argSlices mem arg, Slice.Inside s arg := by
  intro s mem'
  obtain ⟨r, inRanges, rfl⟩ := mem_map.mp mem'
  have := splitRanges_bounds (mem.read arg) 0 none (by simp) r inRanges
  rw [Heap.read_length valid] at this
  refine ⟨rfl, ?_, ?_, rfl⟩ <;> simp only [subSlice] <;> omega

theorem valid_inside {s : Slice} (inside : Slice.Inside s arg)
    (valid : mem.Valid arg) : mem.Valid s := by
  obtain ⟨arr, off, fits, cap⟩ := inside
  have bound := valid.2
  have short := arg.len_le_cap
  rw [Heap.Valid, arr]
  exact ⟨valid.1, by omega⟩

/-- The slices of a `pubArg`. -/
def PubArg.slices (pa : PubArg) : List Slice :=
  pa.subject.toList ++ pa.reply.toList ++ pa.sid.toList ++ pa.szb.toList

/-- What `processPub` makes of the tokens of its argument. -/
def pubHeader (cfg : ParserConfig) (sid : Option Bytes) (toks : List Bytes) :
    Except ParseError PubValues :=
  let check (pa : PubValues) : Except ParseError PubValues :=
    if pa.size < 0 then .error .badSize
    else if 0 < cfg.mpay ∧ cfg.mpay < pa.size then .error .maxPayload
    else .ok pa
  match toks with
  | [subject, szb] => check ⟨subject, none, sid, szb, parseSize szb⟩
  | [subject, reply, szb] => check ⟨subject, some reply, sid, szb, parseSize szb⟩
  | _ => .error .arguments

/-- What `processMsgArgs` makes of the tokens of its argument. -/
def msgHeader (toks : List Bytes) : Except ParseError PubValues :=
  let check (pa : PubValues) : Except ParseError PubValues :=
    if pa.size < 0 then .error .badSize else .ok pa
  match toks with
  | [subject, sid, szb] => check ⟨subject, none, some sid, szb, parseSize szb⟩
  | [subject, sid, reply, szb] => check ⟨subject, some reply, some sid, szb, parseSize szb⟩
  | _ => .error .arguments

/-- `processPub` on memory is `pubHeader` on the tokens. -/
theorem processPub_values (cfg : ParserConfig) (pa : PubArg)
    (valid : mem.Valid arg) :
    (processPub cfg mem pa arg).map (PubArg.values · mem) =
      pubHeader cfg (pa.sid.map mem.read) (splitArg (mem.read arg)) := by
  have toks := map_read_argSlices valid
  unfold processPub pubHeader
  rw [← toks]
  match argSlices mem arg with
  | [] | [_] | _ :: _ :: _ :: _ :: _ => rfl
  | [subject, szb] =>
    simp only [map_cons, map_nil]
    split
    · rfl
    · split <;> rfl
  | [subject, reply, szb] =>
    simp only [map_cons, map_nil]
    split
    · rfl
    · split <;> rfl

theorem processMsgArgs_values (valid : mem.Valid arg) :
    (processMsgArgs mem arg).map (PubArg.values · mem) =
      msgHeader (splitArg (mem.read arg)) := by
  have toks := map_read_argSlices valid
  unfold processMsgArgs msgHeader
  rw [← toks]
  match argSlices mem arg with
  | [] | [_] | [_, _] | _ :: _ :: _ :: _ :: _ :: _ => rfl
  | [subject, sid, szb] =>
    simp only [map_cons, map_nil]
    split <;> rfl
  | [subject, sid, reply, szb] =>
    simp only [map_cons, map_nil]
    split <;> rfl

/-- The slices `processPub` sets are slices of its argument; `sid` is as before. -/
theorem processPub_slices {pa pa' : PubArg}
    (valid : mem.Valid arg) (ok : processPub cfg mem pa arg = .ok pa') :
    pa'.sid = pa.sid ∧ ∀ s ∈ pa'.slices, s ∈ pa.sid.toList ∨ Slice.Inside s arg := by
  have inside := argSlices_inside valid
  unfold processPub at ok
  split at ok
  · rename_i subject szb toks
    rw [toks] at inside
    dsimp only at ok
    split at ok
    · cases ok
    · split at ok
      · cases ok
      · cases ok
        refine ⟨rfl, fun s mem' => ?_⟩
        simp only [PubArg.slices, Option.toList_some, Option.toList_none, append_nil,
          mem_append, mem_singleton] at mem'
        rcases mem' with (rfl | mem') | rfl
        · exact Or.inr (inside _ (by simp))
        · exact Or.inl mem'
        · exact Or.inr (inside _ (by simp))
  · rename_i subject reply szb toks
    rw [toks] at inside
    dsimp only at ok
    split at ok
    · cases ok
    · split at ok
      · cases ok
      · cases ok
        refine ⟨rfl, fun s mem' => ?_⟩
        simp only [PubArg.slices, Option.toList_some, mem_append, mem_singleton] at mem'
        rcases mem' with ((rfl | rfl) | mem') | rfl
        · exact Or.inr (inside _ (by simp))
        · exact Or.inr (inside _ (by simp))
        · exact Or.inl mem'
        · exact Or.inr (inside _ (by simp))
  · cases ok

theorem processMsgArgs_slices {pa : PubArg}
    (valid : mem.Valid arg) (ok : processMsgArgs mem arg = .ok pa) :
    ∀ s ∈ pa.slices, Slice.Inside s arg := by
  have inside := argSlices_inside valid
  unfold processMsgArgs at ok
  split at ok
  · rename_i subject sid szb toks
    rw [toks] at inside
    dsimp only at ok
    split at ok
    · cases ok
    · cases ok
      intro s mem'
      apply inside
      simpa [PubArg.slices] using mem'
  · rename_i subject sid reply szb toks
    rw [toks] at inside
    dsimp only at ok
    split at ok
    · cases ok
    · cases ok
      intro s mem'
      apply inside
      simp only [PubArg.slices, Option.toList_some, mem_append, mem_singleton] at mem'
      rcases mem' with ((rfl | rfl) | rfl) | rfl <;> simp
  · cases ok

theorem parseDigits_bounds (d : Bytes) (n : Int) (low : -(2 ^ 63) ≤ n) (high : n < 2 ^ 63) :
    -(2 ^ 63) ≤ parseDigits d n ∧ parseDigits d n < 2 ^ 63 := by
  induction d generalizing n with
  | nil => exact ⟨low, high⟩
  | cons b d ih =>
    rw [parseDigits]
    split
    · omega
    · have bounds := wrap64_bounds (n * 10 + (b.toNat - 48))
      exact ih _ bounds.1 bounds.2

theorem parseSize_lt (d : Bytes) : parseSize d < 2 ^ 63 := by
  unfold parseSize
  split
  · omega
  · exact (parseDigits_bounds d 0 (by omega) (by omega)).2

/-- The size of an accepted header is what its field was read as. -/
theorem pubHeader_parsed {sid : Option Bytes} (ok : pubHeader cfg sid toks = .ok pa) :
    pa.size = parseSize pa.szb ∧ 0 ≤ pa.size := by
  unfold pubHeader at ok
  dsimp only at ok
  split at ok
  · split_ifs at ok with negative
    cases ok
    exact ⟨rfl, Int.not_lt.mp negative⟩
  · split_ifs at ok with negative
    cases ok
    exact ⟨rfl, Int.not_lt.mp negative⟩
  · cases ok

theorem pubHeader_size {sid : Option Bytes} (ok : pubHeader cfg sid toks = .ok pa) : 0 ≤ pa.size ∧ pa.size < 2 ^ 63 := by
  obtain ⟨parsed, nonneg⟩ := pubHeader_parsed ok
  exact ⟨nonneg, parsed ▸ parseSize_lt _⟩

/-- The size does not depend on the `sid` that was there before. -/
theorem pubHeader_sid (cfg : ParserConfig) (sid : Option Bytes) (toks : List Bytes) :
    (pubHeader cfg sid toks).toOption.map PubValues.size =
      (pubHeader cfg none toks).toOption.map PubValues.size := by
  unfold pubHeader
  dsimp only
  split <;> (try split_ifs) <;> rfl

theorem msgHeader_parsed (ok : msgHeader toks = .ok pa) :
    pa.size = parseSize pa.szb ∧ 0 ≤ pa.size := by
  unfold msgHeader at ok
  dsimp only at ok
  split at ok
  · split_ifs at ok with negative
    cases ok
    exact ⟨rfl, Int.not_lt.mp negative⟩
  · split_ifs at ok with negative
    cases ok
    exact ⟨rfl, Int.not_lt.mp negative⟩
  · cases ok

theorem msgHeader_size (ok : msgHeader toks = .ok pa) :
    0 ≤ pa.size ∧ pa.size < 2 ^ 63 := by
  obtain ⟨parsed, nonneg⟩ := msgHeader_parsed ok
  exact ⟨nonneg, parsed ▸ parseSize_lt _⟩

end Hnatsd.Server
