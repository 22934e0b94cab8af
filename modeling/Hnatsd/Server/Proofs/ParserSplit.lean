import Hnatsd.Server.Proofs.ParserStream

/-!
# Streams cut into reads

What the parser holds back at the end of a read is what the scanning machine has read of the
current line or message, so the next read goes on where the last one stopped. Over any cut of a
stream the machine accepts, `parse` returns no error and makes the machine's calls.
-/

namespace Hnatsd.Server
open Misc List

variable {got : Bytes} {mem mem' : Heap UInt8} {pa : PubArg} {a : Scan} {arg s : Slice}

/-- Between two reads: whatever the next read brings, the parser follows the machine. -/
def Resumes (cfg : ParserConfig) (c : ParseState) (a : Scan) : Prop :=
  ∀ buf, Follows cfg (c.load buf) 0 a

theorem read_load {c : ParseState} (buf : Bytes) (other : s.arr ≠ readBuf) :
    (c.load buf).mem.read s = c.mem.read s := by
  rw [Heap.read, Heap.read, array_load other]

theorem valid_load {c : ParseState} (buf : Bytes) (other : s.arr ≠ readBuf)
    (valid : c.mem.Valid s) : (c.load buf).mem.Valid s :=
  ((Owned.some valid other).load buf s rfl).1

/-- Slices of the read buffer read the same while it is kept. -/
theorem Kept.read {h h' : Heap UInt8} (kept : Kept h h')
    (exist : readBuf < h.arrays.length) (inBuf : s.arr = readBuf) : h'.read s = h.read s := by
  rw [Heap.read, Heap.read, inBuf, kept.buf exist]

section Clone

variable {cfg : ParserConfig} {c : ParseState}

theorem textOf_kept {h h' : Heap UInt8} {s : Option Slice} (kept : Kept h h')
    (exist : readBuf < h.arrays.length) (inBuf : ∀ t, s = some t → t.arr = readBuf) :
    textOf h' s = textOf h s := by
  cases s with
  | none => rfl
  | some t => simp [textOf, kept.read exist (inBuf t rfl)]

/-- The texts of slices of the read buffer, one behind the other. -/
theorem foldl_appendText_read (texts : List (Option Slice)) (held : Heap UInt8 × Slice)
    (exist : readBuf < held.1.arrays.length) (owned : Owned held.1 (some held.2))
    (inBuf : ∀ s ∈ texts, ∀ t, s = some t → t.arr = readBuf) :
    (texts.foldl (appendText cfg) held).1.read (texts.foldl (appendText cfg) held).2 =
        held.1.read held.2 ++ texts.flatMap (textOf held.1) ∧
      ((held.2.arr = scratch → held.2.off = 0) →
        (texts.foldl (appendText cfg) held).2.arr = scratch →
          (texts.foldl (appendText cfg) held).2.off = 0) := by
  induction texts generalizing held with
  | nil => exact ⟨by simp, id⟩
  | cons s texts ih =>
    have valid := (owned _ rfl).1
    obtain ⟨kept, owned'⟩ := appendText_kept cfg s exist owned
    obtain ⟨text, place⟩ := ih (appendText cfg held s) (Nat.lt_of_lt_of_le exist kept.arrays) owned'
      fun s' mem => inBuf s' (mem_cons_of_mem _ mem)
    refine ⟨?_, fun start => place ?_⟩
    · rw [foldl_cons, text, appendText, Heap.read_append valid, flatMap_cons,
        append_assoc]
      congr 2
      refine flatMap_congr fun s' mem => ?_
      exact textOf_kept kept exist (inBuf s' (mem_cons_of_mem _ mem))
    · intro isScratch
      rcases Heap.append_arr held.1 cfg.grow 0 held.2 (textOf held.1 s) with ⟨arr, off⟩ | ⟨arr, off⟩
      · exact off.trans (start (arr.symm.trans isScratch))
      · exact off

theorem slice_middle (xs ys zs : Bytes) :
    slice (xs ++ (ys ++ zs)) (xs.length, xs.length + ys.length) = ys := by
  rw [slice_eq_take_drop, drop_left, take_left]

theorem length_textOf {s : Option Slice} (valid : ∀ t, s = some t → mem.Valid t) :
    (textOf mem s).length = (s.map Slice.len).getD 0 := by
  cases s with
  | none => rfl
  | some t => exact Heap.read_length (valid t rfl)

/-- A text of `c.pa` in its copy. -/
theorem read_clone {mem mem' : Heap UInt8} {arg : Slice} {before after : Bytes} {s : Option Slice}
    {lo hi : Nat} (copy : mem'.read arg = before ++ (textOf mem s ++ after))
    (valid : mem'.Valid arg) (start : lo = before.length)
    (stop : hi = lo + (textOf mem s).length) :
    mem'.read (subSlice arg (lo, hi)) = textOf mem s := by
  have length := congrArg List.length copy
  rw [Heap.read_length valid, length_append, length_append] at length
  rw [read_subSlice (by dsimp only; omega), copy, stop, start, slice_middle]

theorem map_read_clone {mem mem' : Heap UInt8} {arg : Slice} {before after : Bytes}
    {s : Option Slice} {lo hi : Nat} (copy : mem'.read arg = before ++ (textOf mem s ++ after))
    (valid : mem'.Valid arg) (start : lo = before.length)
    (stop : hi = lo + (textOf mem s).length) :
    (s.map fun _ => subSlice arg (lo, hi)).map mem'.read = s.map mem.read := by
  have text := read_clone copy valid start stop
  cases s with
  | none => rfl
  | some t => simpa [textOf] using text

/-- A copy of the texts of `pa`, in the order `relocate` expects them. -/
structure Copied (pa : PubArg) (mem mem' : Heap UInt8) (arg : Slice) : Prop where
  valid : mem'.Valid arg
  source : ∀ s ∈ pa.slices, mem.Valid s
  read : mem'.read arg = textOf mem pa.subject ++ (textOf mem pa.reply ++
    (textOf mem pa.sid ++ textOf mem pa.szb))

section

variable (copied : Copied pa mem mem' arg)
include copied

theorem Copied.lengths :
    (pa.subject.map Slice.len).getD 0 = (textOf mem pa.subject).length ∧
      (pa.reply.map Slice.len).getD 0 = (textOf mem pa.reply).length ∧
      (pa.sid.map Slice.len).getD 0 = (textOf mem pa.sid).length ∧
      arg.len = (textOf mem pa.subject).length + ((textOf mem pa.reply).length +
        ((textOf mem pa.sid).length + (textOf mem pa.szb).length)) := by
  have source := copied.source
  simp only [PubArg.slices, mem_append, Option.mem_toList] at source
  have whole := congrArg List.length copied.read
  rw [Heap.read_length copied.valid] at whole
  simp only [length_append] at whole
  refine ⟨(length_textOf fun t eq => source t ?_).symm, (length_textOf fun t eq => source t ?_).symm,
    (length_textOf fun t eq => source t ?_).symm, whole⟩
  all_goals tauto

theorem relocate_slices : ∀ s ∈ (pa.relocate arg).slices, Slice.Inside s arg := by
  have inside {r : Nat × Nat} (order : r.1 ≤ r.2) (fits : r.2 ≤ arg.len) :
      Slice.Inside (subSlice arg r) arg := by
    refine ⟨rfl, ?_, ?_, rfl⟩ <;> dsimp only [subSlice] <;> omega
  obtain ⟨subject, reply, sid, whole⟩ := copied.lengths
  intro s mem
  simp only [PubArg.relocate, PubArg.slices, mem_append, Option.mem_toList,
    Option.map_eq_some_iff, subject, reply, sid] at mem
  rcases mem with ((mem | ⟨_, _, mem⟩) | ⟨_, _, mem⟩) | mem <;> cases mem <;>
    exact inside (by dsimp only; omega) (by dsimp only; omega)

theorem relocate_values : (pa.relocate arg).values mem' = pa.values mem := by
  obtain ⟨subject, reply, sid, whole⟩ := copied.lengths
  have read := copied.read
  have valid := copied.valid
  have atSubject := @read_clone mem mem' arg [] _ pa.subject 0 _ read valid rfl rfl
  have atReply := @map_read_clone mem mem' arg (textOf mem pa.subject) _ pa.reply _ _ read valid
    rfl rfl
  have atSid := @map_read_clone mem mem' arg (textOf mem pa.subject ++ textOf mem pa.reply)
    (textOf mem pa.szb) pa.sid _ _ (by rw [read, append_assoc]) valid rfl rfl
  have atSzb := @read_clone mem mem' arg
    (textOf mem pa.subject ++ (textOf mem pa.reply ++ textOf mem pa.sid)) [] pa.szb _ arg.len
    (by rw [read, append_nil, append_assoc, append_assoc]) valid rfl
    (by rw [whole]; simp only [length_append]; omega)
  simp only [length_append, Nat.zero_add, ← Nat.add_assoc] at atSubject atReply atSid atSzb
  simp only [PubArg.values, PubArg.relocate, subject, reply, sid, atReply, atSid]
  simp only [textOf, Option.map_some, Option.getD_some] at atSubject atSzb ⊢
  rw [atSubject, atSzb]

end

/-- `clonePubArg` moves the header out of the read buffer. -/
theorem clonePubArg_follows {i : Int} {pa : PubValues} {got : Bytes} (memory : Memory c)
    (argBuf : c.argBuf = none) (follows : MsgFollows c i pa got) :
    MsgFollows (clonePubArg cfg c) i pa got ∧
      (c.pa.sid = none → (clonePubArg cfg c).pa.sid = none) := by
  obtain ⟨msgBuf, inBuf⟩ := follows.header.unsplit argBuf
  have exist : readBuf < c.mem.arrays.length := by
    have := memory.arrays
    unfold readBuf
    omega
  have owned : Owned c.mem (some scratchStart) := owned_scratch memory _ (by decide)
  have fields : ∀ s ∈ [c.pa.subject, c.pa.reply, c.pa.sid, c.pa.szb], ∀ t, s = some t →
      t ∈ c.pa.slices := by
    rintro _ mem t rfl
    simp only [mem_cons, not_mem_nil, or_false] at mem
    simp only [PubArg.slices, mem_append, Option.mem_toList]
    tauto
  obtain ⟨copy, place⟩ := @foldl_appendText_read cfg
    [c.pa.subject, c.pa.reply, c.pa.sid, c.pa.szb] (c.mem, scratchStart) exist owned
    fun s mem t eq => inBuf t (fields s mem t eq)
  obtain ⟨kept, owned'⟩ := foldl_appendText_kept cfg
    [c.pa.subject, c.pa.reply, c.pa.sid, c.pa.szb] (c.mem, scratchStart) exist owned
  obtain ⟨-, buf⟩ := clonePubArg_memory cfg memory
  unfold clonePubArg at buf ⊢
  generalize [c.pa.subject, c.pa.reply, c.pa.sid, c.pa.szb].foldl (appendText cfg)
    (c.mem, scratchStart) = held at copy place kept owned' buf ⊢
  obtain ⟨mem, arg⟩ := held
  have valid := (owned' arg rfl).1
  have copied : Copied c.pa c.mem mem arg :=
    ⟨valid, follows.header.valid, by simpa [Heap.read, scratchStart] using copy⟩
  have slices := relocate_slices copied
  refine ⟨⟨follows.state, ?_, ⟨?_, (by rintro ⟨⟩), ?_, ?_⟩, ?_, follows.small, ?_, ?_, follows.partly,
    follows.ended⟩, ?_⟩
  · rintro _ ⟨⟩ isScratch
    exact place (fun _ => rfl) isScratch
  · exact fun s mem => valid_inside (slices s mem) valid
  · rintro _ ⟨⟩ s mem
    exact slices s mem
  · intro _ m _ held
    rw [show c.msgBuf = some m from held] at msgBuf
    cases msgBuf
  · exact (relocate_values copied).trans follows.values
  · intro _
    have text := follows.unsplit msgBuf
    unfold consumed at text ⊢
    dsimp only at buf ⊢
    rw [buf]
    exact text
  · intro m held
    rw [show c.msgBuf = some m from held] at msgBuf
    cases msgBuf
  · intro none
    simp [PubArg.relocate, none]

end Clone

section Boundary

variable {cfg : ParserConfig} {c : ParseState} {i : Int}

/-- At the end of the buffer all of it has been taken. -/
theorem consumed_all (shape : Shape c i) (past : c.buf.length ≤ i) :
    consumed c i = c.buf.length := by
  unfold consumed
  rcases shape.placed with ⟨state, _, _, _, inside⟩ | ⟨state, _, _, _, inside⟩ |
    ⟨state, _, _, _, split⟩ | ⟨state, _, _, _, inside⟩
  · rw [if_neg fun both => (PState.isWord_ne state).1 both.1]
    omega
  · rw [if_neg fun both => (PState.isArg_ne state).1 both.1]
    omega
  · cases msgBuf : c.msgBuf with
    | none =>
      rw [if_pos ⟨state, rfl⟩]
      omega
    | some m =>
      rw [if_neg fun both => Option.some_ne_none m both.2]
      have := (split m msgBuf).2.2
      omega
  · rw [if_neg fun both => by rw [state] at both; exact PState.noConfusion both.1]
    omega

/-- A message held in `msgBuf` is there in the next read. -/
theorem resumes_message {pa : PubValues} {m : Slice} (memory : Memory c)
    (msgBuf : c.msgBuf = some m) (sid : cfg.typ = .client → c.pa.sid = none)
    (follows : MsgFollows c i pa got) : Resumes cfg c (.payload pa got) := by
  intro buf
  have away := (memory.msgBuf m msgBuf).2
  have headerAway : ∀ s ∈ c.pa.slices, s.arr ≠ readBuf := by
    intro s mem
    cases argBuf : c.argBuf with
    | none =>
      rw [(follows.header.unsplit argBuf).1] at msgBuf
      cases msgBuf
    | some arg =>
      rw [(follows.header.split arg argBuf s mem).1]
      exact (memory.argBuf arg argBuf).2
  refine ⟨sid, follows.state, follows.place, ⟨?_, ?_, ?_, ?_⟩, ?_, follows.small, ?_, ?_,
    follows.partly, follows.ended⟩
  · exact fun s mem => valid_load buf (headerAway s mem) (follows.header.valid s mem)
  · exact follows.header.unsplit
  · exact follows.header.split
  · exact follows.header.apart
  · rw [← follows.values]
    exact values_congr fun s mem => read_load buf (headerAway s mem)
  · intro gone
    rw [show c.msgBuf = none from gone] at msgBuf
    cases msgBuf
  · intro m' held
    rw [show c.msgBuf = some m' from held] at msgBuf
    cases msgBuf
    rw [read_load buf away]
    exact follows.split m held

/-- The rest of the buffer is held as the message read so far. -/
theorem holdMsg_resumes {pa : PubValues} (calls : List Call)
    (memory : Memory c) (argBuf : c.argBuf = some arg) (msgBuf : c.msgBuf = none)
    (size : 0 ≤ c.pa.size ∧ c.pa.size < 2 ^ 63) (bounds : 0 ≤ c.as ∧ c.as ≤ c.buf.length)
    (all : consumed c i = c.buf.length) (sid : cfg.typ = .client → c.pa.sid = none)
    (follows : MsgFollows c i pa got) :
    ∃ c', holdMsg cfg c calls = .ok c' calls ∧ Resumes cfg c' (.payload pa got) := by
  have sizes : pa.size = c.pa.size := by rw [← follows.values]; rfl
  have small := follows.small
  have text : got = c.buf.drop c.as.toNat := by
    rw [follows.unsplit msgBuf, all, slice, take_length]
  have length : (got.length : Int) = c.buf.length - c.as := by
    rw [text, length_drop]
    omega
  have short : (got.length : Int) ≤ c.pa.size + 1 := by
    rcases follows.state with state | state
    · have := follows.partly state
      omega
    · have := follows.ended state
      omega
  have scratchOff := follows.place arg argBuf
  rcases holdMsg_cases cfg calls memory argBuf size bounds with
    ⟨long, -⟩ | ⟨mem, m, held, kept, owned, -, -, read, place, frame⟩
  · unfold maxAlloc at small
    unfold lenCrLf at long
    rw [wrap64_of_bounds (by omega) (by omega)] at long
    omega
  · refine ⟨_, held, ?_⟩
    have before : ∀ s ∈ c.pa.slices, s.arr = scratch → s.off + s.len ≤ arg.len := by
      intro s inSlices isScratch
      obtain ⟨arr, -, last, -⟩ := follows.header.split arg argBuf s inSlices
      have := scratchOff (arr.symm.trans isScratch)
      omega
    have updated := @Memory.update c { c with mem := mem, msgBuf := some m } memory kept
      (memory.argBuf.kept kept) owned
    refine resumes_message (i := i) updated.1 rfl sid ⟨follows.state, follows.place,
      ⟨?_, ?_, follows.header.split, ?_⟩, ?_, follows.small, (by rintro ⟨⟩), ?_, follows.partly, ?_⟩
    · exact fun s inSlices => kept.valid (follows.header.valid s inSlices)
    · intro none
      rw [show c.argBuf = _ from none] at argBuf
      cases argBuf
    · rintro arg' _ argBuf' ⟨⟩ same
      rw [show c.argBuf = some arg' from argBuf'] at argBuf
      cases argBuf
      rcases place with ⟨isScratch, off⟩ | fresh
      · have := scratchOff (same.symm.trans isScratch)
        omega
      · have := (memory.argBuf arg argBuf').1.1
        omega
    · rw [← follows.values]
      exact values_congr fun s inSlices =>
        frame s (follows.header.valid s inSlices) (before s inSlices)
    · rintro _ ⟨⟩
      rw [read, text]
    · intro state
      rcases follows.ended state with whole | ⟨part, -⟩
      · exact Or.inl whole
      · exact Or.inr ⟨part, (by rintro ⟨⟩)⟩

theorem splitMsg_resumes {pa : PubValues} (calls : List Call) (shape : Shape c i)
    (past : c.buf.length ≤ i) (sid : cfg.typ = .client → c.pa.sid = none)
    (follows : MsgFollows c i pa got) :
    ∃ c', splitMsg cfg c calls = .ok c' calls ∧ Resumes cfg c' (.payload pa got) := by
  have all := consumed_all shape past
  unfold splitMsg
  cases msgBuf : c.msgBuf with
  | some m =>
    rw [if_neg (by simp)]
    exact ⟨c, rfl, resumes_message shape.memory msgBuf sid follows⟩
  | none =>
    obtain ⟨size, bounds⟩ : (0 ≤ c.pa.size ∧ c.pa.size < 2 ^ 63) ∧
        (0 ≤ c.as ∧ c.as ≤ c.buf.length) := by
      rcases follows.state with state | state
      · obtain ⟨-, size, unsplit, -⟩ := shape.placed.inPayload state
        exact ⟨size, (unsplit msgBuf).1, (unsplit msgBuf).2.1⟩
      · obtain ⟨-, size, unsplit⟩ := shape.placed.inEnd state
        exact ⟨size, (unsplit msgBuf).1, (unsplit msgBuf).2.1⟩
    rw [if_pos ⟨follows.state, rfl⟩]
    cases argBuf : c.argBuf with
    | some arg =>
      rw [if_neg (by simp)]
      exact holdMsg_resumes calls shape.memory argBuf msgBuf size bounds all sid follows
    | none =>
      rw [if_pos rfl]
      obtain ⟨memory, buf⟩ := clonePubArg_memory cfg shape.memory
      obtain ⟨cloned, noSid⟩ := @clonePubArg_follows cfg c i pa got shape.memory argBuf follows
      refine holdMsg_resumes (i := i) calls memory rfl msgBuf size ?_ ?_
        (fun client => noSid (sid client)) cloned
      · rw [buf]
        exact bounds
      · unfold consumed at all ⊢
        rw [buf]
        exact all

/-- An argument held in `argBuf` is there in the next read. -/
theorem resumes_arg {bytes : Bytes} {ended : Bool} (memory : Memory c)
    (argBuf : c.argBuf = some arg) (sid : cfg.typ = .client → c.pa.sid = none)
    (follows : ArgFollows cfg c i bytes ended) : Resumes cfg c (.arg c.state bytes ended) := by
  intro buf
  refine ⟨sid, rfl, follows.state, follows.place, follows.drop, follows.short, ?_, ?_⟩
  · intro none
    rw [show c.argBuf = _ from none] at argBuf
    cases argBuf
  · intro held eq
    rw [read_load buf (memory.argBuf held eq).2]
    exact follows.split held eq

theorem splitArg_resumes {bytes : Bytes} {ended : Bool} (calls : List Call) (shape : Shape c i)
    (past : c.buf.length ≤ i) (sid : cfg.typ = .client → c.pa.sid = none)
    (follows : ArgFollows cfg c i bytes ended) :
    ∃ c', splitBuffer cfg i c calls = .ok c' calls ∧ Resumes cfg c' (.arg c.state bytes ended) := by
  have state := follows.state
  have inside : i ≤ c.buf.length := by
    have all := consumed_all shape past
    rw [consumed_other (Or.inl (PState.isArg_ne state).1)] at all
    omega
  have short := follows.short
  unfold splitBuffer
  rw [if_pos state]
  cases argBuf : c.argBuf with
  | some arg =>
    have len : arg.len = bytes.length := by
      rw [← follows.split arg argBuf, Heap.read_length (shape.memory.argBuf arg argBuf).1]
    dsimp only
    rw [if_neg (by omega), splitMsg_other cfg calls (PState.isArg_ne state).1 (PState.isArg_ne state).2]
    exact ⟨c, rfl, resumes_arg shape.memory argBuf sid follows⟩
  | none =>
    obtain ⟨msgBuf, drop, started⟩ := shape.placed.inArg state
    obtain ⟨first, behind⟩ := started argBuf
    have bound := shape.memory.short
    have low := shape.index.1
    obtain ⟨text, taken⟩ : ∃ text, argAt i c = some text := by
      unfold argAt
      rw [argBuf]
      dsimp only
      rw [wrap64_of_bounds (by omega) (by omega)]
      exact bufSlice_some first (by omega) (by omega)
    have read := read_argAt shape inside follows taken
    have unsplit : c.bufSlice c.as (wrap64 (i - c.drop)) = some text := by
      unfold argAt at taken
      rw [argBuf] at taken
      exact taken
    have owned : Owned c.mem (some scratchStart) := owned_scratch shape.memory _ (by decide)
    have exist : readBuf < c.mem.arrays.length := by
      have := shape.memory.arrays
      unfold readBuf
      omega
    obtain ⟨valid, other⟩ := owned _ rfl
    have kept := Kept.append cfg.grow bytes valid other
    have owned' := owned.append cfg.grow bytes exist
    have moved := Heap.append_arr c.mem cfg.grow 0 scratchStart bytes
    have read' : (c.mem.append cfg.grow 0 scratchStart bytes).1.read
        (c.mem.append cfg.grow 0 scratchStart bytes).2 = bytes := by
      rw [Heap.read_append valid]
      simp [Heap.read, scratchStart]
    have len : (c.mem.append cfg.grow 0 scratchStart bytes).2.len = bytes.length := by
      rw [Heap.append_len valid]
      exact Nat.zero_add _
    dsimp only
    rw [unsplit]
    dsimp only
    rw [read]
    generalize c.mem.append cfg.grow 0 scratchStart bytes = held at kept owned' moved read' len ⊢
    have updated := @Memory.update c { c with argBuf := some held.2, mem := held.1 } shape.memory
      kept owned' (shape.memory.msgBuf.kept kept)
    rw [if_neg (by omega), splitMsg_other]
    · refine ⟨_, rfl, resumes_arg (i := i) updated.1 rfl sid
        ⟨state, ?_, follows.drop, short, (by rintro ⟨⟩), ?_⟩⟩
      · rintro _ ⟨⟩ -
        rcases moved with ⟨-, off⟩ | ⟨-, off⟩ <;> exact off
      · rintro _ ⟨⟩
        exact read'
    · exact (PState.isArg_ne state).1
    · exact (PState.isArg_ne state).2

theorem splitBuffer_resumes (calls : List Call) (shape : Shape c i)
    (past : c.buf.length ≤ i) (follows : Follows cfg c i a) :
    ∃ c', splitBuffer cfg i c calls = .ok c' calls ∧ Resumes cfg c' a := by
  obtain ⟨sid, follows⟩ := follows
  cases a with
  | word s =>
    obtain ⟨rfl, word⟩ := follows
    have notArg : ¬ c.state.isArg := by
      simp only [PState.isWord, Bool.and_eq_true, Bool.not_eq_true'] at word
      simp [word.1.1]
    unfold splitBuffer
    rw [if_neg notArg, splitMsg_other cfg calls (PState.isWord_ne word).1 (PState.isWord_ne word).2]
    exact ⟨c, rfl, fun buf => ⟨sid, rfl, word⟩⟩
  | arg s bytes ended =>
    obtain ⟨rfl, follows⟩ := follows
    exact splitArg_resumes calls shape past sid follows
  | payload pa got =>
    have notArg : ¬ c.state.isArg := by
      rcases MsgFollows.state follows with state | state <;> rw [state] <;> decide
    unfold splitBuffer
    rw [if_neg notArg]
    exact splitMsg_resumes calls shape past sid follows

end Boundary

section Runs

variable {cfg : ParserConfig}

/-- An accepted stream states sizes that fit. -/
theorem follows_headerFits {c : ParseState} {i : Int} {last : Scan} {calls : List Call}
    (shape : Shape c i) (big : c.buf.length ≤ maxAlloc) (follows : Follows cfg c i a)
    (scans : Scans (scanStep cfg) a (c.buf.drop (consumed c i)) calls last) {b : UInt8}
    (byte : c.byteAt i = some b) : HeaderFits cfg i b c := by
  rintro rfl arg n taken stated
  obtain ⟨low, rest⟩ := drop_byteAt byte
  have inside := byteAt_lt byte
  have valid := valid_argAt shape.memory taken
  have state : c.state.isArg := by
    rcases statedSize_cases valid stated with ⟨state, -⟩ | ⟨state, -⟩ <;> rw [state] <;> rfl
  suffices small : n ≤ maxAlloc by
    unfold maxAlloc at small big
    unfold jump
    split_ifs <;> omega
  cases a with
  | word s =>
    obtain ⟨-, rfl, word⟩ := follows
    simp [PState.isWord, state] at word
  | payload pa got =>
    rcases MsgFollows.state follows.2 with other | other <;> rw [other] at state <;>
      exact absurd state (by decide)
  | arg s bytes ended =>
    obtain ⟨-, rfl, follows⟩ := follows
    have text := read_argAt shape (Int.le_of_lt inside) follows taken
    rw [consumed_other (Or.inl (PState.isArg_ne state).1), rest] at scans
    obtain ⟨a, emitted, out, stepped, -, -⟩ := scans.cons_inv
    change scanArgByte cfg c.state bytes ended lf = _ at stepped
    rw [scanArgByte, if_neg (by decide), if_pos rfl] at stepped
    split_ifs at stepped with closed
    unfold statedSize at stated
    rw [text] at stated
    dsimp only at stated
    unfold scanArg at stepped
    split at stated
    · rename_i pub
      rw [pub] at stepped
      dsimp only at stepped
      split_ifs at stepped
      obtain ⟨v, header, small, -, -⟩ := scanHeader_some stepped
      rw [header] at stated
      cases stated
      exact small
    · rename_i msg
      rw [msg] at stepped
      dsimp only at stepped
      split_ifs at stepped
      obtain ⟨v, header, small, -, -⟩ := scanHeader_some stepped
      rw [header] at stated
      cases stated
      exact small
    · cases stated

theorem parseStep_follows {c : ParseState} {i : Int} {b : UInt8} {last : Scan}
    {calls : List Call} (shape : Shape c i) (inside : i < c.buf.length)
    (big : c.buf.length ≤ maxAlloc) (follows : Follows cfg c i a) (byte : c.byteAt i = some b)
    (scans : Scans (scanStep cfg) a (c.buf.drop (consumed c i)) calls last) :
    (parseStep cfg false false i b c).Follows cfg last calls := by
  cases a with
  | word s =>
    obtain ⟨sid, rfl, word⟩ := follows
    exact word_follows false shape inside word sid byte scans
  | arg s bytes ended =>
    obtain ⟨sid, rfl, argFollows⟩ := follows
    exact arg_follows shape inside big ⟨sid, rfl, argFollows⟩ byte scans
  | payload pa got =>
    rcases MsgFollows.state follows.2 with state | state
    · have step := payload_follows shape inside follows state byte scans
      simpa only [parseStep, state] using step
    · have step := end_follows shape inside follows state byte scans
      simpa only [parseStep, state] using step

/-- The loop on a buffer the machine accepts. -/
theorem parseLoop_follows {fuel : Nat} {s : LoopState} {a last : Scan} {calls : List Call}
    (shape : Shape s.c s.i) (enough : remaining s < fuel) (big : s.c.buf.length ≤ maxAlloc)
    (quiet : s.authSet = false) (follows : Follows cfg s.c s.i a)
    (scans : Scans (scanStep cfg) a (s.c.buf.drop (consumed s.c s.i)) calls last) :
    ∃ c', parseLoop cfg .quiet fuel s = .ok c' (s.calls ++ calls) ∧ Resumes cfg c' last := by
  induction fuel generalizing s a calls with
  | zero => omega
  | succ fuel ih =>
    have round := loopStep_fine cfg .quiet shape fun b byte =>
      follows_headerFits shape big follows scans byte
    unfold parseLoop
    by_cases inside : s.i < s.c.buf.length
    · obtain ⟨b, byte⟩ := byteAt_inside shape.index.1 inside
      have step := parseStep_follows shape inside big follows byte scans
      have fine : (parseStep cfg false false s.i b s.c).Fine s.c s.i :=
        parseStep_fine shape inside (follows_headerFits shape big follows scans byte)
      unfold loopStep at round ⊢
      rw [if_pos inside, byte] at round ⊢
      dsimp only [Env.quiet] at round ⊢
      rw [quiet] at round ⊢
      cases stepped : parseStep cfg false false s.i b s.c with
      | panic =>
        rw [stepped] at step
        exact step.elim
      | fail e =>
        rw [stepped] at step
        exact step.elim
      | next i c call =>
        rw [stepped] at step round fine
        obtain ⟨a', rest, follows', scans', rfl⟩ := step
        obtain ⟨-, buf, -⟩ := fine
        cases call with
        | none =>
          exact ih round.1 (by omega) (by dsimp only; rw [buf]; exact big) rfl follows' scans'
        | some call =>
          obtain ⟨c', ok, resumes⟩ := ih round.1 (by omega) (by dsimp only; rw [buf]; exact big)
            (by dsimp only; split_ifs <;> rfl) follows' scans'
          refine ⟨c', ok.trans ?_, resumes⟩
          rw [append_assoc]
          rfl
    · have all := consumed_all shape (by omega)
      rw [all, drop_length] at scans
      obtain ⟨rfl, rfl⟩ := scans.nil_inv
      obtain ⟨c', ok, resumes⟩ := splitBuffer_resumes s.calls shape (by omega) follows
      refine ⟨c', ?_, resumes⟩
      unfold loopStep
      rw [if_neg inside, append_nil]
      exact ok

/-- A read begins with nothing taken. -/
theorem consumed_start {c : ParseState} {buf : Bytes} (between : Between c) :
    consumed (c.load buf) 0 = 0 := by
  unfold consumed
  split_ifs with unsplit
  · -- also an empty read would be resumed, so nothing of this one is skipped
    have shape := between [] (by decide)
    have empty : (c.load []).buf = [] := by
      apply buf_load
      simpa [ParseState.load] using shape.memory.arrays
    obtain ⟨-, -, bounds, -⟩ := shape.placed.inPayload unsplit.1
    have := bounds unsplit.2
    rw [empty] at this
    have same : (c.load buf).as = (c.load []).as := rfl
    simp only [length_nil] at this
    omega
  · rfl

theorem parse_follows {buf : Bytes} {c : ParseState} {a last : Scan} {calls : List Call}
    (between : Between c) (resumes : Resumes cfg c a) (big : buf.length ≤ maxAlloc)
    (scans : Scans (scanStep cfg) a buf calls last) :
    ∃ c', parse cfg .quiet buf c = .ok c' calls ∧ Between c' ∧ Resumes cfg c' last := by
  have short : buf.length < 2 ^ 63 := by
    unfold maxAlloc at big
    omega
  have loaded : (c.load buf).buf = buf := by
    apply buf_load
    simpa [ParseState.load] using (between buf short).memory.arrays
  have start : consumed (c.load buf) 0 = 0 := consumed_start between
  have quiet : (loopStart .quiet buf c).c = c.load buf := rfl
  obtain ⟨c', ok, resumes'⟩ := @parseLoop_follows cfg _ (loopStart .quiet buf c) a last calls
    (between buf short) (remaining_between .quiet between short) (by rw [quiet, loaded]; exact big)
    rfl (resumes buf) (by rw [quiet, loaded]; exact start ▸ scans)
  exact ⟨c', ok, parse_between cfg between short ok, resumes'⟩

/-- However an accepted stream is cut, no call of `parse` fails and the calls are the
machine's. -/
theorem feed_follows {bufs : List Bytes} {c : ParseState} {a last : Scan} {calls made : List Call}
    (between : Between c) (resumes : Resumes cfg c a) (big : ∀ buf ∈ bufs, buf.length ≤ maxAlloc)
    (scans : Scans (scanStep cfg) a bufs.flatten calls last) :
    ∃ c', feed cfg (bufs.map (Env.quiet, ·)) c made = .ok c' (made ++ calls) ∧
      Resumes cfg c' last := by
  induction bufs generalizing c a calls made with
  | nil =>
    obtain ⟨rfl, rfl⟩ := scans.nil_inv
    exact ⟨c, by simp [feed], resumes⟩
  | cons buf bufs ih =>
    rw [flatten_cons] at scans
    obtain ⟨mid, first, second, rfl, scansBuf, scansRest⟩ := scans.append_inv
    obtain ⟨c₁, ok, between₁, resumes₁⟩ :=
      parse_follows between resumes (big buf mem_cons_self) scansBuf
    obtain ⟨c', fed, resumes'⟩ := ih between₁ resumes₁
      (fun buf' mem => big buf' (mem_cons_of_mem _ mem)) scansRest
    refine ⟨c', ?_, resumes'⟩
    rw [map_cons, feed, ok]
    dsimp only
    rw [fed, append_assoc]

end Runs

end Hnatsd.Server
