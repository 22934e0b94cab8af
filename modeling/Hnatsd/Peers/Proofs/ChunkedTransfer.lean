import Hnatsd.Peers.SendFile

/-!
# Chunked transfer

The checksum of all bytes up to a chunk's end ties each chunk to one front part of the file, and the
last chunk to the whole of it. Whatever happens to the data of the chunks and to their order, bytes
that reach the decoder are the file.
-/

namespace Hnatsd.Peers
open Misc List

section Chunks

variable (blake2b : Bytes → Bytes) (env : ClientEnv) (f : FileToSend)

theorem FileToSend.numChunk_spec (positive : 0 < f.maxChunkSize) :
    f.data.length ≤ f.numChunk * f.maxChunkSize ∧
      ∀ i, i < f.numChunk → i * f.maxChunkSize < f.data.length := by
  have division := Nat.div_add_mod f.data.length f.maxChunkSize
  have small := Nat.mod_lt f.data.length positive
  have atMost : f.numChunk * f.maxChunkSize < f.data.length + f.maxChunkSize ∧
      f.data.length ≤ f.numChunk * f.maxChunkSize := by
    unfold FileToSend.numChunk
    rw [Nat.mul_comm] at division
    split_ifs with rest
    · rw [Nat.add_mul, Nat.one_mul]
      omega
    · omega
  refine ⟨atMost.2, fun i inside => ?_⟩
  have before : (i + 1) * f.maxChunkSize ≤ f.numChunk * f.maxChunkSize :=
    Nat.mul_le_mul_right _ inside
  rw [Nat.add_mul, Nat.one_mul] at before
  omega

/-- The bytes in front of chunk `i` have been hashed, and the next chunk starts behind them. -/
structure SendLoop.At (s : SendLoop) (i : Nat) : Prop where
  index : s.i = i
  hasher : s.hasher = f.data.take (i * f.maxChunkSize)
  nextByte : i < f.numChunk → s.nextByte = i * f.maxChunkSize

/-- A chunk as `runSendFile` makes it; `upTo` is where it ends in the file. -/
structure BigFileChunk.Of (nk : BigFileChunk) (upTo : Nat) : Prop where
  filepath : nk.filepath = f.path
  isBcastSet : nk.isBcastSet = f.isBcastSet
  cumulative : nk.blake2BCumulative = blake2b (f.data.take upTo)
  last : nk.isLastChunk = true → f.data.take upTo = f.data

variable {f}

theorem makeChunk_spec (positive : 0 < f.maxChunkSize) {s : SendLoop} {i : Nat} (at_i : s.At f i)
    (inside : i < f.numChunk) :
    let nk := (makeChunk blake2b env f s).1
    nk.Of blake2b f ((i + 1) * f.maxChunkSize) ∧
      (makeChunk blake2b env f s).2.At f (i + 1) ∧
      f.data.take (i * f.maxChunkSize) ++ nk.data = f.data.take ((i + 1) * f.maxChunkSize) ∧
      (nk.isLastChunk = true ↔ i + 1 = f.numChunk) ∧
      nk.sizeInBytes = nk.data.length ∧ blake2b nk.data = nk.blake2B := by
  obtain ⟨covers, before⟩ := f.numChunk_spec positive
  have starts := before i inside
  have next : (i + 1) * f.maxChunkSize = i * f.maxChunkSize + f.maxChunkSize := by
    rw [Nat.add_mul, Nat.one_mul]
  -- the chunk reaches to the start of the next one, or to the end of the file
  have joined : f.data.take (i * f.maxChunkSize) ++ (f.data.drop (i * f.maxChunkSize)).take
      (min f.maxChunkSize (f.data.length - i * f.maxChunkSize)) =
        f.data.take ((i + 1) * f.maxChunkSize) := by
    rw [← take_add, take_eq_take_iff]
    omega
  have isLast : (makeChunk blake2b env f s).1.isLastChunk = true ↔ i + 1 = f.numChunk := by
    show decide ((s.i : Int) = (f.numChunk : Int) - 1) = true ↔ _
    rw [decide_eq_true_iff, at_i.index]
    omega
  intro nk
  refine ⟨⟨rfl, rfl, ?_, fun last => ?_⟩, ⟨?_, ?_, fun more => ?_⟩, ?_, isLast, ?_, rfl⟩
  · simp only [nk, makeChunk, at_i.index, at_i.hasher, at_i.nextByte inside, joined]
  · rw [isLast.mp last]
    exact take_of_length_le covers
  · simp only [makeChunk, at_i.index]
  · simp only [makeChunk, at_i.index, at_i.hasher, at_i.nextByte inside, joined]
  · have starts' := before (i + 1) more
    simp only [makeChunk, at_i.index, at_i.nextByte inside]
    omega
  · simp only [nk, makeChunk, at_i.index, at_i.nextByte inside, joined]
  · simp only [nk, makeChunk, at_i.index, at_i.nextByte inside, length_take, length_drop]
    omega

/-- All chunks of the loop are of the file. -/
theorem sendChunks_of (positive : 0 < f.maxChunkSize) (left i : Nat) (s : SendLoop)
    (at_i : s.At f i) (all : i + left = f.numChunk) :
    ∀ nk ∈ (sendChunks blake2b env f left s).1, ∃ upTo, nk.Of blake2b f upTo := by
  induction left generalizing i s with
  | zero => exact fun _ mem => absurd mem not_mem_nil
  | succ left ih =>
    obtain ⟨isOf, at_next, -⟩ := makeChunk_spec blake2b env positive at_i (by omega)
    have rest := ih (i + 1) _ at_next (by omega)
    intro nk mem
    simp only [sendChunks] at mem
    split at mem
    · rcases mem_cons.mp mem with rfl | later
      · exact ⟨_, isOf⟩
      · exact rest nk later
    · split_ifs at mem <;> exact absurd mem not_mem_nil
    · exact absurd mem not_mem_nil

theorem sendLoop_start (f : FileToSend) : SendLoop.At f {} 0 :=
  ⟨rfl, by simp, by simp⟩

end Chunks

section Receiving

variable {blake2b : Bytes → Bytes} {unmarshal : Bool → Bytes → Option Bytes} {f : FileToSend}

namespace Receiving

/-- The variables once a chunk has passed the checks. -/
def keep (s : Receiving) (nk : BigFileChunk) : Receiving :=
  let s := { s.start nk with hasher := (s.start nk).hasher ++ nk.data }
  { s.name nk with
    bytesSeen := (s.name nk).bytesSeen + nk.data.length
    chunkCount := (s.name nk).chunkCount + 1
    allChunks := (s.name nk).allChunks ++ nk.data }

section

variable (s : Receiving)
include s

theorem start_eq (nk : BigFileChunk) :
    s.start nk = { s with
      isBcastSet := if s.firstChunkSeen then s.isBcastSet else nk.isBcastSet
      firstChunkSeen := true } := by
  unfold start
  cases seen : s.firstChunkSeen
  · rfl
  · rw [if_pos rfl, if_pos rfl, ← seen]

theorem name_eq (nk : BigFileChunk) :
    s.name nk = { s with path := if s.path = [] then nk.filepath else s.path } := by
  unfold name
  split_ifs <;> rfl

theorem keep_eq (nk : BigFileChunk) :
    s.keep nk = {
      chunkCount := s.chunkCount + 1
      path := if s.path = [] then nk.filepath else s.path
      hasher := s.hasher ++ nk.data
      bytesSeen := s.bytesSeen + nk.data.length
      isBcastSet := if s.firstChunkSeen then s.isBcastSet else nk.isBcastSet
      firstChunkSeen := true
      allChunks := s.allChunks ++ nk.data } := by
  simp only [keep, start_eq, name_eq]

theorem keep_hasher (nk : BigFileChunk) :
    (s.keep nk).hasher = s.hasher ++ nk.data := by rw [keep_eq]

theorem keep_seen (nk : BigFileChunk) :
    (s.keep nk).firstChunkSeen = true := by rw [keep_eq]

end

/-- The checks on a chunk. -/
structure Passes (blake2b : Bytes → Bytes) (s : Receiving) (nk : BigFileChunk) : Prop where
  cumulative : blake2b (s.hasher ++ nk.data) = nk.blake2BCumulative
  path : s.path = [] ∨ s.path = nk.filepath
  size : nk.sizeInBytes = nk.data.length
  checksum : blake2b nk.data = nk.blake2B

end Receiving

/-- A chunk that does not pass ends the call without decoding; one that passes is kept, and the last
one is decoded with all before it. -/
theorem recvChunk_cases (s : Receiving) (nk : BigFileChunk) :
    (¬s.Passes blake2b nk ∧ ∃ r, recvChunk blake2b unmarshal s nk = .error r ∧ r.decoded = []) ∨
    (s.Passes blake2b nk ∧ nk.isLastChunk = false ∧
      recvChunk blake2b unmarshal s nk = .ok (s.keep nk)) ∨
    (s.Passes blake2b nk ∧ nk.isLastChunk = true ∧ ∃ r,
      recvChunk blake2b unmarshal s nk = .error r ∧ r.vars = s.keep nk ∧
      r.decoded = [((s.keep nk).isBcastSet, (s.keep nk).allChunks)]) := by
  have hashed : (s.start nk).hasher = s.hasher := by rw [Receiving.start_eq]
  have named : (Receiving.name { s.start nk with hasher := (s.start nk).hasher ++ nk.data } nk).path =
      if s.path = [] then nk.filepath else s.path := by
    rw [Receiving.name_eq, Receiving.start_eq]
  have onePath : (s.path = [] ∨ s.path = nk.filepath) ↔
      ¬((if s.path = [] then nk.filepath else s.path) ≠ [] ∧
        (if s.path = [] then nk.filepath else s.path) ≠ nk.filepath) := by
    by_cases none' : s.path = [] <;> simp [none']
  unfold recvChunk
  dsimp only
  split_ifs with cumulative paths size checksum last
  · exact Or.inl ⟨fun passes => cumulative (hashed ▸ passes.cumulative), _, rfl, rfl⟩
  · exact Or.inl ⟨fun passes => onePath.mp passes.path (named ▸ paths), _, rfl, rfl⟩
  · exact Or.inl ⟨fun passes => size passes.size, _, rfl, rfl⟩
  · exact Or.inl ⟨fun passes => checksum passes.checksum, _, rfl, rfl⟩
  all_goals
    have passes : s.Passes blake2b nk :=
      ⟨hashed ▸ not_ne_iff.mp cumulative, onePath.mpr (named ▸ paths), not_ne_iff.mp size,
        not_ne_iff.mp checksum⟩
  · exact Or.inr (Or.inr ⟨passes, last, _, rfl, rfl, rfl⟩)
  · exact Or.inr (Or.inl ⟨passes, Bool.eq_false_iff.mpr last, rfl⟩)

/-- What the chunks that have passed leave in the variables. -/
structure Receiving.Sound (f : FileToSend) (s : Receiving) : Prop where
  chunks : s.allChunks = s.hasher
  bytes : s.bytesSeen = s.hasher.length
  kind : s.firstChunkSeen = true → s.isBcastSet = f.isBcastSet
  path : s.path = [] ∨ s.path = f.path

theorem receiving_start (f : FileToSend) : Receiving.Sound f {} :=
  ⟨rfl, rfl, nofun, Or.inl rfl⟩

theorem Receiving.Sound.keep {s : Receiving} (sound : s.Sound f) {nk : BigFileChunk} {upTo : Nat}
    (isOf : nk.Of blake2b f upTo) : (s.keep nk).Sound f := by
  rw [Receiving.keep_eq]
  refine ⟨?_, ?_, fun _ => ?_, Or.inr ?_⟩
  · simp only [sound.chunks]
  · simp only [sound.bytes, length_append, Int.natCast_add]
  · cases seen : s.firstChunkSeen with
    | false => exact isOf.isBcastSet
    | true => exact sound.kind seen
  · rcases sound.path with none' | known
    · simp only [none', if_true, isOf.filepath]
    · simp only [known, isOf.filepath, ite_self]

/-- A last chunk that passes completes the file. -/
theorem Receiving.Passes.complete (injective : Function.Injective blake2b) {s : Receiving}
    {nk : BigFileChunk} {upTo : Nat} (passes : s.Passes blake2b nk) (isOf : nk.Of blake2b f upTo)
    (last : nk.isLastChunk = true) : s.hasher ++ nk.data = f.data :=
  (injective (passes.cumulative.trans isOf.cumulative)).trans (isOf.last last)

/-- Chunks of a file, whatever their data and their order, decode to the file or to nothing. -/
theorem recvLoop_decodes (injective : Function.Injective blake2b) (ending : Option Bytes)
    (received : List BigFileChunk) (areOf : ∀ nk ∈ received, ∃ upTo, nk.Of blake2b f upTo)
    (s : Receiving) (sound : s.Sound f) :
    (recvLoop blake2b unmarshal ending s received).decoded = [(f.isBcastSet, f.data)] ∨
      (recvLoop blake2b unmarshal ending s received).decoded = [] := by
  induction received generalizing s with
  | nil => exact Or.inr rfl
  | cons nk received ih =>
    obtain ⟨upTo, isOf⟩ := areOf nk (mem_cons_self ..)
    have kept := sound.keep isOf
    rcases @recvChunk_cases blake2b unmarshal s nk with
      ⟨-, r, ran, nothing⟩ | ⟨-, -, ran⟩ | ⟨passes, last, r, ran, -, decoded⟩
    · simp only [recvLoop, ran]
      exact Or.inr nothing
    · simp only [recvLoop, ran]
      exact ih (fun nk' mem => areOf nk' (mem_cons_of_mem _ mem)) _ kept
    · simp only [recvLoop, ran]
      rw [decoded, kept.kind (s.keep_seen nk), kept.chunks, s.keep_hasher nk,
        passes.complete injective isOf last]
      exact Or.inl rfl

section InOrder

variable {env : ClientEnv} (positive : 0 < f.maxChunkSize) {i : Nat} {loop : SendLoop}
  (at_i : loop.At f i) {s : Receiving} (sound : s.Sound f)
  (front : s.hasher = f.data.take (i * f.maxChunkSize))

include positive at_i sound front

/-- Behind those in front of it a chunk passes. -/
theorem passes_next (inside : i < f.numChunk) :
    s.Passes blake2b (makeChunk blake2b env f loop).1 ∧
      (s.keep (makeChunk blake2b env f loop).1).hasher = f.data.take ((i + 1) * f.maxChunkSize) := by
  obtain ⟨isOf, -, joined, -, size, checksum⟩ := makeChunk_spec blake2b env positive at_i inside
  have hasher : s.hasher ++ (makeChunk blake2b env f loop).1.data =
      f.data.take ((i + 1) * f.maxChunkSize) := by rw [front, joined]
  refine ⟨⟨?_, ?_, size, checksum⟩, ?_⟩
  · rw [hasher, isOf.cumulative]
  · rw [isOf.filepath]
    exact sound.path
  · rw [s.keep_hasher, hasher]

/-- The chunks from the `i`-th on, received in order behind those in front of them. -/
theorem recvLoop_sent (unmarshal : Bool → Bytes → Option Bytes) (ending : Option Bytes)
    (sends : ∀ i, env.send i = .sent) (left : Nat) (all : i + (left + 1) = f.numChunk) :
    let r := recvLoop blake2b unmarshal ending s (sendChunks blake2b env f (left + 1) loop).1
    r.decoded = [(f.isBcastSet, f.data)] ∧ r.vars.bytesSeen = f.data.length := by
  induction left generalizing i loop s with
  | zero =>
    have inside : i < f.numChunk := by omega
    obtain ⟨isOf, -, -, isLast, -⟩ := makeChunk_spec blake2b env positive at_i inside
    obtain ⟨passes, hasher⟩ := @passes_next blake2b f env positive i _ at_i s sound
      front inside
    have kept := sound.keep isOf
    have last := isLast.mpr (by omega)
    have sent : (sendChunks blake2b env f 1 loop).1 = [(makeChunk blake2b env f loop).1] := by
      simp only [sendChunks, sends]
    rw [isOf.last last] at hasher
    rcases @recvChunk_cases blake2b unmarshal s
      (makeChunk blake2b env f loop).1 with ⟨fails, -⟩ | ⟨-, notLast, -⟩ | ⟨-, -, r, ran, vars, decoded⟩
    · exact absurd passes fails
    · rw [last] at notLast
      cases notLast
    · simp only [sent, recvLoop, ran]
      rw [decoded, vars, kept.kind (s.keep_seen _), kept.chunks, kept.bytes, hasher]
      exact ⟨rfl, rfl⟩
  | succ left ih =>
    have inside : i < f.numChunk := by omega
    obtain ⟨isOf, at_next, -, isLast, -⟩ := makeChunk_spec blake2b env positive at_i inside
    obtain ⟨passes, hasher⟩ := @passes_next blake2b f env positive i _ at_i s sound
      front inside
    have sent : (sendChunks blake2b env f (left + 2) loop).1 = (makeChunk blake2b env f loop).1 ::
        (sendChunks blake2b env f (left + 1) (makeChunk blake2b env f loop).2).1 := by
      simp only [sendChunks, sends]
    rcases @recvChunk_cases blake2b unmarshal s
      (makeChunk blake2b env f loop).1 with ⟨fails, -⟩ | ⟨-, -, ran⟩ | ⟨-, last, -⟩
    · exact absurd passes fails
    · simp only [sent, recvLoop, ran]
      exact ih at_next (sound.keep isOf) hasher (by omega)
    · have := isLast.mp last
      omega

end InOrder

end Receiving

section Transfer

variable (blake2b : Bytes → Bytes) (unmarshal : Bool → Bytes → Option Bytes)
  (ending : Option Bytes) (env : ClientEnv) (f : FileToSend)

/-- The client's stream opens, and takes every chunk. -/
structure ClientEnv.Carries : Prop where
  opens : (List.range 6).any env.opens = true
  sends : ∀ i, env.send i = .sent

variable {env}

theorem sendChunks_panic (sends : ∀ i, env.send i = .sent) (left : Nat) (loop : SendLoop) :
    (sendChunks blake2b env f left loop).2 = none := by
  induction left generalizing loop with
  | zero => rfl
  | succ left ih => simp only [sendChunks, sends, ih]

theorem runSendFile_sent (carries : env.Carries) :
    (runSendFile blake2b env f).1 = (sendChunks blake2b env f f.numChunk {}).1 := by
  have calm := sendChunks_panic blake2b f carries.sends f.numChunk {}
  rw [runSendFile, if_pos carries.opens]
  generalize sendChunks blake2b env f f.numChunk {} = ran at calm ⊢
  obtain ⟨sent, panic⟩ := ran
  obtain rfl : panic = none := calm
  dsimp only
  cases env.closeAndRecv sent with
  | error text => rfl
  | ok reply =>
    dsimp only
    split_ifs <;> rfl

/-- The whole file arrives if its chunks do, in order and as they were sent. -/
theorem sendFile_sent (carries : env.Carries) (nonempty : f.data ≠ [])
    (positive : 0 < f.maxChunkSize) :
    let r := sendFile blake2b unmarshal ending (runSendFile blake2b env f).1
    r.decoded = [(f.isBcastSet, f.data)] ∧ r.vars.bytesSeen = f.data.length := by
  have some : 0 < f.numChunk := by
    have covers := (f.numChunk_spec positive).1
    have long := length_pos_of_ne_nil nonempty
    by_contra none'
    rw [Nat.eq_zero_of_not_pos none', Nat.zero_mul] at covers
    omega
  obtain ⟨left, count⟩ := Nat.exists_eq_add_of_lt some
  have all : 0 + (left + 1) = f.numChunk := by omega
  rw [runSendFile_sent blake2b f carries, show f.numChunk = left + 1 by omega]
  exact recvLoop_sent positive (sendLoop_start f) (receiving_start f) (by simp) unmarshal ending
    carries.sends left all

/-- A file that is not empty is decoded once when its chunks arrive as they were sent. Whatever is
dropped, repeated, moved or altered in its data, the server decodes this file or nothing. -/
theorem chunked_transfer (injective : Function.Injective blake2b) (carries : env.Carries)
    (nonempty : f.data ≠ []) (positive : 0 < f.maxChunkSize) :
    (sendFile blake2b unmarshal ending (runSendFile blake2b env f).1).decoded =
        [(f.isBcastSet, f.data)] ∧
      ∀ received : List BigFileChunk,
        (∀ nk ∈ received, ∃ nk' ∈ (runSendFile blake2b env f).1, ∃ data, nk = { nk' with data := data }) →
        (sendFile blake2b unmarshal ending received).decoded = [(f.isBcastSet, f.data)] ∨
          (sendFile blake2b unmarshal ending received).decoded = [] := by
  refine ⟨(sendFile_sent blake2b unmarshal ending f carries nonempty positive).1, ?_⟩
  intro received altered
  refine recvLoop_decodes injective ending received ?_ {} (receiving_start f)
  intro nk mem
  obtain ⟨nk', sent, data, rfl⟩ := altered nk mem
  rw [runSendFile_sent blake2b f carries] at sent
  obtain ⟨upTo, isOf⟩ := sendChunks_of blake2b env positive f.numChunk 0 {} (sendLoop_start f)
    (Nat.zero_add _) nk' sent
  -- none of the fields that count is the data
  exact ⟨upTo, isOf.filepath, isOf.isBcastSet, isOf.cumulative, isOf.last⟩

/-- Five bytes in chunks of two, with a hash that is injective. -/
theorem chunked_transfer_five :
    let env : ClientEnv := ⟨fun _ => true, fun n => n, fun _ => .sent, fun _ => .error []⟩
    let f : FileToSend := ⟨bytesOf "key", bytesOf "hello", 2, true⟩
    (runSendFile id env f).1.map BigFileChunk.data = [bytesOf "he", bytesOf "ll", bytesOf "o"] ∧
      (sendFile id (fun _ _ => none) none (runSendFile id env f).1).decoded =
        [(true, bytesOf "hello")] := by
  intro env f
  refine ⟨by decide, ?_⟩
  exact (chunked_transfer id (fun _ _ => none) none f Function.injective_id ⟨rfl, fun _ => rfl⟩
    (by decide) (by decide)).1

end Transfer

end Hnatsd.Peers
