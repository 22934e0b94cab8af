import Hnatsd.Server.Proofs.ParserSplit

/-!
# The parser reads back well-formed streams

How operations are written, independently of the parser: a keyword in either letter case, blanks,
tokens with blanks between them, the end of the line, and for messages the payload. Every stream of
them, cut into reads in any way, is read back as the calls it stands for.
-/

namespace Hnatsd.Server
open Misc List

variable {arg gap kw : Bytes} {s s' : PState}

def crlf : Bytes := [cr, lf]

/-- A keyword, each letter in either case. -/
def Spells (word : String) (written : Bytes) : Prop :=
  List.Forall₂ (fun ch b => b ∈ letter ch) word.toList written

/-- At least one blank. -/
def IsGap (gap : Bytes) : Prop := gap ≠ [] ∧ ∀ b ∈ gap, b ∈ blanks

/-- At least one byte, none of them a space, a tab or a line end. -/
def IsToken (token : Bytes) : Prop := token ≠ [] ∧ ∀ b ∈ token, isBlank b = false

/-- Tokens with blanks between them. -/
inductive Separated : List Bytes → Bytes → Prop where
  | single {token : Bytes} (isToken : IsToken token) : Separated [token] token
  | cons {token gap rest : Bytes} {tokens : List Bytes} (isToken : IsToken token)
      (isGap : IsGap gap) (separated : Separated tokens rest) :
      Separated (token :: tokens) (token ++ gap ++ rest)

/-- A line that is passed on as it is: it does not begin with a blank. -/
def IsText (text : Bytes) : Prop :=
  (∀ b ∈ text.head?, b ∉ blanks) ∧ text ≠ [] ∧ ∀ b ∈ text, b ≠ cr ∧ b ≠ lf

/-- The value of decimal digits. -/
def decimalValue (digits : Bytes) : Nat :=
  digits.foldl (fun value d => value * 10 + (d.toNat - 48)) 0

/-- The size of a payload, in decimal. -/
def StatesSize (digits : Bytes) (size : Nat) : Prop :=
  digits ≠ [] ∧ (∀ d ∈ digits, 48 ≤ d ∧ d ≤ 57) ∧ decimalValue digits = size

instance (word : String) (written : Bytes) : Decidable (Spells word written) :=
  inferInstanceAs (Decidable (List.Forall₂ _ _ _))

instance (gap : Bytes) : Decidable (IsGap gap) :=
  @instDecidableAnd _ _ _ (decidableBAll _ _)

instance (token : Bytes) : Decidable (IsToken token) :=
  @instDecidableAnd _ _ _ (decidableBAll _ _)

instance (digits : Bytes) (size : Nat) : Decidable (StatesSize digits size) :=
  @instDecidableAnd _ _ _ (@instDecidableAnd _ _ (decidableBAll _ _) _)

/-- How the operations are written, and the call each stands for. PUB comes from clients, MSG from
routes; no payload is longer than a slice can be. -/
inductive Writes (cfg : ParserConfig) : Bytes → Call → Prop where
  | ping {kw : Bytes} (spelled : Spells "PING" kw) : Writes cfg (kw ++ crlf) .processPing
  | pong {kw : Bytes} (spelled : Spells "PONG" kw) : Writes cfg (kw ++ crlf) .processPong
  | connect {kw gap arg : Bytes} (spelled : Spells "CONNECT" kw) (isGap : IsGap gap)
      (text : IsText arg) (short : arg.length ≤ cfg.mcl) :
      Writes cfg (kw ++ gap ++ arg ++ crlf) (.processConnect arg)
  | info {kw gap arg : Bytes} (spelled : Spells "INFO" kw) (isGap : IsGap gap)
      (text : IsText arg) (short : arg.length ≤ cfg.mcl) :
      Writes cfg (kw ++ gap ++ arg ++ crlf) (.processInfo arg)
  | sub {kw gap arg : Bytes} {subject sid : Bytes} {queue : Option Bytes}
      (spelled : Spells "SUB" kw) (isGap : IsGap gap)
      (separated : Separated ([subject] ++ queue.toList ++ [sid]) arg)
      (short : arg.length ≤ cfg.mcl) : Writes cfg (kw ++ gap ++ arg ++ crlf) (.processSub arg)
  | unsub {kw gap arg : Bytes} {sid : Bytes} {max : Option Bytes}
      (spelled : Spells "UNSUB" kw) (isGap : IsGap gap)
      (separated : Separated ([sid] ++ max.toList) arg) (short : arg.length ≤ cfg.mcl) :
      Writes cfg (kw ++ gap ++ arg ++ crlf) (.processUnsub arg)
  | pub {kw gap arg : Bytes} {subject szb payload : Bytes} {reply : Option Bytes}
      (client : cfg.typ = .client) (spelled : Spells "PUB" kw) (isGap : IsGap gap)
      (separated : Separated ([subject] ++ reply.toList ++ [szb]) arg)
      (short : arg.length ≤ cfg.mcl) (size : StatesSize szb payload.length)
      (allowed : 0 < cfg.mpay → payload.length ≤ cfg.mpay) (big : payload.length ≤ maxAlloc) :
      Writes cfg (kw ++ gap ++ arg ++ crlf ++ payload ++ crlf)
        (.processMsg ⟨subject, reply, none, szb, payload.length⟩ (payload ++ crlf))
  | msg {kw gap arg : Bytes} {subject sid szb payload : Bytes} {reply : Option Bytes}
      (route : cfg.typ ≠ .client) (spelled : Spells "MSG" kw) (isGap : IsGap gap)
      (separated : Separated ([subject, sid] ++ reply.toList ++ [szb]) arg)
      (short : arg.length ≤ cfg.mcl) (size : StatesSize szb payload.length)
      (big : payload.length ≤ maxAlloc) :
      Writes cfg (kw ++ gap ++ arg ++ crlf ++ payload ++ crlf)
        (.processMsg ⟨subject, reply, some sid, szb, payload.length⟩ (payload ++ crlf))

section Tokens

/-- The loop of `splitArg` on bytes: `token` is what has been read of the current token. -/
def splitTokens : Bytes → Option Bytes → List Bytes
  | [], token => token.toList
  | b :: rest, token =>
      if isBlank b then token.toList ++ splitTokens rest none
      else splitTokens rest (some (token.getD [] ++ [b]))

theorem map_slice_splitRanges (whole rest : Bytes) (i : Nat) (start : Option Nat)
    (here : whole.drop i = rest) (inside : i ≤ whole.length)
    (before : ∀ s, start = some s → s ≤ i) :
    (splitRanges rest i start).map (slice whole) =
      splitTokens rest (start.map fun s => slice whole (s, i)) := by
  induction rest generalizing i start with
  | nil => cases start <;> rfl
  | cons b rest ih =>
    have next : whole.drop (i + 1) = rest := by
      rw [← drop_drop, here]
      rfl
    have inside' : i + 1 ≤ whole.length := by
      have := congrArg List.length here
      rw [length_drop, length_cons] at this
      omega
    simp only [splitRanges, splitTokens]
    split_ifs with blank
    · cases start with
      | none => exact ih (i + 1) none next inside' (by simp)
      | some s =>
        rw [map_cons, ih (i + 1) none next inside' (by simp)]
        rfl
    · have step := ih (i + 1) (some (start.getD i)) next inside' (by
        rintro s ⟨⟩
        cases start with
        | none => simp
        | some s => exact Nat.le_succ_of_le (before s rfl))
      rw [step]
      cases start with
      | none =>
        simp only [Option.map_some, Option.getD_none, Option.map_none]
        rw [slice_succ (Nat.le_refl _) here, slice_self]
      | some s =>
        simp only [Option.map_some, Option.getD_some]
        rw [slice_succ (before s rfl) here]

theorem splitArg_eq_splitTokens (arg : Bytes) : splitArg arg = splitTokens arg none :=
  map_slice_splitRanges arg arg 0 none rfl (Nat.zero_le _) (by simp)

theorem splitTokens_token {token : Bytes} (clean : ∀ b ∈ token, isBlank b = false) (rest : Bytes)
    (read : Bytes) :
    splitTokens (token ++ rest) (some read) = splitTokens rest (some (read ++ token)) := by
  induction token generalizing read with
  | nil => simp
  | cons b token ih =>
    have blank := clean b mem_cons_self
    rw [cons_append, splitTokens, if_neg (by simp [blank])]
    rw [ih fun b' mem => clean b' (mem_cons_of_mem _ mem)]
    simp

theorem splitTokens_start {token : Bytes} (isToken : IsToken token) (rest : Bytes) :
    splitTokens (token ++ rest) none = splitTokens rest (some token) := by
  obtain ⟨nonempty, clean⟩ := isToken
  cases token with
  | nil => exact (nonempty rfl).elim
  | cons b token =>
    have blank := clean b mem_cons_self
    rw [cons_append, splitTokens, if_neg (by simp [blank])]
    exact splitTokens_token (fun b' mem => clean b' (mem_cons_of_mem _ mem)) rest [b]

theorem isBlank_of_blanks {b : UInt8} (blank : b ∈ blanks) : isBlank b = true := by
  simp only [blanks, mem_cons, not_mem_nil, or_false] at blank
  rcases blank with rfl | rfl <;> rfl

theorem splitTokens_gap (isGap : ∀ b ∈ gap, b ∈ blanks) (rest : Bytes) :
    splitTokens (gap ++ rest) none = splitTokens rest none := by
  induction gap with
  | nil => rfl
  | cons b gap ih =>
    rw [cons_append, splitTokens, if_pos (isBlank_of_blanks (isGap b mem_cons_self))]
    exact ih fun b' mem => isGap b' (mem_cons_of_mem _ mem)

/-- The code's splitting finds the tokens. -/
theorem splitArg_separated {tokens : List Bytes} (separated : Separated tokens arg) :
    splitArg arg = tokens := by
  rw [splitArg_eq_splitTokens]
  induction separated with
  | single isToken =>
    rename_i token
    have := splitTokens_start isToken []
    rwa [append_nil] at this
  | cons isToken isGap separated ih =>
    rename_i token gap rest tokens
    obtain ⟨nonempty, blank⟩ := isGap
    cases gap with
    | nil => exact (nonempty rfl).elim
    | cons b gap =>
      rw [append_assoc, splitTokens_start isToken, cons_append, splitTokens,
        if_pos (isBlank_of_blanks (blank b mem_cons_self)),
        splitTokens_gap fun b' mem => blank b' (mem_cons_of_mem _ mem), ih]
      rfl

/-- Tokens with blanks between them can be passed on as a line. -/
theorem Separated.isText {tokens : List Bytes} (separated : Separated tokens arg) :
    IsText arg := by
  have token {token : Bytes} (isToken : IsToken token) : IsText token := by
    obtain ⟨nonempty, clean⟩ := isToken
    refine ⟨fun b head blank => ?_, nonempty, fun b mem => ?_⟩
    · have := clean b (mem_of_mem_head? head)
      rw [isBlank_of_blanks blank] at this
      cases this
    · have := clean b mem
      constructor <;> rintro rfl <;> cases this
  have gap {b : UInt8} (blank : b ∈ blanks) : b ≠ cr ∧ b ≠ lf := by
    simp only [blanks, mem_cons, not_mem_nil, or_false] at blank
    rcases blank with rfl | rfl <;> decide
  induction separated with
  | single isToken => exact token isToken
  | cons isToken isGap _ ih =>
    obtain ⟨head, nonempty, clean⟩ := token isToken
    refine ⟨?_, by simp [nonempty], fun b mem => ?_⟩
    · rw [append_assoc, head?_append_of_ne_nil _ nonempty]
      exact head
    · simp only [mem_append] at mem
      rcases mem with (mem | mem) | mem
      · exact clean b mem
      · exact gap (isGap.2 b mem)
      · exact ih.2.2 b mem

/-- The loop of `parseSize` computes the number that the digits state, modulo `2 ^ 64`. -/
theorem parseDigits_wraps {digits : Bytes} (isDigits : ∀ d ∈ digits, 48 ≤ d ∧ d ≤ 57)
    (value : Nat) :
    parseDigits digits (wrap64 value) =
      wrap64 (digits.foldl (fun value d => value * 10 + (d.toNat - 48)) value : Nat) := by
  induction digits generalizing value with
  | nil => rfl
  | cons d digits ih =>
    obtain ⟨low, high⟩ := isDigits d mem_cons_self
    have lowNat : 48 ≤ d.toNat := low
    have step : wrap64 (wrap64 value * 10 + (d.toNat - 48)) =
        wrap64 (value * 10 + (d.toNat - 48) : Nat) := by
      rw [wrap64_mul_add]
      congr 1
      omega
    have inRange : ¬(d < 48 ∨ 57 < d) := by
      rw [not_or, UInt8.not_lt, UInt8.not_lt]
      exact ⟨low, high⟩
    rw [parseDigits, if_neg inRange, step, foldl_cons]
    exact ih (fun d' mem => isDigits d' (mem_cons_of_mem _ mem)) _

theorem parseSize_states {digits : Bytes} {size : Nat} (states : StatesSize digits size)
    (small : size < 2 ^ 63) : parseSize digits = size := by
  obtain ⟨nonempty, isDigits, rfl⟩ := states
  have zero : (0 : Int) = wrap64 (0 : Nat) := by decide
  rw [parseSize, if_neg nonempty, zero, parseDigits_wraps isDigits]
  exact wrap64_of_bounds (by omega) (by unfold decimalValue at small; omega)

end Tokens

section Scanning

variable {cfg : ParserConfig}

/-- Where a letter, in either case, leads. -/
def letterNext (typ : ClientKind) (s : PState) (ch : Char) : Option PState :=
  match wordStep typ false s ch.toNat.toUInt8, wordStep typ false s ch.toLower.toNat.toUInt8 with
  | .goto s₁, .goto s₂ => if s₁ = s₂ then some s₁ else none
  | _, _ => none

/-- Where a keyword leads. -/
def walk (typ : ClientKind) : PState → List Char → Option PState
  | s, [] => some s
  | s, ch :: word => (letterNext typ s ch).bind fun s => walk typ s word

theorem scans_letter {ch : Char} {b : UInt8}
    (next : letterNext cfg.typ s ch = some s') (either : b ∈ letter ch) :
    scanStep cfg (.word s) b = some (.word s', none) := by
  unfold letterNext at next
  split at next
  · rename_i s₁ s₂ upper lower
    split_ifs at next with same
    cases next
    change scanWord cfg s b = _
    simp only [letter, mem_cons, not_mem_nil, or_false] at either
    rcases either with rfl | rfl
    · rw [scanWord, upper]
    · rw [scanWord, lower, same]
  · cases next

theorem scans_word {word : List Char} {written : Bytes}
    (walked : walk cfg.typ s word = some s')
    (spelled : List.Forall₂ (fun ch b => b ∈ letter ch) word written) :
    Scans (scanStep cfg) (.word s) written [] (.word s') := by
  induction spelled generalizing s with
  | nil =>
    cases walked
    exact .nil _
  | cons either _ ih =>
    obtain ⟨mid, next, walked⟩ := Option.bind_eq_some_iff.mp walked
    exact .cons (scans_letter next either) (ih walked)

theorem scans_blanks (isGap : IsGap gap)
    (first : ∀ b ∈ blanks, wordStep cfg.typ false s b = .goto s')
    (stay : ∀ b ∈ blanks, wordStep cfg.typ false s' b = .goto s') :
    Scans (scanStep cfg) (.word s) gap [] (.word s') := by
  obtain ⟨nonempty, blank⟩ := isGap
  have more (rest : Bytes) (blank : ∀ b ∈ rest, b ∈ blanks) :
      Scans (scanStep cfg) (.word s') rest [] (.word s') := by
    induction rest with
    | nil => exact .nil _
    | cons b rest ih =>
      have step : scanStep cfg (.word s') b = some (.word s', none) := by
        change scanWord cfg s' b = _
        rw [scanWord, stay b (blank b mem_cons_self)]
      exact .cons step (ih fun b' mem => blank b' (mem_cons_of_mem _ mem))
  cases gap with
  | nil => exact (nonempty rfl).elim
  | cons b gap =>
    have step : scanStep cfg (.word s) b = some (.word s', none) := by
      change scanWord cfg s b = _
      rw [scanWord, first b (blank b mem_cons_self)]
    exact .cons step (more gap fun b' mem => blank b' (mem_cons_of_mem _ mem))

/-- The bytes of an argument behind its first. -/
theorem scans_argBytes {read more : Bytes}
    (clean : ∀ b ∈ more, b ≠ cr ∧ b ≠ lf) (short : ((read ++ more).length : Int) ≤ cfg.mcl) :
    Scans (scanStep cfg) (.arg s read false) more [] (.arg s (read ++ more) false) := by
  induction more generalizing read with
  | nil =>
    rw [append_nil]
    exact .nil _
  | cons b more ih =>
    obtain ⟨notCr, notLf⟩ := clean b mem_cons_self
    have whole : read ++ b :: more = read ++ [b] ++ more := by simp
    have fits : ¬ ((false = true) ∨ cfg.mcl < (read.length : Int) + 1) := by
      rw [length_append, length_cons] at short
      simp only [Bool.false_eq_true, false_or]
      omega
    have step : scanStep cfg (.arg s read false) b = some (.arg s (read ++ [b]) false, none) := by
      change scanArgByte cfg s read false b = _
      rw [scanArgByte, if_neg notCr, if_neg notLf, if_neg fits]
    rw [whole] at short ⊢
    exact .cons step (ih (fun b' mem => clean b' (mem_cons_of_mem _ mem)) short)

/-- A keyword and blanks lead to an argument. -/
structure LeadsTo (typ : ClientKind) (word : String) (s s' arg : PState) : Prop where
  walked : walk typ .opStart word.toList = some s
  first : ∀ b ∈ blanks, wordStep typ false s b = .goto s'
  argument : ∀ b, wordStep typ false s' b = if b ∈ blanks then .goto s' else .begin arg

theorem on_blanks {P : UInt8 → Prop} (space : P 32) (tab : P 9) : ∀ b ∈ blanks, P b := by
  intro b mem
  simp only [blanks, mem_cons, not_mem_nil, or_false] at mem
  rcases mem with rfl | rfl
  · exact space
  · exact tab

section

variable (typ : ClientKind)
include typ

theorem leads_connect :
    LeadsTo typ "CONNECT" .opConnect .opConnect .connectArg :=
  ⟨by cases typ <;> decide, on_blanks rfl rfl, fun _ => rfl⟩

theorem leads_info : LeadsTo typ "INFO" .opInfo .opInfo .infoArg :=
  ⟨by cases typ <;> decide, on_blanks rfl rfl, fun _ => rfl⟩

theorem leads_sub : LeadsTo typ "SUB" .opSub .opSubSpc .subArg :=
  ⟨by cases typ <;> decide, on_blanks rfl rfl, fun _ => rfl⟩

theorem leads_unsub : LeadsTo typ "UNSUB" .opUnsub .opUnsubSpc .unsubArg :=
  ⟨by cases typ <;> decide, on_blanks rfl rfl, fun _ => rfl⟩

theorem leads_pub : LeadsTo typ "PUB" .opPub .opPubSpc .pubArg :=
  ⟨by cases typ <;> decide, on_blanks rfl rfl, fun _ => rfl⟩

end

theorem leads_msg {typ : ClientKind} (route : typ ≠ .client) :
    LeadsTo typ "MSG" .opMsg .opMsgSpc .msgArg := by
  refine ⟨?_, on_blanks rfl rfl, fun _ => rfl⟩
  cases typ with
  | client => exact (route rfl).elim
  | router => decide
  | internalCli => decide

/-- A whole control line. -/
theorem scans_line {word : String} {s₁ s₂ : PState} {a : Scan}
    {emitted : Option Call} (leads : LeadsTo cfg.typ word s₁ s₂ s) (spelled : Spells word kw)
    (isGap : IsGap gap) (text : IsText arg) (short : arg.length ≤ cfg.mcl)
    (scanned : scanArg cfg s arg = some (a, emitted)) :
    Scans (scanStep cfg) (.word .opStart) (kw ++ gap ++ arg ++ crlf) emitted.toList a := by
  obtain ⟨walked, first, argument⟩ := leads
  obtain ⟨head, nonempty, clean⟩ := text
  have scansKw := scans_word walked spelled
  have scansGap := scans_blanks isGap first fun b blank => (argument b).trans (if_pos blank)
  have scansArg : Scans (scanStep cfg) (.word s₂) arg [] (.arg s arg false) := by
    cases arg with
    | nil => exact (nonempty rfl).elim
    | cons b arg =>
      have one : (1 : Int) ≤ cfg.mcl := by
        rw [length_cons] at short
        omega
      have step : scanStep cfg (.word s₂) b = some (.arg s [b] false, none) := by
        change scanWord cfg s₂ b = _
        rw [scanWord, argument b, if_neg (head b rfl)]
        exact if_pos one
      exact .cons step (scans_argBytes (fun b' mem => clean b' (mem_cons_of_mem _ mem)) short)
  have stepCr : scanStep cfg (.arg s arg false) cr = some (.arg s arg true, none) := rfl
  have stepLf : scanStep cfg (.arg s arg true) lf = some (a, emitted) := scanned
  have scansEnd : Scans (scanStep cfg) (.arg s arg false) crlf emitted.toList a :=
    .cons stepCr (.single stepLf)
  exact ((scansKw.append scansGap).append scansArg).append scansEnd

/-- A payload and the end of its line. -/
theorem scans_message {pa : PubValues} {payload : Bytes} (size : pa.size = payload.length) :
    Scans (scanStep cfg) (.payload pa []) (payload ++ crlf) [.processMsg pa (payload ++ crlf)]
      (.word .opStart) := by
  have bytes (got more : Bytes) (fits : (got.length : Int) + more.length ≤ pa.size) :
      Scans (scanStep cfg) (.payload pa got) more [] (.payload pa (got ++ more)) := by
    induction more generalizing got with
    | nil =>
      rw [append_nil]
      exact .nil _
    | cons b more ih =>
      rw [length_cons] at fits
      have step : scanStep cfg (.payload pa got) b = some (.payload pa (got ++ [b]), none) :=
        if_pos (by omega)
      have whole : got ++ b :: more = got ++ [b] ++ more := by simp
      rw [whole]
      refine .cons step (ih (got ++ [b]) ?_)
      rw [length_append, length_singleton]
      omega
  have stepCr : scanStep cfg (.payload pa payload) cr = some (.payload pa (payload ++ [cr]), none) := by
    change scanPayload pa payload cr = _
    rw [scanPayload, if_neg (by omega), if_pos size.symm, if_pos rfl]
  have stepLf : scanStep cfg (.payload pa (payload ++ [cr])) lf =
      some (.word .opStart, some (.processMsg pa (payload ++ crlf))) := by
    change scanPayload pa (payload ++ [cr]) lf = _
    have length : ((payload ++ [cr]).length : Int) = pa.size + 1 := by
      rw [length_append, length_singleton, size]
      rfl
    rw [scanPayload, if_neg (by omega), if_neg (by omega), if_pos rfl, append_assoc]
    rfl
  have scansPayload := bytes [] payload (by rw [size, length_nil]; omega)
  exact scansPayload.append (.cons stepCr (.single stepLf))

/-- PING and PONG. -/
theorem scans_single {word : String} {call : Call}
    (walked : walk cfg.typ .opStart word.toList = some s) (spelled : Spells word kw)
    (atCr : wordStep cfg.typ false s cr = .goto s)
    (atLf : wordStep cfg.typ false s lf = .line (some call)) :
    Scans (scanStep cfg) (.word .opStart) (kw ++ crlf) [call] (.word .opStart) := by
  have stepCr : scanStep cfg (.word s) cr = some (.word s, none) := by
    change scanWord cfg s cr = _
    rw [scanWord, atCr]
  have stepLf : scanStep cfg (.word s) lf = some (.word .opStart, some call) := by
    change scanWord cfg s lf = _
    rw [scanWord, atLf]
  exact (scans_word walked spelled).append (.cons stepCr (.single stepLf))

/-- A message of a route, whatever numeral its size is written as. -/
theorem scans_msg {subject sid szb payload : Bytes} {reply : Option Bytes}
    (route : cfg.typ ≠ .client) (spelled : Spells "MSG" kw) (isGap : IsGap gap)
    (separated : Separated ([subject, sid] ++ reply.toList ++ [szb]) arg)
    (short : arg.length ≤ cfg.mcl) (states : parseSize szb = payload.length)
    (big : payload.length ≤ maxAlloc) :
    Scans (scanStep cfg) (.word .opStart) (kw ++ gap ++ arg ++ crlf ++ payload ++ crlf)
      [.processMsg ⟨subject, reply, some sid, szb, payload.length⟩ (payload ++ crlf)]
      (.word .opStart) := by
  have header : msgHeader (splitArg arg) =
      .ok ⟨subject, reply, some sid, szb, payload.length⟩ := by
    rw [splitArg_separated separated]
    cases reply <;> simp [msgHeader, states]
  have scanned : scanArg cfg .msgArg arg =
      some (.payload ⟨subject, reply, some sid, szb, payload.length⟩ [], none) := by
    rw [scanArg, if_neg route, header, scanHeader, if_pos (Int.ofNat_le.mpr big)]
  have line := scans_line (leads_msg route) spelled isGap separated.isText short scanned
  rw [append_assoc _ payload]
  exact line.append (scans_message rfl)

/-- The machine reads back every operation. -/
theorem Writes.scans {bytes : Bytes} {call : Call} (writes : Writes cfg bytes call) :
    Scans (scanStep cfg) (.word .opStart) bytes [call] (.word .opStart) := by
  cases writes with
  | ping spelled =>
    exact scans_single (s := .opPing) (by cases cfg.typ <;> decide) spelled rfl rfl
  | pong spelled =>
    exact scans_single (s := .opPong) (by cases cfg.typ <;> decide) spelled rfl rfl
  | connect spelled isGap text short =>
    exact scans_line (leads_connect cfg.typ) spelled isGap text short rfl
  | info spelled isGap text short =>
    exact scans_line (leads_info cfg.typ) spelled isGap text short rfl
  | @sub kw gap arg subject sid queue spelled isGap separated short =>
    have scanned : scanArg cfg .subArg arg = some (.word .opStart, some (.processSub arg)) := by
      refine if_pos ?_
      rw [subArgsOk, splitArg_separated separated]
      cases queue <;> rfl
    exact scans_line (leads_sub cfg.typ) spelled isGap separated.isText short scanned
  | @unsub kw gap arg sid max spelled isGap separated short =>
    have scanned : scanArg cfg .unsubArg arg =
        some (.word .opStart, some (.processUnsub arg)) := by
      refine if_pos ?_
      rw [unsubArgsOk, splitArg_separated separated]
      cases max <;> rfl
    exact scans_line (leads_unsub cfg.typ) spelled isGap separated.isText short scanned
  | @pub kw gap arg subject szb payload reply client spelled isGap separated short size allowed
      big =>
    have states := parseSize_states size (by unfold maxAlloc at big; omega)
    have header : pubHeader cfg none (splitArg arg) =
        .ok ⟨subject, reply, none, szb, payload.length⟩ := by
      have positive : ¬ ((payload.length : Int) < 0) := by omega
      have within : ¬ (0 < cfg.mpay ∧ cfg.mpay < (payload.length : Int)) := by omega
      rw [splitArg_separated separated]
      cases reply <;> simp [pubHeader, states, within]
    have scanned : scanArg cfg .pubArg arg =
        some (.payload ⟨subject, reply, none, szb, payload.length⟩ [], none) := by
      rw [scanArg, if_pos client, header, scanHeader, if_pos (Int.ofNat_le.mpr big)]
    have line := scans_line (leads_pub cfg.typ) spelled isGap separated.isText short scanned
    rw [append_assoc _ payload]
    exact line.append (scans_message rfl)
  | @msg kw gap arg subject sid szb payload reply route spelled isGap separated short size big =>
    have states := parseSize_states size (by unfold maxAlloc at big; omega)
    exact scans_msg route spelled isGap separated short states big

theorem scans_stream {ops : List (Bytes × Call)} (written : ∀ op ∈ ops, Writes cfg op.1 op.2) :
    Scans (scanStep cfg) (.word .opStart) (ops.map Prod.fst).flatten (ops.map Prod.snd)
      (.word .opStart) := by
  induction ops with
  | nil => exact .nil _
  | cons op ops ih =>
    exact (written op mem_cons_self).scans.append
      (ih fun op' mem => written op' (mem_cons_of_mem _ mem))

end Scanning

/-- Every stream of well-formed operations, cut into reads in any way, is read back: no call of
`parse` returns an error, and the calls are those the operations stand for, in order. -/
theorem feed_reads_back (cfg : ParserConfig) (ops : List (Bytes × Call))
    (written : ∀ op ∈ ops, Writes cfg op.1 op.2) (reads : List Bytes)
    (cut : reads.flatten = (ops.map Prod.fst).flatten)
    (sized : ∀ buf ∈ reads, buf.length ≤ maxAlloc) :
    ∃ c, feed cfg (reads.map (Env.quiet, ·)) .initial [] = .ok c (ops.map Prod.snd) := by
  have scans := scans_stream written
  rw [← cut] at scans
  have resumes : Resumes cfg .initial (.word .opStart) := fun _ => ⟨fun _ => rfl, rfl, rfl⟩
  obtain ⟨c, fed, -⟩ := feed_follows between_initial resumes sized scans
  exact ⟨c, fed⟩

/-- A subscription and a message of a client, cut inside a keyword and inside the payload. -/
theorem feed_reads_back_cut :
    ∃ c, feed ⟨.client, 1024, 1024, .double⟩
        ([bytesOf "SU", bytesOf "B foo 1\r\npub a b 2\r\nh", bytesOf "i\r\n"].map
          (Env.quiet, ·)) .initial [] =
      .ok c [.processSub (bytesOf "foo 1"),
        .processMsg ⟨bytesOf "a", some (bytesOf "b"), none, bytesOf "2", 2⟩
          (bytesOf "hi\r\n")] := by
  have sub : Writes ⟨.client, 1024, 1024, .double⟩ (bytesOf "SUB foo 1\r\n")
      (.processSub (bytesOf "foo 1")) :=
    @Writes.sub _ (bytesOf "SUB") (bytesOf " ") (bytesOf "foo 1") (bytesOf "foo") (bytesOf "1") none
      (by decide) (by decide)
      (.cons (by decide) (by decide : IsGap (bytesOf " "))
        (.single (by decide))) (by decide)
  have pub : Writes ⟨.client, 1024, 1024, .double⟩ (bytesOf "pub a b 2\r\nhi\r\n")
      (.processMsg ⟨bytesOf "a", some (bytesOf "b"), none, bytesOf "2", 2⟩ (bytesOf "hi\r\n")) :=
    @Writes.pub _ (bytesOf "pub") (bytesOf " ") (bytesOf "a b 2") (bytesOf "a") (bytesOf "2")
      (bytesOf "hi") (some (bytesOf "b")) rfl (by decide)
      (by decide)
      (.cons (by decide) (by decide : IsGap (bytesOf " "))
        (.cons (by decide) (by decide : IsGap (bytesOf " "))
          (.single (by decide))))
      (by decide) (by decide) (by decide) (by decide)
  refine feed_reads_back _
    [(bytesOf "SUB foo 1\r\n", .processSub (bytesOf "foo 1")),
      (bytesOf "pub a b 2\r\nhi\r\n",
        .processMsg ⟨bytesOf "a", some (bytesOf "b"), none, bytesOf "2", 2⟩ (bytesOf "hi\r\n"))]
    ?_ _ (by decide) ?_
  · intro op mem
    simp only [mem_cons, not_mem_nil, or_false] at mem
    rcases mem with rfl | rfl
    · exact sub
    · exact pub
  · decide

/-- However a stream that the machine accepts is cut, also where it ends inside a line or a message,
the calls are the machine's. -/
theorem feed_cut_free (cfg : ParserConfig) (stream : Bytes) (calls : List Call) (last : Scan)
    (scans : Scans (scanStep cfg) (.word .opStart) stream calls last) (reads : List Bytes)
    (cut : reads.flatten = stream) (sized : ∀ buf ∈ reads, buf.length ≤ maxAlloc) :
    ∃ c, feed cfg (reads.map (Env.quiet, ·)) .initial [] = .ok c calls := by
  subst cut
  have resumes : Resumes cfg .initial (.word .opStart) := fun _ => ⟨fun _ => rfl, rfl, rfl⟩
  obtain ⟨c, fed, -⟩ := feed_follows between_initial resumes sized scans
  exact ⟨c, fed⟩

/-- A PING and the beginning of a PONG. -/
theorem feed_cut_free_ping : ∃ c, feed ⟨.client, 1024, 1024, .double⟩
    ([bytesOf "PI", bytesOf "NG\r\nPO"].map (Env.quiet, ·)) .initial [] = .ok c [.processPing] := by
  have begun := @scans_word .opStart .opPo ⟨.client, 1024, 1024, .double⟩ ['P', 'O'] (bytesOf "PO")
    rfl (.cons (by decide) (.cons (by decide) .nil))
  have ping := (@Writes.ping ⟨.client, 1024, 1024, .double⟩ (bytesOf "PING") (by decide)).scans
  exact feed_cut_free _ _ _ _ (ping.append begun) _ rfl (by decide)

end Hnatsd.Server
