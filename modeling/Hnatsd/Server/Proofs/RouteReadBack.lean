import Hnatsd.Server.RouteLines
import Hnatsd.Server.Proofs.ParserReadBack

/-!
# Lines to a route are read back

What a server writes to a route, as the parser at the other end reads it. A missing queue leaves two
blanks in the line, which separate the same two tokens; `max` is in the line of an UNSUB only while
it is not reached. The limit on control lines is checked when a line is cut by the end of a read, so
lines that come whole may have any length.
-/

namespace Hnatsd.Server
open Misc List

/-- The parts that go into the lines are tokens, and the size of the message is the number its header
states. -/
def RouteWrite.Proper : RouteWrite → Prop
  | .sub x => IsToken x.subject ∧ (∀ queue ∈ x.queue, IsToken queue) ∧ IsToken x.sid
  | .unsub x _ max => IsToken x.sid ∧ max < 2 ^ 63
  | .msg subject sid reply szb payload =>
      IsToken subject ∧ IsToken sid ∧ (∀ inbox ∈ reply, IsToken inbox) ∧
        parseSize szb = payload.length ∧ payload.length ≤ maxAlloc

/-- The call that passes on what was written. -/
def RouteWrite.ReadAs : RouteWrite → Call → Prop
  | .sub x, .processSub arg => subArgs arg = some (x.subject, x.queue, routeSid x)
  | .unsub x nm max, .processUnsub arg =>
      unsubArgs arg = some (routeSid x, if 0 < max ∧ nm < max then max else -1)
  | .msg subject sid reply szb payload, .processMsg pa bytes =>
      pa = ⟨subject, reply, some sid, szb, payload.length⟩ ∧ bytes = payload ++ crlf
  | _, _ => False

section Lines

theorem isToken_append {a b : Bytes} (isToken : IsToken a) (clean : ∀ c ∈ b, isBlank c = false) :
    IsToken (a ++ b) := by
  refine ⟨by simp [isToken.1], fun c mem => ?_⟩
  rcases mem_append.mp mem with inA | inB
  · exact isToken.2 c inA
  · exact clean c inB

theorem isBlank_digit {d : UInt8} (low : 48 ≤ d) : isBlank d = false := by
  have lowNat : 48 ≤ d.toNat := low
  simp only [isBlank, Bool.or_eq_false_iff, decide_eq_false_iff_not]
  refine ⟨⟨⟨?_, ?_⟩, ?_⟩, ?_⟩ <;> rintro rfl <;> simp at lowNat

theorem decimal_isToken (n : Nat) : IsToken (decimal n) := by
  obtain ⟨nonempty, digits, -⟩ := decimal_spec n
  exact ⟨nonempty, fun d mem => isBlank_digit (digits d mem).1⟩

theorem routeSid_isToken {sub : Subscription} (isToken : IsToken sub.sid) :
    IsToken (routeSid sub) := by
  have rest : ∀ c ∈ decimal sub.client ++ bytesOf ":" ++ sub.sid, isBlank c = false := by
    have colon : IsToken (bytesOf ":") := by decide
    exact (isToken_append (isToken_append (decimal_isToken _) colon.2) isToken.2).2
  unfold routeSid
  dsimp only
  split_ifs
  · have front : IsToken (bytesOf "Q" ++ bytesOf "RSID:") := by decide
    simpa only [append_assoc] using isToken_append front rest
  · have front : IsToken ([] ++ bytesOf "RSID:") := by decide
    simpa only [append_assoc] using isToken_append front rest

theorem parseDigits_digits {digits : Bytes} {n : Int} (nonneg : 0 ≤ parseDigits digits n) :
    ∀ d ∈ digits, isBlank d = false := by
  induction digits generalizing n with
  | nil => exact fun _ mem => nomatch mem
  | cons d rest ih =>
    rw [parseDigits] at nonneg
    split_ifs at nonneg with bad
    · omega
    · intro d' mem
      rcases mem_cons.mp mem with rfl | later
      · rw [not_or, UInt8.not_lt, UInt8.not_lt] at bad
        exact isBlank_digit bad.1
      · exact ih nonneg d' later

theorem parseSize_isToken {szb : Bytes} (nonneg : 0 ≤ parseSize szb) : IsToken szb := by
  unfold parseSize at nonneg
  split_ifs at nonneg with empty
  · omega
  · exact ⟨empty, parseDigits_digits nonneg⟩

theorem parseSize_decimal {max : Int} (pos : 0 < max) (small : max < 2 ^ 63) :
    parseSize (decimal max.toNat) = max := by
  rw [@parseSize_states _ max.toNat (decimal_spec _) (by omega)]
  omega

end Lines

section Scanning

variable {cfg : ParserConfig}

theorem isGap_space : IsGap (bytesOf " ") := by decide

theorem bytesOf_crlf : bytesOf "\r\n" = crlf := by decide

/-- The SUB line: without a queue there are two blanks between its two tokens. -/
theorem subLine_scans {x : Subscription} (proper : (RouteWrite.sub x).Proper)
    (short : ((subLine x).text.length : Int) ≤ cfg.mcl) :
    ∃ call, (RouteWrite.sub x).ReadAs call ∧
      Scans (scanStep cfg) (.word .opStart) (subLine x).text [call] (.word .opStart) := by
  obtain ⟨subject, queue, sid⟩ := proper
  have rsid := routeSid_isToken sid
  have kw : bytesOf "SUB " = bytesOf "SUB" ++ bytesOf " " := by decide
  obtain ⟨arg, text, separated⟩ : ∃ arg, (subLine x).text =
      bytesOf "SUB" ++ bytesOf " " ++ arg ++ crlf ∧
      Separated ([x.subject] ++ x.queue.toList ++ [routeSid x]) arg := by
    cases isQueue : x.queue with
    | none =>
      have gap : IsGap (bytesOf " " ++ bytesOf " ") := by decide
      refine ⟨x.subject ++ (bytesOf " " ++ bytesOf " ") ++ routeSid x, ?_,
        .cons subject gap (.single rsid)⟩
      simp [subLine, RouteLine.text, isQueue, kw, bytesOf_crlf]
    | some q =>
      refine ⟨x.subject ++ bytesOf " " ++ (q ++ bytesOf " " ++ routeSid x), ?_,
        .cons subject isGap_space (.cons (queue q isQueue) isGap_space (.single rsid))⟩
      simp [subLine, RouteLine.text, isQueue, kw, bytesOf_crlf]
  have writes : Writes cfg (subLine x).text (.processSub arg) := by
    rw [text] at short ⊢
    refine .sub (by decide) isGap_space separated ?_
    simp only [length_append] at short
    omega
  refine ⟨_, ?_, writes.scans⟩
  show subArgs arg = _
  rw [subArgs, splitArg_separated separated]
  cases x.queue <;> rfl

/-- The UNSUB line, with the limit while it is not reached. -/
theorem unsubLine_scans {x : Subscription} {nm max : Int}
    (proper : (RouteWrite.unsub x nm max).Proper)
    (short : ((unsubLine x nm max).text.length : Int) ≤ cfg.mcl) :
    ∃ call, (RouteWrite.unsub x nm max).ReadAs call ∧
      Scans (scanStep cfg) (.word .opStart) (unsubLine x nm max).text [call] (.word .opStart) := by
  obtain ⟨sid, small⟩ := proper
  have rsid := routeSid_isToken sid
  have kw : bytesOf "UNSUB " = bytesOf "UNSUB" ++ bytesOf " " := by decide
  obtain ⟨arg, maxStr, text, separated, value⟩ : ∃ (arg : Bytes) (maxStr : Option Bytes),
      (unsubLine x nm max).text = bytesOf "UNSUB" ++ bytesOf " " ++ arg ++ crlf ∧
      Separated ([routeSid x] ++ maxStr.toList) arg ∧
      (maxStr.map parseSize).getD (-1) = if 0 < max ∧ nm < max then max else -1 := by
    by_cases limited : 0 < max ∧ nm < max
    · refine ⟨routeSid x ++ bytesOf " " ++ decimal max.toNat, some (decimal max.toNat), ?_,
        .cons rsid isGap_space (.single (decimal_isToken _)), ?_⟩
      · simp [unsubLine, RouteLine.text, limited, kw, bytesOf_crlf]
      · rw [if_pos limited]
        exact parseSize_decimal limited.1 small
    · refine ⟨routeSid x, none, ?_, .single rsid, (if_neg limited).symm⟩
      simp [unsubLine, RouteLine.text, if_neg limited, kw, bytesOf_crlf]
  have writes : Writes cfg (unsubLine x nm max).text (.processUnsub arg) := by
    rw [text] at short ⊢
    refine .unsub (by decide) isGap_space separated ?_
    simp only [length_append] at short
    omega
  refine ⟨_, ?_, writes.scans⟩
  show unsubArgs arg = _
  rw [unsubArgs, splitArg_separated separated, ← value]
  cases maxStr <;> rfl

/-- A message: whatever its payload holds, its size says where it ends. -/
theorem msg_scans {subject sid szb payload : Bytes} {reply : Option Bytes}
    (route : cfg.typ = .router) (proper : (RouteWrite.msg subject sid reply szb payload).Proper)
    (short : ((Client.msgHeader subject sid reply szb).length : Int) ≤ cfg.mcl) :
    ∃ call, (RouteWrite.msg subject sid reply szb payload).ReadAs call ∧
      Scans (scanStep cfg) (.word .opStart) (RouteWrite.msg subject sid reply szb payload).text
        [call] (.word .opStart) := by
  obtain ⟨isSubject, isSid, isReply, size, big⟩ := proper
  have isSize : IsToken szb := parseSize_isToken (by omega)
  have kw : bytesOf "MSG " = bytesOf "MSG" ++ bytesOf " " := by decide
  obtain ⟨arg, text, separated⟩ : ∃ arg, Client.msgHeader subject sid reply szb =
      bytesOf "MSG" ++ bytesOf " " ++ arg ++ crlf ∧
      Separated ([subject, sid] ++ reply.toList ++ [szb]) arg := by
    cases reply with
    | none =>
      refine ⟨subject ++ bytesOf " " ++ (sid ++ bytesOf " " ++ szb), ?_,
        .cons isSubject isGap_space (.cons isSid isGap_space (.single isSize))⟩
      simp [Client.msgHeader, kw, bytesOf_crlf]
    | some inbox =>
      refine ⟨subject ++ bytesOf " " ++ (sid ++ bytesOf " " ++ (inbox ++ bytesOf " " ++ szb)), ?_,
        .cons isSubject isGap_space (.cons isSid isGap_space
          (.cons (isReply inbox rfl) isGap_space (.single isSize)))⟩
      simp [Client.msgHeader, kw, bytesOf_crlf]
  refine ⟨.processMsg ⟨subject, reply, some sid, szb, payload.length⟩ (payload ++ crlf),
    ⟨rfl, rfl⟩, ?_⟩
  rw [RouteWrite.text, text, bytesOf_crlf, ← append_assoc]
  rw [text] at short
  refine scans_msg (by simp [route]) (by decide) isGap_space separated ?_ size big
  simp only [length_append] at short
  omega

theorem RouteWrite.scans {w : RouteWrite} (route : cfg.typ = .router) (proper : w.Proper)
    (short : (w.control.length : Int) ≤ cfg.mcl) :
    ∃ call, w.ReadAs call ∧
      Scans (scanStep cfg) (.word .opStart) w.text [call] (.word .opStart) := by
  cases w with
  | sub x => exact subLine_scans proper short
  | unsub x nm max => exact unsubLine_scans proper short
  | msg subject sid reply szb payload => exact msg_scans route proper short

theorem routeWrites_scan {writes : List RouteWrite} (route : cfg.typ = .router)
    (proper : ∀ w ∈ writes, w.Proper) (short : ∀ w ∈ writes, (w.control.length : Int) ≤ cfg.mcl) :
    ∃ calls, List.Forall₂ RouteWrite.ReadAs writes calls ∧
      Scans (scanStep cfg) (.word .opStart) (writes.map RouteWrite.text).flatten calls
        (.word .opStart) := by
  induction writes with
  | nil => exact ⟨[], .nil, .nil _⟩
  | cons w rest ih =>
    obtain ⟨call, readAs, scans⟩ :=
      RouteWrite.scans route (proper w mem_cons_self) (short w mem_cons_self)
    obtain ⟨calls, readAll, scansRest⟩ := ih (fun w' mem => proper w' (mem_cons_of_mem _ mem))
      fun w' mem => short w' (mem_cons_of_mem _ mem)
    exact ⟨call :: calls, .cons readAs readAll, scans.append scansRest⟩

end Scanning

section Limit

variable {cfg : ParserConfig} {c c' : ParseState} {calls calls' : List Call}

/-- A read that does not end inside an argument is not held to the limit. -/
theorem splitBuffer_limit {i m : Int}
    (ok : splitBuffer { cfg with mcl := m } i c calls = .ok c' calls')
    (notArg : c'.state.isArg = false) : splitBuffer cfg i c calls = .ok c' calls' := by
  have state : c.state.isArg = false := by
    rw [← splitBuffer_state ok]
    exact notArg
  unfold splitBuffer at ok ⊢
  rw [state, if_neg Bool.false_ne_true] at ok ⊢
  exact ok

theorem parseLoop_limit {env : Env} {fuel : Nat} {s : LoopState} {m : Int}
    (ok : parseLoop { cfg with mcl := m } env fuel s = .ok c' calls')
    (notArg : c'.state.isArg = false) : parseLoop cfg env fuel s = .ok c' calls' := by
  induction fuel generalizing s with
  | zero => cases ok
  | succ fuel ih =>
    have same : parseStep { cfg with mcl := m } = parseStep cfg := rfl
    rw [parseLoop] at ok ⊢
    by_cases more : s.i < s.c.buf.length
    · have step : loopStep { cfg with mcl := m } env s = loopStep cfg env s := by
        unfold loopStep
        rw [if_pos more, if_pos more, same]
      rw [step] at ok
      cases stepped : loopStep cfg env s with
      | error r =>
        rw [stepped] at ok
        exact ok
      | ok s' =>
        rw [stepped] at ok
        exact ih ok
    · unfold loopStep at ok ⊢
      rw [if_neg more] at ok ⊢
      exact splitBuffer_limit ok notArg

/-- Reads of whole lines, of any length. -/
theorem feed_lines {groups : List (List RouteWrite)} {made : List Call}
    (route : cfg.typ = .router) (proper : ∀ w ∈ groups.flatten, w.Proper) (between : Between c)
    (resumes : Resumes cfg c (.word .opStart))
    (sized : ∀ group ∈ groups, (group.map RouteWrite.text).flatten.length ≤ maxAlloc) :
    ∃ c' calls, feed cfg
        ((groups.map fun group => (group.map RouteWrite.text).flatten).map (Env.quiet, ·)) c made =
          .ok c' (made ++ calls) ∧
      List.Forall₂ RouteWrite.ReadAs groups.flatten calls := by
  induction groups generalizing c made with
  | nil => exact ⟨c, [], by simp [feed], .nil⟩
  | cons group rest ih =>
    rw [flatten_cons] at proper
    -- a limit that this read keeps to
    obtain ⟨m, short⟩ : ∃ m : Int, ∀ w ∈ group, (w.control.length : Int) ≤ m := by
      refine ⟨((group.map fun w => w.control.length).sum : Nat), fun w mem => ?_⟩
      exact Int.ofNat_le.mpr (le_sum_of_mem (mem_map.mpr ⟨w, mem, rfl⟩))
    obtain ⟨calls₁, readAs, scans⟩ := @routeWrites_scan { cfg with mcl := m } group route
      (fun w mem => proper w (mem_append_left _ mem)) short
    obtain ⟨c₁, ok, between₁, resumes₁⟩ := @parse_follows { cfg with mcl := m } _ c
      (.word .opStart) _ _ between resumes (sized group mem_cons_self) scans
    have state : c₁.state = .opStart := (resumes₁ []).2.1
    have parsed : parse cfg .quiet (group.map RouteWrite.text).flatten c = .ok c₁ calls₁ :=
      parseLoop_limit ok (by rw [state]; rfl)
    obtain ⟨c', calls₂, fed, readRest⟩ := ih
      (fun w mem => proper w (mem_append_right _ mem)) between₁ resumes₁
      fun g mem => sized g (mem_cons_of_mem _ mem)
    refine ⟨c', calls₁ ++ calls₂, ?_, rel_append readAs readRest⟩
    rw [map_cons, map_cons, feed, parsed]
    dsimp only
    rw [fed, append_assoc]

end Limit

/-- Everything a server writes to a route is read back: cut in any way if the control lines keep to
the limit, and in reads of whole lines if not. -/
theorem route_writes_read_back (cfg : ParserConfig) (route : cfg.typ = .router)
    (writes : List RouteWrite) (proper : ∀ w ∈ writes, w.Proper) (reads : List Bytes)
    (cut : (∃ groups : List (List RouteWrite), groups.flatten = writes ∧
        reads = groups.map fun group => (group.map RouteWrite.text).flatten) ∨
      (reads.flatten = (writes.map RouteWrite.text).flatten ∧
        ∀ w ∈ writes, (w.control.length : Int) ≤ cfg.mcl))
    (sized : ∀ buf ∈ reads, buf.length ≤ maxAlloc) :
    ∃ c calls, feed cfg (reads.map (Env.quiet, ·)) .initial [] = .ok c calls ∧
      List.Forall₂ RouteWrite.ReadAs writes calls := by
  have resumes : Resumes cfg .initial (.word .opStart) := fun _ => ⟨fun _ => rfl, rfl, rfl⟩
  rcases cut with ⟨groups, rfl, rfl⟩ | ⟨flat, short⟩
  · exact feed_lines route proper between_initial resumes
      fun group mem => sized _ (mem_map.mpr ⟨group, mem, rfl⟩)
  · obtain ⟨calls, readAs, scans⟩ := routeWrites_scan route proper short
    rw [← flat] at scans
    obtain ⟨c, fed, -⟩ := @feed_follows cfg reads _ _ _ _ [] between_initial resumes sized scans
    exact ⟨c, calls, fed, readAs⟩

/-- A queue subscription, a subscription without a queue, a message and an UNSUB with a limit, in one
read. -/
theorem route_writes_read_back_four :
    let writes : List RouteWrite :=
      [.sub ⟨0, bytesOf "foo", some (bytesOf "q"), 7, bytesOf "1"⟩,
        .sub ⟨1, bytesOf "bar.*", none, 12, bytesOf "2"⟩,
        .msg (bytesOf "foo") (bytesOf "RSID:7:1") none (bytesOf "6") (bytesOf "PING\r\n"),
        .unsub ⟨1, bytesOf "bar.*", none, 12, bytesOf "2"⟩ 3 5]
    (writes.map RouteWrite.text).flatten =
        bytesOf "SUB foo q QRSID:7:1\r\nSUB bar.*  RSID:12:2\r\nMSG foo RSID:7:1 6\r\nPING\r\n\r\nUNSUB RSID:12:2 5\r\n" ∧
      ∃ c calls, feed ⟨.router, 0, 1024, .double⟩
          ([(writes.map RouteWrite.text).flatten].map (Env.quiet, ·)) .initial [] = .ok c calls ∧
        List.Forall₂ RouteWrite.ReadAs writes calls := by
  intro writes
  refine ⟨by decide, ?_⟩
  refine route_writes_read_back _ rfl writes ?_ _ (Or.inl ⟨[writes], by simp, rfl⟩) ?_
  · intro w mem
    simp only [writes, mem_cons, not_mem_nil, or_false] at mem
    rcases mem with rfl | rfl | rfl | rfl
    · exact ⟨by decide, by decide, by decide⟩
    · exact ⟨by decide, by decide, by decide⟩
    · exact ⟨by decide, by decide, by decide, by decide,
        by decide⟩
    · exact ⟨by decide, by decide⟩
  · decide

end Hnatsd.Server
