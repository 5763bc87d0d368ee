import Ousagi.CommandReplies
import Ousagi.SessionLimit
import Ousagi.SessionPieces

/-!
Pipelines: a client that sends commands in their wire form gets exactly their
replies, however its bytes arrive and whatever happens to the store in between.
What a session says depends on the bytes that it has got, and on none behind them.
-/

namespace Ousagi

open Library StateTransition

section Replies

variable {σ : Type} (handle : Command → σ → Response × σ)

def reply (command : Command) (store : σ) : Option Response × σ :=
  let (resp, store) := handle command store
  (if command.noreply then none else some resp, store)

theorem answer_replies (command : Command) (conn : Connection) (store : σ) :
    responses (answer handle command conn store).1.history =
        responses conn.history ++ (reply handle command store).1.toList ∧
      (answer handle command conn store).2 = (reply handle command store).2 := by
  simp only [answer, reply]
  split <;> simp [Connection.record, responses, Event.response]

end Replies

/-- The handler of a session among others: at each of its commands the clock stands somewhere,
and the others have done something to the store. -/
def shared (clock : Nat → UInt64) (others : Nat → Store → Store) (command : Command)
    (state : Store × Nat) : Response × (Store × Nat) :=
  let (response, store) := handle (clock state.2) command (others state.2 state.1)
  (response, (store, state.2 + 1))

theorem replies_answer (clock : Nat → UInt64) (others : Nat → Store → Store)
    {commands : List Command} (wellFormed : ∀ command ∈ commands, command.WellFormed)
    (state : Store × Nat) :
    List.Forall₂ Fits (commands.filter fun command => !command.noreply)
      (collect (reply (shared clock others)) commands state).1 := by
  induction commands generalizing state with
  | nil => exact .nil
  | cons command more ih =>
      have first := handle_replies (wellFormed command List.mem_cons_self) (clock state.2)
        (others state.2 state.1)
      have later := ih (fun other among => wellFormed other (List.mem_cons_of_mem command among))
        (reply (shared clock others) command state).2
      cases quiet : command.noreply with
      | true =>
          simp only [List.filter_cons, quiet, Bool.not_true, Bool.false_eq_true, if_false,
            collect]
          simpa [reply, quiet] using later
      | false =>
          simp only [List.filter_cons, quiet, Bool.not_false, if_true, collect]
          simpa [reply, quiet] using ⟨first, later⟩

theorem answered_command {commands : List Command} {replies : List Response}
    (answered : List.Forall₂ Fits commands replies) {response : Response}
    (among : response ∈ replies) : ∃ command ∈ commands, Fits command response := by
  induction answered with
  | nil => cases among
  | cons answers _ ih =>
      rcases List.mem_cons.mp among with rfl | later
      · exact ⟨_, List.mem_cons_self, answers⟩
      · obtain ⟨command, asked, found⟩ := ih later
        exact ⟨command, List.mem_cons_of_mem _ asked, found⟩

section Numbers

variable [FromRadix10SignedChecked UInt32] [FromRadix10SignedChecked UInt64]
  [FromRadix10SignedChecked Int64]

variable {σ : Type} (handle : Command → σ → Response × σ)

/-- A session on its way through a pipeline: it has executed the first commands and written
their replies, and the wire form of the others is still to be read. -/
def Session.Pipelined (commands : List Command) (start : σ) (session : Session σ) : Prop :=
  ∃ executed waiting, commands = executed ++ waiting ∧
    session.conn.stream = waiting.flatMap Command.wire ∧
    requests session.conn.history = executed.map .received ∧
    collect (reply handle) executed start = (responses session.conn.history, session.store)

theorem Session.pipelined_turn (canonical : CanonicalDecimals) {commands : List Command}
    {start : σ} {session : Session σ}
    (wellFormed : ∀ command ∈ commands, command.WellFormed)
    (fits : ∀ command ∈ commands, command.wireLine.length + 2 ≤ maxLineLen)
    (pipelined : session.Pipelined handle commands start) :
    ∃ executed waiting, commands = executed ++ waiting ∧
      requests session.conn.readCommandTurn.2.history = executed.map .received ∧
      collect (reply handle) executed start =
        (responses session.conn.readCommandTurn.2.history, session.store) ∧
      (waiting = [] ∧ session.conn.stream = [] ∧
          session.conn.readCommandTurn.1 = .returned none ∨
        ∃ command more, waiting = command :: more ∧
          session.conn.readCommandTurn.1 = .returned (some command) ∧
          session.conn.readCommandTurn.2.stream = more.flatMap Command.wire) := by
  obtain ⟨executed, waiting, whole, stream, made, replied⟩ := pipelined
  have passes : lineShort session.conn.stream → (cutTurn session.conn.stream).rejection = none →
      session.conn.readCommandTurn.1 = (cutTurn session.conn.stream).turn ∧
        session.conn.readCommandTurn.2.stream = (cutTurn session.conn.stream).rest ∧
        requests session.conn.readCommandTurn.2.history = executed.map .received ∧
        responses session.conn.readCommandTurn.2.history = responses session.conn.history := by
    intro short quiet
    obtain ⟨count, middle, waited, rest, step⟩ := Connection.readCommandTurn_short short
    rw [step, quiet]
    refine ⟨rfl, rest, ?_, ?_⟩
    · rw [← made]
      exact waited.requests_eq
    · simp [waited.history]
  cases waiting with
  | nil =>
      have spent : session.conn.stream = [] := stream
      obtain ⟨turned, _, seen, written⟩ := passes (by rw [spent]; decide) (by rw [spent]; rfl)
      rw [spent] at turned
      exact ⟨executed, [], whole, seen, by rw [replied, written], Or.inl ⟨rfl, spent, turned⟩⟩
  | cons command more =>
      have among : command ∈ commands := by simp [whole]
      have first := wellFormed command among
      have same : session.conn.stream = command.wire ++ more.flatMap Command.wire := by
        rw [stream, List.flatMap_cons]
      have cut := cutTurn_wire canonical first (more.flatMap Command.wire)
      have short := lineShort_wire first (fits command among) (more.flatMap Command.wire)
      rw [← same] at cut short
      obtain ⟨turned, rest, seen, written⟩ := passes short (by rw [cut])
      rw [cut] at turned rest
      exact ⟨executed, command :: more, whole, seen, by rw [replied, written],
        Or.inr ⟨command, more, rfl, turned, rest⟩⟩

theorem Session.next_pipelined (canonical : CanonicalDecimals) {commands : List Command}
    {start : σ} {before after : Session σ}
    (wellFormed : ∀ command ∈ commands, command.WellFormed)
    (fits : ∀ command ∈ commands, command.wireLine.length + 2 ≤ maxLineLen)
    (step : before.next handle = some after)
    (pipelined : before.Pipelined handle commands start) :
    after.Pipelined handle commands start := by
  obtain ⟨executed, waiting, whole, made, replied, outcome⟩ :=
    Session.pipelined_turn handle canonical wellFormed fits pipelined
  rcases before.next_cases handle step with ⟨turn, _⟩ | ⟨command, turn, conn, store⟩
  · rcases outcome with ⟨_, _, ended⟩ | ⟨_, _, _, returned, _⟩
    · simp [ended] at turn
    · simp [returned] at turn
  · rcases outcome with ⟨_, _, ended⟩ | ⟨other, more, rfl, returned, rest⟩
    · simp [ended] at turn
    · rw [turn, Turn.returned.injEq, Option.some.injEq] at returned
      subst returned
      obtain ⟨written, kept⟩ :=
        answer_replies handle command before.conn.readCommandTurn.2 before.store
      refine ⟨executed ++ [command], more, by simp [whole], ?_, ?_, ?_⟩
      · rw [conn, answer_stream, rest]
      · rw [conn, answer_requests, made]
        simp
      · rw [collect_append, replied, conn, store, written, kept]
        simp [collect]

theorem process_pipelined (canonical : CanonicalDecimals) {commands : List Command}
    (wellFormed : ∀ command ∈ commands, command.WellFormed)
    (fits : ∀ command ∈ commands, command.wireLine.length + 2 ≤ maxLineLen) {socket : Socket}
    (input : socket.stream = commands.flatMap Command.wire) (overflow : Overflow) (store : σ) :
    let result := process handle socket overflow store
    result.1 = .ok () ∧
      collect (reply handle) commands store = (responses result.2.1.history, result.2.2) ∧
      result.2.1.writer.buffered = [] := by
  obtain ⟨last, reached, stopped, result⟩ := process_ends handle socket overflow store
  have pipelined : last.Pipelined handle commands store := by
    refine reaches_invariant (Session.Pipelined handle commands store) reached ?_
      fun _ step => Session.next_pipelined handle canonical wellFormed fits step
    exact ⟨[], commands, rfl, input, rfl, rfl⟩
  obtain ⟨executed, waiting, whole, made, replied, outcome⟩ :=
    Session.pipelined_turn handle canonical wellFormed fits pipelined
  rcases outcome with ⟨rfl, stream, ended⟩ | ⟨command, _, _, returned, _⟩
  · rw [List.append_nil] at whole
    rw [result, whole]
    refine ⟨by rw [ended]; rfl, replied, ?_⟩
    rcases Connection.readCommandTurn_closing ended with sent | ⟨⟨pos, found, _⟩, _⟩
    · exact sent
    · rw [(List.append_eq_nil_iff.mp stream).1] at found
      cases found
  · rcases last.next_stopped handle stopped with turn | ⟨error, turn⟩ <;> simp [returned] at turn

/-- A client that sends its commands in their wire form is delivered exactly the replies to those
of them that want one, each of which answers its command, and it can decode them in one way
only. -/
theorem pipeline_answered (canonical : CanonicalDecimals) (clock : Nat → UInt64)
    (others : Nat → Store → Store) (commands : List Command)
    (wellFormed : ∀ command ∈ commands, command.WellFormed)
    (fits : ∀ command ∈ commands, command.wireLine.length + 2 ≤ maxLineLen) (socket : Socket)
    (input : socket.stream = commands.flatMap Command.wire) (overflow : Overflow) (store : Store) :
    let result := process (shared clock others) socket overflow (store, 0)
    let replies := collect (reply (shared clock others)) commands (store, 0)
    result.1 = .ok () ∧ result.2.2 = replies.2 ∧
      result.2.1.writer.delivered = replies.1.flatMap encodeResponse ∧
      List.Forall₂ Fits (commands.filter fun command => !command.noreply) replies.1 ∧
      ∀ decoded : List Response, (∀ response ∈ decoded, response.WellFormed) →
        decoded.flatMap encodeResponse = result.2.1.writer.delivered → decoded = replies.1 := by
  intro result replies
  obtain ⟨ending, replied, sent⟩ := process_pipelined (shared clock others) canonical wellFormed
    fits input overflow (store, 0)
  have answered := replies_answer clock others wellFormed (store, 0)
  have accounted : result.2.1.writer.sent = (responses result.2.1.history).flatMap encodeResponse :=
    process_accounted (shared clock others) socket overflow (store, 0)
  have delivered : result.2.1.writer.delivered = replies.1.flatMap encodeResponse := by
    rw [BufWriter.sent, sent, List.append_nil] at accounted
    rw [accounted]
    exact congrArg (fun pair => pair.1.flatMap encodeResponse) replied.symm
  refine ⟨ending, (congrArg Prod.snd replied).symm, delivered, answered, ?_⟩
  intro decoded clean same
  refine prefixCode_response.flatMap_injective encodeResponse_nonempty clean ?_
    (same.trans delivered)
  intro response among
  obtain ⟨command, asked, answers⟩ := answered_command answered among
  exact answers.wellFormed (wellFormed command (List.mem_filter.mp asked).1)

section Prefixes

theorem limitedServe_nil (store : σ) : limitedServe handle [] store = ([], .ok (), store) := by
  have ended : ¬(cutLimited []).goesOn := Bool.false_ne_true
  rw [limitedServe_ended handle ended]
  rfl

theorem cutLine_append (line body more : Bytes) :
    ((cutLine line body).rejection = none ∧ ∃ error, (cutLine line body).turn = .failed error) ∨
    ((cutLine line (body ++ more)).turn = (cutLine line body).turn ∧
      (cutLine line (body ++ more)).rejection = (cutLine line body).rejection ∧
      ((cutLine line (body ++ more)).rest = (cutLine line body).rest ++ more ∨
        (cutLine line body).rest = [])) := by
  simp only [cutLine]
  cases parseCommandLine line with
  | error error =>
      refine Or.inr ⟨rfl, rfl, ?_⟩
      rcases Nat.lt_or_ge body.length (error.discard.elim 0 UInt64.toNat) with beyond | within
      · exact Or.inr (List.drop_of_length_le (Nat.le_of_lt beyond))
      · exact Or.inl (List.drop_append_of_le_length within)
  | ok header =>
      cases header with
      | immediate command => exact Or.inr ⟨rfl, rfl, Or.inl rfl⟩
      | quit => exact Or.inr ⟨rfl, rfl, Or.inl rfl⟩
      | store pending =>
          by_cases short : body.length < pending.len.toNat + 2
          · simp only [cutPayload, if_pos short]
            exact Or.inl ⟨trivial, _, rfl⟩
          · simp only [cutPayload_append short, true_or, and_self, or_true]

theorem cutLimited_line {stream : Bytes} {pos : Nat} (found : memchr lf stream = some pos)
    (more : Bytes) :
    cutLimited (stream ++ more) =
      if pos < maxLineLen then
        cutLine (stripLineEnd (stream.take (pos + 1))) (stream.drop (pos + 1) ++ more)
      else
        { turn := .again
          rejection := some (.clientError "line too long")
          rest := stream.drop (pos + 1) ++ more } := by
  have bound := memchr_cut found
  have line : (stream ++ more).take (pos + 1) = stream.take (pos + 1) :=
    List.take_append_of_le_length (by omega)
  have body : (stream ++ more).drop (pos + 1) = stream.drop (pos + 1) ++ more :=
    List.drop_append_of_le_length (by omega)
  simp only [cutLimited, memchr_append more found, line, body]

theorem cutLimited_append (stream more : Bytes) :
    (¬(cutLimited stream).goesOn ∧ (cutLimited stream).rejection = none ∧
        ∀ command, (cutLimited stream).turn ≠ .returned (some command)) ∨
    ((cutLimited (stream ++ more)).turn = (cutLimited stream).turn ∧
      (cutLimited (stream ++ more)).rejection = (cutLimited stream).rejection ∧
      ((cutLimited (stream ++ more)).rest = (cutLimited stream).rest ++ more ∨
        (cutLimited stream).rest = [])) := by
  cases found : memchr lf stream with
  | none =>
      by_cases short : stream.length < maxLineLen
      · simp [cutLimited, found, short, Cut.goesOn]
      · right
        have whole := memchr_append_none more found
        cases later : memchr lf more with
        | none =>
            have long : ¬(stream ++ more).length < maxLineLen := by
              rw [List.length_append]
              omega
            rw [later, Option.map_none] at whole
            simp only [cutLimited, found, whole, if_neg short, if_neg long, or_true, and_self]
        | some pos =>
            have beyond : ¬pos + stream.length < maxLineLen := by omega
            rw [later, Option.map_some] at whole
            simp only [cutLimited, found, whole, if_neg short, if_neg beyond, or_true, and_self]
  | some pos =>
      have alone := cutLimited_line found []
      simp only [List.append_nil] at alone
      simp only [cutLimited_line found more, alone]
      by_cases within : pos < maxLineLen
      · simp only [if_pos within]
        rcases cutLine_append (stripLineEnd (stream.take (pos + 1))) (stream.drop (pos + 1)) more
          with ⟨quiet, error, failed⟩ | same
        · exact Or.inl ⟨by simp [Cut.goesOn, failed], quiet, by simp [failed]⟩
        · exact Or.inr same
      · simp only [if_neg within, true_or, and_self, or_true]

theorem limitedServe_prefix (stream more : Bytes) (store : σ) :
    (limitedServe handle stream store).1 <+: (limitedServe handle (stream ++ more) store).1 := by
  induction size : stream.length using Nat.strongRecOn generalizing stream store with
  | ind size ih =>
      rcases cutLimited_append stream more with ⟨ended, quiet, silent⟩ | ⟨turn, rejection, rest⟩
      · have nothing : (cutLimited stream).told handle store = [] := by
          rw [Cut.told, quiet]
          split
          · rename_i command returned
            exact absurd returned (silent command)
          · rfl
        rw [limitedServe_ended handle ended, nothing]
        exact List.nil_prefix
      · have told : (cutLimited (stream ++ more)).told handle store =
            (cutLimited stream).told handle store := by rw [Cut.told, Cut.told, turn, rejection]
        by_cases goesOn : (cutLimited stream).goesOn
        · have further : (cutLimited (stream ++ more)).goesOn := by
            rw [Cut.goesOn, turn]
            exact goesOn
          have left : (cutLimited (stream ++ more)).leaves handle store =
              (cutLimited stream).leaves handle store := by rw [Cut.leaves, Cut.leaves, turn]
          rw [limitedServe_onward handle goesOn, limitedServe_onward handle further, told, left,
            List.prefix_append_right_inj]
          rcases rest with later | spent
          · rw [later]
            exact ih _ (size ▸ cutLimited_shrinks goesOn) _ _ rfl
          · rw [spent, limitedServe_nil]
            exact List.nil_prefix
        · have stopped : ¬(cutLimited (stream ++ more)).goesOn := by
            rw [Cut.goesOn, turn]
            exact goesOn
          rw [limitedServe_ended handle goesOn, limitedServe_ended handle stopped, told]

/-- What a session has done and said by the end of its input, it does and says first when more
bytes follow, however they all arrive: no answer waits for a byte behind its request, or depends
on one. -/
theorem answers_causal (first second : Socket) (within : first.stream <+: second.stream)
    (overflow : Overflow) (store : σ)
    (limited : ∀ session, Reaches (Session.next handle) (.start first overflow store) session →
      ¬session.conn.straddles)
    (limited' : ∀ session, Reaches (Session.next handle) (.start second overflow store) session →
      ¬session.conn.straddles) :
    let early := process handle first overflow store
    let late := process handle second overflow store
    seen early.2.1.history <+: seen late.2.1.history ∧
      responses early.2.1.history <+: responses late.2.1.history ∧
      early.2.1.writer.sent <+: late.2.1.writer.sent := by
  intro early late
  obtain ⟨more, whole⟩ := within
  have told := (process_limited handle first overflow store).mpr limited
  have told' := (process_limited handle second overflow store).mpr limited'
  have shown : seen early.2.1.history <+: seen late.2.1.history := by
    have onward := limitedServe_prefix handle first.stream more store
    rwa [whole, ← told, ← told'] at onward
  have replied : responses early.2.1.history <+: responses late.2.1.history := by
    rw [← responses_seen, ← responses_seen late.2.1.history]
    exact shown.filterMap _
  refine ⟨shown, replied, ?_⟩
  rw [process_accounted handle first overflow store, process_accounted handle second overflow store]
  exact replied.flatMap _

theorem cutLine_behind {line body rest : Bytes} (goesOn : (cutLine line (body ++ rest)).goesOn)
    (left : (cutLine line (body ++ rest)).rest = rest) (behind : rest ≠ []) (other : Bytes) :
    cutLine line (body ++ other) = { cutLine line (body ++ rest) with rest := other } := by
  have size := List.length_pos_iff.mpr behind
  have spent : ∀ count, (body ++ rest).drop count = rest → count = body.length := by
    intro count same
    have length := congrArg List.length same
    rw [List.length_drop, List.length_append] at length
    omega
  simp only [cutLine] at goesOn left ⊢
  cases parsed : parseCommandLine line with
  | error error =>
      simp only [parsed] at left ⊢
      rw [spent _ left, List.drop_left]
  | ok header =>
      cases header with
      | immediate command =>
          simp only [parsed] at left ⊢
          rw [List.append_left_eq_self.mp left, List.nil_append]
      | quit => simp [parsed, Cut.goesOn] at goesOn
      | store pending =>
          simp only [parsed] at goesOn left ⊢
          have enough : ¬body.length < pending.len.toNat + 2 := by
            by_cases short : (body ++ rest).length < pending.len.toNat + 2
            · rw [cutPayload, if_pos short] at goesOn
              cases goesOn
            · simp only [cutPayload, if_neg short, apply_ite Cut.rest, ite_self] at left
              have whole := spent _ left
              omega
          simp only [cutPayload_append enough] at left ⊢
          rw [List.append_left_eq_self.mp left, List.nil_append]

theorem cutLimited_behind {taken rest : Bytes} (goesOn : (cutLimited (taken ++ rest)).goesOn)
    (left : (cutLimited (taken ++ rest)).rest = rest) (behind : rest ≠ []) (other : Bytes) :
    cutLimited (taken ++ other) = { cutLimited (taken ++ rest) with rest := other } := by
  have size := List.length_pos_iff.mpr behind
  cases found : memchr lf taken with
  | none =>
      -- The pass takes the end of its line, which is not among the bytes that it leaves.
      exfalso
      have whole := memchr_append_none rest found
      cases later : memchr lf rest with
      | none =>
          rw [later, Option.map_none] at whole
          simp only [cutLimited, whole] at goesOn left
          split at goesOn
          · cases goesOn
          · rename_i long
            rw [if_neg long] at left
            exact behind left.symm
      | some pos =>
          rw [later, Option.map_some] at whole
          have bound := memchr_cut later
          have fewer : (cutLimited (taken ++ rest)).rest.length ≤
              ((taken ++ rest).drop (pos + taken.length + 1)).length := by
            simp only [cutLimited, whole]
            split
            · exact cutLine_rest _ _
            · exact Nat.le_refl _
          rw [left, List.length_drop, List.length_append] at fewer
          omega
  | some pos =>
      simp only [cutLimited_line found] at goesOn left ⊢
      split at goesOn
      · rename_i within
        rw [if_pos within] at left
        simp only [if_pos within]
        exact cutLine_behind goesOn left behind other
      · rename_i beyond
        rw [if_neg beyond] at left
        simp only [if_neg beyond]
        rw [List.append_left_eq_self.mp left, List.nil_append]

theorem cutLimited_suffix (stream : Bytes) : (cutLimited stream).rest <:+ stream := by
  simp only [cutLimited]
  split
  · split
    · exact List.suffix_rfl
    · exact List.nil_suffix
  · split
    · exact (cutLine_suffix _ _).trans (List.drop_suffix _ _)
    · exact List.drop_suffix _ _

/-- What the limited session comes to from where a session stands, it comes to whatever other bytes
are to follow there. -/
theorem limitedServe_resumes {before reached : Session σ}
    (arrives : Reaches (Session.next handle) before reached)
    (limited : ∀ session, Reaches (Session.next handle) before session →
      ¬session.conn.straddles) (behind : reached.conn.stream ≠ []) :
    ∃ taken told, before.conn.stream = taken ++ reached.conn.stream ∧
      seen reached.conn.history = seen before.conn.history ++ told ∧
      ∀ other, limitedServe handle (taken ++ other) before.store =
        (told ++ (limitedServe handle other reached.store).1,
          (limitedServe handle other reached.store).2) := by
  induction arrives using Relation.ReflTransGen.head_induction_on with
  | refl => exact ⟨[], [], rfl, (List.append_nil _).symm, fun other => rfl⟩
  | @head before middle step onward ih =>
      obtain ⟨taken, told, stream, shown, resumes⟩ :=
        ih fun session reached => limited session (.head step reached)
      have passes := Connection.passes_limited (limited before .refl)
      obtain ⟨goesOn, rest, kept, first⟩ := Session.next_passes handle passes step
      obtain ⟨consumed, split⟩ := cutLimited_suffix before.conn.stream
      have whole : before.conn.stream = consumed ++ (taken ++ reached.conn.stream) := by
        rw [← split, ← rest, stream]
      rw [stream] at rest
      rw [whole] at rest goesOn kept first
      refine ⟨consumed ++ taken, (cutLimited (consumed ++ (taken ++ reached.conn.stream))).told handle
        before.store ++ told, by rw [whole, List.append_assoc], ?_, fun other => ?_⟩
      · rw [shown, first, List.append_assoc]
      · have same := cutLimited_behind goesOn rest.symm
          (List.append_ne_nil_of_right_ne_nil _ behind) (taken ++ other)
        have further : (cutLimited (consumed ++ (taken ++ other))).goesOn := by
          rw [same]
          exact goesOn
        have pass : limitedServe handle (consumed ++ (taken ++ other)) before.store =
            let later := limitedServe handle (taken ++ other) middle.store
            ((cutLimited (consumed ++ (taken ++ reached.conn.stream))).told handle before.store ++
              later.1, later.2) := by
          rw [limitedServe_onward handle further, same, kept]
          rfl
        rw [List.append_assoc, pass, resumes, List.append_assoc]

theorem limitedServe_quit {line : Bytes} (whole : IsLine line) (fits : line.length ≤ maxLineLen)
    (quits : parseCommandLine (stripLineEnd line) = .ok .quit) (rest : Bytes) (store : σ) :
    limitedServe handle (line ++ rest) store = ([], .ok (), store) := by
  obtain ⟨body, rfl, clean⟩ := whole
  have length : (body ++ [lf]).length = body.length + 1 := by simp
  have cut : cutLimited (body ++ [lf] ++ rest) =
      { turn := .returned none, rejection := none, rest } := by
    have within : body.length < maxLineLen := by omega
    rw [cutLimited_line (memchr_body clean []), if_pos within, ← length, List.take_length,
      List.drop_length, List.nil_append, cutLine, quits]
  rw [limitedServe_ended handle (by rw [cut]; exact Bool.false_ne_true), cut]
  rfl

/-- Nothing behind a `quit` line is executed or answered, whatever bytes it is and whatever was
asked before: a session that comes to the line ends there as it stands, and so does each other one
with the same bytes up to the line. -/
theorem quit_final (front line rest rest' : Bytes) (whole : IsLine line)
    (short : line.length ≤ maxLineLen)
    (quits : parseCommandLine (stripLineEnd line) = .ok .quit) (first second : Socket)
    (input : first.stream = front ++ (line ++ rest))
    (input' : second.stream = front ++ (line ++ rest')) (overflow : Overflow) (store : σ)
    (limited : ∀ session, Reaches (Session.next handle) (.start first overflow store) session →
      ¬session.conn.straddles)
    (limited' : ∀ session, Reaches (Session.next handle) (.start second overflow store) session →
      ¬session.conn.straddles) {session : Session σ}
    (arrives : Reaches (Session.next handle) (.start first overflow store) session)
    (unread : session.conn.stream = line ++ rest) :
    let early := process handle first overflow store
    let late := process handle second overflow store
    (seen early.2.1.history, early.1, early.2.2) =
        (seen session.conn.history, .ok (), session.store) ∧
      (seen late.2.1.history, late.1, late.2.2) =
        (seen session.conn.history, .ok (), session.store) ∧
      early.2.1.writer.sent = late.2.1.writer.sent := by
  intro early late
  have behind : session.conn.stream ≠ [] := by
    obtain ⟨body, rfl, _⟩ := whole
    simp [unread]
  obtain ⟨taken, told, stream, shown, resumes⟩ :=
    limitedServe_resumes handle arrives limited behind
  have same : taken = front := by
    rw [unread] at stream
    exact (List.append_cancel_right (input.symm.trans stream)).symm
  have fresh : seen session.conn.history = told := shown
  have ends : ∀ rest, limitedServe handle (front ++ (line ++ rest)) store =
      (seen session.conn.history, .ok (), session.store) := by
    intro rest
    have resumed := resumes (line ++ rest)
    rw [limitedServe_quit handle whole short quits, same, List.append_nil, ← fresh] at resumed
    exact resumed
  have one := (process_limited handle first overflow store).mpr limited
  have two := (process_limited handle second overflow store).mpr limited'
  rw [input, ends] at one
  rw [input', ends] at two
  have same : seen early.2.1.history = seen late.2.1.history :=
    congrArg Prod.fst (one.trans two.symm)
  refine ⟨one, two, ?_⟩
  rw [process_accounted handle first overflow store, process_accounted handle second overflow store,
    ← responses_seen, same, responses_seen]

end Prefixes

end Numbers

section Letters

def letterCommands : List Command :=
  [.store .set {
      key := ascii "k"
      flags := 7
      exptime := 0
      data := ascii "get a\r\n"
      noreply := true
      cas := none },
    .get [ascii "j", ascii "k"] true,
    .delete (ascii "k") false]

def letterSocket (tail : String) : Socket :=
  ⟨[ascii "set k 7 0 7 noreply\r\nget", ascii " a\r\n\r\ngets j", ascii " k\r",
    ascii ("\ndelete k\r\n" ++ tail)], by
      intro read among
      simp only [List.mem_cons, List.not_mem_nil, or_false] at among
      rcases among with rfl | rfl | rfl | rfl
      · decide
      · decide
      · decide
      · simp [ascii]⟩

theorem letterCommands_wellFormed : ∀ command ∈ letterCommands, command.WellFormed := by
  intro command among
  simp only [letterCommands, List.mem_cons, List.not_mem_nil, or_false] at among
  rcases among with rfl | rfl | rfl
  · exact ⟨by decide, by decide, by decide⟩
  · refine ⟨by decide, ?_⟩
    rw [List.forall_mem_cons, List.forall_mem_singleton]
    exact ⟨by decide, by decide⟩
  · exact (by decide : ValidKey (ascii "k"))

def untouched (_ : Nat) (store : Store) : Store := store

theorem letters_answered :
    (process (shared (fun _ => 1000) untouched) (letterSocket "") .tokio
        (Store.new, 0)).2.1.writer.delivered =
      ascii "VALUE k 7 7 1\r\nget a\r\n\r\nEND\r\nDELETED\r\n" := by
  have answered := pipeline_answered canonicalDecimals (fun _ => 1000) untouched letterCommands
    letterCommands_wellFormed (by decide) (letterSocket "") (by decide +kernel) .tokio .new
  exact answered.2.2.1.trans (by decide +kernel)

def quitSocket (tail : String) : Socket :=
  ⟨[ascii "bogus\r\nset k 7", ascii " 0 2\r\nab\r\nqu", ascii ("it now\r\n" ++ tail)], by
      intro read among
      simp only [List.mem_cons, List.not_mem_nil, or_false] at among
      rcases among with rfl | rfl | rfl
      · decide
      · decide
      · simp [ascii]⟩

theorem letters_quit :
    responses (process (handle 1000) (quitSocket "flush_all\r\n") .tokio
        Store.new).2.1.history = [.error, .stored] ∧
      (process (handle 1000) (quitSocket "flush_all\r\n") .tokio Store.new).2.1.writer.sent =
        (process (handle 1000) (quitSocket "") .tokio Store.new).2.1.writer.sent := by
  let start : Session Store := .start (quitSocket "flush_all\r\n") .tokio .new
  let erred := (start.next (handle 1000)).get (by decide +kernel)
  let stored := (erred.next (handle 1000)).get (by decide +kernel)
  have arrives : Reaches (Session.next (handle 1000)) start stored :=
    .tail (.tail .refl (Option.get_mem _)) (Option.get_mem _)
  have final := quit_final (handle 1000) (ascii "bogus\r\nset k 7 0 2\r\nab\r\n")
    (ascii "quit now\r\n") (ascii "flush_all\r\n") [] ⟨ascii "quit now\r", by decide, by decide⟩
    (by decide) (by decide +kernel) (quitSocket "flush_all\r\n") (quitSocket "")
    (by decide +kernel) (by decide +kernel) .tokio Store.new
    (fun _ => straddles_never (handle 1000) (by decide +kernel) .tokio Store.new)
    (fun _ => straddles_never (handle 1000) (by decide +kernel) .tokio Store.new)
    arrives (by decide +kernel)
  have shown := congrArg Prod.fst final.1
  refine ⟨?_, final.2.2⟩
  rw [← responses_seen]
  exact (congrArg responses shown).trans (by decide +kernel)

theorem letters_causal :
    responses (process (handle 1000) (letterSocket "") .tokio Store.new).2.1.history <+:
      responses (process (handle 1000) (letterSocket "flush_all\r\n") .tokio
        Store.new).2.1.history := by
  have causal := answers_causal (handle 1000) (letterSocket "") (letterSocket "flush_all\r\n")
    ⟨ascii "flush_all\r\n", by decide +kernel⟩ .tokio Store.new
    (fun _ => straddles_never (handle 1000) (by decide +kernel) .tokio Store.new)
    (fun _ => straddles_never (handle 1000) (by decide +kernel) .tokio Store.new)
  exact causal.2.1

end Letters

end Ousagi
