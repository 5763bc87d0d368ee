import Ousagi.SessionReference

/-!
The limit on the length of a line: the session that applies it to the stream, and
the reads for which the code does so too.  A line beyond the limit is taken for a
command when a single read brings the buffer to the limit and the line to its end.
-/

namespace Ousagi

open Library StateTransition

/-- How many bytes are buffered when `read_line` stops to wait for more of them: the limit is
reached, or the input is at its end. -/
def fillTo (buffered : Nat) : List Bytes → Nat
  | [] => buffered
  | read :: later =>
      if maxLineLen ≤ buffered then buffered else fillTo (buffered + read.length) later

/-- The next line ends beyond the limit, and its end is buffered as soon as the limit is. -/
def Connection.straddles (conn : Connection) : Bool :=
  (memchr lf conn.stream).any fun pos =>
    maxLineLen ≤ pos && pos < fillTo conn.buffer.length conn.reader.arrivals

theorem fillTo_least (buffered : Nat) (arrivals : List Bytes) : buffered ≤ fillTo buffered arrivals := by
  induction arrivals generalizing buffered with
  | nil => exact Nat.le_refl buffered
  | cons read later ih =>
      rw [fillTo]
      split
      · exact Nat.le_refl buffered
      · exact Nat.le_trans (Nat.le_add_right buffered read.length) (ih _)

theorem fillTo_most (buffered : Nat) (arrivals : List Bytes) :
    fillTo buffered arrivals ≤ buffered + arrivals.flatten.length := by
  induction arrivals generalizing buffered with
  | nil => exact Nat.le_refl buffered
  | cons read later ih =>
      have further := ih (buffered + read.length)
      rw [fillTo, List.flatten_cons, List.length_append]
      split
      · omega
      · omega

theorem fillTo_full {buffered : Nat} (full : maxLineLen ≤ buffered) (arrivals : List Bytes) :
    fillTo buffered arrivals = buffered := by
  cases arrivals with
  | nil => rfl
  | cons read later => exact if_pos full

theorem fillTo_short {buffered : Nat} {arrivals : List Bytes}
    (short : fillTo buffered arrivals < maxLineLen) :
    fillTo buffered arrivals = buffered + arrivals.flatten.length := by
  induction arrivals generalizing buffered with
  | nil => rfl
  | cons read later ih =>
      rw [fillTo] at short ⊢
      split at short
      · omega
      · rename_i room
        rw [if_neg room, ih short, List.flatten_cons, List.length_append, Nat.add_assoc]

namespace Connection

theorem fillBuffer_fills {conn : Connection} (room : ¬maxLineLen ≤ conn.buffer.length) :
    fillTo conn.fillBuffer.2.buffer.length conn.fillBuffer.2.reader.arrivals =
      fillTo conn.buffer.length conn.reader.arrivals := by
  obtain ⟨⟨arrivals, nonempty⟩, writer, buffer, history⟩ := conn
  cases arrivals with
  | nil => simp [fillBuffer, flush, readBuf, record, Socket.readBuf, fillTo]
  | cons read later =>
      simp only [fillBuffer, flush, readBuf, record, Socket.readBuf, List.length_append, fillTo]
      rw [if_neg room]

theorem readLine_tooLong (conn : Connection) :
    conn.readLine.1 = .error .tooLong ↔
      maxLineLen ≤ fillTo conn.buffer.length conn.reader.arrivals ∧
        ∀ pos, memchr lf conn.stream = some pos →
          fillTo conn.buffer.length conn.reader.arrivals ≤ pos := by
  fun_induction readLine conn with
  | case1 conn pos found =>
      have bound := memchr_cut found
      have least := fillTo_least conn.buffer.length conn.reader.arrivals
      have whole : memchr lf conn.stream = some pos := memchr_append conn.reader.stream found
      simp only [reduceCtorEq, false_iff, not_and]
      intro _ beyond
      have further := beyond pos whole
      omega
  | case2 conn missing full =>
      simp only [true_iff]
      rw [fillTo_full full]
      refine ⟨full, ?_⟩
      intro pos found
      rw [stream, memchr_append_none conn.reader.stream missing] at found
      obtain ⟨offset, _, same⟩ := Option.map_eq_some_iff.mp found
      omega
  | case3 conn missing room empty =>
      have ended : conn.reader.arrivals.flatten = [] := fillBuffer_end empty
      have most := fillTo_most conn.buffer.length conn.reader.arrivals
      rw [ended, List.length_nil] at most
      simp only [reduceCtorEq, false_iff, not_and]
      omega
  | case4 conn missing room more ih =>
      rw [fillBuffer_stream, fillBuffer_fills room] at ih
      exact ih

end Connection

def Cut.goesOn (cut : Cut) : Bool :=
  match cut.turn with
  | .again | .returned (some _) => true
  | .returned none | .failed _ => false

def Event.isSeen : Event → Bool
  | .awaited _ => false
  | _ => true

def seen (history : List Event) : List Event := history.filter (·.isSeen)

theorem ParseError.response_other (error : ParseError) :
    error.response ≠ .clientError "line too long" := by
  obtain ⟨kind, discard⟩ := error
  cases kind <;> simp [response]

@[simp] theorem seen_append (first second : List Event) :
    seen (first ++ second) = seen first ++ seen second :=
  List.filter_append first second

@[simp] theorem seen_awaited (count : Nat) (unsent : Bytes) :
    seen (List.replicate count (.awaited unsent)) = [] := by
  simp [seen, Event.isSeen]

@[simp] theorem seen_rejected (response : Response) : seen [.rejected response] = [.rejected response] :=
  rfl

theorem responses_seen (history : List Event) : responses (seen history) = responses history := by
  rw [responses, seen, List.filterMap_filter]
  congr 1
  funext event
  cases event <;> rfl

namespace Connection

theorem Waited.seen_eq {count : Nat} {before after : Connection}
    (waited : Waited count before after) : seen after.history = seen before.history := by
  simp [waited.history]

end Connection

section Handler

variable {σ : Type} (handle : Command → σ → Response × σ)

def answered (command : Command) (store : σ) : List Event :=
  .received command :: if command.noreply then [] else [.replied (handle command store).1]

def Cut.told (store : σ) (cut : Cut) : List Event :=
  cut.rejection.toList.map .rejected ++
    match cut.turn with
    | .returned (some command) => answered handle command store
    | _ => []

def Cut.leaves (store : σ) (cut : Cut) : σ :=
  match cut.turn with
  | .returned (some command) => (handle command store).2
  | _ => store

theorem answer_seen (command : Command) (conn : Connection) (store : σ) :
    seen (answer handle command conn store).1.history =
      seen conn.history ++ answered handle command store := by
  simp only [answer, answered]
  split <;> simp [Connection.record, seen, Event.isSeen]

theorem answer_leaves (command : Command) (conn : Connection) (store : σ) :
    (answer handle command conn store).2 = (handle command store).2 := by
  simp only [answer]
  split <;> rfl

end Handler

section Numbers

variable [FromRadix10SignedChecked UInt32] [FromRadix10SignedChecked UInt64]
  [FromRadix10SignedChecked Int64]

/-- A pass that applies the limit to the line: only a line whose end is among its first bytes is
parsed, and a line beyond the limit is skipped with its end. -/
def cutLimited (stream : Bytes) : Cut :=
  match memchr lf stream with
  | none =>
      if stream.length < maxLineLen then
        { turn := .returned none, rejection := none, rest := stream }
      else
        { turn := .again, rejection := some (.clientError "line too long"), rest := [] }
  | some pos =>
      if pos < maxLineLen then
        cutLine (stripLineEnd (stream.take (pos + 1))) (stream.drop (pos + 1))
      else
        { turn := .again
          rejection := some (.clientError "line too long")
          rest := stream.drop (pos + 1) }

theorem cutLimited_shrinks {stream : Bytes} (goesOn : (cutLimited stream).goesOn) :
    (cutLimited stream).rest.length < stream.length := by
  have positive : 0 < maxLineLen := by decide
  simp only [cutLimited] at goesOn ⊢
  split at goesOn
  · split at goesOn
    · cases goesOn
    · rename_i long
      rw [if_neg long]
      exact Nat.lt_of_lt_of_le positive (Nat.not_lt.mp long)
  · rename_i pos found
    have bound := memchr_cut found
    split
    · have shorter := cutLine_rest (stripLineEnd (stream.take (pos + 1))) (stream.drop (pos + 1))
      rw [List.length_drop] at shorter
      omega
    · rw [List.length_drop]
      omega

/-- A session with the limit on the lines, told on the bytes of the client alone: what it shows,
how it ends, and the store that it leaves. -/
def limitedServe {σ : Type} (handle : Command → σ → Response × σ) (stream : Bytes) (store : σ) :
    List Event × Except IoError Unit × σ :=
  if _ : (cutLimited stream).goesOn then
    let (told, ending, last) := limitedServe handle (cutLimited stream).rest
      ((cutLimited stream).leaves handle store)
    ((cutLimited stream).told handle store ++ told, ending, last)
  else ((cutLimited stream).told handle store, (cutLimited stream).turn.ending, store)
termination_by stream.length
decreasing_by exact cutLimited_shrinks (by assumption)

theorem cutLine_again {line rest : Bytes} (again : (cutLine line rest).turn = .again) :
    ∃ response, (cutLine line rest).rejection = some response ∧
      response ≠ .clientError "line too long" := by
  simp only [cutLine, cutPayload] at again ⊢
  cases parsed : parseCommandLine line with
  | error error => exact ⟨error.response, rfl, error.response_other⟩
  | ok header =>
      cases header with
      | immediate command => simp [parsed] at again
      | store pending =>
          simp only [parsed] at again ⊢
          split at again
          · simp at again
          · rename_i enough
            rw [if_neg enough]
            split at again
            · simp at again
            · rename_i chunk
              rw [if_neg chunk]
              exact ⟨_, rfl, by simp⟩
      | quit => simp [parsed] at again

theorem cutTurn_again {stream : Bytes} (again : (cutTurn stream).turn = .again) :
    ∃ response, (cutTurn stream).rejection = some response ∧
      response ≠ .clientError "line too long" := by
  simp only [cutTurn] at again ⊢
  split at again
  · simp at again
  · exact cutLine_again again

structure Connection.Passes (conn : Connection) (cut : Cut) : Prop where
  turn : conn.readCommandTurn.1 = cut.turn
  rest : conn.readCommandTurn.2.stream = cut.rest
  rejected : seen conn.readCommandTurn.2.history =
    seen conn.history ++ cut.rejection.toList.map .rejected

namespace Connection

variable {conn : Connection}

theorem passes_handed (handed : conn.readLine.1 ≠ .error .tooLong) :
    conn.Passes (cutTurn conn.stream) := by
  obtain ⟨_, middle, waited, rest, step, _⟩ := readCommandTurn_handed handed
  constructor
  · rw [step]
  · rw [step, ← rest]
    cases (cutTurn conn.stream).rejection <;> rfl
  · rw [step, ← waited.seen_eq]
    cases (cutTurn conn.stream).rejection <;> simp

theorem passes_tooLong (long : conn.readLine.1 = .error .tooLong) :
    conn.Passes (cutLimited conn.stream) := by
  obtain ⟨reached, beyond⟩ := conn.readLine_tooLong.mp long
  obtain ⟨_, full, waited, same, missing, filled, _, step⟩ := readCommandTurn_tooLong long
  obtain ⟨_, stalled, _, outcome⟩ := full.discardUntilNewline_cases
  have shown : seen full.discardUntilNewline.history = seen conn.history := by
    rw [← waited.seen_eq, stalled.history]
    simp
  rw [same] at outcome
  have whole : maxLineLen ≤ conn.stream.length := by
    rw [← same, stream, List.length_append]
    omega
  rcases outcome with ⟨pos, found, rest⟩ | ⟨none, rest⟩
  · have outside : ¬pos < maxLineLen := by
      have further := beyond pos found
      omega
    have cut : cutLimited conn.stream = { turn := .again
                                          rejection := some (.clientError "line too long")
                                          rest := conn.stream.drop (pos + 1) } := by
      simp only [cutLimited, found, if_neg outside]
    rw [cut]
    exact ⟨by rw [step], by rw [step]; exact rest, by rw [step]; simp [shown]⟩
  · have cut : cutLimited conn.stream = { turn := .again
                                          rejection := some (.clientError "line too long")
                                          rest := [] } := by
      simp only [cutLimited, none, if_neg (Nat.not_lt.mpr whole)]
    rw [cut]
    exact ⟨by rw [step], by rw [step]; exact rest, by rw [step]; simp [shown]⟩

theorem cutTurn_limited (handed : conn.readLine.1 ≠ .error .tooLong) (whole : ¬conn.straddles) :
    cutTurn conn.stream = cutLimited conn.stream := by
  have length : conn.stream.length = conn.buffer.length + conn.reader.arrivals.flatten.length := by
    rw [stream, List.length_append, Socket.stream]
  rw [Ne, readLine_tooLong, not_and_or] at handed
  cases found : memchr lf conn.stream with
  | none =>
      have short : fillTo conn.buffer.length conn.reader.arrivals < maxLineLen := by
        simpa [found] using handed
      have all := fillTo_short short
      have inside : conn.stream.length < maxLineLen := by omega
      simp only [cutTurn, cutLimited, found, if_pos inside]
  | some pos =>
      have bound := memchr_cut found
      have inside : pos < maxLineLen := by
        by_contra outside
        by_cases short : fillTo conn.buffer.length conn.reader.arrivals < maxLineLen
        · have all := fillTo_short short
          omega
        · simp only [straddles, found, Option.any_some, Bool.and_eq_true, decide_eq_true_eq] at whole
          simp only [found, Option.some.injEq, forall_eq'] at handed
          omega
      simp only [cutTurn, cutLimited, found, if_pos inside]

theorem passes_limited (whole : ¬conn.straddles) : conn.Passes (cutLimited conn.stream) := by
  by_cases long : conn.readLine.1 = .error .tooLong
  · exact passes_tooLong long
  · rw [← cutTurn_limited long whole]
    exact passes_handed long

theorem passes_straddling (straddling : conn.straddles) :
    conn.Passes (cutTurn conn.stream) ∧ (cutLimited conn.stream).turn = .again ∧
      (cutLimited conn.stream).rejection = some (.clientError "line too long") := by
  obtain ⟨pos, found⟩ : ∃ pos, memchr lf conn.stream = some pos := by
    cases found : memchr lf conn.stream with
    | none => simp [straddles, found] at straddling
    | some pos => exact ⟨pos, rfl⟩
  simp only [straddles, found, Option.any_some, Bool.and_eq_true, decide_eq_true_eq] at straddling
  refine ⟨passes_handed ?_, ?_⟩
  · rw [Ne, readLine_tooLong]
    rintro ⟨_, beyond⟩
    have further := beyond pos found
    omega
  · simp only [cutLimited, found, if_neg (Nat.not_lt.mpr straddling.1), and_self]

theorem passes_limited_iff : conn.Passes (cutLimited conn.stream) ↔ ¬conn.straddles := by
  refine ⟨?_, passes_limited⟩
  intro limited straddling
  obtain ⟨handed, turn, rejection⟩ := passes_straddling straddling
  obtain ⟨response, rejected, other⟩ := cutTurn_again (handed.turn.symm.trans (limited.turn.trans turn))
  have same := handed.rejected.symm.trans limited.rejected
  rw [rejected, rejection] at same
  simp [other] at same

end Connection

section Sessions

variable {σ : Type} (handle : Command → σ → Response × σ)

theorem Session.next_passes {before after : Session σ} {cut : Cut}
    (passes : before.conn.Passes cut) (step : before.next handle = some after) :
    cut.goesOn ∧ after.conn.stream = cut.rest ∧ after.store = cut.leaves handle before.store ∧
      seen after.conn.history = seen before.conn.history ++ cut.told handle before.store := by
  rcases before.next_cases handle step with ⟨turn, same⟩ | ⟨command, turn, conn, store⟩
  · rw [passes.turn] at turn
    subst same
    simp [Cut.goesOn, Cut.leaves, Cut.told, turn, passes.rest, passes.rejected]
  · rw [passes.turn] at turn
    simp [Cut.goesOn, Cut.leaves, Cut.told, turn, conn, store, answer_seen, answer_leaves,
      passes.rest, passes.rejected]

theorem Session.stopped_passes {session : Session σ} {cut : Cut}
    (passes : session.conn.Passes cut) (stopped : session.next handle = none) :
    ¬cut.goesOn ∧ seen session.conn.readCommandTurn.2.history =
      seen session.conn.history ++ cut.told handle session.store := by
  rcases session.next_stopped handle stopped with turn | ⟨error, turn⟩
  · rw [passes.turn] at turn
    simp [Cut.goesOn, Cut.told, turn, passes.rejected]
  · rw [passes.turn] at turn
    simp [Cut.goesOn, Cut.told, turn, passes.rejected]

theorem cutTurn_told {stream : Bytes} {store : σ} {later other : List Event}
    (ended : ¬(cutTurn stream).goesOn → later = []) :
    (cutTurn stream).told handle store ++ later ≠
      .rejected (.clientError "line too long") :: other := by
  intro same
  cases turn : (cutTurn stream).turn with
  | again =>
      obtain ⟨response, rejected, different⟩ := cutTurn_again turn
      simp [Cut.told, turn, rejected, different] at same
  | returned command =>
      have quiet : (cutTurn stream).rejection = none := by
        by_contra rejects
        simp [cutTurn_rejects rejects] at turn
      cases command with
      | none => simp [Cut.told, turn, quiet, ended (by simp [Cut.goesOn, turn])] at same
      | some command => simp [Cut.told, turn, quiet, answered] at same
  | failed error =>
      have quiet : (cutTurn stream).rejection = none := by
        by_contra rejects
        simp [cutTurn_rejects rejects] at turn
      simp [Cut.told, turn, quiet, ended (by simp [Cut.goesOn, turn])] at same

theorem limitedServe_onward {stream : Bytes} (goesOn : (cutLimited stream).goesOn) (store : σ) :
    limitedServe handle stream store =
      let later := limitedServe handle (cutLimited stream).rest
        ((cutLimited stream).leaves handle store)
      ((cutLimited stream).told handle store ++ later.1, later.2) := by
  rw [limitedServe, dif_pos goesOn]

theorem limitedServe_ended {stream : Bytes} (ended : ¬(cutLimited stream).goesOn) (store : σ) :
    limitedServe handle stream store =
      ((cutLimited stream).told handle store, (cutLimited stream).turn.ending, store) := by
  rw [limitedServe, dif_neg ended]

theorem limitedServe_refuses {stream : Bytes} (again : (cutLimited stream).turn = .again)
    (refused : (cutLimited stream).rejection = some (.clientError "line too long")) (store : σ) :
    ∃ other, (limitedServe handle stream store).1 =
      .rejected (.clientError "line too long") :: other := by
  rw [limitedServe_onward handle (by simp [Cut.goesOn, again])]
  simp [Cut.told, again, refused]

/-- What a session shows from here on is what the limited session shows of the bytes still to be
read, exactly if none of its passes meets a line that straddles the limit. -/
theorem Session.serve_limited (session : Session σ) :
    let result := serve handle session.conn session.store
    ∃ told, seen result.2.1.history = seen session.conn.history ++ told ∧
      ((told, result.1, result.2.2) = limitedServe handle session.conn.stream session.store ↔
        ∀ reached, Reaches (Session.next handle) session reached → ¬reached.conn.straddles) := by
  induction size : session.conn.stream.length using Nat.strongRecOn generalizing session with
  | ind size ih =>
      cases step : session.next handle with
      | none =>
          rw [session.serve_stopped handle step, forall_reaches_stopped step]
          by_cases straddling : session.conn.straddles
          · obtain ⟨passes, again, refused⟩ := Connection.passes_straddling straddling
            obtain ⟨ended, shown⟩ := Session.stopped_passes handle passes step
            obtain ⟨other, first⟩ := limitedServe_refuses handle again refused session.store
            refine ⟨_, shown, iff_of_false ?_ (not_not_intro straddling)⟩
            intro same
            have begins := (congrArg Prod.fst same).trans first
            rw [← List.append_nil (Cut.told handle session.store _)] at begins
            exact cutTurn_told handle (fun _ => rfl) begins
          · have passes := Connection.passes_limited straddling
            obtain ⟨ended, shown⟩ := Session.stopped_passes handle passes step
            refine ⟨_, shown, iff_of_true ?_ straddling⟩
            rw [limitedServe_ended handle ended, passes.turn]
      | some after =>
          have shorter := Session.next_shrinks handle step
          obtain ⟨later, known, agrees⟩ := ih after.conn.stream.length (by omega) after rfl
          rw [Session.next_serve handle step, forall_reaches_onward step]
          by_cases straddling : session.conn.straddles
          · obtain ⟨passes, again, refused⟩ := Connection.passes_straddling straddling
            obtain ⟨goesOn, _, _, shown⟩ := Session.next_passes handle passes step
            obtain ⟨other, first⟩ := limitedServe_refuses handle again refused session.store
            refine ⟨_, by rw [known, shown, List.append_assoc], iff_of_false ?_ (·.1 straddling)⟩
            intro same
            exact cutTurn_told handle (absurd goesOn) ((congrArg Prod.fst same).trans first)
          · have passes := Connection.passes_limited straddling
            obtain ⟨goesOn, rest, kept, shown⟩ := Session.next_passes handle passes step
            refine ⟨_, by rw [known, shown, List.append_assoc], ?_⟩
            rw [limitedServe_onward handle goesOn, ← rest, ← kept]
            simp only [straddling, Bool.false_eq_true, not_false_eq_true, true_and, ← agrees,
              Prod.ext_iff, List.append_cancel_left_eq]

theorem process_limited (socket : Socket) (overflow : Overflow) (store : σ) :
    let result := process handle socket overflow store
    (seen result.2.1.history, result.1, result.2.2) = limitedServe handle socket.stream store ↔
      ∀ session, Reaches (Session.next handle) (.start socket overflow store) session →
        ¬session.conn.straddles := by
  obtain ⟨told, shown, agrees⟩ := Session.serve_limited handle (.start socket overflow store)
  have fresh : seen (process handle socket overflow store).2.1.history = told := shown
  rw [← agrees, ← fresh]
  rfl

/-- The limit is applied to a line exactly if no read takes the buffer to the limit and the line
past it to its end; a session whose lines are all so does what the limited session does, and
depends on the bytes of the client alone. -/
theorem limit_applies :
    (∀ conn : Connection, conn.Passes (cutLimited conn.stream) ↔ ¬conn.straddles) ∧
    (∀ (socket : Socket) (overflow : Overflow) (store : σ),
      let result := process handle socket overflow store
      (seen result.2.1.history, result.1, result.2.2) = limitedServe handle socket.stream store ↔
        ∀ session, Reaches (Session.next handle) (.start socket overflow store) session →
          ¬session.conn.straddles) ∧
    ∀ (first second : Socket) (overflow : Overflow) (store : σ), first.stream = second.stream →
      (∀ session, Reaches (Session.next handle) (.start first overflow store) session →
        ¬session.conn.straddles) →
      (∀ session, Reaches (Session.next handle) (.start second overflow store) session →
        ¬session.conn.straddles) →
      let early := process handle first overflow store
      let late := process handle second overflow store
      seen early.2.1.history = seen late.2.1.history ∧ early.1 = late.1 ∧
        early.2.2 = late.2.2 ∧ early.2.1.writer.sent = late.2.1.writer.sent := by
  refine ⟨fun conn => Connection.passes_limited_iff, process_limited handle, ?_⟩
  intro first second overflow store same unstraddled unstraddled' early late
  have told := (process_limited handle first overflow store).mpr unstraddled
  have told' := (process_limited handle second overflow store).mpr unstraddled'
  rw [same, ← told'] at told
  obtain ⟨shown, ending, kept⟩ : seen early.2.1.history = seen late.2.1.history ∧
      early.1 = late.1 ∧ early.2.2 = late.2.2 := by
    simpa only [Prod.mk.injEq] using told
  refine ⟨shown, ending, kept, ?_⟩
  rw [process_accounted handle first overflow store, process_accounted handle second overflow store,
    ← responses_seen, shown, responses_seen]

theorem straddles_never {socket : Socket} (short : socket.stream.length ≤ maxLineLen)
    (overflow : Overflow) (store : σ) {session : Session σ}
    (reached : Reaches (Session.next handle) (.start socket overflow store) session) :
    ¬session.conn.straddles := by
  have bound : session.conn.stream.length ≤ maxLineLen := by
    refine reaches_invariant (fun session : Session σ => session.conn.stream.length ≤ maxLineLen)
      reached short ?_
    intro before after _ step small
    exact Nat.le_trans (Nat.le_of_lt (Session.next_shrinks handle step)) small
  rw [Connection.straddles]
  cases found : memchr lf session.conn.stream with
  | none => simp
  | some pos =>
      have inside := memchr_cut found
      simp only [Option.any_some, Bool.and_eq_true, decide_eq_true_eq]
      omega

end Sessions

end Numbers

section Splitting

theorem split_agrees :
    let early := process (handle 1000) splitSocket .tokio Store.new
    let late := process (handle 1000) ⟨[splitSocket.stream], by decide⟩ .tokio Store.new
    seen early.2.1.history = seen late.2.1.history ∧ early.1 = late.1 ∧ early.2.2 = late.2.2 ∧
      early.2.1.writer.sent = late.2.1.writer.sent :=
  (limit_applies (handle 1000)).2.2 splitSocket ⟨[splitSocket.stream], by decide⟩ .tokio Store.new
    (by decide) (fun _ => straddles_never (handle 1000) (by decide) .tokio Store.new)
    (fun _ => straddles_never (handle 1000) (by decide) .tokio Store.new)

def versionSocket (second third : Nat) : Socket where
  arrivals := [ascii "version", space :: List.replicate second space,
    List.replicate third space ++ [lf]]
  nonempty := by
    intro read member
    rw [List.mem_cons, List.mem_cons, List.mem_singleton] at member
    rcases member with same | same | same
    · rw [same]
      decide
    · rw [same]
      exact List.cons_ne_nil _ _
    · rw [same]
      exact List.append_ne_nil_of_right_ne_nil _ (List.cons_ne_nil _ _)

theorem versionSocket_stream (second third : Nat) :
    (versionSocket second (third + 1)).stream = (versionSocket (second + 1) third).stream := by
  have same : List.replicate second space ++ List.replicate (third + 1) space =
      List.replicate (second + 1) space ++ List.replicate third space := by
    rw [List.replicate_append_replicate, List.replicate_append_replicate]
    congr 1
    omega
  simp only [versionSocket, Socket.stream, List.flatten_cons, List.flatten_nil, List.append_nil,
    List.cons_append, ← List.append_assoc, same]

/-- The line is executed or refused as its second read ends a byte before the limit or at it. -/
theorem version_straddles :
    (versionSocket 8183 1).stream = (versionSocket 8184 0).stream ∧
      responses (process (handle 1000) (versionSocket 8183 1) .tokio Store.new).2.1.history =
        [.version "0.2.0"] ∧
      responses (process (handle 1000) (versionSocket 8184 0) .tokio Store.new).2.1.history =
        [.clientError "line too long"] :=
  ⟨versionSocket_stream 8183 0, by decide +kernel, by decide +kernel⟩

end Splitting

end Ousagi
