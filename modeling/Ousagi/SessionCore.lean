import Ousagi.ConnectionTurns

/-!
The loop of `read_command` and the session loop of `session.rs`, for any command
handler: the handler's state stands for the shared store, which other sessions
may change between two commands.
-/

namespace Ousagi

section Handler

variable {σ : Type} (handle : Command → σ → Response × σ)

/-- The body of the session loop: the handler's response is written unless the client asked
for none. -/
def answer (command : Command) (conn : Connection) (store : σ) : Connection × σ :=
  let conn := conn.record (.received command)
  let noreply := command.noreply
  let (resp, store) := handle command store
  if noreply then (conn, store)
  else ((conn.writeResponse resp).record (.replied resp), store)

@[simp] theorem answer_stream (command : Command) (conn : Connection) (store : σ) :
    (answer handle command conn store).1.stream = conn.stream := by
  simp only [answer]
  split <;> rfl

end Handler

section Numbers

variable [FromRadix10SignedChecked UInt32] [FromRadix10SignedChecked UInt64]
  [FromRadix10SignedChecked Int64]

def Connection.readCommand (conn : Connection) : Except IoError (Option Command) × Connection :=
  match _ : conn.readCommandTurn.1 with
  | .again => conn.readCommandTurn.2.readCommand
  | .returned command => (.ok command, conn.readCommandTurn.2)
  | .failed error => (.error error, conn.readCommandTurn.2)
termination_by conn.stream.length
decreasing_by exact conn.readCommandTurn_shrinks (Or.inl (by assumption))

theorem Connection.readCommand_again {conn : Connection} (again : conn.readCommandTurn.1 = .again) :
    conn.readCommand = conn.readCommandTurn.2.readCommand := by
  rw [readCommand]
  split
  · rfl
  · rename_i turn
    simp [again] at turn
  · rename_i turn
    simp [again] at turn

theorem Connection.readCommand_returned {conn : Connection} {command : Option Command}
    (returned : conn.readCommandTurn.1 = .returned command) :
    conn.readCommand = (.ok command, conn.readCommandTurn.2) := by
  rw [readCommand]
  split
  · rename_i turn
    simp [returned] at turn
  · rename_i other turn
    rw [returned, Turn.returned.injEq] at turn
    rw [turn]
  · rename_i turn
    simp [returned] at turn

theorem Connection.readCommand_failed {conn : Connection} {error : IoError}
    (failed : conn.readCommandTurn.1 = .failed error) :
    conn.readCommand = (.error error, conn.readCommandTurn.2) := by
  rw [readCommand]
  split
  · rename_i turn
    simp [failed] at turn
  · rename_i turn
    simp [failed] at turn
  · rename_i other turn
    rw [failed, Turn.failed.injEq] at turn
    rw [turn]

theorem Connection.readCommand_shrinks (conn : Connection) {command : Command}
    (found : conn.readCommand.1 = .ok (some command)) :
    conn.readCommand.2.stream.length < conn.stream.length := by
  fun_induction readCommand conn with
  | case1 conn turn ih =>
      have shorter := conn.readCommandTurn_shrinks (Or.inl turn)
      have later := ih found
      omega
  | case2 conn other turn =>
      have same : other = some command := by simpa using found
      exact conn.readCommandTurn_shrinks (Or.inr ⟨command, by rw [turn, same]⟩)
  | case3 conn error turn => simp at found

variable {σ : Type} (handle : Command → σ → Response × σ)

def serve (conn : Connection) (store : σ) : Except IoError Unit × Connection × σ :=
  match _ : conn.readCommand.1 with
  | .error error => (.error error, conn.readCommand.2, store)
  | .ok none => (.ok (), conn.readCommand.2, store)
  | .ok (some command) =>
      serve (answer handle command conn.readCommand.2 store).1
        (answer handle command conn.readCommand.2 store).2
termination_by conn.stream.length
decreasing_by
  rw [answer_stream]
  exact conn.readCommand_shrinks (by assumption)

def process (socket : Socket) (overflow : Overflow) (store : σ) :
    Except IoError Unit × Connection × σ :=
  serve handle (.new socket overflow) store

end Numbers

end Ousagi
