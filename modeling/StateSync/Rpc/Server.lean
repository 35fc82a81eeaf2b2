import StateSync.Lib.Lines
import StateSync.Lib.Machine
import StateSync.Rpc.Handler

/-!
# One connection

`handle_connection` as a machine. A turn of its loop waits in `select!` on three futures: the next
line, the next event of the subscription and the cancellation. The line is read by `read_line`,
which collects the bytes of the line inside its own future and hands them over when the line is
complete. When another arm of the `select!` fires, that future is dropped with the bytes in it.

The client, the network and the other tasks of the node move between any two steps: bytes arrive in
chunks of any size, and the store, the peer table and the event channel change under the handler.
-/

namespace StateSync

open Broadcast Lines

inductive ReadError
  | broken
  | invalidData
deriving DecidableEq, Repr

inductive Exit
  | eof
  | readError (error : ReadError)
  | writeError
  | cancelled
deriving DecidableEq, Repr

/-- While the loop waits in `select!`, the pending `read_line` holds the bytes it has `taken`. -/
inductive ConnectionPc
  | selecting (taken : List UInt8)
  | writing (line : Outgoing)
  | ended (exit : Exit)

/-- The bytes the client has yet to send (`unsent`), those that arrived and were not read (`inbox`),
and whether the stream ends there (`closed`). The `buffer` of the `BufReader` outlives the futures.
`dispatched` and `written` record the arguments of `dispatch` and the lines written in full. -/
structure Connection where
  unsent : List UInt8
  inbox : List UInt8
  closed : Bool
  buffer : List UInt8
  pc : ConnectionPc
  subscription : Option Receiver
  subPrefix : Option String
  handler : RpcHandler
  dispatched : List String
  written : List Outgoing

inductive ConnectionAction
  | arrive (n : Nat)
  | close
  | fill (n now : Nat) (lastSeenSecs : String → Nat)
  | event
  | write (ok : Bool)
  | cancel
  | readFails
  | others (state : StateMap) (peers : PeerTable) (sent : List StateEvent)

namespace Connection

def new (handler : RpcHandler) (text : List Char) : Connection where
  unsent := encode text
  inbox := []
  closed := false
  buffer := []
  pc := .selecting []
  subscription := none
  subPrefix := none
  handler := handler
  dispatched := []
  written := []

def bufferSize : Nat := 8192

/-- `fill_buf`: the bytes in the buffer, else up to `n` of those that arrived, with what is left of
them. At the end of the stream there are none; `none` is a wait. -/
def fillBuf (c : Connection) (n : Nat) : Option (List UInt8 × List UInt8) :=
  if c.buffer ≠ [] then some (c.buffer, c.inbox)
  else if c.inbox ≠ [] then
    if 0 < n ∧ n ≤ bufferSize then some (c.inbox.take n, c.inbox.drop n) else none
  else if c.closed then some ([], [])
  else none

/-- What follows when `read_line` completes with the bytes of a line: nothing to dispatch when the
line is blank. -/
def handleLine (fromStr : String → Except String RpcRequest) (now : Nat)
    (lastSeenSecs : String → Nat) (c : Connection) (line : List UInt8) : Connection :=
  match decode line with
  | none => { c with pc := .ended (.readError .invalidData) }
  | some text =>
      if trim text = [] then { c with pc := .selecting [] }
      else
        let trimmed := String.ofList (trim text)
        let (handler, result) := c.handler.dispatch fromStr now lastSeenSecs trimmed
        let c := { c with handler := handler, dispatched := c.dispatched ++ [trimmed] }
        match result with
        | .response resp => { c with pc := .writing resp }
        | .subscribed initialResponse receiver subPrefix =>
            { c with
              subscription := some receiver
              subPrefix := subPrefix
              pc := .writing initialResponse }
        | .notification => { c with pc := .selecting [] }

/-- One turn of the loop inside `read_line`: the available bytes are taken up to the newline, if
there is one, and completely if there is none. -/
def pollReadLine (fromStr : String → Except String RpcRequest) (n now : Nat)
    (lastSeenSecs : String → Nat) (c : Connection) (taken : List UInt8) : Option Connection := do
  let (available, inbox) ← c.fillBuf n
  match available.dropWhile (· ≠ newline) with
  | _ :: after =>
      let line := taken ++ available.takeWhile (· ≠ newline) ++ [newline]
      some (handleLine fromStr now lastSeenSecs { c with inbox := inbox, buffer := after } line)
  | [] =>
      let c := { c with inbox := inbox, buffer := [] }
      if available ≠ [] then some { c with pc := .selecting (taken ++ available) }
      else if taken = [] then some { c with pc := .ended .eof }
      else some (handleLine fromStr now lastSeenSecs c taken)

/-- The event arm: waits without a subscription, and while the receiver has nothing. The channel is
never closed, since the handler owns a sender of it. -/
def pollSubscription (c : Connection) : Option Connection := do
  let receiver ← c.subscription
  let (polled, receiver') ← c.handler.events.recv receiver
  let c := { c with subscription := some receiver' }
  match polled with
  | .value ev =>
      if c.subPrefix.all fun p => p.toList.isPrefixOf ev.key.toList then
        some { c with pc := .writing (.notification (.stateUpdate ev.key ev.value)) }
      else some { c with pc := .selecting [] }
  | .lagged n => some { c with pc := .writing (.notification (.lag n)) }

def step (fromStr : String → Except String RpcRequest) (c : Connection) :
    ConnectionAction → Option Connection
  | .arrive n =>
      if 0 < n ∧ n ≤ c.unsent.length then
        some { c with inbox := c.inbox ++ c.unsent.take n, unsent := c.unsent.drop n }
      else none
  | .close => if c.unsent = [] then some { c with closed := true } else none
  | .fill n now lastSeenSecs =>
      match c.pc with
      | .selecting taken => c.pollReadLine fromStr n now lastSeenSecs taken
      | _ => none
  | .event =>
      match c.pc with
      | .selecting _ => c.pollSubscription
      | _ => none
  | .write ok =>
      match c.pc with
      | .writing line =>
          if ok then some { c with written := c.written ++ [line], pc := .selecting [] }
          else some { c with pc := .ended .writeError }
      | _ => none
  | .cancel =>
      match c.pc with
      | .selecting _ => some { c with pc := .ended .cancelled }
      | _ => none
  | .readFails =>
      match c.pc with
      | .selecting _ => some { c with pc := .ended (.readError .broken) }
      | _ => none
  | .others state peers sent =>
      some { c with handler :=
        { store := { c.handler.store with state := state }
          events := c.handler.events.send sent
          peers := peers } }

/-- What a step can be, with everything it needs and does. -/
inductive Moves (fromStr : String → Except String RpcRequest) (c : Connection) :
    ConnectionAction → Connection → Prop
  | arrive {n : Nat} (hn : 0 < n ∧ n ≤ c.unsent.length) : Moves fromStr c (.arrive n)
      { c with inbox := c.inbox ++ c.unsent.take n, unsent := c.unsent.drop n }
  | close (hunsent : c.unsent = []) : Moves fromStr c .close { c with closed := true }
  | fill {n now : Nat} {lastSeenSecs : String → Nat} {taken : List UInt8} {c' : Connection}
      (hpc : c.pc = .selecting taken)
      (hpoll : c.pollReadLine fromStr n now lastSeenSecs taken = some c') :
      Moves fromStr c (.fill n now lastSeenSecs) c'
  | event {taken : List UInt8} {c' : Connection} (hpc : c.pc = .selecting taken)
      (hpoll : c.pollSubscription = some c') : Moves fromStr c .event c'
  | wrote {line : Outgoing} (hpc : c.pc = .writing line) : Moves fromStr c (.write true)
      { c with written := c.written ++ [line], pc := .selecting [] }
  | writeFailed {line : Outgoing} (hpc : c.pc = .writing line) : Moves fromStr c (.write false)
      { c with pc := .ended .writeError }
  | cancelled {taken : List UInt8} (hpc : c.pc = .selecting taken) : Moves fromStr c .cancel
      { c with pc := .ended .cancelled }
  | readFailed {taken : List UInt8} (hpc : c.pc = .selecting taken) : Moves fromStr c .readFails
      { c with pc := .ended (.readError .broken) }
  | others {state : StateMap} {peers : PeerTable} {sent : List StateEvent} :
      Moves fromStr c (.others state peers sent) { c with handler :=
        { store := { c.handler.store with state := state }
          events := c.handler.events.send sent
          peers := peers } }

theorem moves_of_step {fromStr : String → Except String RpcRequest} {c c' : Connection}
    {a : ConnectionAction} (hstep : c.step fromStr a = some c') : Moves fromStr c a c' := by
  cases a with
  | arrive n =>
      simp only [step, Option.ite_none_right_eq_some, Option.some.injEq] at hstep
      obtain ⟨hn, rfl⟩ := hstep
      exact .arrive hn
  | close =>
      simp only [step, Option.ite_none_right_eq_some, Option.some.injEq] at hstep
      obtain ⟨hunsent, rfl⟩ := hstep
      exact .close hunsent
  | others state peers sent =>
      obtain rfl := Option.some.inj hstep
      exact .others
  | write ok =>
      cases hpc : c.pc with
      | writing line =>
          simp only [step, hpc] at hstep
          cases ok with
          | true =>
              obtain rfl := Option.some.inj hstep
              exact .wrote hpc
          | false =>
              obtain rfl := Option.some.inj hstep
              exact .writeFailed hpc
      | _ => simp [step, hpc] at hstep
  | fill n now lastSeenSecs =>
      cases hpc : c.pc with
      | selecting taken =>
          simp only [step, hpc] at hstep
          exact .fill hpc hstep
      | _ => simp [step, hpc] at hstep
  | event =>
      cases hpc : c.pc with
      | selecting taken =>
          simp only [step, hpc] at hstep
          exact .event hpc hstep
      | _ => simp [step, hpc] at hstep
  | cancel =>
      cases hpc : c.pc with
      | selecting taken =>
          simp only [step, hpc, Option.some.injEq] at hstep
          subst hstep
          exact .cancelled hpc
      | _ => simp [step, hpc] at hstep
  | readFails =>
      cases hpc : c.pc with
      | selecting taken =>
          simp only [step, hpc, Option.some.injEq] at hstep
          subst hstep
          exact .readFailed hpc
      | _ => simp [step, hpc] at hstep

end Connection

end StateSync
