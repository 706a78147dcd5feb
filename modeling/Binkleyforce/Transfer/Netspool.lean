import Binkleyforce.Util.Scan

/-!
# The network spool

A server that hands out further files to send, one at a time, over a line
protocol. What the server and the connection do is an input of each step; a
failed call leaves the spool in its error state.
-/

namespace Binkleyforce

/-- The states of the connection to the server. -/
inductive NsState where
  | notinit
  | unconf
  | error
  | ready
  | receiving
  | recvfile
  deriving DecidableEq, Repr

/-- `s_netspool_state`: `length` is what remains to be read of the file. -/
structure Netspool where
  state : NsState := .notinit
  filename : Bytes := []
  length : Nat := 0
  deriving DecidableEq, Repr

/-- What the server and the connection to it do while the next file is asked
for. A line that could not be read is `none`. -/
structure NetspoolReplies where
  configured : Bool := false
  connected : Bool := false
  queried : Bool := false
  first : Option Bytes := none
  second : Option Bytes := none
  deriving DecidableEq, Repr

namespace Netspool

/-- `netspool_start`. -/
def start (connected : Bool) (spool : Netspool) : Netspool :=
  { spool with state := if connected then .ready else .error }

/-- `netspool_query`. -/
def query (queried : Bool) (spool : Netspool) : Netspool :=
  { spool with state := if queried then .receiving else .error }

/-- `%Lu`: the value as it is stored in an `unsigned long long`. -/
def scanUnsigned (text : Bytes) : Option Nat :=
  let text := skipSpace text
  let negative := text.head? = some 45
  let digits := if negative || text.head? = some 43 then text.tail else text
  if (digits.takeWhile isdigit).isEmpty then none
  else
    let magnitude := leadingNumber digits
    if 2 ^ 64 ≤ magnitude then some (2 ^ 64 - 1)
    else some (if negative then (2 ^ 64 - magnitude) % 2 ^ 64 else magnitude)

/-- `netspool_receive`: the name of the next file and its length. -/
def receive (first second : Option Bytes) (spool : Netspool) : Netspool :=
  match first.map cstring with
  | none => { spool with state := .error }
  | some line =>
    if line = ascii "QUEUE EMPTY" then { spool with state := .ready }
    else if ascii "FILENAME " <+: line then
      let spool := { spool with filename := line.drop 9 }
      match second.map cstring with
      | none => { spool with state := .error }
      | some line =>
        if ascii "BINARY " <+: line then
          { spool with
            length := (scanUnsigned (line.drop 7)).getD spool.length
            state := .recvfile }
        else { spool with state := .error }
    else { spool with state := .error }

/-- `netspool_read`: at most `buflen` bytes of the file. The connection yields
`received`, nothing when it was shut down, or fails; `none` is the return of
-1. -/
def read (received : Option Bytes) (buflen : Nat) (spool : Netspool) : Netspool × Option Bytes :=
  if spool.length = 0 then (spool, some [])
  else
    match received with
    | none | some [] => ({ spool with state := .error }, none)
    | some bytes =>
      let part := bytes.take (min buflen spool.length)
      ({ spool with length := spool.length - part.length }, some part)

/-- `netspool_acknowledge`, with whether the line could be sent. The flag tells
that the server was told. -/
def acknowledge (told : Bool) (spool : Netspool) : Netspool × Bool :=
  if 0 < spool.length then ({ spool with state := .error }, false)
  else if told then ({ spool with state := .receiving, filename := [] }, true)
  else ({ spool with state := .error }, false)

/-- `netspool_end`. -/
def finish (spool : Netspool) : Netspool := { spool with state := .notinit }

/-- Connect where that was not done yet, and ask for files where the server is
ready for it. -/
def ask (replies : NetspoolReplies) (spool : Netspool) : Netspool :=
  let spool :=
    if spool.state = .notinit then
      if replies.configured then start replies.connected spool
      else { spool with state := .unconf }
    else spool
  if spool.state = .ready then query replies.queried spool else spool

/-- The last part of `prot_get_next_file`: see whether the server has a file. -/
def next (replies : NetspoolReplies) (noRemoteaddr : Bool) (spool : Netspool) : Netspool × Bool :=
  if spool.state = .notinit ∧ replies.configured ∧ noRemoteaddr then (spool, false)
  else if (ask replies spool).state = .receiving then
    let spool := receive replies.first replies.second (ask replies spool)
    if spool.state = .recvfile then (spool, true)
    else (if spool.state = .ready then finish spool else spool, false)
  else (ask replies spool, false)

/-- A file is offered only in the state in which it can be read. -/
theorem next_offers (replies : NetspoolReplies) (noRemoteaddr : Bool) (spool : Netspool)
    (offered : (next replies noRemoteaddr spool).2 = true) :
    (next replies noRemoteaddr spool).1.state = .recvfile := by
  unfold next at offered ⊢
  split
  · simp_all
  · split
    · dsimp only at offered ⊢
      split
      · assumption
      · simp_all
    · simp_all

end Netspool

end Binkleyforce
