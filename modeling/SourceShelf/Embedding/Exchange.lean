import SourceShelf.Action
import SourceShelf.Json.Value

/-!
# Talking to a server

An exchange holds the answers that are still to come and the calls that were
made, in order.  An answer is a reply or a failure of the request itself; a
reply with a status from 400 to 599 is no success.
-/

namespace SourceShelf

/-- Why a request got no reply: the kind of failure and its text. -/
structure RequestFailure where
  kind : String := "ConnectionError"
  message : String := "no answer"
deriving DecidableEq, Repr, Inhabited

/-- What a server replies. -/
structure Reply where
  status : Int := 200
  reason : String := ""
  text : String := "null"
deriving DecidableEq, Repr, Inhabited

namespace Reply

/-- True for a reply that says neither that the request nor that the server is
at fault. -/
def isOk (r : Reply) : Bool := r.status < 400 || 600 ≤ r.status

/-- What is wrong with the reply to a request. -/
def statusText (r : Reply) (url : String) : String :=
  toString r.status ++ (if r.status < 500 then " Client Error: " else " Server Error: ") ++
    r.reason ++ " for url: " ++ url

end Reply

/-- An answer to a request. -/
abbrev Answer := Except RequestFailure Reply

/-- What was done: a request with a body, a request without one, or a pause. -/
inductive Call where
  | post (url : String) (body : Json.Value) (timeout : Int)
  | get (url : String) (timeout : Int)
  | pause (seconds : Float)
deriving Repr, Inhabited

/-- The answers to come and the calls so far.  When there are no more answers,
`silence` is the answer. -/
structure Exchange where
  answers : List Answer := []
  calls : List Call := []
  silence : RequestFailure := {}
deriving Inhabited

namespace Exchange

/-- Makes a call that takes the next answer. -/
def request (c : Call) : Action Exchange RequestFailure Reply :=
  .ofFunction fun x =>
    let x' := { x with calls := x.calls ++ [c] }
    match x.answers with
    | [] => (.error x.silence, x')
    | a :: rest => (a, { x' with answers := rest })

/-- Waits. -/
def pause {ε : Type} (seconds : Float) : Action Exchange ε Unit :=
  modify fun x => { x with calls := x.calls ++ [.pause seconds] }

end Exchange

end SourceShelf
