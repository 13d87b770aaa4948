import SourceShelf.Embedding.Exchange
import SourceShelf.Proofs.Action

/-!
# What is said in an exchange

An exchange only keeps the calls and the answers to come.  What a run of calls
gets to hear follows from both: each request takes the next answer, and the
server is silent when there are none left.  `Exchange.Heard` says that one
exchange leads to another and what requests and answers went by.

The rules are those of a run: nothing (`heard_nil`), one after another
(`Heard.trans`) and a request (`runOn_request`).
-/

namespace SourceShelf

/-- A request and its answer. -/
abbrev Turn := Call × Answer

/-- True for a call that is answered. -/
def Call.isRequest : Call → Bool
  | .post _ _ _ | .get _ _ => true
  | .pause _ => false

namespace Exchange

/-- The answer to the next request. -/
def answer (x : Exchange) : Answer := x.answers.headD (.error x.silence)

/-- The exchange after a call. -/
def next (x : Exchange) (c : Call) : Exchange :=
  { x with
    calls := x.calls ++ [c]
    answers := if c.isRequest then x.answers.tail else x.answers }

/-- The exchange after some calls. -/
def after (x : Exchange) (calls : List Call) : Exchange := calls.foldl next x

/-- The requests among some calls, with the answers that they get. -/
def turns (x : Exchange) : List Call → List Turn
  | [] => []
  | c :: calls => (if c.isRequest then [(c, x.answer)] else []) ++ (x.next c).turns calls

/-- An exchange leads to another one by some requests with their answers. -/
def Heard (x : Exchange) (said : List Turn) (x' : Exchange) : Prop :=
  ∃ calls, x' = x.after calls ∧ said = x.turns calls

variable {x x' x'' : Exchange} {said said' : List Turn}

theorem turns_append (x : Exchange) (calls calls' : List Call) :
    x.turns (calls ++ calls') = x.turns calls ++ (x.after calls).turns calls' := by
  induction calls generalizing x with
  | nil => rfl
  | cons c calls ih => simp only [List.cons_append, turns, ih, List.append_assoc, after,
      List.foldl_cons]

theorem heard_nil (x : Exchange) : x.Heard [] x := ⟨[], rfl, rfl⟩

theorem Heard.trans (h : x.Heard said x') (h' : x'.Heard said' x'') :
    x.Heard (said ++ said') x'' := by
  obtain ⟨calls, rfl, rfl⟩ := h
  obtain ⟨calls', rfl, rfl⟩ := h'
  refine ⟨calls ++ calls', ?_, (x.turns_append calls calls').symm⟩
  rw [after, after, after, List.foldl_append]

theorem heard_request {c : Call} (hc : c.isRequest = true) (x : Exchange) :
    x.Heard [(c, x.answer)] (x.next c) := ⟨[c], rfl, by simp [turns, hc]⟩

theorem heard_pause (seconds : Float) (x : Exchange) : x.Heard [] (x.next (.pause seconds)) :=
  ⟨[.pause seconds], rfl, rfl⟩

theorem runOn_request {c : Call} (hc : c.isRequest = true) (x : Exchange) :
    (request c).runOn x = (x.answer, x.next c) := by
  obtain ⟨_ | ⟨a, answers⟩, calls, silence⟩ := x <;> simp [request, Action.runOn,
    Action.ofFunction, answer, next, hc]

end Exchange

end SourceShelf
