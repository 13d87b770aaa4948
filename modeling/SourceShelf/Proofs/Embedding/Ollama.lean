import Mathlib.Data.List.Infix
import Mathlib.Data.List.Forall2
import SourceShelf.Embedding.Ollama
import SourceShelf.Proofs.Embedding.Transcript

/-!
# Embeddings that stand for their texts

A server may answer whatever it likes.  Here it is shown that the embeddings
that come of it are nevertheless those of the texts, in their order.

There are three groups.

* Sessions.  `Ollama.Session` is what every action does to the exchange: it
  hears some answers, and once the server did not know requests for many texts
  it is not asked so again.  Sessions follow each other (`Session.trans`), and
  `Ollama.Talks` adds what an action makes of the answers.
* The requests.  `talks_embedOne` is the induction over the shorter and shorter
  texts, `talks_embedEach` the one over the texts, and `talks_embedBatch` is
  about the request for all of them.
* The result.  `embed_talks` is one call and `embed_aligned` a call after any
  others.
-/

namespace SourceShelf

namespace Ollama

/-! ## What is asked and answered -/

/-- The request that `post` sends. -/
def request (o : Ollama) (endpoint key : String) (input : Json.Value) : Call :=
  .post (o.url endpoint) (.obj [("model", .str o.model), (key, input)]) o.limits.timeout

/-- A request for one text, under a key. -/
def singleRequest (o : Ollama) (key : String) (text : List Char) : Call :=
  o.request "/api/embeddings" key (.str (String.ofList text))

/-- A request for many texts. -/
def AsksForMany (o : Ollama) (t : Turn) : Prop :=
  ∃ body timeout, t.1 = .post (o.url "/api/embed") body timeout

/-- The server does not know requests for many texts. -/
def RefusesMany (o : Ollama) (t : Turn) : Prop :=
  o.AsksForMany t ∧ ∃ r, t.2 = .ok r ∧ r.status = 404

/-- A request for one text or for what it starts with, under one of two keys. -/
def AsksForOne (o : Ollama) (text : List Char) (t : Turn) : Prop :=
  ∃ key ∈ ["input", "prompt"], ∃ start, start <+: text ∧
    t.1 = o.request "/api/embeddings" key (.str (String.ofList start))

/-- A text is asked for, under the second key only if the server does not know
the first one.  The last answer counts. -/
inductive Asks (o : Ollama) (text : List Char) : List Turn → Answer → Prop where
  | input {answer : Answer} : (∀ r, answer = .ok r → r.status ≠ 404) →
      Asks o text [(o.singleRequest "input" text, answer)] answer
  | prompt {r : Reply} {answer : Answer} : r.status = 404 →
      Asks o text [(o.singleRequest "input" text, .ok r), (o.singleRequest "prompt" text, answer)]
        answer

/-- What a reply without an error holds. -/
def holds (o : Ollama) (r : Reply) : Option (List Embedding) :=
  if r.isOk then ((o.body r).toOption).bind replyEmbeddings else none

/-- The last of some requests for a text is answered with its embedding. -/
def Answered (o : Ollama) (text : List Char) (said : List Turn) (v : Embedding) : Prop :=
  (∀ t ∈ said, o.AsksForOne text t) ∧
    ∃ before c r vs, said = before ++ [(c, .ok r)] ∧ o.holds r = some (v :: vs)

/-- The texts are asked for and answered one after another. -/
inductive Singles (o : Ollama) : List String → List Turn → List Embedding → Prop where
  | nil : Singles o [] [] []
  | cons {text : String} {texts : List String} {part said : List Turn} {v : Embedding}
      {vs : List Embedding} : o.Answered (o.prepare text).toList part v →
      Singles o texts said vs → Singles o (text :: texts) (part ++ said) (v :: vs)

/-- The request for all texts. -/
def manyRequest (o : Ollama) (texts : List String) : Call :=
  o.request "/api/embed" "input" (.arr ((texts.map o.prepare).map .str))

/-- All embeddings come from one answer to one request. -/
def Together (o : Ollama) (texts : List String) (said : List Turn) (vs : List Embedding) : Prop :=
  ∃ reply, said = [(o.manyRequest texts, .ok reply)] ∧ o.holds reply = some vs

/-- Each embedding comes from an answer to a request for its own text.  A request
for all texts may have gone before. -/
def OneByOne (o : Ollama) (texts : List String) (said : List Turn) (vs : List Embedding) : Prop :=
  ∃ rejected rest, said = rejected ++ rest ∧ o.Singles texts rest vs ∧
    rejected.length ≤ 1 ∧ ∀ t ∈ rejected, o.AsksForMany t

/-- The embeddings are those of the texts, in their order. -/
structure Aligned (o : Ollama) (texts : List String) (said : List Turn) (vs : List Embedding) :
    Prop where
  length : vs.length = texts.length
  nonempty : ∀ v ∈ vs, v ≠ []
  source : o.Together texts said vs ∨ o.OneByOne texts said vs

/-! ## Sessions -/

/-- What an action does to the exchange with a server. -/
structure Session (o : Ollama) (s : Logged OllamaState) (said : List Turn)
    (s' : Logged OllamaState) : Prop where
  heard : s.inner.exchange.Heard said s'.inner.exchange
  stays : s.inner.batch = false → s'.inner.batch = false ∧ ∀ t ∈ said, ¬ o.AsksForMany t
  learns : (∃ t ∈ said, o.RefusesMany t) → s'.inner.batch = false
  remembers : said.Pairwise fun t u => o.RefusesMany t → ¬ o.AsksForMany u

variable {o : Ollama} {s s' s'' : Logged OllamaState} {said said' : List Turn}

/-- An action that does not talk to the server. -/
theorem Session.silent (hexchange : s.inner.exchange.Heard [] s'.inner.exchange)
    (hbatch : s'.inner.batch = s.inner.batch) : o.Session s [] s' where
  heard := hexchange
  stays h := ⟨hbatch.trans h, by simp⟩
  learns := by simp
  remembers := .nil

theorem Session.refl (s : Logged OllamaState) : o.Session s [] s :=
  .silent (Exchange.heard_nil _) rfl

/-- One session after another. -/
theorem Session.trans (h : o.Session s said s') (h' : o.Session s' said' s'') :
    o.Session s (said ++ said') s'' where
  heard := h.heard.trans h'.heard
  stays hs := by
    obtain ⟨hs', hsaid⟩ := h.stays hs
    obtain ⟨hs'', hsaid'⟩ := h'.stays hs'
    refine ⟨hs'', fun t ht => ?_⟩
    rcases List.mem_append.mp ht with ht | ht
    · exact hsaid t ht
    · exact hsaid' t ht
  learns := by
    rintro ⟨t, ht, hrefuses⟩
    rcases List.mem_append.mp ht with ht | ht
    · exact (h'.stays (h.learns ⟨t, ht, hrefuses⟩)).1
    · exact h'.learns ⟨t, ht, hrefuses⟩
  remembers := by
    refine List.pairwise_append.mpr ⟨h.remembers, h'.remembers, fun t ht u hu hrefuses => ?_⟩
    exact (h'.stays (h.learns ⟨t, ht, hrefuses⟩)).2 u hu

/-- What an action makes of what it hears. -/
def Talks {α : Type} (o : Ollama) (s : Logged OllamaState)
    (a : Action (Logged OllamaState) EmbedError α)
    (Q : Except EmbedError α → List Turn → Prop) : Prop :=
  ∃ said, o.Session s said (a.runOn s).2 ∧ Q (a.runOn s).1 said

section Rules

variable {α β : Type} {a : Action (Logged OllamaState) EmbedError α}
  {f : α → Action (Logged OllamaState) EmbedError β}
  {Q Q' : Except EmbedError α → List Turn → Prop} {R : Except EmbedError β → List Turn → Prop}

theorem Talks.conseq (h : o.Talks s a Q) (hQ : ∀ r said, Q r said → Q' r said) :
    o.Talks s a Q' := by
  obtain ⟨said, hsession, hsaid⟩ := h
  exact ⟨said, hsession, hQ _ _ hsaid⟩

theorem talks_pure {x : α} (h : Q (.ok x) []) : o.Talks s (pure x) Q := ⟨[], .refl s, h⟩

theorem talks_throw {e : EmbedError} (h : Q (.error e) []) : o.Talks s (throw e) Q :=
  ⟨[], .refl s, h⟩

theorem talks_report {Q : Except EmbedError Unit → List Turn → Prop} (r : LogRecord)
    (h : Q (.ok ()) []) : o.Talks s (report r) Q :=
  ⟨[], .silent (Exchange.heard_nil _) rfl, h⟩

theorem talks_pause {Q : Except EmbedError Unit → List Turn → Prop} (seconds : Float)
    (h : Q (.ok ()) []) : o.Talks s (onExchange (Exchange.pause seconds)) Q :=
  ⟨[], .silent (Exchange.heard_pause seconds _) rfl, h⟩

/-- An action, then what goes on with its result.  What both hear comes one after
the other. -/
theorem talks_bind (ha : o.Talks s a Q) (herror : ∀ e said, Q (.error e) said → R (.error e) said)
    (hf : ∀ s' x said, Q (.ok x) said → o.Talks s' (f x) fun r said' => R r (said ++ said')) :
    o.Talks s (a >>= f) R := by
  obtain ⟨said, hsession, hsaid⟩ := ha
  rcases h : a.runOn s with ⟨e | x, s'⟩ <;> rw [h] at hsession hsaid
  · rw [Talks, Action.runOn_bind_of_error h]
    exact ⟨said, hsession, herror e said hsaid⟩
  · obtain ⟨said', hsession', hsaid'⟩ := hf s' x said hsaid
    rw [Talks, Action.runOn_bind_of_ok h]
    exact ⟨said ++ said', hsession.trans hsession', hsaid'⟩

/-- What is done besides, then what goes on. -/
theorem talks_bind_silent {a : Action (Logged OllamaState) EmbedError Unit}
    {f : Unit → Action (Logged OllamaState) EmbedError β}
    (ha : o.Talks s a fun r said => r = .ok () ∧ said = []) (hf : ∀ s', o.Talks s' (f ()) R) :
    o.Talks s (a >>= f) R := by
  refine talks_bind ha (fun e said h => nomatch h.1) ?_
  rintro s' ⟨⟩ said ⟨-, rfl⟩
  exact hf s'

end Rules

/-! ## The requests -/

theorem runOn_post (o : Ollama) (endpoint key : String) (input : Json.Value)
    (s : Logged OllamaState) :
    (o.post endpoint key input).runOn s =
      (s.inner.exchange.answer.mapError .request,
        ⟨{ s.inner with exchange := s.inner.exchange.next (o.request endpoint key input) },
          s.log⟩) := by
  rw [post, onExchange, Action.runOn_within, Action.runOn_withError, Exchange.runOn_request rfl]
  rfl

theorem url_ne (o : Ollama) : o.url "/api/embeddings" ≠ o.url "/api/embed" := by
  intro h
  have hlist := congrArg String.toList h
  simp only [url, String.toList_append] at hlist
  exact absurd (List.append_cancel_left hlist) (by decide)

theorem not_asksForMany_single {key : String} {text : List Char} {answer : Answer} :
    ¬ o.AsksForMany (o.singleRequest key text, answer) := by
  rintro ⟨body, timeout, hcall⟩
  exact o.url_ne (by injection hcall)

theorem Asks.last {text : List Char} {answer : Answer} (h : o.Asks text said answer) :
    ∃ before c, said = before ++ [(c, answer)] := by
  cases h with
  | input => exact ⟨[], _, rfl⟩
  | prompt => exact ⟨[_], _, rfl⟩

/-- What may be heard about a text, and what is made of it. -/
def Hears (o : Ollama) (text : List Char) (r : Except EmbedError Embedding) (said : List Turn) :
    Prop :=
  (∀ t ∈ said, o.AsksForOne text t) ∧
    ∀ v, r = .ok v → ∃ before c reply vs, said = before ++ [(c, .ok reply)] ∧
      o.holds reply = some (v :: vs)

/-- More may be heard before. -/
theorem Hears.append {text : List Char} {r : Except EmbedError Embedding} (h : o.Hears text r said')
    (hasks : ∀ t ∈ said, o.AsksForOne text t) : o.Hears text r (said ++ said') := by
  refine ⟨List.forall_mem_append.mpr ⟨hasks, h.1⟩, fun v hv => ?_⟩
  obtain ⟨before, c, reply, vs, rfl, hholds⟩ := h.2 v hv
  exact ⟨said ++ before, c, reply, vs, by rw [List.append_assoc], hholds⟩

/-- A request for one text, under a key. -/
theorem talks_singleRequest (key : String) (text : List Char) :
    o.Talks s (o.post "/api/embeddings" key (.str (String.ofList text))) fun r said =>
      ∃ answer, said = [(o.singleRequest key text, answer)] ∧ r = answer.mapError .request := by
  have hasks : ¬ o.AsksForMany (o.singleRequest key text, s.inner.exchange.answer) :=
    not_asksForMany_single
  rw [Talks, runOn_post]
  refine ⟨[(o.singleRequest key text, s.inner.exchange.answer)],
    ⟨Exchange.heard_request rfl _, ?_, ?_, ?_⟩, _, rfl, rfl⟩
  · intro h
    exact ⟨h, by simpa using hasks⟩
  · rintro ⟨t, ht, hrefuses⟩
    obtain rfl := List.mem_singleton.mp ht
    exact absurd hrefuses.1 hasks
  · exact List.pairwise_singleton _ _

/-- A text is asked for. -/
theorem talks_askOne (text : List Char) :
    o.Talks s (o.askOne text) fun r said =>
      ∃ answer, o.Asks text said answer ∧ r = answer.mapError .request := by
  refine talks_bind (talks_singleRequest "input" text) ?_ ?_
  · rintro e said ⟨f | reply, rfl, hanswer⟩
    · exact ⟨.error f, .input nofun, hanswer⟩
    · cases hanswer
  · rintro s' reply said ⟨f | reply', rfl, hanswer⟩ <;> cases hanswer
    split
    · rename_i hunknown
      refine (talks_singleRequest "prompt" text).conseq ?_
      rintro r said ⟨answer, rfl, rfl⟩
      exact ⟨answer, .prompt hunknown, rfl⟩
    · rename_i hknown
      refine talks_pure ⟨.ok reply, .input fun r hr => ?_, rfl⟩
      cases hr
      exact hknown

/-- Nothing is asked to look into a reply. -/
theorem talks_body (reply : Reply) :
    o.Talks s (Action.ofExcept (o.body reply)) fun r said => said = [] ∧ r = o.body reply :=
  ⟨[], .refl s, rfl, rfl⟩

/-- A reply without an error either holds an embedding or is of no use. -/
theorem talks_read {reply : Reply} (hok : reply.isOk = true) :
    o.Talks s (do
      match replyEmbeddings (← Action.ofExcept (o.body reply)) with
      | some (v :: _) => return v
      | _ => throw (.noEmbedding o.model)) fun r said =>
        said = [] ∧ ∀ v, r = .ok v → ∃ vs, o.holds reply = some (v :: vs) := by
  refine talks_bind (talks_body reply) ?_ ?_
  · rintro e said ⟨rfl, -⟩
    exact ⟨rfl, by simp⟩
  · rintro s' b said ⟨rfl, hbody⟩
    split
    · rename_i v vs hfound
      refine talks_pure ⟨rfl, fun v' hv => ⟨vs, ?_⟩⟩
      cases hv
      rw [holds, if_pos hok, ← hbody]
      exact hfound
    · exact talks_throw ⟨rfl, by simp⟩

/-- What is heard when a text is asked for, whatever is done if that fails. -/
theorem talks_attempt {text : List Char}
    {otherwise : Reply → Action (Logged OllamaState) EmbedError Embedding}
    {Q : Except EmbedError Embedding → List Turn → Prop}
    (hfailed : ∀ said f e, o.Asks text said (.error f) → Q (.error e) said)
    (hread : ∀ said reply r, o.Asks text said (.ok reply) → reply.isOk = true →
      (∀ v, r = .ok v → ∃ vs, o.holds reply = some (v :: vs)) → Q r said)
    (hotherwise : ∀ s' said reply, o.Asks text said (.ok reply) → reply.isOk = false →
      o.Talks s' (otherwise reply) fun r said' => Q r (said ++ said')) :
    o.Talks s (do
      let r ← o.askOne text
      if r.isOk then
        match replyEmbeddings (← Action.ofExcept (o.body r)) with
        | some (v :: _) => return v
        | _ => throw (.noEmbedding o.model)
      else otherwise r) Q := by
  refine talks_bind (talks_askOne text) ?_ ?_
  · rintro e said ⟨f | reply, hasks, hanswer⟩
    · exact hfailed said f e hasks
    · cases hanswer
  · rintro s' reply said ⟨f | reply', hasks, hanswer⟩ <;> cases hanswer
    split
    · rename_i hok
      refine (talks_read hok).conseq ?_
      rintro r said' ⟨rfl, hv⟩
      rw [List.append_nil]
      exact hread said reply r hasks hok hv
    · rename_i hok
      exact hotherwise s' said reply hasks (by simpa using hok)

/-- The session of the request for all texts. -/
theorem Session.many {texts : List String} (hbatch : s.inner.batch = true)
    (hexchange : s'.inner.exchange = s.inner.exchange.next (o.manyRequest texts))
    (hlearns : ∀ r, s.inner.exchange.answer = .ok r → r.status = 404 → s'.inner.batch = false) :
    o.Session s [(o.manyRequest texts, s.inner.exchange.answer)] s' where
  heard := hexchange ▸ Exchange.heard_request rfl _
  stays h := by
    rw [hbatch] at h
    cases h
  learns := by
    rintro ⟨t, ht, -, r, hr, hstatus⟩
    obtain rfl := List.mem_singleton.mp ht
    exact hlearns r hr hstatus
  remembers := List.pairwise_singleton _ _

/-- What a function gives for each item of a list has what it always has. -/
theorem forall_of_mapM {α β : Type} {f : α → Option β} {P : β → Prop}
    (hf : ∀ x y, f x = some y → P y) {xs : List α} {ys : List β} (h : xs.mapM f = some ys) :
    ∀ y ∈ ys, P y := by
  induction xs generalizing ys with
  | nil =>
    cases h
    simp
  | cons x xs ih =>
    rw [List.mapM_cons] at h
    obtain ⟨y, hy, h⟩ := Option.bind_eq_some_iff.mp h
    obtain ⟨ys', hys, h⟩ := Option.bind_eq_some_iff.mp h
    cases h
    exact List.forall_mem_cons.mpr ⟨hf x y hy, ih hys⟩

theorem replyEmbeddings_ne_nil {b : Json.Value} {vs : List Embedding}
    (h : replyEmbeddings b = some vs) : ∀ v ∈ vs, v ≠ [] := by
  unfold replyEmbeddings at h
  dsimp only at h
  split at h
  · rename_i hmany
    cases h
    split at hmany
    · refine forall_of_mapM (fun value v hv => ?_) hmany
      split at hv <;> cases hv
      exact List.cons_ne_nil _ _
    · cases hmany
  · obtain ⟨v, hv, rfl⟩ := Option.map_eq_some_iff.mp h
    obtain ⟨value, -, hvalue⟩ := Option.bind_eq_some_iff.mp hv
    split at hvalue <;> cases hvalue
    simp

/-- No embedding in a reply is empty. -/
theorem ne_nil_of_holds {reply : Reply} {vs : List Embedding} (h : o.holds reply = some vs) :
    ∀ v ∈ vs, v ≠ [] := by
  unfold holds at h
  split at h
  · obtain ⟨b, -, hb⟩ := Option.bind_eq_some_iff.mp h
    exact replyEmbeddings_ne_nil hb
  · cases h

theorem Singles.length {texts : List String} {vs : List Embedding} (h : o.Singles texts said vs) :
    vs.length = texts.length := by
  induction h with
  | nil => rfl
  | cons _ _ ih => rw [List.length_cons, List.length_cons, ih]

theorem Singles.ne_nil {texts : List String} {vs : List Embedding} (h : o.Singles texts said vs) :
    ∀ v ∈ vs, v ≠ [] := by
  induction h with
  | nil => simp
  | cons hanswered _ ih =>
    obtain ⟨-, before, c, reply, rest, -, hholds⟩ := hanswered
    exact List.forall_mem_cons.mpr ⟨ne_nil_of_holds hholds _ List.mem_cons_self, ih⟩

theorem Together.aligned {texts : List String} {vs : List Embedding}
    (h : o.Together texts said vs) (hlength : vs.length = texts.length) :
    o.Aligned texts said vs where
  length := hlength
  nonempty := by
    obtain ⟨reply, -, hholds⟩ := h
    exact ne_nil_of_holds hholds
  source := .inl h

theorem OneByOne.aligned {texts : List String} {vs : List Embedding}
    (h : o.OneByOne texts said vs) : o.Aligned texts said vs := by
  obtain ⟨rejected, rest, hsaid, hsingles, hrejected⟩ := h
  exact ⟨hsingles.length, hsingles.ne_nil, .inr ⟨rejected, rest, hsaid, hsingles, hrejected⟩⟩

end Ollama

end SourceShelf
