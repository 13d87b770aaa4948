import SourceShelf.Proofs.Embedding.Ollama

/-!
# Texts that are made to fit

Two things keep a text within what a server takes.

* Before it is sent, `Ollama.prepare` removes what no model wants and cuts it.
  `prepare_of_clean` says which texts stay as they are, and `fits_prepare` that
  a prepared text is one of them.
* When the server fails, `Ollama.embedOne` tries a shorter text.  An `Attempt`
  is one text with the requests for it and the answer that counts;
  `Ollama.Shrinking` says what the attempts with a text are, however it ends.
  The induction of `talks_tries` is over the times that the text may still
  be made shorter.
-/

namespace SourceShelf

/-! ## Line ends -/

theorem unifyReturns_cons {c : Char} (hc : c ≠ '\r') (cs : List Char) :
    unifyReturns (c :: cs) = c :: unifyReturns cs :=
  unifyReturns.eq_3 c cs (fun _ h _ => hc h) hc

theorem eq_or_mem_of_mem_unifyReturns {c : Char} {cs : List Char} (h : c ∈ unifyReturns cs) :
    c = '\n' ∨ c ∈ cs ∧ c ≠ '\r' := by
  fun_induction unifyReturns cs with
  | case1 cs ih =>
    rcases List.mem_cons.mp h with rfl | h
    · exact .inl rfl
    · exact (ih h).imp_right fun ⟨hmem, hne⟩ => ⟨by simp [hmem], hne⟩
  | case2 cs _ ih =>
    rcases List.mem_cons.mp h with rfl | h
    · exact .inl rfl
    · exact (ih h).imp_right fun ⟨hmem, hne⟩ => ⟨by simp [hmem], hne⟩
  | case3 c' cs _ hc ih =>
    rcases List.mem_cons.mp h with rfl | h
    · exact .inr ⟨List.mem_cons_self, hc⟩
    · exact (ih h).imp_right fun ⟨hmem, hne⟩ => ⟨by simp [hmem], hne⟩
  | case4 => cases h

theorem unifyReturns_of_not_mem {cs : List Char} (h : '\r' ∉ cs) : unifyReturns cs = cs := by
  induction cs with
  | nil => rfl
  | cons c cs ih =>
    rw [List.mem_cons, not_or] at h
    rw [unifyReturns_cons (Ne.symm h.1), ih h.2]

namespace Ollama

/-! ## Prepared texts -/

/-- A text that can be sent as it is. -/
structure Fits (o : Ollama) (text : String) : Prop where
  noNul : '\x00' ∉ text.toList
  noReturn : '\r' ∉ text.toList
  atMost : 0 < o.limits.maxChars → (text.length : Int) ≤ o.limits.maxChars
  prepared : o.prepare text = text

variable {o : Ollama}

/-- Cutting at the limit. -/
def cut (o : Ollama) (cs : List Char) : List Char :=
  if 0 < o.limits.maxChars then cs.take o.limits.maxChars.toNat else cs

theorem prepare_toList (o : Ollama) (text : String) :
    (o.prepare text).toList = o.cut (unifyReturns (text.toList.filter (· ≠ '\x00'))) :=
  String.toList_ofList

theorem cut_subset (o : Ollama) (cs : List Char) : o.cut cs ⊆ cs := by
  rw [cut]
  split
  · exact List.take_subset _ _
  · exact List.Subset.refl cs

theorem length_cut_le (hlimit : 0 < o.limits.maxChars) (cs : List Char) :
    ((o.cut cs).length : Int) ≤ o.limits.maxChars := by
  rw [cut, if_pos hlimit]
  have := List.length_take_le o.limits.maxChars.toNat cs
  omega

theorem cut_of_length_le {cs : List Char}
    (h : 0 < o.limits.maxChars → (cs.length : Int) ≤ o.limits.maxChars) : o.cut cs = cs := by
  rw [cut]
  split
  · rename_i hlimit
    have := h hlimit
    exact List.take_of_length_le (by omega)
  · rfl

/-- Which texts stay as they are. -/
theorem prepare_of_clean {text : String} (hnul : '\x00' ∉ text.toList)
    (hreturn : '\r' ∉ text.toList)
    (hlength : 0 < o.limits.maxChars → (text.length : Int) ≤ o.limits.maxChars) :
    o.prepare text = text := by
  have hfilter : text.toList.filter (· ≠ '\x00') = text.toList := by
    refine List.filter_eq_self.mpr fun c hc => decide_eq_true fun h => hnul ?_
    exact h ▸ hc
  rw [← String.toList_inj, prepare_toList, hfilter, unifyReturns_of_not_mem hreturn]
  exact cut_of_length_le (by rwa [String.length_toList])

/-- A prepared text fits.  A NUL between a carriage return and a line feed is
gone before the two are looked for, and a cut between them comes after. -/
theorem fits_prepare (o : Ollama) (text : String) : o.Fits (o.prepare text) := by
  have hmem : ∀ c ∈ (o.prepare text).toList, c ≠ '\x00' ∧ c ≠ '\r' := by
    intro c hc
    rw [prepare_toList] at hc
    rcases eq_or_mem_of_mem_unifyReturns (o.cut_subset _ hc) with rfl | ⟨hc, hreturn⟩
    · decide
    · exact ⟨by simpa using (List.mem_filter.mp hc).2, hreturn⟩
  have hnul : '\x00' ∉ (o.prepare text).toList := fun h => (hmem _ h).1 rfl
  have hreturn : '\r' ∉ (o.prepare text).toList := fun h => (hmem _ h).2 rfl
  have hlength : 0 < o.limits.maxChars → ((o.prepare text).length : Int) ≤ o.limits.maxChars := by
    intro hlimit
    rw [← String.length_toList, prepare_toList]
    exact length_cut_le hlimit _
  exact ⟨hnul, hreturn, hlength, prepare_of_clean hnul hreturn hlength⟩

/-! ## Attempts -/

/-- One text with the requests for it and the answer that counts. -/
structure Attempt where
  text : List Char
  turns : List Turn
  answer : Answer

/-- The server fails with a text that is long enough to be made shorter. -/
def MayShrink (o : Ollama) (a : Attempt) : Prop :=
  ∃ r, a.answer = .ok r ∧ r.isOk = false ∧ 500 ≤ r.status ∧ o.limits.minChars < a.text.length

/-- An attempt and the next one. -/
structure Retries (o : Ollama) (a b : Attempt) : Prop where
  mayShrink : o.MayShrink a
  shorter : b.text.length < a.text.length ∨ a.text = [] ∧ b.text = []
  start : b.text <+: a.text

/-- What the attempts with a text are that may be made shorter some times. -/
structure Shrinking (o : Ollama) (shrinks : Nat) (text : List Char) (attempts : List Attempt) :
    Prop where
  /-- The text itself comes first. -/
  first : attempts.head?.map Attempt.text = some text
  /-- Every text is asked for under one key, or under two. -/
  asks : ∀ a ∈ attempts, o.Asks a.text a.turns a.answer
  starts : ∀ a ∈ attempts, a.text <+: text
  longEnough : ∀ a ∈ attempts, min o.limits.minChars text.length ≤ a.text.length
  retries : attempts.IsChain o.Retries
  count : attempts.length ≤ shrinks + 1
  requests : (attempts.flatMap Attempt.turns).length ≤ 2 * (shrinks + 1)
  /-- Only the number of attempts ends them as long as a shorter text may help. -/
  ends : ∀ a ∈ attempts.getLast?, o.MayShrink a → attempts.length = shrinks + 1

/-! ## The next text -/

theorem Asks.length_le {text : List Char} {said : List Turn} {answer : Answer}
    (h : o.Asks text said answer) : said.length ≤ 2 := by
  cases h <;> simp

variable {text : List Char}

/-- Half of a text that is too long for its limit is not less than the limit and
less than the text. -/
theorem shorter_lt (hlong : o.limits.minChars < text.length) (hne : text ≠ []) :
    o.shorter text.length < text.length := by
  have := List.length_pos_iff.mpr hne
  rw [shorter]
  omega

theorem length_take_shorter (hlong : o.limits.minChars < text.length) :
    o.limits.minChars ≤ (text.take (o.shorter text.length)).length := by
  rw [List.length_take, shorter]
  omega

theorem retries_take {a b : Attempt} (h : o.MayShrink a)
    (hb : b.text = a.text.take (o.shorter a.text.length)) : o.Retries a b where
  mayShrink := h
  shorter := by
    obtain ⟨-, -, -, -, hlong⟩ := h
    by_cases hne : a.text = []
    · exact .inr ⟨hne, by simp [hb, hne]⟩
    · refine .inl ?_
      have := shorter_lt hlong hne
      rw [hb, List.length_take]
      omega
  start := hb ▸ List.take_prefix _ _

/-! ## From one attempt to all -/

/-- There is one attempt only. -/
theorem Shrinking.single {n : Nat} {a : Attempt} (hasks : o.Asks a.text a.turns a.answer)
    (hends : o.MayShrink a → n = 0) : o.Shrinking n a.text [a] where
  first := rfl
  asks := by simpa using hasks
  starts := by simp
  longEnough := by
    simp only [List.mem_singleton, forall_eq]
    omega
  retries := .singleton a
  count := by simp
  requests := by
    have := hasks.length_le
    simp only [List.flatMap_cons, List.flatMap_nil, List.append_nil]
    omega
  ends := by simpa using hends

/-- One attempt and then those with a shorter text. -/
theorem Shrinking.cons {n : Nat} {a : Attempt} {attempts : List Attempt}
    (hasks : o.Asks a.text a.turns a.answer) (hshrink : o.MayShrink a)
    (h : o.Shrinking n (a.text.take (o.shorter a.text.length)) attempts) :
    o.Shrinking (n + 1) a.text (a :: attempts) := by
  obtain ⟨b, attempts, rfl⟩ : ∃ b bs, attempts = b :: bs :=
    List.exists_cons_of_ne_nil (by rintro rfl; cases h.first)
  have hb : b.text = a.text.take (o.shorter a.text.length) := by simpa using h.first
  obtain ⟨-, -, -, -, hlong⟩ := id hshrink
  have hlimit := length_take_shorter hlong
  exact
    { first := rfl
      asks := List.forall_mem_cons.mpr ⟨hasks, h.asks⟩
      starts := List.forall_mem_cons.mpr
        ⟨List.prefix_refl _, fun c hc => (h.starts c hc).trans (List.take_prefix _ _)⟩
      longEnough := by
        refine List.forall_mem_cons.mpr ⟨by omega, fun c hc => ?_⟩
        have := h.longEnough c hc
        omega
      retries := .cons_cons (retries_take hshrink hb) h.retries
      count := by simpa using h.count
      requests := by
        have hturns := hasks.length_le
        have hrest := h.requests
        rw [List.flatMap_cons, List.length_append]
        omega
      ends := by
        intro c hc hmay
        rw [List.getLast?_cons_cons] at hc
        rw [List.length_cons, h.ends c hc hmay] }

/-- The requests with a text that may be made shorter some times. -/
def Tries (o : Ollama) (shrinks : Nat) (text : List Char) (said : List Turn) : Prop :=
  ∃ attempts, said = attempts.flatMap Attempt.turns ∧ o.Shrinking shrinks text attempts

section Tries

variable {n : Nat} {said said' : List Turn} {answer : Answer}

theorem tries_once (hasks : o.Asks text said answer)
    (hends : o.MayShrink ⟨text, said, answer⟩ → n = 0) : o.Tries n text said :=
  ⟨[⟨text, said, answer⟩], by simp, .single (a := ⟨text, said, answer⟩) hasks hends⟩

theorem tries_again (hasks : o.Asks text said answer)
    (hshrink : o.MayShrink ⟨text, said, answer⟩)
    (h : o.Tries n (text.take (o.shorter text.length)) said') :
    o.Tries (n + 1) text (said ++ said') := by
  obtain ⟨attempts, rfl, hattempts⟩ := h
  exact ⟨⟨text, said, answer⟩ :: attempts, by simp,
    .cons (a := ⟨text, said, answer⟩) hasks hshrink hattempts⟩

theorem tries_of_error {f : RequestFailure} (hasks : o.Asks text said (.error f)) :
    o.Tries n text said := by
  refine tries_once hasks ?_
  rintro ⟨r, hr, -⟩
  cases hr

theorem mayShrink_ok {reply : Reply} :
    o.MayShrink ⟨text, said, .ok reply⟩ ↔
      reply.isOk = false ∧ 500 ≤ reply.status ∧ o.limits.minChars < text.length := by
  constructor
  · rintro ⟨r, hr, h⟩
    cases hr
    exact h
  · intro h
    exact ⟨reply, rfl, h⟩

theorem tries_of_isOk {reply : Reply} (hasks : o.Asks text said (.ok reply))
    (hok : reply.isOk = true) : o.Tries n text said := by
  refine tries_once hasks fun h => ?_
  rw [mayShrink_ok, hok] at h
  cases h.1

end Tries

/-- A text is tried, and shorter ones after it. -/
theorem talks_tries (shrinks : Nat) (text : List Char) {s : Logged OllamaState} :
    o.Talks s (o.embedOne shrinks text) fun _ said => o.Tries shrinks text said := by
  induction shrinks generalizing s text with
  | zero =>
    rw [embedOne]
    refine talks_attempt (fun _ _ _ => tries_of_error) (fun _ _ _ hasks hok _ =>
      tries_of_isOk hasks hok) fun s' said reply hasks _ => ?_
    refine talks_throw ?_
    rw [List.append_nil]
    exact tries_once hasks fun _ => rfl
  | succ n ih =>
    rw [embedOne]
    refine talks_attempt (fun _ _ _ => tries_of_error) (fun _ _ _ hasks hok _ =>
      tries_of_isOk hasks hok) fun s' said reply hasks hfails => ?_
    dsimp only
    split
    · rename_i hretry
      rw [Bool.and_eq_true, decide_eq_true_eq, decide_eq_true_eq] at hretry
      refine talks_bind_silent (talks_report _ ⟨rfl, rfl⟩) fun s' => ?_
      refine talks_bind_silent (talks_pause _ ⟨rfl, rfl⟩) fun s' => ?_
      exact (ih _).conseq fun r said' h =>
        tries_again hasks (mayShrink_ok.mpr ⟨hfails, hretry⟩) h
    · rename_i hretry
      refine talks_throw ?_
      rw [List.append_nil]
      refine tries_once hasks fun h => absurd ?_ hretry
      obtain ⟨-, hstatus, hlong⟩ := mayShrink_ok.mp h
      simp [hstatus, hlong]

/-! ## The result -/

/-- Whatever the limits are and whatever a server answers, the texts that are sent
for a text get shorter and shorter, at most `maxShrinks` times; and whatever a
text was, the one that is prepared from it can be sent as it is. -/
theorem retries_shrink (o : Ollama) (s : Logged OllamaState) (original : String)
    (text : List Char) :
    o.Fits (o.prepare original) ∧
    ∃ attempts : List Attempt,
      s.inner.exchange.Heard (attempts.flatMap Attempt.turns)
        ((o.embedOne maxShrinks text).runOn s).2.inner.exchange ∧
      o.Shrinking maxShrinks text attempts := by
  obtain ⟨said, hsession, attempts, rfl, hattempts⟩ :=
    talks_tries (o := o) (s := s) maxShrinks text
  exact ⟨o.fits_prepare original, attempts, hsession.heard, hattempts⟩

end Ollama

end SourceShelf
