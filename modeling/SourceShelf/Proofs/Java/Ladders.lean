import SourceShelf.Java.Outline
import SourceShelf.Proofs.Java.PlainWords

/-!
# Reading by computation

Most texts leave a reader with one stack no choice: at each word one phrase ends, or the word
is taken.  `Ladder.read?` reads such a text from the grammar alone.  What it keeps of a stack
is a ladder: the symbols and trees that were read, with the comments behind them, and at each
height the dots behind them.
Where it finds a reading, the reader finds the same one (`Ladder.read_of_read?`).

That the next word may stand behind a phrase, which lets the phrase end, is not computed: it
follows from what comes later.  The word goes on behind the last of the phrases that end at it
(`DotsAt.precedes_of_behind`), and each of the phrases is the end of the next one.

* `Ladder.settle_spec`: the phrases that end at a word.
* `Ladder.readsTo_of_climb?`: word by word up to the end of the text.
* `Ladder.parse_of_parse?`: the unit of such a text.
-/

namespace SourceShelf.Java

/-! ## Words behind a phrase that was read -/

section Behind

variable {xs : List Symbol} {ds ds' ds'' : List Dot} {d d' : Dot} {p q : Phrase} {t : Token}

/-- A phrase that may start at some dots comes next at one of them, or starts what does. -/
theorem Dot.Started.exists_first {n : Nat} (h : Started ds q) (hbegins : q.Begins t n) :
    ∃ d ∈ ds, (Forms.firstOfSteps Forms.firstSets d.rest).contains t = true := by
  induction h generalizing n with
  | @dot d d' q hd hm =>
    obtain ⟨⟨x, l⟩, hl, heq⟩ := List.mem_map.mp hm
    obtain ⟨rfl, rfl⟩ := Prod.mk.inj heq
    refine ⟨d, hd, Form.contains_first_iff.mpr ⟨(.phrase q, d.alternative.steps.drop l), ?_, ?_⟩⟩
    · exact mem_nextSteps_iff.mpr ⟨l, hl, rfl⟩
    · exact .inr ⟨q, n, rfl, hbegins⟩
  | corner _ hq ih => exact ih (hbegins.of_leads hq)

/-- A word that goes on behind some dots comes first behind one of them. -/
theorem Dot.exists_first_of_behind (h : behind (.token t) ds = some (d :: ds')) :
    ∃ d ∈ ds, (Forms.firstOfSteps Forms.firstSets d.rest).contains t = true := by
  obtain ⟨e, he, hm⟩ := (mem_behind h).mp List.mem_cons_self
  obtain ⟨⟨x, l⟩, hl, heq⟩ := List.mem_map.mp hm
  obtain ⟨rfl, -⟩ := Prod.mk.inj heq
  have hnext : (.token t, e.alternative.steps.drop l) ∈ Form.nextSteps e.rest :=
    mem_nextSteps_iff.mpr ⟨l, hl, rfl⟩
  rcases he with he | ⟨p, hp, he⟩
  · exact ⟨e, he, Form.contains_first_iff.mpr ⟨_, hnext, .inl rfl⟩⟩
  · have hfits := (fits_of_mem_startsOf he).mem
    obtain ⟨i, -, rfl⟩ := List.mem_map.mp he
    exact hp.exists_first (.word (n := 0) hfits hnext)

/-- A word that goes on behind a phrase may come behind it. -/
theorem DotsAt.precedes_of_behind (h : DotsAt xs ds)
    (hp : Dot.behind (.phrase p) ds = some ds')
    (ht : Dot.behind (.token t) ds' = some (d :: ds'')) : p.Precedes t xs := by
  intro e he
  rw [Dot.taken_of_mem_startsOf he]
  obtain ⟨d', hd', hfirst⟩ := Dot.exists_first_of_behind ht
  obtain ⟨d₀, hd₀, hm⟩ := (Dot.mem_behind hp).mp hd'
  have hvalid : d₀.Fits ∧ Valid xs d₀.number d₀.taken := by
    rcases hd₀ with hd₀ | ⟨q, hq, hd₀⟩
    · exact ⟨h.fits d₀ hd₀, h.valid d₀ hd₀⟩
    · rw [Dot.taken_of_mem_startsOf hd₀]
      exact ⟨Dot.fits_of_mem_startsOf hd₀,
        h.valid_start hq (Dot.mem_startsOf_iff.mpr ⟨d₀, hd₀, rfl⟩)⟩
  refine .first hvalid.2 ((Dot.mem_moves_iff hvalid.1).mpr ⟨d', hm, rfl⟩) ?_
    (Dot.mem_startsOf_iff.mpr ⟨e, he, rfl⟩)
  rwa [Dot.first_number (Dot.fits_of_mem_goesOn hvalid.1 hm)]

theorem Dot.phrase_of_mem_goesOn {x : Symbol} (h : (x, d') ∈ d.goesOn) : d'.phrase = d.phrase := by
  obtain ⟨m, -, heq⟩ := List.mem_map.mp h
  obtain ⟨-, rfl⟩ := Prod.mk.inj heq
  rfl

theorem Dot.phrase_of_mem_startsOf (h : d ∈ startsOf p) : d.phrase = p := by
  obtain ⟨i, -, rfl⟩ := List.mem_map.mp h
  rfl

end Behind

/-! ## Ladders -/

/-- What a ladder holds at one height: a symbol and its trees, and the dots behind it. -/
structure Rung where
  entry : Entry
  dots : List Dot

/-- A rung with one more comment behind it. -/
def Rung.put (r : Rung) (t : Tree) : Rung :=
  { r with entry := { r.entry with comments := r.entry.comments ++ [t] } }

/-- What a reader with one stack has read, the last of which comes first. -/
abbrev Ladder := List Rung

namespace Ladder

/-- The dots behind all that was read. -/
def top : Ladder → List Dot
  | [] => Dot.startsOf .file
  | r :: _ => r.dots

/-- What a ladder holds of the stack. -/
def entries (l : Ladder) : List Entry := l.map (·.entry)

/-- The symbols that were read. -/
def symbols (l : Ladder) : List Symbol := symbolsOf l.entries

/-- Each rung has the dots behind its symbol. -/
inductive Climbed : Ladder → Prop where
  | nil : Climbed []
  | cons {r : Rung} {l : Ladder} (h : Climbed l)
      (hdots : Dot.behind r.entry.symbol l.top = some r.dots) : Climbed (r :: l)

variable {l l' : Ladder} {r : Rung} {t : Token} {d e : Dot} {ds : List Dot} {p : Phrase}

theorem Climbed.dotsAt (h : Climbed l) : DotsAt l.symbols l.top := by
  induction h with
  | nil => exact dotsAt_nil
  | cons _ hdots ih => exact ih.behind hdots

/-- A comment changes no dots. -/
theorem Climbed.put (h : Climbed (r :: l)) {tree : Tree} : Climbed (r.put tree :: l) := by
  cases h with
  | cons h hdots => exact .cons (r := r.put tree) h hdots

theorem Climbed.drop (h : Climbed l) (n : Nat) : Climbed (l.drop n) := by
  induction n generalizing l with
  | zero => exact h
  | succ n ih =>
    cases h with
    | nil => exact .nil
    | cons h _ => exact ih h

theorem symbols_append (l l' : Ladder) : symbols (l ++ l') = l.symbols ++ l'.symbols := by
  simp [symbols, entries]

theorem symbols_take_drop (l : Ladder) (n : Nat) :
    symbols (l.take n) ++ symbols (l.drop n) = l.symbols := by
  rw [← symbols_append, List.take_append_drop]

/-! ## Ends of phrases -/

/-- The phrases that a phrase may be all of, among some phrases. -/
def names (ps : List Phrase) (p : Phrase) : List Phrase :=
  (fun found => ps.filter fun q => found.contains q || (Dot.startsOf q).any fun d =>
    d.goesOn.any fun m => m.1.phrase?.any found.contains && m.2.complete)^[4] [p]

/-- The alternative does not end at a word that goes on: it is the program, which only ends
with the text, or what was read of it is one symbol and the word comes behind none of the
phrases that it is all of. -/
def staysOpen (t : Token) (l : Ladder) (d : Dot) : Bool :=
  !d.complete || d.phrase = .program && t ≠ .endOfFile ||
    match l with
    | [] => false
    | _ :: below =>
      let found := names ((Dot.started (top below)).getD []) d.phrase
      !below.isEmpty && d.taken = 1 && (top below).all (·.taken ≠ 0) && found.contains d.phrase &&
        Dot.neverBefore t (top below) found = some true

/-- The alternative takes just some symbols, and makes a phrase of them. -/
def covers (d : Dot) (xs : List Symbol) : Bool :=
  d.phrase ≠ .file && d ∈ (Dot.startsOf d.phrase).flatMap (Dot.along · xs) &&
    d.taken = xs.length && 0 < xs.length && d.reduction.shown.isEmpty

/-- A phrase with the trees that it was read from, and the comments behind it. -/
def ended (d : Dot) (l : Ladder) : Entry :=
  ⟨.phrase d.phrase, d.phrase.wrap (treesOf l.entries), commentsOn l.entries⟩

/-- A phrase takes the place of what it was read from. -/
def reduce? (l : Ladder) (d : Dot) : Option Ladder :=
  if covers d (symbols (l.take d.taken)) && heightOf (entries (l.take d.taken)) ≤ Node.depth then
    match Dot.behind (.phrase d.phrase) (top (l.drop d.taken)) with
    | some (e :: ds) =>
      some (⟨ended d (l.take d.taken), e :: ds⟩ :: l.drop d.taken)
    | _ => none
  else none

/-- Ends phrases at a word until it can be taken, or until nothing but a program is left. -/
def settle (t : Token) : Nat → Ladder → Option Ladder
  | 0, _ => none
  | fuel + 1, l =>
    match Dot.behind (.token t) l.top with
    | none => none
    | some (_ :: _) => if t ≠ .endOfFile && l.top.all (staysOpen t l) then some l else none
    | some [] =>
      match l.top.filter Dot.complete with
      | [d] =>
        if d.phrase = .file then
          if t = .endOfFile && l.symbols = [.phrase .program] then some l else none
        else (reduce? l d).bind (settle t fuel)
      | _ => none

theorem not_before_of_staysOpen (hl : Climbed l) (hd : d ∈ l.top) (h : staysOpen t l d = true)
    (hcomplete : d.complete = true) : ¬ Before t l.symbols d.number d.taken := by
  have hfits := hl.dotsAt.fits d hd
  unfold staysOpen at h
  rw [hcomplete] at h
  simp only [Bool.not_true, Bool.false_or, Bool.or_eq_true, Bool.and_eq_true,
    decide_eq_true_eq] at h
  rcases h with ⟨hprogram, hend⟩ | h
  · exact fun hbefore => hend (hbefore.of_program ((Dot.headOf_number hfits).trans hprogram))
  · cases hl with
    | nil => cases h
    | @cons r below hbelow hdots =>
      simp only [Bool.and_eq_true, decide_eq_true_eq, Bool.not_eq_true', List.all_eq_true,
        List.isEmpty_eq_false_iff] at h
      obtain ⟨⟨⟨⟨hne, htaken⟩, hstarted⟩, hname⟩, hnever⟩ := h
      rw [htaken]
      refine hbelow.dotsAt.not_before_shift _ (by simpa [symbols, entries] using hne) hnever
        (fun d hd => hstarted d hd) ?_
      rw [Dot.headOf_number hfits]
      exact List.contains_iff_mem.mp hname

/-- A word that goes on where nothing ends is taken. -/
theorem taken_of_behind (hl : Climbed l) (hgoes : Dot.behind (.token t) l.top = some (e :: ds))
    (hend : t ≠ .endOfFile) (hopen : l.top.all (staysOpen t l) = true) : Taken t l.symbols :=
  hl.dotsAt.shift (hl.dotsAt.behind hgoes)
    (fun _ hd hcomplete => not_before_of_staysOpen hl hd (List.all_eq_true.mp hopen _ hd) hcomplete)
    (.inr hend)

/-- What a phrase takes the place of, and where. -/
structure Reduced (l : Ladder) (d : Dot) (l' : Ladder) : Prop where
  covers : covers d (symbols (l.take d.taken)) = true
  height : heightOf (entries (l.take d.taken)) ≤ Node.depth
  dots : ∃ e ds, Dot.behind (.phrase d.phrase) (top (l.drop d.taken)) = some (e :: ds) ∧
    l' = ⟨ended d (l.take d.taken), e :: ds⟩ :: l.drop d.taken

theorem reduced_of_reduce? (h : reduce? l d = some l') : Reduced l d l' := by
  unfold reduce? at h
  split at h
  · rename_i hboth
    obtain ⟨hcovers, hheight⟩ := Bool.and_eq_true_iff.mp hboth
    refine ⟨hcovers, of_decide_eq_true hheight, ?_⟩
    split at h
    · rename_i e ds hbehind
      exact ⟨e, ds, hbehind, (Option.some.inj h).symm⟩
    · cases h
  · cases h

theorem Reduced.climbed (h : Reduced l d l') (hl : Climbed l) : Climbed l' := by
  obtain ⟨e, ds, hbehind, rfl⟩ := h.dots
  exact (hl.drop _).cons hbehind

/-- A phrase ends at a word that may come behind it. -/
theorem Reduced.turn (h : Reduced l d l') (hl : Climbed l)
    (hends : l.top.filter Dot.complete = [d]) (hstops : Dot.behind (.token t) l.top = some [])
    (hprecedes : d.phrase.Precedes t (symbols (l.drop d.taken))) :
    Reader.Turn t l.entries l'.entries := by
  obtain ⟨e, ds, hbehind, rfl⟩ := h.dots
  have hcovers := h.covers
  simp only [Ladder.covers, Bool.and_eq_true, decide_eq_true_eq, List.isEmpty_iff] at hcovers
  obtain ⟨⟨⟨⟨hfile, halong⟩, htaken⟩, hpos⟩, hshown⟩ := hcovers
  have hbefore := (hprecedes.along halong).2
  rw [symbols_take_drop] at hbefore
  have hne : l.symbols ≠ [] := by
    rw [← symbols_take_drop l d.taken]
    exact List.append_ne_nil_of_left_ne_nil (List.length_pos_iff.mp hpos) _
  have haction := hl.dotsAt.reduce hends hbefore (hl.dotsAt.behind hstops) (.inl hne)
  rw [if_neg hfile] at haction
  have hsplit : l.entries = entries (l.take d.taken) ++ entries (l.drop d.taken) := by
    rw [entries, entries, entries, ← List.map_append, List.take_append_drop]
  have hsize : (symbols (l.take d.taken)).length = (entries (l.take d.taken)).length :=
    List.length_map _
  rw [hsize] at htaken hpos
  rw [symbols, hsplit] at haction
  rw [hsplit]
  exact .reduce (r := d.reduction) (List.length_pos_iff.mp hpos) h.height haction htaken hshown
    (((hl.drop _).dotsAt.behind hbehind).behind_ne_nil (List.cons_ne_nil e ds))

/-- What may come behind a phrase may come behind the phrase that ends it. -/
theorem Reduced.precedes (h : Reduced (r :: l) d l')
    (hends : (Ladder.top (r :: l)).filter Dot.complete = [d])
    (hprecedes : d.phrase.Precedes t (symbols ((r :: l).drop d.taken)))
    (hp : r.entry.symbol = .phrase p) : p.Precedes t l.symbols := by
  have hcovers := h.covers
  simp only [Ladder.covers, Bool.and_eq_true, decide_eq_true_eq] at hcovers
  obtain ⟨⟨⟨⟨-, halong⟩, htaken⟩, hpos⟩, -⟩ := hcovers
  have hcomplete : d.complete = true :=
    (List.mem_filter.mp (hends ▸ List.mem_singleton_self d :
      d ∈ (Ladder.top (r :: l)).filter Dot.complete)).2
  obtain ⟨n, hn⟩ : ∃ n, d.taken = n + 1 := Nat.exists_eq_succ_of_ne_zero (by omega)
  rw [hn, List.take_succ_cons] at halong
  rw [hn, List.drop_succ_cons] at hprecedes
  have hsplit : l.symbols = symbols (l.take n) ++ symbols (l.drop n) := (symbols_take_drop l n).symm
  rw [hsplit]
  refine hprecedes.of_mayEnd _ ?_
  obtain ⟨s, hs, hd⟩ := List.mem_flatMap.mp halong
  obtain ⟨e, he, hd⟩ := List.mem_flatMap.mp hd
  obtain ⟨⟨x, d'⟩, hm, heq⟩ := List.mem_filterMap.mp hd
  split at heq
  · rename_i hx
    obtain rfl := Option.some.inj heq
    refine List.any_eq_true.mpr ⟨e, List.mem_flatMap.mpr ⟨s, hs, he⟩,
      List.any_eq_true.mpr ⟨(x, d'), hm, ?_⟩⟩
    rw [Bool.and_eq_true, decide_eq_true_eq]
    exact ⟨hx.trans hp, hcomplete⟩
  · cases heq

/-- A word can be taken, or nothing but a program is left at the end of the text. -/
inductive Settled (t : Token) (l : Ladder) : Prop where
  | take (hend : t ≠ .endOfFile) (htaken : Taken t l.symbols)
  | accept (hend : t = .endOfFile) (hprogram : l.symbols = [.phrase .program])
      (haction : (stateOf [.phrase .program]).actions .endOfFile = [.accept])

/-- Behind a program comes the end of the text. -/
theorem precedes_program : Phrase.program.Precedes .endOfFile [] :=
  Phrase.precedes_file.of_mayEnd [] (by decide +kernel)

/-- A reader that is left with a program accepts it at the end of the text. -/
theorem action_accept (hl : Climbed l) (hprogram : l.symbols = [.phrase .program])
    (hends : l.top.filter Dot.complete = [d]) (hfile : d.phrase = .file)
    (hstops : Dot.behind (.token .endOfFile) l.top = some []) :
    (stateOf [.phrase .program]).actions .endOfFile = [.accept] := by
  have hbefore : Before .endOfFile l.symbols d.number d.taken := by
    cases hl with
    | nil => cases hprogram
    | @cons r below hbelow hdots =>
      obtain ⟨hfirst, hrest⟩ := List.cons.inj hprogram
      obtain rfl : below = [] := List.map_eq_nil_iff.mp (List.map_eq_nil_iff.mp hrest)
      obtain ⟨hd, -⟩ := List.mem_filter.mp (hends ▸ List.mem_singleton_self d :
        d ∈ (Ladder.top [r]).filter Dot.complete)
      obtain ⟨d₀, hd₀, hm⟩ := (Dot.mem_behind hdots).mp hd
      have hstart : d₀ ∈ Dot.startsOf .file := by
        rcases hd₀ with hd₀ | ⟨p, -, hd₀⟩
        · exact hd₀
        · obtain rfl : p = .file := by
            rw [← hfile, Dot.phrase_of_mem_goesOn hm, Dot.phrase_of_mem_startsOf hd₀]
          exact hd₀
      exact (Phrase.precedes_file d₀ hstart).goesOn (Dot.fits_of_mem_startsOf hstart) hm
  have haction := hl.dotsAt.reduce hends hbefore (hl.dotsAt.behind hstops)
    (.inl (hprogram ▸ List.cons_ne_nil _ _))
  rwa [if_pos hfile, hprogram] at haction

/-- The phrases that end at a word, and that it may come behind them. -/
theorem settle_spec {fuel : Nat} (h : settle t fuel l = some l') (hl : Climbed l) :
    Climbed l' ∧ Settled t l' ∧ (∃ k < fuel, Reader.Turns t k l.entries l'.entries) ∧
      ∀ r below p, l = r :: below → r.entry.symbol = .phrase p → p.Precedes t (symbols below) := by
  induction fuel generalizing l with
  | zero => cases h
  | succ fuel ih =>
    unfold settle at h
    split at h
    · cases h
    · rename_i e ds hgoes
      split at h
      · rename_i hboth
        obtain ⟨hend, hopen⟩ := Bool.and_eq_true_iff.mp hboth
        obtain rfl := Option.some.inj h
        have hend := of_decide_eq_true hend
        refine ⟨hl, .take hend (taken_of_behind hl hgoes hend hopen), ⟨0, Nat.succ_pos _, .nil⟩, ?_⟩
        rintro r below p rfl hp
        cases hl with
        | cons hbelow hdots => exact hbelow.dotsAt.precedes_of_behind (hp ▸ hdots) hgoes
      · cases h
    · rename_i hstops
      split at h
      · rename_i d hends
        split at h
        · rename_i hfile
          split at h
          · rename_i hboth
            obtain ⟨hend, hprogram⟩ := Bool.and_eq_true_iff.mp hboth
            obtain rfl := Option.some.inj h
            obtain rfl := of_decide_eq_true hend
            have hprogram := of_decide_eq_true hprogram
            refine ⟨hl, .accept rfl hprogram (action_accept hl hprogram hends hfile hstops),
              ⟨0, Nat.succ_pos _, .nil⟩, ?_⟩
            rintro r below p rfl hp
            obtain ⟨hfirst, hbelow⟩ := List.cons.inj hprogram
            obtain rfl : p = .program := Symbol.phrase.inj (hp.symm.trans hfirst)
            exact (show symbols below = [] from hbelow) ▸ precedes_program
          · cases h
        · obtain ⟨l₁, hreduce, hrest⟩ := Option.bind_eq_some_iff.mp h
          have hreduced := reduced_of_reduce? hreduce
          obtain ⟨hclimbed, hsettled, ⟨k, hk, hturns⟩, hprecedes⟩ := ih hrest (hreduced.climbed hl)
          obtain ⟨e, ds, -, rfl⟩ := hreduced.dots
          have hnext := hprecedes _ _ d.phrase rfl rfl
          refine ⟨hclimbed, hsettled, ⟨k + 1, Nat.succ_lt_succ hk,
            .cons (hreduced.turn hl hends hstops hnext) hturns⟩, ?_⟩
          rintro r below p rfl hp
          exact hreduced.precedes hends hnext hp
      · cases h

/-! ## Word by word -/

/-- Phrases are no quotes. -/
theorem notQuote_of_turns {k : Nat} {es es' : List Entry} (h : Reader.Turns t k es es')
    (hes : ∀ e ∈ es, e.symbol.isQuote = false) : ∀ e ∈ es', e.symbol.isQuote = false := by
  induction h with
  | nil => exact hes
  | cons hturn _ ih =>
    refine ih ?_
    cases hturn with
    | reduce => exact List.forall_mem_cons.mpr ⟨rfl, fun e he => hes e (List.mem_append_right _ he)⟩

/-- Reads word by word up to the end of the text. -/
def climb? : Nat → Cursor → Ladder → Option (List Tree)
  | 0, _, _ => none
  | fuel + 1, c, l =>
    let start := Lexer.skipBlanks c
    if start.atEnd then
      match settle .endOfFile 64 l with
      | some [⟨⟨_, [.node .program trees], []⟩, _⟩] => some trees
      | _ => none
    else if let some n := Lexer.comment? start.rest then
      let stop := start.advance n
      match l with
      | [] => none
      | r :: below =>
        if stop.place.bytes ≤ c.place.bytes then none
        else
          climb? fuel stop
            (r.put (.leaf .blockComment start.place.chars stop.place.chars) :: below)
    else
      match Lexer.onlyWord? start.rest with
      | none => none
      | some (t, n) =>
        let stop := start.advance n
        if t.isComment || t = .endOfFile || Symbol.isQuote (.token t) ||
            Token.count ≤ t.ctorIdx || stop.place.bytes ≤ c.place.bytes then none
        else
          match settle t 64 l with
          | none => none
          | some l' =>
            match Dot.behind (.token t) l'.top with
            | some (e :: ds) => climb? fuel stop
                (⟨⟨.token t, [.leaf t start.place.chars stop.place.chars], []⟩, e :: ds⟩ :: l')
            | _ => none

/-- The reading that is found is the one of a reader with one stack. -/
theorem readsTo_of_climb? {fuel : Nat} {c : Cursor} {trees : List Tree}
    (h : climb? fuel c l = some trees) (hl : Climbed l)
    (hquote : ∀ e ∈ l.entries, e.symbol.isQuote = false) :
    ∃ n < fuel, Reader.ReadsTo trees n l.entries c := by
  induction fuel generalizing c l with
  | zero => cases h
  | succ fuel ih =>
    unfold climb? at h
    dsimp only at h
    split at h
    · rename_i hend
      split at h
      · rename_i x trees' ds hsettle
        obtain rfl := Option.some.inj h
        obtain ⟨-, hsettled, ⟨k, hk, hturns⟩, -⟩ := settle_spec hsettle hl
        cases hsettled with
        | take hne => exact absurd rfl hne
        | accept _ hprogram haction =>
          obtain rfl : x = .phrase .program := (List.cons.inj hprogram).1
          exact ⟨0, Nat.succ_pos fuel, .finish hquote hend hturns (by omega) haction⟩
      · cases h
    · split at h
      · rename_i n hcomment
        split at h
        · cases h
        · rename_i r below
          split at h
          · cases h
          · rename_i hon
            obtain ⟨hquote', hquotes⟩ := List.forall_mem_cons.mp hquote
            obtain ⟨m, hm, hrest⟩ := ih h hl.put (List.forall_mem_cons.mpr ⟨hquote', hquotes⟩)
            exact ⟨m + 1, Nat.succ_lt_succ hm,
              .put rfl hcomment (Nat.lt_of_not_le hon) hquote hrest⟩
      · split at h
        · cases h
        · rename_i t n hword
          split at h
          · cases h
          · rename_i hguard
            simp only [Bool.or_eq_true, decide_eq_true_eq, not_or, Bool.not_eq_true,
              not_le] at hguard
            obtain ⟨⟨⟨⟨hcomment, hne⟩, hnoQuote⟩, hcount⟩, hon⟩ := hguard
            split at h
            · cases h
            · rename_i l' hsettle
              obtain ⟨hl', hsettled, ⟨k, hk, hturns⟩, -⟩ := settle_spec hsettle hl
              split at h
              · rename_i e ds hbehind
                have hquote' := notQuote_of_turns hturns hquote
                obtain ⟨m, hm, hrest⟩ := ih h (hl'.cons hbehind)
                  (List.forall_mem_cons.mpr ⟨hnoQuote, hquote'⟩)
                cases hsettled with
                | accept hend => exact absurd hend hne
                | take _ htaken =>
                  exact ⟨m + 1, Nat.succ_lt_succ hm, .take ⟨rfl, ⟨n, hword, rfl⟩, hcomment,
                    ⟨hne, hcount⟩, hon⟩ hquote hturns (by omega) htaken hrest⟩
              · cases h

/-- The trees of a text that leaves a reader no choice. -/
def read? (text : String) : Option (List Tree) :=
  climb? (text.length + 1) (Cursor.ofString text) []

/-- A text that leaves a reader no choice is read so. -/
theorem read_of_read? {text : String} {trees : List Tree} (h : read? text = some trees) :
    Reader.read text = some (.node .program trees) := by
  obtain ⟨n, hn, hreads⟩ := readsTo_of_climb? h .nil fun e he => absurd he List.not_mem_nil
  exact hreads.read (by omega)

/-- The tree of a text that leaves a reader no choice. -/
theorem ofText_of_read? {text : String} {tree : SyntaxTree text}
    (h : read? text = some tree.parts) :
    SyntaxTree.ofText text = tree := by
  rw [SyntaxTree.ofText, read_of_read? h]
  exact dif_pos tree.laidOut

/-- The parts of a text that leaves a reader no choice. -/
theorem parts_of_read? {text : String} {trees : List Tree} (h : read? text = some trees)
    (hlaid : Java.laidOut 0 text.length (Tree.leavesOf trees) = true) :
    (SyntaxTree.ofText text).parts = trees :=
  congrArg SyntaxTree.parts (@ofText_of_read? text ⟨trees, hlaid⟩ h)

/-- A text that leaves a reader no choice is made a unit of, unless it has a fault. -/
theorem parse_of_read? {text : String} {path : Option String} {locals : Bool} {trees : List Tree}
    (h : read? text = some trees)
    (hlaid : Java.laidOut 0 text.length (Tree.leavesOf trees) = true)
    (hfaultless : Tree.firstFaultOf? trees = none) :
    parse text path locals = .ok (Outline.unit locals text path trees) := by
  unfold parse SyntaxTree.read SyntaxTree.firstFault?
  rw [parts_of_read? h hlaid, hfaultless]

/-- The unit of a text that leaves a reader no choice. -/
def parse? (text : String) (path : Option String) (locals : Bool) : Option CompilationUnit :=
  (read? text).bind fun trees =>
    if Java.laidOut 0 text.length (Tree.leavesOf trees) && (Tree.firstFaultOf? trees).isNone then
      some (Outline.unit locals text path trees)
    else none

/-- A text that leaves a reader no choice has that unit. -/
theorem parse_of_parse? {text : String} {path : Option String} {locals : Bool}
    {u : CompilationUnit} (h : parse? text path locals = some u) :
    parse text path locals = .ok u := by
  obtain ⟨trees, hread, hunit⟩ := Option.bind_eq_some_iff.mp h
  split at hunit
  · rename_i hboth
    obtain ⟨hlaid, hfaultless⟩ := Bool.and_eq_true_iff.mp hboth
    obtain rfl := Option.some.inj hunit
    exact parse_of_read? hread hlaid (Option.isNone_iff_eq_none.mp hfaultless)
  · cases hunit

end Ladder

/-! ## A text with types in types -/

/-- A text with a type in a body of a type and one in the body of a method. -/
def nestingText : String :=
  "class A \x7b\n  void f() \x7b class L \x7b \x7d \x7d\n  class B \x7b B() \x7b \x7d \x7d\n\x7d\n"

/-- What the text declares. -/
def nestingUnit : CompilationUnit where
  types := [
    { index := 0
      parent := none
      name := "A"
      kind := .classType
      methods := [
        { name := "f"
          kind := .method
          text := "void f() \x7b class L \x7b \x7d \x7d"
          owner := 0
          startLine := 2
          endLine := 2 }]
      nested := [2]
      startLine := 1
      endLine := 4 },
    { index := 1
      parent := none
      name := "L"
      kind := .classType
      startLine := 2
      endLine := 2 },
    { index := 2
      parent := some 0
      name := "B"
      kind := .classType
      constructors := [
        { name := "B"
          kind := .constructor
          text := "B() \x7b \x7d"
          owner := 2
          startLine := 3
          endLine := 3 }]
      startLine := 3
      endLine := 3 }]
  topLevel := [0]

theorem parse_nesting : parse nestingText none true = .ok nestingUnit :=
  Ladder.parse_of_parse? (by decide +kernel)

end SourceShelf.Java
