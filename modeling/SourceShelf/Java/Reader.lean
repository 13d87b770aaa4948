import SourceShelf.Java.Stack

/-!
# Reading a text

A `Reader` reads a text with several stacks at once, one for each way to read
what stands before.  `Reader.advance` takes one stack over the next word; when
all have gone on, `Reader.condense` drops those that are worse than others and
joins those that have come to the same state.

When no stack can go on, the best one is mended (`Reader.mend`).  A word may be
put in, if a phrase ends with it and the next word can follow; or the reader
loses its way, and then either goes back to a state in which the next word can
stand, passing over what was read since (`Reader.goBack`), or passes over the
next word.  What each of these costs decides which reading is taken.
-/

namespace SourceShelf.Java

/-- What a stack is waiting for. -/
inductive Status where
  | active
  | stuck (lookahead : Lexeme)
  | halted
deriving Inhabited

/-- One of the stacks of a reader. -/
structure Head where
  node : Node
  status : Status := .active
  landmarks : List Node.Landmark := []
  sizeAtError : Nat := 0
deriving Inhabited

namespace Head

/-- The state of the reader. -/
def state (h : Head) : Nat := h.node.mark.state

/-- How far the stack has come. -/
def place (h : Head) : Place := h.node.mark.cursor.place

/-- True of a stack that can go on. -/
def isActive (h : Head) : Bool :=
  match h.status with
  | .active => true
  | _ => false

/-- True of a stack that waits to be mended. -/
def isStuck (h : Head) : Bool :=
  match h.status with
  | .stuck _ => true
  | _ => false

/-- True of a stack that is done with. -/
def isHalted (h : Head) : Bool :=
  match h.status with
  | .halted => true
  | _ => false

/-- The state of a reader that has lost its way. -/
def lost : Nat := 0

/-- What has been found since the reader lost its way. -/
def sizeSinceError (h : Head) : Nat := h.node.mark.size - h.sizeAtError

/-- What the stack costs so far. -/
def cost (h : Head) : Nat :=
  let justLost := h.state == lost &&
    match h.node.links with
    | (none, _) :: _ => true
    | _ => false
  h.node.mark.cost + if h.isStuck || justLost then Part.repairCost else 0

/-- True when two stacks may be joined. -/
def mergeable (a b : Head) : Bool := a.isActive && b.isActive && a.node.mergeable b.node

end Head

/-- How good a stack is. -/
structure Rank where
  cost : Nat
  size : Nat
  preference : Int
  faulty : Bool
deriving Inhabited

/-- How two stacks compare. -/
inductive Verdict where
  | takeLeft | preferLeft | none | preferRight | takeRight
deriving DecidableEq, Repr, Inhabited

namespace Rank

/-- How good a stack is. -/
def ofHead (h : Head) : Rank :=
  { cost := h.cost + if h.isStuck then Part.skippedTreeCost else 0
    size := h.sizeSinceError
    preference := h.node.mark.preference
    faulty := h.isStuck || h.state == Head.lost }

/-- A stack is dropped when this many times cheaper ones stand beside it, the
more readily the more has been found since. -/
def maxDifference : Nat := 1800

/-- Compares two stacks. -/
def compare (a b : Rank) : Verdict :=
  if !a.faulty && b.faulty then
    if a.cost < b.cost then .takeLeft else .preferLeft
  else if a.faulty && !b.faulty then
    if b.cost < a.cost then .takeRight else .preferRight
  else if a.cost < b.cost then
    if (b.cost - a.cost) * (1 + a.size) > maxDifference then .takeLeft else .preferLeft
  else if b.cost < a.cost then
    if (a.cost - b.cost) * (1 + b.size) > maxDifference then .takeRight else .preferRight
  else if a.preference > b.preference then .preferLeft
  else if a.preference < b.preference then .preferRight
  else .none

end Rank

/-- The stacks of a reader, the best reading of the whole text so far, and the
states made on the way. -/
structure Reader where
  automaton : Automaton
  heads : Array Head
  fresh : Nat := 1
  finished : Option Part := none
  accepted : Nat := 0
deriving Inhabited

namespace Reader

/-- A reader's step. -/
abbrev Step := StateM Reader

/-- A stack by its number. -/
def head (v : Nat) : Step Head := do return (← get).heads[v]?.getD default

/-- The number of stacks. -/
def headCount : Step Nat := do return (← get).heads.size

/-- Changes a stack. -/
def modifyHead (v : Nat) (f : Head → Head) : Step Unit :=
  modify fun r => { r with heads := r.heads.modify v f }

/-- Adds a stack. -/
def addHead (h : Head) : Step Unit := modify fun r => { r with heads := r.heads.push h }

/-- Drops a stack. -/
def removeHead (v : Nat) : Step Unit :=
  modify fun r => { r with heads := r.heads.eraseIdxIfInBounds v }

/-- Puts one stack in the place of an earlier one. -/
def replaceHead (later earlier : Nat) : Step Unit := do
  if later = earlier then return
  let source ← head later
  let target ← head earlier
  let landmarks := if source.landmarks.isEmpty then target.landmarks else source.landmarks
  modifyHead earlier fun _ => { source with landmarks }
  removeHead later

/-- Where a state leads. -/
def goto (state : Nat) (x : Symbol) : Step (Option Nat) := do
  modifyGet fun r =>
    let a := r.automaton
    let r := { r with automaton := default }
    let (a, n) := a.goto state x
    (n, { r with automaton := a })

/-- What may be done in a state at a word. -/
def actions (state : Nat) (w : Token) : Step (List Action) := do
  return ((← get).automaton.state state).actions w

/-- Puts a part on a stack. -/
def push (v : Nat) (part : Option Part) (state : Nat) : Step Unit := do
  let id := (← get).fresh
  modify fun r => { r with fresh := id + 1 }
  modifyHead v fun h =>
    let node := h.node.push id state part
    { h with node, sizeAtError := if part.isNone then node.mark.size else h.sizeAtError }

/-- Joins two stacks if they have come to the same state. -/
def merge (v w : Nat) : Step Bool := do
  let a ← head v
  let b ← head w
  if a.mergeable b then
    let node := a.node.merge b.node
    modifyHead v fun h =>
      { h with node, sizeAtError := if a.state == Head.lost then node.mark.size else h.sizeAtError }
    removeHead w
    return true
  return false

/-- The most stacks that are kept. -/
def maxHeads : Nat := 6

/-- Splits off the comments at the end of some parts. -/
def splitExtras (parts : List Part) : List Part × List Part :=
  let extras := (parts.reverse.takeWhile (·.extra)).reverse
  (parts.take (parts.length - extras.length), extras)

/-- Tries to join a stack with an earlier one. -/
def mergeBefore (v w : Nat) : Step Bool := do
  for j in List.range w do
    if j != v then
      if ← merge j w then return true
  return false

/-- Ends a phrase on a stack.  Each way down gives a new stack; the number of
the first one is the result. -/
def reduce (v : Nat) (r : Reduction) : Step (Option Nat) := do
  let before ← headCount
  let h ← head v
  let halted := ((← get).heads.filter Head.isHalted).size
  let kind : PartKind := .symbol (.phrase r.head)
  for (below, ways) in h.node.pop r.taken do
    let w ← headCount
    if w > maxHeads + 4 + halted then continue
    let cursor := below.mark.cursor
    let readings := ways.map fun parts =>
      let (parts, extras) := splitExtras parts
      (Part.join kind r.shown 0 cursor parts, extras)
    match readings with
    | [] => continue
    | first :: others =>
      let (part, extras) := others.foldl (fun best next =>
        if best.1.secondWins next.1 then next else best) first
      let part := { part with preference := part.preference + r.preference }
      match ← goto below.mark.state (.phrase r.head) with
      | none => continue
      | some next =>
        addHead { node := below, sizeAtError := h.sizeAtError }
        push w (some part) next
        for e in extras do push w (some e) next
        discard <| mergeBefore v w
  return if (← headCount) > before then some before else none

/-- Takes the whole of a stack as a reading of the text. -/
def accept (v : Nat) (lookahead : Lexeme) : Step Unit := do
  push v (some (Part.ofLexeme lookahead true)) Head.lost
  let h ← head v
  for (_, ways) in h.node.popAll do
    for parts in ways do
      let extrasBehind := (parts.reverse.takeWhile (·.extra)).reverse
      let rest := parts.take (parts.length - extrasBehind.length)
      match rest.getLast? with
      | none => continue
      | some top =>
        let inner : List Tree :=
          match top.trees with
          | [.node _ ts] => ts
          | [.error ts] => ts
          | ts => ts
        let around := rest.dropLast
        let trees := around.flatMap Part.trees ++ inner ++ extrasBehind.flatMap Part.trees
        let whole : Part :=
          match top.kind with
          | .error =>
            let joined := Part.join .error [] 0 h.node.mark.cursor (around ++ extrasBehind)
            { joined with trees := [.error trees] }
          | _ =>
            { top with
              trees := [.node .program trees]
              cost := (around ++ extrasBehind).foldl (fun n p => n + p.cost) top.cost
              preference := around.foldl (fun n p => n + p.preference) top.preference }
        modify fun r =>
          { r with
            accepted := r.accepted + 1
            finished :=
              match r.finished with
              | none => some whole
              | some old => if old.secondWins whole then some whole else some old }
  modifyHead v fun h => { h with status := .halted }

/-- True when a stack with the given cost would be worse than another one. -/
def betterExists (v : Nat) (faulty : Bool) (cost : Nat) : Step Bool := do
  let r ← get
  if r.finished.any (·.cost ≤ cost) then return true
  let h ← head v
  let rank : Rank :=
    { cost, faulty, preference := h.node.mark.preference, size := h.sizeSinceError }
  return r.heads.toList.zipIdx.any fun (other, i) =>
    i != v && other.isActive && h.place.bytes ≤ other.place.bytes &&
      match rank.compare (Rank.ofHead other) with
      | .takeRight => true
      | .preferRight => other.mergeable h
      | _ => false

/-- Takes parts off a stack, down to a state, and puts them there as a stretch
that was passed over. -/
def goBack (v : Nat) (depth : Nat) (goal : Nat) : Step Bool := do
  let h ← head v
  let mut done := false
  for (below, ways) in h.node.pop depth do
    match ways with
    | [] => continue
    | parts :: _ =>
      if below.mark.state != goal then continue
      let w ← headCount
      let (fault, below) :=
        match below.links.find? fun l => l.1.any (·.kind == .error) with
        | some (some e, under) => (some e, under)
        | _ => (none, below)
      let (parts, extras) := splitExtras parts
      addHead { node := below, sizeAtError := h.sizeAtError }
      let joined := Part.join .error [] 0 below.mark.cursor parts
      match fault with
      | some e => push w (some { e.extend joined with extra := true }) goal
      | none =>
        if !parts.isEmpty then push w (some { joined with extra := true }) goal
      for e in extras do push w (some e) goal
      done := true
  return done

/-- What a lost reader does at a word: it goes back to a state in which the
word can stand, if there is a good one, and it passes over the word. -/
def recover (v : Nat) (lookahead : Lexeme) : Step Unit := do
  let h ← head v
  let before ← headCount
  let here := h.place
  let cost := h.cost
  let since := h.sizeSinceError
  let mut back := false
  if let some word := lookahead.word then
    for l in h.landmarks do
      if l.state == Head.lost || l.place.bytes == here.bytes then continue
      let depth := if since > 0 then l.depth + 1 else l.depth
      let heads := (← get).heads
      let redundant := (heads.toList.take before).any fun other =>
        other.state == l.state && other.place.bytes == here.bytes
      if redundant then continue
      let newCost := cost + (l.depth - 1) * Part.skippedTreeCost + (here.bytes - l.place.bytes) +
        (here.lines - l.place.lines) * Part.skippedLineCost
      if ← betterExists v false newCost then break
      if !(← actions l.state word).isEmpty then
        if ← goBack v depth l.state then
          back := true
          break
  if lookahead.word == some .endOfFile then
    push v (some (Part.join .error [] 0 h.node.mark.cursor [])) 1
    accept v lookahead
    return
  if back && (← headCount) > maxHeads then
    modifyHead v fun h => { h with status := .halted }
    return
  let newCost := cost + Part.skippedTreeCost + (lookahead.stop.place.bytes - here.bytes) +
    (lookahead.stop.place.lines - here.lines) * Part.skippedLineCost
  if ← betterExists v false newCost then
    modifyHead v fun h => { h with status := .halted }
    return
  let skipped := Part.join .skipped [] 0 lookahead.start [Part.ofLexeme lookahead false]
  if since > 0 then
    match h.node.pop 1 with
    | (below, parts :: _) :: _ =>
      modifyHead v fun h => { h with node := below }
      push v (some (Part.join .skipped [] 0 lookahead.start (parts ++ [skipped]))) Head.lost
    | _ => push v (some skipped) Head.lost
  else push v (some skipped) Head.lost

/-- Ends every phrase that can end on a stack, at one word or at any, leaving a
stack for each state on the way in which a word can stand.  The result tells
whether the word can stand in one of them. -/
def reduceAll (start : Nat) (word : Option Token) : Step Bool := do
  let initial ← headCount
  let fuel := 400
  let mut version := start
  let mut canShift := false
  for i in List.range fuel do
    let count ← headCount
    if version ≥ count then break
    let mut merged := false
    for j in List.range version do
      if j ≥ initial then
        if !merged then
          if ← merge j version then merged := true
    if merged then continue
    let h ← head version
    let state := (← get).automaton.state h.state
    let words : List Token := match word with
      | some w => [w]
      | none => (List.range Token.count).drop 1 |>.filterMap fun n =>
          if state.words.bits.testBit n then some (Token.ofNat n) else none
    let all := words.flatMap state.actions
    let shifts := all.contains .shift
    let reductions := (all.filterMap fun
      | .reduce r => if r.taken > 0 then some r else none
      | _ => none).eraseDups
    let mut made : Option Nat := none
    for r in reductions do
      made := (← reduce version r)
    if shifts then canShift := true
    else
      match made with
      | some m =>
        if i < maxHeads then
          replaceHead m version
          continue
        else if word.isSome then removeHead version
      | none => if word.isSome then removeHead version
    version := if version = start then count else version + 1
  return canShift

/-- Mends a stack that cannot go on. -/
def mend (v : Nat) (lookahead : Lexeme) : Step Unit := do
  let before ← headCount
  discard <| reduceAll v none
  let count ← headCount
  let mut inserted := false
  let candidates := v :: (List.range count).filter (· ≥ before)
  for w in candidates do
    if !inserted then
      let h ← head w
      for n in (List.range Token.count).drop 1 do
        if !inserted then
          let missing := Token.ofNat n
          match ← goto h.state (.token missing) with
          | none => continue
          | some next =>
            let ends ← match lookahead.word with
              | some word => actions next word
              | none => pure []
            match ends with
            | .reduce _ :: _ =>
              let copy ← headCount
              addHead { h with landmarks := [] }
              push copy (some (Part.ofMissing missing h.node.mark.cursor)) next
              let word := lookahead.word.filter (· != .endOfFile)
              if ← reduceAll copy word then inserted := true
            | _ => continue
    push w none Head.lost
  for _ in List.range (count - before) do
    discard <| merge v before
  modifyHead v fun h => { h with landmarks := h.node.landmarks }
  recover v lookahead

/-- Takes a stack over the next word. -/
def advance (v : Nat) : Step Unit := do
  let h ← head v
  let start := h.node.mark.cursor
  let automaton := (← get).automaton
  let words := if h.state == Head.lost then Lexer.everyWord else (automaton.state h.state).words
  let mut lookahead := Lexer.next words start
  if lookahead.word.any Token.isComment then
    push v (some (Part.ofLexeme lookahead true)) h.state
    return
  for _ in [0:64 * (h.node.mark.size + 16)] do
    let h ← head v
    let word := lookahead.word
    let acts ← match word with
      | some w => actions h.state w
      | none => pure []
    let mut last : Option Nat := none
    let mut reduced := false
    for a in acts do
      match a with
      | .shift =>
        if let some w := word then
          if let some next ← goto h.state (.token w) then
            push v (some (Part.ofLexeme lookahead false)) next
        return
      | .accept =>
        accept v lookahead
        return
      | .reduce r =>
        reduced := true
        if let some w ← reduce v r then last := some w
    match last with
    | some w => replaceHead w v
    | .none =>
      if reduced then
        modifyHead v fun h => { h with status := .halted }
        return
      if lookahead.keyword && word != some .identifier &&
          !(← actions h.state .identifier).isEmpty then
        lookahead := { lookahead with word := some .identifier }
      else if h.state == Head.lost then
        recover v lookahead
        return
      else
        modifyHead v fun h => { h with status := .stuck lookahead }
        return

/-- Drops and joins stacks; mends the best one if none can go on.  The result
is the least cost of a stack that follows the grammar. -/
def condense : Step (Option Nat) := do
  let mut least : Option Nat := none
  let mut i := 0
  for _ in [0:200] do
    if i ≥ (← headCount) then break
    let h ← head i
    if h.isHalted then
      removeHead i
      continue
    let rank := Rank.ofHead h
    if !rank.faulty && least.all (rank.cost < ·) then least := some rank.cost
    let mut j := 0
    let mut stay := true
    for _ in [0:50] do
      if !stay || j ≥ i then break
      let verdict := (Rank.ofHead (← head j)).compare (Rank.ofHead (← head i))
      match verdict with
      | .takeLeft =>
        removeHead i
        stay := false
      | .preferLeft | .none =>
        if ← merge j i then stay := false else j := j + 1
      | .preferRight =>
        if ← merge j i then stay := false
        else
          let a ← head i
          let b ← head j
          modifyHead i fun _ => b
          modifyHead j fun _ => a
          j := j + 1
      | .takeRight =>
        removeHead j
        i := i - 1
    if stay then i := i + 1
  modify fun r => { r with heads := r.heads.extract 0 maxHeads }
  let mut running := false
  let mut v := 0
  for _ in [0:← headCount] do
    let h ← head v
    match h.status with
    | .stuck lookahead =>
      if !running && (← get).accepted < maxHeads then
        least := some h.cost
        modifyHead v fun h => { h with status := .active }
        mend v lookahead
        running := true
        v := v + 1
      else removeHead v
    | _ =>
      running := true
      v := v + 1
  return least

/-- One round: every stack goes on to the same place.  The result is the place
the last one came to. -/
def round (last : Nat) (fuel : Nat) : Step Nat := do
  let mut last := last
  for v in [0:64] do
    if v ≥ (← headCount) then break
    for _ in [0:fuel] do
      let h ← head v
      if !h.isActive then break
      advance v
      let position := (← head v).place.bytes
      if position > last || (v > 0 && position == last) then
        last := position
        break
  return last

/-- Rounds until the best reading of the text is found. -/
def rounds : Nat → Nat → Nat → Step Unit
  | 0, _, _ => return
  | fuel + 1, last, width => do
    let last ← round last width
    let some n := some (← headCount) | return
    let least ← condense
    if n = 0 then return
    match (← get).finished with
    | some p => if least.all (p.cost < ·) then return
    | none => pure ()
    rounds fuel last width

/-- The best reading of a text. -/
def read (text : String) : Option Tree :=
  let cursor := Cursor.ofString text
  let size := text.length
  let reader : Reader :=
    { automaton := Automaton.initial, heads := #[{ node := Node.base cursor }] }
  let (_, reader) := (rounds (4 * size + 64) 0 (4 * size + 64)).run reader
  reader.finished.bind (·.trees.head?)

end Reader

end SourceShelf.Java
