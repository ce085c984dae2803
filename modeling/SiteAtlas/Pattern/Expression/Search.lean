import SiteAtlas.Pattern.Expression.Step

/-!
# Searching

A step hands the spots it leads to to a continuation, in order of preference, until one succeeds.
What a failed attempt leaves behind counts as well: the spot it stood at last, where a possessive
repetition goes on, and the marks of groups. A fork or repetition puts back the marks it found,
exactly within a repetition, and else only by forgetting those added.
-/

namespace SiteAtlas.Expression

/-- What an attempt leaves behind. -/
structure Trail where
  /-- The spot where the last attempt stood. -/
  reached : Spot
  /-- The spots where groups begin and end, if passed. -/
  marks : List (Option Spot)

namespace Trail

/-- A trail that stands at a spot. -/
def standing (t : Trail) (s : Spot) : Trail :=
  { t with reached := s }

/-- Remember a spot under an index. -/
def mark (t : Trail) (index : Nat) (s : Spot) : Trail :=
  if index < t.marks.length then { t with marks := t.marks.set index (some s) }
  else { t with
    marks := t.marks ++ List.replicate (index - t.marks.length) none ++ [some s] }

/-- Put back earlier marks, or only forget those added. -/
def restore (t : Trail) (exactly : Bool) (earlier : Trail) : Trail :=
  { t with marks := if exactly then earlier.marks else t.marks.take earlier.marks.length }

/-- What a group has captured. -/
def captured? (t : Trail) (group : Nat) : Option (List Char) := do
  let first ← (← t.marks[openingMark group]?)
  let last ← (← t.marks[closingMark group]?)
  if first.offset ≤ last.offset then some (first.upTo last) else none

end Trail

/-- How an attempt ends. -/
inductive Outcome where
  | success (trail : Trail)
  | failure (trail : Trail)

/-- Whether an attempt succeeded. -/
def Outcome.isSuccess : Outcome → Bool
  | .success _ => true
  | .failure _ => false

/-- Go on after a failure. -/
def Outcome.orElse : Outcome → (Trail → Outcome) → Outcome
  | .success t, _ => .success t
  | .failure t, next => next t

/-- What is done from a spot on. -/
abbrev Attempt := Spot → Trail → Outcome

/-- The end of an attempt, which succeeds where it stands. -/
def arrived : Attempt :=
  fun s t => .success (t.standing s)

/-- Try spots in order, putting marks back in between. -/
def tryEach (exactly : Bool) (attempt : Attempt) : List Spot → Trail → Outcome
  | [], t => .failure t
  | s :: rest, t =>
    (attempt s (t.standing s)).orElse fun u => tryEach exactly attempt rest (u.restore exactly t)

/-- How many turns can make a difference at a spot. -/
def turnBound (s : Spot) : Nat :=
  let size := s.before.length + s.after.length + 2
  size * size

/-- How many characters may be read at a spot. -/
def spanBound (most : Option Nat) (s : Spot) : Nat :=
  match most with
  | none => s.after.length
  | some n => min n s.after.length

/-- One turn less. -/
def oneLess (most : Option Nat) : Option Nat :=
  most.map (· - 1)

/-- Take the turns that are required. -/
def requiredTurns (turn : Spot → Trail → Attempt → Outcome) : Nat → Spot → Trail → Attempt → Outcome
  | 0, s, t, k => k s t
  | n + 1, s, t, k =>
    (turn s (t.standing s) fun s t => requiredTurns turn n s t k).orElse fun u =>
      .failure (u.standing s)

/-- Whether a further turn may be taken, begun elsewhere. -/
def mayTurn (most last : Option Nat) (s : Spot) : Bool :=
  most != some 0 && last != some s.offset

/-- Take as many further turns as possible, then the rest. -/
def greedyTurns (turn : Spot → Trail → Attempt → Outcome) (k : Attempt) :
    Nat → Option Nat → Option Nat → Spot → Trail → Outcome
  | 0, _, _, s, t => k s (t.standing s)
  | fuel + 1, most, last, s, t =>
    let rest (u : Trail) : Outcome := (k s (u.standing s)).orElse fun v => .failure (v.standing s)
    if mayTurn most last s then
      (turn s (t.standing s) (greedyTurns turn k fuel (oneLess most) (some s.offset))).orElse
        fun u =>
        rest (u.restore true t)
    else rest t

/-- Take the rest, then further turns as needed. -/
def lazyTurns (exactly : Bool) (turn : Spot → Trail → Attempt → Outcome) (k : Attempt) :
    Nat → Option Nat → Option Nat → Spot → Trail → Outcome
  | 0, _, _, s, t => k s (t.standing s)
  | fuel + 1, most, last, s, t =>
    (k s (t.standing s)).orElse fun u =>
      let u := (u.restore exactly t).standing s
      if mayTurn most last s then
        (turn s u (lazyTurns exactly turn k fuel (oneLess most) (some s.offset))).orElse fun v =>
          .failure (v.standing s)
      else .failure u

/-- Take required turns, each in its preferred way only. -/
def firmTurns (turn : Attempt) : Nat → Trail → Outcome
  | 0, t => .success t
  | n + 1, t =>
    match turn t.reached t with
    | .success u => firmTurns turn n u
    | .failure u => .failure u

/-- Take all further turns in their preferred way. -/
def possessiveTurns (turn : Attempt) : Nat → Option Nat → Trail → Trail
  | 0, _, t => t
  | fuel + 1, most, t =>
    if most = some 0 then t
    else match turn t.reached t with
      | .success u =>
        if u.reached.offset = t.reached.offset then u
        else possessiveTurns turn fuel (oneLess most) u
      | .failure u => u.restore true t

/-- The trail after counting; folding moves along. -/
def CharTest.counted (test : CharTest) (s furthest : Spot) (t : Trail) : Trail :=
  t.standing (if test.folds then furthest else s)

/-- Read characters that pass a test, in one of the manners. -/
def spanFrom (exactly : Bool) (manner : Manner) (least : Nat) (most : Option Nat) (test : CharTest)
    (next : Option Nat) (s : Spot) (t : Trail) (k : Attempt) : Outcome :=
  if s.after.length < least then .failure t
  else match manner with
    | .greedy =>
      let spots := s.reach test.accepts (spanBound most s) []
      let t := test.counted s (spots.headD s) t
      let candidates := spots.take (spots.length - least)
      let fitting := candidates.filter fun spot => next.all fun code =>
        spot.nextIs (·.toNat == code)
      tryEach exactly k fitting t
    | .possessive =>
      let spots := s.reach test.accepts (spanBound most s) []
      let furthest := spots.headD s
      let t := test.counted s furthest t
      if spots.length ≤ least then .failure t else k furthest t
    | .lazy =>
      let required := s.reach test.accepts least []
      let base := required.headD s
      if required.length ≤ least then .failure (test.counted s base t)
      else
        let spots := (base.reach test.accepts (spanBound (most.map (· - least)) base) []).reverse
        let last := spots.getLastD base
        let beyond := (last.next? test.accepts).getD last
        (tryEach exactly k spots t).orElse fun u => .failure (test.counted last beyond u)

/-- Take a step, `inLoop` within a repetition. -/
def Step.run : Step → (inLoop : Bool) → Spot → Trail → Attempt → Outcome
  | .done, _, s, t, k => k s t
  | .never, _, _, t, _ => .failure t
  | .one accepts, _, s, t, k =>
    match s.next? accepts with
    | some next => k next t
    | none => .failure t
  | .seq first second, inLoop, s, t, k =>
    run first inLoop s t fun s t => run second inLoop s t k
  | .fork lead first others, inLoop, s, t, k =>
    if lead.admits s.after then
      (run first inLoop s (t.standing s) k).orElse fun u =>
        run others inLoop s (u.restore inLoop t) k
    else run others inLoop s t k
  | .span manner least most test next, inLoop, s, t, k =>
    spanFrom inLoop manner least most test next s t k
  | .loop .greedy least most body, _, s, t, k =>
    requiredTurns (run body true) least s t
      (greedyTurns (run body true) k (turnBound s) (most.map (· - least)) none)
  | .loop .lazy least most body, inLoop, s, t, k =>
    requiredTurns (run body true) least s t
      (lazyTurns inLoop (run body true) k (turnBound s) (most.map (· - least)) none)
  | .loop .possessive least most body, inLoop, s, t, k =>
    let turn : Attempt := fun s t => run body inLoop s t arrived
    match firmTurns turn least (t.standing s) with
    | .failure u => .failure (u.standing s)
    | .success u =>
      let u := possessiveTurns turn (turnBound s) (most.map (· - least)) u
      k u.reached u
  | .mark index, _, s, t, k => k s (t.mark index s)
  | .echo group same, _, s, t, k =>
    match (t.captured? group).bind fun text => Spot.past? same text s with
    | some next => k next t
    | none => .failure t
  | .place anchor, _, s, t, k => if anchor.holds s then k s t else .failure t
  | .look back expected body, inLoop, s, t, k =>
    match s.back? back with
    | none => if expected then .failure t else k s t
    | some earlier =>
      match run body inLoop earlier (t.standing earlier) arrived with
      | .success u => if expected then k s u else .failure u
      | .failure u => if expected then .failure u else k s (u.restore inLoop t)
  | .atomic body, inLoop, s, t, k =>
    match run body inLoop s (t.standing s) arrived with
    | .success u => k u.reached u
    | .failure u => .failure (u.standing s)
  | .ifCaptured group yes no, inLoop, s, t, k =>
    if (t.captured? group).isSome then run yes inLoop s t k else run no inLoop s t k

/-- Whether steps lead from the beginning of a text to success. -/
def Step.succeedsOn (step : Step) (cs : List Char) : Bool :=
  (step.run false (.start cs) ⟨.start cs, []⟩ arrived).isSuccess

end SiteAtlas.Expression
