import StoryWorld.Story.Query

/-!
The walk along the ties around some characters.

The walk goes level by level: the ties of the seeds first, then the ties of the characters that
those lead to, and so on for a number of hops. A tie is followed from either end but reported as it
is, once, with the number of the hop that reached it. Ties with one text of their two ends count as
one. What is reported is sorted: the nearest ties first, of those the strongest first.
-/

namespace StoryWorld.Walk

/-- A tie that was reached, and the hop that reached it. -/
structure Walked where
  tie : Value
  hop : Nat

/-- How far a walk has come: the characters whose ties were followed, the texts of the ties that
were reached, those ties in the order in which they were, and the characters for the next level. -/
structure Progress where
  visited : List Value
  seen : List String
  walked : List Walked
  next : List Value

/-- Whether a value is in a list. -/
def isAmong (v : Value) (vs : List Value) : Bool := vs.any (v.equal ·)

/-- The end of a tie that is not the given character. -/
def otherEnd (character tie : Value) : Outcome Value := do
  tie.calling "other_end"
  let source ← tie.get "from_"
  if source.equal character then tie.get "to" else return source

/-- The progress with the other end of a tie among the characters for the next level, unless it was
visited or is there already. -/
def enqueue (p : Progress) (other : Value) : Outcome Progress :=
  if !other.isKey then .error .wrongType
  else if isAmong other p.visited || isAmong other p.next then .ok p
  else .ok { p with next := p.next ++ [other] }

/-- Follows a tie of a character, unless one with the same ends was reached before. -/
def followTie (hop : Nat) (character : Value) (p : Progress) (tie : Value) : Outcome Progress := do
  let text ← tie.tieText
  if p.seen.contains text then return p
  else
    let other ← otherEnd character tie
    enqueue { p with seen := text :: p.seen, walked := p.walked ++ [⟨tie, hop⟩] } other

/-- Follows the ties of a character that was not visited before. -/
def visit (story : Story) (hop : Nat) (p : Progress) (character : Value) : Outcome Progress :=
  if isAmong character p.visited then .ok p
  else do
    let ties ← story.relationshipsFor character
    ties.foldlM (followTie hop character) { p with visited := character :: p.visited }

/-- Follows the ties of a level of characters. -/
def level (story : Story) (hop : Nat) (p : Progress) (frontier : List Value) : Outcome Progress :=
  frontier.foldlM (visit story hop) { p with next := [] }

/-- Follows the levels from a frontier on, for so many hops; it ends early when no character is
left. -/
def levels (story : Story) : Nat → Nat → Progress → List Value → Outcome Progress
  | 0, _, p, _ => .ok p
  | hops + 1, hop, p, frontier =>
    if frontier.isEmpty then .ok p
    else do
      let q ← level story hop p frontier
      levels story hops (hop + 1) q q.next

/-- A list with every value once, where it first occurs. -/
def distinct : List Value → List Value
  | [] => []
  | v :: rest => v :: (distinct rest).filter fun w => !w.equal v

/-- The ties that a walk from some seeds reaches, in the order in which it does. -/
def reached (story : Story) (seeds : List Value) (maxHops : Nat) : Outcome (List Walked) :=
  if !seeds.all Value.isKey then .error .wrongType
  else (levels story maxHops 1 ⟨[], [], [], []⟩ (distinct seeds)).map Progress.walked

/-- The greatest of some values, the first of equal ones. -/
def greatest (best : Value) : List Value → Outcome Value
  | [] => .ok best
  | v :: rest => do
    if ← v.holds .gt best then greatest v rest else greatest best rest

/-- The strongest weight of a tie; one without weights is weaker than any. -/
def strongest (tie : Value) : Outcome Value := do
  let weights ← tie.get "weights"
  if !weights.truthy then return .float (-Binary.infinity)
  else
    match weights with
    | .mapping ((_, first) :: rest) => greatest first (rest.map Prod.snd)
    | _ => .error .noField

/-- A tie with what it is sorted by: the hop and the strength, turned around. -/
def keyed (w : Walked) : Outcome (Number × Walked) := do
  let strength ← (← strongest w.tie).minus
  return ((strength.numeric?).getD (.int 0), w)

/-- The order of a report: by hop, then by strength. -/
def before (a b : Number × Walked) : Bool :=
  decide (a.2.hop < b.2.hop) || (a.2.hop == b.2.hop && !b.1.less a.1)

/-- The ties around some seeds, the nearest and strongest first. -/
def walk (story : Story) (seeds : List Value) (maxHops : Nat) : Outcome (List Walked) := do
  let walked ← reached story seeds maxHops
  let keyed ← walked.mapM keyed
  return (keyed.mergeSort before).map Prod.snd

end StoryWorld.Walk
