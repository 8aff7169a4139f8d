import StoryWorld.Delta.Batch
import StoryWorld.Schema.Catalogue
import StoryWorld.Value.Order

/-!
Secrets fade.

At the end of an episode every active secret with a half-life loses part of the stats that its decay
names. A secret whose legal value and public damage have both become small turns inert. With the
number of the episode given, a secret is not faded twice for one episode.

A secret in which something took the place of a set of given fields is taken to fade like any other.
-/

namespace StoryWorld.Decay

/-- A secret with both values below this is inert. -/
def inertThreshold : Value := .float 0.15

/-- What a stat is multiplied by in one episode, for a half-life in episodes. Only below zero, where
it makes stats grow, can it be too large. -/
def factor (halfLife : Value) : Outcome Float :=
  match halfLife.numeric? with
  | none => .error .wrongType
  | some n =>
    if n.isZero then .error .divisionByZero
    else do
      let episodes ← Outcome.ofSize ((Number.int 1).div? n)
      let x := Float.pow 0.5 episodes
      if n.less (.int 0) && x.isInf && episodes.isFinite then .error .overflow else return x

/-- Fades one stat by its name: a declared one in any case, an extra one if it is a number. Also
says whether the name was that of a stat. -/
def fadeStat (x : Float) (slots : List (Slot × Value)) (name : Value) :
    Outcome (List (Slot × Value) × Bool) :=
  if !name.isKey then .error .wrongType
  else
    let text := name.textOr ""
    match name.category, Table.get? (.field text) slots, Table.get? (.extra text) slots with
    | .string, some v, _ => do
      let faded ← v.times x
      return (Table.put (.field text) faded slots, true)
    | .string, none, some (.number n) => do
      let faded ← (Value.number n).times x
      return (Table.put (.extra text) faded slots, true)
    | _, _, _ => .ok (slots, false)

/-- Fades the stats of several names in turn, up to the first failure. -/
def fadeStats (x : Float) (slots : List (Slot × Value)) (touched : Bool) :
    List Value → List (Slot × Value) × Outcome Bool
  | [] => (slots, .ok touched)
  | name :: names =>
    match fadeStat x slots name with
    | .error fault => (slots, .error fault)
    | .ok (slots, hit) => fadeStats x slots (touched || hit) names

/-- What came of fading one secret. -/
structure Effect where
  decayed : Bool
  inert : Bool
  deriving DecidableEq, Repr

/-- Whether a secret fades at all, and its decay if it does. -/
def fading? (secret : Value) : Outcome (Option Value) := do
  let status ← secret.get "status"
  if !status.equal (.text "active") then return none
  else
    let decay ← secret.get "decay"
    if decay.category = .null then return none
    else
      let halfLife ← decay.get "half_life_episodes"
      if ← halfLife.holds .le (.int 0) then return none else return some decay

/-- Whether a secret was faded for an episode, or a later one, before. -/
def isDone (decay : Value) : Option Int → Outcome Bool
  | none => .ok false
  | some episode => do
    let last ← decay.get "last_decayed_episode"
    last.holds .ge (.int episode)

/-- The secret with the number of the episode noted in its decay. -/
def noteEpisode (secret decay : Value) : Option Int → Value
  | none => secret
  | some episode =>
    secret.setField "decay" (decay.setField "last_decayed_episode" (.int episode))

/-- Fades the stats of a secret by its decay: the secret afterwards, and whether it had one of the
stats that are named. -/
def fadeSecret (secret decay : Value) : Value × Outcome Bool :=
  let prepared : Outcome (Float × Kind × List (Slot × Value) × List Value) := do
    let x ← factor (← decay.get "half_life_episodes")
    match ← secret.get "stats" with
    | .entity kind slots =>
      let names ← (← decay.get "applies_to").iterate
      return (x, kind, slots, names)
    | _ => .error .noField
  match prepared with
  | .error fault => (secret, .error fault)
  | .ok (x, kind, slots, names) =>
    let (slots, touched) := fadeStats x slots false names
    (secret.setField "stats" (.entity kind slots), touched)

/-- Whether both values of a secret are below the threshold. -/
def isFaint (secret : Value) : Outcome Bool := do
  let stats ← secret.get "stats"
  let legal ← stats.get "legal_value"
  if ← legal.holds .lt inertThreshold then
    let damage ← stats.get "public_damage"
    damage.holds .lt inertThreshold
  else return false

/-- One secret at the end of an episode: the secret afterwards, and what came of it. -/
def ofSecret (episode : Option Int) (secret : Value) : Value × Outcome Effect :=
  match fading? secret with
  | .error fault => (secret, .error fault)
  | .ok none => (secret, .ok ⟨false, false⟩)
  | .ok (some decay) =>
    match isDone decay episode with
    | .error fault => (secret, .error fault)
    | .ok true => (secret, .ok ⟨false, false⟩)
    | .ok false =>
      let (faded, touched) := fadeSecret (noteEpisode secret decay episode) decay
      match touched, isFaint faded with
      | .error fault, _ => (faded, .error fault)
      | .ok _, .error fault => (faded, .error fault)
      | .ok touched, .ok true => (faded.setField "status" (.text "inert"), .ok ⟨touched, true⟩)
      | .ok touched, .ok false => (faded, .ok ⟨touched, false⟩)

/-- The ids of the secrets that faded and of those that turned inert. -/
structure Result where
  decayed : List Value
  inert : List Value

/-- The secrets at the end of an episode, in turn, up to the first failure. -/
def ofSecrets (episode : Option Int) : List Value → List Value × Outcome Result
  | [] => ([], .ok ⟨[], []⟩)
  | secret :: rest =>
    match ofSecret episode secret with
    | (after, .error fault) => (after :: rest, .error fault)
    | (after, .ok effect) =>
      let (others, outcome) := ofSecrets episode rest
      let id := after.field "id"
      let add (r : Result) : Result :=
        ⟨if effect.decayed then id :: r.decayed else r.decayed,
          if effect.inert then id :: r.inert else r.inert⟩
      (after :: others, outcome.map add)

/-- The line about the secrets of an episode. -/
def line (episode : Option Int) (r : Result) : Line :=
  ⟨.info, "secret_decay", none, none,
    "Secret decay applied episode=" ++ (match episode with
      | some n => toString n
      | none => "-") ++ " decayed=" ++ toString r.decayed.length ++ " inert=" ++
      toString r.inert.length⟩

/-- The end of an episode: all secrets of a story fade. -/
def apply (story : Story) (episode : Option Int) : Run Result :=
  let (secrets, outcome) := ofSecrets episode story.secrets.items
  let after := { story with secrets := .list secrets }
  match outcome with
  | .ok r => ⟨after, [line episode r], .ok r⟩
  | .error fault => ⟨after, [], .error fault⟩

end StoryWorld.Decay
