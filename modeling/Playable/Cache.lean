import Playable.Register
import Playable.Script.Extract
import Playable.Settings
import Playable.Text.Order

/-!
# The memory of player versions

Recovering a plan is expensive, and few player versions are in use at a time. The
cache remembers the plans of the latest versions, and also which versions yielded
none. A remembered plan becomes the latest whenever it is asked for; a remembered
failure keeps its place. What exceeds the capacity is forgotten, oldest first.
-/

namespace Playable

open Cipher Script

/-- How a plan is recovered from a script. -/
abbrev Extractor := Text → Except ScriptError Plan

/-- Why a player version has no plan. -/
inductive PlayerError where
  /-- The version is refused without looking at it. -/
  | denied (player : Text)
  /-- The script of the version yields no plan. -/
  | script (e : ScriptError)
  deriving DecidableEq, Repr

/-- The wording for a player version without a plan. -/
def PlayerError.message : PlayerError → Text
  | denied player =>
    "Player ".toList ++ player ++ " is not supported by this descrambler".toList
  | script e => e.message

/-- What is remembered about player versions. -/
structure Cache where
  /-- How many plans, and how many failures, are kept. -/
  capacity : Nat
  /-- Something is kept. -/
  capacity_pos : 0 < capacity
  /-- Versions that are refused. -/
  denied : List Text
  /-- The plans of versions, the latest last. -/
  contexts : Register Plan
  /-- The faults of versions without a plan, the latest last. -/
  failures : Register ExtractionFault

/-- The answer to a request, and the cache after it. -/
structure Reply (α : Type) where
  /-- The answer. -/
  result : Except PlayerError α
  /-- The cache after the request. -/
  cache : Cache
  /-- Whether a script was read to find the answer. -/
  extracted : Bool

namespace Cache

/-- A cache that remembers nothing yet. -/
def fresh (size : Int) (denied : List Text) : Cache where
  capacity := (max 1 size).toNat
  capacity_pos := by omega
  denied := denied
  contexts := []
  failures := []

/-- The refused versions in order, each once. -/
def deniedNames (cache : Cache) : List Text :=
  Text.sorted cache.denied.eraseDups

/-- Move a name that was just used to the end. -/
def touch {α : Type} (r : Register α) (name : Text) (value : α) : Register α :=
  Register.erase r name ++ [(name, value)]

/-- Enter a value and forget the oldest ones beyond the capacity. -/
def remember {α : Type} (capacity : Nat) (r : Register α) (name : Text) (value : α) :
    Register α :=
  let entered := Register.set r name value
  entered.drop (entered.length - capacity)

/-- Refuse versions that are denied, and versions that failed before. -/
def checkSupported (cache : Cache) (player : Text) : Except PlayerError Unit :=
  if Text.isOneOf cache.denied player then .error (.denied player)
  else match Register.get? cache.failures player with
    | some f => .error (.script (.fault f))
    | none => .ok ()

/-- Whether the plan of a version is remembered. -/
def has (cache : Cache) (player : Text) : Bool :=
  Register.has cache.contexts player

/-- The remembered plan of a version, which becomes the latest. -/
def recalled (cache : Cache) (player : Text) : Option (Plan × Cache) :=
  (Register.get? cache.contexts player).map fun plan =>
    (plan, { cache with contexts := touch cache.contexts player plan })

/-- Look a version up without reading a script. -/
def lookup (cache : Cache) (player : Text) : Reply (Option Plan) :=
  match cache.checkSupported player with
  | .error e => ⟨.error e, cache, false⟩
  | .ok () =>
    match cache.recalled player with
    | some (plan, cache) => ⟨.ok (some plan), cache, false⟩
    | none => ⟨.ok none, cache, false⟩

/-- The plan of a version that was found to be supported: remembered, or else
recovered from the script and remembered, as is a declared fault. -/
def obtain (extract : Extractor) (cache : Cache) (player script : Text) : Reply Plan :=
  match cache.recalled player with
  | some (plan, cache) => ⟨.ok plan, cache, false⟩
  | none =>
    match extract script with
    | .ok plan =>
      ⟨.ok plan, { cache with
        contexts := remember cache.capacity cache.contexts player plan }, true⟩
    | .error (.fault f) =>
      ⟨.error (.script (.fault f)), { cache with
        failures := remember cache.capacity cache.failures player f }, true⟩
    | .error e => ⟨.error (.script e), cache, true⟩

/-- The plan of a version, recovered from its script if need be. -/
def get (extract : Extractor) (cache : Cache) (player script : Text) : Reply Plan :=
  match cache.checkSupported player with
  | .error e => ⟨.error e, cache, false⟩
  | .ok () => obtain extract cache player script

/-- Forget everything. -/
def clear (cache : Cache) : Cache :=
  { cache with contexts := [], failures := [] }

end Cache
end Playable
