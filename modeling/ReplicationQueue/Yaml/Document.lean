import ReplicationQueue.Yaml.Event
import ReplicationQueue.Yaml.Token.Scanner

/-! A document: its events, and where its anchors are. An alias stands for the node whose anchor it
names. -/

namespace ReplicationQueue.Yaml

/-- An anchor, with the index of the event that it is on. Its number counts the names of anchors
before it. -/
structure Anchor where
  name : String
  number : Nat
  index : Nat
  deriving DecidableEq, Repr

structure Document where
  events : List Event
  anchors : List Anchor
  deriving DecidableEq, Repr

namespace Event

def anchor? : Event → Option String
  | .scalar anchor _ _ _ | .startSequence anchor _ | .startMapping anchor _ => anchor
  | _ => none

/-- The anchors of events from `index` on; `names` are the names of the anchors before. -/
def anchorsFrom (index : Nat) (names : List String) : List Event → List Anchor
  | [] => []
  | e :: rest =>
    match e.anchor? with
    | none => anchorsFrom (index + 1) names rest
    | some name => ⟨name, names.length, index⟩ :: anchorsFrom (index + 1) (names.insert name) rest

/-- Passes over a node, `depth` collections deep. -/
def skipNode (depth : Nat) : List Event → List Event
  | [] => []
  | .startSequence _ _ :: rest | .startMapping _ _ :: rest => skipNode (depth + 1) rest
  | .endSequence :: rest | .endMapping :: rest =>
    if depth ≤ 1 then rest else skipNode (depth - 1) rest
  | _ :: rest => if depth = 0 then rest else skipNode depth rest

theorem length_skipNode_le (depth : Nat) (events : List Event) :
    (skipNode depth events).length ≤ events.length := by
  fun_induction skipNode depth events <;> simp only [List.length_cons, List.length_nil] <;> omega

end Event

namespace Document

/-- The index of the event that an alias at `index` stands for. Anchors of one number share the
place of the last of them. -/
def target? (d : Document) (index : Nat) (name : String) : Option Nat := do
  let named ← (d.anchors.filter fun a => a.name = name ∧ a.index < index).getLast?
  let last ← (d.anchors.filter (·.number = named.number)).getLast?
  return last.index

/-- The first of the events from `rest` on, or what it is an alias of. -/
def eventAt? (d : Document) (rest : List Event) : Option Event :=
  match rest with
  | .alias name :: _ => do
    let index ← d.target? (d.events.length - rest.length) name
    d.events[index]?
  | e :: _ => some e
  | [] => none

/-- Whether every alias from `rest` on stands for a node. -/
def aliasesHold (d : Document) : List Event → Bool
  | [] => true
  | e :: rest => (d.eventAt? (e :: rest)).isSome && d.aliasesHold rest

/-- The document of a text, which may hold no more than one. -/
def read? (text : String) : Option Document := do
  let events ← Event.ofTokens? (← Token.scan text)
  let d : Document := ⟨events, Event.anchorsFrom 0 [] events⟩
  if d.aliasesHold events then some d else none

end Document

end ReplicationQueue.Yaml
