import ReplicationQueue.Yaml.Token

/-! What a document is made of, in the order of the text: scalars, aliases, and the starts and ends
of collections. Tokens are taken one by one; what may come next is a stack of expectations, and each
token either meets the topmost or shows that it was left out. -/

namespace ReplicationQueue.Yaml

/-- A tag as it counts: with the front that its handle stands for. -/
abbrev Tag := Bytes

inductive Event where
  | scalar (anchor : Option String) (tag : Option Tag) (text : String) (plain : Bool)
  | alias (name : String)
  | startSequence (anchor : Option String) (tag : Option Tag)
  | startMapping (anchor : Option String) (tag : Option Tag)
  | endSequence
  | endMapping
  deriving DecidableEq, Repr

namespace Event

/-- A node that was left out. -/
def empty : Event := .scalar none none "" true

/-- Where a node is expected. -/
inductive Site where
  | document
  /-- After the dash of a block sequence. -/
  | entry
  /-- After the dash of a sequence that is not indented. -/
  | plainEntry
  /-- After the question mark or the colon of a block mapping. -/
  | member
  | flowEntry
  /-- A value in a mapping of one member inside a flow sequence. -/
  | pairValue
  | flowKey
  | flowValue
  deriving DecidableEq, Repr

namespace Site

/-- Whether block collections may stand at the site. -/
def isBlock : Site → Bool
  | document | entry | plainEntry | member => true
  | _ => false

/-- Whether `token` shows that the node of the site was left out. -/
def isLeftOut : Site → Token → Bool
  | document, .version _ _ | document, .handle _ _ | document, .documentStart
  | document, .documentEnd | document, .textEnd => true
  | entry, .entry | entry, .blockEnd => true
  | plainEntry, .entry | plainEntry, .key | plainEntry, .value | plainEntry, .blockEnd => true
  | member, .key | member, .value | member, .blockEnd => true
  | pairValue, .comma | pairValue, .closeSequence => true
  | flowKey, .value | flowKey, .comma | flowKey, .closeMapping => true
  | flowValue, .comma | flowValue, .closeMapping => true
  | _, _ => false

end Site

/-- What was read of a node before its content. -/
structure Properties where
  anchor : Option String
  tag : Option Tag
  deriving DecidableEq, Repr

inductive Expected where
  /-- A node, or what shows that it was left out. -/
  | node (site : Site)
  /-- A node, its content not yet begun. -/
  | content (site : Site) (properties : Properties)
  | blockSequence
  | plainSequence
  | blockKey
  | blockValue
  /-- An entry of a flow sequence; the first needs no comma before it. -/
  | firstEntry
  | moreEntries
  | entryAfterComma
  | pairKey
  | pairValue
  | pairEnd
  | firstMember
  | moreMembers
  | memberAfterComma
  | flowValue
  /-- The value of a member without a colon. -/
  | noValue
  | documentStart
  | documentEnd
  | textEnd
  deriving DecidableEq, Repr

/-- What became of a token: it was taken, or the topmost expectation ended before it. -/
inductive Step where
  | taken (events : List Event) (stack : List Expected)
  | passed (events : List Event)
  deriving Repr

/-- The fronts that tag handles stand for. -/
abbrev Handles := List (String × Bytes)

def Handles.initial : Handles :=
  [("!", Utf8.encode "!"), ("!!", Utf8.encode "tag:yaml.org,2002:")]

/-- The tag with the front of its handle. A tag without a handle is whole. -/
def Handles.resolve (handles : Handles) (handle : String) (suffix : Bytes) : Option Tag :=
  if handle = "" then some suffix else (handles.lookup handle).map (· ++ suffix)

/-- The content of a node. Properties without content stand for an empty node. -/
def takeContent (handles : Handles) (site : Site) (p : Properties) (below : List Expected)
    (token : Token) : Option Step :=
  let bare := p.anchor.isNone && p.tag.isNone
  match token with
  | .anchor name =>
    if p.anchor.isNone then some (.taken [] (.content site { p with anchor := some name } :: below))
    else some (.passed [.scalar p.anchor p.tag "" true])
  | .tag handle suffix =>
    if p.tag.isNone then do
      let tag ← handles.resolve handle suffix
      return .taken [] (.content site { p with tag := some tag } :: below)
    else some (.passed [.scalar p.anchor p.tag "" true])
  | .alias name =>
    if bare then some (.taken [.alias name] below)
    else some (.passed [.scalar p.anchor p.tag "" true])
  | .scalar text plain => some (.taken [.scalar p.anchor p.tag text plain] below)
  | .openSequence => some (.taken [.startSequence p.anchor p.tag] (.firstEntry :: below))
  | .openMapping => some (.taken [.startMapping p.anchor p.tag] (.firstMember :: below))
  | token =>
    if site = .member ∧ token = .entry then
      some (.taken [.startSequence p.anchor p.tag] (.node .plainEntry :: .plainSequence :: below))
    else if site.isBlock ∧ token = .blockSequence then
      some (.taken [.startSequence p.anchor p.tag] (.blockSequence :: below))
    else if site.isBlock ∧ token = .blockMapping then
      some (.taken [.startMapping p.anchor p.tag] (.blockKey :: below))
    else if bare then none
    else some (.passed [.scalar p.anchor p.tag "" true])

def takeNode (handles : Handles) (site : Site) (below : List Expected) (token : Token) :
    Option Step :=
  if site.isLeftOut token then some (.passed [empty])
  else takeContent handles site ⟨none, none⟩ below token

/-- The step with an event before its own. -/
def Step.after (event : Event) : Step → Step
  | taken events stack => taken (event :: events) stack
  | passed events => passed (event :: events)

/-- The key of a block mapping, or its end. -/
def takeBlockKey (below : List Expected) : Token → Option Step
  | .key => some (.taken [] (.node .member :: .blockValue :: below))
  | .blockEnd => some (.taken [.endMapping] below)
  | _ => none

/-- An entry of a flow sequence, or its end. A key makes it a mapping of one member. -/
def takeEntry (handles : Handles) (below : List Expected) : Token → Option Step
  | .closeSequence => some (.taken [.endSequence] below)
  | .key => some (.taken [.startMapping none none] (.pairKey :: .moreEntries :: below))
  | token => takeContent handles .flowEntry ⟨none, none⟩ (.moreEntries :: below) token

/-- What follows an entry of a flow sequence. -/
def takeMoreEntries (below : List Expected) : Token → Option Step
  | .closeSequence => some (.taken [.endSequence] below)
  | .comma => some (.taken [] (.entryAfterComma :: below))
  | _ => none

/-- A member of a flow mapping, or its end. -/
def takeMember (handles : Handles) (below : List Expected) : Token → Option Step
  | .closeMapping => some (.taken [.endMapping] below)
  | .key => some (.taken [] (.node .flowKey :: .flowValue :: below))
  | token => takeContent handles .flowEntry ⟨none, none⟩ (.noValue :: below) token

/-- What follows a member of a flow mapping. -/
def takeMoreMembers (below : List Expected) : Token → Option Step
  | .closeMapping => some (.taken [.endMapping] below)
  | .comma => some (.taken [] (.memberAfterComma :: below))
  | _ => none

def Expected.take (handles : Handles) (below : List Expected) (token : Token) :
    Expected → Option Step
  | node site => takeNode handles site below token
  | content site properties => takeContent handles site properties below token
  | blockSequence =>
    match token with
    | .entry => some (.taken [] (.node .entry :: .blockSequence :: below))
    | .blockEnd => some (.taken [.endSequence] below)
    | _ => none
  | plainSequence =>
    match token with
    | .entry => some (.taken [] (.node .plainEntry :: .plainSequence :: below))
    | _ => some (.passed [.endSequence])
  | blockKey => takeBlockKey below token
  | blockValue =>
    match token with
    | .value => some (.taken [] (.node .member :: .blockKey :: below))
    | token => (takeBlockKey below token).map (·.after empty)
  | firstEntry | entryAfterComma => takeEntry handles below token
  | moreEntries => takeMoreEntries below token
  | pairKey =>
    match token with
    | .value | .comma | .closeSequence => some (.taken [empty] (.pairValue :: below))
    | token => takeContent handles .flowEntry ⟨none, none⟩ (.pairValue :: below) token
  | pairValue =>
    match token with
    | .value => some (.taken [] (.node .pairValue :: .pairEnd :: below))
    | _ => some (.passed [empty, .endMapping])
  | pairEnd => some (.passed [.endMapping])
  | firstMember | memberAfterComma => takeMember handles below token
  | moreMembers => takeMoreMembers below token
  | flowValue =>
    match token with
    | .value => some (.taken [] (.node .flowValue :: .moreMembers :: below))
    | token => (takeMoreMembers below token).map (·.after empty)
  | noValue => (takeMoreMembers below token).map (·.after empty)
  | documentStart => if token = .documentStart then some (.taken [] below) else none
  | documentEnd =>
    match token with
    | .documentEnd => some (.taken [] below)
    | _ => some (.passed [])
  | textEnd =>
    match token with
    | .documentEnd => some (.taken [] (.textEnd :: below))
    | .textEnd => some (.taken [] below)
    | _ => none

/-- Takes one token, after the expectations that end before it. -/
def take (handles : Handles) (token : Token) :
    List Expected → Option (List Event × List Expected)
  | [] => none
  | expected :: below =>
    match expected.take handles below token with
    | none => none
    | some (.taken events stack) => some (events, stack)
    | some (.passed events) => do
      let (more, stack) ← take handles token below
      return (events ++ more, stack)

def takeAll (handles : Handles) : List Token → List Expected → Option (List Event)
  | [], stack => if stack = [] then some [] else none
  | token :: rest, stack => do
    let (events, stack) ← take handles token stack
    return events ++ (← takeAll handles rest stack)

/-- The versions of YAML that a text may name. -/
def isVersion (major minor : Nat) : Bool :=
  major = 1 && (minor = 1 || minor = 2)

/-- The directives before a document: the handles that they declare, whether there are any, and the
tokens after them. Neither the version nor a handle may be given twice. -/
def takeDirectives (version : Bool) (handles : Handles) :
    List Token → Option (Bool × Handles × List Token)
  | .version major minor :: rest =>
    if version || !isVersion major minor then none else takeDirectives true handles rest
  | .handle name front :: rest =>
    if (handles.lookup name).isSome then none
    else takeDirectives version ((name, front) :: handles) rest
  | tokens => some (version || !handles.isEmpty, handles, tokens)

/-- The handles of a document: those that its directives declare come before the usual ones. -/
def Handles.ofDirectives (declared : Handles) : Handles :=
  declared ++ Handles.initial

/-- The events of the only document of a text; an empty text has none. -/
def ofTokens? (tokens : List Token) : Option (List Event) := do
  let (directives, declared, tokens) ← takeDirectives false [] tokens
  let handles := Handles.ofDirectives declared
  let document : List Expected := [.node .document, .documentEnd, .textEnd]
  if directives || tokens.head? = some .documentStart then
    takeAll handles tokens (.documentStart :: document)
  else if tokens = [.textEnd] then some []
  else takeAll handles tokens (.content .document ⟨none, none⟩ :: document.drop 1)

end Event

end ReplicationQueue.Yaml
