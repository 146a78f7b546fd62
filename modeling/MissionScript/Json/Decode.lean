import MissionScript.Json.Content
import MissionScript.Json.Shape
import MissionScript.Json.Skip

/-!
# Reading data by its shape

Text is read straight into data as the shape directs, so that a fault is told where it stands. Only
what may belong to a record spread in another one is read as content first; a fault found in content
is told at the end of the object around it.

A record may also be given as a list of its members in order, unless another record is spread in it.
A choice may be given as an object with the name as its only key and `null` as the value.
-/

namespace MissionScript.Json

/-- A record in messages. -/
def recordName (name : String) : String := "struct " ++ name

/-- A number of elements in words. -/
def elementCount (n : Nat) : String :=
  if n = 1 then "1 element" else toString n ++ " elements"

def recordOfLength (name : String) (n : Nat) : String :=
  recordName name ++ " with " ++ elementCount n

/-- The datum that a member without a value has. -/
def Member.lacking (m : Member) : Except Fault Datum :=
  match m.lack with
  | .refused => .error (.missingField m.name)
  | .absent => .ok .absent
  | .means d => .ok d

/-- The whole number as a datum, if it is in the range. -/
def inRange (name : String) (low high : Int) (n : Int) : Except Fault Datum :=
  if low ≤ n ∧ n ≤ high then .ok (.whole n) else .error (.wrongValue (.whole n) name)

/-- The name as a datum, if it is one of the choice. -/
def chosen (names : List String) (s : String) : Except Fault Datum :=
  if names.contains s then .ok (.text s) else .error (.unknownChoice s names)

/-- The places of the members with their values, if they have any. -/
abbrev Slots := List (Option Datum)

/-- The position of the member that a key names. -/
def memberPosition? (members : List Member) (key : String) : Option Nat :=
  members.findIdx? fun m => !m.spread && m.name = key

/-- The values of all members but the spread ones, whose slots are left empty. -/
def fillSlots : List Member → Slots → Except Fault Slots
  | m :: ms, slot :: slots => do
    let d ← if m.spread then pure slot
      else match slot with
        | some d => pure (some d)
        | none => do pure (some (← m.lacking))
    return d :: (← fillSlots ms slots)
  | _, _ => .ok []

/-- A record is spread in this one. -/
def hasSpread (members : List Member) : Bool := members.any (·.spread)

/-! ## From content -/

/-- Takes in the members one after the other: a slot is filled once. -/
def slotsOfMembers (members : List Member) (read : Nat → Content → Except Fault Datum) :
    Slots → List (String × Content) → Except Fault Slots
  | slots, [] => .ok slots
  | slots, (key, c) :: rest =>
    match memberPosition? members key with
    | none => slotsOfMembers members read slots rest
    | some i =>
      if ((slots[i]?).getD none).isSome then .error (.duplicateField key)
      else do
        let d ← read i c
        slotsOfMembers members read (slots.set i (some d)) rest

/-- The items of a record given as a list: those that are there, then those that are lacking. -/
def itemsOfList (name : String) (count : Nat) :
    Nat → List Member → List (Content → Except Fault Datum) → List Content →
      Except Fault (List Datum)
  | i, _ :: ms, r :: rs, c :: cs => do
    let d ← r c
    return d :: (← itemsOfList name count (i + 1) ms rs cs)
  | i, m :: ms, _ :: rs, [] => do
    match m.lack with
    | .means d => return d :: (← itemsOfList name count (i + 1) ms rs [])
    | _ => .error (.wrongLength i (recordOfLength name count))
  | i, _, _, c :: cs => .error (.wrongLength (i + (c :: cs).length) (elementCount i ++ " in sequence"))
  | _, _, _, [] => .ok []

/-- A unit value. -/
def unitOfContent : Content → Except Fault Unit
  | .null | .map [] => .ok ()
  | c => .error (.wrongType c.found "unit")

def choiceOfContent (names : List String) : Content → Except Fault Datum
  | .text s => chosen names s
  | .map [(s, c)] => do
    let d ← chosen names s
    unitOfContent c
    return d
  | .map _ => .error (.wrongValue .map "map with a single key")
  | c => .error (.wrongType c.found "string or map")

mutual

/-- Reads content as the shape directs. -/
def Shape.ofContent : Shape → Content → Except Fault Datum
  | .whole name low high, c =>
    match c with
    | .whole n => inRange name low high n
    | c => .error (.wrongType c.found name)
  | .flag, c =>
    match c with
    | .bool b => .ok (.flag b)
    | c => .error (.wrongType c.found "a boolean")
  | .text, c =>
    match c with
    | .text s => .ok (.text s)
    | c => .error (.wrongType c.found "a string")
  | .list item, c =>
    match c with
    | .list cs => do return .list (← cs.mapM (Shape.ofContent item))
    | c => .error (.wrongType c.found "a sequence")
  | .optional s, c =>
    match c with
    | .null => .ok .absent
    | c => Shape.ofContent s c
  | .choice names, c => choiceOfContent names c
  | .record name members, c =>
    let known := members.map (·.1)
    let readers := Shape.contentReaders members
    match c with
    | .map entries => do
      let read (i : Nat) (c : Content) : Except Fault Datum :=
        match readers[i]? with
        | some r => r c
        | none => .ok .absent
      let slots ← slotsOfMembers known read (known.map fun _ => none) entries
      let slots ← fillSlots known slots
      return .record (slots.map (·.getD .absent))
    | .list cs => do return .record (← itemsOfList name known.length 0 known readers cs)
    | c => .error (.wrongType c.found (recordName name))

def Shape.contentReaders : List (Member × Shape) → List (Content → Except Fault Datum)
  | [] => []
  | (_, s) :: rest => Shape.ofContent s :: Shape.contentReaders rest

end

/-! ## From text -/

namespace Reading

/-- A finding as a reading; a fault gets its place later. -/
def ofFinding {α : Type} (r : Except Fault α) : Reading α :=
  match r with
  | .ok a => return a
  | .error f => failLater f

/-- Fails because of what begins with `c`, the character at hand: it is read if it is not a list or
an object. -/
def failType {α : Type} (c : Char) (wanted : String) : Reading α := placed do
  if c = 'n' then
    word "null"
    failLater (.wrongType .null wanted)
  else if c = 't' then
    word "true"
    failLater (.wrongType (.bool true) wanted)
  else if c = 'f' then
    word "false"
    failLater (.wrongType (.bool false) wanted)
  else if startsNumber c then
    let n ← number c
    failLater (.wrongType n.found wanted)
  else if c = '\x22' then
    let s ← quote
    failLater (.wrongType (.text s) wanted)
  else if c = '[' then failLater (.wrongType .sequence wanted)
  else if c = '\x7b' then failLater (.wrongType .map wanted)
  else failNext .expectedValue

/-- The first character of a value. -/
def valueStart : Reading Char := do
  match ← token with
  | some c => return c
  | none => failNext .endInValue

def whole (name : String) (low high : Int) : Reading Datum := do
  let c ← valueStart
  if startsNumber c then
    placed do
      match ← number c with
      | .whole n => ofFinding (inRange name low high n)
      | .float x => failLater (.wrongType (.float x) name)
  else failType c name

def flag : Reading Datum := do
  let c ← valueStart
  if c = 't' then
    word "true"
    return .flag true
  else if c = 'f' then
    word "false"
    return .flag false
  else failType c "a boolean"

/-- A text, which `wanted` describes, put through `f`. -/
def textThrough (wanted : String) (f : String → Except Fault Datum) : Reading Datum := do
  let c ← valueStart
  if c = '\x22' then
    placed do
      let s ← quote
      ofFinding (f s)
  else failType c wanted

def listOf (levels : Nat) (item : Reading Datum) : Reading Datum := do
  let c ← valueStart
  if c = '[' then
    nested levels do
      eat
      let bound ← remaining
      return .list (← closedBy (elements item bound true []) closeList)
  else failType c "a sequence"

def optionalOf (item : Reading Datum) : Reading Datum := do
  if (← token) = some 'n' then
    word "null"
    return .absent
  else item

def unit : Reading Unit := do
  let c ← valueStart
  if c = 'n' then word "null" else failType c "unit"

def choiceOf (levels : Nat) (names : List String) : Reading Datum := do
  match ← token with
  | none => failNext .endInValue
  | some '\x22' => textThrough "variant identifier" (chosen names)
  | some '\x7b' =>
    nested levels do
      eat
      let d ← textThrough "variant identifier" (chosen names)
      colon
      unit
      match ← token with
      | some '\x7d' =>
        eat
        return d
      | some _ => failHere .expectedValue
      | none => failHere .endInObject
  | some _ => failNext .expectedValue

/-- The items of a record given as a list: the members from the one numbered `i` on. -/
def recordItems (name : String) (count : Nat) :
    Nat → List Member → List (Reading Datum) → Reading (List Datum)
  | i, m :: ms, r :: rs => do
    if ← nextElement (i = 0) then
      let d ← r
      return d :: (← recordItems name count (i + 1) ms rs)
    else
      match m.lack with
      | .means d => return d :: (← recordItems name count (i + 1) ms rs)
      | _ => failLater (.wrongLength i (recordOfLength name count))
  | _, _, _ => return []

/-- The slots of a record given as an object, and its members that may belong to a record spread in
it; other members are passed over. At most as many members as `bound`. -/
def recordSlots (levels : Nat) (members : List Member) (readers : List (Reading Datum)) :
    Nat → Bool → Slots → List (String × Content) → Reading (Slots × List (String × Content))
  | 0, _, slots, others => return (slots, others.reverse)
  | bound + 1, isFirst, slots, others => do
    if ← nextKey isFirst then
      let key ← quote
      match memberPosition? members key with
      | some i =>
        if ((slots[i]?).getD none).isSome then failLater (.duplicateField key)
        else
          colon
          let d ← (readers[i]?).getD (return .absent)
          recordSlots levels members readers bound false (slots.set i (some d)) others
      | none =>
        colon
        if hasSpread members then
          let c ← content levels
          recordSlots levels members readers bound false slots ((key, c) :: others)
        else
          skipValue
          recordSlots levels members readers bound false slots others
    else return (slots, others.reverse)

/-- Gives each spread member its record, made of the other members. -/
def spreadSlots (others : List (String × Content)) :
    List (Member × Shape) → Slots → Except Fault (List Datum)
  | (m, s) :: rest, slot :: slots => do
    let d ← if m.spread then s.ofContent (.map others) else pure (slot.getD .absent)
    return d :: (← spreadSlots others rest slots)
  | _, _ => .ok []

/-- What is inside a record given as an object. -/
def recordBody (levels : Nat) (members : List (Member × Shape)) (readers : List (Reading Datum)) :
    Reading Datum := do
  let known := members.map (·.1)
  let (slots, others) ←
    recordSlots levels known readers ((← remaining) + 1) true (known.map fun _ => none) []
  let slots ← ofFinding (fillSlots known slots)
  return .record (← ofFinding (spreadSlots others members slots))

/-- A record whose members are read by `readers` one level deeper. -/
def recordOf (levels : Nat) (name : String) (members : List (Member × Shape))
    (readers : List (Reading Datum)) : Reading Datum := do
  let c ← valueStart
  if c = '\x7b' then
    nested levels do
      eat
      closedBy (recordBody (levels - 1) members readers) closeObject
  else if c = '[' && !hasSpread (members.map (·.1)) then
    nested levels do
      eat
      let known := members.map (·.1)
      closedBy (do return .record (← recordItems name known.length 0 known readers)) closeList
  else failType c (recordName name)

end Reading

mutual

/-- Reads text as the shape directs, with this many levels of nesting left. -/
def Shape.reading (levels : Nat) : Shape → Reading Datum
  | .whole name low high => Reading.whole name low high
  | .flag => Reading.flag
  | .text => Reading.textThrough "a string" fun s => .ok (.text s)
  | .list item => Reading.listOf levels (Shape.reading (levels - 1) item)
  | .optional s => Reading.optionalOf (Shape.reading levels s)
  | .choice names => Reading.choiceOf levels names
  | .record name members =>
    Reading.recordOf levels name members (Shape.readings (levels - 1) members)

def Shape.readings (levels : Nat) : List (Member × Shape) → List (Reading Datum)
  | [] => []
  | (_, s) :: rest => Shape.reading levels s :: Shape.readings levels rest

end

/-- A value and nothing after it. -/
def Reading.alone {α : Type} (act : Reading α) : Reading α := do
  let a ← act
  match ← token with
  | none => return a
  | some _ => failNext .trailingCharacters

/-- The datum of the shape that a text holds. -/
def Shape.read (s : Shape) (text : String) : Except Error Datum :=
  match (s.reading Reading.levelLimit).alone (.ofText text) with
  | .ok d _ => .ok d
  | .error e _ => .error e

end MissionScript.Json
