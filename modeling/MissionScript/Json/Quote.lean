import MissionScript.Json.Input

/-!
# Texts in JSON text

Between quotes stand characters other than control characters, and escapes. A character beyond the
first 65536 may be written as two escapes, a leading and a trailing surrogate.
-/

namespace MissionScript.Json

/-- The value of a digit in base sixteen. -/
def hexDigit? (c : Char) : Option Nat :=
  if c.isDigit then some (c.toNat - '0'.toNat)
  else if 'a' ≤ c && c ≤ 'f' then some (c.toNat - 'a'.toNat + 10)
  else if 'A' ≤ c && c ≤ 'F' then some (c.toNat - 'A'.toNat + 10)
  else none

def hexOf? (cs : List Char) : Option Nat :=
  cs.foldl (fun n c => do return 16 * (← n) + (← hexDigit? c)) (some 0)

/-- The character that a one-letter escape stands for. -/
def simpleEscape? : Char → Option Char
  | '\x22' => some '\x22'
  | '\\' => some '\\'
  | '/' => some '/'
  | 'b' => some '\x08'
  | 'f' => some '\x0c'
  | 'n' => some '\n'
  | 'r' => some '\r'
  | 't' => some '\t'
  | _ => none

def isLeadingSurrogate (n : Nat) : Bool := 0xD800 ≤ n && n ≤ 0xDBFF

def isTrailingSurrogate (n : Nat) : Bool := 0xDC00 ≤ n && n ≤ 0xDFFF

/-- The character that two surrogates stand for. -/
def ofSurrogates (leading trailing : Nat) : Char :=
  Char.ofNat ((leading - 0xD800) * 0x400 + (trailing - 0xDC00) + 0x10000)

/-- The place after `n` bytes of the characters, and the characters left after them; a character may
be passed over in part. Without as many bytes, the place after all. -/
def afterBytes (p : Pos) : Nat → List Char → Pos × Option (List Char)
  | 0, cs => (p, some cs)
  | _ + 1, [] => (p, none)
  | n + 1, c :: cs =>
    if c.utf8Size ≤ n + 1 then afterBytes (Input.after p c) (n + 1 - c.utf8Size) cs
    else (⟨p.line, p.col + (n + 1)⟩, some cs)

namespace Reading

/-- Four digits in base sixteen. Four bytes are passed over, whatever they are. -/
def fourHexDigits : Reading Nat := do
  let i ← get
  match afterBytes i.place 4 i.rest with
  | (p, none) =>
    set (⟨[], p⟩ : Input)
    failHere .endInText
  | (p, some rest) =>
    set (⟨rest, p⟩ : Input)
    match hexOf? (i.rest.take 4) with
    | some n => return n
    | none => failHere .invalidEscape

/-- A character that must follow a leading surrogate. -/
def surrogateMark (c : Char) : Reading Unit := do
  match ← peek with
  | none => failHere .endInText
  | some d => if c = d then eat else failNext .unfinishedSurrogate

/-- An escape by code point, after its letter. -/
def codePointEscape : Reading Char := do
  let n ← fourHexDigits
  if isTrailingSurrogate n then failHere .loneSurrogate
  else if isLeadingSurrogate n then
    surrogateMark '\\'
    surrogateMark 'u'
    let m ← fourHexDigits
    if isTrailingSurrogate m then return ofSurrogates n m
    else failHere .loneSurrogate
  else return Char.ofNat n

/-- An escape after its backslash. -/
def escape : Reading Char := do
  match ← peek with
  | none => failHere .endInText
  | some 'u' =>
    eat
    codePointEscape
  | some c =>
    match simpleEscape? c with
    | some x =>
      eat
      return x
    | none => failNext .invalidEscape

/-- The characters up to the closing quote, in reverse onto `out`, with the quote passed over. At
most as many as `bound`. -/
def textBody (out : List Char) : Nat → Reading String
  | 0 => failHere .endInText
  | bound + 1 => do
    match ← peek with
    | none => failHere .endInText
    | some '\x22' =>
      eat
      return String.ofList out.reverse
    | some '\\' =>
      eat
      let c ← escape
      textBody (c :: out) bound
    | some c =>
      if c.toNat < 32 then failNext .controlCharacter
      else
        eat
        textBody (c :: out) bound

/-- A text, whose opening quote is at hand. -/
def quote : Reading String := do
  eat
  textBody [] ((← remaining) + 1)

/-- Passes over an escape after its backslash. Surrogates need not match. -/
def skipEscape : Reading Unit := do
  match ← peek with
  | none => failHere .endInText
  | some 'u' =>
    eat
    let _ ← fourHexDigits
  | some c => if (simpleEscape? c).isSome then eat else failNext .invalidEscape

/-- Passes over the characters up to the closing quote, at most as many as `bound`. -/
def skipTextBody : Nat → Reading Unit
  | 0 => failHere .endInText
  | bound + 1 => do
    match ← peek with
    | none => failHere .endInText
    | some '\x22' => eat
    | some '\\' =>
      eat
      skipEscape
      skipTextBody bound
    | some c =>
      if c.toNat < 32 then failHere .controlCharacter
      else
        eat
        skipTextBody bound

/-- Passes over a text, whose opening quote is at hand. -/
def skipQuote : Reading Unit := do
  eat
  skipTextBody ((← remaining) + 1)

end Reading

end MissionScript.Json
