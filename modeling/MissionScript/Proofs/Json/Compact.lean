import MissionScript.Json.Basic
import Mathlib.Data.List.Basic

/-!
# The characters of the compact form

The writer of the compact form puts text after text. `toList_compact` says which characters come out
of it, by the structure of the value.
-/

namespace MissionScript.Json

/-- The characters of a text inside quotes. -/
def escapedChars (cs : List Char) : List Char := cs.flatMap fun c => (escapedChar c).toList

def quotedChars (s : String) : List Char := '\x22' :: (escapedChars s.toList ++ ['\x22'])

/-- What stands in front of an item or a member. -/
def separator (isFirst : Bool) : List Char := if isFirst then [] else [',']

mutual

/-- The characters of the compact form. -/
def chars : Json → List Char
  | null => "null".toList
  | bool b => (if b then "true" else "false").toList
  | num n => (toString n).toList
  | str s => quotedChars s
  | arr items => '[' :: (charsOfItems true items ++ [']'])
  | obj members => '\x7b' :: (charsOfMembers true members ++ ['\x7d'])

def charsOfItems (isFirst : Bool) : List Json → List Char
  | [] => []
  | j :: js => separator isFirst ++ (j.chars ++ charsOfItems false js)

def charsOfMembers (isFirst : Bool) : List (String × Json) → List Char
  | [] => []
  | (k, j) :: ms =>
    separator isFirst ++ (quotedChars k ++ (':' :: (j.chars ++ charsOfMembers false ms)))

end

theorem toList_foldl_escapedChar (cs : List Char) (out : String) :
    (cs.foldl (fun o c => o ++ escapedChar c) out).toList = out.toList ++ escapedChars cs := by
  induction cs generalizing out with
  | nil => simp [escapedChars]
  | cons c cs ih =>
    rw [List.foldl_cons, ih, String.toList_append, escapedChars, escapedChars, List.flatMap_cons,
      List.append_assoc]

theorem toList_quoteOnto (out s : String) :
    (quoteOnto out s).toList = out.toList ++ quotedChars s := by
  simp [quoteOnto, toList_foldl_escapedChar, quotedChars]

theorem toList_separated (isFirst : Bool) (out : String) :
    (if isFirst then out else out ++ ",").toList = out.toList ++ separator isFirst := by
  cases isFirst <;> simp [separator]

mutual

theorem toList_compactOnto : ∀ (j : Json) (out : String),
    (compactOnto out j).toList = out.toList ++ j.chars
  | null, out => by simp [compactOnto, chars]
  | bool b, out => by simp [compactOnto, chars]
  | num n, out => by simp [compactOnto, chars]
  | str s, out => by rw [compactOnto, toList_quoteOnto, chars]
  | arr items, out => by simp [compactOnto, chars, toList_compactItems items]
  | obj members, out => by simp [compactOnto, chars, toList_compactMembers members]

theorem toList_compactItems : ∀ (js : List Json) (out : String) (isFirst : Bool),
    (compactItems out isFirst js).toList = out.toList ++ charsOfItems isFirst js
  | [], out, isFirst => by simp [compactItems, charsOfItems]
  | j :: js, out, isFirst => by
    rw [compactItems, toList_compactItems js, toList_compactOnto j, toList_separated]
    simp [charsOfItems]

theorem toList_compactMembers : ∀ (ms : List (String × Json)) (out : String) (isFirst : Bool),
    (compactMembers out isFirst ms).toList = out.toList ++ charsOfMembers isFirst ms
  | [], out, isFirst => by simp [compactMembers, charsOfMembers]
  | (k, j) :: ms, out, isFirst => by
    rw [compactMembers, toList_compactMembers ms, toList_compactOnto j, String.toList_append,
      toList_quoteOnto, toList_separated]
    simp [charsOfMembers]

end

theorem toList_compact (j : Json) : j.compact.toList = j.chars := by
  rw [compact, toList_compactOnto]
  rfl

end MissionScript.Json
