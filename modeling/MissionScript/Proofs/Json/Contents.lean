import MissionScript.Proofs.Json.Numbers
import MissionScript.Proofs.Json.Quoted

/-!
# Values are read back as content

The reader of values whose use is not known takes the compact form of every value whose numbers are
whole ones and which is not nested too deeply, and gives the value as content (`reads_content`).
-/

namespace MissionScript.Json

mutual

/-- A value as content. -/
def asContent : Json → Content
  | null => .null
  | bool b => .bool b
  | num n => .whole n
  | str s => .text s
  | arr items => .list (contentOfItems items)
  | obj members => .map (contentOfMembers members)

def contentOfItems : List Json → List Content
  | [] => []
  | j :: js => j.asContent :: contentOfItems js

def contentOfMembers : List (String × Json) → List (String × Content)
  | [] => []
  | (k, j) :: ms => (k, j.asContent) :: contentOfMembers ms

end

theorem contentOfItems_eq_map : ∀ js : List Json, contentOfItems js = js.map asContent
  | [] => rfl
  | j :: js => by rw [contentOfItems, contentOfItems_eq_map js, List.map_cons]

/-- The value can be read with this many levels of nesting left. -/
inductive Shallow : Nat → Json → Prop where
  | null {levels : Nat} : Shallow (levels + 1) null
  | bool {levels : Nat} (b : Bool) : Shallow (levels + 1) (bool b)
  | num {levels : Nat} {n : Int} (hn : IsWhole n) : Shallow (levels + 1) (num n)
  | str {levels : Nat} (s : String) : Shallow (levels + 1) (str s)
  | arr {levels : Nat} {items : List Json} (h : ∀ j ∈ items, Shallow (levels + 1) j) :
    Shallow (levels + 2) (arr items)
  | obj {levels : Nat} {members : List (String × Json)}
    (h : ∀ m ∈ members, Shallow (levels + 1) m.2) : Shallow (levels + 2) (obj members)

theorem startsNumber_apart {c : Char} (hc : Reading.startsNumber c = true) :
    Input.isSpace c = false ∧ c ≠ ']' ∧ c ≠ 'n' ∧ c ≠ 't' ∧ c ≠ 'f' ∧ c ≠ '\x22' := by
  refine ⟨Bool.eq_false_iff.mpr fun hspace => ?_, ?_, ?_, ?_, ?_, ?_⟩
  · simp only [Input.isSpace, Bool.or_eq_true, decide_eq_true_eq] at hspace
    rcases hspace with ((rfl | rfl) | rfl) | rfl <;> exact absurd hc (by decide)
  all_goals
    rintro rfl
    exact absurd hc (by decide)

/-- What a value begins with. -/
theorem chars_start (j : Json) : ∃ c cs, j.chars = c :: cs ∧ Input.isSpace c = false ∧ c ≠ ']' ∧
    (c = 'n' → j = null) := by
  cases j with
  | null => exact ⟨'n', _, rfl, rfl, by decide, fun _ => rfl⟩
  | bool b =>
    cases b with
    | false => exact ⟨'f', _, rfl, rfl, by decide, fun h => absurd h (by decide)⟩
    | true => exact ⟨'t', _, rfl, rfl, by decide, fun h => absurd h (by decide)⟩
  | num n =>
    obtain ⟨c, cs, hchars, hc⟩ := chars_num_start n
    obtain ⟨hspace, hclose, hnull, -⟩ := startsNumber_apart hc
    exact ⟨c, cs, hchars, hspace, hclose, fun h => absurd h hnull⟩
  | str s => exact ⟨'\x22', _, rfl, rfl, by decide, fun h => absurd h (by decide)⟩
  | arr items => exact ⟨'[', _, rfl, rfl, by decide, fun h => absurd h (by decide)⟩
  | obj members => exact ⟨'\x7b', _, rfl, rfl, by decide, fun h => absurd h (by decide)⟩

/-- A reader that counts the characters left has a bound for the items. -/
theorem length_le_charsOfItems : ∀ (js : List Json) (isFirst : Bool) (more : List Char),
    js.length ≤ (charsOfItems isFirst js ++ more).length
  | [], _, _ => Nat.zero_le _
  | j :: js, isFirst, more => by
    obtain ⟨c, cs, hchars, -⟩ := chars_start j
    have ih := length_le_charsOfItems js false more
    simp only [charsOfItems, hchars, List.length_append, List.length_cons] at ih ⊢
    omega

theorem length_le_charsOfMembers : ∀ (ms : List (String × Json)) (isFirst : Bool)
    (more : List Char), ms.length ≤ (charsOfMembers isFirst ms ++ more).length
  | [], _, _ => Nat.zero_le _
  | (k, j) :: ms, isFirst, more => by
    have ih := length_le_charsOfMembers ms false more
    simp only [charsOfMembers, quotedChars, List.length_append, List.length_cons] at ih ⊢
    omega

theorem follows_charsOfItems (js : List Json) (rest : List Char) :
    Follows (charsOfItems false js ++ ']' :: rest) := by
  cases js <;> simp [Follows, charsOfItems, separator]

theorem follows_charsOfMembers (ms : List (String × Json)) (rest : List Char) :
    Follows (charsOfMembers false ms ++ '\x7d' :: rest) := by
  cases ms <;> simp [Follows, charsOfMembers, separator]

namespace Reading

variable {α β γ : Type} {rest : List Char}

/-- The items of a list are read one by one, `w x` being read as `v x`. -/
theorem takes_elements {item : Reading α} {w : β → Json} {v : β → α} :
    ∀ (xs : List β) (bound : Nat) (isFirst : Bool) (sofar : List α),
      (∀ x ∈ xs, Reads item (w x) (v x)) → xs.length ≤ bound →
      Takes (elements item bound isFirst sofar) (charsOfItems isFirst (xs.map w)) (']' :: rest)
        (sofar.reverse ++ xs.map v)
  | [], 0, isFirst, sofar, _, _ => by
    rw [elements, List.map_nil, List.map_nil, List.append_nil]
    exact .pure _
  | [], bound + 1, isFirst, sofar, _, _ => by
    rw [elements, List.map_nil, List.map_nil, List.append_nil]
    exact .bind_nil (takes_nextElement_end isFirst) (.pure _)
  | x :: xs, bound + 1, isFirst, sofar, h, hbound => by
    obtain ⟨c, cs, hchars, hspace, hclose, -⟩ := chars_start (w x)
    have hx := h x List.mem_cons_self _ (follows_charsOfItems (xs.map w) rest)
    have ih := takes_elements xs bound false (v x :: sofar)
      (fun y hy => h y (List.mem_cons_of_mem _ hy)) (Nat.le_of_succ_le_succ hbound)
    rw [List.reverse_cons, List.append_assoc] at ih
    have hnext : Takes (nextElement isFirst) (separator isFirst)
        ((w x).chars ++ charsOfItems false (xs.map w) ++ ']' :: rest) true := by
      rw [hchars]
      exact takes_nextElement hspace hclose isFirst
    rw [elements, List.map_cons, charsOfItems]
    exact hnext.bind (hx.bind ih)

/-- A list from its opening to its closing bracket. -/
theorem takes_list {item : Reading α} {w : β → Json} {v : β → α} {xs : List β} {levels : Nat}
    (hlevels : 1 < levels) (h : ∀ x ∈ xs, Reads item (w x) (v x)) (f : List α → γ)
    (rest : List Char) :
    Takes
      (nested levels do
        eat
        let bound ← remaining
        return f (← closedBy (elements item bound true []) closeList))
      (arr (xs.map w)).chars rest (f (xs.map v)) := by
  have hbound := length_le_charsOfItems (xs.map w) true ([']'] ++ rest)
  rw [List.length_map, ← List.append_assoc] at hbound
  refine .nested hlevels ((takes_eat '[').bind (.bind_nil takes_remaining (.bind_end ?_ (.pure _))))
  exact .closedBy (takes_elements xs _ true [] h hbound) takes_closeList

theorem takes_contentMembers {value : Reading Content} :
    ∀ (ms : List (String × Json)) (bound : Nat) (isFirst : Bool) (sofar : List (String × Content)),
      (∀ m ∈ ms, Reads value m.2 m.2.asContent) → ms.length ≤ bound →
      Takes (contentMembers value bound isFirst sofar) (charsOfMembers isFirst ms) ('\x7d' :: rest)
        (sofar.reverse ++ contentOfMembers ms)
  | [], 0, isFirst, sofar, _, _ => by
    rw [contentMembers, contentOfMembers, List.append_nil]
    exact .pure _
  | [], bound + 1, isFirst, sofar, _, _ => by
    rw [contentMembers, contentOfMembers, List.append_nil]
    exact .bind_nil (takes_nextKey_end isFirst) (.pure _)
  | (k, j) :: ms, bound + 1, isFirst, sofar, h, hbound => by
    have hj := h (k, j) List.mem_cons_self _ (follows_charsOfMembers ms rest)
    have ih := takes_contentMembers ms bound false ((k, j.asContent) :: sofar)
      (fun m hm => h m (List.mem_cons_of_mem _ hm)) (Nat.le_of_succ_le_succ hbound)
    rw [List.reverse_cons, List.append_assoc] at ih
    rw [contentMembers, charsOfMembers]
    exact (takes_nextKey isFirst).bind ((takes_quote k).bind (takes_colon.bind (hj.bind ih)))

/-- An object from its opening to its closing bracket. -/
theorem takes_contentObject {value : Reading Content} {ms : List (String × Json)} {levels : Nat}
    (hlevels : 1 < levels) (h : ∀ m ∈ ms, Reads value m.2 m.2.asContent) :
    Takes
      (nested levels do
        eat
        let bound ← remaining
        return .map (← closedBy (contentMembers value bound true []) closeObject))
      (obj ms).chars rest (obj ms).asContent := by
  have hbound := length_le_charsOfMembers ms true (['\x7d'] ++ rest)
  rw [← List.append_assoc] at hbound
  refine .nested hlevels
    ((takes_eat '\x7b').bind (.bind_nil takes_remaining (.bind_end ?_ (.pure _))))
  exact .closedBy (takes_contentMembers ms _ true [] h hbound) takes_closeObject

/-- What is written for a value is read as the value. -/
theorem reads_content {levels : Nat} {j : Json} (h : Shallow levels j) :
    Reads (content levels) j j.asContent := by
  induction h with
  | null =>
    intro rest _
    rw [content]
    exact .bind_nil (takes_token_cons rfl) (.bind_end (takes_word rfl) (.pure _))
  | bool b =>
    intro rest _
    rw [content]
    cases b <;>
      exact .bind_nil (takes_token_cons rfl) (.bind_end (takes_word rfl) (.pure _))
  | @num levels n hn =>
    intro rest hrest
    obtain ⟨c, cs, hchars, hc⟩ := chars_num_start n
    obtain ⟨hspace, -, hn', ht, hf, hq⟩ := startsNumber_apart hc
    have hnumber := takes_number hn hrest hchars
    rw [content]
    rw [hchars] at hnumber ⊢
    refine .bind_nil (takes_token_cons hspace) ?_
    simp only [if_neg hn', if_neg ht, if_neg hf, if_neg hq, if_pos hc]
    exact .bind_end hnumber (.pure _)
  | str s =>
    intro rest _
    rw [content]
    exact .bind_nil (takes_token_cons rfl) (.bind_end (takes_quote s) (.pure _))
  | @arr levels items _ ih =>
    intro rest _
    rw [content, asContent, contentOfItems_eq_map]
    have hlist :=
      takes_list (w := id) (Nat.lt_add_left levels Nat.one_lt_two) ih Content.list rest
    rw [List.map_id] at hlist
    exact .bind_nil (takes_token_cons rfl) hlist
  | @obj levels members _ ih =>
    intro rest _
    rw [content]
    exact .bind_nil (takes_token_cons rfl)
      (takes_contentObject (Nat.lt_add_left levels Nat.one_lt_two) ih)

end Reading

end MissionScript.Json
