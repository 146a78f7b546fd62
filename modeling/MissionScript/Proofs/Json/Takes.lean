import MissionScript.Json.Decode
import MissionScript.Proofs.Json.Compact

/-!
# What a reader takes

`Takes act cs rest a` says that the reader `act`, in front of `cs` followed by `rest`, passes over
`cs` and nothing more, and gives `a`. A step of a reader takes a part, and the parts are put
together by `Takes.bind`; places play no role. `Reads act j a` says that the reader takes the
compact form of `j` in front of all that may follow a value.
-/

namespace MissionScript.Json

/-- In front of `rest` the reader passes over exactly the characters `cs` and gives `a`. -/
def Takes {α : Type} (act : Reading α) (cs rest : List Char) (a : α) : Prop :=
  ∀ i : Input, i.rest = cs ++ rest → ∃ i', act i = .ok a i' ∧ i'.rest = rest

/-- What may follow a value. -/
def Follows (rest : List Char) : Prop := ∀ c ∈ rest.head?, c = ',' ∨ c = ']' ∨ c = '\x7d'

/-- The reader takes the compact form of `j`, whatever may follow it, and gives `a`. -/
def Reads {α : Type} (act : Reading α) (j : Json) (a : α) : Prop :=
  ∀ rest, Follows rest → Takes act j.chars rest a

section Steps

variable {α β : Type} {cs ds rest : List Char}

namespace Takes

theorem pure (a : α) : Takes (Pure.pure a) [] rest a := fun i hi => ⟨i, rfl, hi⟩

theorem bind {act : Reading α} {f : α → Reading β} {a : α} {b : β}
    (h : Takes act cs (ds ++ rest) a) (hf : Takes (f a) ds rest b) :
    Takes (act >>= f) (cs ++ ds) rest b := by
  intro i hi
  obtain ⟨i', hact, hi'⟩ := h i (by rw [hi, List.append_assoc])
  obtain ⟨i'', hf', hi''⟩ := hf i' hi'
  refine ⟨i'', ?_, hi''⟩
  simp only [Bind.bind, EStateM.bind, hact, hf']

/-- A step that passes over nothing. -/
theorem bind_nil {act : Reading α} {f : α → Reading β} {a : α} {b : β}
    (h : Takes act [] (ds ++ rest) a) (hf : Takes (f a) ds rest b) : Takes (act >>= f) ds rest b :=
  h.bind hf

/-- A step after which nothing more is passed over. -/
theorem bind_end {act : Reading α} {f : α → Reading β} {a : α} {b : β}
    (h : Takes act cs rest a) (hf : Takes (f a) [] rest b) : Takes (act >>= f) cs rest b := by
  rw [← List.append_nil cs]
  exact Takes.bind h hf

theorem placed {act : Reading α} {a : α} (h : Takes act cs rest a) :
    Takes (Reading.placed act) cs rest a := by
  intro i hi
  obtain ⟨i', hact, hi'⟩ := h i hi
  exact ⟨i', by simp only [Reading.placed, hact], hi'⟩

theorem closedBy {inside : Reading α} {close : Reading Unit} {a : α}
    (h : Takes inside cs (ds ++ rest) a) (hclose : Takes close ds rest ()) :
    Takes (Reading.closedBy inside close) (cs ++ ds) rest a := by
  intro i hi
  obtain ⟨i', hinside, hi'⟩ := h i (by rw [hi, List.append_assoc])
  obtain ⟨i'', hclose', hi''⟩ := hclose i' hi'
  exact ⟨i'', by simp only [Reading.closedBy, hinside, hclose'], hi''⟩

theorem nested {act : Reading α} {a : α} {levels : Nat} (hlevels : 1 < levels)
    (h : Takes act cs rest a) : Takes (Reading.nested levels act) cs rest a := by
  rwa [Reading.nested, if_neg (Nat.not_le.mpr hlevels)]

end Takes

namespace Reading

theorem get_bind (f : Input → Reading α) (i : Input) : (get >>= f) i = f i i := rfl

theorem set_bind (i j : Input) (f : PUnit → Reading α) : (set j >>= f) i = f ⟨⟩ j := rfl

theorem takes_peek : Takes peek [] rest rest.head? :=
  fun i hi => ⟨i, by rw [← List.nil_append rest, ← hi]; rfl, hi⟩

theorem takes_remaining : Takes remaining [] rest rest.length :=
  fun i hi => ⟨i, by rw [← List.nil_append rest, ← hi]; rfl, hi⟩

theorem takes_eat (c : Char) : Takes eat [c] rest () := by
  intro i hi
  refine ⟨i.advance, rfl, ?_⟩
  simp [Input.advance, hi]

/-- No space is passed over where none is. -/
theorem takes_token (h : ∀ c ∈ rest.head?, Input.isSpace c = false) :
    Takes token [] rest rest.head? := by
  intro i hi
  have htoken : token i = .ok (Input.skipSpaceFrom i.place i.rest).rest.head?
      (Input.skipSpaceFrom i.place i.rest) := rfl
  obtain ⟨cs, p⟩ := i
  obtain rfl : cs = rest := hi
  have hskip : Input.skipSpaceFrom p cs = ⟨cs, p⟩ := by
    cases cs with
    | nil => rfl
    | cons c cs => rw [Input.skipSpaceFrom, h c rfl, if_neg Bool.false_ne_true]
  exact ⟨⟨cs, p⟩, by rw [htoken, hskip], rfl⟩

theorem takes_token_cons {c : Char} (hc : Input.isSpace c = false) :
    Takes token [] (c :: cs) (some c) :=
  takes_token (by simpa using hc)

theorem takes_run {p : Char → Bool} (hcs : ∀ c ∈ cs, p c = true)
    (hrest : ∀ c ∈ rest.head?, p c = false) : Takes (run p) cs rest cs := by
  intro i hi
  have htake : i.rest.takeWhile p = cs := by
    rw [hi, List.takeWhile_append_of_pos hcs]
    cases rest with
    | nil => simp
    | cons c rest => simp [hrest c rfl]
  have hrun : run p i = .ok (i.rest.takeWhile p) (i.skip (i.rest.takeWhile p).length) := rfl
  exact ⟨i.skip cs.length, by rw [hrun, htake], by simp [Input.skip, hi]⟩

theorem takes_restOfWord : ∀ cs : List Char, Takes (restOfWord cs) cs rest ()
  | [] => .pure ()
  | c :: cs => by
    rw [restOfWord]
    refine .bind_nil takes_peek ?_
    simp only [List.cons_append, List.head?_cons, if_pos]
    exact (takes_eat c).bind (takes_restOfWord cs)

theorem takes_word {s : String} {c : Char} (hs : s.toList = c :: cs) :
    Takes (word s) s.toList rest () := by
  rw [word, hs]
  exact (takes_eat c).bind (takes_restOfWord cs)

theorem takes_colon : Takes colon [':'] rest () := by
  rw [colon]
  exact .bind_nil (takes_token_cons rfl) (takes_eat ':')

theorem takes_closeList : Takes closeList [']'] rest () := by
  rw [closeList]
  exact .bind_nil (takes_token_cons rfl) (takes_eat ']')

theorem takes_closeObject : Takes closeObject ['\x7d'] rest () := by
  rw [closeObject]
  exact .bind_nil (takes_token_cons rfl) (takes_eat '\x7d')

theorem takes_nextElement {c : Char} (hspace : Input.isSpace c = false) (hclose : c ≠ ']')
    (isFirst : Bool) : Takes (nextElement isFirst) (separator isFirst) (c :: cs) true := by
  cases isFirst with
  | true =>
    rw [nextElement]
    refine .bind_nil (takes_token_cons hspace) ?_
    split
    · contradiction
    · simp_all
    · exact .pure true
  | false =>
    rw [nextElement]
    refine .bind_nil (takes_token_cons rfl) ?_
    refine Takes.bind (takes_eat ',') (.bind_nil (takes_token_cons hspace) ?_)
    split
    · simp_all
    · exact .pure true
    · contradiction

theorem takes_nextElement_end (isFirst : Bool) :
    Takes (nextElement isFirst) [] (']' :: cs) false := by
  rw [nextElement]
  exact .bind_nil (takes_token_cons rfl) (.pure false)

theorem takes_nextKey (isFirst : Bool) :
    Takes (nextKey isFirst) (separator isFirst) ('\x22' :: cs) true := by
  rw [nextKey]
  cases isFirst with
  | true => exact .bind_nil (takes_token_cons rfl) (.pure true)
  | false =>
    exact .bind_nil (takes_token_cons rfl)
      (Takes.bind (takes_eat ',') (.bind_nil (takes_token_cons rfl) (.pure true)))

theorem takes_nextKey_end (isFirst : Bool) : Takes (nextKey isFirst) [] ('\x7d' :: cs) false := by
  rw [nextKey]
  exact .bind_nil (takes_token_cons rfl) (.pure false)

theorem takes_valueStart {c : Char} (hc : Input.isSpace c = false) :
    Takes valueStart [] (c :: cs) c := by
  rw [valueStart]
  exact .bind_nil (takes_token_cons hc) (.pure c)

end Reading

end Steps

end MissionScript.Json
