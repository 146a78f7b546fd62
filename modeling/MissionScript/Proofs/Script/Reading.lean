import MissionScript.Script.Reader

/-!
# What parsers take

A reader is seen as the lexemes that are left. What a parser gives is related to the lexemes that it
takes (`Gives`), and the other way round, a parser is shown to succeed where certain lexemes are at
hand (`Reads`). Both are closed under doing one parser after another, so that a parser is judged by
its parts.
-/

namespace MissionScript

namespace Reader

variable {r : Reader} {l : Lexeme} {ls : List Lexeme}

/-- The lexemes that are left. -/
def lexemes (r : Reader) : List Lexeme := r.rest.map (·.lexeme)

theorem length_lexemes (r : Reader) : r.lexemes.length = r.rest.length := List.length_map _

theorem peek_eq (r : Reader) : r.peek = r.lexemes.headD .eof := by
  obtain ⟨_ | ⟨t, ts⟩, previous⟩ := r <;> rfl

theorem peekNext_eq (r : Reader) : r.peekNext = r.lexemes.tail.headD .eof := by
  obtain ⟨_ | ⟨t, _ | ⟨t', ts⟩⟩, previous⟩ := r <;> rfl

theorem lexemes_advance (r : Reader) : r.advance.lexemes = r.lexemes.tail := by
  obtain ⟨_ | ⟨t, ts⟩, previous⟩ := r <;> rfl

theorem peek_of_lexemes (h : r.lexemes = l :: ls) : r.peek = l := by
  rw [peek_eq, h, List.headD_cons]

theorem advance_of_lexemes (h : r.lexemes = l :: ls) : r.advance.lexemes = ls := by
  rw [lexemes_advance, h, List.tail_cons]

theorem lexemes_of_peek (h : r.peek = l) (hl : l ≠ .eof) : r.lexemes = l :: r.advance.lexemes := by
  rw [peek_eq] at h
  rw [lexemes_advance]
  rcases hr : r.lexemes with _ | ⟨l', ls⟩ <;> rw [hr] at h
  · exact absurd h.symm hl
  · rw [← h, List.headD_cons, List.tail_cons]

end Reader

namespace Parse

variable {α β : Type} {r r' : Reader}

section Runs

theorem bind_of_ok {p : Parse α} {a : α} (h : p r = .ok (a, r')) (f : α → Parse β) :
    (p >>= f) r = f a r' := by
  change (p r >>= fun x => f x.1 x.2) = _
  rw [h]
  rfl

theorem bind_of_error {p : Parse α} {e : ParseError} (h : p r = .error e) (f : α → Parse β) :
    (p >>= f) r = .error e := by
  change (p r >>= fun x => f x.1 x.2) = _
  rw [h]
  rfl

theorem bind_eq_ok {p : Parse α} {f : α → Parse β} {x : β × Reader} :
    (p >>= f) r = .ok x ↔ ∃ a r', p r = .ok (a, r') ∧ f a r' = .ok x := by
  constructor
  · intro h
    change (p r >>= fun x => f x.1 x.2) = _ at h
    rcases hp : p r with e | ⟨a, r'⟩ <;> rw [hp] at h
    · cases h
    · exact ⟨a, r', rfl, h⟩
  · rintro ⟨a, r', hp, hf⟩
    rw [bind_of_ok hp, hf]

theorem peek_bind (f : Lexeme → Parse β) : (peek >>= f) r = f r.peek r := rfl

theorem take_bind (f : Span → Parse β) : (take >>= f) r = f r.here r.advance := rfl

theorem remaining_bind (f : Nat → Parse β) : (remaining >>= f) r = f r.rest.length r := rfl

theorem previous_bind (f : Span → Parse β) : (previous >>= f) r = f r.previous r := rfl

theorem eat_of_peek {l : Lexeme} (h : r.peek = l) : eat l r = .ok (true, r.advance) := by
  rw [eat, peek_bind, if_pos h]
  rfl

theorem eat_of_ne {l : Lexeme} (h : r.peek ≠ l) : eat l r = .ok (false, r) := by
  rw [eat, peek_bind, if_neg h]
  rfl

end Runs

/-- What the parser gives stands in the relation to the lexemes that it takes. -/
def Gives (p : Parse α) (F : List Lexeme → α → Prop) : Prop :=
  ∀ ⦃r a r'⦄, p r = .ok (a, r') → ∃ ls, r.lexemes = ls ++ r'.lexemes ∧ F ls a

/-- The same where `l` is at hand. -/
def GivesAt (l : Lexeme) (p : Parse α) (F : List Lexeme → α → Prop) : Prop :=
  ∀ ⦃r a r'⦄, r.peek = l → p r = .ok (a, r') → ∃ ls, r.lexemes = ls ++ r'.lexemes ∧ F ls a

section Given

variable {F : List Lexeme → α → Prop} {H : List Lexeme → β → Prop}

theorem Gives.at {p : Parse α} (h : Gives p F) (l : Lexeme) : GivesAt l p F :=
  fun _ _ _ _ hp => h hp

theorem Gives.mono {G : List Lexeme → α → Prop} {p : Parse α} (h : Gives p F)
    (hFG : ∀ ls a, F ls a → G ls a) : Gives p G := by
  intro r a r' hp
  obtain ⟨ls, hls, ha⟩ := h hp
  exact ⟨ls, hls, hFG ls a ha⟩

theorem gives_pure {a : α} (h : F [] a) : Gives (pure a) F := by
  intro r b r' hp
  cases hp
  exact ⟨[], rfl, h⟩

theorem gives_failAt (fault : ParseFault) (span : Span) : Gives (failAt fault span) F := by
  intro r a r' hp
  cases hp

theorem gives_fail (fault : ParseFault) : Gives (fail fault) F := by
  intro r a r' hp
  cases hp

theorem GivesAt.bind {l : Lexeme} {p : Parse α} {f : α → Parse β} (hp : GivesAt l p F)
    (hf : ∀ a ls, F ls a → Gives (f a) fun ls' b => H (ls ++ ls') b) : GivesAt l (p >>= f) H := by
  intro r b r'' hl h
  obtain ⟨a, r', hpa, hfb⟩ := bind_eq_ok.mp h
  obtain ⟨ls, hls, ha⟩ := hp hl hpa
  obtain ⟨ls', hls', hb⟩ := hf a ls ha hfb
  exact ⟨ls ++ ls', by rw [hls, hls', List.append_assoc], hb⟩

theorem Gives.bind {p : Parse α} {f : α → Parse β} (hp : Gives p F)
    (hf : ∀ a ls, F ls a → Gives (f a) fun ls' b => H (ls ++ ls') b) : Gives (p >>= f) H :=
  fun r _ _ h => (hp.at r.peek).bind hf rfl h

theorem Gives.ite {c : Prop} [Decidable c] {p q : Parse α} (hp : Gives p F) (hq : Gives q F) :
    Gives (if c then p else q) F := by
  split
  · exact hp
  · exact hq

theorem gives_peek {f : Lexeme → Parse α} (h : ∀ l, GivesAt l (f l) F) : Gives (peek >>= f) F :=
  fun r _ _ hp => h r.peek rfl hp

theorem givesAt_take {l : Lexeme} (hl : l ≠ .eof) {f : Span → Parse α}
    (h : ∀ s, Gives (f s) fun ls a => F (l :: ls) a) : GivesAt l (take >>= f) F := by
  intro r a r' hr hp
  rw [take_bind] at hp
  obtain ⟨ls, hls, ha⟩ := h _ hp
  exact ⟨l :: ls, by rw [Reader.lexemes_of_peek hr hl, hls, List.cons_append], ha⟩

theorem gives_remaining {f : Nat → Parse α} (h : ∀ n, Gives (f n) F) :
    Gives (remaining >>= f) F := fun _ _ _ hp => h _ hp

theorem gives_previous {f : Span → Parse α} (h : ∀ s, Gives (f s) F) :
    Gives (previous >>= f) F := fun _ _ _ hp => h _ hp

theorem gives_eat {l : Lexeme} (hl : l ≠ .eof) :
    Gives (eat l) fun ls b => ls = if b then [l] else [] := by
  refine gives_peek fun l' => ?_
  split
  · rename_i h
    subst h
    exact givesAt_take hl fun _ => gives_pure rfl
  · exact Gives.at (gives_pure (by simp)) _

theorem gives_expect {l : Lexeme} (hl : l ≠ .eof) : Gives (expect l) fun ls _ => ls = [l] := by
  refine gives_peek fun l' => ?_
  split
  · rename_i h
    subst h
    rw [← bind_pure take]
    exact givesAt_take hl fun _ => gives_pure rfl
  · exact (gives_fail _).at _

theorem gives_expectColon (after : String) :
    Gives (expectColon after) fun ls _ => ls = [.symbol .colon] := by
  refine gives_peek fun l => ?_
  split
  · rename_i h
    subst h
    exact givesAt_take Lexeme.noConfusion fun _ => gives_pure rfl
  · exact (gives_fail _).at _

theorem gives_expectName (role : String) :
    Gives (expectName role) fun ls x => ls = [.name x.name] := by
  refine gives_peek fun l => ?_
  split
  · exact givesAt_take Lexeme.noConfusion fun _ => gives_pure rfl
  · exact (gives_fail _).at _
  · exact (gives_fail _).at _

end Given

/-- Where the lexemes `ls` are at hand and `rest` follows them, the parser takes them and gives a
value with the property. -/
def Reads (p : Parse α) (ls rest : List Lexeme) (P : α → Prop) : Prop :=
  ∀ ⦃r⦄, r.lexemes = ls ++ rest → ∃ a r', p r = .ok (a, r') ∧ r'.lexemes = rest ∧ P a

section Read

variable {P : α → Prop} {Q : β → Prop} {l : Lexeme} {ls ls' rest : List Lexeme}

theorem Reads.mono {Q : α → Prop} {p : Parse α} (h : Reads p ls rest P) (hPQ : ∀ a, P a → Q a) :
    Reads p ls rest Q := by
  intro r hr
  obtain ⟨a, r', hp, hrest, ha⟩ := h hr
  exact ⟨a, r', hp, hrest, hPQ a ha⟩

theorem reads_pure {a : α} (h : P a) : Reads (pure a) [] rest P := fun r hr => ⟨a, r, rfl, hr, h⟩

theorem Reads.bind {p : Parse α} {f : α → Parse β} (hp : Reads p ls (ls' ++ rest) P)
    (hf : ∀ a, P a → Reads (f a) ls' rest Q) : Reads (p >>= f) (ls ++ ls') rest Q := by
  intro r hr
  obtain ⟨a, r', hpa, hr', ha⟩ := hp (by rw [hr, List.append_assoc])
  rw [bind_of_ok hpa]
  exact hf a ha hr'

theorem Reads.then {c : Prop} [Decidable c] {p q : Parse α} (h : Reads p ls rest P) (hc : c) :
    Reads (if c then p else q) ls rest P := by
  rwa [if_pos hc]

theorem Reads.else {c : Prop} [Decidable c] {p q : Parse α} (h : Reads q ls rest P) (hc : ¬c) :
    Reads (if c then p else q) ls rest P := by
  rwa [if_neg hc]

theorem Reads.last {p : Parse α} {f : α → Parse β} (hp : Reads p ls rest P)
    (hf : ∀ a, P a → Reads (f a) [] rest Q) : Reads (p >>= f) ls rest Q := by
  rw [← List.append_nil ls]
  exact Reads.bind hp hf

/-- What a parser looks at before it takes anything. -/
theorem reads_peek {f : Lexeme → Parse α} (h : Reads (f ((ls ++ rest).headD .eof)) ls rest P) :
    Reads (peek >>= f) ls rest P := by
  intro r hr
  rw [peek_bind, Reader.peek_eq, hr]
  exact h hr

theorem reads_peek_cons {f : Lexeme → Parse α} (h : Reads (f l) (l :: ls) rest P) :
    Reads (peek >>= f) (l :: ls) rest P := reads_peek h

theorem reads_take {f : Span → Parse α} (h : ∀ s, Reads (f s) ls rest P) :
    Reads (take >>= f) (l :: ls) rest P := by
  intro r hr
  rw [take_bind]
  exact h _ (Reader.advance_of_lexemes hr)

theorem reads_remaining {f : Nat → Parse α} (h : Reads (f (ls.length + rest.length)) ls rest P) :
    Reads (remaining >>= f) ls rest P := by
  intro r hr
  rw [remaining_bind, ← Reader.length_lexemes, hr, List.length_append]
  exact h hr

theorem reads_previous {f : Span → Parse α} (h : ∀ s, Reads (f s) ls rest P) :
    Reads (previous >>= f) ls rest P := by
  intro r hr
  rw [previous_bind]
  exact h _ hr

theorem reads_expect {f : Span → Parse α} (h : ∀ s, Reads (f s) ls rest P) :
    Reads (expect l >>= f) (l :: ls) rest P := by
  intro r hr
  have hexpect : expect l r = .ok (r.here, r.advance) := by
    rw [expect, peek_bind, if_pos (Reader.peek_of_lexemes hr)]
    rfl
  rw [bind_of_ok hexpect]
  exact h _ (Reader.advance_of_lexemes hr)

theorem reads_expectColon (after : String) {f : Unit → Parse α} (h : Reads (f ()) ls rest P) :
    Reads (expectColon after >>= f) (.symbol .colon :: ls) rest P := by
  intro r hr
  have hexpect : expectColon after r = .ok ((), r.advance) := by
    rw [expectColon, peek_bind, if_pos (Reader.peek_of_lexemes hr)]
    rfl
  rw [bind_of_ok hexpect]
  exact h (Reader.advance_of_lexemes hr)

theorem reads_expectName (role : String) {s : String} {f : Ident → Parse α}
    (h : ∀ x : Ident, x.name = s → Reads (f x) ls rest P) :
    Reads (expectName role >>= f) (.name s :: ls) rest P := by
  intro r hr
  have hexpect : expectName role r = .ok (⟨s, r.here⟩, r.advance) := by
    rw [expectName, peek_bind, Reader.peek_of_lexemes hr]
    rfl
  rw [bind_of_ok hexpect]
  exact h _ rfl (Reader.advance_of_lexemes hr)

theorem reads_eat {f : Bool → Parse α} (h : Reads (f true) ls rest P) :
    Reads (eat l >>= f) (l :: ls) rest P := by
  intro r hr
  rw [bind_of_ok (eat_of_peek (Reader.peek_of_lexemes hr))]
  exact h (Reader.advance_of_lexemes hr)

theorem reads_eat_of_ne (hne : (ls ++ rest).headD .eof ≠ l) {f : Bool → Parse α}
    (h : Reads (f false) ls rest P) : Reads (eat l >>= f) ls rest P := by
  intro r hr
  rw [bind_of_ok (eat_of_ne (by rwa [Reader.peek_eq, hr]))]
  exact h hr

end Read

end Parse

end MissionScript
