import MissionScript.Proofs.Script.Grammar
import MissionScript.Proofs.Script.Reading

/-!
# What is read as an expression is one

Each parser of expressions gives a tree that the lax grammar derives from the lexemes taken. The
parsers of one level of nesting are judged from those of the level below it (`Sound`), so the whole
follows by induction on the number of levels. A loop over operators keeps a tree for what it has
taken so far.
-/

namespace MissionScript

open Parse Grammar

section Lists

variable {α β γ : Type} {item : Parse α} {shown : α → γ} {words : β → List Lexeme} {tree : β → γ}
  {Part : β → Prop}

/-- The values are what parts with commas between them stand for. -/
def Listed (shown : α → γ) (words : β → List Lexeme) (tree : β → γ) (Part : β → Prop)
    (ls : List Lexeme) (as : List α) : Prop :=
  ∃ (parts : List β) (trailing : Bool), ls = listing trailing (parts.map words) ∧
    as.map shown = parts.map tree ∧ ∀ p ∈ parts, Part p

theorem listed_nil : Listed shown words tree Part [] [] := ⟨[], false, rfl, rfl, by simp⟩

theorem listed_single {a : α} {p : β} (ha : shown a = tree p) (hp : Part p) :
    Listed shown words tree Part (words p) [a] :=
  ⟨[p], false, by simp [listing], by simp [ha], by simpa using hp⟩

theorem Listed.cons {ls : List Lexeme} {a : α} {as : List α} {p : β} (ha : shown a = tree p)
    (hp : Part p) (h : Listed shown words tree Part ls as) :
    Listed shown words tree Part (words p ++ .symbol .comma :: ls) (a :: as) := by
  obtain ⟨parts, trailing, rfl, htrees, heach⟩ := h
  refine ⟨p :: parts, trailing || parts.isEmpty, ?_, by simp [ha, htrees],
    List.forall_mem_cons.mpr ⟨hp, heach⟩⟩
  cases parts <;> simp [listing]

/-- The loop over items gives what it has so far and one value more for each part that it takes. -/
theorem Parse.gives_separated
    (hitem : Gives item fun ls a => ∃ p, ls = words p ∧ shown a = tree p ∧ Part p)
    (close : Symbol) (bound : Nat) (sofar : List α) :
    Gives (separated item close bound sofar) fun ls as =>
      ∃ more, as = sofar.reverse ++ more ∧ Listed shown words tree Part ls more := by
  induction bound generalizing sofar with
  | zero => exact gives_pure ⟨[], by simp, listed_nil⟩
  | succ bound ih =>
    refine gives_peek fun l => Gives.at (.ite (gives_pure ⟨[], by simp, listed_nil⟩) ?_) l
    refine hitem.bind ?_
    rintro a _ ⟨p, rfl, ha, hp⟩
    refine (gives_eat Lexeme.noConfusion).bind ?_
    rintro comma _ rfl
    cases comma with
    | true =>
      refine (ih (a :: sofar)).mono ?_
      rintro ls as ⟨more, rfl, hmore⟩
      exact ⟨a :: more, by simp, hmore.cons ha hp⟩
    | false => exact gives_pure ⟨[a], by simp, by simpa using listed_single ha hp⟩

theorem Parse.gives_enclosed
    (hitem : Gives item fun ls a => ∃ p, ls = words p ∧ shown a = tree p ∧ Part p)
    (close : Symbol) :
    Gives (enclosed item close) fun ls as =>
      ∃ ls', ls = ls' ++ [.symbol close] ∧ Listed shown words tree Part ls' as := by
  refine gives_remaining fun n => (gives_separated hitem close n []).bind ?_
  rintro as ls ⟨more, rfl, hmore⟩
  refine (gives_expect Lexeme.noConfusion).bind ?_
  rintro _ _ rfl
  exact gives_pure ⟨ls, by simp, hmore⟩

end Lists

/-- What the parsers of a level give is derived with `n` levels of nesting, where an operand of a
prefix operator is one level deeper than the operator. -/
structure Sound (n : Nat) (d : Nested) : Prop where
  expression : Gives d.expression fun ls e => Derives true .expr n ls e.bare
  negation : Gives d.negation fun ls e => ∃ m, n = m + 1 ∧ Derives true .not m ls e.bare
  signed : Gives d.signed fun ls e => ∃ m, n = m + 1 ∧ Derives true .signed m ls e.bare

/-- The operators that a loop applies to operands of the rank `r'`, giving trees of the rank `r`. -/
structure Joins (r r' : Rank) (op? : Lexeme → Option BinOp) : Prop where
  next : r.next? = some r'
  lexemes {l : Lexeme} {op : BinOp} : op? l = some op → op.lexemes = [l]
  ranks {l : Lexeme} {op : BinOp} : op? l = some op →
    op.leftRank = r ∧ op.rank = r ∧ op.rightRank = r'
  layout {l : Lexeme} {op : BinOp} : op? l = some op → l ≠ .eof

theorem joins_or : Joins .or .and orOp? := by
  constructor
  · rfl
  all_goals
    intro l op h
    unfold orOp? at h
    split at h <;> cases h
    decide

theorem joins_and : Joins .and .not andOp? := by
  constructor
  · rfl
  all_goals
    intro l op h
    unfold andOp? at h
    split at h <;> cases h
    decide

theorem joins_sum : Joins .sum .product sumOp? := by
  constructor
  · rfl
  all_goals
    intro l op h
    unfold sumOp? at h
    split at h <;> cases h <;> decide

theorem joins_product : Joins .product .signed productOp? := by
  constructor
  · rfl
  all_goals
    intro l op h
    unfold productOp? at h
    split at h <;> cases h <;> decide

theorem gives_bounded (e : Expr) :
    Gives (bounded e) fun ls a => ls = [] ∧ a = e ∧ e.height ≤ heightLimit := by
  unfold bounded
  split
  · exact gives_pure ⟨rfl, rfl, ‹_›⟩
  · exact gives_failAt _ _

theorem comparisonHere_bind {α : Type} {r : Reader} (f : Option (BinOp × Nat) → Parse α) :
    (comparisonHere? >>= f) r = f (comparison? r.peek r.peekNext) r := rfl

theorem gives_comparisonHere {α : Type} {f : Option (BinOp × Nat) → Parse α}
    {F : List Lexeme → α → Prop} (h : ∀ c, Gives (f c) F) : Gives (comparisonHere? >>= f) F :=
  fun _ _ _ hp => h _ hp

/-- A comparison that is at hand is spelled there, in one token or in two. -/
theorem lexemes_of_comparison {r : Reader} {op : BinOp} {k : Nat}
    (h : comparison? r.peek r.peekNext = some (op, k)) :
    (op.rank = .comparison ∧ op.leftRank = .sum ∧ op.rightRank = .sum) ∧
      (k = 1 ∧ r.lexemes = op.lexemes ++ r.advance.lexemes ∨
        k = 2 ∧ r.lexemes = op.lexemes ++ r.advance.advance.lexemes) := by
  unfold comparison? at h
  split at h <;> cases h
  case h_8 hnot hin =>
    have hfirst := Reader.lexemes_of_peek hnot Lexeme.noConfusion
    rw [Reader.peekNext_eq, ← Reader.lexemes_advance, ← Reader.peek_eq] at hin
    rw [Reader.lexemes_of_peek hin Lexeme.noConfusion] at hfirst
    exact ⟨by decide, .inr ⟨rfl, hfirst⟩⟩
  all_goals exact ⟨by decide, .inl ⟨rfl, Reader.lexemes_of_peek ‹_› Lexeme.noConfusion⟩⟩

section Loops

variable {n : Nat} {r r' : Rank} {op? : Lexeme → Option BinOp} {operand : Parse Expr}

theorem gives_chainFrom (hjoins : Joins r r' op?)
    (hoperand : Gives operand fun ls e => Derives true r' n ls e.bare) (bound : Nat) :
    ∀ {ls₀ : List Lexeme} {left : Expr}, Derives true r n ls₀ left.bare →
      Gives (chainFrom operand op? bound left) fun ls e => Derives true r n (ls₀ ++ ls) e.bare := by
  induction bound with
  | zero => exact fun h => gives_pure (by simpa using h)
  | succ bound ih =>
    intro ls₀ left hleft
    refine gives_peek fun l => ?_
    split
    · exact (gives_pure (by simpa using hleft)).at l
    · rename_i op hop
      obtain ⟨hl, hr, hr'⟩ := hjoins.ranks hop
      refine givesAt_take (hjoins.layout hop) fun _ => hoperand.bind ?_
      intro right ls hright
      refine (gives_bounded _).bind ?_
      rintro _ _ ⟨rfl, rfl, -⟩
      have hjoined := Derives.binary op (hl ▸ hleft) (hr' ▸ hright)
      rw [hr, hjoins.lexemes hop, ← bare_joined] at hjoined
      exact (ih hjoined).mono fun ls' e he => by simpa using he

theorem gives_chain (hjoins : Joins r r' op?)
    (hoperand : Gives operand fun ls e => Derives true r' n ls e.bare) :
    Gives (chain operand op?) fun ls e => Derives true r n ls e.bare :=
  hoperand.bind fun _ _ hleft => gives_remaining fun bound =>
    gives_chainFrom hjoins hoperand bound (.next hjoins.next hleft)

end Loops

namespace Sound

variable {n : Nat} {d : Nested}

theorem parts (h : Sound n d) : Gives d.expression fun ls e =>
    ∃ p : Phrase Expr, ls = p.1 ∧ e.bare = p.2 ∧ Derives true .expr n p.1 p.2 :=
  h.expression.mono fun ls e he => ⟨(ls, e.bare), rfl, rfl, he⟩

theorem entry (h : Sound n d) : Gives (entry d) fun ls e =>
    ∃ p : Phrase Expr × Phrase Expr, ls = entryLexemes p ∧ (e.1.bare, e.2.bare) = (p.1.2, p.2.2) ∧
      Derives true .expr n p.1.1 p.1.2 ∧ Derives true .expr n p.2.1 p.2.2 := by
  refine h.expression.bind fun key lk hk => (gives_expect Lexeme.noConfusion).bind ?_
  rintro _ _ rfl
  refine h.expression.bind fun value lv hv => gives_pure ?_
  exact ⟨((lk, key.bare), (lv, value.bare)), by simp [entryLexemes], rfl, hk, hv⟩

theorem parenthesized (h : Sound n d) :
    GivesAt (.symbol .lparen) (parenthesized d) fun ls e => Derives true .primary n ls e.bare := by
  refine givesAt_take Lexeme.noConfusion fun start => h.expression.bind fun e ls he => ?_
  refine gives_peek fun l => Gives.at (.ite (gives_fail _) ?_) l
  refine (gives_expect Lexeme.noConfusion).bind ?_
  rintro _ _ rfl
  refine gives_previous fun s => gives_pure ?_
  rw [Expr.bare_new, ← he.measured.of_bare.bare_eq_fresh]
  simpa using Derives.paren he

theorem listLiteral (h : Sound n d) :
    GivesAt (.symbol .lbracket) (listLiteral d) fun ls e => Derives true .primary n ls e.bare := by
  refine givesAt_take Lexeme.noConfusion fun start => (gives_enclosed h.parts .rbracket).bind ?_
  rintro items _ ⟨ls, rfl, parts, trailing, rfl, htrees, heach⟩
  refine gives_previous fun s => gives_pure ?_
  rw [Expr.bare_new, Expr.mapParts, htrees]
  simpa using Derives.list trailing heach

theorem dictLiteral (h : Sound n d) :
    GivesAt (.symbol .lbrace) (dictLiteral d) fun ls e => Derives true .primary n ls e.bare := by
  refine givesAt_take Lexeme.noConfusion fun start => (gives_enclosed h.entry .rbrace).bind ?_
  rintro entries _ ⟨ls, rfl, parts, trailing, rfl, htrees, heach⟩
  refine gives_previous fun s => gives_pure ?_
  rw [Expr.bare_new, Expr.mapParts, htrees]
  simpa using Derives.dict trailing (fun p hp => (heach p hp).1) (fun p hp => (heach p hp).2)

theorem primary (h : Sound n d) :
    Gives (primary d) fun ls e => Derives true .primary n ls e.bare := by
  refine gives_peek fun l => ?_
  cases l with
  | int | float | str | name =>
    exact givesAt_take Lexeme.noConfusion fun _ => gives_pure (.atom rfl)
  | keyword k =>
    cases k with
    | trueWord | falseWord | noneWord =>
      exact givesAt_take Lexeme.noConfusion fun _ => gives_pure (.atom rfl)
    | _ => exact (gives_fail _).at _
  | symbol s =>
    cases s with
    | lparen => exact h.parenthesized
    | lbracket => exact h.listLiteral
    | lbrace => exact h.dictLiteral
    | _ => exact (gives_fail _).at _
  | newline | indent | dedent | eof => exact (gives_fail _).at _

theorem unlessAt (h : Sound n d) (stop : Symbol) : Gives (unlessAt stop d) fun ls e =>
    ∃ p : Option (Phrase Expr), ls = Grammar.optional p ∧ e.map Expr.bare = p.map (·.2) ∧
      ∀ a ∈ p, Derives true .expr n a.1 a.2 := by
  refine gives_peek fun l => Gives.at (.ite (gives_pure ⟨none, rfl, rfl, by simp⟩) ?_) l
  refine h.expression.bind fun e ls he => gives_pure ?_
  exact ⟨some (ls, e.bare), by simp [Grammar.optional], rfl, by simpa using he⟩

theorem subscript (h : Sound n d) {ls₀ : List Lexeme} {object : Expr}
    (hobject : Derives true .suffixed n ls₀ object.bare) :
    Gives (subscript d object) fun ls e =>
      Derives true .suffixed n (ls₀ ++ .symbol .lbracket :: ls) e.bare := by
  refine (h.unlessAt .colon).bind ?_
  rintro start _ ⟨p, rfl, hstart, hp⟩
  refine (gives_eat Lexeme.noConfusion).bind ?_
  rintro colon _ rfl
  cases colon with
  | true =>
    refine (h.unlessAt .rbracket).bind ?_
    rintro stop _ ⟨q, rfl, hstop, hq⟩
    refine (gives_expect Lexeme.noConfusion).bind ?_
    rintro _ _ rfl
    refine gives_previous fun s => gives_pure ?_
    rw [Expr.bare_new, Expr.mapParts, hstart, hstop]
    simpa using Derives.slice hobject hp hq
  | false =>
    cases start with
    | none => exact gives_fail _
    | some i =>
      refine (gives_expect Lexeme.noConfusion).bind ?_
      rintro _ _ rfl
      refine gives_previous fun s => gives_pure ?_
      obtain ⟨a, rfl, ha⟩ := Option.map_eq_some_iff.mp hstart.symm
      have hi := hp a rfl
      rw [ha] at hi
      rw [Expr.bare_new, Expr.mapParts]
      simpa [Grammar.optional] using Derives.index hobject hi

theorem callOf (h : Sound n d) {ls₀ : List Lexeme} {e : Expr}
    (he : Derives true .suffixed n ls₀ e.bare) :
    GivesAt (.symbol .lparen) (callOf d e) fun ls e' =>
      Derives true .suffixed n (ls₀ ++ ls) e'.bare := by
  unfold MissionScript.callOf
  split
  · refine givesAt_take Lexeme.noConfusion fun start => (gives_enclosed h.parts .rparen).bind ?_
    rintro args _ ⟨ls, rfl, parts, trailing, rfl, htrees, heach⟩
    refine gives_previous fun s => gives_pure ?_
    rw [he.measured.of_bare.bare_eq_fresh] at he
    rw [Expr.bare_new, Expr.mapParts, htrees]
    simpa using Derives.call trailing he (fun h => absurd h (by decide)) heach
  · exact (gives_fail _).at _

theorem methodOf (h : Sound n d) {ls₀ : List Lexeme} {e : Expr}
    (he : Derives true .suffixed n ls₀ e.bare) :
    GivesAt (.symbol .dot) (methodOf d e) fun ls e' =>
      Derives true .suffixed n (ls₀ ++ ls) e'.bare := by
  refine givesAt_take Lexeme.noConfusion fun start => (gives_expectName _).bind ?_
  rintro m _ rfl
  refine gives_peek fun l => ?_
  split
  · rename_i hl
    subst hl
    refine givesAt_take Lexeme.noConfusion fun start => (gives_enclosed h.parts .rparen).bind ?_
    rintro args _ ⟨ls, rfl, parts, trailing, rfl, htrees, heach⟩
    refine gives_previous fun s => gives_pure ?_
    rw [Expr.bare_new, Expr.mapParts, htrees]
    simpa using Derives.method m.name trailing he heach
  · exact (gives_failAt _ _).at _

theorem postfixFrom (h : Sound n d) (bound : Nat) :
    ∀ {ls₀ : List Lexeme} {e : Expr}, Derives true .suffixed n ls₀ e.bare →
      Gives (postfixFrom d bound e) fun ls e' => Derives true .suffixed n (ls₀ ++ ls) e'.bare := by
  induction bound with
  | zero => exact fun he => gives_pure (by simpa using he)
  | succ bound ih =>
    intro ls₀ e he
    -- what comes after one call, subscript or method call is again a value to go on from
    have hrest : ∀ {ls : List Lexeme} {e' : Expr}, Derives true .suffixed n (ls₀ ++ ls) e'.bare →
        Gives (bounded e' >>= MissionScript.postfixFrom d bound) fun ls' e'' =>
          Derives true .suffixed n (ls₀ ++ (ls ++ ls')) e''.bare := by
      refine fun he' => (gives_bounded _).bind ?_
      rintro _ _ ⟨rfl, rfl, -⟩
      exact (ih he').mono fun ls' e'' h => by simpa using h
    refine gives_peek fun l => ?_
    split
    · exact (h.callOf he).bind fun e' ls he' => hrest he'
    · refine givesAt_take Lexeme.noConfusion fun _ => (h.subscript he).bind fun e' ls he' => ?_
      exact @hrest (.symbol .lbracket :: ls) e' he'
    · exact (h.methodOf he).bind fun e' ls he' => hrest he'
    · exact (gives_pure (by simpa using he)).at l

theorem postfixed (h : Sound n d) :
    Gives (postfixed d) fun ls e => Derives true .suffixed n ls e.bare :=
  h.primary.bind fun _ _ he => gives_remaining fun bound => h.postfixFrom bound (.next rfl he)

theorem signedWith (h : Sound n d) :
    Gives (signedWith d) fun ls e => Derives true .signed n ls e.bare := by
  refine gives_peek fun l => ?_
  split
  · rename_i op hop
    obtain ⟨hl, hrank, heof⟩ : l = op.lexeme ∧ op.rank = .signed ∧ l ≠ .eof := by
      unfold sign? at hop
      split at hop <;> cases hop <;> decide
    refine givesAt_take heof fun start => h.signed.bind ?_
    rintro operand ls ⟨m, rfl, hoperand⟩
    refine gives_pure ?_
    have hsigned := Derives.unary op (hrank ▸ hoperand)
    rw [hrank, ← hl] at hsigned
    rw [Expr.bare_new, Expr.mapParts]
    simpa using hsigned
  · exact (h.postfixed.mono fun ls e he => .next rfl he).at l

theorem sum (h : Sound n d) : Gives (chain (chain (MissionScript.signedWith d) productOp?) sumOp?)
    fun ls e => Derives true .sum n ls e.bare :=
  gives_chain joins_sum (gives_chain joins_product h.signedWith)

/-- The right side of a comparison, which no other comparison follows. -/
theorem compared (h : Sound n d) {ls : List Lexeme} {left : Expr} {op : BinOp}
    (hleft : Derives true op.leftRank n ls left.bare) (hop : op.rightRank = .sum) :
    Gives (do
      let right ← chain (chain (MissionScript.signedWith d) productOp?) sumOp?
      match ← comparisonHere? with
      | some _ => fail .chainedComparison
      | none => return joined left op right)
      fun ls' e => Derives true op.rank n (ls ++ (op.lexemes ++ ls')) e.bare := by
  refine h.sum.bind fun right ls' hright => gives_comparisonHere fun next => ?_
  cases next with
  | some _ => exact gives_fail _
  | none =>
    refine gives_pure ?_
    rw [bare_joined]
    simpa using Derives.binary op hleft (hop ▸ hright)

theorem comparisonWith (h : Sound n d) :
    Gives (comparisonWith d) fun ls e => Derives true .comparison n ls e.bare := by
  refine h.sum.bind fun left ls hleft r e r' hp => ?_
  rw [comparisonHere_bind] at hp
  rcases hop : comparison? r.peek r.peekNext with _ | ⟨op, k⟩ <;> rw [hop] at hp
  · cases hp
    exact ⟨[], rfl, by simpa using Derives.next rfl hleft⟩
  · obtain ⟨⟨hrank, hl, hr⟩, ⟨rfl, hspells⟩ | ⟨rfl, hspells⟩⟩ := lexemes_of_comparison hop
    all_goals
      obtain ⟨ls', hls', he⟩ := h.compared (hl ▸ hleft) hr hp
      exact ⟨op.lexemes ++ ls', by rw [hspells, hls', List.append_assoc], hrank ▸ he⟩

theorem negationWith (h : Sound n d) :
    Gives (negationWith d) fun ls e => Derives true .not n ls e.bare := by
  refine gives_peek fun l => ?_
  split
  · rename_i hl
    subst hl
    refine givesAt_take Lexeme.noConfusion fun start => h.negation.bind ?_
    rintro operand ls ⟨m, rfl, hoperand⟩
    refine gives_pure ?_
    rw [Expr.bare_new, Expr.mapParts]
    simpa [UnaryOp.lexeme, UnaryOp.rank] using Derives.unary .not hoperand
  · exact (h.comparisonWith.mono fun ls e he => .next rfl he).at l

theorem expressionWith (h : Sound n d) :
    Gives (expressionWith d) fun ls e =>
      Derives true .expr (n + 1) ls e.bare ∧ e.height ≤ heightLimit := by
  refine (gives_chain joins_or (gives_chain joins_and h.negationWith)).bind fun e ls he => ?_
  refine (gives_bounded e).mono ?_
  rintro _ _ ⟨rfl, rfl, hheight⟩
  exact ⟨by simpa using Derives.expr he, hheight⟩

theorem around (h : Sound n d) : Sound (n + 1) d.around where
  expression := h.expressionWith.mono fun _ _ he => he.1
  negation := h.negationWith.mono fun _ _ he => ⟨n, rfl, he⟩
  signed := h.signedWith.mono fun _ _ he => ⟨n, rfl, he⟩

theorem exhausted : Sound 0 .exhausted := ⟨gives_fail _, gives_fail _, gives_fail _⟩

theorem levels : ∀ n, Sound n (.levels n)
  | 0 => exhausted
  | n + 1 => (levels n).around

end Sound

/-- What is read as an expression is one, within the limits. -/
theorem gives_expression : Gives expression fun ls e => Expression true ls e.bare :=
  (Sound.levels 63).expressionWith.mono fun _ e he => ⟨he.1, e.height_bare ▸ he.2⟩

end MissionScript
