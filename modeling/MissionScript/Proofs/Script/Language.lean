import MissionScript.Proofs.Script.StmtRead

/-!
# The language of the parser

The tokens of a text are read as a script exactly if the lax grammar derives them and the rules of
placement hold, and the tree that is read is the one that is derived (`accepted_iff_derived`). The
strict grammar is too narrow for this in three places (`strict_narrower`).
-/

namespace MissionScript

open Grammar

/-- The tokens of a text are read as a script exactly if the lax grammar derives a script from them
that obeys the rules of placement; and up to spans, that script is what is read. -/
theorem accepted_iff_derived {text : String} {ts : List Token} (h : Token.scan text = .ok ts) :
    ((∃ p, Program.ofTokens ts = .ok p) ↔
      ∃ p, DerivesProgram true (ts.map (·.lexeme)) p ∧ p.placed = true) ∧
    ∀ p, (∃ p', Program.ofTokens ts = .ok p' ∧ p'.bare = p) ↔
      DerivesProgram true (ts.map (·.lexeme)) p ∧ p.placed = true := by
  have hlaid := Token.scan_laid h
  refine ⟨⟨?_, ?_⟩, fun p => ⟨?_, ?_⟩⟩
  · rintro ⟨p, hp⟩
    exact ⟨p.bare, derives_of_ofTokens hlaid hp⟩
  · rintro ⟨p, hp, hplaced⟩
    obtain ⟨p', hp', -⟩ := ofTokens_of_derives hlaid hp hplaced
    exact ⟨p', hp'⟩
  · rintro ⟨p', hp', rfl⟩
    exact derives_of_ofTokens hlaid hp'
  · rintro ⟨hp, hplaced⟩
    exact ofTokens_of_derives hlaid hp hplaced

/-- A loop with an assignment, read and derived. -/
theorem accepted_iff_derived_loop :
    ∃ ts, Token.scan "for x in range(3):\n    xs[x] += not x in [f(x), -2]\n" = .ok ts ∧
      (∃ p, Program.ofTokens ts = .ok p) ∧
      ∃ p, DerivesProgram true (ts.map (·.lexeme)) p ∧ p.placed = true := by
  obtain ⟨ts, hts⟩ :
      ∃ ts, Token.scan "for x in range(3):\n    xs[x] += not x in [f(x), -2]\n" = .ok ts := ⟨_, rfl⟩
  have hread : ∃ p, Program.ofTokens ts = .ok p := by
    cases hts
    exact ⟨_, rfl⟩
  exact ⟨ts, hts, hread, (accepted_iff_derived hts).1.mp hread⟩

section Strict

theorem Grammar.DerivesClause.of_define {lax : Bool} {name : Ident} {params : List Ident}
    {b : Block}
    {ls : List Lexeme} (h : DerivesClause lax (.stmt (.define name params b default)) ls) :
    ∃ trailing rest, ls = .keyword .defWord :: .name name.name :: .symbol .lparen ::
      (listing trailing (params.map fun p => [.name p.name]) ++ .symbol .rparen :: rest) ∧
      (trailing = true → lax = true) := by
  generalize hc : Clause.stmt _ = c at h
  cases h with
  | simple h =>
    cases hc
    cases h
  | define name params trailing hlax _ =>
    cases hc
    exact ⟨trailing, _, by rw [List.map_map]; rfl, hlax⟩
  | ifElse _ _ _ | line _ | indented _ _ => cases hc
  | @forLoop _ _ e b var _ _ =>
    rcases loopOver_cases ⟨var, default⟩ e b default with ⟨_, _, _, hloop⟩ | hloop <;>
      rw [hloop] at hc <;> cases hc

/-- In the strict grammar, a call is written with the bare name of the function. -/
theorem Grammar.Derives.of_call {r : Rank} {n : Nat} {ls : List Lexeme} {f : Ident}
    {args : List Expr} {mark : Mark} (h : Derives false r n ls (.call f args mark)) :
    ∃ k inner,
      ls = List.replicate k (.symbol .lparen) ++ (.name f.name :: .symbol .lparen :: inner) := by
  generalize he : Expr.call f args mark = e at h
  induction h with
  | expr _ ih | next _ _ ih => exact ih he
  | call trailing _ hname _ _ _ =>
    cases he
    exact ⟨0, _, by rw [hname rfl]; rfl⟩
  | paren _ ih =>
    obtain ⟨k, inner, rfl⟩ := ih he
    exact ⟨k + 1, inner ++ [.symbol .rparen], by simp [List.replicate_succ]⟩
  | atom hl => cases Lexeme.atom?_eq_some_iff.mp hl <;> cases he
  | binary | unary | method | index | slice | list | dict => cases he

/-- The text is read as a script, but the strict grammar derives no script from its tokens. -/
def BeyondStrict (text : String) : Prop :=
  ∃ ts, Token.scan text = .ok ts ∧ (∃ p, Program.ofTokens ts = .ok p) ∧
    ¬∃ p, DerivesProgram false (ts.map (·.lexeme)) p ∧ p.placed = true

/-- The lexemes of a text and the tree that is read from them. -/
def readFrom (text : String) : Option (List Lexeme × Program) :=
  (Token.scan text).toOption.bind fun ts =>
    (Program.ofTokens ts).toOption.map fun p => (ts.map (·.lexeme), p.bare)

/-- The tree that is read is the only one that can be derived, so a script of one statement is
beyond the strict grammar if its statement is. -/
theorem beyondStrict_of_read {text : String} {ls : List Lexeme} {st : Stmt}
    (hread : readFrom text = some (ls ++ [.eof], ⟨[st], default⟩))
    (hstrict : ¬DerivesClause false (.stmt st) ls) : BeyondStrict text := by
  unfold readFrom at hread
  rcases hscan : Token.scan text with e | ts <;> rw [hscan] at hread
  · cases hread
  rcases hp : Program.ofTokens ts with e | p <;>
    simp only [Except.toOption, Option.bind_some, hp, Option.map_none, Option.map_some,
      Option.some.injEq, Prod.mk.injEq, reduceCtorEq] at hread
  refine ⟨ts, hscan, ⟨p, hp⟩, ?_⟩
  rintro ⟨q, hq, hplaced⟩
  obtain ⟨p', hp', rfl⟩ := ofTokens_of_derives (Token.scan_laid hscan) hq hplaced
  cases hp.symm.trans hp'
  rw [hread.1, hread.2] at hq
  exact hstrict hq.of_single

/-- A comma after the last parameter, a target in parentheses and the name of a called function in
parentheses are let through. -/
theorem strict_narrower : BeyondStrict "def f(a,):\n    pass\n" ∧ BeyondStrict "(x) = 1\n" ∧
    BeyondStrict "(f)(1)\n" := by
  refine ⟨?_, ?_, ?_⟩
  · refine @beyondStrict_of_read _
      [.keyword .defWord, .name "f", .symbol .lparen, .name "a", .symbol .comma, .symbol .rparen,
        .symbol .colon, .newline, .indent, .keyword .passWord, .newline, .dedent]
      (.define ⟨"f", default⟩ [⟨"a", default⟩] (.mk [.pass default] default) default)
      rfl fun h => ?_
    obtain ⟨trailing, rest, hls, hstrict⟩ := h.of_define
    cases trailing with
    | false => cases hls
    | true => exact absurd (hstrict rfl) nofun
  · refine @beyondStrict_of_read _
      [.symbol .lparen, .name "x", .symbol .rparen, .symbol .eq, .int 1, .newline]
      (.assign (.name ⟨"x", default⟩) .set (.fresh (.int 1 default)) default) rfl fun h => ?_
    obtain ⟨ls, hls, hassign⟩ := h.of_simple rfl
    cases hassign with | assign op ht hheight he => ?_
    generalize nestingLimit = n at ht
    cases ht with
    | name => cases hls
    | paren hlax _ => cases hlax
  · refine @beyondStrict_of_read _
      [.symbol .lparen, .name "f", .symbol .rparen, .symbol .lparen, .int 1, .symbol .rparen,
       .newline]
      (.expr (.fresh (.call ⟨"f", default⟩ [.fresh (.int 1 default)] default)) default)
      rfl fun h => ?_
    obtain ⟨ls, hls, hexpr⟩ := h.of_simple rfl
    cases hexpr with | expr h => ?_
    obtain ⟨k, inner, rfl⟩ := h.derives.of_call
    rcases k with _ | _ | k <;> cases hls

end Strict

end MissionScript
