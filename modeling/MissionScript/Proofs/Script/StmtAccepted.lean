import MissionScript.Proofs.Script.ExprAccepted
import MissionScript.Proofs.Script.Lines

/-!
# What is read as a script is one

Each parser of statements gives a tree that the lax grammar derives from the lexemes taken and that
obeys the rules of placement. Statements are taken from the start of a line to the start of a line;
that every block has an end and every line too is known from the layout of the tokens, which is
therefore followed along (`Passes`). Statements with blocks inside are judged by induction on how
deep blocks may be nested.
-/

namespace MissionScript

open Parse Grammar

/-- The simple statement is written with these lexemes and may stand where it does. -/
def SimpleAt (lax : Bool) (s : Setting) (ls : List Lexeme) (st : Stmt) : Prop :=
  DerivesSimple lax ls st ∧ st.placed s = true

/-- The statement is written with these lexemes and may stand where it does. -/
def StmtIn (lax : Bool) (s : Setting) (ls : List Lexeme) (st : Stmt) : Prop :=
  DerivesClause lax (.stmt st) ls ∧ st.placed s = true

/-- The block is written with these lexemes and may stand where it does. -/
def SuiteIn (lax : Bool) (s : Setting) (ls : List Lexeme) (b : Block) : Prop :=
  DerivesClause lax (.suite b) ls ∧ b.placed s = true

theorem target?_bare {e : Expr} {t : Target} (h : target? e = some t) (he : e.bare.Measured) :
    t.bare.expr = e.bare := by
  rw [he.of_bare.bare_eq_fresh]
  cases e <;> cases h <;> rfl

/-- An expression that may be assigned to is a target. -/
theorem Grammar.Derives.target {r : Rank} {n : Nat} {ls : List Lexeme} {t : Target}
    (h : Derives true r n ls t.bare.expr) :
    (r = .expr → DerivesTarget true n ls t.bare) ∧
      (r ≠ .expr → DerivesTarget true (n + 1) ls t.bare) := by
  generalize he : t.bare.expr = e at h
  induction h with
  | expr _ ih => exact ⟨fun _ => (ih he).2 (by decide), fun h => absurd rfl h⟩
  | @next r r' n ls e hr _ ih =>
    refine ⟨fun h => ?_, fun _ => (ih he).2 ?_⟩
    · subst h
      cases hr
    · rintro rfl
      cases r <;> cases hr
  | index h hi _ _ =>
    cases t <;> cases he
    exact ⟨nofun, fun _ => .item h hi⟩
  | @atom n l e hl =>
    refine ⟨nofun, fun _ => ?_⟩
    cases Lexeme.atom?_eq_some_iff.mp hl <;> cases t <;> cases he
    exact .name _
  | paren _ ih => exact ⟨nofun, fun _ => .paren rfl ((ih he).1 rfl)⟩
  | binary | unary | call | method | slice | list | dict => cases t <;> cases he

section Simple

theorem gives_assignmentOrExpr (s : Setting) :
    Gives assignmentOrExpr fun ls st => SimpleAt true s ls st.bare := by
  refine gives_expression.bind fun left ls hleft => gives_peek fun l => ?_
  split
  · refine Gives.at (gives_pure ?_) l
    rw [List.append_nil]
    exact ⟨.expr hleft, rfl⟩
  · rename_i op hop
    have hl : l = op.lexeme ∧ l ≠ .eof := by
      unfold assignOp? at hop
      split at hop <;> cases hop <;> decide
    split
    · exact (gives_failAt _ _).at l
    · rename_i t ht
      refine givesAt_take hl.2 fun _ => gives_expression.bind fun value ls' hvalue => gives_pure ?_
      have hbare := target?_bare ht hleft.derives.measured
      have htarget := (hbare ▸ hleft.derives).target.1 rfl
      have hassign := DerivesSimple.assign op htarget (hbare ▸ hleft.height_le) hvalue
      rw [← hl.1] at hassign
      exact ⟨by simpa [Stmt.bare] using hassign, rfl⟩

theorem gives_returnStmt (s : Setting) :
    GivesAt (.keyword .returnWord) (returnStmt s) fun ls st => SimpleAt true s ls st.bare := by
  unfold returnStmt
  split
  · rename_i hs
    have hnone : ∀ start, SimpleAt true s [.keyword .returnWord] (Stmt.ret none start).bare :=
      fun _ => ⟨@DerivesSimple.ret true none nofun, hs⟩
    refine givesAt_take Lexeme.noConfusion fun start => gives_peek fun l => ?_
    split
    case h_4 =>
      refine Gives.at (gives_expression.bind fun value ls hvalue => gives_pure ?_) l
      have hret := @DerivesSimple.ret true (some (ls, value.bare)) (by simpa using hvalue)
      exact ⟨by simpa [Stmt.bare, Grammar.optional] using hret, hs⟩
    all_goals exact Gives.at (gives_pure (hnone start)) _
  · exact (gives_fail _).at _

theorem gives_simpleStmt (s : Setting) :
    Gives (simpleStmt s) fun ls st => SimpleAt true s ls st.bare := by
  refine gives_peek fun l => ?_
  split
  · split
    · rename_i hs
      exact givesAt_take Lexeme.noConfusion fun _ => gives_pure ⟨.brk, hs⟩
    · exact (gives_fail _).at _
  · split
    · rename_i hs
      exact givesAt_take Lexeme.noConfusion fun _ => gives_pure ⟨.cont, hs⟩
    · exact (gives_fail _).at _
  · exact givesAt_take Lexeme.noConfusion fun _ => gives_pure ⟨.pass, rfl⟩
  · exact gives_returnStmt s
  · exact (gives_fail _).at _
  · exact (gives_fail _).at _
  · exact (gives_fail _).at _
  · exact (gives_assignmentOrExpr s).at l

theorem Grammar.Expression.words {lax : Bool} {ls : List Lexeme} {e : Expr}
    (h : Expression lax ls e) : Words ls ∧ ls ≠ [] := by
  obtain ⟨l, ls', rfl, _⟩ := h.derives.starts
  exact ⟨h.derives.words, List.cons_ne_nil _ _⟩

theorem Grammar.DerivesTarget.words {lax : Bool} {n : Nat} {ls : List Lexeme} {t : Target}
    (h : DerivesTarget lax n ls t) : Words ls := by
  induction h with
  | name s => simp [Lexeme.isLayout]
  | item h hi => simp [h.words, hi.words, Lexeme.isLayout]
  | paren _ _ ih => simp [ih, Lexeme.isLayout]

theorem Grammar.DerivesSimple.words {lax : Bool} {ls : List Lexeme} {st : Stmt}
    (h : DerivesSimple lax ls st) : Words ls ∧ ls ≠ [] := by
  cases h with
  | brk | cont | pass => simp [Lexeme.isLayout]
  | ret h => simpa [Lexeme.isLayout] using words_optional fun v hv => (h v hv).words.1
  | assign op ht hheight he =>
    cases op <;> simp [ht.words, he.words.1, AssignOp.lexeme, Lexeme.isLayout]
  | expr h => exact h.words

end Simple

section Layout

variable {fresh : Bool} {open_ : Nat} {l : Lexeme} {ls rest : List Lexeme}

theorem Laid.of_word (h : Laid fresh open_ (l :: ls)) (hl : l.isLayout = false) :
    Laid false open_ ls := by
  cases h with
  | word _ h => exact h
  | eof | dedent _ | indent _ _ | newline _ => cases hl

theorem Laid.of_words (h : Laid fresh open_ (ls ++ rest)) (hls : Words ls ∧ ls ≠ []) :
    Laid false open_ rest := by
  induction ls generalizing fresh with
  | nil => exact absurd rfl hls.2
  | cons l ls ih =>
    have hl := words_cons.mp hls.1
    have hrest := h.of_word hl.1
    cases ls with
    | nil => exact hrest
    | cons l' ls' => exact ih hrest ⟨hl.2, List.cons_ne_nil _ _⟩

theorem Laid.of_dedent (h : Laid true (open_ + 1) (.dedent :: ls)) : Laid true open_ ls := by
  cases h with
  | dedent h => exact h
  | word hl _ => cases hl

theorem Laid.of_newline (h : Laid fresh open_ (.newline :: ls)) : Laid true open_ ls := by
  cases h with
  | newline h => exact h
  | word hl _ => cases hl

theorem Laid.of_indent (h : Laid true open_ (.indent :: ls)) : Laid true (open_ + 1) ls := by
  cases h with
  | indent hl h => exact .word hl h
  | word hl _ => cases hl

/-- The text does not end inside of a block. -/
theorem Laid.peek_ne_eof {r : Reader} (h : Laid fresh (open_ + 1) r.lexemes) : r.peek ≠ .eof := by
  rw [Reader.peek_eq]
  generalize r.lexemes = ls at h
  cases h with
  | dedent _ | indent _ _ | newline _ => exact Lexeme.noConfusion
  | word hl _ =>
    rintro rfl
    cases hl

/-- Outside of blocks, a line begins with no end of a line or of a block. -/
theorem Laid.peek_of_top {r : Reader} (h : Laid true 0 r.lexemes) :
    r.peek ≠ .newline ∧ r.peek ≠ .dedent := by
  rw [Reader.peek_eq]
  generalize r.lexemes = ls at h
  cases h with
  | eof | indent _ _ => exact ⟨Lexeme.noConfusion, Lexeme.noConfusion⟩
  | word hl _ => constructor <;> rintro rfl <;> cases hl

theorem Laid.lexemes_of_eof {r : Reader} (h : Laid true 0 r.lexemes) (heof : r.peek = .eof) :
    r.lexemes = [.eof] := by
  rw [Reader.peek_eq] at heof
  generalize r.lexemes = ls at h heof
  cases h with
  | eof => rfl
  | indent _ _ => cases heof
  | word hl _ =>
    cases heof
    cases hl

/-- A block does not end where it opens. -/
theorem Laid.peek_of_indent {r : Reader} (h : Laid true open_ (.indent :: r.lexemes)) :
    r.peek ≠ .dedent := by
  rw [Reader.peek_eq]
  generalize r.lexemes = ls at h
  rcases h with _ | _ | ⟨hl, _⟩ | ⟨hl, _⟩
  · rintro rfl
    cases hl
  · cases hl

end Layout

namespace Parse

variable {α β : Type} {a b c : Bool}

/-- The parser gives what stands in the relation to the lexemes that it takes, and leads from the
start of a line or from behind a word (`a`) to such a place (`b`), with as many blocks open. -/
def Passes (a b : Bool) (p : Parse α) (F : List Lexeme → α → Prop) : Prop :=
  ∀ ⦃open_ r x r'⦄, Laid a open_ r.lexemes → p r = .ok (x, r') →
    ∃ ls, r.lexemes = ls ++ r'.lexemes ∧ F ls x ∧ Laid b open_ r'.lexemes

/-- The same where `l` is at hand. -/
def PassesAt (l : Lexeme) (a b : Bool) (p : Parse α) (F : List Lexeme → α → Prop) : Prop :=
  ∀ ⦃open_ r x r'⦄, r.peek = l → Laid a open_ r.lexemes → p r = .ok (x, r') →
    ∃ ls, r.lexemes = ls ++ r'.lexemes ∧ F ls x ∧ Laid b open_ r'.lexemes

section Passing

variable {F : List Lexeme → α → Prop} {H : List Lexeme → β → Prop} {p : Parse α}

theorem Passes.at (h : Passes a b p F) (l : Lexeme) : PassesAt l a b p F :=
  fun _ _ _ _ _ h' hp => h h' hp

theorem Passes.mono {G : List Lexeme → α → Prop} (h : Passes a b p F)
    (hFG : ∀ ls x, F ls x → G ls x) : Passes a b p G := by
  intro open_ r x r' hlaid hp
  obtain ⟨ls, hls, hx, hlaid'⟩ := h hlaid hp
  exact ⟨ls, hls, hFG ls x hx, hlaid'⟩

theorem Gives.passes (h : Gives p F) (hwords : ∀ ls x, F ls x → Words ls ∧ ls ≠ []) :
    Passes a false p F := by
  intro open_ r x r' hlaid hp
  obtain ⟨ls, hls, hx⟩ := h hp
  exact ⟨ls, hls, hx, (hls ▸ hlaid).of_words (hwords ls x hx)⟩

/-- Behind a word, a parser that takes nothing but words stays behind a word. -/
theorem Gives.passes_behind (h : Gives p F) (hwords : ∀ ls x, F ls x → Words ls) :
    Passes false false p F := by
  intro open_ r x r' hlaid hp
  obtain ⟨ls, hls, hx⟩ := h hp
  refine ⟨ls, hls, hx, ?_⟩
  rw [hls] at hlaid
  rcases ls with _ | ⟨l, ls⟩
  · exact hlaid
  · exact hlaid.of_words ⟨hwords _ x hx, List.cons_ne_nil _ _⟩

theorem passes_pure {x : α} (h : F [] x) : Passes a a (pure x) F := by
  intro open_ r y r' hlaid hp
  cases hp
  exact ⟨[], rfl, h, hlaid⟩

theorem passes_fail (fault : ParseFault) : Passes a b (fail fault) F := by
  intro open_ r y r' hlaid hp
  cases hp

theorem Passes.bind {f : α → Parse β} (hp : Passes a b p F)
    (hf : ∀ x ls, F ls x → Passes b c (f x) fun ls' y => H (ls ++ ls') y) :
    Passes a c (p >>= f) H := by
  intro open_ r y r'' hlaid h
  obtain ⟨x, r', hpx, hfy⟩ := bind_eq_ok.mp h
  obtain ⟨ls, hls, hx, hlaid'⟩ := hp hlaid hpx
  obtain ⟨ls', hls', hy, hlaid''⟩ := hf x ls hx hlaid' hfy
  exact ⟨ls ++ ls', by rw [hls, hls', List.append_assoc], hy, hlaid''⟩

theorem passes_peek {f : Lexeme → Parse α} (h : ∀ l, PassesAt l a b (f l) F) :
    Passes a b (peek >>= f) F := fun _ _ _ _ hlaid hp => h _ rfl hlaid hp

theorem passes_remaining {f : Nat → Parse α} (h : ∀ n, Passes a b (f n) F) :
    Passes a b (remaining >>= f) F := fun _ _ _ _ hlaid hp => h _ hlaid hp

theorem passesAt_take {l : Lexeme} (hl : l.isLayout = false) {f : Span → Parse α}
    (h : ∀ s, Passes false b (f s) fun ls x => F (l :: ls) x) : PassesAt l a b (take >>= f) F := by
  intro open_ r x r' hr hlaid hp
  have hls := Reader.lexemes_of_peek hr (by rintro rfl; cases hl)
  rw [take_bind] at hp
  obtain ⟨ls, hls', hx, hlaid'⟩ := h _ ((hls ▸ hlaid).of_word hl) hp
  exact ⟨l :: ls, by rw [hls, hls', List.cons_append], hx, hlaid'⟩

theorem passes_expectLineEnd : Passes false true expectLineEnd fun ls _ => ls = [.newline] := by
  intro open_ r x r' hlaid hp
  generalize hls : r.lexemes = ls at hlaid
  have hpeek := r.peek_eq
  unfold expectLineEnd at hp
  cases hlaid with
  | newline h =>
    rw [hls, List.headD_cons] at hpeek
    rw [peek_bind, hpeek] at hp
    cases hp
    have hrest := Reader.advance_of_lexemes hls
    exact ⟨[.newline], by rw [hrest]; rfl, rfl, hrest ▸ h⟩
  | @word _ _ l _ hl h =>
    rw [hls, List.headD_cons] at hpeek
    rw [peek_bind, hpeek] at hp
    cases l <;> cases hl <;> cases hp

theorem passes_expression : Passes a false expression fun ls e => Expression true ls e.bare :=
  gives_expression.passes fun _ _ h => h.words

theorem passes_expectColon (after : String) :
    Passes a false (expectColon after) fun ls _ => ls = [.symbol .colon] :=
  (gives_expectColon after).passes (by rintro _ _ rfl; simp [Lexeme.isLayout])

theorem passes_expect {l : Lexeme} (hl : l.isLayout = false) :
    Passes a false (expect l) fun ls _ => ls = [l] :=
  (gives_expect (by rintro rfl; cases hl)).passes (by rintro _ _ rfl; simp [hl])

theorem passes_expectName (role : String) :
    Passes a false (expectName role) fun ls x => ls = [.name x.name] :=
  (gives_expectName role).passes (by rintro _ _ rfl; simp [Lexeme.isLayout])

/-- Eating a word leads on behind it, and otherwise nothing is taken. -/
theorem passes_eat_bind {l : Lexeme} (hl : l.isLayout = false) {f : Bool → Parse α}
    (htrue : Passes false b (f true) fun ls x => F (l :: ls) x) (hfalse : Passes a b (f false) F) :
    Passes a b (eat l >>= f) F := by
  intro open_ r x r' hlaid hp
  by_cases hpeek : r.peek = l
  · have hls := Reader.lexemes_of_peek hpeek (by rintro rfl; cases hl)
    rw [bind_of_ok (eat_of_peek hpeek)] at hp
    obtain ⟨ls, hls', hx, hlaid'⟩ := htrue ((hls ▸ hlaid).of_word hl) hp
    exact ⟨l :: ls, by rw [hls, hls', List.cons_append], hx, hlaid'⟩
  · rw [bind_of_ok (eat_of_ne hpeek)] at hp
    exact hfalse hlaid hp

end Passing

end Parse

section Blocks

variable {inner : Setting → Parse Stmt}

theorem passes_simpleLine (a : Bool) (s : Setting) :
    Passes a true (simpleLine s) fun ls st =>
      ∃ ls', ls = ls' ++ [.newline] ∧ SimpleAt true s ls' st.bare := by
  refine (gives_simpleStmt s).passes (fun _ _ h => h.1.words) |>.bind fun st ls hst => ?_
  refine passes_expectLineEnd.bind ?_
  rintro _ _ rfl
  exact passes_pure ⟨ls, rfl, hst⟩

/-- What the parser of the statements inside of blocks owes. -/
def Inside (inner : Setting → Parse Stmt) : Prop :=
  ∀ s, Passes true true (inner s) fun ls st => StmtIn true s ls st.bare

theorem Grammar.DerivesClause.ne_nil {lax : Bool} {c : Clause} {ls : List Lexeme}
    (h : DerivesClause lax c ls) : ls ≠ [] := by
  cases h <;> simp [Branch.lexemes]

theorem blockFrom_step {stmt : Parse Stmt} {bound : Nat} {sofar : List Stmt} {r : Reader}
    (h : ¬(r.peek = .dedent ∨ r.peek = .eof)) :
    blockFrom stmt (bound + 1) sofar r
      = (stmt >>= fun st => blockFrom stmt bound (st :: sofar)) r := by
  rw [blockFrom, peek_bind]
  generalize r.peek = l at h
  cases l <;> first | rfl | exact absurd (.inl rfl) h | exact absurd (.inr rfl) h

theorem blockFrom_end {stmt : Parse Stmt} {bound : Nat} {sofar : List Stmt} {r : Reader}
    (h : r.peek = .dedent ∨ r.peek = .eof) :
    blockFrom stmt (bound + 1) sofar r = .ok (sofar.reverse, r) := by
  rw [blockFrom, peek_bind]
  rcases h with h | h <;> rw [h] <;> rfl

theorem blockFrom_passes (hinner : Inside inner) (s : Setting) {bound open_ : Nat} :
    ∀ {sofar as : List Stmt} {r r' : Reader}, Laid true open_ r.lexemes → r.lexemes.length ≤ bound →
      blockFrom (inner s) bound sofar r = .ok (as, r') →
      ∃ (more : List Stmt) (body : List (Phrase Stmt)), as = sofar.reverse ++ more ∧
        more.map Stmt.bare = body.map (·.2) ∧ (∀ st ∈ body, StmtIn true s st.1 st.2) ∧
        r.lexemes = body.flatMap (·.1) ++ r'.lexemes ∧ (r'.peek = .dedent ∨ r'.peek = .eof) ∧
        Laid true open_ r'.lexemes := by
  induction bound with
  | zero =>
    intro sofar as r r' hlaid hlength hrun
    rw [List.eq_nil_of_length_eq_zero (Nat.le_zero.mp hlength)] at hlaid
    cases hlaid
  | succ bound ih =>
    intro sofar as r r' hlaid hlength hrun
    by_cases hend : r.peek = .dedent ∨ r.peek = .eof
    · rw [blockFrom_end hend] at hrun
      cases hrun
      exact ⟨[], [], by simp, rfl, nofun, rfl, hend, hlaid⟩
    · rw [blockFrom_step hend] at hrun
      obtain ⟨st, r₁, hst, hrest⟩ := bind_eq_ok.mp hrun
      obtain ⟨ls, hls, hin, hlaid₁⟩ := hinner s hlaid hst
      have hshort : r₁.lexemes.length ≤ bound := by
        have := List.length_pos_iff.mpr hin.1.ne_nil
        rw [hls, List.length_append] at hlength
        omega
      obtain ⟨more, body, rfl, hmore, hbody, hls', hend, hlaid'⟩ := ih hlaid₁ hshort hrest
      refine ⟨st :: more, (ls, st.bare) :: body, by simp, by simp [hmore], ?_, ?_, hend, hlaid'⟩
      · exact List.forall_mem_cons.mpr ⟨hin, hbody⟩
      · rw [hls, hls', List.flatMap_cons, List.append_assoc]

/-- The statements of an indented block, from behind its opening through its end. -/
theorem passes_indented (hinner : Inside inner) (s : Setting)
    {open_ : Nat} {r r' : Reader} {b : Block}
    (hlaid : Laid true open_ (.indent :: r.lexemes))
    (hrun : (do
      let stmts ← blockFrom (inner { s with inBlock := true }) (← remaining) []
      let _ ← eat .dedent
      return Block.mk stmts (coveringSpan (← previous) stmts)) r = .ok (b, r')) :
    ∃ ls, SuiteIn true s (.newline :: .indent :: ls) b.bare ∧ r.lexemes = ls ++ r'.lexemes ∧
      Laid true open_ r'.lexemes := by
  rw [remaining_bind] at hrun
  obtain ⟨stmts, r₁, hstmts, hrun⟩ := bind_eq_ok.mp hrun
  obtain ⟨more, body, rfl, hmore, hbody, hbodyLexemes, hend, hlaid₁⟩ :=
    blockFrom_passes hinner _ hlaid.of_indent (Nat.le_of_eq r.length_lexemes) hstmts
  have hdedent : r₁.peek = .dedent := hend.resolve_right hlaid₁.peek_ne_eof
  rw [bind_of_ok (eat_of_peek hdedent)] at hrun
  cases hrun
  have hrest := Reader.lexemes_of_peek hdedent nofun
  have hne : body ≠ [] := by
    rintro rfl
    refine hlaid.peek_of_indent ?_
    rw [Reader.peek_eq, hbodyLexemes, hrest]
    rfl
  refine ⟨body.flatMap (·.1) ++ [.dedent], ⟨?_, ?_⟩, ?_, ?_⟩
  · rw [Block.bare, bareStmts_eq, hmore]
    exact .indented hne fun st hst => (hbody st hst).1
  · rw [Block.bare, Block.placed, bareStmts_eq, hmore, stmtsPlaced_eq]
    simpa using fun ls st hst => (hbody (ls, st) hst).2
  · rw [hbodyLexemes, List.append_assoc, List.singleton_append]
    exact congrArg _ hrest
  · exact (hrest ▸ hlaid₁).of_dedent

theorem passes_block (hinner : Inside inner) (s : Setting) (owner : String) :
    Passes false true (block inner s owner) fun ls b => SuiteIn true s ls b.bare := by
  intro open_ r b r' hlaid hrun
  unfold block at hrun
  by_cases hnewline : r.peek = .newline
  · have hls := Reader.lexemes_of_peek hnewline nofun
    rw [bind_of_ok (eat_of_peek hnewline), if_pos rfl] at hrun
    have hlaid₁ := (hls ▸ hlaid).of_newline
    by_cases hindent : r.advance.peek = .indent
    · have hls₁ := Reader.lexemes_of_peek hindent nofun
      rw [bind_of_ok (eat_of_peek hindent), if_pos rfl] at hrun
      obtain ⟨ls, hb, hls₂, hlaid₂⟩ := passes_indented hinner s (hls₁ ▸ hlaid₁) hrun
      exact ⟨_, by rw [hls, hls₁, hls₂]; rfl, hb, hlaid₂⟩
    · rw [bind_of_ok (eat_of_ne hindent)] at hrun
      cases hrun
  · rw [bind_of_ok (eat_of_ne hnewline)] at hrun
    have hline : Passes false true (do
        let stmt ← simpleLine s
        return Block.mk [stmt] stmt.span) fun ls b => SuiteIn true s ls b.bare := by
      refine (passes_simpleLine false { s with inBlock := true }).bind ?_
      rintro st _ ⟨ls, rfl, hst⟩
      refine passes_pure ⟨?_, ?_⟩
      · simpa [Block.bare, bareStmts] using DerivesClause.line hst.1
      · simpa [Block.bare, bareStmts, Block.placed, stmtsPlaced] using hst.2
    exact hline hlaid hrun

theorem passes_guarded (hinner : Inside inner) (s : Setting) (clause owner : String)
    (word : Keyword) :
    Passes false true (guarded inner s clause owner) fun ls b => ∃ p : Branch,
      .keyword word :: ls = p.lexemes word ∧ (b.1.bare, b.2.bare) = (p.1.2, p.2.2) ∧
        Expression true p.1.1 p.1.2 ∧ SuiteIn true s p.2.1 p.2.2 := by
  refine passes_expression.bind fun condition ls hcondition => ?_
  refine (passes_expectColon clause).bind ?_
  rintro _ _ rfl
  refine (passes_block hinner s owner).bind fun body ls' hbody => passes_pure ?_
  exact ⟨((ls, condition.bare), (ls', body.bare)), by simp [Branch.lexemes], rfl, hcondition, hbody⟩

/-- The branches are what these lexemes stand for. -/
def BranchesIn (s : Setting) (ls : List Lexeme) (bs : List (Expr × Block)) : Prop :=
  ∃ ps : List Branch, ls = ps.flatMap (Branch.lexemes .elifWord) ∧
    bareBranches bs = ps.map (fun p => (p.1.2, p.2.2)) ∧
    ∀ p ∈ ps, Expression true p.1.1 p.1.2 ∧ SuiteIn true s p.2.1 p.2.2

theorem passes_elifsFrom (hinner : Inside inner) (s : Setting) (bound : Nat) :
    ∀ sofar : List (Expr × Block), Passes true true (elifsFrom inner s bound sofar) fun ls bs =>
      ∃ more, bs = sofar.reverse ++ more ∧ BranchesIn s ls more := by
  have hdone : ∀ sofar : List (Expr × Block), ∃ more, sofar.reverse = sofar.reverse ++ more ∧
      BranchesIn s [] more := fun sofar => ⟨[], by simp, [], rfl, rfl, nofun⟩
  induction bound with
  | zero => exact fun sofar => passes_pure (hdone sofar)
  | succ bound ih =>
    intro sofar
    refine passes_eat_bind rfl ?_ (passes_pure (hdone sofar))
    refine (passes_guarded hinner s _ _ .elifWord).bind ?_
    rintro b ls ⟨p, hls, hb, hp⟩
    refine (ih (b :: sofar)).mono ?_
    rintro ls' bs ⟨more, rfl, ps, rfl, hps, hall⟩
    refine ⟨b :: more, by simp, p :: ps, ?_, ?_, List.forall_mem_cons.mpr ⟨hp, hall⟩⟩
    · rw [← List.cons_append, hls, List.flatMap_cons]
    · rw [bareBranches, hps, List.map_cons, hb]

theorem stmtIn_ifElse {s : Setting} {p : Branch} {ps : List Branch}
    {otherwise : Option (Phrase Block)}
    (hp : ∀ q ∈ p :: ps, Expression true q.1.1 q.1.2 ∧ SuiteIn true s q.2.1 q.2.2)
    (ho : ∀ b ∈ otherwise, SuiteIn true s b.1 b.2) :
    StmtIn true s
      (p.lexemes .ifWord ++ (ps.flatMap (Branch.lexemes .elifWord) ++ elseLexemes otherwise))
      (.ifElse ((p :: ps).map fun q => (q.1.2, q.2.2)) (otherwise.map (·.2)) default) := by
  refine ⟨.ifElse (fun q hq => (hp q hq).1) (fun q hq => (hp q hq).2.1) (fun b hb => (ho b hb).1),
    ?_⟩
  rw [Stmt.placed, branchesPlaced_eq, elsePlaced_eq, Bool.and_eq_true, List.all_map,
    List.all_eq_true]
  refine ⟨fun q hq => (hp q hq).2.2, ?_⟩
  cases otherwise with
  | none => rfl
  | some b => exact (ho b rfl).2

theorem passes_ifStmt (hinner : Inside inner) (s : Setting) :
    PassesAt (.keyword .ifWord) true true (ifStmt inner s) fun ls st =>
      StmtIn true s ls st.bare := by
  refine passesAt_take rfl fun start => (passes_guarded hinner s _ _ .ifWord).bind ?_
  rintro first ls ⟨p, hls, hb, hp⟩
  refine passes_remaining fun n => (passes_elifsFrom hinner s n [first]).bind ?_
  rintro branches _ ⟨more, rfl, ps, rfl, hps, hall⟩
  have hbare : bareBranches (first :: more) = (p :: ps).map fun q => (q.1.2, q.2.2) := by
    rw [bareBranches, hps, List.map_cons, hb]
  have hbranches : ∀ q ∈ p :: ps, Expression true q.1.1 q.1.2 ∧ SuiteIn true s q.2.1 q.2.2 :=
    List.forall_mem_cons.mpr ⟨hp, hall⟩
  refine passes_eat_bind rfl ?_ ?_
  · refine (passes_expectColon _).bind ?_
    rintro _ _ rfl
    refine (passes_block hinner s _).bind fun otherwise ls' ho => passes_pure ?_
    have hif := @stmtIn_ifElse s p ps (some (ls', otherwise.bare)) hbranches (by simpa using ho)
    rw [← hls] at hif
    simpa [Stmt.bare, hbare, elseLexemes, bareElse] using hif
  · refine passes_pure ?_
    have hif := @stmtIn_ifElse s p ps none hbranches nofun
    rw [← hls] at hif
    simpa [Stmt.bare, hbare, elseLexemes, bareElse] using hif

theorem loopOver_bare (var : Ident) (e : Expr) (b : Block) (span : Span) :
    (loopOver var e b span).bare = loopOver ⟨var.name, default⟩ e.bare b.bare default := by
  have heach : (Stmt.forEach var (e.new e.span) b span).bare
      = .forEach ⟨var.name, default⟩ (e.bare.new e.bare.span) b.bare default := by
    rw [Stmt.bare, Expr.bare_new, Expr.span_bare, ← Expr.fresh_bare, Expr.fresh]
  cases e with
  | call callee args mark =>
    obtain ⟨name, place⟩ := callee
    by_cases hrange : name = "range"
    · subst hrange
      rcases args with _ | ⟨_, _ | ⟨_, _ | ⟨_, _ | ⟨_, _⟩⟩⟩⟩ <;> first | exact heach | rfl
    · exact (congrArg Stmt.bare (if_neg hrange)).trans (heach.trans (if_neg hrange).symm)
  | _ => exact heach

theorem loopOver_placed (s : Setting) (var : Ident) (e : Expr) (b : Block) (span : Span) :
    (loopOver var e b span).placed s = b.placed { s with inLoop := true } := by
  unfold loopOver
  repeat' split
  all_goals rfl

theorem passes_forStmt (hinner : Inside inner) (s : Setting) :
    PassesAt (.keyword .forWord) true true (forStmt inner s) fun ls st =>
      StmtIn true s ls st.bare := by
  refine passesAt_take rfl fun start => (passes_expectName _).bind ?_
  rintro var _ rfl
  refine (passes_expect rfl).bind ?_
  rintro _ _ rfl
  refine passes_expression.bind fun e ls he => (passes_expectColon _).bind ?_
  rintro _ _ rfl
  refine (passes_block hinner _ _).bind fun body ls' hbody => passes_pure ?_
  rw [loopOver_bare]
  exact ⟨by simpa using DerivesClause.forLoop var.name he hbody.1,
    (loopOver_placed ..).trans hbody.2⟩

/-- The names are listed, and all are different if those so far are. -/
def ParamsIn (sofar : List Ident) (ls : List Lexeme) (params : List Ident) : Prop :=
  ∃ more, params = sofar.reverse ++ more ∧
    Listed Ident.name (fun x => [Lexeme.name x]) id (fun _ => True) ls more ∧
    ((sofar.map (·.name)).Nodup → (params.map (·.name)).Nodup)

theorem gives_paramsFrom (bound : Nat) (sofar : List Ident) :
    Gives (paramsFrom bound sofar) (ParamsIn sofar) := by
  have hdone : ∀ sofar, ParamsIn sofar [] sofar.reverse :=
    fun sofar => ⟨[], by simp, listed_nil, ((List.reverse_perm sofar).map _).nodup_iff.mpr⟩
  induction bound generalizing sofar with
  | zero => exact gives_pure (hdone sofar)
  | succ bound ih =>
    refine gives_peek fun l => Gives.at (.ite (gives_pure (hdone sofar)) ?_) l
    refine (gives_expectName _).bind ?_
    rintro p _ rfl
    split
    · exact gives_failAt _ _
    · rename_i hnew
      have hnodup : (sofar.map (·.name)).Nodup → ((p :: sofar).map (·.name)).Nodup := by
        intro h
        rw [List.map_cons, List.nodup_cons]
        refine ⟨?_, h⟩
        simpa using hnew
      refine (gives_eat Lexeme.noConfusion).bind ?_
      rintro comma _ rfl
      cases comma with
      | true =>
        refine (ih (p :: sofar)).mono ?_
        rintro ls params ⟨more, rfl, hmore, hparams⟩
        exact ⟨p :: more, by simp, @Listed.cons _ _ _ _ _ _ _ _ _ _ p.name rfl trivial hmore,
          hparams ∘ hnodup⟩
      | false =>
        refine gives_pure ⟨[p], by simp, @listed_single _ _ _ _ _ _ _ _ p.name rfl trivial, ?_⟩
        exact fun h => ((List.reverse_perm (p :: sofar)).map _).nodup_iff.mpr (hnodup h)

theorem passes_defStmt (hinner : Inside inner) (s : Setting) :
    PassesAt (.keyword .defWord) true true (defStmt inner s) fun ls st =>
      StmtIn true s ls st.bare := by
  unfold defStmt
  split
  · exact (passes_fail _).at _
  · rename_i hblock
    refine passesAt_take rfl fun start => (passes_expectName _).bind ?_
    rintro name _ rfl
    refine (passes_expect rfl).bind ?_
    rintro _ _ rfl
    refine passes_remaining fun n => ((gives_paramsFrom n []).passes_behind ?_).bind ?_
    · rintro _ _ ⟨more, -, ⟨parts, trailing, rfl, -, -⟩, -⟩
      exact words_listing trailing fun x _ => by simp [Lexeme.isLayout]
    rintro params _ ⟨more, rfl, ⟨names, trailing, rfl, hnames, -⟩, hnodup⟩
    refine (passes_expect rfl).bind ?_
    rintro _ _ rfl
    refine (passes_expectColon _).bind ?_
    rintro _ _ rfl
    refine (passes_block hinner _ _).bind fun body ls hbody => passes_pure ?_
    obtain rfl : params.map Ident.name = names := by simpa using hnames
    have hdefine :=
      DerivesClause.define name.name (params.map Ident.name) trailing (fun _ => rfl) hbody.1
    refine ⟨by simpa [Stmt.bare, Function.comp_def] using hdefine, ?_⟩
    have hdistinct : (params.map (·.name)).Nodup := by simpa using hnodup List.nodup_nil
    simp only [Stmt.bare, Stmt.placed, Bool.and_eq_true, decide_eq_true_eq, List.map_map]
    exact ⟨⟨by simpa using hblock, by simpa [Function.comp_def] using hdistinct⟩, hbody.2⟩

theorem inside_simpleLine : Inside simpleLine := by
  refine fun s => (passes_simpleLine true s).mono ?_
  rintro _ st ⟨ls, rfl, hst⟩
  exact ⟨.simple hst.1, hst.2⟩

theorem inside_stmtWith (hinner : Inside inner) : Inside (stmtWith inner) := by
  refine fun s => passes_peek fun l => ?_
  split
  · exact passes_ifStmt hinner s
  · exact passes_forStmt hinner s
  · exact passes_defStmt hinner s
  · exact (passes_fail _).at _
  · exact (passes_fail _).at _
  · exact (passes_fail _).at _
  · exact (inside_simpleLine s).at l

theorem inside_stmtAt : ∀ depth, Inside (stmtAt depth)
  | 0 => inside_simpleLine
  | depth + 1 => inside_stmtWith (inside_stmtAt depth)

end Blocks

section Program

/-- At the start of a line no line ends, so the statements of a text are read as those of a block.
-/
theorem stmtsFrom_eq_blockFrom {depth bound : Nat} {s : Setting} :
    ∀ {sofar : List Stmt} {r : Reader}, Laid true 0 r.lexemes →
      stmtsFrom (stmtAt depth s) bound sofar r = blockFrom (stmtAt depth s) bound sofar r := by
  induction bound with
  | zero => exact fun _ => rfl
  | succ bound ih =>
    intro sofar r hlaid
    obtain ⟨hnewline, hdedent⟩ := hlaid.peek_of_top
    have hrest : (stmtAt depth s >>= fun st => stmtsFrom (stmtAt depth s) bound (st :: sofar)) r =
        (stmtAt depth s >>= fun st => blockFrom (stmtAt depth s) bound (st :: sofar)) r := by
      rcases hst : stmtAt depth s r with e | ⟨st, r₁⟩
      · rw [bind_of_error hst, bind_of_error hst]
      · rw [bind_of_ok hst, bind_of_ok hst]
        obtain ⟨_, _, _, hlaid₁⟩ := inside_stmtAt depth s hlaid hst
        exact ih hlaid₁
    rw [stmtsFrom, blockFrom, peek_bind, peek_bind]
    generalize r.peek = l at hnewline hdedent
    cases l <;> first | exact hrest | rfl | exact absurd rfl hnewline | exact absurd rfl hdedent

theorem lexemes_ofTokens {ts : List Token} (h : Laid true 0 (ts.map (·.lexeme))) :
    (Reader.ofTokens ts).lexemes = ts.map (·.lexeme) := by
  obtain ⟨t, ht, heof⟩ := Option.map_eq_some_iff.mp (List.getLast?_map ▸ h.getLast?_eq)
  rw [Reader.ofTokens, ht]
  simp only [heof, if_true]
  rfl

/-- What is read as a script is one. -/
theorem derives_of_ofTokens {ts : List Token} {p : Program}
    (hlaid : Laid true 0 (ts.map (·.lexeme)))
    (h : Program.ofTokens ts = .ok p) :
    DerivesProgram true (ts.map (·.lexeme)) p.bare ∧ p.bare.placed = true := by
  have hlexemes := lexemes_ofTokens hlaid
  unfold Program.ofTokens at h
  rcases hrun : program.run (.ofTokens ts) with e | ⟨p', r'⟩ <;> rw [hrun] at h <;> cases h
  rw [← hlexemes] at hlaid ⊢
  generalize Reader.ofTokens ts = r at *
  change program r = _ at hrun
  unfold program at hrun
  rw [remaining_bind] at hrun
  obtain ⟨stmts, r₁, hstmts, hrun⟩ := bind_eq_ok.mp hrun
  rw [stmtsFrom_eq_blockFrom hlaid] at hstmts
  obtain ⟨more, body, rfl, hmore, hbody, hls, hend, hlaid₁⟩ :=
    blockFrom_passes (inside_stmtAt _) _ hlaid (Nat.le_of_eq r.length_lexemes) hstmts
  cases hrun
  have heof := hlaid₁.lexemes_of_eof (hend.resolve_left hlaid₁.peek_of_top.2)
  rw [hls, heof]
  refine ⟨?_, ?_⟩
  · unfold Program.bare
    rw [hmore]
    exact .mk fun st hst => (hbody st hst).1
  · unfold Program.bare Program.placed
    rw [hmore, stmtsPlaced_eq]
    simpa using fun ls st hst => (hbody (ls, st) hst).2

end Program

end MissionScript
