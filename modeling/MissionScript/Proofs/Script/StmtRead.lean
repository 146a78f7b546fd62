import MissionScript.Proofs.Script.ExprRead
import MissionScript.Proofs.Script.StmtAccepted

/-!
# What is a script is read

The parsers of statements read whatever is derived and may stand where it does, and give the derived
tree. A statement is read by the parser for blocks of a certain depth if the depth is no less than
the number of its lexemes, since every block takes more lexemes than it is deep. An `if` statement
is read where no branch of another one follows.
-/

namespace MissionScript

open Parse Grammar

variable {lax : Bool} {s : Setting} {ls rest : List Lexeme}

section Simple

theorem target?_of_bare {e : Expr} {t : Target} (h : e.bare = t.expr) :
    ∃ t', target? e = some t' ∧ t'.bare = t := by
  cases t with
  | name x =>
    obtain ⟨x, span⟩ := x
    cases e with
    | name s mark =>
      obtain ⟨rfl, hmark⟩ := Expr.name.inj h
      obtain rfl : default = span := congrArg Mark.span hmark
      exact ⟨_, rfl, rfl⟩
    | _ => cases h
  | item object i =>
    cases e with
    | index object' i' mark =>
      obtain ⟨rfl, rfl, -⟩ := Expr.index.inj h
      exact ⟨_, rfl, rfl⟩
    | _ => cases h

/-- An expression begins with no word that is kept for statements. -/
theorem simpleStmt_of_starts {l : Lexeme} (h : Starts .expr l) {P : Stmt → Prop}
    (hread : Reads assignmentOrExpr (l :: ls) rest P) : Reads (simpleStmt s) (l :: ls) rest P := by
  refine reads_peek_cons ?_
  rcases starts_expr_iff.mp h with h | h
  · obtain ⟨e, he⟩ := Lexeme.isSome_atom? h
    cases he <;> exact hread
  · simp only [List.mem_cons, List.not_mem_nil, or_false] at h
    rcases h with rfl | rfl | rfl | rfl | rfl | rfl <;> exact hread

theorem reads_simpleStmt {st : Stmt} (h : SimpleAt lax s ls st) :
    Reads (simpleStmt s) ls (.newline :: rest) fun st' => st'.bare = st := by
  obtain ⟨hst, hplaced⟩ := h
  cases hst with
  | brk => exact reads_peek_cons (.then (reads_take fun _ => reads_pure rfl) hplaced)
  | cont => exact reads_peek_cons (.then (reads_take fun _ => reads_pure rfl) hplaced)
  | pass => exact reads_peek_cons (reads_take fun _ => reads_pure rfl)
  | @ret value hvalue =>
    refine reads_peek_cons (.then (reads_take fun _ => ?_) hplaced)
    cases value with
    | none => exact reads_peek (reads_pure rfl)
    | some v =>
      have hv := hvalue v rfl
      obtain ⟨l, ls', hls, hl⟩ := hv.derives.starts
      have hclosing := hl.not_closing
      simp only [Grammar.optional, Option.map_some, Option.getD_some]
      rw [hls]
      refine reads_peek_cons ?_
      split
      case h_4 =>
        rw [← hls]
        refine (reads_expression hv (Rank.stops_closing rfl _ rest)).last fun value hvalue => ?_
        exact reads_pure (by rw [Stmt.bare, Option.map_some, hvalue])
      all_goals cases hclosing
  | @assign ls ls' t e op ht hheight he =>
    have htarget : Expression lax ls t.expr := ⟨ht.derives, hheight⟩
    obtain ⟨l, ls₁, rfl, hl⟩ := htarget.derives.starts
    have hop : ∀ ls, Rank.expr.Stops (op.lexeme :: ls) ∧ assignOp? op.lexeme = some op := by
      cases op <;> exact fun _ => ⟨Rank.stops_closing rfl _ _, rfl⟩
    refine simpleStmt_of_starts hl ?_
    change Reads assignmentOrExpr ((l :: ls₁) ++ (op.lexeme :: ls')) _ _
    refine (reads_expression htarget (hop _).1).bind fun left hleft => ?_
    obtain ⟨t', ht', hbare⟩ := target?_of_bare hleft
    refine reads_peek_cons ?_
    simp only [(hop []).2, ht']
    refine reads_take fun _ => ?_
    refine (reads_expression he (Rank.stops_closing rfl _ rest)).last fun value hvalue =>
      reads_pure ?_
    rw [Stmt.bare, hbare, hvalue]
  | expr h =>
    obtain ⟨l, ls', rfl, hl⟩ := h.derives.starts
    refine simpleStmt_of_starts hl ?_
    refine (reads_expression h (Rank.stops_closing rfl _ rest)).last fun e he => ?_
    refine reads_peek (reads_pure ?_)
    rw [Stmt.bare, he]

theorem reads_simpleLine {st : Stmt} (h : SimpleAt lax s ls st) :
    Reads (simpleLine s) (ls ++ [.newline]) rest fun st' => st'.bare = st := by
  have hend : Reads expectLineEnd [.newline] rest fun _ => True :=
    reads_peek_cons (reads_take fun _ => reads_pure trivial)
  exact (reads_simpleStmt h).bind fun st' hst => hend.last fun _ _ => reads_pure hst

/-- A simple statement can begin with this lexeme. -/
def Lexeme.opensSimple : Lexeme → Bool
  | int _ | float _ | str _ | name _ | symbol _ => true
  | keyword k => k ∈ [.trueWord, .falseWord, .noneWord, .notWord, .breakWord, .continueWord,
      .passWord, .returnWord]
  | newline | indent | dedent | eof => false

theorem Grammar.Starts.opensSimple {r : Rank} {l : Lexeme} (h : Starts r l) :
    l.opensSimple = true := by
  rcases h with h | h | ⟨op, -, rfl⟩
  · obtain ⟨e, he⟩ := Lexeme.isSome_atom? h
    cases he <;> rfl
  · simp only [List.mem_cons, List.not_mem_nil, or_false] at h
    rcases h with rfl | rfl | rfl <;> rfl
  · cases op <;> rfl

theorem Grammar.DerivesSimple.starts {st : Stmt} (h : DerivesSimple lax ls st) :
    ∃ l ls', ls = l :: ls' ∧ l.opensSimple = true := by
  cases h with
  | brk | cont | pass | ret _ => exact ⟨_, _, rfl, rfl⟩
  | assign op ht _ _ =>
    obtain ⟨l, ls', rfl, hl⟩ := ht.derives.starts
    exact ⟨l, _, rfl, hl.opensSimple⟩
  | expr h =>
    obtain ⟨l, ls', rfl, hl⟩ := h.derives.starts
    exact ⟨l, _, rfl, hl.opensSimple⟩

/-- A simple statement begins with no word that is kept for other statements. -/
theorem stmtWith_of_simple {inner : Setting → Parse Stmt} {l : Lexeme} (h : l.opensSimple = true)
    {P : Stmt → Prop} (hread : Reads (simpleLine s) (l :: ls) rest P) :
    Reads (stmtWith inner s) (l :: ls) rest P := by
  refine reads_peek_cons ?_
  split <;> first | exact hread | cases h

end Simple

/-- A statement can begin with this lexeme. -/
def Lexeme.opens (l : Lexeme) : Bool :=
  l.opensSimple || l ∈ [keyword .ifWord, keyword .forWord, keyword .defWord]

theorem Grammar.DerivesClause.starts {st : Stmt} (h : DerivesClause lax (.stmt st) ls) :
    ∃ l ls', ls = l :: ls' ∧ l.opens = true := by
  generalize hc : Clause.stmt st = c at h
  cases h with
  | simple h =>
    obtain ⟨l, ls', rfl, hl⟩ := h.starts
    exact ⟨l, _, rfl, by simp [Lexeme.opens, hl]⟩
  | ifElse _ _ _ | forLoop _ _ _ | define _ _ _ _ _ => exact ⟨_, _, rfl, rfl⟩
  | line _ | indented _ _ => cases hc

section Blocks

variable {inner : Setting → Parse Stmt}

/-- The parser reads the statement wherever no branch of another one follows. -/
structure ReadableStmt (p : Parse Stmt) (st : Phrase Stmt) : Prop where
  opens : ∃ l ls, st.1 = l :: ls ∧ l.opens = true
  reads {l : Lexeme} (rest : List Lexeme) : l ≠ .keyword .elifWord → l ≠ .keyword .elseWord →
    Reads p st.1 (l :: rest) fun st' => st'.bare = st.2

theorem ReadableStmt.ne_nil {p : Parse Stmt} {st : Phrase Stmt} (h : ReadableStmt p st) :
    st.1 ≠ [] := by
  obtain ⟨l, ls, hls, _⟩ := h.opens
  exact hls ▸ List.cons_ne_nil l ls

theorem length_le_flatMap {α β : Type} {f : α → List β} {xs : List α} (h : ∀ x ∈ xs, f x ≠ []) :
    xs.length ≤ (xs.flatMap f).length := by
  induction xs with
  | nil => exact Nat.le_refl 0
  | cons x xs ih =>
    obtain ⟨hx, hxs⟩ := List.forall_mem_cons.mp h
    have hpos := List.length_pos_iff.mpr hx
    have hrest := ih hxs
    rw [List.length_cons, List.flatMap_cons, List.length_append]
    omega

/-- The statements of a body are read one after another, up to the end of the block or the text. -/
theorem reads_blockFrom {p : Parse Stmt} {body : List (Phrase Stmt)} {l : Lexeme}
    (hl : l = .dedent ∨ l = .eof) (hbody : ∀ st ∈ body, ReadableStmt p st) {bound : Nat}
    (hbound : body.length ≤ bound) (sofar : List Stmt) :
    Reads (blockFrom p bound sofar) (body.flatMap (·.1)) (l :: rest) fun stmts =>
      ∃ more, stmts = sofar.reverse ++ more ∧ more.map Stmt.bare = body.map (·.2) := by
  induction body generalizing bound sofar with
  | nil =>
    intro r hr
    refine ⟨sofar.reverse, r, ?_, hr, [], by simp, rfl⟩
    cases bound with
    | zero => rfl
    | succ bound => exact blockFrom_end (by rw [Reader.peek_of_lexemes hr]; exact hl)
  | cons st body ih =>
    obtain ⟨hst, hbody⟩ := List.forall_mem_cons.mp hbody
    obtain ⟨bound, rfl⟩ : ∃ b, bound = b + 1 := Nat.exists_eq_add_one.mpr (by simp at hbound; omega)
    obtain ⟨l₀, ls₀, hls₀, hl₀⟩ := hst.opens
    -- what follows is the next statement or the end
    have hnext : ∃ l' rest', body.flatMap (·.1) ++ l :: rest = l' :: rest' ∧
        l' ≠ .keyword .elifWord ∧ l' ≠ .keyword .elseWord := by
      rcases body with _ | ⟨st', body⟩
      · exact ⟨l, rest, rfl, by rcases hl with rfl | rfl <;> decide⟩
      · obtain ⟨l', ls', hls', hl'⟩ := (hbody st' List.mem_cons_self).opens
        refine ⟨l', _, by rw [List.flatMap_cons, hls']; rfl, ?_, ?_⟩ <;> rintro rfl <;> cases hl'
    obtain ⟨l', rest', hrest', helif, helse⟩ := hnext
    have hread : Reads (p >>= fun st' => blockFrom p bound (st' :: sofar))
        (st.1 ++ body.flatMap (·.1)) (l :: rest) fun stmts =>
          ∃ more, stmts = sofar.reverse ++ more ∧ more.map Stmt.bare = st.2 :: body.map (·.2) := by
      refine (hrest' ▸ hst.reads rest' helif helse).bind fun st' hst' => ?_
      refine (ih hbody (by simpa using hbound) (st' :: sofar)).mono ?_
      rintro stmts ⟨more, rfl, hmore⟩
      exact ⟨st' :: more, by simp, by simp [hst', hmore]⟩
    intro r hr
    rw [blockFrom_step]
    · exact hread hr
    · rw [Reader.peek_of_lexemes (by rw [hr, List.flatMap_cons, hls₀]; rfl)]
      rintro (rfl | rfl) <;> cases hl₀

/-- The parser reads the block, whatever follows it. -/
def ReadableSuite (inner : Setting → Parse Stmt) (s : Setting) (b : Phrase Block) : Prop :=
  ∀ (owner : String) (rest : List Lexeme),
    Reads (block inner s owner) b.1 rest fun b' => b'.bare = b.2

theorem readableSuite_line {st : Stmt} (h : SimpleAt lax s ls st) :
    ReadableSuite inner s (ls ++ [Lexeme.newline], .mk [st] default) := by
  intro owner rest
  obtain ⟨l, ls', hls, hl⟩ := h.1.starts
  have hne : ((ls ++ [Lexeme.newline] ++ rest).headD .eof) ≠ Lexeme.newline := by
    rw [hls]
    rintro rfl
    cases hl
  refine reads_eat_of_ne hne ?_
  refine (reads_simpleLine h).last fun st' hst => reads_pure ?_
  rw [Block.bare, bareStmts, bareStmts, hst]

theorem readableSuite_indented {body : List (Phrase Stmt)}
    (hbody : ∀ st ∈ body, ReadableStmt (inner { s with inBlock := true }) st) :
    ReadableSuite inner s
      (.newline :: .indent :: (body.flatMap (·.1) ++ [.dedent]), .mk (body.map (·.2)) default) := by
  intro owner rest
  refine reads_eat (reads_eat (reads_remaining ?_))
  have hlength : body.length ≤ (body.flatMap (·.1) ++ [Lexeme.dedent]).length + rest.length := by
    have := @length_le_flatMap _ _ (·.1) body fun st hst => (hbody st hst).ne_nil
    rw [List.length_append]
    omega
  refine (reads_blockFrom (.inl rfl) hbody hlength []).bind ?_
  rintro stmts ⟨more, rfl, hmore⟩
  refine reads_eat (reads_previous fun _ => reads_pure ?_)
  rw [Block.bare, bareStmts_eq, hmore]

theorem reads_guarded {b : Branch} (he : Expression lax b.1.1 b.1.2)
    (hb : ReadableSuite inner s b.2) (clause owner : String) :
    Reads (guarded inner s clause owner) (b.1.1 ++ (.symbol .colon :: b.2.1)) rest fun b' =>
      (b'.1.bare, b'.2.bare) = (b.1.2, b.2.2) := by
  refine (reads_expression he (Rank.stops_closing rfl _ _)).bind fun e hread => ?_
  refine reads_expectColon clause ((hb owner _).last fun b' hblock => reads_pure ?_)
  rw [hread, hblock]

/-- The branches of an `if` statement are read as long as there are any. -/
theorem reads_elifsFrom {elifs : List Branch} (helifs : ∀ b ∈ elifs, Expression lax b.1.1 b.1.2 ∧
      ReadableSuite inner s b.2)
    {bound : Nat} (hbound : elifs.length ≤ bound) (hrest : rest.headD .eof ≠ .keyword .elifWord)
    (sofar : List (Expr × Block)) :
    Reads (elifsFrom inner s bound sofar) (elifs.flatMap (Branch.lexemes .elifWord)) rest fun bs =>
      ∃ more, bs = sofar.reverse ++ more ∧
        bareBranches more = elifs.map fun b => (b.1.2, b.2.2) := by
  induction elifs generalizing bound sofar with
  | nil =>
    have hdone : Reads (pure sofar.reverse) [] rest fun bs => ∃ more : List (Expr × Block),
        bs = sofar.reverse ++ more ∧ bareBranches more = [] := reads_pure ⟨[], by simp, rfl⟩
    cases bound with
    | zero => exact hdone
    | succ bound =>
      exact reads_eat_of_ne (by simpa using hrest) hdone
  | cons b elifs ih =>
    obtain ⟨⟨he, hb⟩, helifs⟩ := List.forall_mem_cons.mp helifs
    obtain ⟨bound, rfl⟩ : ∃ n, bound = n + 1 := Nat.exists_eq_add_one.mpr (by simp at hbound; omega)
    rw [List.flatMap_cons, Branch.lexemes, List.cons_append]
    refine reads_eat ?_
    refine (reads_guarded he hb _ _).bind fun b' hread => ?_
    refine (ih helifs (by simpa using hbound) (b' :: sofar)).mono ?_
    rintro bs ⟨more, rfl, hmore⟩
    exact ⟨b' :: more, by simp, by rw [bareBranches, hmore, hread, List.map_cons]⟩

theorem reads_ifStmt {first : Branch} {elifs : List Branch} {otherwise : Option (Phrase Block)}
    (hbranches : ∀ b ∈ first :: elifs, Expression lax b.1.1 b.1.2 ∧ ReadableSuite inner s b.2)
    (hotherwise : ∀ b ∈ otherwise, ReadableSuite inner s b)
    (helif : rest.headD .eof ≠ .keyword .elifWord) (helse : rest.headD .eof ≠ .keyword .elseWord) :
    Reads (ifStmt inner s) (first.lexemes .ifWord ++
        (elifs.flatMap (Branch.lexemes .elifWord) ++ elseLexemes otherwise)) rest
      fun st =>
        st.bare = .ifElse ((first :: elifs).map fun b => (b.1.2, b.2.2)) (otherwise.map (·.2))
        default := by
  obtain ⟨⟨he, hb⟩, helifs⟩ := List.forall_mem_cons.mp hbranches
  have hlength : elifs.length ≤ (elifs.flatMap (Branch.lexemes .elifWord) ++
      elseLexemes otherwise).length + rest.length := by
    have := @length_le_flatMap _ _ (Branch.lexemes .elifWord) elifs fun b _ => List.cons_ne_nil _ _
    rw [List.length_append]
    omega
  rw [Branch.lexemes, List.cons_append]
  refine reads_take fun start => (reads_guarded he hb _ _).bind fun first' hfirst => ?_
  refine reads_remaining ?_
  have hnext : (elseLexemes otherwise ++ rest).headD .eof ≠ .keyword .elifWord := by
    cases otherwise with
    | none => exact helif
    | some b => exact (by decide : Lexeme.keyword .elseWord ≠ .keyword .elifWord)
  refine (reads_elifsFrom helifs hlength hnext [first']).bind ?_
  rintro branches ⟨more, rfl, hmore⟩
  have hbare : bareBranches (first' :: more) = (first :: elifs).map fun b => (b.1.2, b.2.2) := by
    rw [bareBranches, hmore, hfirst, List.map_cons]
  cases otherwise with
  | none =>
    refine reads_eat_of_ne (by simpa [elseLexemes] using helse) (reads_pure ?_)
    rw [Stmt.bare]
    exact congrArg (Stmt.ifElse · none default) hbare
  | some b =>
    refine reads_eat (reads_expectColon _ ((hotherwise b rfl _ _).last fun b' hb' => reads_pure ?_))
    rw [Stmt.bare, bareElse, hb']
    exact congrArg (Stmt.ifElse · (some b.2) default) hbare

theorem reads_forStmt {var : String} {e : Phrase Expr} {b : Phrase Block}
    (he : Expression lax e.1 e.2) (hb : ReadableSuite inner { s with inLoop := true } b) :
    Reads (forStmt inner s) (.keyword .forWord :: .name var :: .keyword .inWord ::
        (e.1 ++ (.symbol .colon :: b.1))) rest
      fun st => st.bare = loopOver ⟨var, default⟩ e.2 b.2 default := by
  refine reads_take fun start => reads_expectName _ fun x hx => reads_expect fun _ => ?_
  refine (reads_expression he (Rank.stops_closing rfl _ _)).bind fun e' he' => ?_
  refine reads_expectColon _ ((hb _ _).last fun b' hb' => reads_pure ?_)
  rw [loopOver_bare, hx, he', hb']

theorem reads_paramsFrom (trailing : Bool) {names : List String} {bound : Nat}
    (hbound : (listing trailing (names.map ([Lexeme.name ·]))).length ≤ bound) (sofar : List Ident)
    (hnodup : (sofar.map (·.name) ++ names).Nodup) :
    Reads (paramsFrom bound sofar) (listing trailing (names.map ([.name ·])))
      (.symbol .rparen :: rest) fun params =>
        ∃ more, params = sofar.reverse ++ more ∧ more.map (·.name) = names := by
  induction names generalizing bound sofar with
  | nil =>
    have hdone : Reads (pure sofar.reverse) [] (.symbol .rparen :: rest) fun params =>
        ∃ more : List Ident, params = sofar.reverse ++ more ∧ more.map (·.name) = [] :=
      reads_pure ⟨[], by simp, rfl⟩
    cases bound with
    | zero => exact hdone
    | succ bound => exact reads_peek (.then hdone rfl)
  | cons x xs ih =>
    obtain ⟨bound, rfl⟩ : ∃ b, bound = b + 1 := by
      refine Nat.exists_eq_add_one.mpr (Nat.lt_of_lt_of_le ?_ hbound)
      simp [listing]
    have hnew : ∀ p : Ident, p.name = x → ¬(sofar.any (·.name = p.name)) = true := by
      rintro p rfl hany
      obtain ⟨q, hq, hname⟩ := List.any_eq_true.mp hany
      refine (List.nodup_append.mp hnodup).2.2 q.name (List.mem_map_of_mem hq) p.name
        List.mem_cons_self (by simpa using hname)
    refine reads_peek (.else ?_ Lexeme.noConfusion)
    by_cases hlast : xs = [] ∧ trailing = false
    · obtain ⟨rfl, rfl⟩ := hlast
      rw [show listing false ([x].map ([Lexeme.name ·])) = [.name x] from rfl]
      refine reads_expectName _ fun p hp => .else (reads_eat_of_ne (by simp) ?_) (hnew p hp)
      exact reads_pure ⟨[p], by simp, by simp [hp]⟩
    · have hls : listing trailing ((x :: xs).map ([Lexeme.name ·])) =
          .name x :: .symbol .comma :: listing trailing (xs.map ([.name ·])) := by
        cases trailing <;> simp_all [listing]
      rw [hls] at hbound ⊢
      refine reads_expectName _ fun p hp => .else (reads_eat ?_) (hnew p hp)
      have hnodup' : ((p :: sofar).map (·.name) ++ xs).Nodup := by
        rw [List.map_cons, hp]
        exact List.perm_middle.nodup_iff.mp hnodup
      refine (ih (by simp at hbound; omega) (p :: sofar) hnodup').mono ?_
      rintro params ⟨more, rfl, hmore⟩
      exact ⟨p :: more, by simp, by simp [hp, hmore]⟩

theorem reads_defStmt {name : String} {params : List String} {b : Phrase Block} (trailing : Bool)
    (hblock : s.inBlock = false) (hnodup : params.Nodup)
    (hb : ReadableSuite inner { s with inFunction := true } b) :
    Reads (defStmt inner s) (.keyword .defWord :: .name name :: .symbol .lparen ::
        (listing trailing (params.map ([.name ·])) ++ (.symbol .rparen :: .symbol .colon :: b.1)))
        rest
      fun st => st.bare = .define ⟨name, default⟩ (params.map (⟨·, default⟩)) b.2 default := by
  unfold defStmt
  refine .else ?_ (by simp [hblock])
  refine reads_take fun start => reads_expectName _ fun x hx => reads_expect fun _ => ?_
  refine reads_remaining ?_
  refine (reads_paramsFrom trailing (by simp; omega) [] (by simpa using hnodup)).bind ?_
  rintro ps ⟨more, rfl, hmore⟩
  refine reads_expect fun _ => reads_expectColon _ ((hb _ _).last fun b' hb' => reads_pure ?_)
  rw [Stmt.bare, hx, hb', ← hmore]
  simp

end Blocks

/-- What is derived is read where it may stand, with blocks at most `depth` deep. -/
def Grammar.Clause.ReadableAt (depth : Nat) (s : Setting) (ls : List Lexeme) : Clause → Prop
  | .stmt st => st.placed s = true → ReadableStmt (stmtAt depth s) (ls, st)
  | .suite b => b.placed s = true → ReadableSuite (stmtAt depth) s (ls, b)

theorem length_le_of_mem_flatMap {α β : Type} {f : α → List β} {xs : List α} {x : α} (h : x ∈ xs) :
    (f x).length ≤ (xs.flatMap f).length := by
  obtain ⟨before, after, rfl⟩ := List.append_of_mem h
  rw [List.flatMap_append, List.flatMap_cons, List.length_append, List.length_append]
  omega

theorem Grammar.DerivesClause.readable {c : Clause} (h : DerivesClause lax c ls) :
    ∀ {depth : Nat}, ls.length ≤ depth → ∀ s, c.ReadableAt depth s ls := by
  -- the derivation as a whole tells what a statement begins with, whatever its form
  have hstarts := h
  induction h with
  | @simple ls st hst =>
    intro depth hdepth s hplaced
    refine ⟨hstarts.starts, fun rest _ _ => ?_⟩
    obtain ⟨depth, rfl⟩ : ∃ d, depth = d + 1 := Nat.exists_eq_add_one.mpr (by simp at hdepth; omega)
    obtain ⟨l, ls', rfl, hl⟩ := hst.starts
    exact stmtWith_of_simple hl (reads_simpleLine ⟨hst, hplaced⟩)
  | @ifElse first elifs otherwise he hb ho ihb iho =>
    intro depth hdepth s hplaced
    refine ⟨hstarts.starts, fun rest helif helse => ?_⟩
    obtain ⟨depth, rfl⟩ : ∃ d, depth = d + 1 := Nat.exists_eq_add_one.mpr (by
      simp [Branch.lexemes] at hdepth; omega)
    simp only [Stmt.placed, branchesPlaced_eq, elsePlaced_eq, List.all_map, Bool.and_eq_true,
      List.all_eq_true] at hplaced
    simp only [Branch.lexemes, List.cons_append, List.length_cons, List.length_append] at hdepth
    have hbranches : ∀ b ∈ first :: elifs, b.2.1.length ≤ depth := by
      refine List.forall_mem_cons.mpr ⟨by omega, fun b hb => ?_⟩
      have := @length_le_of_mem_flatMap _ _ (Branch.lexemes .elifWord) _ _ hb
      simp only [Branch.lexemes, List.length_cons, List.length_append] at this
      omega
    refine reads_peek (reads_ifStmt (fun b hmem => ⟨he b hmem, ?_⟩) (fun b hmem => ?_) helif helse)
    · exact ihb b hmem (hb b hmem) (hbranches b hmem) s (hplaced.1 b hmem)
    · obtain rfl : otherwise = some b := hmem
      refine iho b rfl (ho b rfl) ?_ s hplaced.2
      simp only [elseLexemes, Option.map_some, Option.getD_some, List.length_cons] at hdepth
      omega
  | @forLoop ls ls' e b var he hb ih =>
    intro depth hdepth s hplaced
    refine ⟨hstarts.starts, fun rest _ _ => ?_⟩
    obtain ⟨depth, rfl⟩ : ∃ d, depth = d + 1 := Nat.exists_eq_add_one.mpr (by simp at hdepth; omega)
    rw [loopOver_placed] at hplaced
    simp only [List.length_cons, List.length_append] at hdepth
    exact reads_peek_cons
      (@reads_forStmt _ _ _ _ var (ls, e) (ls', b) he (ih hb (by omega) _ hplaced))
  | @define ls b name params trailing _ hb ih =>
    intro depth hdepth s hplaced
    refine ⟨hstarts.starts, fun rest _ _ => ?_⟩
    obtain ⟨depth, rfl⟩ : ∃ d, depth = d + 1 := Nat.exists_eq_add_one.mpr (by simp at hdepth; omega)
    simp only [Stmt.placed, List.map_map, Bool.and_eq_true, decide_eq_true_eq] at hplaced
    obtain ⟨⟨hblock, hnodup⟩, hbody⟩ := hplaced
    simp only [List.length_cons, List.length_append] at hdepth
    refine reads_peek_cons (@reads_defStmt _ _ _ _ _ (ls, b) trailing (by simpa using hblock) ?_
      (ih hb (by omega) _ hbody))
    simpa [Function.comp_def] using hnodup
  | @line ls st hst =>
    intro depth hdepth s hplaced
    refine readableSuite_line ⟨hst, ?_⟩
    simp only [Block.placed, stmtsPlaced, Bool.and_true] at hplaced
    cases hst <;> exact hplaced
  | @indented body hne hbody ih =>
    intro depth hdepth s hplaced
    refine readableSuite_indented fun st hst => ih st hst (hbody st hst) ?_ _ ?_
    · have := @length_le_of_mem_flatMap _ _ (·.1) _ _ hst
      simp only [List.length_cons, List.length_append] at hdepth
      omega
    · simp only [Block.placed, stmtsPlaced_eq, List.all_map, List.all_eq_true] at hplaced
      exact hplaced st hst

/-- What is a script is read, and the tree is the derived one. -/
theorem ofTokens_of_derives {ts : List Token} {p : Program}
    (hlaid : Laid true 0 (ts.map (·.lexeme)))
    (h : DerivesProgram lax (ts.map (·.lexeme)) p) (hplaced : p.placed = true) :
    ∃ p', Program.ofTokens ts = .ok p' ∧ p'.bare = p := by
  have hlexemes := lexemes_ofTokens hlaid
  unfold Program.ofTokens
  generalize Reader.ofTokens ts = r at *
  rw [← hlexemes] at h hlaid
  generalize hls : r.lexemes = ls at h
  cases h with | @mk body hbody => ?_
  have hlength : (body.flatMap (·.1) ++ [Lexeme.eof]).length = r.rest.length := by
    rw [← r.length_lexemes, hls]
  have hread : ∀ st ∈ body, ReadableStmt (stmtAt r.rest.length .top) st := by
    intro st hst
    have hmem := @length_le_of_mem_flatMap _ _ (·.1) _ _ hst
    simp only [Program.placed, stmtsPlaced_eq, List.all_map, List.all_eq_true] at hplaced
    refine (hbody st hst).readable ?_ _ (hplaced st hst)
    simp only [List.length_append] at hlength
    omega
  have hbound : body.length ≤ r.rest.length := by
    have := @length_le_flatMap _ _ (·.1) body fun st hst => (hread st hst).ne_nil
    simp only [List.length_append] at hlength
    omega
  obtain ⟨stmts, r', hrun, -, more, rfl, hmore⟩ := reads_blockFrom (.inr rfl) hread hbound [] hls
  rw [← stmtsFrom_eq_blockFrom hlaid] at hrun
  refine ⟨⟨stmts, coveringSpan (.point 1 1) stmts⟩, ?_, by rw [Program.bare, hmore]⟩
  have hprogram : program r = .ok (⟨stmts, coveringSpan (.point 1 1) stmts⟩, r') := by
    unfold program
    rw [remaining_bind, bind_of_ok hrun]
    rfl
  change (program r).map (·.1) = _
  rw [hprogram]
  rfl

end MissionScript
