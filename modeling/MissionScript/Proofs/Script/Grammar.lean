import Mathlib.Data.Option.Basic
import MissionScript.Proofs.Script.Bare
import MissionScript.Script.StmtParser

/-!
# The grammar of scripts

What lexemes a script may be written with, and which tree they stand for. For expressions the rules
are, from the loosest to the tightest,

    expr       := or
    or         := and ("or" and)*
    and        := not ("and" not)*
    not        := "not" not | comparison
    comparison := sum [compop sum]
    sum        := product (("+" | "-") product)*
    product    := signed (("*" | "/" | "//" | "%") signed)*
    signed     := ("-" | "+") signed | suffixed
    suffixed   := primary ( "(" args ")" | "[" expr "]" | "[" [expr] ":" [expr] "]"
                          | "." NAME "(" args ")" )*
    primary    := INT | FLOAT | STRING | "True" | "False" | "None" | NAME | "(" expr ")"
                | "[" args "]" | "{" [expr ":" expr ("," expr ":" expr)* [","]] "}"
    args       := [expr ("," expr)* [","]]

A rule `a (op a)*` is read from the left: what is written so far is the left operand of the next
operator. For statements they are

    program    := statement* EOF
    statement  := if | for | def | simple NEWLINE
    if         := "if" expr ":" suite ("elif" expr ":" suite)* ["else" ":" suite]
    for        := "for" NAME "in" expr ":" suite
    def        := "def" NAME "(" [NAME ("," NAME)*] ")" ":" suite
    suite      := simple NEWLINE | NEWLINE INDENT statement+ DEDENT
    simple     := "break" | "continue" | "pass" | "return" [expr]
                | target ("=" | "+=" | "-=" | "*=") expr | expr
    target     := NAME | suffixed "[" expr "]"

and functions are called by a bare name. The lax grammar lets a little more through: a comma after
the last parameter of a function, and parentheses around a target and around the name of a function
that is called.

The trees are bare ones, and their nodes are made from their parts. Beside the grammar there are
rules on where a statement may stand (`Stmt.placed`), and limits on how deep an expression is nested
and how tall its tree is.
-/

namespace MissionScript

/-- The rules for expressions, the loosest first. -/
inductive Rank where
  | expr
  | or
  | and
  | not
  | comparison
  | sum
  | product
  | signed
  | suffixed
  | primary
deriving DecidableEq

namespace Rank

/-- How tight a rank is. -/
def level : Rank → Nat
  | expr => 0
  | or => 1
  | and => 2
  | not => 3
  | comparison => 4
  | sum => 5
  | product => 6
  | signed => 7
  | suffixed => 8
  | primary => 9

/-- What stands for itself under a rank when nothing is applied. The outermost rank is left out: it
begins a new level of nesting. -/
def next? : Rank → Option Rank
  | expr => Option.none
  | or => some and
  | and => some not
  | not => some comparison
  | comparison => some sum
  | sum => some product
  | product => some signed
  | signed => some suffixed
  | suffixed => some primary
  | primary => Option.none

theorem next?_level {r r' : Rank} (h : r.next? = some r') : r'.level = r.level + 1 := by
  cases r <;> cases h <;> rfl

theorem level_injective {r r' : Rank} (h : r.level = r'.level) : r = r' := by
  cases r <;> cases r' <;> first | rfl | cases h

end Rank

namespace BinOp

def rank : BinOp → Rank
  | or => .or
  | and => .and
  | eq | notEq | less | greater | lessEq | greaterEq | isIn | notIn => .comparison
  | add | sub => .sum
  | mul | div | floorDiv | mod => .product

/-- Operators are applied from the left, so the left operand may be of the same rank; but
comparisons do not chain. -/
def leftRank (op : BinOp) : Rank :=
  match op.rank with
  | .comparison => .sum
  | r => r

def rightRank (op : BinOp) : Rank := op.rank.next?.getD .primary

theorem leftRank_level (op : BinOp) : op.rank.level ≤ op.leftRank.level := by
  cases op <;> decide

def lexemes : BinOp → List Lexeme
  | or => [.keyword .orWord]
  | and => [.keyword .andWord]
  | eq => [.symbol .eqEq]
  | notEq => [.symbol .bangEq]
  | less => [.symbol .less]
  | greater => [.symbol .greater]
  | lessEq => [.symbol .lessEq]
  | greaterEq => [.symbol .greaterEq]
  | isIn => [.keyword .inWord]
  | notIn => [.keyword .notWord, .keyword .inWord]
  | add => [.symbol .plus]
  | sub => [.symbol .minus]
  | mul => [.symbol .star]
  | div => [.symbol .slash]
  | floorDiv => [.symbol .slashSlash]
  | mod => [.symbol .percent]

end BinOp

namespace UnaryOp

def rank : UnaryOp → Rank
  | not => .not
  | neg | pos => .signed

def lexeme : UnaryOp → Lexeme
  | neg => .symbol .minus
  | pos => .symbol .plus
  | not => .keyword .notWord

end UnaryOp

def AssignOp.lexeme : AssignOp → Lexeme
  | set => .symbol .eq
  | add => .symbol .plusEq
  | sub => .symbol .minusEq
  | mul => .symbol .starEq

/-- The expression that a lexeme stands for by itself. -/
def Lexeme.atom? : Lexeme → Option Expr
  | int n => some (.fresh (.int n default))
  | float x => some (.fresh (.float x default))
  | str s => some (.fresh (.str s default))
  | name s => some (.fresh (.name s default))
  | keyword .trueWord => some (.fresh (.bool true default))
  | keyword .falseWord => some (.fresh (.bool false default))
  | keyword .noneWord => some (.fresh (.none default))
  | _ => Option.none

/-- The lexeme stands for this expression by itself. -/
inductive Lexeme.IsAtom : Lexeme → Expr → Prop
  | int (n : Int64) : IsAtom (.int n) (.fresh (.int n default))
  | float (x : Float) : IsAtom (.float x) (.fresh (.float x default))
  | str (s : String) : IsAtom (.str s) (.fresh (.str s default))
  | name (s : String) : IsAtom (.name s) (.fresh (.name s default))
  | yes : IsAtom (.keyword .trueWord) (.fresh (.bool true default))
  | no : IsAtom (.keyword .falseWord) (.fresh (.bool false default))
  | none : IsAtom (.keyword .noneWord) (.fresh (.none default))

theorem Lexeme.atom?_eq_some_iff {l : Lexeme} {e : Expr} : l.atom? = some e ↔ l.IsAtom e := by
  constructor
  · intro h
    cases l with
    | int | float | str | name =>
      cases h
      constructor
    | keyword k => cases k <;> cases h <;> constructor
    | symbol | newline | indent | dedent | eof => cases h
  · rintro ⟨⟩ <;> rfl

theorem Lexeme.isSome_atom? {l : Lexeme} (h : l.atom?.isSome = true) : ∃ e, l.IsAtom e :=
  (Option.isSome_iff_exists.mp h).imp fun _ => atom?_eq_some_iff.mp

namespace Grammar

/-- A tree with the lexemes that it is written with. -/
abbrev Phrase (α : Type) := List Lexeme × α

/-- Parts with commas between them, and one after the last if it is `trailing`. -/
def listing (trailing : Bool) : List (List Lexeme) → List Lexeme
  | [] => []
  | ls :: rest =>
    ls ++ if rest.isEmpty && !trailing then [] else .symbol .comma :: listing trailing rest

/-- The lexemes of a part that may be missing. -/
def optional {α : Type} (p : Option (Phrase α)) : List Lexeme := (p.map (·.1)).getD []

/-- An entry of a dict, with a colon after the key. -/
def entryLexemes (e : Phrase Expr × Phrase Expr) : List Lexeme := e.1.1 ++ .symbol .colon :: e.2.1

/-- The lexemes are an expression of the given rank, nested at most `n` levels deep, with the given
tree. -/
inductive Derives (lax : Bool) : Rank → Nat → List Lexeme → Expr → Prop
  | expr {n : Nat} {ls : List Lexeme} {e : Expr} :
      Derives lax .or n ls e → Derives lax .expr (n + 1) ls e
  | next {r r' : Rank} {n : Nat} {ls : List Lexeme} {e : Expr} :
      r.next? = some r' → Derives lax r' n ls e → Derives lax r n ls e
  | binary {n : Nat} {ls ls' : List Lexeme} {a b : Expr} (op : BinOp) :
      Derives lax op.leftRank n ls a → Derives lax op.rightRank n ls' b →
        Derives lax op.rank n (ls ++ (op.lexemes ++ ls')) (.fresh (.binary a op b default))
  | unary {n : Nat} {ls : List Lexeme} {e : Expr} (op : UnaryOp) :
      Derives lax op.rank n ls e →
        Derives lax op.rank (n + 1) (op.lexeme :: ls) (.fresh (.unary op e default))
  | call {n : Nat} {ls : List Lexeme} {f : String} {args : List (Phrase Expr)} (trailing : Bool) :
      Derives lax .suffixed n ls (.fresh (.name f default)) → (lax = false → ls = [.name f]) →
        (∀ a ∈ args, Derives lax .expr n a.1 a.2) →
        Derives lax .suffixed n
          (ls ++ (.symbol .lparen :: (listing trailing (args.map (·.1)) ++ [.symbol .rparen])))
          (.fresh (.call ⟨f, default⟩ (args.map (·.2)) default))
  | method {n : Nat} {ls : List Lexeme} {e : Expr} {args : List (Phrase Expr)} (m : String)
      (trailing : Bool) :
      Derives lax .suffixed n ls e → (∀ a ∈ args, Derives lax .expr n a.1 a.2) →
        Derives lax .suffixed n
          (ls ++ (.symbol .dot :: .name m :: .symbol .lparen ::
            (listing trailing (args.map (·.1)) ++ [.symbol .rparen])))
          (.fresh (.method e ⟨m, default⟩ (args.map (·.2)) default))
  | index {n : Nat} {ls ls' : List Lexeme} {e i : Expr} :
      Derives lax .suffixed n ls e → Derives lax .expr n ls' i →
        Derives lax .suffixed n (ls ++ (.symbol .lbracket :: (ls' ++ [.symbol .rbracket])))
          (.fresh (.index e i default))
  | slice {n : Nat} {ls : List Lexeme} {e : Expr} {start stop : Option (Phrase Expr)} :
      Derives lax .suffixed n ls e → (∀ a ∈ start, Derives lax .expr n a.1 a.2) →
        (∀ b ∈ stop, Derives lax .expr n b.1 b.2) →
        Derives lax .suffixed n
          (ls ++ (.symbol .lbracket :: (optional start ++ (.symbol .colon ::
            (optional stop ++ [.symbol .rbracket])))))
          (.fresh (.slice e (start.map (·.2)) (stop.map (·.2)) default))
  | atom {n : Nat} {l : Lexeme} {e : Expr} : l.atom? = some e → Derives lax .primary n [l] e
  | paren {n : Nat} {ls : List Lexeme} {e : Expr} :
      Derives lax .expr n ls e →
        Derives lax .primary n (.symbol .lparen :: (ls ++ [.symbol .rparen])) e
  | list {n : Nat} {items : List (Phrase Expr)} (trailing : Bool) :
      (∀ a ∈ items, Derives lax .expr n a.1 a.2) →
        Derives lax .primary n
          (.symbol .lbracket :: (listing trailing (items.map (·.1)) ++ [.symbol .rbracket]))
          (.fresh (.list (items.map (·.2)) default))
  | dict {n : Nat} {entries : List (Phrase Expr × Phrase Expr)} (trailing : Bool) :
      (∀ a ∈ entries, Derives lax .expr n a.1.1 a.1.2) →
        (∀ a ∈ entries, Derives lax .expr n a.2.1 a.2.2) →
        Derives lax .primary n
          (.symbol .lbrace :: (listing trailing (entries.map entryLexemes) ++ [.symbol .rbrace]))
          (.fresh (.dict (entries.map fun a => (a.1.2, a.2.2)) default))

/-- An expression within the limits on nesting and height. -/
structure Expression (lax : Bool) (ls : List Lexeme) (e : Expr) : Prop where
  derives : Derives lax .expr nestingLimit ls e
  height_le : e.height ≤ heightLimit

/-- The lexemes are a target of an assignment, nested at most `n` levels deep. -/
inductive DerivesTarget (lax : Bool) : Nat → List Lexeme → Target → Prop
  | name {n : Nat} (s : String) : DerivesTarget lax (n + 1) [.name s] (.name ⟨s, default⟩)
  | item {n : Nat} {ls ls' : List Lexeme} {e i : Expr} :
      Derives lax .suffixed n ls e → Derives lax .expr n ls' i →
        DerivesTarget lax (n + 1) (ls ++ (.symbol .lbracket :: (ls' ++ [.symbol .rbracket])))
          (.item e i)
  | paren {n : Nat} {ls : List Lexeme} {t : Target} (h : lax = true) :
      DerivesTarget lax n ls t →
        DerivesTarget lax (n + 1) (.symbol .lparen :: (ls ++ [.symbol .rparen])) t

/-- The lexemes are a simple statement, without the end of its line. -/
inductive DerivesSimple (lax : Bool) : List Lexeme → Stmt → Prop
  | brk : DerivesSimple lax [.keyword .breakWord] (.brk default)
  | cont : DerivesSimple lax [.keyword .continueWord] (.cont default)
  | pass : DerivesSimple lax [.keyword .passWord] (.pass default)
  | ret {value : Option (Phrase Expr)} (h : ∀ v ∈ value, Expression lax v.1 v.2) :
      DerivesSimple lax (.keyword .returnWord :: optional value) (.ret (value.map (·.2)) default)
  | assign {ls ls' : List Lexeme} {t : Target} {e : Expr} (op : AssignOp)
      (ht : DerivesTarget lax nestingLimit ls t) (hheight : t.expr.height ≤ heightLimit)
      (he : Expression lax ls' e) :
      DerivesSimple lax (ls ++ (op.lexeme :: ls')) (.assign t op e default)
  | expr {ls : List Lexeme} {e : Expr} (h : Expression lax ls e) :
      DerivesSimple lax ls (.expr e default)

/-- What has blocks in it: a statement or a block itself. -/
inductive Clause where
  | stmt (s : Stmt)
  | suite (b : Block)

/-- A condition with its block, after the word that begins it. -/
abbrev Branch := Phrase Expr × Phrase Block

def Branch.lexemes (word : Keyword) (b : Branch) : List Lexeme :=
  .keyword word :: (b.1.1 ++ (.symbol .colon :: b.2.1))

def elseLexemes (b : Option (Phrase Block)) : List Lexeme :=
  (b.map fun b => .keyword .elseWord :: .symbol .colon :: b.1).getD []

/-- The lexemes are a statement with the end of its line, or a block. -/
inductive DerivesClause (lax : Bool) : Clause → List Lexeme → Prop
  | simple {ls : List Lexeme} {s : Stmt} :
      DerivesSimple lax ls s → DerivesClause lax (.stmt s) (ls ++ [.newline])
  | ifElse {first : Branch} {elifs : List Branch} {otherwise : Option (Phrase Block)} :
      (∀ b ∈ first :: elifs, Expression lax b.1.1 b.1.2) →
        (∀ b ∈ first :: elifs, DerivesClause lax (.suite b.2.2) b.2.1) →
        (∀ b ∈ otherwise, DerivesClause lax (.suite b.2) b.1) →
        DerivesClause lax
          (.stmt (.ifElse ((first :: elifs).map fun b => (b.1.2, b.2.2)) (otherwise.map (·.2))
            default))
          (first.lexemes .ifWord ++
            (elifs.flatMap (Branch.lexemes .elifWord) ++ elseLexemes otherwise))
  | forLoop {ls ls' : List Lexeme} {e : Expr} {b : Block} (var : String) :
      Expression lax ls e → DerivesClause lax (.suite b) ls' →
        DerivesClause lax (.stmt (loopOver ⟨var, default⟩ e b default))
          (.keyword .forWord :: .name var :: .keyword .inWord :: (ls ++ (.symbol .colon :: ls')))
  | define {ls : List Lexeme} {b : Block} (name : String) (params : List String)
      (trailing : Bool) :
      (trailing = true → lax = true) → DerivesClause lax (.suite b) ls →
        DerivesClause lax (.stmt (.define ⟨name, default⟩ (params.map (⟨·, default⟩)) b default))
          (.keyword .defWord :: .name name :: .symbol .lparen ::
            (listing trailing (params.map ([.name ·])) ++
              (.symbol .rparen :: .symbol .colon :: ls)))
  | line {ls : List Lexeme} {s : Stmt} :
      DerivesSimple lax ls s → DerivesClause lax (.suite (.mk [s] default)) (ls ++ [.newline])
  | indented {body : List (Phrase Stmt)} :
      body ≠ [] → (∀ s ∈ body, DerivesClause lax (.stmt s.2) s.1) →
        DerivesClause lax (.suite (.mk (body.map (·.2)) default))
          (.newline :: .indent :: (body.flatMap (·.1) ++ [.dedent]))

/-- The lexemes are a whole script. -/
inductive DerivesProgram (lax : Bool) : List Lexeme → Program → Prop
  | mk {body : List (Phrase Stmt)} (h : ∀ s ∈ body, DerivesClause lax (.stmt s.2) s.1) :
      DerivesProgram lax (body.flatMap (·.1) ++ [.eof]) ⟨body.map (·.2), default⟩

end Grammar

section Placement

mutual

/-- Whether the statement may stand where it does: loops are left from inside a loop, functions are
returned from inside a function and defined outside of all blocks, with distinct parameters. -/
def Stmt.placed (s : Setting) : Stmt → Bool
  | .brk _ | .cont _ => s.inLoop
  | .ret _ _ => s.inFunction
  | .define _ params body _ =>
    !s.inBlock && decide (params.map (·.name)).Nodup && body.placed { s with inFunction := true }
  | .forRange _ _ _ _ body _ | .forEach _ _ body _ => body.placed { s with inLoop := true }
  | .ifElse branches otherwise _ => branchesPlaced s branches && elsePlaced s otherwise
  | .assign _ _ _ _ | .pass _ | .expr _ _ => true

def Block.placed (s : Setting) : Block → Bool
  | .mk body _ => stmtsPlaced { s with inBlock := true } body

def stmtsPlaced (s : Setting) : List Stmt → Bool
  | [] => true
  | stmt :: rest => stmt.placed s && stmtsPlaced s rest

def branchesPlaced (s : Setting) : List (Expr × Block) → Bool
  | [] => true
  | (_, body) :: rest => body.placed s && branchesPlaced s rest

def elsePlaced (s : Setting) : Option Block → Bool
  | none => true
  | some body => body.placed s

end

def Program.placed (p : Program) : Bool := stmtsPlaced .top p.stmts

theorem stmtsPlaced_eq (s : Setting) (ss : List Stmt) :
    stmtsPlaced s ss = ss.all (Stmt.placed s) := by
  induction ss with
  | nil => rfl
  | cons stmt rest ih => rw [stmtsPlaced, ih, List.all_cons]

theorem stmtsPlaced_iff {s : Setting} {ss : List Stmt} :
    stmtsPlaced s ss = true ↔ ∀ stmt ∈ ss, stmt.placed s = true := by
  rw [stmtsPlaced_eq, List.all_eq_true]

theorem branchesPlaced_eq (s : Setting) (bs : List (Expr × Block)) :
    branchesPlaced s bs = bs.all fun b => b.2.placed s := by
  induction bs with
  | nil => rfl
  | cons b rest ih => rw [branchesPlaced, ih, List.all_cons]

theorem elsePlaced_eq (s : Setting) (b : Option Block) :
    elsePlaced s b = b.all (Block.placed s) := by
  cases b <;> rfl

mutual

theorem Stmt.placed_bare : ∀ (stmt : Stmt) (s : Setting), stmt.bare.placed s = stmt.placed s
  | .assign _ _ _ _, _ | .ret _ _, _ | .brk _, _ | .cont _, _ | .pass _, _ | .expr _ _, _ => rfl
  | .ifElse branches otherwise _, s => by
    simp only [Stmt.bare, Stmt.placed, branchesPlaced_bare branches s,
      elsePlaced_bare otherwise s]
  | .forRange _ _ _ _ body _, s | .forEach _ _ body _, s =>
    body.placed_bare { s with inLoop := true }
  | .define _ params body _, s => by
    have hnames : (params.map fun p => (⟨p.name, default⟩ : Ident)).map (·.name)
        = params.map (·.name) := List.map_map
    simp only [Stmt.bare, Stmt.placed, hnames, body.placed_bare]

theorem Block.placed_bare : ∀ (b : Block) (s : Setting), b.bare.placed s = b.placed s
  | .mk body _, s => stmtsPlaced_bare body { s with inBlock := true }

theorem stmtsPlaced_bare : ∀ (ss : List Stmt) (s : Setting),
    stmtsPlaced s (bareStmts ss) = stmtsPlaced s ss
  | [], _ => rfl
  | stmt :: rest, s => by
    simp only [bareStmts, stmtsPlaced, stmt.placed_bare s, stmtsPlaced_bare rest s]

theorem branchesPlaced_bare : ∀ (bs : List (Expr × Block)) (s : Setting),
    branchesPlaced s (bareBranches bs) = branchesPlaced s bs
  | [], _ => rfl
  | (_, body) :: rest, s => by
    simp only [bareBranches, branchesPlaced, body.placed_bare s, branchesPlaced_bare rest s]

theorem elsePlaced_bare : ∀ (b : Option Block) (s : Setting),
    elsePlaced s (bareElse b) = elsePlaced s b
  | none, _ => rfl
  | some b, s => b.placed_bare s

end

/-- Whether a script is placed does not depend on its spans. -/
theorem Program.placed_bare (p : Program) : p.bare.placed = p.placed := by
  unfold bare placed
  rw [← bareStmts_eq]
  exact stmtsPlaced_bare p.stmts .top

end Placement

/-- Statements without blocks. -/
def Stmt.isSimple : Stmt → Bool
  | .ifElse _ _ _ | .forRange _ _ _ _ _ _ | .forEach _ _ _ _ | .define _ _ _ _ => false
  | _ => true

theorem loopOver_cases (var : Ident) (e : Expr) (b : Block) (span : Span) :
    (∃ start stop step, loopOver var e b span = .forRange var start stop step b span) ∨
      loopOver var e b span = .forEach var (e.new e.span) b span := by
  unfold loopOver
  repeat' split
  all_goals first | exact .inl ⟨_, _, _, rfl⟩ | exact .inr rfl

namespace Grammar

section Lexemes

/-- The lexemes that an expression of a rank begins with. -/
def Starts (r : Rank) (l : Lexeme) : Prop :=
  l.atom?.isSome = true ∨ l ∈ [Lexeme.symbol .lparen, .symbol .lbracket, .symbol .lbrace]
    ∨ ∃ op : UnaryOp, r.level ≤ op.rank.level ∧ l = op.lexeme

variable {lax : Bool} {r r' : Rank} {l : Lexeme} {n : Nat} {ls : List Lexeme} {e : Expr}

theorem Starts.mono (h : Starts r' l) (hlevel : r.level ≤ r'.level) : Starts r l :=
  h.imp_right (.imp_right fun ⟨op, hop, hl⟩ => ⟨op, Nat.le_trans hlevel hop, hl⟩)

theorem Derives.starts (h : Derives lax r n ls e) : ∃ l rest, ls = l :: rest ∧ Starts r l := by
  induction h with
  | expr _ ih =>
    obtain ⟨l, rest, rfl, hl⟩ := ih
    exact ⟨l, rest, rfl, hl.mono (by decide)⟩
  | next hr _ ih =>
    obtain ⟨l, rest, rfl, hl⟩ := ih
    exact ⟨l, rest, rfl, hl.mono (by have := Rank.next?_level hr; omega)⟩
  | binary op _ _ ih _ =>
    obtain ⟨l, rest, rfl, hl⟩ := ih
    exact ⟨l, _, rfl, hl.mono op.leftRank_level⟩
  | unary op _ _ => exact ⟨_, _, rfl, .inr (.inr ⟨op, Nat.le_refl _, rfl⟩)⟩
  | call _ _ _ _ ih _ | method _ _ _ _ ih _ | index _ _ ih _ | slice _ _ _ ih _ _ =>
    obtain ⟨l, rest, rfl, hl⟩ := ih
    exact ⟨l, _, rfl, hl⟩
  | atom h => exact ⟨_, [], rfl, .inl (by rw [h]; rfl)⟩
  | paren _ _ | list _ _ _ | dict _ _ _ _ _ => exact ⟨_, _, rfl, .inr (.inl (by simp))⟩

/-- What is of a tight rank is of every looser one, except that the loosest begins a level. -/
theorem Derives.loosen {r : Rank} (h : Derives lax r' n ls e) (hr : r ≠ .expr)
    (hlevel : r.level ≤ r'.level) :
    Derives lax r n ls e := by
  rcases Nat.eq_or_lt_of_le hlevel with heq | hlt
  · exact Rank.level_injective heq ▸ h
  · obtain ⟨r'', hnext⟩ : ∃ r'', r.next? = some r'' := by
      cases r <;>
        first | exact absurd rfl hr | exact ⟨_, rfl⟩ | cases r' <;> exact absurd hlt (by decide)
    have hlevel' := Rank.next?_level hnext
    refine .next hnext (h.loosen ?_ (by omega))
    rintro rfl
    exact absurd hlevel'.symm (Nat.succ_ne_zero _)
termination_by r'.level - r.level

/-- A target is written as the expression that it is. -/
theorem DerivesTarget.derives {t : Target} (h : DerivesTarget lax n ls t) :
    Derives lax .expr n ls t.expr := by
  induction h with
  | name s => exact .expr ((Derives.atom rfl).loosen nofun (by decide))
  | item h hi => exact .expr ((Derives.index h hi).loosen nofun (by decide))
  | paren _ _ ih => exact .expr (ih.paren.loosen nofun (by decide))

theorem starts_expr_iff : Starts .expr l ↔
    l.atom?.isSome = true ∨ l ∈ [Lexeme.symbol .lparen, .symbol .lbracket, .symbol .lbrace,
      .symbol .minus, .symbol .plus, .keyword .notWord] := by
  constructor
  · rintro (h | h | ⟨op, -, rfl⟩)
    · exact .inl h
    · simp only [List.mem_cons, List.not_mem_nil, or_false] at h
      rcases h with rfl | rfl | rfl <;> simp
    · cases op <;> simp [UnaryOp.lexeme]
  · rintro (h | h)
    · exact .inl h
    · simp only [List.mem_cons, List.not_mem_nil, or_false] at h
      rcases h with rfl | rfl | rfl | rfl | rfl | rfl
      · simp [Starts]
      · simp [Starts]
      · simp [Starts]
      · exact .inr (.inr ⟨.neg, by decide, rfl⟩)
      · exact .inr (.inr ⟨.pos, by decide, rfl⟩)
      · exact .inr (.inr ⟨.not, by decide, rfl⟩)

/-- None of the lexemes is layout. -/
def Words (ls : List Lexeme) : Prop := ∀ l ∈ ls, l.isLayout = false

@[simp]
theorem words_nil : Words [] := nofun

@[simp]
theorem words_cons {ls : List Lexeme} : Words (l :: ls) ↔ l.isLayout = false ∧ Words ls :=
  List.forall_mem_cons

@[simp]
theorem words_append {ls ls' : List Lexeme} : Words (ls ++ ls') ↔ Words ls ∧ Words ls' :=
  List.forall_mem_append

theorem words_listing {β : Type} {words : β → List Lexeme} (trailing : Bool) {parts : List β}
    (h : ∀ p ∈ parts, Words (words p)) : Words (listing trailing (parts.map words)) := by
  induction parts with
  | nil => exact words_nil
  | cons p rest ih =>
    obtain ⟨hp, hrest⟩ := List.forall_mem_cons.mp h
    rw [List.map_cons, listing, words_append]
    refine ⟨hp, ?_⟩
    split
    · exact words_nil
    · exact words_cons.mpr ⟨rfl, ih hrest⟩

theorem words_optional {p : Option (Phrase Expr)} (h : ∀ a ∈ p, Words a.1) :
    Words (Grammar.optional p) := by
  cases p with
  | none => exact words_nil
  | some a => exact h a rfl

/-- No layout stands inside an expression. -/
theorem Derives.words (h : Derives lax r n ls e) : Words ls := by
  induction h with
  | expr _ ih | next _ _ ih => exact ih
  | binary op _ _ iha ihb =>
    have hop : Words op.lexemes := by cases op <;> simp [BinOp.lexemes, Lexeme.isLayout]
    simp [iha, ihb, hop]
  | unary op _ ih => cases op <;> simp [UnaryOp.lexeme, Lexeme.isLayout, ih]
  | call trailing _ _ _ ih ihargs => simp [ih, words_listing trailing ihargs, Lexeme.isLayout]
  | method m trailing _ _ ih ihargs => simp [ih, words_listing trailing ihargs, Lexeme.isLayout]
  | index _ _ ih ihi => simp [ih, ihi, Lexeme.isLayout]
  | slice _ _ _ ih ihstart ihstop =>
    simp [ih, words_optional ihstart, words_optional ihstop, Lexeme.isLayout]
  | atom h =>
    cases Lexeme.atom?_eq_some_iff.mp h <;> exact words_cons.mpr ⟨rfl, words_nil⟩
  | paren _ ih => simp [ih, Lexeme.isLayout]
  | list trailing _ ih => simp [words_listing trailing ih, Lexeme.isLayout]
  | dict trailing _ _ ihkeys ihvalues =>
    have hentries : ∀ a ∈ _, Words (entryLexemes a) := fun a ha =>
      words_append.mpr ⟨ihkeys a ha, words_cons.mpr ⟨rfl, ihvalues a ha⟩⟩
    simp [words_listing trailing hentries, Lexeme.isLayout]

end Lexemes

section Heights

variable {lax : Bool} {r : Rank} {n : Nat} {ls : List Lexeme} {e : Expr}

/-- The nodes of a tree that is derived keep the heights that they are made with. -/
theorem Derives.measured (h : Derives lax r n ls e) : e.Measured := by
  induction h with
  | expr _ ih | next _ _ ih | paren _ ih => exact ih
  | binary op _ _ iha ihb => exact Expr.measured_fresh (by simp [Expr.parts, iha, ihb])
  | unary op _ ih => exact Expr.measured_fresh (by simpa [Expr.parts] using ih)
  | call _ _ _ _ _ ihargs => exact Expr.measured_fresh (List.forall_mem_map.mpr ihargs)
  | method _ _ _ _ ih ihargs =>
    exact Expr.measured_fresh (List.forall_mem_cons.mpr ⟨ih, List.forall_mem_map.mpr ihargs⟩)
  | index _ _ ih ihi => exact Expr.measured_fresh (by simp [Expr.parts, ih, ihi])
  | slice _ _ _ ih ihstart ihstop =>
    exact Expr.measured_fresh (Expr.forall_parts_slice.mpr
      ⟨ih, Option.forall_mem_map.mpr ihstart, Option.forall_mem_map.mpr ihstop⟩)
  | atom h =>
    cases Lexeme.atom?_eq_some_iff.mp h <;> exact Expr.measured_fresh (by simp [Expr.parts])
  | list _ _ ih => exact Expr.measured_fresh (List.forall_mem_map.mpr ih)
  | dict _ _ _ ihkeys ihvalues =>
    refine Expr.measured_fresh (Expr.forall_parts_dict.mpr (List.forall_mem_map.mpr ?_))
    exact fun a ha => ⟨ihkeys a ha, ihvalues a ha⟩

/-- The parts of a node within the limit are within it. -/
theorem part_height_le {e x : Expr} (h : e.fresh.height ≤ heightLimit) (hx : x ∈ e.parts) :
    x.height ≤ heightLimit := by
  rw [Expr.fresh, Expr.height_new] at h
  exact Nat.le_of_lt (Expr.height_lt_of_newHeight_le h (by decide) hx)

theorem bare_joined (left : Expr) (op : BinOp) (right : Expr) :
    (joined left op right).bare = .fresh (.binary left.bare op right.bare default) :=
  Expr.bare_new _ _

end Heights

section Inversion

theorem DerivesClause.of_simple {lax : Bool} {st : Stmt} {ls : List Lexeme}
    (h : DerivesClause lax (.stmt st) ls) (hst : st.isSimple = true) :
    ∃ ls', ls = ls' ++ [.newline] ∧ DerivesSimple lax ls' st := by
  generalize hc : Clause.stmt st = c at h
  cases h with
  | simple h =>
    cases hc
    exact ⟨_, rfl, h⟩
  | ifElse _ _ _ | define _ _ _ _ _ =>
    cases hc
    cases hst
  | @forLoop _ _ e b var _ _ =>
    cases hc
    rcases loopOver_cases ⟨var, default⟩ e b default with ⟨_, _, _, hloop⟩ | hloop <;>
      rw [hloop] at hst <;> cases hst
  | line _ | indented _ _ => cases hc

theorem DerivesProgram.of_single {lax : Bool} {st : Stmt} {ls : List Lexeme}
    (h : DerivesProgram lax (ls ++ [.eof]) ⟨[st], default⟩) : DerivesClause lax (.stmt st) ls := by
  generalize hls : ls ++ [Lexeme.eof] = ls' at h
  generalize hp : (⟨[st], default⟩ : Program) = p at h
  cases h with | @mk body hbody => ?_
  rcases body with _ | ⟨a, _ | ⟨b, rest⟩⟩ <;> cases hp
  obtain rfl : ls = a.1 := by simpa using hls
  exact hbody a List.mem_cons_self

end Inversion

end Grammar

end MissionScript
