import MissionScript.Proofs.Script.Grammar
import MissionScript.Proofs.Script.Reading

/-!
# What is an expression is read

The parser of a rank reads whatever is derived at the rank, where no operator follows that it would
take as well (`Rank.Stops`), and gives the derived tree. Loops over operators are entered in the
middle: when the lexemes of an operand chain are taken, the parser goes on as the loop does from the
tree of these lexemes (`Leads`). The proof is by induction on the derivation.
-/

namespace MissionScript

open Parse Grammar

section Lists

variable {α β γ : Type} {item : Parse α} {shown : α → γ} {words : β → List Lexeme} {tree : β → γ}
  {close : Symbol}

/-- The parser reads the part where a comma or the closing symbol follows, and does not take its
first lexeme for the closing symbol. -/
structure Readable (item : Parse α) (shown : α → γ) (words : β → List Lexeme) (tree : β → γ)
    (close : Symbol) (p : β) : Prop where
  starts : ∃ l ls, words p = l :: ls ∧ l ≠ .symbol close
  reads {l : Lexeme} (rest : List Lexeme) : l = .symbol .comma ∨ l = .symbol close →
    Reads item (words p) (l :: rest) fun a => shown a = tree p

theorem Parse.reads_separated (hclose : close ≠ .comma) (trailing : Bool) {parts : List β}
    (hparts : ∀ p ∈ parts, Readable item shown words tree close p) {bound : Nat}
    (hbound : (listing trailing (parts.map words)).length ≤ bound) (sofar : List α)
    (rest : List Lexeme) :
    Reads (separated item close bound sofar) (listing trailing (parts.map words))
      (.symbol close :: rest) fun as =>
        ∃ more, as = sofar.reverse ++ more ∧ more.map shown = parts.map tree := by
  induction parts generalizing bound sofar with
  | nil =>
    have hdone : Reads (pure sofar.reverse) [] (.symbol close :: rest) fun as =>
        ∃ more : List α, as = sofar.reverse ++ more ∧ more.map shown = [].map tree :=
      reads_pure ⟨[], by simp, rfl⟩
    cases bound with
    | zero => exact hdone
    | succ bound => exact reads_peek (.then hdone rfl)
  | cons p ps ih =>
    obtain ⟨⟨l, ls, hl, hne⟩, hread⟩ := hparts p List.mem_cons_self
    obtain ⟨bound, rfl⟩ : ∃ b, bound = b + 1 := by
      refine Nat.exists_eq_add_one.mpr (Nat.lt_of_lt_of_le ?_ hbound)
      simp [listing, hl]
    refine reads_peek (.else ?_ (by simpa [listing, hl] using hne))
    by_cases hlast : ps = [] ∧ trailing = false
    · obtain ⟨rfl, rfl⟩ := hlast
      rw [show listing false ([p].map words) = words p by simp [listing]]
      refine (hread rest (.inr rfl)).last fun a ha => ?_
      refine reads_eat_of_ne (by simpa using hclose) ?_
      exact reads_pure ⟨[a], by simp, by simp [ha]⟩
    · have hls : listing trailing ((p :: ps).map words) =
          words p ++ (.symbol .comma :: listing trailing (ps.map words)) := by
        cases trailing <;> simp_all [listing]
      rw [hls] at hbound ⊢
      refine (hread _ (.inl rfl)).bind fun a ha => reads_eat ?_
      have hbound' : (listing trailing (ps.map words)).length ≤ bound := by
        simp only [List.length_append, List.length_cons] at hbound
        omega
      refine (ih (fun p hp => hparts p (List.mem_cons_of_mem _ hp)) hbound' (a :: sofar)).mono ?_
      rintro as ⟨more, rfl, hmore⟩
      exact ⟨a :: more, by simp, by simp [ha, hmore]⟩

theorem Parse.reads_enclosed (hclose : close ≠ .comma) (trailing : Bool) {parts : List β}
    (hparts : ∀ p ∈ parts, Readable item shown words tree close p) (rest : List Lexeme) :
    Reads (enclosed item close) (listing trailing (parts.map words) ++ [.symbol close]) rest
      fun as => as.map shown = parts.map tree := by
  refine reads_remaining ?_
  refine (reads_separated hclose trailing hparts (by simp; omega) [] rest).bind ?_
  rintro as ⟨more, rfl, hmore⟩
  exact reads_expect fun _ => reads_pure (by simpa using hmore)

end Lists

namespace Rank

/-- Whether an operator of the rank, or what may follow a value, is at hand. -/
def goesOn : Rank → List Lexeme → Bool
  | or, ls => (orOp? (ls.headD .eof)).isSome
  | and, ls => (andOp? (ls.headD .eof)).isSome
  | comparison, ls => (comparison? (ls.headD .eof) (ls.tail.headD .eof)).isSome
  | sum, ls => (sumOp? (ls.headD .eof)).isSome
  | product, ls => (productOp? (ls.headD .eof)).isSome
  | suffixed, ls => ls.headD .eof ∈ [Lexeme.symbol .lparen, .symbol .lbracket, .symbol .dot]
  | expr, _ | not, _ | signed, _ | primary, _ => false

/-- The parsers of the rank and of all tighter ones stop at these lexemes. -/
def Stops (r : Rank) (ls : List Lexeme) : Prop :=
  ∀ r' : Rank, r.level ≤ r'.level → r'.goesOn ls = false

/-- The rank of the operands of a loop over operators, or the rank itself where there is no loop. -/
def operand : Rank → Rank
  | or => and
  | and => not
  | sum => product
  | product => signed
  | suffixed => primary
  | r => r

def parser : Rank → Nested → Parse Expr
  | expr, d => d.expression
  | or, d => chain (chain (negationWith d) andOp?) orOp?
  | and, d => chain (negationWith d) andOp?
  | not, d => negationWith d
  | comparison, d => comparisonWith d
  | sum, d => chain (chain (signedWith d) productOp?) sumOp?
  | product, d => chain (signedWith d) productOp?
  | signed, d => signedWith d
  | suffixed, d => postfixed d
  | primary, d => MissionScript.primary d

/-- How the parser of the rank goes on from a tree of that rank. -/
def parserFrom : Rank → Nested → Nat → Expr → Parse Expr
  | or, d, bound, e => chainFrom (chain (negationWith d) andOp?) orOp? bound e
  | and, d, bound, e => chainFrom (negationWith d) andOp? bound e
  | sum, d, bound, e => chainFrom (chain (signedWith d) productOp?) sumOp? bound e
  | product, d, bound, e => chainFrom (signedWith d) productOp? bound e
  | suffixed, d, bound, e => postfixFrom d bound e
  | _, _, _, e => pure e

theorem Stops.mono {r r' : Rank} {ls : List Lexeme} (h : r.Stops ls) (hlevel : r.level ≤ r'.level) :
    r'.Stops ls := fun r'' hr => h r'' (Nat.le_trans hlevel hr)

theorem operand_level (r : Rank) : r.level ≤ r.operand.level := by
  cases r <;> decide

theorem stops_primary (ls : List Lexeme) : primary.Stops ls := by
  intro r h
  cases r <;> simp [level] at h
  rfl

/-- An operator is not taken by the parser of its operands. -/
theorem stops_lexemes (op : BinOp) (ls : List Lexeme) : op.rightRank.Stops (op.lexemes ++ ls) := by
  intro r h
  cases op <;> cases r <;> first | rfl | exact absurd h (by decide)

end Rank

/-- The lexemes after which no expression goes on. -/
def Lexeme.closing : Lexeme → Bool
  | symbol .comma | symbol .colon | symbol .rparen | symbol .rbracket | symbol .rbrace
  | symbol .eq | symbol .plusEq | symbol .minusEq | symbol .starEq
  | newline | indent | dedent | eof => true
  | _ => false

theorem Rank.stops_closing {l : Lexeme} (h : l.closing = true) (r : Rank) (ls : List Lexeme) :
    r.Stops (l :: ls) := by
  intro r' _
  unfold Lexeme.closing at h
  split at h <;> cases r' <;> first | rfl | cases h

/-- From where the lexemes `ls` are at hand, the parser of the rank comes to where they are taken
and goes on from the tree `e`. -/
def Leads (r : Rank) (n : Nat) (ls : List Lexeme) (e : Expr) : Prop :=
  e.height ≤ heightLimit → ∀ ⦃ls' rest : List Lexeme⦄ ⦃P : Expr → Prop⦄,
    r.operand.Stops (ls' ++ rest) →
    (∀ bound e', e'.bare = e → (ls' ++ rest).length ≤ bound →
      Reads (r.parserFrom (.levels n) bound e') ls' rest P) →
    Reads (r.parser (.levels n)) (ls ++ ls') rest P

section Leading

variable {lax : Bool} {r r' : Rank} {n : Nat} {ls ls' rest : List Lexeme} {e : Expr}

theorem parserFrom_stops {d : Nested} {bound : Nat} (h : r.Stops rest) :
    Reads (r.parserFrom d bound e) [] rest (· = e) := by
  have hgo := h r (Nat.le_refl _)
  have hchain : ∀ {operand op?}, op? (rest.headD .eof) = none →
      Reads (chainFrom operand op? bound e) [] rest (· = e) := by
    intro operand op? hop
    cases bound with
    | zero => exact reads_pure rfl
    | succ bound =>
      refine reads_peek ?_
      rw [List.nil_append, hop]
      exact reads_pure rfl
  cases r with
  | or | and | sum | product => exact hchain (by simpa [Rank.goesOn] using hgo)
  | suffixed =>
    cases bound with
    | zero => exact reads_pure rfl
    | succ bound =>
      refine reads_peek ?_
      simp only [List.nil_append]
      split
      · simp_all [Rank.goesOn]
      · simp_all [Rank.goesOn]
      · simp_all [Rank.goesOn]
      · exact reads_pure rfl
  | _ => exact reads_pure rfl

theorem Leads.reads (h : Leads r n ls e) (hheight : e.height ≤ heightLimit)
    (hstops : r.Stops rest) :
    Reads (r.parser (.levels n)) ls rest fun e' => e'.bare = e := by
  rw [← List.append_nil ls]
  refine h hheight (hstops.mono r.operand_level) fun bound e' he _ => ?_
  exact (parserFrom_stops hstops).mono fun _ h => h ▸ he

theorem Leads.of_height (h : e.height ≤ heightLimit → Leads r n ls e) : Leads r n ls e :=
  fun hheight => h hheight hheight

theorem leads_of_reads (hr : ∀ d bound e, r.parserFrom d bound e = pure e)
    (h : e.height ≤ heightLimit → ∀ rest, r.operand.Stops rest →
      Reads (r.parser (.levels n)) ls rest fun e' => e'.bare = e) : Leads r n ls e := by
  intro hheight ls' rest P hstops hfrom
  rw [← bind_pure (r.parser _)]
  refine (h hheight _ hstops).bind fun e' he => ?_
  rw [← hr (.levels n) (ls' ++ rest).length e']
  exact hfrom _ e' he (Nat.le_refl _)

theorem bounded_of_bare {e' : Expr} (he : e'.bare = e) (h : e.height ≤ heightLimit) :
    bounded e' = pure e' := by
  rw [← he, Expr.height_bare] at h
  exact if_pos h

/-- The parser of the rank is a loop over the operators of the rank. -/
structure Looped (r r' : Rank) (op? : Lexeme → Option BinOp) : Prop where
  operand : r.operand = r'
  parser (d : Nested) : r.parser d = chain (r'.parser d) op?
  parserFrom (d : Nested) (bound : Nat) (e : Expr) :
    r.parserFrom d bound e = chainFrom (r'.parser d) op? bound e
  finds (op : BinOp) : op.rank = r →
    op.leftRank = r ∧ op.rightRank = r' ∧ ∃ l, op.lexemes = [l] ∧ op? l = some op

theorem looped_or : Looped .or .and orOp? := by
  refine ⟨rfl, fun _ => rfl, fun _ _ _ => rfl, fun op hop => ?_⟩
  cases op <;> cases hop
  exact ⟨rfl, rfl, _, rfl, rfl⟩

theorem looped_and : Looped .and .not andOp? := by
  refine ⟨rfl, fun _ => rfl, fun _ _ _ => rfl, fun op hop => ?_⟩
  cases op <;> cases hop
  exact ⟨rfl, rfl, _, rfl, rfl⟩

theorem looped_sum : Looped .sum .product sumOp? := by
  refine ⟨rfl, fun _ => rfl, fun _ _ _ => rfl, fun op hop => ?_⟩
  cases op <;> cases hop <;> exact ⟨rfl, rfl, _, rfl, rfl⟩

theorem looped_product : Looped .product .signed productOp? := by
  refine ⟨rfl, fun _ => rfl, fun _ _ _ => rfl, fun op hop => ?_⟩
  cases op <;> cases hop <;> exact ⟨rfl, rfl, _, rfl, rfl⟩

namespace Looped

variable {op? : Lexeme → Option BinOp}

theorem next (hloop : Looped r r' op?) (h : Leads r' n ls e) : Leads r n ls e := by
  intro hheight ls' rest P hstops hfrom
  rw [hloop.parser]
  rw [hloop.operand] at hstops
  refine (h.reads hheight hstops).bind fun e' he => reads_remaining ?_
  rw [← hloop.parserFrom]
  exact hfrom _ e' he (by simp)

theorem binary (hloop : Looped r r' op?) {op : BinOp} {a b : Expr} (hop : op.rank = r)
    (ha : Leads op.leftRank n ls a) (hb : Leads op.rightRank n ls' b) :
    Leads r n (ls ++ (op.lexemes ++ ls')) (.fresh (.binary a op b default)) := by
  obtain ⟨hl, hr, l, hlexemes, hfound⟩ := hloop.finds op hop
  rw [hl] at ha
  rw [hr] at hb
  intro hheight ls'' rest P hstops hfrom
  have hheights : a.height ≤ heightLimit ∧ b.height ≤ heightLimit :=
    ⟨part_height_le hheight (.head _), part_height_le hheight (.tail _ (.head _))⟩
  have hstopsOp := Rank.stops_lexemes op (ls' ++ (ls'' ++ rest))
  rw [hr, ← hloop.operand, hlexemes] at hstopsOp
  rw [hlexemes, List.append_assoc, List.append_assoc, List.singleton_append]
  refine ha hheights.1 (by simpa using hstopsOp) fun bound left hleft hbound => ?_
  obtain ⟨bound, rfl⟩ : ∃ b, bound = b + 1 := Nat.exists_eq_add_one.mpr (by simp at hbound; omega)
  rw [hloop.parserFrom]
  refine reads_peek_cons ?_
  simp only [hfound]
  rw [hloop.operand] at hstops
  refine reads_take fun _ => (hb.reads hheights.2 hstops).bind fun right hright => ?_
  have hjoined : (joined left op right).bare = .fresh (.binary a op b default) := by
    rw [bare_joined, hleft, hright]
  rw [bounded_of_bare hjoined hheight, pure_bind, ← hloop.parserFrom]
  refine hfrom _ _ hjoined ?_
  simp only [List.length_append, List.length_cons] at hbound ⊢
  omega

end Looped

section Comparison

theorem reads_comparisonHere {α : Type} {P : α → Prop} {f : Option (BinOp × Nat) → Parse α}
    (h : Reads (f (comparison? ((ls ++ rest).headD .eof) ((ls ++ rest).tail.headD .eof))) ls
      rest P) :
    Reads (comparisonHere? >>= f) ls rest P := by
  intro r hr
  change ∃ a r', f (comparison? r.peek r.peekNext) r = _ ∧ _
  rw [Reader.peek_eq, Reader.peekNext_eq, hr]
  exact h hr

theorem comparison_lexemes {op : BinOp} (hop : op.rank = .comparison) (ls : List Lexeme) :
    comparison? ((op.lexemes ++ ls).headD .eof) ((op.lexemes ++ ls).tail.headD .eof) =
      some (op, op.lexemes.length) := by
  cases op <;> first | rfl | cases hop

theorem comparison_eq_none (h : Rank.comparison.Stops rest) :
    comparison? (rest.headD .eof) (rest.tail.headD .eof) = none := by
  simpa [Rank.goesOn] using h .comparison (Nat.le_refl _)

theorem leads_comparison_next (h : Leads .sum n ls e) : Leads .comparison n ls e := by
  refine leads_of_reads (fun _ _ _ => rfl) fun hheight rest hstops => ?_
  refine (h.reads hheight (hstops.mono (by decide))).last fun e' he => reads_comparisonHere ?_
  rw [List.nil_append, comparison_eq_none hstops]
  exact reads_pure he

/-- The right side of a comparison, after its operator. -/
def comparisonRight (n : Nat) (op : BinOp) (left : Expr) : Parse Expr := do
  let right ← chain (chain (signedWith (.levels n)) productOp?) sumOp?
  match ← comparisonHere? with
  | some _ => fail .chainedComparison
  | none => return joined left op right

theorem leads_comparison_binary {op : BinOp} {a b : Expr} (hop : op.rank = .comparison)
    (ha : Leads op.leftRank n ls a) (hb : Leads op.rightRank n ls' b) :
    Leads .comparison n (ls ++ (op.lexemes ++ ls')) (.fresh (.binary a op b default)) := by
  obtain ⟨hl, hr⟩ : op.leftRank = .sum ∧ op.rightRank = .sum := by
    cases op <;> first | exact ⟨rfl, rfl⟩ | cases hop
  refine leads_of_reads (fun _ _ _ => rfl) fun hheight rest hstops => ?_
  have hheights : a.height ≤ heightLimit ∧ b.height ≤ heightLimit :=
    ⟨part_height_le hheight (.head _), part_height_le hheight (.tail _ (.head _))⟩
  have hstopsOp := Rank.stops_lexemes op (ls' ++ rest)
  rw [hl] at ha
  rw [hr] at hb hstopsOp
  refine (ha.reads hheights.1 (by simpa using hstopsOp)).bind fun left hleft => ?_
  refine reads_comparisonHere ?_
  rw [List.append_assoc, comparison_lexemes hop]
  have hright : Reads (comparisonRight n op left) ls' rest
      fun e => e.bare = .fresh (.binary a op b default) := by
    refine (hb.reads hheights.2 (hstops.mono (by decide))).last fun right hright => ?_
    refine reads_comparisonHere ?_
    rw [List.nil_append, comparison_eq_none hstops]
    exact reads_pure (by rw [bare_joined, hleft, hright])
  cases op <;> first
    | exact reads_take fun _ => hright.else (by decide)
    | exact reads_take fun _ => (reads_take fun _ => hright).then rfl

end Comparison

section Prefixed

theorem leads_not_next (hstart : ∃ l ls', ls = l :: ls' ∧ Starts .comparison l)
    (h : Leads .comparison n ls e) : Leads .not n ls e := by
  refine leads_of_reads (fun _ _ _ => rfl) fun hheight rest hstops => ?_
  refine reads_peek (.else (h.reads hheight (hstops.mono (by decide))) ?_)
  obtain ⟨l, ls', rfl, hl⟩ := hstart
  rintro rfl
  rcases hl with hl | hl | ⟨op, hop, hl⟩
  · cases hl
  · simp at hl
  · cases op <;> first | exact absurd hop (by decide) | cases hl

theorem leads_signed_next (hstart : ∃ l ls', ls = l :: ls' ∧ Starts .suffixed l)
    (h : Leads .suffixed n ls e) : Leads .signed n ls e := by
  refine leads_of_reads (fun _ _ _ => rfl) fun hheight rest hstops => ?_
  have hsign : sign? ((ls ++ rest).headD .eof) = none := by
    obtain ⟨l, ls', rfl, hl | hl | ⟨op, hop, rfl⟩⟩ := hstart
    · obtain ⟨e, he⟩ := Lexeme.isSome_atom? hl
      cases he <;> rfl
    · simp only [List.mem_cons, List.not_mem_nil, or_false] at hl
      rcases hl with rfl | rfl | rfl <;> rfl
    · cases op <;> exact absurd hop (by decide)
  refine reads_peek ?_
  rw [hsign]
  exact h.reads hheight (hstops.mono (by decide))

theorem leads_unary (op : UnaryOp) (h : Leads op.rank n ls e) :
    Leads op.rank (n + 1) (op.lexeme :: ls) (.fresh (.unary op e default)) := by
  have hrank : ∀ d bound e', op.rank.parserFrom d bound e' = pure e' := by
    cases op <;> exact fun _ _ _ => rfl
  refine leads_of_reads hrank fun hheight rest hstops => ?_
  have hstops' : op.rank.Stops rest := by cases op <;> exact hstops
  have hread := h.reads (part_height_le hheight (.head _)) hstops'
  have hdone : ∀ {p : Parse Expr} {start : Span}, Reads p ls rest (·.bare = e) →
      Reads (do
        let operand ← p
        return Expr.new (.unary op operand default) (start.merge operand.span)) ls rest
      fun e' => e'.bare = .fresh (.unary op e default) := by
    intro p start hp
    refine hp.last fun operand hoperand => reads_pure ?_
    rw [Expr.bare_new, Expr.mapParts, hoperand]
  cases op with
  | not => exact reads_peek_cons (.then (reads_take fun _ => hdone hread) rfl)
  | neg | pos => exact reads_peek_cons (reads_take fun _ => hdone hread)

end Prefixed

section Bracketed

/-- The parser of a level of nesting reads the expression. -/
def ReadsAt (n : Nat) (p : Phrase Expr) : Prop := ∀ ⦃rest⦄, Rank.expr.Stops rest →
  Reads (Nested.levels n).expression p.1 rest fun e => e.bare = p.2

variable {p q : Phrase Expr} {close : Symbol}

/-- An expression that the parser of a level of nesting reads. -/
structure Inner (n : Nat) (p : Phrase Expr) : Prop where
  reads : ReadsAt n p
  measured : p.2.Measured
  starts : ∃ l ls, p.1 = l :: ls ∧ l.closing = false

theorem Inner.readable (h : Inner n p) (hclose : (Lexeme.symbol close).closing = true) :
    Readable (Nested.levels n).expression Expr.bare Prod.fst Prod.snd close p where
  starts := by
    obtain ⟨l, ls, hls, hl⟩ := h.starts
    exact ⟨l, ls, hls, fun hclosing => by simp [hclosing, hclose] at hl⟩
  reads rest hl := h.reads (by
    rcases hl with rfl | rfl
    · exact Rank.stops_closing rfl _ _
    · exact Rank.stops_closing hclose _ _)

theorem readable_entry (hp : Inner n p) (hq : Inner n q) :
    Readable (entry (.levels n)) (fun e => (e.1.bare, e.2.bare)) entryLexemes
      (fun e => (e.1.2, e.2.2)) .rbrace (p, q) where
  starts := by
    obtain ⟨l, ls, hls, hl⟩ := hp.starts
    refine ⟨l, _, by rw [entryLexemes, hls, List.cons_append], ?_⟩
    rintro rfl
    cases hl
  reads rest hl := by
    refine (hp.reads (Rank.stops_closing rfl _ _)).bind fun key hkey => ?_
    refine reads_expect fun _ => (hq.reads ?_).last fun value hvalue => ?_
    · rcases hl with rfl | rfl <;> exact Rank.stops_closing rfl _ _
    · exact reads_pure (by rw [hkey, hvalue])

theorem reads_args {args : List (Phrase Expr)} (trailing : Bool) (hargs : ∀ a ∈ args, Inner n a)
    (hclose : (Lexeme.symbol close).closing = true) (hcomma : close ≠ .comma) :
    Reads (enclosed (Nested.levels n).expression close)
      (listing trailing (args.map Prod.fst) ++ [.symbol close]) rest
      fun es => es.map Expr.bare = args.map (·.2) :=
  reads_enclosed hcomma trailing (fun a ha => (hargs a ha).readable hclose) rest

theorem leads_paren (h : Inner n p) :
    Leads .primary n (.symbol .lparen :: (p.1 ++ [.symbol .rparen])) p.2 := by
  refine leads_of_reads (fun _ _ _ => rfl) fun hheight rest hstops => reads_peek_cons ?_
  refine reads_take fun start => (h.reads (Rank.stops_closing rfl _ _)).bind fun e he => ?_
  refine reads_peek_cons (.else ?_ (by decide))
  refine reads_expect fun _ => reads_previous fun s => reads_pure ?_
  have hmeasured : e.bare.Measured := he ▸ h.measured
  rw [Expr.bare_new, ← hmeasured.of_bare.bare_eq_fresh, he]

theorem leads_list {items : List (Phrase Expr)} (trailing : Bool) (h : ∀ a ∈ items, Inner n a) :
    Leads .primary n
      (.symbol .lbracket :: (listing trailing (items.map (·.1)) ++ [.symbol .rbracket]))
      (.fresh (.list (items.map (·.2)) default)) := by
  refine leads_of_reads (fun _ _ _ => rfl) fun hheight rest hstops => reads_peek_cons ?_
  refine reads_take fun start => ?_
  refine (reads_args trailing h rfl (by decide)).last fun es hes => ?_
  exact reads_previous fun s => reads_pure (by rw [Expr.bare_new, Expr.mapParts, hes])

theorem leads_dict {entries : List (Phrase Expr × Phrase Expr)} (trailing : Bool)
    (hkeys : ∀ a ∈ entries, Inner n a.1) (hvalues : ∀ a ∈ entries, Inner n a.2) :
    Leads .primary n
      (.symbol .lbrace :: (listing trailing (entries.map entryLexemes) ++ [.symbol .rbrace]))
      (.fresh (.dict (entries.map fun a => (a.1.2, a.2.2)) default)) := by
  refine leads_of_reads (fun _ _ _ => rfl) fun hheight rest hstops => reads_peek_cons ?_
  refine reads_take fun start => ?_
  have hread := reads_enclosed (by decide) trailing
    (fun a ha => readable_entry (hkeys a ha) (hvalues a ha)) rest
  refine hread.last fun es hes => reads_previous fun s => reads_pure ?_
  rw [Expr.bare_new, Expr.mapParts, hes]

theorem leads_atom {l : Lexeme} (h : l.atom? = some e) :
    Leads .primary n [l] e := by
  refine leads_of_reads (fun _ _ _ => rfl) fun hheight rest hstops => reads_peek_cons ?_
  cases Lexeme.atom?_eq_some_iff.mp h <;> exact reads_take fun _ => reads_pure rfl

end Bracketed

section Suffixed

theorem leads_suffixed_next (h : Leads .primary n ls e) : Leads .suffixed n ls e := by
  intro hheight ls' rest P hstops hfrom
  refine (h.reads hheight hstops).bind fun e' he => reads_remaining ?_
  exact hfrom _ e' he (by simp)

/-- What is read after a value, by its first lexeme. -/
def suffixAt (d : Nested) (e : Expr) : Lexeme → Parse Expr
  | .symbol .lparen => callOf d e
  | .symbol .lbracket => take >>= fun _ => subscript d e
  | .symbol .dot => methodOf d e
  | _ => pure e

/-- What is read after a value gives a value to go on from. -/
theorem leads_suffix {object : Expr} {l : Lexeme} (h : Leads .suffixed n ls object)
    (hl : Rank.suffixed.goesOn [l] = true)
    (hheight : e.height ≤ heightLimit → object.height ≤ heightLimit)
    (hsuffix : e.height ≤ heightLimit → ∀ ⦃object' : Expr⦄ ⦃rest⦄, object'.bare = object →
      Reads (suffixAt (.levels n) object' l) (l :: ls') rest fun e' => e'.bare = e) :
    Leads .suffixed n (ls ++ (l :: ls')) e := by
  intro hlimit ls'' rest P hstops hfrom
  rw [List.append_assoc]
  refine h (hheight hlimit) (Rank.stops_primary _) fun bound object' hobject hbound => ?_
  obtain ⟨bound, rfl⟩ : ∃ b, bound = b + 1 := Nat.exists_eq_add_one.mpr (by simp at hbound; omega)
  have hnext : Reads (suffixAt (.levels n) object' l >>= fun e' => bounded e' >>=
      postfixFrom (.levels n) bound) (l :: (ls' ++ ls'')) rest P := by
    refine (hsuffix hlimit hobject).bind fun e' he => ?_
    rw [bounded_of_bare he hlimit, pure_bind]
    exact hfrom bound e' he (by simp at hbound ⊢; omega)
  refine reads_peek_cons ?_
  simp only [Rank.goesOn, List.headD_cons, List.mem_cons, List.not_mem_nil, or_false,
    decide_eq_true_eq] at hl
  rcases hl with rfl | rfl | rfl
  · exact hnext
  · exact hnext
  · exact hnext

theorem leads_call {f : String} {args : List (Phrase Expr)} (trailing : Bool)
    (h : Leads .suffixed n ls (.fresh (.name f default))) (hargs : ∀ a ∈ args, Inner n a) :
    Leads .suffixed n
      (ls ++ (.symbol .lparen :: (listing trailing (args.map (·.1)) ++ [.symbol .rparen])))
      (.fresh (.call ⟨f, default⟩ (args.map (·.2)) default)) := by
  refine leads_suffix h rfl (fun _ => Nat.le_of_ble_eq_true rfl)
    fun hheight object rest hobject => ?_
  obtain ⟨mark, rfl⟩ : ∃ mark, object = .name f mark := by
    cases object with
    | name s mark => exact ⟨mark, congrArg (Expr.name · mark) (Expr.name.inj hobject).1⟩
    | _ => cases hobject
  refine reads_take fun _ => ?_
  refine (reads_args trailing hargs rfl (by decide)).last fun es hes => ?_
  exact reads_previous fun s => reads_pure (by rw [Expr.bare_new, Expr.mapParts, hes])

theorem leads_method {object : Expr} {args : List (Phrase Expr)} (m : String) (trailing : Bool)
    (h : Leads .suffixed n ls object) (hargs : ∀ a ∈ args, Inner n a) :
    Leads .suffixed n
      (ls ++ (.symbol .dot :: .name m :: .symbol .lparen ::
        (listing trailing (args.map (·.1)) ++ [.symbol .rparen])))
      (.fresh (.method object ⟨m, default⟩ (args.map (·.2)) default)) := by
  refine leads_suffix h rfl (part_height_le · (.head _)) fun hheight object rest hobject => ?_
  refine reads_take fun _ => ?_
  refine reads_expectName _ fun m' hm => ?_
  refine reads_peek_cons (.then (reads_take fun _ => ?_) rfl)
  refine (reads_args trailing hargs rfl (by decide)).last fun es hes => ?_
  refine reads_previous fun s => reads_pure ?_
  rw [Expr.bare_new, Expr.mapParts, hes, hm, hobject]

theorem reads_unlessAt {stop : Symbol} {l : Lexeme} {part : Option (Phrase Expr)}
    (hpart : ∀ a ∈ part, Inner n a) (hl : l.closing = true)
    (hstop : (Lexeme.symbol stop).closing = true) (hnone : part = none → l = .symbol stop) :
    Reads (unlessAt stop (.levels n)) (Grammar.optional part) (l :: rest)
      fun e => e.map Expr.bare = part.map (·.2) := by
  cases part with
  | none =>
    obtain rfl := hnone rfl
    exact reads_peek (.then (reads_pure rfl) rfl)
  | some a =>
    have ha := hpart a rfl
    obtain ⟨l', ls, hls, hl'⟩ := ha.starts
    have hne : ((Grammar.optional (some a) ++ l :: rest).headD .eof) ≠ .symbol stop := by
      rintro h
      simp only [Grammar.optional, Option.map_some, Option.getD_some, hls, List.cons_append,
        List.headD_cons] at h
      simp [h, hstop] at hl'
    refine reads_peek (.else ?_ hne)
    refine (ha.reads (Rank.stops_closing hl _ _)).last fun e he => reads_pure ?_
    rw [Option.map_some, he, Option.map_some]

theorem leads_index {object : Expr} {i : Phrase Expr} (h : Leads .suffixed n ls object)
    (hi : Inner n i) :
    Leads .suffixed n (ls ++ (.symbol .lbracket :: (i.1 ++ [.symbol .rbracket])))
      (.fresh (.index object i.2 default)) := by
  refine leads_suffix h rfl (part_height_le · (.head _)) fun hheight object rest hobject => ?_
  refine reads_take fun _ => ?_
  have hstart : Reads (unlessAt .colon (.levels n)) i.1 (.symbol .rbracket :: rest)
      fun e => e.map Expr.bare = some i.2 :=
    @reads_unlessAt n rest .colon _ (some i) (by simpa using hi) rfl rfl nofun
  refine hstart.bind fun start hstart => ?_
  obtain ⟨i', rfl⟩ : ∃ i', start = some i' := by
    cases start with
    | none => cases hstart
    | some i' => exact ⟨i', rfl⟩
  refine reads_eat_of_ne (by simp) ?_
  refine reads_expect fun _ => reads_previous fun s => reads_pure ?_
  rw [Expr.bare_new, Expr.mapParts, hobject, Option.some.inj hstart]

theorem leads_slice {object : Expr} {start stop : Option (Phrase Expr)}
    (h : Leads .suffixed n ls object) (hstart : ∀ a ∈ start, Inner n a)
    (hstop : ∀ a ∈ stop, Inner n a) :
    Leads .suffixed n (ls ++ (.symbol .lbracket :: (Grammar.optional start ++ (.symbol .colon ::
        (Grammar.optional stop ++ [.symbol .rbracket])))))
      (.fresh (.slice object (start.map (·.2)) (stop.map (·.2)) default)) := by
  refine leads_suffix h rfl (part_height_le · (.head _)) fun hheight object rest hobject => ?_
  refine reads_take fun _ => ?_
  refine (reads_unlessAt hstart rfl rfl fun _ => rfl).bind fun i hi => ?_
  refine reads_eat ?_
  refine (reads_unlessAt hstop rfl rfl fun _ => rfl).bind fun j hj => ?_
  refine reads_expect fun _ => reads_previous fun s => reads_pure ?_
  rw [Expr.bare_new, Expr.mapParts, hobject, hi, hj]

end Suffixed

end Leading

theorem Grammar.Starts.not_closing {r : Rank} {l : Lexeme} (h : Starts r l) :
    l.closing = false := by
  rcases h with h | h | ⟨op, -, rfl⟩
  · unfold Lexeme.closing
    split <;> first | rfl | cases h
  · simp only [List.mem_cons, List.not_mem_nil, or_false] at h
    rcases h with rfl | rfl | rfl <;> rfl
  · cases op <;> rfl

theorem Grammar.Derives.inner {lax : Bool} {n : Nat} {p : Phrase Expr}
    (h : Derives lax .expr n p.1 p.2) (hleads : Leads .expr n p.1 p.2)
    (hheight : p.2.height ≤ heightLimit) : Inner n p where
  reads _ hstops := hleads.reads hheight hstops
  measured := h.measured
  starts := by
    obtain ⟨l, ls, hls, hl⟩ := h.starts
    exact ⟨l, ls, hls, hl.not_closing⟩

/-- The parser of a rank reads what is derived at the rank. -/
theorem Grammar.Derives.leads {lax : Bool} {r : Rank} {n : Nat} {ls : List Lexeme} {e : Expr}
    (h : Derives lax r n ls e) : Leads r n ls e := by
  induction h with
  | @expr n ls e h ih =>
    refine leads_of_reads (fun _ _ _ => rfl) fun hheight rest hstops => ?_
    refine (ih.reads hheight (hstops.mono (by decide))).last fun e' he => ?_
    rw [bounded_of_bare he hheight]
    exact reads_pure he
  | @next r r' n ls e hr h ih =>
    -- each rank has its own way to be done with an operand that no operator follows
    cases r <;> cases hr
    · exact looped_or.next ih
    · exact looped_and.next ih
    · exact leads_not_next h.starts ih
    · exact leads_comparison_next ih
    · exact looped_sum.next ih
    · exact looped_product.next ih
    · exact leads_signed_next h.starts ih
    · exact leads_suffixed_next ih
  | binary op ha hb iha ihb =>
    rcases hop : op.rank with _ | _ | _ | _ | _ | _ | _ | _ | _ | _
    case or => exact looped_or.binary hop iha ihb
    case and => exact looped_and.binary hop iha ihb
    case comparison => exact leads_comparison_binary hop iha ihb
    case sum => exact looped_sum.binary hop iha ihb
    case product => exact looped_product.binary hop iha ihb
    all_goals cases op <;> cases hop
  | unary op h ih => exact leads_unary op ih
  | call trailing h hname hargs ih ihargs =>
    refine .of_height fun hheight => leads_call trailing ih fun a ha => ?_
    exact (hargs a ha).inner (ihargs a ha) (part_height_le hheight (List.mem_map_of_mem ha))
  | method m trailing h hargs ih ihargs =>
    refine .of_height fun hheight => leads_method m trailing ih fun a ha => ?_
    have hheights := part_height_le hheight (.tail _ (List.mem_map_of_mem ha))
    exact (hargs a ha).inner (ihargs a ha) hheights
  | @index n ls ls' e i h hi ih ihi =>
    refine .of_height fun hheight => leads_index (i := (ls', i)) ih (hi.inner ihi ?_)
    exact part_height_le hheight (.tail _ (.head _))
  | slice h hstart hstop ih ihstart ihstop =>
    refine .of_height fun hheight => ?_
    obtain ⟨-, hstarts, hstops⟩ := Expr.forall_parts_slice.mp fun x => part_height_le hheight
    refine leads_slice ih (fun a ha => ?_) fun b hb => ?_
    · exact (hstart a ha).inner (ihstart a ha) (hstarts _ (Option.mem_map_of_mem _ ha))
    · exact (hstop b hb).inner (ihstop b hb) (hstops _ (Option.mem_map_of_mem _ hb))
  | atom h => exact leads_atom h
  | @paren n ls e h ih =>
    exact .of_height fun hheight => leads_paren (p := (ls, e)) (h.inner ih hheight)
  | list trailing h ih =>
    refine .of_height fun hheight => leads_list trailing fun a ha => ?_
    exact (h a ha).inner (ih a ha) (part_height_le hheight (List.mem_map_of_mem ha))
  | dict trailing hkeys hvalues ihkeys ihvalues =>
    refine .of_height fun hheight => ?_
    have hheights := Expr.forall_parts_dict.mp fun x => part_height_le hheight
    refine leads_dict trailing (fun a ha => ?_) fun a ha => ?_
    · exact (hkeys a ha).inner (ihkeys a ha) (hheights _ (List.mem_map_of_mem ha)).1
    · exact (hvalues a ha).inner (ihvalues a ha) (hheights _ (List.mem_map_of_mem ha)).2

/-- An expression within the limits is read where nothing stands that would go on with it. -/
theorem reads_expression {lax : Bool} {ls rest : List Lexeme} {e : Expr} (h : Expression lax ls e)
    (hstops : Rank.expr.Stops rest) : Reads expression ls rest fun e' => e'.bare = e :=
  h.derives.leads.reads h.height_le hstops

end MissionScript
