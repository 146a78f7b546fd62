import MissionScript.Proofs.Script.Abreast

/-!
# Lines without words

A line of space, with or without a comment, can be put in between the lines of a text, in front of
the first one and behind the last, at the start of a block as well as between brackets: the text
has tokens afterwards if it had before, and the same ones, those of the lines behind in a line
further down. A fault stays the same fault (`SourceText.tokens_blank`).
-/

namespace MissionScript

/-- The same lexeme. A word in front of the place `p` stays where it is, and any other word is one
line further down. -/
structure Token.Lowered (p : Pos) (t t' : Token) : Prop where
  lexeme : t'.lexeme = t.lexeme
  above : t.lexeme.isLayout = false → t.span.start.Before p → t'.span = t.span
  behind : t.lexeme.isLayout = false → ¬t.span.start.Before p → t'.span = t.span.below 1

theorem Span.below_zero (s : Span) : s.below 0 = s := rfl

theorem Pos.foldl_past_line (cs : List Char) (p : Pos) :
    (cs.foldl past p).line = p.line + cs.count '\n' := by
  induction cs generalizing p with
  | nil => rfl
  | cons x xs ih =>
    rw [List.foldl_cons, ih, past]
    split
    · rename_i hx
      rw [hx, List.count_cons_self, Nat.add_assoc, Nat.add_comm 1]
    · rename_i hx
      rw [List.count_cons_of_ne hx]

/-- Whole lines end in the first column. -/
theorem Pos.after_newline (cs : List Char) :
    Pos.after (cs ++ ['\n']) = ⟨1 + cs.count '\n' + 1, 1⟩ := by
  rw [after_concat, past, if_pos rfl, after, foldl_past_line]

section Moving

variable {a : List Char}

/-- How far line `k` is moved where a line is put in between at the place `p`. -/
def oneFrom (p : Pos) (k : Nat) : Nat := if k < p.line then 0 else 1

/-- A blank line behind whole lines. -/
theorem Relaid.blankBehind {w t : List Char} (hw : Wordless w)
    (ha : a = [] ∨ ∃ cs, a = cs ++ ['\n']) :
    Relaid (oneFrom (Pos.after a)) 1 0 (a ++ t) (a ++ (w ++ '\n' :: t)) := by
  rcases ha with rfl | ⟨cs, rfl⟩
  · exact .blank hw (.refl fun k hk => if_neg (Nat.not_lt_of_le hk))
  · rw [Pos.after_newline, List.append_assoc, List.append_assoc]
    have hbehind : Relaid (oneFrom ⟨1 + cs.count '\n' + 1, 1⟩) (1 + cs.count '\n' + 1) 1 t t :=
      .refl fun k hk => if_neg (Nat.not_lt_of_le hk)
    exact .behind cs (fun k _ hk => if_pos (Nat.lt_succ_of_le hk)) (.blank hw hbehind)

theorem Token.Moved.lowered {p : Pos} (hp : p.col = 1) {t t' : Token} (ht : 1 ≤ t.span.start.col)
    (h : t.Moved (oneFrom p) t') : t.Lowered p t' := by
  refine ⟨h.lexeme, fun hword hbefore => ?_, fun hword hbehind => ?_⟩
  · have hline : t.span.line < p.line := by
      rcases hbefore with hline | ⟨-, hcol⟩
      · exact hline
      · rw [hp] at hcol
        omega
    rw [h.span hword, oneFrom, if_pos hline, Span.below_zero]
  · have hline : ¬t.span.line < p.line := fun hline => hbehind (.inl hline)
    rw [h.span hword, oneFrom, if_neg hline]

end Moving

/-- A line without words is invisible, wherever it is put in between the lines of a text. -/
theorem SourceText.tokens_blank {a b l : String} (name : String)
    (ha : a = "" ∨ ∃ above, a = above ++ "\n") (hl : ∃ w, Wordless w ∧ l.toList = w ++ ['\n']) :
    Alike (fun d d' : Diagnostic => d'.code = d.code ∧ d'.message = d.message)
      (List.Forall₂ (Token.Lowered (Pos.after a.toList)))
      (SourceText.tokens ⟨name, a ++ b⟩) (SourceText.tokens ⟨name, a ++ l ++ b⟩) := by
  obtain ⟨w, hw, hl⟩ := hl
  have ha' : a.toList = [] ∨ ∃ cs, a.toList = cs ++ ['\n'] := by
    rcases ha with rfl | ⟨above, rfl⟩
    · exact .inl rfl
    · exact .inr ⟨above.toList, String.toList_append⟩
  have hcol : (Pos.after a.toList).col = 1 := by
    rcases ha' with ha' | ⟨cs, ha'⟩ <;> rw [ha']
    · rfl
    · rw [Pos.after_newline]
  have hrelaid :
      Relaid (oneFrom (Pos.after a.toList)) 1 0 (a ++ b).toList (a ++ l ++ b).toList := by
    have h := Relaid.blankBehind (t := b.toList) hw ha'
    simpa [String.toList_append, hl] using h
  refine tokens_relaid hrelaid (fun e e' he => ?_) fun t t' ht hmoved => ?_
  · simp only [LexError.diagnostic, Diagnostic.within, he.fault, and_self]
  · exact hmoved.lowered hcol ht.placed.start.one_le.2

/-- A comment between brackets, in front of a line in which one of them is closed. -/
theorem SourceText.tokens_blank_bracket :
    Alike (fun d d' : Diagnostic => d'.code = d.code ∧ d'.message = d.message)
      (List.Forall₂ (Token.Lowered ⟨2, 1⟩))
      (SourceText.tokens ⟨defaultScriptName, "x = (1 +\n" ++ "2)\n"⟩)
      (SourceText.tokens ⟨defaultScriptName, "x = (1 +\n" ++ " \t# one\r\n" ++ "2)\n"⟩) :=
  SourceText.tokens_blank defaultScriptName (.inr ⟨"x = (1 +", rfl⟩)
    ⟨[' ', '\t', '#', ' ', 'o', 'n', 'e', '\r'],
      .space rfl (.space rfl (.comment (by decide))), rfl⟩

end MissionScript
