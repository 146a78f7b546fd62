import MissionScript.Proofs.Json.Takes

/-!
# Quoted texts are read back

A character inside quotes is written by a one-letter escape, by its code point if it is another
control character, or as it is; the reader turns each of them into the character again
(`takes_textBody_escapedChar`). So it takes what was written for a text and gives the text
(`takes_quote`), whatever the text is.
-/

namespace MissionScript.Json

/-- What follows `\u` where a control character is written. -/
def controlDigits (n : Nat) : List Char :=
  ['0', '0', Nat.digitChar (n / 16 % 16), Nat.digitChar (n % 16)]

theorem hexOf?_controlDigits : ∀ n < 32, hexOf? (controlDigits n) = some n := by decide

theorem utf8Size_controlDigits (n : Nat) : ∀ c ∈ controlDigits n, c.utf8Size = 1 := by
  have hdigit : ∀ m < 16, (Nat.digitChar m).utf8Size = 1 := by decide
  have hhigh := hdigit (n / 16 % 16) (Nat.mod_lt _ (by decide))
  have hlow := hdigit (n % 16) (Nat.mod_lt _ (by decide))
  have hzero : '0'.utf8Size = 1 := rfl
  simp [controlDigits, hzero, hhigh, hlow]

/-- The three ways to write a character. -/
theorem toList_escapedChar (c : Char) :
    (∃ x, x ≠ 'u' ∧ simpleEscape? x = some c ∧ (escapedChar c).toList = ['\\', x]) ∨
      (c.toNat < 32 ∧ (escapedChar c).toList = '\\' :: 'u' :: controlDigits c.toNat) ∨
      (c ≠ '\x22' ∧ c ≠ '\\' ∧ 32 ≤ c.toNat ∧ (escapedChar c).toList = [c]) := by
  by_cases hshort : c ∈ ['\x22', '\\', '\x08', '\x0c', '\n', '\r', '\t']
  · left
    simp only [List.mem_cons, List.not_mem_nil, or_false] at hshort
    rcases hshort with rfl | rfl | rfl | rfl | rfl | rfl | rfl
    · exact ⟨'\x22', by decide, rfl, by decide⟩
    · exact ⟨'\\', by decide, rfl, by decide⟩
    · exact ⟨'b', by decide, rfl, by decide⟩
    · exact ⟨'f', by decide, rfl, by decide⟩
    · exact ⟨'n', by decide, rfl, by decide⟩
    · exact ⟨'r', by decide, rfl, by decide⟩
    · exact ⟨'t', by decide, rfl, by decide⟩
  · right
    simp only [List.mem_cons, List.not_mem_nil, or_false, not_or] at hshort
    obtain ⟨hquote, hslash, hb, hf, hn, hr, ht⟩ := hshort
    by_cases hcontrol : c.toNat < 32
    · left
      refine ⟨hcontrol, ?_⟩
      simp [escapedChar, hquote, hslash, hb, hf, hn, hr, ht, hcontrol, twoHexDigits, controlDigits]
    · right
      refine ⟨hquote, hslash, Nat.not_lt.mp hcontrol, ?_⟩
      simp [escapedChar, hquote, hslash, hb, hf, hn, hr, ht, hcontrol]

theorem length_le_escapedChars (cs : List Char) : cs.length ≤ (escapedChars cs).length := by
  induction cs with
  | nil => exact Nat.zero_le _
  | cons c cs ih =>
    have hc : 1 ≤ (escapedChar c).toList.length := by
      rcases toList_escapedChar c with ⟨x, -, -, h⟩ | ⟨-, h⟩ | ⟨-, -, -, h⟩ <;> simp [h]
    simp only [escapedChars, List.flatMap_cons, List.length_append, List.length_cons] at ih ⊢
    omega

/-- Characters of one byte are passed over one by one. -/
theorem afterBytes_append {cs : List Char} (hcs : ∀ c ∈ cs, c.utf8Size = 1) (rest : List Char) :
    ∀ p : Pos, (afterBytes p cs.length (cs ++ rest)).2 = some rest := by
  induction cs with
  | nil => simp [afterBytes]
  | cons c cs ih =>
    intro p
    have hc : c.utf8Size = 1 := hcs c List.mem_cons_self
    simp only [List.length_cons, List.cons_append, afterBytes, hc, Nat.le_add_left, if_pos,
      Nat.add_sub_cancel]
    exact ih (fun d hd => hcs d (List.mem_cons_of_mem _ hd)) _

namespace Reading

variable {cs rest : List Char}

theorem takes_fourHexDigits {ds : List Char} {n : Nat} (hlength : ds.length = 4)
    (hsize : ∀ c ∈ ds, c.utf8Size = 1) (hn : hexOf? ds = some n) :
    Takes fourHexDigits ds rest n := by
  intro i hi
  obtain ⟨p, hp⟩ : ∃ p, afterBytes i.place 4 i.rest = (p, some rest) := by
    refine ⟨(afterBytes i.place 4 i.rest).1, Prod.ext rfl ?_⟩
    rw [hi, ← hlength]
    exact afterBytes_append hsize rest i.place
  have htake : i.rest.take 4 = ds := by rw [hi, ← hlength, List.take_left]
  refine ⟨⟨rest, p⟩, ?_, rfl⟩
  simp only [fourHexDigits, get_bind, hp, set_bind, htake, hn]
  rfl

theorem takes_escape_letter {x c : Char} (hu : x ≠ 'u') (hx : simpleEscape? x = some c) :
    Takes escape [x] rest c := by
  rw [escape]
  refine .bind_nil takes_peek ?_
  simp only [List.cons_append, List.head?_cons, hx]
  exact (takes_eat x).bind (.pure c)

theorem takes_escape_control {c : Char} (hc : c.toNat < 32) :
    Takes escape ('u' :: controlDigits c.toNat) rest c := by
  rw [escape]
  refine .bind_nil takes_peek ((takes_eat 'u').bind ?_)
  rw [codePointEscape]
  refine .bind_end (takes_fourHexDigits rfl (utf8Size_controlDigits _)
    (hexOf?_controlDigits _ hc)) ?_
  have htrailing : isTrailingSurrogate c.toNat = false := by
    rw [isTrailingSurrogate, Bool.and_eq_false_imp, decide_eq_true_eq]
    omega
  have hleading : isLeadingSurrogate c.toNat = false := by
    rw [isLeadingSurrogate, Bool.and_eq_false_imp, decide_eq_true_eq]
    omega
  rw [htrailing, if_neg Bool.false_ne_true, hleading, if_neg Bool.false_ne_true, Char.ofNat_toNat]
  exact .pure c

theorem takes_textBody_escape {c : Char} {es out : List Char} {bound : Nat} {s : String}
    (hescape : Takes escape es (cs ++ rest) c) (h : Takes (textBody (c :: out) bound) cs rest s) :
    Takes (textBody out (bound + 1)) ('\\' :: (es ++ cs)) rest s := by
  rw [textBody]
  exact .bind_nil takes_peek ((takes_eat '\\').bind (hescape.bind h))

/-- The reader turns what is written for a character into the character. -/
theorem takes_textBody_escapedChar {c : Char} {out : List Char} {bound : Nat} {s : String}
    (h : Takes (textBody (c :: out) bound) cs rest s) :
    Takes (textBody out (bound + 1)) ((escapedChar c).toList ++ cs) rest s := by
  rcases toList_escapedChar c with
    ⟨x, hu, hx, hc⟩ | ⟨hcontrol, hc⟩ | ⟨hquote, hslash, hcontrol, hc⟩
  · rw [hc]
    exact takes_textBody_escape (takes_escape_letter hu hx) h
  · rw [hc]
    exact takes_textBody_escape (takes_escape_control hcontrol) h
  · rw [hc, textBody]
    refine .bind_nil takes_peek ?_
    simp only [List.cons_append, List.head?_cons, Nat.not_lt.mpr hcontrol, ↓reduceIte]
    exact (takes_eat c).bind h

theorem takes_textBody : ∀ (cs out : List Char) (bound : Nat), cs.length < bound →
    Takes (textBody out bound) (escapedChars cs ++ ['\x22']) rest
      (String.ofList (out.reverse ++ cs))
  | [], out, bound + 1, _ => by
    rw [textBody, List.append_nil]
    exact .bind_nil takes_peek ((takes_eat '\x22').bind (.pure _))
  | c :: cs, out, bound + 1, hbound => by
    have h := takes_textBody cs (c :: out) bound (Nat.lt_of_succ_lt_succ hbound)
    rw [List.reverse_cons, List.append_assoc] at h
    rw [escapedChars, List.flatMap_cons, List.append_assoc]
    exact takes_textBody_escapedChar h

/-- A text is read back from what is written for it. -/
theorem takes_quote (s : String) : Takes quote (quotedChars s) rest s := by
  rw [quote]
  refine (takes_eat '\x22').bind (.bind_nil takes_remaining ?_)
  have hbound : s.toList.length < (escapedChars s.toList ++ ['\x22'] ++ rest).length + 1 := by
    have := length_le_escapedChars s.toList
    simp only [List.length_append]
    omega
  have h : Takes (textBody [] _) _ rest _ := takes_textBody s.toList [] _ hbound
  rwa [List.reverse_nil, List.nil_append, String.ofList_toList] at h

end Reading

end MissionScript.Json
