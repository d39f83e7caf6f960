import ProtoLisp.Node.Text
import ProtoLisp.Proofs.Completability
import ProtoLisp.Proofs.DecimalText

/-!
# Reading what was written

The expressions of a source can be written, and what is written can be read again.  Comments, the
kind of the brackets and the exponents of numbers are lost on the way; all else comes back, and a
number comes back with the zeros that its exponent stands for.  From then on nothing changes.

The text of an expression is read in the same way wherever it stands, if no word goes on behind it;
`ReadsAs` says so, and is built up along the expression.
-/

namespace ProtoLisp

/-! ### Blanks end words -/

theorem not_isBlank_of_isDigit {c : Char} (hdigit : isDigit c = true) :
    ¬ Text.isBlank c = true := by
  simp only [isDigit, Bool.and_eq_true, decide_eq_true_eq, Char.le_def, UInt32.le_iff_toNat_le]
    at hdigit
  have hlow : 48 ≤ c.toNat := hdigit.1
  have hhigh : c.toNat ≤ 57 := hdigit.2
  have hspace : c ≠ ' ' := by
    rintro rfl
    exact absurd hlow (by decide)
  have hascii : c.toNat < 128 := by omega
  simp only [Text.isBlank, hascii, if_true, Bool.or_eq_true, beq_iff_eq, hspace, false_or,
    Bool.and_eq_true, decide_eq_true_eq]
  omega

theorem disjoint_letterRanges : ∀ letters ∈ Text.letterRanges, ∀ blanks ∈ Text.blankRanges,
    letters.2 < blanks.1 ∨ blanks.2 < letters.1 := by
  decide +kernel

theorem isLetter_eq_false_of_isBlank {c : Char} (hblank : Text.isBlank c = true) :
    Text.isLetter c = false := by
  by_cases hascii : c.toNat < 128
  · have hsmall : c.toNat ≤ 32 := by
      simp only [Text.isBlank, hascii, if_true, Bool.or_eq_true, beq_iff_eq, Bool.and_eq_true,
        decide_eq_true_eq] at hblank
      rcases hblank with rfl | hrange
      · decide
      · omega
    have hbelow {code : UInt32} (hcode : 32 < code.toNat) : ¬ code ≤ c.val := by
      rw [UInt32.le_iff_toNat_le]
      exact Nat.not_le.mpr (Nat.lt_of_le_of_lt hsmall hcode)
    have hupper : ¬ 65 ≤ c.val := hbelow (by decide)
    have hlower : ¬ 97 ≤ c.val := hbelow (by decide)
    simp [Text.isLetter_of_isAlpha hascii, Char.isAlpha, Char.isUpper, Char.isLower, hupper, hlower]
  · simp only [Text.isBlank, Text.isLetter, hascii, if_false] at hblank ⊢
    rw [← Bool.not_eq_true, Text.Ranges.holds_iff]
    rintro ⟨letters, hletters, hfirst, hlast⟩
    obtain ⟨blanks, hblanks, hfirst', hlast'⟩ := Text.Ranges.holds_iff.mp hblank
    have := disjoint_letterRanges letters hletters blanks hblanks
    omega

theorem isWord_eq_false_of_isBlank {c : Char} (hblank : Text.isBlank c = true) :
    isWord c = false := by
  have hdigit : isDigit c = false := by
    rw [← Bool.not_eq_true]
    exact fun hdigit => not_isBlank_of_isDigit hdigit hblank
  have hsign : c ∉ wordSigns := by
    have hsigns : wordSigns.all (!Text.isBlank ·) = true := by decide
    intro hmem
    have hnot := List.all_eq_true.mp hsigns c hmem
    simp [hblank] at hnot
  simp [isWord, isLetter_eq_false_of_isBlank hblank, hdigit, hsign]

/-! ### Texts that are one word -/

/-- A token of this kind is no word of the text. -/
def Kind.isReport : Kind → Bool
  | .eof | .error | .invalid => true
  | _ => false

theorem Kind.isReport_iff {kind : Kind} :
    kind.isReport = true ↔ kind = .eof ∨ kind = .error ∨ kind = .invalid := by
  cases kind <;> simp [isReport]

/-- The characters, with nothing behind them, are a token of this kind. -/
def Kind.Spelled (kind : Kind) (cs : List Char) : Prop :=
  ∃ c rest, cs = c :: rest ∧ ¬ Text.isBlank c = true ∧ Lexeme.ofChars c rest = .word kind cs

theorem Numeral.spelled_chars (numeral : Numeral) : Kind.number.Spelled numeral.chars := by
  have hcons {c : Char} {cs : List Char} (hchars : numeral.chars = c :: cs)
      (hblank : ¬ Text.isBlank c = true) : Kind.number.Spelled numeral.chars :=
    ⟨c, cs, hchars, hblank, hchars ▸ Lexeme.ofChars_numeral numeral hchars⟩
  obtain ⟨sign, whole, places, exponent⟩ := numeral
  cases sign with
  | plus => exact hcons rfl (by decide)
  | minus => exact hcons rfl (by decide)
  | none =>
      obtain ⟨c, cs, hchars, hdigit, -⟩ := whole.exists_cons
      have hfirst : Numeral.chars ⟨.none, whole, places, exponent⟩ =
          c :: (cs ++ (pointChars places ++ exponentChars exponent)) := by
        rw [Numeral.chars, hchars]
        rfl
      exact hcons hfirst (not_isBlank_of_isDigit hdigit)

theorem startsWith_takeWhile {p q : Char → Bool} (hpq : ∀ c, p c = true → q c = true)
    (cs : List Char) : startsWith p (cs.takeWhile q) = startsWith p cs := by
  cases cs with
  | nil => rfl
  | cons c cs =>
      cases hq : q c with
      | true => simp [startsWith, hq]
      | false =>
          have hp : p c = false := by
            cases hp : p c with
            | false => rfl
            | true => rw [hpq c hp] at hq; cases hq
          simp [startsWith, hq, hp]

theorem isWord_of_isDigit {c : Char} (hdigit : isDigit c = true) : isWord c = true := by
  simp [isWord, hdigit]

namespace Lexeme

theorem number_ne_word {c : Char} {cs run : List Char} {kind : Kind} (hkind : kind ≠ .number) :
    number c cs ≠ .word kind run := by
  intro hword
  rcases isNumeric_fraction (c :: cs.takeWhile isDigit) (cs.dropWhile isDigit) with
    ⟨run', hnumber⟩ | ⟨shown, run', hbad⟩
  · cases hnumber.symm.trans hword
    exact hkind rfl
  · cases hbad.symm.trans hword

theorem ofChars_eq_symbol_iff {c : Char} {cs run : List Char} :
    ofChars c cs = .word .symbol run ↔
      (c ≠ '(' ∧ c ≠ ')' ∧ c ≠ '[' ∧ c ≠ ']' ∧ c ≠ ';' ∧ c ≠ ':') ∧
        (isDigit c || (isSign c && startsWith isDigit cs)) = false ∧ isWordStart c = true ∧
        run = c :: cs.takeWhile isWord := by
  constructor
  · intro hlexeme
    unfold ofChars at hlexeme
    repeat' split at hlexeme
    · cases hlexeme
    · cases hlexeme
    · cases hlexeme
    · cases hlexeme
    · cases hlexeme
    · cases hlexeme
    · cases hlexeme
    · exact absurd hlexeme (number_ne_word nofun)
    · rename_i h1 h2 h3 h4 h5 h6 hnumber hstart
      cases hlexeme
      exact ⟨⟨h1, h2, h3, h4, h5, h6⟩, Bool.not_eq_true _ ▸ hnumber, hstart, rfl⟩
    · cases hlexeme
  · rintro ⟨⟨h1, h2, h3, h4, h5, h6⟩, hnumber, hstart, rfl⟩
    simp only [ofChars, h1, h2, h3, h4, h5, h6, if_false, hnumber, Bool.false_eq_true, hstart,
      if_true]

theorem ofChars_eq_atom_iff {c : Char} {cs run : List Char} :
    ofChars c cs = .word .atom run ↔
      c = ':' ∧ startsWith isWord cs = true ∧ run = c :: cs.takeWhile isWord := by
  constructor
  · intro hlexeme
    unfold ofChars at hlexeme
    repeat' split at hlexeme
    · cases hlexeme
    · cases hlexeme
    · cases hlexeme
    · cases hlexeme
    · cases hlexeme
    · rename_i hcolon hstarts
      cases hlexeme
      exact ⟨hcolon, hstarts, rfl⟩
    · cases hlexeme
    · exact absurd hlexeme (number_ne_word nofun)
    · cases hlexeme
    · cases hlexeme
  · rintro ⟨rfl, hstarts, rfl⟩
    simp [ofChars, hstarts]

theorem spelled_symbol {c : Char} {cs run : List Char} (hblank : ¬ Text.isBlank c = true)
    (hlexeme : ofChars c cs = .word .symbol run) : Kind.symbol.Spelled run := by
  obtain ⟨hplain, hnumber, hstart, rfl⟩ := ofChars_eq_symbol_iff.mp hlexeme
  refine ⟨c, cs.takeWhile isWord, rfl, hblank, ofChars_eq_symbol_iff.mpr ?_⟩
  rw [startsWith_takeWhile fun _ => isWord_of_isDigit, List.takeWhile_takeWhile]
  simp [hplain, hnumber, hstart]

theorem spelled_atom {c : Char} {cs run : List Char} (hblank : ¬ Text.isBlank c = true)
    (hlexeme : ofChars c cs = .word .atom run) : Kind.atom.Spelled run := by
  obtain ⟨hcolon, hstarts, rfl⟩ := ofChars_eq_atom_iff.mp hlexeme
  refine ⟨c, cs.takeWhile isWord, rfl, hblank, ofChars_eq_atom_iff.mpr ?_⟩
  rw [startsWith_takeWhile fun _ => id, List.takeWhile_takeWhile]
  simp [hcolon, hstarts]

theorem ofChars_comment (cs : List Char) :
    ofChars ';' cs = .word .comment (';' :: cs.takeWhile (· != '\n')) := rfl

/-- A word is the same without what stands behind it. -/
theorem spelled_of_ofChars {c : Char} {cs run : List Char} {kind : Kind}
    (hblank : ¬ Text.isBlank c = true) (hlexeme : ofChars c cs = .word kind run) :
    kind.Spelled run := by
  have hdelimiter {kind : Kind} (halone : ofChars c [] = .word kind [c]) : kind.Spelled [c] :=
    ⟨c, [], rfl, hblank, halone⟩
  have hword := hlexeme
  unfold ofChars at hword
  repeat' split at hword
  · rename_i hc
    cases hword
    exact hdelimiter (hc ▸ rfl)
  · rename_i hc
    cases hword
    exact hdelimiter (hc ▸ rfl)
  · rename_i hc
    cases hword
    exact hdelimiter (hc ▸ rfl)
  · rename_i hc
    cases hword
    exact hdelimiter (hc ▸ rfl)
  · rename_i hc
    cases hword
    refine ⟨c, cs.takeWhile (· != '\n'), rfl, hblank, ?_⟩
    rw [hc, ofChars_comment, List.takeWhile_takeWhile]
    simp only [and_self, Bool.decide_eq_true]
  · cases hword
    exact spelled_atom hblank hlexeme
  · cases hword
  · by_cases hkind : kind = .number
    · subst hkind
      obtain ⟨numeral, rfl⟩ := exists_numeral_of_ofChars hlexeme
      exact numeral.spelled_chars
    · exact absurd hword (number_ne_word hkind)
  · cases hword
    exact spelled_symbol hblank hlexeme
  · cases hword

end Lexeme

/-- Every word that a lexer finds is one by itself. -/
theorem Stream.spelled_of_mem {lexer : Lexer} {token : Token}
    (hmem : token ∈ (ofLexer lexer).tokens) (hkind : token.kind.isReport = false) :
    token.kind.Spelled token.text.toList := by
  obtain ⟨c, cs, hblank, hlexeme, htext⟩ := exists_lexeme_of_mem hmem
  rw [hlexeme] at hkind
  generalize hword : Lexeme.ofChars c cs = lexeme at hkind hlexeme htext
  cases lexeme with
  | word kind run =>
      have hspelled : kind.Spelled run := Lexeme.spelled_of_ofChars hblank hword
      have hrun : token.text = String.ofList run := htext
      rw [hlexeme, hrun, String.toList_ofList]
      exact hspelled
  | malformed text run => cases hkind
  | strange c => cases hkind

/-! ### What is read can be written and read -/

/-- An expression in which every name is a word, and no call of the empty name has a variable as its
first element. -/
inductive Node.Legible : Node → Prop
  | number (value : Decimal) : Legible (.number value)
  | atom {name : String} (hname : Kind.atom.Spelled (':' :: name.toList)) : Legible (.atom name)
  | symbol {name : String} (hname : Kind.symbol.Spelled name.toList) : Legible (.variable name)
  | call {name : String} {args : List Node} (hname : Kind.symbol.Spelled name.toList)
      (hargs : ∀ arg ∈ args, Legible arg) : Legible (.call name args)
  | group {items : List Node} (hfirst : ∀ name args, items ≠ .variable name :: args)
      (hitems : ∀ item ∈ items, Legible item) : Legible (.call "" items)

theorem Node.legible_ofItems {items : List Node} (hitems : ∀ item ∈ items, item.Legible) :
    (ofItems items).Legible := by
  unfold ofItems
  split
  · rename_i name args
    cases hitems (.variable name) List.mem_cons_self with
    | symbol hname => exact .call hname fun arg hmem => hitems arg (List.mem_cons_of_mem _ hmem)
  · rename_i hfirst
    exact .group hfirst hitems

theorem Token.legible_of_literal? {token : Token} {node : Node}
    (hspelled : token.kind = .symbol ∨ token.kind = .atom → token.kind.Spelled token.text.toList)
    (hnode : token.literal? = some node) : node.Legible := by
  unfold Token.literal? at hnode
  split at hnode
  · obtain ⟨value, -, rfl⟩ := Option.map_eq_some_iff.mp hnode
    exact .number value
  · rename_i hkind
    cases hnode
    rw [hkind] at hspelled
    have hatom := hspelled (.inr rfl)
    obtain ⟨c, rest, htext, hblank, hlexeme⟩ := hatom
    obtain ⟨rfl, -, -⟩ := Lexeme.ofChars_eq_atom_iff.mp hlexeme
    refine .atom ⟨':', rest, ?_, hblank, ?_⟩
    · simp [htext]
    · simpa [htext] using hlexeme
  · rename_i hkind
    cases hnode
    rw [hkind] at hspelled
    exact .symbol (hspelled (.inl rfl))
  · cases hnode

namespace Reading

/-- All that has been read can be written and read. -/
structure Legible (reading : Reading) : Prop where
  done : ∀ node ∈ reading.done, node.Legible
  lists : ∀ list ∈ reading.lists, ∀ node ∈ list.items, node.Legible

theorem Legible.put {reading : Reading} (hreading : reading.Legible) {node : Node}
    (hnode : node.Legible) : (reading.put node).Legible := by
  obtain ⟨done, lists⟩ := reading
  obtain ⟨hdone, hlists⟩ := hreading
  cases lists with
  | nil => exact ⟨List.forall_mem_cons.mpr ⟨hnode, hdone⟩, hlists⟩
  | cons list lists =>
      obtain ⟨hlist, hlists⟩ := List.forall_mem_cons.mp hlists
      exact ⟨hdone, List.forall_mem_cons.mpr ⟨List.forall_mem_cons.mpr ⟨hnode, hlist⟩, hlists⟩⟩

theorem Legible.advance {reading next : Reading} {token : Token} (hreading : reading.Legible)
    (hspelled : token.kind = .symbol ∨ token.kind = .atom → token.kind.Spelled token.text.toList)
    (hadvance : reading.Advance token next) : next.Legible := by
  cases hadvance with
  | literal hnode => exact hreading.put (Token.legible_of_literal? hspelled hnode)
  | comment hkind => exact hreading
  | opening hkind => exact ⟨hreading.done, List.forall_mem_cons.mpr ⟨by simp, hreading.lists⟩⟩
  | @closing delimiter list lists hkind hlists hopener =>
      have hopened := hreading.lists
      rw [hlists] at hopened
      obtain ⟨hlist, houter⟩ := List.forall_mem_cons.mp hopened
      have hitems : ∀ item ∈ list.items.reverse, item.Legible :=
        fun item hmem => hlist item (List.mem_reverse.mp hmem)
      have hinner : Legible ⟨reading.done, lists⟩ := ⟨hreading.done, houter⟩
      exact hinner.put (Node.legible_ofItems hitems)

theorem legible_readAll {tokens : List Token} {last : Reading}
    (hspelled : ∀ token ∈ tokens, token.kind = .symbol ∨ token.kind = .atom →
      token.kind.Spelled token.text.toList)
    (hreads : start.readAll tokens = .ok last) : last.Legible := by
  let P (consumed : List Token) (reading : Reading) : Prop :=
    (∀ token ∈ consumed, token.kind = .symbol ∨ token.kind = .atom →
      token.kind.Spelled token.text.toList) → reading.Legible
  have hstart : P [] start := fun _ => ⟨nofun, nofun⟩
  refine invariant_readAll (P := P) ?_ hstart hreads hspelled
  intro consumed reading token next hconsumed hadvance hspelled
  have hreading := hconsumed fun token hmem => hspelled token (List.mem_append_left _ hmem)
  exact hreading.advance (hspelled token (by simp)) hadvance

end Reading

theorem legible_of_readProgram {source : Source} {nodes : List Node}
    (hreads : readProgram source = .ok nodes) : ∀ node ∈ nodes, node.Legible := by
  rw [readProgram_eq_program, Stream.program_eq_ok_iff] at hreads
  obtain ⟨done, hreads, -, rfl⟩ := hreads
  have hspelled : ∀ token ∈ (Stream.ofSource source).tokens,
      token.kind = .symbol ∨ token.kind = .atom → token.kind.Spelled token.text.toList := by
    intro token hmem hkind
    apply Stream.spelled_of_mem hmem
    rcases hkind with hkind | hkind
    · rw [hkind]
      rfl
    · rw [hkind]
      rfl
  have hlegible := Reading.legible_readAll hspelled hreads
  intro node hmem
  exact hlegible.done node (List.mem_reverse.mp hmem)

/-! ### Texts and what they are read as -/

/-- The stream with more tokens in front. -/
def Stream.prepend (tokens : List Token) (stream : Stream) : Stream :=
  { stream with tokens := tokens ++ stream.tokens }

/-- A word is the same in front of a text that does not start with a character of a word. -/
theorem Kind.Spelled.exists_ofChars {kind : Kind} {cs rest : List Char} (hspelled : kind.Spelled cs)
    (hkind : kind ≠ .comment) (hrest : startsWith isWord rest = false) :
    ∃ c others, cs = c :: others ∧ ¬ Text.isBlank c = true ∧
      Lexeme.ofChars c (others ++ rest) = .word kind cs := by
  obtain ⟨c, others, rfl, hblank, hlexeme⟩ := hspelled
  have hcomment : c ≠ ';' := by
    rintro rfl
    exact hkind (congrArg Lexeme.kind hlexeme).symm
  refine ⟨c, others, rfl, hblank, ?_⟩
  rw [← hlexeme]
  cases rest with
  | nil => rw [List.append_nil]
  | cons stop rest =>
      have hstop : isWord stop = false := hrest
      exact Lexeme.ofChars_append_stop hstop hcomment others rest

theorem Stream.along_spelled {kind : Kind} {cs : List Char} (hspelled : kind.Spelled cs)
    (hkind : kind ≠ .comment) {rest : List Char} (hrest : startsWith isWord rest = false)
    (file : String) (here : Mark) :
    along file none here (cs ++ rest) =
      (along file none (here.afterAll cs) rest).prepend
        [⟨kind, String.ofList cs, here.inFile file⟩] := by
  obtain ⟨c, others, rfl, hblank, hlexeme⟩ := hspelled.exists_ofChars hkind hrest
  rw [List.cons_append, along_lexeme file none here hblank, hlexeme]
  have hdrop : (c :: (others ++ rest)).drop (c :: others).length = rest := by simp
  simp only [Lexeme.isLast, Lexeme.run, hdrop]
  rfl

/-- Wherever the text stands, if no word goes on behind it, its tokens are read as the expressions
`nodes`. -/
def ReadsAs (cs : List Char) (nodes : List Node) : Prop :=
  ∀ (file : String) (here : Mark) (rest : List Char), startsWith isWord rest = false →
    ∃ tokens, Stream.along file none here (cs ++ rest) =
        (Stream.along file none (here.afterAll cs) rest).prepend tokens ∧
      ∀ reading : Reading, reading.readAll tokens = .ok (reading.putAll nodes)

namespace ReadsAs

variable {cs cs' : List Char} {nodes nodes' : List Node}

theorem nil : ReadsAs [] [] := fun _ _ _ _ => ⟨[], rfl, fun _ => rfl⟩

theorem blank (hreads : ReadsAs cs nodes) {c : Char} (hblank : Text.isBlank c = true) :
    ReadsAs (c :: cs) nodes := by
  intro file here rest hrest
  obtain ⟨tokens, htokens, hnodes⟩ := hreads file (here.after c) rest hrest
  refine ⟨tokens, ?_, hnodes⟩
  rw [List.cons_append, Stream.along_blank file none here hblank, htokens]
  rfl

theorem blanks (hreads : ReadsAs cs nodes) {gap : List Char}
    (hgap : ∀ c ∈ gap, Text.isBlank c = true) : ReadsAs (gap ++ cs) nodes := by
  induction gap with
  | nil => exact hreads
  | cons c gap ih =>
      obtain ⟨hblank, hgap⟩ := List.forall_mem_cons.mp hgap
      exact (ih hgap).blank hblank

theorem append (hreads : ReadsAs cs nodes) (hreads' : ReadsAs cs' nodes')
    (hstop : startsWith isWord cs' = false) : ReadsAs (cs ++ cs') (nodes ++ nodes') := by
  intro file here rest hrest
  have hrest' : startsWith isWord (cs' ++ rest) = false := by
    cases cs' with
    | nil => exact hrest
    | cons c cs' => exact hstop
  obtain ⟨tokens, htokens, hnodes⟩ := hreads file here (cs' ++ rest) hrest'
  obtain ⟨tokens', htokens', hnodes'⟩ := hreads' file (here.afterAll cs) rest hrest
  refine ⟨tokens ++ tokens', ?_, fun reading => ?_⟩
  · rw [List.append_assoc, htokens, htokens', Mark.afterAll_append]
    simp only [Stream.prepend, List.append_assoc]
  · rw [Reading.readAll_append, hnodes]
    have hboth : reading.putAll (nodes ++ nodes') = (reading.putAll nodes).putAll nodes' :=
      List.foldl_append
    rw [hboth]
    exact hnodes' (reading.putAll nodes)

theorem word {kind : Kind} {node : Node} (hspelled : kind.Spelled cs) (hkind : kind ≠ .comment)
    (hnode : ∀ location, Token.literal? ⟨kind, String.ofList cs, location⟩ = some node) :
    ReadsAs cs [node] := by
  intro file here rest hrest
  refine ⟨_, Stream.along_spelled hspelled hkind hrest file here, fun reading => ?_⟩
  rw [Reading.readAll_cons, Reading.step_of_advance (.literal (hnode _))]
  rfl

theorem list (hreads : ReadsAs cs nodes) :
    ReadsAs ('(' :: (cs ++ [')'])) [Node.ofItems nodes] := by
  intro file here rest _
  obtain ⟨tokens, htokens, hnodes⟩ := hreads file (here.after '(') (')' :: rest) rfl
  let opener : Token := ⟨.opening .paren, "(", here.inFile file⟩
  let closer : Token := ⟨.closing .paren, ")", ((here.after '(').afterAll cs).inFile file⟩
  -- A delimiter is a token by itself, whatever stands behind it.
  have hopens (cs : List Char) : Stream.along file none here ('(' :: cs) =
      (Stream.along file none (here.after '(') cs).prepend [opener] :=
    Stream.along_lexeme file none here (by decide) cs
  have hcloses : Stream.along file none ((here.after '(').afterAll cs) (')' :: rest) =
      (Stream.along file none (((here.after '(').afterAll cs).after ')') rest).prepend [closer] :=
    Stream.along_lexeme file none _ (by decide) rest
  refine ⟨opener :: (tokens ++ [closer]), ?_, fun ⟨done, lists⟩ => ?_⟩
  · have hmark : here.afterAll ('(' :: (cs ++ [')'])) =
        ((here.after '(').afterAll cs).after ')' := by
      rw [← List.cons_append, Mark.afterAll_append]
      rfl
    rw [hmark, List.cons_append, List.append_assoc, hopens, List.singleton_append, htokens, hcloses]
    simp only [Stream.prepend, List.append_assoc, List.cons_append, List.nil_append]
  · have hlists : (Reading.mk done (⟨opener, nodes.reverse⟩ :: lists)).lists =
        ⟨opener, nodes.reverse⟩ :: lists := rfl
    rw [Reading.readAll_cons, Reading.step_of_advance (.opening rfl)]
    show Reading.readAll ⟨done, ⟨opener, []⟩ :: lists⟩ (tokens ++ [closer]) = _
    rw [Reading.readAll_append, hnodes, Reading.putAll_of_within, List.append_nil]
    show Reading.readAll _ [closer] = _
    rw [Reading.readAll_cons, Reading.step_of_advance (.closing rfl hlists rfl),
      List.reverse_reverse]
    rfl

theorem readProgram_ofBytes {text : String} (hreads : ReadsAs text.toList nodes) (file : String) :
    readProgram (.ofBytes file text.toUTF8) = .ok nodes := by
  obtain ⟨tokens, htokens, hnodes⟩ := hreads file .first [] rfl
  rw [readProgram_eq_program, Stream.ofSource_ofBytes, Source.decodeFrom_toUTF8,
    Stream.program_eq_ok_iff]
  rw [List.append_nil, Stream.along_nil] at htokens
  rw [htokens]
  refine ⟨nodes.reverse, ?_, rfl, (List.reverse_reverse nodes).symm⟩
  simp only [Stream.prepend, List.append_nil]
  rw [hnodes, Reading.start, Reading.putAll_of_complete, List.append_nil]

end ReadsAs

/-! ### Expressions in writing -/

namespace Node

mutual

/-- The expression with the exponents of its numbers written out. -/
def plain : Node → Node
  | .number value => .number value.plain
  | .call name args => .call name (plainAll args)
  | node => node

def plainAll : List Node → List Node
  | [] => []
  | node :: nodes => node.plain :: plainAll nodes

end

theorem plainAll_eq_map (nodes : List Node) : plainAll nodes = nodes.map plain := by
  induction nodes with
  | nil => rfl
  | cons node nodes ih => rw [plainAll, ih, List.map_cons]

/-- The expression is written as `text`, both before and after its exponents are written out, and
the text is read as what it is after that. -/
structure Returns (node : Node) (text : String) : Prop where
  text? : node.text? = some text
  plain : node.plain.text? = some text
  reads : ReadsAs text.toList [node.plain]

theorem returns_number (value : Decimal) : (number value).Returns value.text := by
  obtain ⟨numeral, htext, hrange, hvalue⟩ := value.exists_numeral_text
  refine ⟨by rw [Node.text?], by rw [Node.plain, Node.text?, value.text_plain], ?_⟩
  rw [htext, Numeral.text, String.toList_ofList, Node.plain]
  refine .word numeral.spelled_chars (by decide) fun location => ?_
  show (Decimal.ofText? numeral.text).map Node.number = some (Node.number value.plain)
  rw [numeral.ofText?_text, if_pos hrange, hvalue]
  rfl

theorem returns_atom {name : String} (hname : Kind.atom.Spelled (':' :: name.toList)) :
    (atom name).Returns (":" ++ name) := by
  refine ⟨rfl, rfl, ?_⟩
  have htext : (":" ++ name).toList = ':' :: name.toList := by simp
  rw [htext]
  refine .word hname (by decide) fun location => ?_
  show some (Node.atom (String.ofList ((String.ofList (':' :: name.toList)).toList.drop 1))) = _
  rw [String.toList_ofList, List.drop_succ_cons, List.drop_zero, String.ofList_toList]
  rfl

theorem readsAs_variable {name : String} (hname : Kind.symbol.Spelled name.toList) :
    ReadsAs name.toList [.variable name] := by
  refine .word hname (by decide) fun location => ?_
  show some (Node.variable (String.ofList name.toList)) = _
  rw [String.ofList_toList]

/-- The elements of a list in writing; a blank is in front of the first if `spaced` says so. -/
theorem exists_argsText {args : List Node} (hargs : ∀ arg ∈ args, ∃ text, arg.Returns text)
    (spaced : Bool) :
    ∃ written, argsText? spaced args = some written ∧
      argsText? spaced (args.map Node.plain) = some written ∧
      ReadsAs written.toList (args.map Node.plain) ∧
      (spaced = true → startsWith isWord written.toList = false) := by
  induction args generalizing spaced with
  | nil => exact ⟨"", rfl, rfl, .nil, fun _ => rfl⟩
  | cons arg args ih =>
      obtain ⟨⟨first, hfirst⟩, hothers⟩ := List.forall_mem_cons.mp hargs
      obtain ⟨others, hwritten, hplain, hreads, hblank⟩ := ih hothers true
      have hboth : ReadsAs (first.toList ++ others.toList) (arg.plain :: args.map Node.plain) :=
        hfirst.reads.append hreads (hblank rfl)
      refine ⟨(if spaced then " " else "") ++ first ++ others, ?_, ?_, ?_, ?_⟩
      · rw [argsText?, hfirst.text?, hwritten]
      · rw [List.map_cons, argsText?, hfirst.plain, hplain]
      · cases spaced with
        | true =>
            have htext : ((if true then " " else "") ++ first ++ others).toList =
                ' ' :: (first.toList ++ others.toList) := by simp
            rw [htext]
            exact hboth.blank (by decide)
        | false =>
            have htext : ((if false then " " else "") ++ first ++ others).toList =
                first.toList ++ others.toList := by simp
            rw [htext]
            exact hboth
      · intro hspaced
        have htext : ((if spaced then " " else "") ++ first ++ others).toList =
            ' ' :: (first.toList ++ others.toList) := by simp [hspaced]
        rw [htext]
        rfl

theorem ofItems_plain {items : List Node} (hfirst : ∀ name args, items ≠ .variable name :: args) :
    ofItems (items.map Node.plain) = .call "" (items.map Node.plain) := by
  cases items with
  | nil => rfl
  | cons first rest =>
      cases first with
      | «variable» name => exact absurd rfl (hfirst name rest)
      | _ => rfl

/-- An expression that can be read returns from its writing. -/
theorem Legible.exists_text {node : Node} (hlegible : node.Legible) :
    ∃ text, node.Returns text := by
  induction hlegible with
  | number value => exact ⟨value.text, returns_number value⟩
  | @atom name hname => exact ⟨":" ++ name, returns_atom hname⟩
  | @symbol name hname => exact ⟨name, rfl, rfl, readsAs_variable hname⟩
  | @call name args hname hargs ih =>
      have hne : (name != "") = true := by
        obtain ⟨c, rest, hchars, -⟩ := hname
        rw [bne_iff_ne]
        rintro rfl
        cases hchars
      obtain ⟨written, hwritten, hplain, hreads, hblank⟩ := exists_argsText ih true
      refine ⟨"(" ++ name ++ written ++ ")", ?_, ?_, ?_⟩
      · rw [Node.text?, hne, hwritten]
        rfl
      · rw [Node.plain, plainAll_eq_map, Node.text?, hne, hplain]
        rfl
      · have htext : ("(" ++ name ++ written ++ ")").toList =
            '(' :: (name.toList ++ written.toList ++ [')']) := by simp
        rw [htext, Node.plain, plainAll_eq_map]
        exact ((readsAs_variable hname).append hreads (hblank rfl)).list
  | @group items hfirst hitems ih =>
      obtain ⟨written, hwritten, hplain, hreads, -⟩ := exists_argsText ih false
      refine ⟨"(" ++ "" ++ written ++ ")", ?_, ?_, ?_⟩
      · rw [Node.text?, bne_self_eq_false, hwritten]
        rfl
      · rw [Node.plain, plainAll_eq_map, Node.text?, bne_self_eq_false, hplain]
        rfl
      · have htext : ("(" ++ "" ++ written ++ ")").toList = '(' :: (written.toList ++ [')']) := by
          simp
        rw [htext, Node.plain, plainAll_eq_map, ← ofItems_plain hfirst]
        exact hreads.list

/-- Expressions that return from their writing do so in sequence, with blanks between them. -/
theorem exists_texts {nodes : List Node} (hnodes : ∀ node ∈ nodes, ∃ text, node.Returns text)
    {gap : List Char} (hne : gap ≠ []) (hgap : ∀ c ∈ gap, Text.isBlank c = true) :
    ∃ texts, nodes.mapM Node.text? = some texts ∧
      (nodes.map Node.plain).mapM Node.text? = some texts ∧
      ReadsAs (gap.intercalate (texts.map String.toList)) (nodes.map Node.plain) := by
  -- The blanks keep a name or a number apart from what is written next.
  have hstop (rest : List Char) : startsWith isWord (gap ++ rest) = false := by
    obtain ⟨c, others, rfl⟩ := List.exists_cons_of_ne_nil hne
    exact isWord_eq_false_of_isBlank (hgap c List.mem_cons_self)
  induction nodes with
  | nil => exact ⟨[], rfl, rfl, .nil⟩
  | cons node nodes ih =>
      obtain ⟨⟨text, hfirst⟩, hothers⟩ := List.forall_mem_cons.mp hnodes
      obtain ⟨texts, htexts, hplain, hreads⟩ := ih hothers
      refine ⟨text :: texts, ?_, ?_, ?_⟩
      · rw [List.mapM_cons, hfirst.text?, htexts]
        rfl
      · rw [List.map_cons, List.mapM_cons, hfirst.plain, hplain]
        rfl
      · cases texts with
        | nil =>
            have hlast := hfirst.reads.append hreads rfl
            simpa using hlast
        | cons second texts =>
            simp only [List.map_cons, List.intercalate_cons_cons, List.append_assoc] at hreads ⊢
            exact hfirst.reads.append (hreads.blanks hgap) (hstop _)

end Node

/-- What was read can be written, with blanks between the expressions, and read again.  The
expressions come back with the exponents of their numbers written out, and are then written in the
same way. -/
theorem readProgram_texts {source : Source} {nodes : List Node}
    (hreads : readProgram source = .ok nodes) (file : String) {gap : String} (hne : gap ≠ "")
    (hgap : ∀ c ∈ gap.toList, Text.isBlank c = true) :
    ∃ texts, nodes.mapM Node.text? = some texts ∧
      readProgram (.ofBytes file (gap.intercalate texts).toUTF8) = .ok (nodes.map Node.plain) ∧
      (nodes.map Node.plain).mapM Node.text? = some texts := by
  have hnodes : ∀ node ∈ nodes, ∃ text, node.Returns text :=
    fun node hmem => (legible_of_readProgram hreads node hmem).exists_text
  have hne' : gap.toList ≠ [] := by simpa using hne
  obtain ⟨texts, htexts, hplain, hreads'⟩ := Node.exists_texts hnodes hne' hgap
  rw [← String.toList_intercalate] at hreads'
  exact ⟨texts, htexts, hreads'.readProgram_ofBytes file, hplain⟩

/-- Brackets, a comment, a sign, an exponent and trailing zeros. -/
theorem readProgram_texts_mixed :
    let nodes := [Node.call "f" [.call "" [.number ⟨1, 2⟩, .number ⟨-50, -2⟩], .atom "-x"],
      .number ⟨7, 0⟩]
    readProgram (.ofBytes "a" "(f [1e2 -0.50] ; c\n :-x)+7".toUTF8) = .ok nodes ∧
    (∀ c ∈ "\n ".toList, Text.isBlank c = true) ∧
    ∃ texts, nodes.mapM Node.text? = some texts ∧
      readProgram (.ofBytes "b" ("\n ".intercalate texts).toUTF8) =
        .ok [.call "f" [.call "" [.number ⟨100, 0⟩, .number ⟨-50, -2⟩], .atom "-x"],
          .number ⟨7, 0⟩] ∧
      (nodes.map Node.plain).mapM Node.text? = some texts := by
  intro nodes
  have hreads : readProgram (.ofBytes "a" "(f [1e2 -0.50] ; c\n :-x)+7".toUTF8) = .ok nodes := by
    cbv
  have hgap : ∀ c ∈ "\n ".toList, Text.isBlank c = true := by
    intro c hmem
    have hcases : c = '\n' ∨ c = ' ' := by simpa using hmem
    rcases hcases with rfl | rfl <;> decide
  exact ⟨hreads, hgap, readProgram_texts hreads "b" (by decide) hgap⟩

end ProtoLisp
