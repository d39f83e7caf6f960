import ProtoLisp.Proofs.Completability
import ProtoLisp.Proofs.Numerals

/-!
# The grammar of programs

    expression := number | atom | symbol | '(' expression* ')' | '[' expression* ']'

A tree is a derivation of an expression from tokens.  Reading a source succeeds if its tokens, the
comments left out, are those of a sequence of trees and every number is in range, and then what is
read are the expressions that the trees stand for.  No other trees have the same tokens.
-/

namespace ProtoLisp

/-- How an expression is derived from tokens. -/
inductive Tree where
  | number (token : Token) (numeral : Numeral) (hkind : token.kind = .number)
      (htext : token.text = numeral.text)
  | atom (token : Token) (hkind : token.kind = .atom)
  | symbol (token : Token) (hkind : token.kind = .symbol)
  | list (delimiter : Delimiter) (opener closer : Token)
      (hopener : opener.kind = .opening delimiter) (hcloser : closer.kind = .closing delimiter)
      (items : List Tree)

namespace Tree

mutual

/-- The tokens that the tree derives an expression from. -/
def tokens : Tree → List Token
  | .number token _ _ _ => [token]
  | .atom token _ => [token]
  | .symbol token _ => [token]
  | .list _ opener closer _ _ items => opener :: (tokensOf items ++ [closer])

def tokensOf : List Tree → List Token
  | [] => []
  | tree :: trees => tree.tokens ++ tokensOf trees

end

mutual

/-- The expression that the tree stands for. -/
def node : Tree → Node
  | .number _ numeral _ _ => .number numeral.value
  | .atom token _ => .atom (String.ofList (token.text.toList.drop 1))
  | .symbol token _ => .variable token.text
  | .list _ _ _ _ _ (.symbol token _ :: args) => .call token.text (nodesOf args)
  | .list _ _ _ _ _ items => .call "" (nodesOf items)

def nodesOf : List Tree → List Node
  | [] => []
  | tree :: trees => tree.node :: nodesOf trees

end

theorem nodesOf_eq_map (trees : List Tree) : nodesOf trees = trees.map node := by
  induction trees with
  | nil => rfl
  | cons tree trees ih => rw [nodesOf, ih, List.map_cons]

theorem tokensOf_append (trees others : List Tree) :
    tokensOf (trees ++ others) = tokensOf trees ++ tokensOf others := by
  induction trees with
  | nil => rfl
  | cons tree trees ih => rw [List.cons_append, tokensOf, tokensOf, ih, List.append_assoc]

theorem exists_node_list {delimiter : Delimiter} {opener closer : Token}
    (hopener : opener.kind = .opening delimiter) (hcloser : closer.kind = .closing delimiter)
    (items : List Tree) :
    ∃ name args, node (.list delimiter opener closer hopener hcloser items) = .call name args := by
  rw [node.eq_def]
  split
  all_goals rename_i heq
  all_goals cases heq
  · exact ⟨_, _, rfl⟩
  · exact ⟨_, _, rfl⟩

/-- A list stands for the call that its elements make up. -/
theorem node_list {delimiter : Delimiter} {opener closer : Token}
    (hopener : opener.kind = .opening delimiter) (hcloser : closer.kind = .closing delimiter)
    (items : List Tree) :
    node (.list delimiter opener closer hopener hcloser items) = Node.ofItems (items.map node) := by
  cases items with
  | nil => rfl
  | cons first args =>
      cases first with
      | number token numeral hkind htext => simp [node, nodesOf_eq_map, Node.ofItems]
      | atom token hkind => simp [node, nodesOf_eq_map, Node.ofItems]
      | symbol token hkind => simp [node, nodesOf_eq_map, Node.ofItems]
      | list inner opener' closer' hopener' hcloser' items =>
          obtain ⟨name, nodes, hnode⟩ := exists_node_list hopener' hcloser' items
          rw [node, nodesOf_eq_map, List.map_cons, hnode]
          · rfl
          · exact nofun

end Tree

/-! ### The tokens of trees can be read -/

/-- If the token is a number, its exponents are in range. -/
def Token.InRange (token : Token) : Prop :=
  token.kind = .number → ∀ numeral : Numeral, token.text = numeral.text → numeral.InRange

namespace Reading

theorem readAll_of_literal? {token : Token} {node : Node} (hnode : token.literal? = some node)
    (reading : Reading) : reading.readAll [token] = .ok (reading.put node) := by
  rw [readAll_cons, step_of_advance (.literal hnode)]
  rfl

end Reading

namespace Tree

open Reading

mutual

theorem readAll_tokens : (tree : Tree) → (∀ token ∈ tree.tokens, token.InRange) →
    ∀ reading : Reading, reading.readAll tree.tokens = .ok (reading.put tree.node)
  | .number token numeral hkind htext, hrange, reading => by
      have hnumeral := hrange token List.mem_cons_self hkind numeral htext
      apply readAll_of_literal?
      rw [Token.literal?, hkind, htext, Numeral.ofText?_text, if_pos hnumeral]
      rfl
  | .atom token hkind, _, reading => by
      apply readAll_of_literal?
      rw [Token.literal?, hkind]
      rfl
  | .symbol token hkind, _, reading => by
      apply readAll_of_literal?
      rw [Token.literal?, hkind]
      rfl
  | .list delimiter opener closer hopener hcloser items, hrange, ⟨done, lists⟩ => by
      have hitems : ∀ token ∈ tokensOf items, token.InRange := by
        intro token hmem
        apply hrange
        rw [tokens]
        exact List.mem_cons_of_mem _ (List.mem_append_left _ hmem)
      have hlists : (Reading.mk done (⟨opener, (items.map node).reverse⟩ :: lists)).lists =
          ⟨opener, (items.map node).reverse⟩ :: lists := rfl
      rw [tokens, readAll_cons, step_of_advance (.opening hopener)]
      show readAll ⟨done, ⟨opener, []⟩ :: lists⟩ (tokensOf items ++ [closer]) = _
      rw [readAll_append, readAll_tokensOf items hitems, putAll_of_within, List.append_nil]
      show readAll _ [closer] = _
      rw [readAll_cons, step_of_advance (.closing hcloser hlists hopener), List.reverse_reverse,
        node_list]
      rfl

theorem readAll_tokensOf : (trees : List Tree) → (∀ token ∈ tokensOf trees, token.InRange) →
    ∀ reading : Reading, reading.readAll (tokensOf trees) = .ok (reading.putAll (trees.map node))
  | [], _, reading => rfl
  | tree :: trees, hrange, reading => by
      have htree : ∀ token ∈ tree.tokens, token.InRange :=
        fun token hmem => hrange token (List.mem_append_left _ hmem)
      have htrees : ∀ token ∈ tokensOf trees, token.InRange :=
        fun token hmem => hrange token (List.mem_append_right _ hmem)
      rw [tokensOf, readAll_append, readAll_tokens tree htree]
      exact readAll_tokensOf trees htrees (reading.put tree.node)

end

end Tree

/-! ### What is read has a derivation -/

/-- Trees for the expressions that have ended, and for the elements of the lists that are still
open, the innermost of which is the first. -/
structure Derivation where
  done : List Tree
  opened : List (Token × List Tree)

namespace Derivation

def tokens (derivation : Derivation) : List Token :=
  Tree.tokensOf derivation.done ++
    derivation.opened.reverse.flatMap fun list => list.1 :: Tree.tokensOf list.2

def reading (derivation : Derivation) : Reading where
  done := (derivation.done.map Tree.node).reverse
  lists := derivation.opened.map fun list => ⟨list.1, (list.2.map Tree.node).reverse⟩

def put (derivation : Derivation) (tree : Tree) : Derivation :=
  match derivation.opened with
  | [] => ⟨derivation.done ++ [tree], []⟩
  | list :: lists => ⟨derivation.done, (list.1, list.2 ++ [tree]) :: lists⟩

theorem reading_put (derivation : Derivation) (tree : Tree) :
    (derivation.put tree).reading = derivation.reading.put tree.node := by
  obtain ⟨done, opened⟩ := derivation
  cases opened with
  | nil => simp [put, reading, Reading.put]
  | cons list lists => simp [put, reading, Reading.put]

theorem tokens_put (derivation : Derivation) (tree : Tree) :
    (derivation.put tree).tokens = derivation.tokens ++ tree.tokens := by
  obtain ⟨done, opened⟩ := derivation
  have hsingle : Tree.tokensOf [tree] = tree.tokens := List.append_nil _
  cases opened with
  | nil => simp [put, tokens, Tree.tokensOf_append, hsingle]
  | cons list lists => simp [put, tokens, Tree.tokensOf_append, hsingle]

end Derivation

/-- The tokens that are no comments. -/
def significant (tokens : List Token) : List Token := tokens.filter (·.kind ≠ .comment)

theorem significant_append (first second : List Token) :
    significant (first ++ second) = significant first ++ significant second :=
  List.filter_append first second

theorem significant_singleton {token : Token} (hkind : token.kind ≠ .comment) :
    significant [token] = [token] := by
  simp [significant, hkind]

theorem Tree.exists_of_literal? {token : Token} {node : Node}
    (hnumeral : token.kind = .number → ∃ numeral : Numeral, token.text = numeral.text)
    (hnode : token.literal? = some node) :
    ∃ tree : Tree, tree.tokens = [token] ∧ tree.node = node := by
  unfold Token.literal? at hnode
  split at hnode
  · rename_i hkind
    obtain ⟨numeral, htext⟩ := hnumeral hkind
    refine ⟨.number token numeral hkind htext, rfl, ?_⟩
    rw [htext, Numeral.ofText?_text] at hnode
    split at hnode
    · cases hnode
      rfl
    · cases hnode
  · rename_i hkind
    cases hnode
    exact ⟨.atom token hkind, rfl, rfl⟩
  · rename_i hkind
    cases hnode
    exact ⟨.symbol token hkind, rfl, rfl⟩
  · cases hnode

theorem Derivation.exists_of_advance {derivation : Derivation} {token : Token} {next : Reading}
    (hnumeral : token.kind = .number → ∃ numeral : Numeral, token.text = numeral.text)
    (hadvance : derivation.reading.Advance token next) :
    ∃ further : Derivation, further.reading = next ∧
      further.tokens = derivation.tokens ++ significant [token] := by
  cases hadvance with
  | literal hnode =>
      obtain ⟨tree, htokens, rfl⟩ := Tree.exists_of_literal? hnumeral hnode
      have hkind : token.kind ≠ .comment := by
        intro hkind
        rw [Token.literal?, hkind] at hnode
        cases hnode
      refine ⟨derivation.put tree, reading_put derivation tree, ?_⟩
      rw [tokens_put, htokens, significant_singleton hkind]
  | comment hkind => exact ⟨derivation, rfl, by simp [significant, hkind]⟩
  | opening hkind =>
      refine ⟨⟨derivation.done, (token, []) :: derivation.opened⟩, rfl, ?_⟩
      rw [significant_singleton (by simp [hkind])]
      simp [tokens, Tree.tokensOf]
  | closing hkind hlists hopener =>
      obtain ⟨done, opened⟩ := derivation
      obtain ⟨⟨opener, items⟩, outer, rfl, rfl, rfl⟩ := List.map_eq_cons_iff.mp hlists
      refine ⟨Derivation.put ⟨done, outer⟩ (.list _ opener token hopener hkind items), ?_, ?_⟩
      · rw [reading_put, Tree.node_list]
        simp only [reading, List.reverse_reverse]
      · rw [tokens_put, significant_singleton (by simp [hkind])]
        simp [tokens, Tree.tokens]

/-- What has been read has a derivation from the tokens that were read. -/
theorem Derivation.exists_of_readAll {tokens : List Token} {last : Reading}
    (hnumerals : ∀ token ∈ tokens, token.kind = .number →
      ∃ numeral : Numeral, token.text = numeral.text)
    (hreads : Reading.start.readAll tokens = .ok last) :
    ∃ derivation : Derivation, derivation.reading = last ∧
      derivation.tokens = significant tokens := by
  let P (consumed : List Token) (reading : Reading) : Prop :=
    (∀ token ∈ consumed, token.kind = .number →
      ∃ numeral : Numeral, token.text = numeral.text) →
    ∃ derivation : Derivation, derivation.reading = reading ∧
      derivation.tokens = significant consumed
  have hstart : P [] .start := fun _ => ⟨⟨[], []⟩, rfl, rfl⟩
  refine Reading.invariant_readAll (P := P) ?_ hstart hreads hnumerals
  intro consumed reading token next hconsumed hadvance hnumerals
  obtain ⟨derivation, rfl, htokens⟩ :=
    hconsumed fun token hmem => hnumerals token (List.mem_append_left _ hmem)
  obtain ⟨further, hnext, hfurther⟩ := exists_of_advance (hnumerals token (by simp)) hadvance
  exact ⟨further, hnext, by rw [hfurther, htokens, significant_append]⟩

/-- A token that can be read reports nothing bad, and is in range if it is a number. -/
theorem Reading.acceptable_of_readAll {tokens : List Token} {reading last : Reading}
    (hreads : reading.readAll tokens = .ok last) :
    ∀ token ∈ tokens, token.kind ≠ .error ∧ token.kind ≠ .invalid ∧ token.InRange := by
  have hstart : ∀ token ∈ ([] : List Token),
      token.kind ≠ .error ∧ token.kind ≠ .invalid ∧ token.InRange := by simp
  refine invariant_readAll (P := fun consumed _ => ∀ token ∈ consumed,
    token.kind ≠ .error ∧ token.kind ≠ .invalid ∧ token.InRange) ?_ hstart hreads
  intro consumed reading token next hconsumed hadvance token' hmem
  rcases List.mem_append.mp hmem with hmem | hmem
  · exact hconsumed token' hmem
  · cases List.mem_singleton.mp hmem
    have hplain {kind : Kind} (hkind : token.kind = kind) (herror : kind ≠ .error)
        (hinvalid : kind ≠ .invalid) (hnumber : kind ≠ .number) :
        token.kind ≠ .error ∧ token.kind ≠ .invalid ∧ token.InRange :=
      ⟨hkind ▸ herror, hkind ▸ hinvalid, fun hnumber' => absurd (hkind ▸ hnumber') hnumber⟩
    cases hadvance with
    | comment hkind => exact hplain hkind nofun nofun nofun
    | opening hkind => exact hplain hkind nofun nofun nofun
    | closing hkind _ _ => exact hplain hkind nofun nofun nofun
    | literal hnode =>
        unfold Token.literal? at hnode
        split at hnode
        · rename_i hkind
          refine ⟨by simp [hkind], by simp [hkind], fun _ numeral htext => ?_⟩
          rw [htext, Numeral.ofText?_text] at hnode
          split at hnode
          · assumption
          · cases hnode
        · rename_i hkind
          exact hplain hkind nofun nofun nofun
        · rename_i hkind
          exact hplain hkind nofun nofun nofun
        · cases hnode

theorem Reading.readAll_significant (reading : Reading) (tokens : List Token) :
    reading.readAll (significant tokens) = reading.readAll tokens := by
  induction tokens generalizing reading with
  | nil => rfl
  | cons token tokens ih =>
      by_cases hkind : token.kind = .comment
      · have hskip : significant (token :: tokens) = significant tokens := by
          simp [significant, hkind]
        rw [hskip, ih, readAll_cons, step_of_advance (.comment hkind)]
        rfl
      · have hkeep : significant (token :: tokens) = token :: significant tokens := by
          simp [significant, hkind]
        rw [hkeep, readAll_cons, readAll_cons]
        cases reading.step token with
        | error error => rfl
        | ok next => exact ih next

/-! ### No two derivations of the same tokens -/

namespace Tree

/-- The tokens are at their end, or go on with a closing delimiter. -/
def Stops (tokens : List Token) : Prop :=
  ∀ token rest, tokens = token :: rest → ∃ delimiter, token.kind = .closing delimiter

theorem not_stops_tokens_append (tree : Tree) (rest : List Token) :
    ¬ Stops (tree.tokens ++ rest) := by
  intro hstops
  cases tree with
  | number token numeral hkind htext =>
      obtain ⟨delimiter, hclosing⟩ := hstops token rest rfl
      cases hkind.symm.trans hclosing
  | atom token hkind =>
      obtain ⟨delimiter, hclosing⟩ := hstops token rest rfl
      cases hkind.symm.trans hclosing
  | symbol token hkind =>
      obtain ⟨delimiter, hclosing⟩ := hstops token rest rfl
      cases hkind.symm.trans hclosing
  | list delimiter opener closer hopener hcloser items =>
      obtain ⟨delimiter, hclosing⟩ := hstops opener (tokensOf items ++ [closer] ++ rest) rfl
      cases hopener.symm.trans hclosing

theorem cons_ne_of_kind {token token' : Token} (hkind : token.kind ≠ token'.kind)
    {rest rest' : List Token} : token :: rest ≠ token' :: rest' := by
  intro heq
  exact hkind (congrArg Token.kind (List.cons.inj heq).1)

-- The first token tells how a tree starts.  Where its elements end is told by what follows them,
-- which is why the tokens behind the trees have to stop.
mutual

theorem tokens_append_inj : (tree other : Tree) → {rest rest' : List Token} →
    tree.tokens ++ rest = other.tokens ++ rest' → tree = other ∧ rest = rest'
  | .number token numeral hkind htext, .number token' numeral' hkind' htext', _, _, heq => by
      obtain ⟨rfl, hrest⟩ := List.cons.inj heq
      obtain rfl := Numeral.text_inj (htext.symm.trans htext')
      exact ⟨rfl, hrest⟩
  | .atom token hkind, .atom token' hkind', _, _, heq => by
      obtain ⟨rfl, hrest⟩ := List.cons.inj heq
      exact ⟨rfl, hrest⟩
  | .symbol token hkind, .symbol token' hkind', _, _, heq => by
      obtain ⟨rfl, hrest⟩ := List.cons.inj heq
      exact ⟨rfl, hrest⟩
  | .list delimiter opener closer hopener hcloser items,
      .list delimiter' opener' closer' hopener' hcloser' items', rest, rest', heq => by
      rw [tokens, tokens, List.cons_append, List.cons_append, List.append_assoc,
        List.append_assoc] at heq
      obtain ⟨rfl, hinner⟩ := List.cons.inj heq
      cases hopener.symm.trans hopener'
      have hstops : Stops (closer :: rest) := by
        rintro token tokens ⟨⟩
        exact ⟨delimiter, hcloser⟩
      have hstops' : Stops (closer' :: rest') := by
        rintro token tokens ⟨⟩
        exact ⟨delimiter, hcloser'⟩
      obtain ⟨rfl, hrest⟩ := tokensOf_append_inj items items' hstops hstops' hinner
      obtain ⟨rfl, rfl⟩ := List.cons.inj hrest
      exact ⟨rfl, rfl⟩
  | .number _ _ hkind _, .atom _ hkind', _, _, heq
  | .number _ _ hkind _, .symbol _ hkind', _, _, heq
  | .number _ _ hkind _, .list _ _ _ hkind' _ _, _, _, heq
  | .atom _ hkind, .number _ _ hkind' _, _, _, heq
  | .atom _ hkind, .symbol _ hkind', _, _, heq
  | .atom _ hkind, .list _ _ _ hkind' _ _, _, _, heq
  | .symbol _ hkind, .number _ _ hkind' _, _, _, heq
  | .symbol _ hkind, .atom _ hkind', _, _, heq
  | .symbol _ hkind, .list _ _ _ hkind' _ _, _, _, heq
  | .list _ _ _ hkind _ _, .number _ _ hkind' _, _, _, heq
  | .list _ _ _ hkind _ _, .atom _ hkind', _, _, heq
  | .list _ _ _ hkind _ _, .symbol _ hkind', _, _, heq =>
      absurd heq (cons_ne_of_kind (by simp [hkind, hkind']))

theorem tokensOf_append_inj : (trees others : List Tree) → {rest rest' : List Token} →
    Stops rest → Stops rest' → tokensOf trees ++ rest = tokensOf others ++ rest' →
    trees = others ∧ rest = rest'
  | [], [], _, _, _, _, heq => ⟨rfl, heq⟩
  | [], other :: others, _, _, hstops, _, heq => by
      rw [tokensOf, List.nil_append, tokensOf, List.append_assoc] at heq
      exact absurd (heq ▸ hstops) (not_stops_tokens_append other _)
  | tree :: trees, [], _, _, _, hstops', heq => by
      rw [tokensOf, List.nil_append, tokensOf, List.append_assoc] at heq
      exact absurd (heq ▸ hstops') (not_stops_tokens_append tree _)
  | tree :: trees, other :: others, _, _, hstops, hstops', heq => by
      rw [tokensOf, tokensOf, List.append_assoc, List.append_assoc] at heq
      obtain ⟨rfl, hbehind⟩ := tokens_append_inj tree other heq
      obtain ⟨rfl, hrest⟩ := tokensOf_append_inj trees others hstops hstops' hbehind
      exact ⟨rfl, hrest⟩

end

theorem tokensOf_inj {trees others : List Tree} (heq : tokensOf trees = tokensOf others) :
    trees = others := by
  have hstops : Stops [] := nofun
  rw [← List.append_nil (tokensOf trees), ← List.append_nil (tokensOf others)] at heq
  exact (tokensOf_append_inj trees others hstops hstops heq).1

end Tree

/-- Reading accepts exactly the grammar.  It succeeds if the tokens reach the end of the text, none
of them is bad, every number is in range and the tokens other than comments have a derivation; and
the expressions that are read are those of the one derivation there is. -/
theorem readProgram_eq_ok_iff_derived (source : Source) (nodes : List Node) :
    readProgram source = .ok nodes ↔
      (Stream.ofSource source).halt = .eof ∧
      (∀ token ∈ (Stream.ofSource source).tokens,
        token.kind ≠ .error ∧ token.kind ≠ .invalid ∧ token.InRange) ∧
      ∃ trees : List Tree,
        (∀ others, Tree.tokensOf others = significant (Stream.ofSource source).tokens ↔
          others = trees) ∧
        nodes = trees.map Tree.node := by
  rw [readProgram_eq_program, Stream.program_eq_ok_iff]
  constructor
  · rintro ⟨done, hreads, hhalt, rfl⟩
    refine ⟨hhalt, Reading.acceptable_of_readAll hreads, ?_⟩
    obtain ⟨⟨trees, opened⟩, hreading, htokens⟩ := Derivation.exists_of_readAll
      (fun token hmem => Stream.exists_numeral_of_mem hmem) hreads
    obtain ⟨hdone, hopened⟩ := Reading.mk.inj hreading
    obtain rfl := List.map_eq_nil_iff.mp hopened
    have hderived : Tree.tokensOf trees = significant (Stream.ofSource source).tokens := by
      rw [← htokens]
      exact (List.append_nil _).symm
    refine ⟨trees, fun others => ⟨fun hothers => ?_, fun hothers => hothers ▸ hderived⟩, ?_⟩
    · exact Tree.tokensOf_inj (hothers.trans hderived.symm)
    · rw [← hdone, List.reverse_reverse]
  · rintro ⟨hhalt, hacceptable, trees, htrees, rfl⟩
    have hderived := (htrees trees).mpr rfl
    have hrange : ∀ token ∈ Tree.tokensOf trees, token.InRange := by
      intro token hmem
      rw [hderived] at hmem
      exact (hacceptable token (List.mem_of_mem_filter hmem)).2.2
    refine ⟨(trees.map Tree.node).reverse, ?_, hhalt, by rw [List.reverse_reverse]⟩
    rw [← Reading.readAll_significant, ← hderived, Tree.readAll_tokensOf trees hrange,
      Reading.start, Reading.putAll_of_complete, List.append_nil]

end ProtoLisp
