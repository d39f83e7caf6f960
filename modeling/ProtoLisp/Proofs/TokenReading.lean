import ProtoLisp.Reader
import ProtoLisp.Proofs.LinewiseLexing

/-!
# Reading token by token

A program is read by one step per token, each of which either fails or leads from one stack of open
lists to the next.  The stack after a run of tokens is made of the delimiters that the run leaves
open, and what comes of a run depends on the words of its tokens alone, not on where they stand.
-/

namespace ProtoLisp

/-- How far the reading of a program has come: the expressions read, the last one first, and the
lists that are still open, the innermost first. -/
structure Reading where
  done : List Node
  lists : List OpenList

namespace Reading

def start : Reading := ⟨[], []⟩

/-- An expression ends: it is one of the program, or an element of the innermost open list. -/
def put (reading : Reading) (node : Node) : Reading :=
  match reading.lists with
  | [] => ⟨node :: reading.done, []⟩
  | list :: lists => ⟨reading.done, { list with items := node :: list.items } :: lists⟩

/-- Expressions end one after the other. -/
def putAll (reading : Reading) (nodes : List Node) : Reading := nodes.foldl put reading

def step (reading : Reading) (token : Token) : Except ReadError Reading :=
  match shift reading.lists token with
  | .complete node => .ok ⟨node :: reading.done, []⟩
  | .within lists => .ok ⟨reading.done, lists⟩
  | .failed error => .error error

def readAll (reading : Reading) (tokens : List Token) : Except ReadError Reading :=
  tokens.foldlM step reading

/-- The program that is read at the end of the tokens. -/
def finish (reading : Reading) (halt : Halt) (place : Location) : Except ReadError (List Node) :=
  match halt, reading.lists with
  | .eof, [] => .ok reading.done.reverse
  | _, lists => .error (stopped lists halt place)

end Reading

def Stream.program (stream : Stream) : Except ReadError (List Node) := do
  let reading ← Reading.start.readAll stream.tokens
  reading.finish stream.halt stream.place

/-! ### The reader goes token by token -/

namespace Reading

@[simp]
theorem readAll_nil (reading : Reading) : reading.readAll [] = .ok reading := rfl

theorem readAll_cons (reading : Reading) (token : Token) (tokens : List Token) :
    reading.readAll (token :: tokens) = reading.step token >>= (readAll · tokens) := by
  rw [readAll, List.foldlM_cons]
  rfl

theorem readAll_append (reading : Reading) (first second : List Token) :
    reading.readAll (first ++ second) = reading.readAll first >>= (readAll · second) := by
  rw [readAll, List.foldlM_append]
  rfl

theorem putAll_of_complete (done nodes : List Node) :
    putAll ⟨done, []⟩ nodes = ⟨nodes.reverse ++ done, []⟩ := by
  induction nodes generalizing done with
  | nil => rfl
  | cons node nodes ih =>
      have hrest := ih (node :: done)
      rw [List.reverse_cons, List.append_assoc]
      exact hrest

theorem putAll_of_within (done : List Node) (opener : Token) (items : List Node)
    (lists : List OpenList) (nodes : List Node) :
    putAll ⟨done, ⟨opener, items⟩ :: lists⟩ nodes =
      ⟨done, ⟨opener, nodes.reverse ++ items⟩ :: lists⟩ := by
  induction nodes generalizing items with
  | nil => rfl
  | cons node nodes ih =>
      have hrest := ih (node :: items)
      rw [List.reverse_cons, List.append_assoc]
      exact hrest

theorem program_eq_finish (ahead : Stream) (reading : Reading) (tokens : List Token) :
    (Reader.finishProgram ahead reading.done reading.lists tokens).1 =
      reading.readAll tokens >>= (finish · ahead.halt ahead.place) := by
  induction tokens generalizing reading with
  | nil =>
      obtain ⟨done, lists⟩ := reading
      simp only [Reader.finishProgram, readAll_nil]
      cases ahead.halt with
      | eof => cases lists <;> rfl
      | failure text => rfl
  | cons token tokens ih =>
      rw [readAll_cons, Reader.finishProgram, step]
      cases shift reading.lists token with
      | complete node => exact ih ⟨node :: reading.done, []⟩
      | within lists => exact ih ⟨reading.done, lists⟩
      | failed error => rfl

end Reading

theorem readProgram_eq_program (source : Source) :
    readProgram source = (Stream.ofSource source).program :=
  Reading.program_eq_finish (.ofSource source) .start (Stream.ofSource source).tokens

/-! ### What a token does -/

/-- The expression that a token is by itself. -/
def Token.literal? (token : Token) : Option Node :=
  match token.kind with
  | .number => (Decimal.ofText? token.text).map .number
  | .atom => some (.atom (String.ofList (token.text.toList.drop 1)))
  | .symbol => some (.variable token.text)
  | _ => none

theorem shift_of_literal? {token : Token} {node : Node} (hnode : token.literal? = some node)
    (lists : List OpenList) : shift lists token = .place node lists := by
  unfold Token.literal? at hnode
  split at hnode
  · rename_i hkind
    obtain ⟨value, hvalue, rfl⟩ := Option.map_eq_some_iff.mp hnode
    simp only [shift, hkind, hvalue]
  · rename_i hkind
    cases hnode
    simp only [shift, hkind]
  · rename_i hkind
    cases hnode
    simp only [shift, hkind]
  · cases hnode

namespace Reading

/-- A token that does not fail is an expression by itself, a comment, or a delimiter that opens a
list or closes the innermost one. -/
inductive Advance (reading : Reading) (token : Token) : Reading → Prop
  | literal {node : Node} (hnode : token.literal? = some node) :
      Advance reading token (reading.put node)
  | comment (hkind : token.kind = .comment) : Advance reading token reading
  | opening {delimiter : Delimiter} (hkind : token.kind = .opening delimiter) :
      Advance reading token ⟨reading.done, ⟨token, []⟩ :: reading.lists⟩
  | closing {delimiter : Delimiter} {list : OpenList} {lists : List OpenList}
      (hkind : token.kind = .closing delimiter) (hlists : reading.lists = list :: lists)
      (hopener : list.opener.kind = .opening delimiter) :
      Advance reading token (put ⟨reading.done, lists⟩ (Node.ofItems list.items.reverse))

theorem step_of_place {reading : Reading} {token : Token} {node : Node} {lists : List OpenList}
    (hshift : shift reading.lists token = .place node lists) :
    reading.step token = .ok (put ⟨reading.done, lists⟩ node) := by
  rw [step, hshift]
  cases lists <;> rfl

theorem step_of_advance {reading next : Reading} {token : Token}
    (hadvance : reading.Advance token next) : reading.step token = .ok next := by
  cases hadvance with
  | literal hnode => exact step_of_place (shift_of_literal? hnode reading.lists)
  | comment hkind => simp only [step, shift, hkind]
  | opening hkind => simp only [step, shift, hkind]
  | closing hkind hlists hopener =>
      apply step_of_place
      simp only [shift, hkind, hlists, Progress.close, hopener, if_true]

theorem advance_of_step {reading next : Reading} {token : Token}
    (hstep : reading.step token = .ok next) : reading.Advance token next := by
  have hliteral (node : Node) (hnode : token.literal? = some node) :
      reading.Advance token next := by
    rw [step_of_place (shift_of_literal? hnode reading.lists)] at hstep
    cases hstep
    exact .literal hnode
  cases hkind : token.kind with
  | number =>
      cases hvalue : Decimal.ofText? token.text with
      | none =>
          simp only [step, shift, hkind, hvalue] at hstep
          cases hstep
      | some value =>
          apply hliteral (.number value)
          simp only [Token.literal?, hkind, hvalue, Option.map_some]
  | atom =>
      apply hliteral (.atom (String.ofList (token.text.toList.drop 1)))
      simp only [Token.literal?, hkind]
  | symbol =>
      apply hliteral (.variable token.text)
      simp only [Token.literal?, hkind]
  | comment =>
      simp only [step, shift, hkind] at hstep
      cases hstep
      exact .comment hkind
  | opening delimiter =>
      simp only [step, shift, hkind] at hstep
      cases hstep
      exact .opening hkind
  | closing delimiter =>
      cases hlists : reading.lists with
      | nil =>
          simp only [step, shift, hkind, hlists, Progress.close] at hstep
          cases hstep
      | cons list lists =>
          by_cases hopener : list.opener.kind = .opening delimiter
          · have hadvance := Advance.closing hkind hlists hopener
            rw [step_of_advance hadvance] at hstep
            cases hstep
            exact hadvance
          · simp only [step, shift, hkind, hlists, Progress.close, hopener, if_false] at hstep
            cases hstep
  | error =>
      simp only [step, shift, hkind] at hstep
      cases hstep
  | invalid =>
      simp only [step, shift, hkind] at hstep
      cases hstep
  | eof =>
      simp only [step, shift, hkind] at hstep
      cases hstep

theorem shift_of_step_error {reading : Reading} {token : Token} {error : ReadError}
    (hstep : reading.step token = .error error) : shift reading.lists token = .failed error := by
  unfold step at hstep
  split at hstep
  · cases hstep
  · cases hstep
  · rename_i hshift
    cases hstep
    exact hshift

end Reading

theorem Progress.place_ne_failed (node : Node) (lists : List OpenList) (error : ReadError) :
    place node lists ≠ .failed error := by
  cases lists <;> exact nofun

theorem Progress.incomplete_of_close {lists : List OpenList} {delimiter : Delimiter}
    {token : Token} {error : ReadError} (hclose : close lists delimiter token = .failed error) :
    error.incomplete = false := by
  unfold close at hclose
  split at hclose
  · cases hclose
    rfl
  · split at hclose
    · exact absurd hclose (place_ne_failed _ _ _)
    · cases hclose
      rfl

/-- A token at which no text ends too early fails for good. -/
theorem incomplete_of_shift {lists : List OpenList} {token : Token} {error : ReadError}
    (htoken : token.Conclusive) (hshift : shift lists token = .failed error) :
    error.incomplete = false := by
  have hreport (hkind : token.kind = .error ∨ token.kind = .invalid) :
      (Fault.ofReport token.text).incomplete = false := by
    simpa [Fault.ofReport, Fault.incomplete] using htoken.2 hkind
  unfold shift at hshift
  split at hshift
  · split at hshift
    · exact absurd hshift (Progress.place_ne_failed _ _ _)
    · cases hshift
      rfl
  · exact absurd hshift (Progress.place_ne_failed _ _ _)
  · exact absurd hshift (Progress.place_ne_failed _ _ _)
  · cases hshift
  · cases hshift
  · exact Progress.incomplete_of_close hshift
  · rename_i hkind
    cases hshift
    exact hreport (.inl hkind)
  · rename_i hkind
    cases hshift
    exact hreport (.inr hkind)
  · rename_i hkind
    exact absurd hkind htoken.1

namespace Reading

theorem incomplete_of_readAll {reading : Reading} {tokens : List Token} {error : ReadError}
    (htokens : ∀ token ∈ tokens, token.Conclusive)
    (hreads : reading.readAll tokens = .error error) : error.incomplete = false := by
  induction tokens generalizing reading with
  | nil => cases hreads
  | cons token tokens ih =>
      rw [readAll_cons] at hreads
      cases hstep : reading.step token with
      | error error' =>
          rw [hstep] at hreads
          cases hreads
          exact incomplete_of_shift (htokens token List.mem_cons_self) (shift_of_step_error hstep)
      | ok next =>
          rw [hstep] at hreads
          exact ih (fun token hmem => htokens token (List.mem_cons_of_mem _ hmem)) hreads

theorem exists_of_readAll_cons {reading last : Reading} {token : Token} {tokens : List Token}
    (hreads : reading.readAll (token :: tokens) = .ok last) :
    ∃ next, reading.Advance token next ∧ next.readAll tokens = .ok last := by
  rw [readAll_cons] at hreads
  cases hstep : reading.step token with
  | error error =>
      rw [hstep] at hreads
      cases hreads
  | ok next =>
      rw [hstep] at hreads
      exact ⟨next, advance_of_step hstep, hreads⟩

/-- What every token keeps, a run of tokens keeps.  `consumed` are the tokens read before. -/
theorem invariant_readAll {P : List Token → Reading → Prop}
    (hkeeps : ∀ {consumed reading token next},
      P consumed reading → reading.Advance token next → P (consumed ++ [token]) next)
    {consumed tokens : List Token} {reading last : Reading} (hstart : P consumed reading)
    (hreads : reading.readAll tokens = .ok last) : P (consumed ++ tokens) last := by
  induction tokens generalizing consumed reading with
  | nil =>
      cases hreads
      rwa [List.append_nil]
  | cons token tokens ih =>
      obtain ⟨next, hadvance, hrest⟩ := exists_of_readAll_cons hreads
      have hlast := ih (hkeeps hstart hadvance) hrest
      rwa [List.append_assoc] at hlast

end Reading

/-! ### Delimiters that are left open -/

/-- The kind of a token that opens or closes a list. -/
def Kind.isDelimiter : Kind → Bool
  | .opening _ => true
  | .closing _ => true
  | _ => false

/-- Every list that the tokens open they also close, in the order that nesting asks for. -/
inductive Balanced : List Token → Prop
  | nil : Balanced []
  | plain {token : Token} {tokens : List Token} (hkind : token.kind.isDelimiter = false)
      (hrest : Balanced tokens) : Balanced (token :: tokens)
  | list {opener closer : Token} {inner tokens : List Token} {delimiter : Delimiter}
      (hopener : opener.kind = .opening delimiter) (hcloser : closer.kind = .closing delimiter)
      (hinner : Balanced inner) (hrest : Balanced tokens) :
      Balanced (opener :: (inner ++ closer :: tokens))

theorem Balanced.append {first second : List Token} (hfirst : Balanced first)
    (hsecond : Balanced second) : Balanced (first ++ second) := by
  induction hfirst with
  | nil => exact hsecond
  | plain hkind _ ih => exact .plain hkind ih
  | list hopener hcloser hinner _ _ ih =>
      rw [List.cons_append, List.append_assoc]
      exact .list hopener hcloser hinner ih

/-- The tokens leave open the lists that `openers` open, the innermost of which is the first. -/
inductive Unclosed : List Token → List Token → Prop
  | none {tokens : List Token} (htokens : Balanced tokens) : Unclosed tokens []
  | opened {before after openers : List Token} {opener : Token} {delimiter : Delimiter}
      (hbefore : Unclosed before openers) (hopener : opener.kind = .opening delimiter)
      (hafter : Balanced after) : Unclosed (before ++ opener :: after) (opener :: openers)

namespace Unclosed

variable {tokens openers : List Token} {token opener : Token} {delimiter : Delimiter}

theorem append_balanced {more : List Token} (htokens : Unclosed tokens openers)
    (hmore : Balanced more) : Unclosed (tokens ++ more) openers := by
  cases htokens with
  | none htokens => exact .none (htokens.append hmore)
  | opened hbefore hopener hafter =>
      rw [List.append_assoc]
      exact .opened hbefore hopener (hafter.append hmore)

theorem close (htokens : Unclosed tokens (opener :: openers))
    (hopener : opener.kind = .opening delimiter) (hcloser : token.kind = .closing delimiter) :
    Unclosed (tokens ++ [token]) openers := by
  cases htokens with
  | opened hbefore _ hafter =>
      rw [List.append_assoc]
      exact hbefore.append_balanced (.list hopener hcloser hafter .nil)

theorem kind_of_mem (htokens : Unclosed tokens openers) (hmem : opener ∈ openers) :
    ∃ delimiter, opener.kind = .opening delimiter := by
  induction htokens with
  | none _ => cases hmem
  | opened _ hopener _ ih =>
      cases hmem with
      | head => exact ⟨_, hopener⟩
      | tail _ hmem => exact ih hmem

end Unclosed

theorem Token.isDelimiter_of_literal? {token : Token} {node : Node}
    (hnode : token.literal? = some node) : token.kind.isDelimiter = false := by
  unfold Token.literal? at hnode
  split at hnode
  · rename_i hkind
    rw [hkind]
    rfl
  · rename_i hkind
    rw [hkind]
    rfl
  · rename_i hkind
    rw [hkind]
    rfl
  · cases hnode

namespace Reading

def openers (reading : Reading) : List Token := reading.lists.map (·.opener)

@[simp]
theorem openers_put (reading : Reading) (node : Node) :
    (reading.put node).openers = reading.openers := by
  unfold put openers
  cases reading.lists <;> rfl

theorem unclosed_advance {consumed : List Token} {reading next : Reading} {token : Token}
    (hconsumed : Unclosed consumed reading.openers) (hadvance : reading.Advance token next) :
    Unclosed (consumed ++ [token]) next.openers := by
  cases hadvance with
  | literal hnode =>
      rw [openers_put]
      exact hconsumed.append_balanced (.plain (Token.isDelimiter_of_literal? hnode) .nil)
  | comment hkind =>
      have hplain : token.kind.isDelimiter = false := by
        rw [hkind]
        rfl
      exact hconsumed.append_balanced (.plain hplain .nil)
  | opening hkind => exact .opened hconsumed hkind .nil
  | closing hkind hlists hopener =>
      rw [openers, hlists, List.map_cons] at hconsumed
      rw [openers_put]
      exact hconsumed.close hopener hkind

/-- The open lists are those that the tokens leave open. -/
theorem unclosed_readAll {tokens : List Token} {last : Reading}
    (hreads : start.readAll tokens = .ok last) : Unclosed tokens last.openers := by
  have hstart : Unclosed [] start.openers := .none .nil
  exact invariant_readAll (P := fun consumed reading => Unclosed consumed reading.openers)
    unclosed_advance hstart hreads

theorem kind_ne_invalid_of_advance {reading next : Reading} {token : Token}
    (hadvance : reading.Advance token next) : token.kind ≠ .invalid := by
  intro hinvalid
  cases hadvance with
  | literal hnode => simp [Token.literal?, hinvalid] at hnode
  | comment hkind => simp [hinvalid] at hkind
  | opening hkind => simp [hinvalid] at hkind
  | closing hkind _ _ => simp [hinvalid] at hkind

theorem kind_ne_invalid_of_readAll {tokens : List Token} {reading last : Reading}
    (hreads : reading.readAll tokens = .ok last) : ∀ token ∈ tokens, token.kind ≠ .invalid := by
  have hstart : ∀ token ∈ ([] : List Token), token.kind ≠ .invalid := by simp
  refine invariant_readAll (P := fun consumed _ => ∀ token ∈ consumed, token.kind ≠ .invalid)
    ?_ hstart hreads
  intro consumed reading token next hconsumed hadvance token' hmem
  rcases List.mem_append.mp hmem with hmem | hmem
  · exact hconsumed token' hmem
  · cases List.mem_singleton.mp hmem
    exact kind_ne_invalid_of_advance hadvance

/-! ### Closing what is open -/

/-- The delimiters that match the openers close all lists. -/
theorem exists_readAll_closing {delimiters : List Delimiter} {tokens : List Token}
    {reading : Reading}
    (hopeners : reading.openers.map (·.kind) = delimiters.map .opening)
    (htokens : tokens.map (·.kind) = delimiters.map .closing) :
    ∃ done, reading.readAll tokens = .ok ⟨done, []⟩ := by
  induction delimiters generalizing tokens reading with
  | nil =>
      obtain ⟨done, lists⟩ := reading
      simp only [openers, List.map_nil, List.map_eq_nil_iff] at hopeners htokens
      subst hopeners htokens
      exact ⟨done, rfl⟩
  | cons delimiter delimiters ih =>
      obtain ⟨done, lists⟩ := reading
      obtain ⟨token, tokens, rfl, hkind, htokens⟩ := List.map_eq_cons_iff.mp htokens
      obtain ⟨opener, openers', hcons, hopener, hopeners⟩ := List.map_eq_cons_iff.mp hopeners
      obtain ⟨list, lists, rfl, rfl, rfl⟩ := List.map_eq_cons_iff.mp hcons
      have hadvance : Advance ⟨done, list :: lists⟩ token
          (put ⟨done, lists⟩ (Node.ofItems list.items.reverse)) := .closing hkind rfl hopener
      rw [readAll_cons, step_of_advance hadvance]
      apply ih _ htokens
      rw [openers_put]
      exact hopeners

end Reading

/-! ### Words matter, places do not -/

theorem Token.literal?_congr {token token' : Token} (hword : token.word = token'.word) :
    token.literal? = token'.literal? := by
  obtain ⟨hkind, htext⟩ := Prod.mk.inj hword
  simp only [Token.literal?, hkind, htext]

/-- What an open list is, wherever it was opened. -/
def OpenList.shape (list : OpenList) : Kind × List Node := (list.opener.kind, list.items)

namespace Reading

/-- Two readings of lists of the same shapes, the first of which has read the expressions `old`
before. -/
structure Resumes (old : List Node) (reading fresh : Reading) : Prop where
  done : reading.done = fresh.done ++ old
  shapes : reading.lists.map OpenList.shape = fresh.lists.map OpenList.shape

theorem Resumes.put {old : List Node} {reading fresh : Reading}
    (hresumes : Resumes old reading fresh) (node : Node) :
    Resumes old (reading.put node) (fresh.put node) := by
  obtain ⟨done, lists⟩ := reading
  obtain ⟨done', lists'⟩ := fresh
  obtain ⟨hdone, hshapes⟩ := hresumes
  cases lists with
  | nil =>
      cases List.map_eq_nil_iff.mp hshapes.symm
      exact ⟨congrArg (List.cons node) hdone, rfl⟩
  | cons list lists =>
      obtain ⟨list', lists', rfl, hshape, hshapes⟩ := List.map_eq_cons_iff.mp hshapes.symm
      refine ⟨hdone, ?_⟩
      obtain ⟨hkind, hitems⟩ := Prod.mk.inj hshape
      simp only [Reading.put, List.map_cons, OpenList.shape, hkind, hitems] at hshapes ⊢
      rw [hshapes]

/-- The same word does the same to lists of the same shapes. -/
theorem Resumes.advance {old : List Node} {reading fresh next : Reading} {token token' : Token}
    (hresumes : Resumes old reading fresh) (hword : token.word = token'.word)
    (hadvance : reading.Advance token next) :
    ∃ next', fresh.Advance token' next' ∧ Resumes old next next' := by
  have hkinds : token.kind = token'.kind := congrArg Prod.fst hword
  cases hadvance with
  | literal hnode => exact ⟨_, .literal (Token.literal?_congr hword ▸ hnode), hresumes.put _⟩
  | comment hkind => exact ⟨fresh, .comment (hkinds ▸ hkind), hresumes⟩
  | opening hkind =>
      refine ⟨_, .opening (hkinds ▸ hkind), hresumes.done, ?_⟩
      simp only [List.map_cons, OpenList.shape, hkinds]
      exact congrArg (List.cons _) hresumes.shapes
  | @closing delimiter list lists hkind hlists hopener =>
      have hshapes := hresumes.shapes
      rw [hlists] at hshapes
      obtain ⟨list', lists', hlists', hshape, hrest⟩ := List.map_eq_cons_iff.mp hshapes.symm
      obtain ⟨hopeners, hitems⟩ := Prod.mk.inj hshape
      refine ⟨_, .closing (hkinds ▸ hkind) hlists' (hopeners.trans hopener), ?_⟩
      have hinner : Resumes old ⟨reading.done, lists⟩ ⟨fresh.done, lists'⟩ :=
        ⟨hresumes.done, hrest.symm⟩
      rw [hitems]
      exact hinner.put _

/-- A run of tokens does the same wherever it stands and whatever has been read before it. -/
theorem Resumes.readAll {old : List Node} {reading fresh last : Reading}
    {tokens tokens' : List Token} (hresumes : Resumes old reading fresh)
    (hwords : tokens.map Token.word = tokens'.map Token.word)
    (hreads : reading.readAll tokens = .ok last) :
    ∃ last', fresh.readAll tokens' = .ok last' ∧ Resumes old last last' := by
  induction tokens generalizing reading fresh tokens' with
  | nil =>
      cases List.map_eq_nil_iff.mp hwords.symm
      cases hreads
      exact ⟨fresh, rfl, hresumes⟩
  | cons token tokens ih =>
      obtain ⟨token', tokens', rfl, hword, hwords⟩ := List.map_eq_cons_iff.mp hwords.symm
      obtain ⟨next, hadvance, hrest⟩ := exists_of_readAll_cons hreads
      obtain ⟨next', hadvance', hnext⟩ := hresumes.advance hword.symm hadvance
      obtain ⟨last', hlast', hresumes'⟩ := ih hnext hwords.symm hrest
      refine ⟨last', ?_, hresumes'⟩
      rw [readAll_cons, step_of_advance hadvance']
      exact hlast'

end Reading

end ProtoLisp
