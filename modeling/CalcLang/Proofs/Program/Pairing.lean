import CalcLang.Proofs.Program.Language
import CalcLang.Proofs.Program.Onward
import Mathlib.Data.List.Forall2

/-! # Two runs side by side

    Two programs, or one program under two sets of options, that are read in lock step.  What it takes
    for the second run to do the same as the first one is asked for token by token and span by span:

    * `Pairing`: what the tokens, trees, notes and errors of two runs have to do with each other, and
      the laws that the readers of words and spans rely on.
    * `Pairing.Agree`: two readings that take paired sessions to paired results.
    * `Pairing.agree_readProgram`, `Pairing.paired_compile`: then both runs end alike.

    The second run may also end for good where the first one goes on.  It is then parted from the
    first one, which can only add to its notes. -/

namespace CalcLang

open Reading

variable {α β γ δ : Type}

theorem eq_of_forall₂ {xs ys : List α} (h : List.Forall₂ Eq xs ys) : xs = ys := by
  rw [List.forall₂_eq_eq_eq] at h
  exact h

/-- What the parts of two runs have to do with each other. -/
structure Pairing where
  options : ReadOptions → ReadOptions → Prop
  token : Token → Token → Prop
  node : Node → Node → Prop
  note : Diagnostic → Diagnostic → Prop
  error : ParseError → ParseError → Prop
  /-- What is known of the spans that are read. -/
  span : List Token → Prop
  /-- The second run has ended with an error, with the notes of the first one so far. -/
  parted : List Diagnostic → ParseError → Prop
  kind_eq {a b : Token} : token a b → a.kind = b.kind
  requireTitle_eq {o p : ReadOptions} : options o p → o.requireTitle = p.requireTitle
  node_branch {a b : Token} {cs ds : List Node} :
    token a b → List.Forall₂ node cs ds → node (.branch a cs) (.branch b ds)
  node_block {a b : Token} {cs ds : List Node} :
    token a b → List.Forall₂ node cs ds →
      node (.phrase .block a.line cs) (.phrase .block b.line ds)
  error_pinned {a b : Token} (fault : Fault) :
    token a b → error (.pinned a fault) (.pinned b fault)
  error_unsupported {a b : Token} (feature : Keyword) :
    token a b → error (.unsupported feature a.line) (.unsupported feature b.line)
  span_prefix {xs ys : List Token} : xs <+: ys → span ys → span xs
  expression {o p : ReadOptions} {xs ys : List Token} :
    options o p → span xs → List.Forall₂ token xs ys →
      PairedResults node error (readExpression o xs).result (readExpression p ys).result
  condition {o p : ReadOptions} {xs ys : List Token} :
    options o p → span xs → List.Forall₂ token xs ys →
      PairedResults node error (readCondition o xs).result (readCondition p ys).result
  /-- A token that starts no statement is treated alike, or it parts the runs. -/
  unknown {o p : ReadOptions} {a b : Token} :
    options o p → token a b →
      (o.unknownStatements = p.unknownStatements ∧ note (.ofSkipped a) (.ofSkipped b)) ∨
        (o.unknownStatements = .skip ∧ p.unknownStatements = .reject ∧
          ∀ notes notes', List.Forall₂ note notes notes' →
            parted (notes ++ [.ofSkipped a]) (.pinned b .unexpectedToken))
  parted_append {notes : List Diagnostic} {e : ParseError} (more : List Diagnostic) :
    parted notes e → parted (notes ++ more) e

namespace Pairing

/-! ### Sessions -/

/-- Two sessions at the same place of two runs. -/
structure Sessions (P : Pairing) (s t : Session) : Prop where
  options : P.options s.options t.options
  passed : List.Forall₂ P.token s.passed t.passed
  ahead : List.Forall₂ P.token s.ahead t.ahead
  terminator : P.token s.terminator t.terminator
  diagnostics : List.Forall₂ P.note s.diagnostics t.diagnostics
  /-- What is ahead up to the end of a line, from wherever it is read. -/
  lines (before after : List Token) :
    s.ahead = before ++ after → P.span (after.takeWhile (!·.kind.endsLine))

variable {P : Pairing} {s t : Session} {line line' : List Token}

theorem kinds_eq (h : List.Forall₂ P.token line line') :
    line.map Token.kind = line'.map Token.kind := by
  induction h with
  | nil => rfl
  | cons hfirst hrest ih => rw [List.map_cons, List.map_cons, P.kind_eq hfirst, ih]

theorem forall₂_takeWhile (p : Kind → Bool) (h : List.Forall₂ P.token line line') :
    List.Forall₂ P.token (line.takeWhile (p ·.kind)) (line'.takeWhile (p ·.kind)) := by
  induction h with
  | nil => exact .nil
  | cons hfirst hrest ih =>
    rw [List.takeWhile_cons, List.takeWhile_cons, P.kind_eq hfirst]
    split
    · exact .cons hfirst ih
    · exact .nil

theorem headD {R : α → β → Prop} {xs : List α} {ys : List β} {a : α} {b : β}
    (h : List.Forall₂ R xs ys) (hdefault : R a b) : R (xs.headD a) (ys.headD b) := by
  cases h with
  | nil => exact hdefault
  | cons hfirst hrest => exact hfirst

theorem isEmpty_eq {R : α → β → Prop} {xs : List α} {ys : List β} (h : List.Forall₂ R xs ys) :
    xs.isEmpty = ys.isEmpty := by
  cases h <;> rfl

namespace Sessions

theorem next (h : P.Sessions s t) : P.token s.next t.next :=
  headD h.ahead h.terminator

theorem restOfLine (h : P.Sessions s t) : List.Forall₂ P.token s.restOfLine t.restOfLine :=
  forall₂_takeWhile (!·.endsLine) h.ahead

theorem span_restOfLine (h : P.Sessions s t) : P.span s.restOfLine :=
  h.lines [] s.ahead rfl

theorem atLineStart (h : P.Sessions s t) : s.atLineStart = t.atLineStart := by
  have hpassed := h.passed
  unfold Session.atLineStart
  generalize s.passed = here, t.passed = there at hpassed ⊢
  cases hpassed with
  | nil => rfl
  | cons hfirst hrest => simp only [Token.isLineBreak, P.kind_eq hfirst]

theorem tokens (h : P.Sessions s t) : List.Forall₂ P.token s.tokens t.tokens :=
  List.rel_append (List.rel_append (List.forall₂_reverse_iff.2 h.passed) h.ahead)
    (.cons h.terminator .nil)

theorem startsWithTitle (h : P.Sessions s t) : s.startsWithTitle = t.startsWithTitle := by
  have htokens := h.tokens
  unfold Session.startsWithTitle
  generalize s.tokens = here, t.tokens = there at htokens ⊢
  cases htokens with
  | nil => rfl
  | cons hfirst hrest =>
    cases hrest with
    | nil => rfl
    | cons hsecond hrest => simp only [P.kind_eq hfirst, P.kind_eq hsecond]

theorem skip (count : Nat) (h : P.Sessions s t) : P.Sessions (s.skip count) (t.skip count) where
  options := h.options
  passed := List.rel_append (List.forall₂_reverse_iff.2 (List.forall₂_take count h.ahead)) h.passed
  ahead := List.forall₂_drop count h.ahead
  terminator := h.terminator
  diagnostics := h.diagnostics
  lines before after hahead := by
    apply h.lines (s.ahead.take count ++ before) after
    rw [List.append_assoc, ← hahead]
    exact (List.take_append_drop count s.ahead).symm

theorem advance (h : P.Sessions s t) : P.Sessions s.advance t.advance := by
  unfold Session.advance
  rw [P.kind_eq h.next]
  split
  · exact h
  · exact h.skip 1

theorem skipLineBreaks (h : P.Sessions s t) : P.Sessions s.skipLineBreaks t.skipLineBreaks := by
  have hbreaks := forall₂_takeWhile (P := P) (· == .lineBreak) h.ahead
  have hlength := hbreaks.length_eq
  unfold Session.skipLineBreaks
  unfold Token.isLineBreak
  rw [hlength]
  exact h.skip _

theorem note {d e : Diagnostic} (h : P.Sessions s t) (hnote : P.note d e) :
    P.Sessions { s with diagnostics := s.diagnostics ++ [d] }
      { t with diagnostics := t.diagnostics ++ [e] } :=
  { h with diagnostics := List.rel_append h.diagnostics (.cons hnote .nil) }

theorem logged (h : P.Sessions s t) (records records' : List Record) :
    P.Sessions { s with log := s.log ++ records } { t with log := t.log ++ records' } :=
  { h with }

end Sessions

/-! ### Readings -/

/-- How two runs may go on after two readings. -/
inductive Outcomes (P : Pairing) (value : α → β → Prop) :
    EStateM.Result ParseError Session α → EStateM.Result ParseError Session β → Prop where
  | ok {a : α} {b : β} {s t : Session} (h : value a b) (hs : P.Sessions s t) :
      Outcomes P value (.ok a s) (.ok b t)
  | error {e f : ParseError} {s t : Session} (h : P.error e f) (hs : P.Sessions s t) :
      Outcomes P value (.error e s) (.error f t)
  | partedOk {a : α} {e : ParseError} {s t : Session} (h : P.parted s.diagnostics e) :
      Outcomes P value (.ok a s) (.error e t)
  | partedError {e f : ParseError} {s t : Session} (h : P.parted s.diagnostics f) :
      Outcomes P value (.error e s) (.error f t)

/-- Two readings that take paired sessions to paired results. -/
def Agree (P : Pairing) (value : α → β → Prop) (x : Reading α) (y : Reading β) : Prop :=
  ∀ s t, P.Sessions s t → P.Outcomes value (x s) (y t)

/-- A result that does not matter. -/
def Any (_ : α) (_ : β) : Prop := True

variable {value : α → β → Prop} {value' : γ → δ → Prop} {x x' : Reading α} {y y' : Reading β}

theorem agree_pure {a : α} {b : β} (h : value a b) : P.Agree value (pure a) (pure b) :=
  fun _ _ hs => .ok h hs

theorem agree_throw {e f : ParseError} (h : P.error e f) : P.Agree value (throw e) (throw f) :=
  fun _ _ hs => .error h hs

/-- What the first run does once the second one has ended is only to add to its notes. -/
theorem outcomes_parted (z : Reading γ) [hz : Onward z] {s t : Session} {e : ParseError}
    (h : P.parted s.diagnostics e) : P.Outcomes value' (z s) (.error e t) := by
  obtain ⟨tokens, skipped, hmoves⟩ := hz.moves s
  have hnotes := P.parted_append (skipped.map .ofSkipped) h
  rw [← hmoves.diagnostics] at hnotes
  unfold after at hnotes
  cases hrun : z s with
  | ok c s' =>
    rw [hrun] at hnotes
    exact .partedOk hnotes
  | error d s' =>
    rw [hrun] at hnotes
    exact .partedError hnotes

theorem Agree.bind {f : α → Reading γ} {g : β → Reading δ} [∀ a, Onward (f a)]
    (h : P.Agree value x y) (hnext : ∀ a b, value a b → P.Agree value' (f a) (g b)) :
    P.Agree value' (x >>= f) (y >>= g) := by
  intro s t hs
  have hfirst := h s t hs
  rw [run_bind, run_bind]
  generalize x s = one, y t = two at hfirst ⊢
  cases hfirst with
  | ok hvalue hs' => exact hnext _ _ hvalue _ _ hs'
  | error herror hs' => exact .error herror hs'
  | partedOk hparted => exact outcomes_parted _ hparted
  | partedError hparted => exact .partedError hparted

/-- Looking at the sessions parts no runs, so whatever follows will do. -/
theorem agree_get_bind {f : Session → Reading γ} {g : Session → Reading δ}
    (h : ∀ s t, P.Sessions s t → P.Agree value' (f s) (g t)) :
    P.Agree value' (get >>= f) (get >>= g) :=
  fun s t hs => h s t hs s t hs

theorem Agree.map {f : α → γ} {g : β → δ} (h : P.Agree value x y)
    (hvalue : ∀ a b, value a b → value' (f a) (g b)) : P.Agree value' (f <$> x) (g <$> y) := by
  intro s t hs
  have hfirst := h s t hs
  simp only [Functor.map, EStateM.map]
  generalize x s = one, y t = two at hfirst ⊢
  cases hfirst with
  | ok h hs' => exact .ok (hvalue _ _ h) hs'
  | error herror hs' => exact .error herror hs'
  | partedOk hparted => exact .partedOk hparted
  | partedError hparted => exact .partedError hparted

theorem agree_ite {c c' : Prop} [Decidable c] [Decidable c'] (hc : c ↔ c')
    (h : P.Agree value x y) (h' : P.Agree value x' y') :
    P.Agree value (if c then x else x') (if c' then y else y') := by
  by_cases hcase : c
  · rw [if_pos hcase, if_pos (hc.1 hcase)]
    exact h
  · rw [if_neg hcase, if_neg fun hcase' => hcase (hc.2 hcase')]
    exact h'

theorem agree_modify {f g : Session → Session} (h : ∀ s t, P.Sessions s t → P.Sessions (f s) (g t)) :
    P.Agree Any (modify f) (modify g) :=
  fun s t hs => .ok trivial (h s t hs)

theorem agree_skip {count count' : Nat} (h : count = count') :
    P.Agree Any (modify (·.skip count)) (modify (·.skip count')) := by
  rw [h]
  exact agree_modify fun _ _ hs => hs.skip count'

theorem agree_skipLineBreaks :
    P.Agree Any (modify Session.skipLineBreaks) (modify Session.skipLineBreaks) :=
  agree_modify fun _ _ hs => hs.skipLineBreaks

theorem agree_peek : P.Agree P.token peek peek :=
  agree_get_bind fun _ _ hs => agree_pure hs.next

theorem agree_take : P.Agree P.token take take :=
  fun _ _ hs => .ok hs.next hs.advance

theorem agree_expect (allowed : Kind → Bool) {fault fault' : Fault} (h : fault = fault') :
    P.Agree P.token (expect allowed fault) (expect allowed fault') := by
  rw [h]
  exact agree_peek.bind fun _ _ htoken =>
    agree_ite (by rw [P.kind_eq htoken]) agree_take (agree_throw (P.error_pinned fault' htoken))

theorem agree_require {holds holds' : Bool} {e f : ParseError} (h : holds = holds')
    (herror : P.error e f) : P.Agree Any (require holds e) (require holds' f) :=
  agree_ite (by rw [h]) (agree_pure trivial) (agree_throw herror)

theorem agree_record (records records' : List Record) :
    P.Agree Any (record records) (record records') :=
  agree_modify fun _ _ hs => hs.logged records records'

/-- Neither does a record of what is read. -/
theorem agree_trace_bind (text text' : String) (h : P.Agree value x y) :
    P.Agree value (trace text >>= fun _ => x) (trace text' >>= fun _ => y) := by
  intro s t hs
  rw [run_bind, run_bind, run_trace, run_trace]
  exact h _ _ (hs.logged _ _)

theorem agree_note {d e : Diagnostic} (h : P.note d e) :
    P.Agree Any (Reading.note d) (Reading.note e) :=
  agree_modify fun _ _ hs => hs.note h

theorem agree_ofLogged {action : Logged ParseError α} {action' : Logged ParseError β}
    (h : PairedResults value P.error action.result action'.result) :
    P.Agree value (ofLogged action) (ofLogged action') := by
  intro s t hs
  have hs' := hs.logged action.records action'.records
  unfold ofLogged
  rw [run_bind, run_bind]
  generalize action.result = one, action'.result = two at h ⊢
  cases h with
  | ok h => exact .ok h hs'
  | error h => exact .error h hs'

/-! ### Statements -/

theorem node_leaf {a b : Token} (h : P.token a b) : P.node (.leaf a) (.leaf b) :=
  P.node_branch h .nil

theorem agree_readTitle : P.Agree P.node readTitle readTitle := by
  unfold readTitle
  refine agree_get_bind fun s t hs => agree_take.bind fun keyword keyword' hkeyword => ?_
  refine (agree_require (isEmpty_eq hs.passed) (P.error_pinned _ hkeyword)).bind fun _ _ _ => ?_
  refine (agree_expect _ rfl).bind fun title title' htitle => ?_
  exact agree_pure (P.node_branch hkeyword (.cons (node_leaf htitle) .nil))

theorem agree_readVersion : P.Agree P.node readVersion readVersion := by
  unfold readVersion
  refine agree_take.bind fun keyword keyword' hkeyword => ?_
  refine (agree_expect _ rfl).bind fun major major' hmajor => ?_
  refine (agree_expect _ rfl).bind fun minor minor' hminor => ?_
  refine (agree_expect _ rfl).bind fun patch patch' hpatch => ?_
  exact agree_pure (P.node_branch hkeyword
    (.cons (node_leaf hmajor) (.cons (node_leaf hminor) (.cons (node_leaf hpatch) .nil))))

theorem agree_readDeclaration : P.Agree P.node readDeclaration readDeclaration := by
  unfold readDeclaration
  refine agree_get_bind fun s t hs => ?_
  refine (agree_require hs.atLineStart (P.error_pinned _ hs.next)).bind fun _ _ _ => ?_
  refine agree_take.bind fun type type' htype => ?_
  refine (agree_expect _ (by rw [P.kind_eq htype])).bind fun declared declared' hdeclared => ?_
  exact agree_pure (P.node_branch htype (.cons (node_leaf hdeclared) .nil))

theorem agree_readImplicit : P.Agree P.node readImplicit readImplicit := by
  unfold readImplicit
  refine agree_take.bind fun keyword keyword' hkeyword => ?_
  refine (agree_expect _ rfl).bind fun type type' htype => ?_
  refine (agree_expect _ rfl).bind fun declared declared' hdeclared => ?_
  exact agree_pure
    (P.node_branch hkeyword (.cons (node_leaf htype) (.cons (node_leaf hdeclared) .nil)))

theorem agree_readAssignment : P.Agree P.node readAssignment readAssignment := by
  unfold readAssignment
  refine agree_take.bind fun target target' htarget => agree_take.bind fun arrow arrow' harrow => ?_
  refine agree_get_bind fun s t hs => ?_
  have hspan := hs.restOfLine
  refine (agree_require (by rw [isEmpty_eq hspan]) (P.error_pinned _ harrow)).bind fun _ _ _ => ?_
  have hread := P.expression hs.options hs.span_restOfLine hspan
  refine (agree_ofLogged hread).bind fun tree tree' htree => ?_
  refine (agree_skip hspan.length_eq).bind fun _ _ _ => ?_
  exact agree_pure (P.node_branch harrow (.cons (node_leaf htarget) (.cons htree .nil)))

theorem agree_readStore {span span' : List Token} {arrow arrow' target target' : Token}
    (hline : P.span span) (hspan : List.Forall₂ P.token span span')
    (harrow : P.token arrow arrow') (htarget : P.token target target') :
    P.Agree P.node (readStore span arrow target) (readStore span' arrow' target') := by
  unfold readStore
  refine agree_get_bind fun s t hs => ?_
  refine (agree_ofLogged (P.expression hs.options hline hspan)).bind fun tree tree' htree => ?_
  refine (agree_skip (by rw [hspan.length_eq])).bind fun _ _ _ => ?_
  exact agree_pure (P.node_branch harrow (.cons (node_leaf htarget) (.cons htree .nil)))

theorem agree_readJump : P.Agree P.node readJump readJump := by
  unfold readJump
  refine agree_get_bind fun s t hs => ?_
  have hkind := P.kind_eq hs.next
  refine (agree_require hs.atLineStart (hkind ▸ P.error_pinned _ hs.next)).bind fun _ _ _ => ?_
  refine agree_take.bind fun keyword keyword' hkeyword => ?_
  refine (agree_expect _ (by rw [P.kind_eq hkeyword])).bind fun target target' htarget => ?_
  exact agree_pure (P.node_branch hkeyword (.cons (node_leaf htarget) .nil))

theorem agree_readDisp : P.Agree P.node readDisp readDisp := by
  unfold readDisp
  refine agree_take.bind fun keyword keyword' hkeyword => ?_
  refine (agree_expect _ rfl).bind fun operand operand' hoperand => ?_
  exact agree_pure (P.node_branch hkeyword (.cons (node_leaf hoperand) .nil))

theorem agree_readDispStr : P.Agree P.node readDispStr readDispStr := by
  unfold readDispStr
  refine agree_take.bind fun keyword keyword' hkeyword => ?_
  refine (agree_expect _ rfl).bind fun operand operand' hoperand => ?_
  exact agree_pure (P.node_branch hkeyword (.cons (node_leaf hoperand) .nil))

/-- A token that starts no statement is skipped in both runs, is an error in both runs, or parts
    them. -/
theorem agree_skipUnknown : P.Agree (Option.Rel P.node) skipUnknown skipUnknown := by
  unfold skipUnknown
  refine agree_take.bind fun token token' htoken => agree_get_bind fun s t hs => ?_
  obtain ⟨hpolicy, hnote⟩ | ⟨hskip, hreject, hparted⟩ := P.unknown hs.options htoken
  · refine (agree_require (by rw [hpolicy]) (P.error_pinned _ htoken)).bind fun _ _ _ => ?_
    exact (agree_record _ _).bind fun _ _ _ => (agree_note hnote).bind fun _ _ _ => agree_pure .none
  · intro s' t' hs'
    rw [hskip, hreject]
    exact .partedOk (hparted _ _ hs'.diagnostics)

/-- The parts of two lines that store. -/
structure StoreParts (P : Pairing) (parts parts' : List Token × Token × Token) : Prop where
  line : P.span parts.1
  span : List.Forall₂ P.token parts.1 parts'.1
  arrow : P.token parts.2.1 parts'.2.1
  target : P.token parts.2.2 parts'.2.2

theorem rel_storeParts? (hline : P.span line) (h : List.Forall₂ P.token line line') :
    Option.Rel P.StoreParts (storeParts? line) (storeParts? line') := by
  have hcount : line.countP (·.kind == .assign) = line'.countP (·.kind == .assign) := by
    have hkinds := congrArg (List.countP (· == .assign)) (kinds_eq h)
    rw [List.countP_map, List.countP_map] at hkinds
    exact hkinds
  have hreverse := List.forall₂_reverse_iff.2 h
  unfold storeParts?
  rw [hcount]
  generalize hback : line.reverse = back, line'.reverse = back' at hreverse ⊢
  cases hreverse with
  | nil => exact .none
  | cons htarget hrest =>
    cases hrest with
    | nil => exact .none
    | cons harrow hrest =>
      cases hrest with
      | nil => exact .none
      | cons hlast hrest =>
        simp only [P.kind_eq htarget, P.kind_eq harrow]
        split
        · -- The span is what stands before the arrow and the target.
          rw [List.reverse_eq_iff, List.reverse_cons, List.reverse_cons, List.append_assoc] at hback
          rw [hback] at hline
          exact .some ⟨P.span_prefix (List.prefix_append _ _) hline,
            List.forall₂_reverse_iff.2 (.cons hlast hrest), harrow, htarget⟩
        · exact .none

theorem kind_getElem? {here there : List Token} (index : Nat)
    (h : List.Forall₂ P.token here there) :
    here[index]?.map Token.kind = there[index]?.map Token.kind := by
  rw [← List.getElem?_map, ← List.getElem?_map, kinds_eq h]

/-- The statements that no keyword starts. -/
theorem agree_readOther {s t : Session} (hs : P.Sessions s t) (kind : Kind) :
    P.Agree (Option.Rel P.node)
      (if kind.isVariable ∧ (s.ahead[1]?.map Token.kind) = some .assign then
        some <$> readAssignment
      else
        match if s.atLineStart then storeParts? s.restOfLine else none with
        | some (span, arrow, target) => some <$> readStore span arrow target
        | none => skipUnknown)
      (if kind.isVariable ∧ (t.ahead[1]?.map Token.kind) = some .assign then
        some <$> readAssignment
      else
        match if t.atLineStart then storeParts? t.restOfLine else none with
        | some (span, arrow, target) => some <$> readStore span arrow target
        | none => skipUnknown) := by
  refine agree_ite (by rw [kind_getElem? 1 hs.ahead]) (agree_readAssignment.map fun _ _ => .some) ?_
  have hparts : Option.Rel P.StoreParts (if s.atLineStart then storeParts? s.restOfLine else none)
      (if t.atLineStart then storeParts? t.restOfLine else none) := by
    rw [hs.atLineStart]
    split
    · exact rel_storeParts? hs.span_restOfLine hs.restOfLine
    · exact .none
  generalize (if s.atLineStart then storeParts? s.restOfLine else none) = parts,
    (if t.atLineStart then storeParts? t.restOfLine else none) = parts' at hparts ⊢
  cases hparts with
  | none => exact agree_skipUnknown
  | some hparts =>
    exact (agree_readStore hparts.line hparts.span hparts.arrow hparts.target).map fun _ _ => .some

section Blocks

variable {readBlock : BlockEnd → Reading (List Node)}
  (hblock : ∀ stop, P.Agree (List.Forall₂ P.node) (readBlock stop) (readBlock stop))

include hblock

theorem agree_readBranch {opener opener' : Token} (h : P.token opener opener') (stop : BlockEnd) :
    P.Agree P.node (readBranch readBlock opener stop) (readBranch readBlock opener' stop) := by
  unfold readBranch
  refine (hblock stop).bind fun statements statements' hstatements => ?_
  refine (agree_require (by rw [isEmpty_eq hstatements]) (P.error_pinned _ h)).bind fun _ _ _ => ?_
  exact agree_pure (P.node_block h hstatements)

variable [∀ stop, Onward (readBlock stop)]

theorem agree_readAlternative : P.Agree (List.Forall₂ P.node) (readAlternative readBlock)
    (readAlternative readBlock) := by
  unfold readAlternative
  refine agree_get_bind fun s t hs => ?_
  refine agree_ite (by rw [P.kind_eq hs.next]) ?_ (agree_pure .nil)
  refine agree_take.bind fun elseWord elseWord' helse => ?_
  refine (agree_readBranch hblock helse _).bind fun other other' hother => ?_
  refine agree_peek.bind fun after after' hafter => ?_
  have hkind := P.kind_eq hafter
  refine (agree_require (by rw [hkind]) (P.error_pinned _ hafter)).bind fun _ _ _ => ?_
  exact agree_pure (.cons hother .nil)

theorem agree_readBranches {keyword keyword' : Token} (h : P.token keyword keyword') :
    P.Agree (List.Forall₂ P.node) (readBranches readBlock keyword)
      (readBranches readBlock keyword') := by
  unfold readBranches
  refine (agree_readBranch hblock h _).bind fun body body' hbody => ?_
  refine (agree_readAlternative hblock).bind fun alternative alternative' halternative => ?_
  refine agree_peek.bind fun after after' hafter => ?_
  have hkind := P.kind_eq hafter
  refine (agree_require (by rw [hkind]) (P.error_pinned _ h)).bind fun _ _ _ => ?_
  exact agree_take.bind fun _ _ _ => agree_pure (.cons hbody halternative)

theorem agree_readConditional :
    P.Agree P.node (readConditional readBlock) (readConditional readBlock) := by
  unfold readConditional
  refine agree_take.bind fun keyword keyword' hkeyword => agree_get_bind fun s t hs => ?_
  have hline := hs.restOfLine
  have hspan := forall₂_takeWhile (P := P) (· ≠ .keyword .thenWord) hline
  have hread := P.condition hs.options
    (P.span_prefix (List.takeWhile_prefix _) hs.span_restOfLine) hspan
  refine (agree_require (by rw [isEmpty_eq hspan]) (P.error_pinned _ hkeyword)).bind fun _ _ _ => ?_
  refine (agree_ofLogged hread).bind fun condition condition' htree => ?_
  refine agree_ite (by rw [hspan.length_eq, hline.length_eq]) ?_ ?_
  · refine (agree_skip (by rw [hspan.length_eq])).bind fun _ _ _ => ?_
    refine (agree_readBranches hblock hkeyword).bind fun bodies bodies' hbodies => ?_
    exact agree_pure (P.node_branch hkeyword (.cons htree hbodies))
  · refine (agree_skip hline.length_eq).bind fun _ _ _ => agree_skipLineBreaks.bind fun _ _ _ => ?_
    refine (agree_readBranch hblock hkeyword _).bind fun body body' hbody => ?_
    exact agree_pure (P.node_branch hkeyword (.cons htree (.cons hbody .nil)))

theorem agree_readStatement :
    P.Agree (Option.Rel P.node) (readStatement readBlock) (readStatement readBlock) := by
  unfold readStatement
  refine agree_get_bind fun s t hs => agree_trace_bind _ _ ?_
  have hnext := hs.next
  have hkind := P.kind_eq hnext
  simp only [hkind]
  generalize t.next.kind = kind
  cases kind with
  | keyword keyword =>
    cases keyword with
    | program => exact agree_readTitle.map fun _ _ => .some
    | version => exact agree_readVersion.map fun _ _ => .some
    | implicit => exact agree_readImplicit.map fun _ _ => .some
    | ifWord => exact (agree_readConditional hblock).map fun _ _ => .some
    | label | goto => exact agree_readJump.map fun _ _ => .some
    | disp => exact agree_readDisp.map fun _ _ => .some
    | dispStr => exact agree_readDispStr.map fun _ _ => .some
    | call => exact agree_throw (P.error_unsupported .call hnext)
    | thenWord | elseWord | endWord => exact agree_readOther hs (.keyword _)
  | dataType type => exact agree_readDeclaration.map fun _ _ => .some
  | _ => exact agree_readOther hs _

end Blocks

/-! ### Blocks and programs -/

theorem agree_readBlockWithin (room : Nat) (stop : BlockEnd) :
    P.Agree (List.Forall₂ P.node) (readBlockWithin room stop) (readBlockWithin room stop) := by
  -- The body of a conditional is read with less room, so the induction is on the room.
  induction room generalizing stop with
  | zero => exact agree_pure .nil
  | succ room ih =>
    unfold readBlockWithin
    refine agree_get_bind fun s t hs => ?_
    simp only [P.kind_eq hs.next]
    cases stop.step t.next.kind with
    | finish =>
      exact agree_ite (by rw [isEmpty_eq hs.ahead]) (agree_pure .nil)
        (agree_throw (P.error_pinned _ hs.next))
    | close => exact agree_pure .nil
    | newLine => exact agree_take.bind fun _ _ _ => ih stop
    | statement =>
      refine (agree_readStatement ih).bind fun statement statement' hstatement => ?_
      refine (ih stop).bind fun later later' hlater => agree_pure ?_
      cases hstatement with
      | none => exact hlater
      | some htree => exact .cons htree hlater

theorem agree_readBlock (stop : BlockEnd) :
    P.Agree (List.Forall₂ P.node) (readBlock stop) (readBlock stop) := by
  unfold readBlock
  refine agree_get_bind fun s t hs => ?_
  rw [hs.ahead.length_eq]
  exact agree_readBlockWithin _ stop

/-- The trees of two programs whose statements are paired. -/
def Programs (P : Pairing) (root root' : Node) : Prop :=
  ∃ statements statements', List.Forall₂ P.node statements statements' ∧
    root = programTree statements ∧ root' = programTree statements'

/-- Two programs that are paired are read alike. -/
theorem agree_readProgram : P.Agree P.Programs readProgram readProgram := by
  unfold readProgram
  refine agree_get_bind fun s t hs => ?_
  have htitle : (!s.options.requireTitle || s.startsWithTitle) =
      (!t.options.requireTitle || t.startsWithTitle) := by
    rw [P.requireTitle_eq hs.options, hs.startsWithTitle]
  have hfirst := headD hs.tokens hs.terminator
  refine (agree_require htitle (P.error_pinned _ hfirst)).bind fun _ _ _ => ?_
  refine (agree_readBlock .program).bind fun statements statements' hstatements => ?_
  exact agree_trace_bind _ _ (agree_pure ⟨statements, statements', hstatements, rfl, rfl⟩)

/-- Two compilations whose statements and notes are paired. -/
inductive Compilations (P : Pairing) : Compilation → Compilation → Prop where
  | mk {statements statements' : List Node} {notes notes' : List Diagnostic}
      (hstatements : List.Forall₂ P.node statements statements')
      (hnotes : List.Forall₂ P.note notes notes') :
      Compilations P ⟨programTree statements, notes⟩ ⟨programTree statements', notes'⟩

/-- Runs that never part are compiled alike. -/
theorem paired_compile (hnever : ∀ notes e, ¬P.parted notes e) (hs : P.Sessions s t) :
    PairedResults P.Compilations P.error s.compile.result t.compile.result := by
  have hruns := P.agree_readProgram s t hs
  unfold Session.compile
  generalize readProgram s = one, readProgram t = two at hruns ⊢
  cases hruns with
  | partedOk hparted => exact absurd hparted (hnever _ _)
  | partedError hparted => exact absurd hparted (hnever _ _)
  | error herror hlast => exact .error herror
  | ok hroots hlast =>
    obtain ⟨statements, statements', hstatements, rfl, rfl⟩ := hroots
    exact .ok ⟨hstatements, hlast.diagnostics⟩

end Pairing

end CalcLang
