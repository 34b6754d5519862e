import CalcLang.Proofs.Program.Language
import CalcLang.Proofs.Program.Onward
import Mathlib.Data.List.TakeWhile
import Mathlib.Logic.Relation

/-! # Steps of a session

    Whatever is read, a session goes on in steps of three kinds: it passes one token, which is not
    one that ends a program, it makes a note, or it adds to its log.  This is so up to the place
    where a reading fails, too.

    * `Session.Step`: one such step.
    * `Session.Steps.later`, `Session.Steps.isInside`: what any number of steps keeps.
    * `Reading.Stepwise`: the readings that go on in steps.  It is a class, since it holds of
      whatever is put together from such readings.
    * `Stepwise readProgram`: reading a program is one of them. -/

namespace CalcLang

namespace Session

variable {s s' s'' : Session} {tokens after : List Token}

/-! ### Steps -/

/-- The place of a session: how many tokens are behind it. -/
def position (s : Session) : Nat := s.passed.length

/-- What a session does at a time. -/
inductive Step : Session → Session → Prop where
  /-- It passes a token that does not end a program. -/
  | pass {s : Session} {token : Token} {rest : List Token} (hahead : s.ahead = token :: rest)
      (htoken : token.kind ≠ .endOfFile) : Step s (s.past [token] [])
  /-- It makes a note. -/
  | note {s : Session} (diagnostic : Diagnostic) :
      Step s { s with diagnostics := s.diagnostics ++ [diagnostic] }
  /-- It adds to its log. -/
  | record {s : Session} (records : List Record) : Step s { s with log := s.log ++ records }

/-- Any number of steps. -/
def Steps : Session → Session → Prop := Relation.ReflTransGen Step

/-- A session that is at one of its tokens, with none behind it that ends a program. -/
structure IsInside (s : Session) : Prop where
  position : s.position < s.tokens.length
  passed : ∀ t ∈ s.tokens.take s.position, t.kind ≠ .endOfFile

/-- A session of the same program that is not further back, and that has all the notes and maybe
    more. -/
structure Later (s s' : Session) : Prop where
  tokens : s'.tokens = s.tokens
  options : s'.options = s.options
  position : s.position ≤ s'.position
  diagnostics : s.diagnostics <+: s'.diagnostics

theorem Later.refl (s : Session) : s.Later s :=
  ⟨rfl, rfl, Nat.le_refl _, List.prefix_refl _⟩

theorem Later.trans (h : s.Later s') (h' : s'.Later s'') : s.Later s'' where
  tokens := h'.tokens.trans h.tokens
  options := h'.options.trans h.options
  position := Nat.le_trans h.position h'.position
  diagnostics := h.diagnostics.trans h'.diagnostics

theorem take_position (s : Session) : s.tokens.take s.position = s.passed.reverse := by
  have hlength : s.position = s.passed.reverse.length := List.length_reverse.symm
  rw [tokens, List.append_assoc, hlength, List.take_left]

/-- What is behind a session decides whether it is inside its program. -/
theorem isInside_iff : s.IsInside ↔ ∀ t ∈ s.passed, t.kind ≠ .endOfFile := by
  constructor
  · intro h t ht
    apply h.passed t
    rw [take_position, List.mem_reverse]
    exact ht
  · intro h
    refine ⟨by simp [position, tokens], ?_⟩
    intro t ht
    rw [take_position, List.mem_reverse] at ht
    exact h t ht

/-! ### What a step keeps -/

theorem Step.later (h : s.Step s') : s.Later s' := by
  cases h with
  | pass hahead htoken =>
    refine ⟨?_, rfl, ?_, List.prefix_refl _⟩
    · simp [tokens, past, terminator, hahead]
    · simp [position, past]
  | note diagnostic => exact ⟨rfl, rfl, Nat.le_refl _, List.prefix_append _ _⟩
  | record records => exact ⟨rfl, rfl, Nat.le_refl _, List.prefix_refl _⟩

theorem Step.isInside (h : s.Step s') (hs : s.IsInside) : s'.IsInside := by
  rw [isInside_iff] at hs ⊢
  cases h with
  | pass hahead htoken => exact List.forall_mem_cons.2 ⟨htoken, hs⟩
  | note diagnostic => exact hs
  | record records => exact hs

/-! ### What a run of steps keeps -/

theorem Steps.refl (s : Session) : s.Steps s := Relation.ReflTransGen.refl

theorem Steps.trans (h : s.Steps s') (h' : s'.Steps s'') : s.Steps s'' :=
  Relation.ReflTransGen.trans h h'

theorem Steps.later (h : s.Steps s') : s.Later s' := by
  induction h with
  | refl => exact .refl s
  | tail _ hstep ih => exact ih.trans hstep.later

theorem Steps.isInside (h : s.Steps s') (hs : s.IsInside) : s'.IsInside := by
  induction h with
  | refl => exact hs
  | tail _ hstep ih => exact hstep.isInside ih

theorem isInside_ofTokens (options : ReadOptions) (tokens : List Token) :
    (Session.ofTokens options tokens).IsInside := by
  rw [isInside_iff]
  unfold ofTokens
  cases tokens.getLast? <;> nofun

/-! ### Passing tokens -/

/-- Some tokens are passed one after the other, if none of them ends a program. -/
theorem steps_past (hahead : s.ahead = tokens ++ after)
    (htokens : ∀ t ∈ tokens, t.kind ≠ .endOfFile) : s.Steps (s.past tokens []) := by
  induction tokens generalizing s with
  | nil =>
    rw [past_nil]
    exact .refl s
  | cons token rest ih =>
    obtain ⟨htoken, hrest⟩ := List.forall_mem_cons.1 htokens
    have hnext : s.Step (s.past [token] []) := .pass hahead htoken
    have hlater := ih (s := s.past [token] []) (ahead_past [token] [] hahead) hrest
    rw [past_past] at hlater
    exact Relation.ReflTransGen.head hnext hlater

/-- Tokens of the same line may be passed. -/
theorem steps_skip {count : Nat} (h : count ≤ s.restOfLine.length) : s.Steps (s.skip count) := by
  obtain ⟨behind, hline⟩ := List.takeWhile_prefix (l := s.ahead) (!·.kind.endsLine)
  have hahead : s.ahead = s.restOfLine.take count ++ (s.restOfLine.drop count ++ behind) := by
    rw [← List.append_assoc, List.take_append_drop]
    exact hline.symm
  have hlength : (s.restOfLine.take count).length = count := by
    rw [List.length_take, Nat.min_eq_left h]
  rw [← hlength, skip_eq_past _ hahead]
  apply steps_past hahead
  intro t ht hkind
  have hinside := List.mem_takeWhile_imp (List.mem_of_mem_take ht)
  rw [hkind] at hinside
  cases hinside

theorem steps_skipLineBreaks (s : Session) : s.Steps s.skipLineBreaks := by
  have hahead := (List.takeWhile_append_dropWhile (p := Token.isLineBreak) (l := s.ahead)).symm
  unfold skipLineBreaks
  rw [skip_eq_past _ hahead]
  apply steps_past hahead
  intro t ht hkind
  have hbreak := List.mem_takeWhile_imp ht
  rw [Token.isLineBreak, hkind] at hbreak
  cases hbreak

theorem steps_advance (s : Session) : s.Steps s.advance := by
  unfold advance
  split
  · exact .refl s
  · next hnext =>
    obtain ⟨token, rest, hahead⟩ := List.exists_cons_of_ne_nil (ahead_ne_nil hnext)
    have hskip : s.skip 1 = s.past [token] [] := skip_eq_past [token] hahead
    rw [next_eq hahead] at hnext
    rw [hskip]
    exact .single (.pass hahead hnext)

end Session

namespace Reading

variable {α β : Type} {s s' : Session} {x : Reading α} {f : α → Reading β}

/-! ### Readings -/

/-- What a reading does to a session is a run of steps, failing or not. -/
def StepwiseAt (s : Session) (x : Reading α) : Prop := s.Steps (after x s)

/-- A reading that goes on in steps, wherever it starts. -/
class Stepwise (x : Reading α) : Prop where
  steps : ∀ s, StepwiseAt s x

instance (a : α) : Stepwise (pure a : Reading α) := ⟨.refl⟩

instance (e : ParseError) : Stepwise (throw e : Reading α) := ⟨.refl⟩

instance : Stepwise (get : Reading Session) := ⟨.refl⟩

theorem StepwiseAt.bind (hx : StepwiseAt s x)
    (hf : ∀ a s', x s = .ok a s' → StepwiseAt s' (f a)) : StepwiseAt s (x >>= f) := by
  unfold StepwiseAt after at hx ⊢
  rw [run_bind]
  cases hrun : x s with
  | error e s' =>
    rw [hrun] at hx
    exact hx
  | ok a s' =>
    rw [hrun] at hx
    exact hx.trans (hf a s' hrun)

theorem Stepwise.bind (hx : Stepwise x) (hf : ∀ a, Stepwise (f a)) : Stepwise (x >>= f) :=
  ⟨fun s => (hx.steps s).bind fun a s' _ => (hf a).steps s'⟩

instance [hx : Stepwise x] [hf : ∀ a, Stepwise (f a)] : Stepwise (x >>= f) := hx.bind hf

/-- A reading that looks at the session first. -/
theorem stepwise_get_bind {g : Session → Reading β} (h : ∀ s, StepwiseAt s (g s)) :
    Stepwise (get >>= g) :=
  ⟨fun s => h s⟩

theorem StepwiseAt.map (g : α → β) (hx : StepwiseAt s x) : StepwiseAt s (g <$> x) := by
  unfold StepwiseAt after at hx ⊢
  simp only [Functor.map, EStateM.map]
  cases hrun : x s <;> rw [hrun] at hx <;> exact hx

instance {g : α → β} [hx : Stepwise x] : Stepwise (g <$> x) := ⟨fun s => (hx.steps s).map g⟩

instance {c : Prop} [Decidable c] {y : Reading α} [Stepwise x] [Stepwise y] :
    Stepwise (if c then x else y) := by
  split <;> assumption

instance : Stepwise (modify Session.skipLineBreaks : Reading Unit) := ⟨Session.steps_skipLineBreaks⟩

instance : Stepwise take := ⟨Session.steps_advance⟩

instance (records : List Record) : Stepwise (record records) := ⟨fun _ => .single (.record records)⟩

instance (diagnostic : Diagnostic) : Stepwise (note diagnostic) :=
  ⟨fun _ => .single (.note diagnostic)⟩

instance (text : String) : Stepwise (trace text) := by
  unfold trace
  infer_instance

instance : Stepwise peek := by unfold peek; infer_instance

instance (allowed : Kind → Bool) (fault : Fault) : Stepwise (expect allowed fault) := by
  unfold expect
  infer_instance

instance (holds : Bool) (error : ParseError) : Stepwise (require holds error) := by
  unfold require
  infer_instance

instance (action : Logged ParseError α) : Stepwise (ofLogged action) := by
  have hresult : Stepwise (match action.result with
      | .ok value => pure value
      | .error error => throw error : Reading α) := by
    cases action.result <;> infer_instance
  unfold ofLogged
  infer_instance

/-- A trace leaves the line as it is. -/
theorem stepwiseAt_trace_bind {text : String} (h : ∀ records, StepwiseAt (s.past [] records) x) :
    StepwiseAt s (trace text >>= fun _ => x) := by
  refine (Stepwise.steps s).bind fun _ s' htrace => ?_
  rw [run_trace] at htrace
  cases htrace
  exact h _

theorem stepwiseAt_skip {count : Nat} (h : count ≤ s.restOfLine.length) :
    StepwiseAt s (modify (·.skip count) : Reading Unit) :=
  Session.steps_skip h

/-- Reading a span leaves the line as it is, so a part of the line may be passed behind it. -/
theorem stepwiseAt_ofLogged_bind {action : Logged ParseError α} {g : α → Reading β}
    (h : ∀ a records, StepwiseAt (s.past [] records) (g a)) :
    StepwiseAt s (ofLogged action >>= g) := by
  refine (Stepwise.steps s).bind fun a s' haction => ?_
  obtain ⟨-, rfl⟩ := ofLogged_eq_ok.1 haction
  exact h a action.records

theorem stepwiseAt_skip_bind {count : Nat} {g : Unit → Reading β} [∀ u, Stepwise (g u)]
    (h : count ≤ s.restOfLine.length) : StepwiseAt s (modify (·.skip count) >>= g) :=
  (stepwiseAt_skip h).bind fun _ s' _ => Stepwise.steps s'

theorem stepwiseAt_require_bind {holds : Bool} {error : ParseError} (h : StepwiseAt s x) :
    StepwiseAt s (require holds error >>= fun _ => x) := by
  refine (Stepwise.steps s).bind fun _ s' hrequire => ?_
  obtain ⟨-, rfl⟩ := require_eq_ok.1 hrequire
  exact h

end Reading

open Reading

/-! ### Statements -/

instance : Stepwise readTitle := by unfold readTitle; infer_instance

instance : Stepwise readVersion := by unfold readVersion; infer_instance

instance : Stepwise readDeclaration := by unfold readDeclaration; infer_instance

instance : Stepwise readImplicit := by unfold readImplicit; infer_instance

instance : Stepwise readJump := by unfold readJump; infer_instance

instance : Stepwise readDisp := by unfold readDisp; infer_instance

instance : Stepwise readDispStr := by unfold readDispStr; infer_instance

instance : Stepwise skipUnknown := by unfold skipUnknown; infer_instance

instance : Stepwise readAssignment := by
  unfold readAssignment
  refine .bind inferInstance fun target => .bind inferInstance fun arrow => ?_
  refine stepwise_get_bind fun s => stepwiseAt_require_bind ?_
  exact stepwiseAt_ofLogged_bind fun _ _ => stepwiseAt_skip_bind (Nat.le_refl _)

/-- A line that stores is passed with its arrow and its target. -/
theorem stepwiseAt_readStore {s : Session} {span : List Token} {arrow target : Token}
    (h : IsStoreLine s.restOfLine span arrow target) :
    StepwiseAt s (readStore span arrow target) := by
  have hlength : span.length + 2 ≤ s.restOfLine.length := by
    rw [h.parts, List.length_append]
    exact Nat.le_refl _
  exact stepwiseAt_ofLogged_bind fun _ _ => stepwiseAt_skip_bind hlength

section Blocks

variable {readBlock : BlockEnd → Reading (List Node)} [∀ stop, Stepwise (readBlock stop)]

instance (opener : Token) (stop : BlockEnd) : Stepwise (readBranch readBlock opener stop) := by
  unfold readBranch
  infer_instance

instance : Stepwise (readAlternative readBlock) := by unfold readAlternative; infer_instance

instance (keyword : Token) : Stepwise (readBranches readBlock keyword) := by
  unfold readBranches
  infer_instance

instance : Stepwise (readConditional readBlock) := by
  unfold readConditional
  refine .bind inferInstance fun keyword => ?_
  refine stepwise_get_bind fun s => stepwiseAt_require_bind ?_
  refine stepwiseAt_ofLogged_bind fun condition records => ?_
  split
  · next hthen => exact stepwiseAt_skip_bind hthen
  · exact stepwiseAt_skip_bind (Nat.le_refl _)

instance : Stepwise (readStatement readBlock) := by
  unfold readStatement
  refine stepwise_get_bind fun s => stepwiseAt_trace_bind fun records => ?_
  split
  case h_11 =>
    split
    · exact Stepwise.steps _
    · split
      · next span arrow target hparts =>
        have hline := storeParts?_eq_some_iff.1 (Option.ite_none_right_eq_some.1 hparts).2
        have hstore : StepwiseAt (s.past [] records) (readStore span arrow target) :=
          stepwiseAt_readStore hline
        exact hstore.map some
      · exact Stepwise.steps _
  all_goals exact Stepwise.steps _

end Blocks

/-! ### Blocks and programs -/

instance (room : Nat) (stop : BlockEnd) : Stepwise (readBlockWithin room stop) := by
  induction room generalizing stop with
  | zero => unfold readBlockWithin; infer_instance
  | succ room ih =>
    unfold readBlockWithin
    refine .bind inferInstance fun session => ?_
    split <;> infer_instance

instance (stop : BlockEnd) : Stepwise (readBlock stop) := by unfold readBlock; infer_instance

instance : Stepwise readProgram := by unfold readProgram; infer_instance

end CalcLang
