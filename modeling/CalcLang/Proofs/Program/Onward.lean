import CalcLang.Program.Compilation
import CalcLang.Proofs.Program.Moves

/-! # Reading moves onward

    What any reading does to its session, also when it fails half-way: it passes some tokens and notes
    that it has skipped some, and nothing else.

    * `Reading.after`: the session that a reading leaves behind.
    * `Reading.Onward`: the readings that do so.  It is a class, since it holds of whatever is put
      together from such readings.
    * `Onward readProgram`: reading a program is one of them. -/

namespace CalcLang

namespace Reading

variable {α β : Type} {s : Session}

/-- What comes of a reading. -/
def outcome (x : Reading α) (s : Session) : Except ParseError α :=
  match x s with
  | .ok a _ => .ok a
  | .error e _ => .error e

/-- The session that a reading leaves behind, failing or not. -/
def after (x : Reading α) (s : Session) : Session :=
  match x s with
  | .ok _ s' => s'
  | .error _ s' => s'

/-- A reading that only passes tokens and notes which of them it skips, failing or not. -/
class Onward (x : Reading α) : Prop where
  moves : ∀ s : Session, ∃ tokens skipped, s.Moves tokens skipped (after x s)

/-! ### Steps -/

theorem after_of_ok {x : Reading α} {a : α} {s' : Session} (h : x s = .ok a s') :
    after x s = s' := by
  rw [after, h]

theorem exists_moves_refl (s : Session) : ∃ tokens skipped, s.Moves tokens skipped s :=
  ⟨[], [], .refl s⟩

theorem exists_moves_log (s : Session) (records : List Record) :
    ∃ tokens skipped, s.Moves tokens skipped { s with log := s.log ++ records } :=
  ⟨[], [], .past [] records rfl⟩

instance (a : α) : Onward (pure a : Reading α) := ⟨exists_moves_refl⟩

instance (e : ParseError) : Onward (throw e : Reading α) := ⟨exists_moves_refl⟩

instance : Onward (get : Reading Session) := ⟨exists_moves_refl⟩

theorem Onward.bind {x : Reading α} {f : α → Reading β} (hx : Onward x) (hf : ∀ a, Onward (f a)) :
    Onward (x >>= f) := by
  refine ⟨fun s => ?_⟩
  obtain ⟨tokens, skipped, hmoves⟩ := hx.moves s
  unfold after at hmoves ⊢
  rw [run_bind]
  cases hrun : x s with
  | error e s' =>
    rw [hrun] at hmoves
    exact ⟨tokens, skipped, hmoves⟩
  | ok a s' =>
    rw [hrun] at hmoves
    obtain ⟨more, skipped', hmoves'⟩ := (hf a).moves s'
    exact ⟨tokens ++ more, skipped ++ skipped', hmoves.trans hmoves'⟩

instance {x : Reading α} {f : α → Reading β} [hx : Onward x] [hf : ∀ a, Onward (f a)] :
    Onward (x >>= f) :=
  .bind hx hf

instance {x : Reading α} {f : α → β} [hx : Onward x] : Onward (f <$> x) where
  moves s := by
    obtain ⟨tokens, skipped, hmoves⟩ := hx.moves s
    unfold after at hmoves ⊢
    simp only [Functor.map, EStateM.map]
    cases hrun : x s <;> rw [hrun] at hmoves <;> exact ⟨tokens, skipped, hmoves⟩

instance {c : Prop} [Decidable c] {x y : Reading α} [Onward x] [Onward y] :
    Onward (if c then x else y) := by
  split <;> assumption

theorem exists_moves_skip (count : Nat) (s : Session) :
    ∃ tokens skipped, s.Moves tokens skipped (s.skip count) := by
  refine ⟨s.ahead.take count, [], ?_, rfl, rfl, rfl, ?_⟩
  · exact (List.take_append_drop count s.ahead).symm
  · simp [Session.skip]

instance (count : Nat) : Onward (modify (·.skip count) : Reading Unit) := ⟨exists_moves_skip count⟩

instance : Onward (modify Session.skipLineBreaks : Reading Unit) := ⟨fun s => exists_moves_skip _ s⟩

instance : Onward take where
  moves s := by
    show ∃ tokens skipped, s.Moves tokens skipped s.advance
    unfold Session.advance
    split
    · exact exists_moves_refl s
    · exact exists_moves_skip 1 s

instance (records : List Record) : Onward (record records) :=
  ⟨fun s => exists_moves_log s records⟩

instance (text : String) : Onward (trace text) where
  moves s := by
    rw [after_of_ok (run_trace text s)]
    exact exists_moves_log s _

instance : Onward peek := by unfold peek; infer_instance

instance (allowed : Kind → Bool) (fault : Fault) : Onward (expect allowed fault) := by
  unfold expect
  infer_instance

instance (holds : Bool) (error : ParseError) : Onward (require holds error) := by
  unfold require
  infer_instance

instance (action : Logged ParseError α) : Onward (ofLogged action) := by
  have hresult : Onward (match action.result with
      | .ok value => pure value
      | .error error => throw error : Reading α) := by
    cases action.result <;> infer_instance
  unfold ofLogged
  infer_instance

end Reading

open Reading

/-! ### Statements -/

instance : Onward readTitle := by unfold readTitle; infer_instance

instance : Onward readVersion := by unfold readVersion; infer_instance

instance : Onward readDeclaration := by unfold readDeclaration; infer_instance

instance : Onward readImplicit := by unfold readImplicit; infer_instance

instance : Onward readAssignment := by unfold readAssignment; infer_instance

instance (span : List Token) (arrow target : Token) : Onward (readStore span arrow target) := by
  unfold readStore
  infer_instance

instance : Onward readJump := by unfold readJump; infer_instance

instance : Onward readDisp := by unfold readDisp; infer_instance

instance : Onward readDispStr := by unfold readDispStr; infer_instance

/-- The only notes are those about tokens that are skipped. -/
instance (token : Token) :
    Onward (note ⟨token.line, "skipped unexpected token " ++ token.display⟩) :=
  ⟨fun _ => ⟨[], [token], rfl, rfl, rfl, rfl, rfl⟩⟩

instance : Onward skipUnknown := by unfold skipUnknown; infer_instance

section Blocks

variable {readBlock : BlockEnd → Reading (List Node)} [∀ stop, Onward (readBlock stop)]

instance (opener : Token) (stop : BlockEnd) : Onward (readBranch readBlock opener stop) := by
  unfold readBranch
  infer_instance

instance : Onward (readAlternative readBlock) := by unfold readAlternative; infer_instance

instance (keyword : Token) : Onward (readBranches readBlock keyword) := by
  unfold readBranches
  infer_instance

instance : Onward (readConditional readBlock) := by unfold readConditional; infer_instance

instance : Onward (readStatement readBlock) := by
  unfold readStatement
  refine .bind inferInstance fun session => .bind inferInstance fun _ => ?_
  repeat' split
  all_goals infer_instance

end Blocks

/-! ### Blocks and programs -/

instance (room : Nat) (stop : BlockEnd) : Onward (readBlockWithin room stop) := by
  induction room generalizing stop with
  | zero => unfold readBlockWithin; infer_instance
  | succ room ih =>
    unfold readBlockWithin
    refine .bind inferInstance fun session => ?_
    split <;> infer_instance

instance (stop : BlockEnd) : Onward (readBlock stop) := by unfold readBlock; infer_instance

instance : Onward readProgram := by unfold readProgram; infer_instance

end CalcLang
