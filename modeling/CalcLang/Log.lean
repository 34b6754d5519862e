/-!
# Log records

Reading a program leaves a trail of records behind, also when it fails half-way.  `Logged` pairs the
result of a computation with the records it left.

* `Record`: one line of the log.
* `Logged`: a computation that may fail, with its records.
* `Logged.run_bind` and its companions: the result of a composed computation is the composition of
  the results, whatever was recorded on the way.
* `Logged.FailsWith`: every error of a computation has a property, whatever it is composed of.
* `PairedResults`: two computations have results that are alike.
-/

namespace CalcLang

/-- How important a record is. -/
inductive Level where
  | trace
  | debug
  | warn
  deriving DecidableEq, Repr

/-- Tag of a level in a written log. -/
def Level.name : Level → String
  | .trace => "TRACE"
  | .debug => "DEBUG"
  | .warn => "WARN"

/-- One line of the log. -/
structure Record where
  /-- How important the record is. -/
  level : Level
  /-- What happened. -/
  text : String
  deriving DecidableEq, Repr

/-- The outcome of a computation together with the records it left, oldest first. -/
structure Logged (ε α : Type) where
  /-- The records, also those left before a failure. -/
  records : List Record
  /-- The result or the error. -/
  result : Except ε α

namespace Logged

variable {ε α β : Type}

/-- Do one computation after another; a failure ends both. -/
def bind (first : Logged ε α) (next : α → Logged ε β) : Logged ε β :=
  match first.result with
  | .ok value => ⟨first.records ++ (next value).records, (next value).result⟩
  | .error error => ⟨first.records, .error error⟩

instance : Monad (Logged ε) where
  pure value := ⟨[], .ok value⟩
  bind := bind

/-- End with an error. -/
def fail (error : ε) : Logged ε α := ⟨[], .error error⟩

/-- A result that leaves no record. -/
def ofExcept (result : Except ε α) : Logged ε α := ⟨[], result⟩

/-- Leave one record. -/
def note (level : Level) (text : String) : Logged ε Unit := ⟨[⟨level, text⟩], .ok ()⟩

/-- Leave one record if `enabled`. -/
def noteIf (enabled : Bool) (level : Level) (text : String) : Logged ε Unit :=
  if enabled then note level text else pure ()

/-- Name the error of a failing computation otherwise. -/
def mapError {ε' : Type} (f : ε → ε') (action : Logged ε α) : Logged ε' α :=
  ⟨action.records, action.result.mapError f⟩

/-! ### Results and records of composed computations -/

@[simp] theorem result_pure (value : α) : (pure value : Logged ε α).result = .ok value := rfl

@[simp] theorem records_pure (value : α) : (pure value : Logged ε α).records = [] := rfl

@[simp] theorem result_bind (first : Logged ε α) (next : α → Logged ε β) :
    (first >>= next).result = first.result.bind fun value => (next value).result := by
  obtain ⟨records, result⟩ := first
  cases result <;> rfl

theorem bind_of_ok {first : Logged ε α} {value : α} (next : α → Logged ε β)
    (h : first.result = .ok value) :
    first >>= next = ⟨first.records ++ (next value).records, (next value).result⟩ := by
  obtain ⟨records, result⟩ := first
  cases h
  rfl

theorem bind_of_error {first : Logged ε α} {error : ε} (next : α → Logged ε β)
    (h : first.result = .error error) : first >>= next = ⟨first.records, .error error⟩ := by
  obtain ⟨records, result⟩ := first
  cases h
  rfl

/-- A composed computation succeeds if and only if both of its parts do. -/
theorem result_bind_eq_ok {first : Logged ε α} {next : α → Logged ε β} {value : β} :
    (first >>= next).result = .ok value ↔
      ∃ middle, first.result = .ok middle ∧ (next middle).result = .ok value := by
  cases hr : first.result with
  | ok middle => simp [bind_of_ok next hr]
  | error error => simp [bind_of_error next hr]

theorem result_bind_of_ok {first : Logged ε α} {value : α} (next : α → Logged ε β)
    (h : first.result = .ok value) : (first >>= next).result = (next value).result := by
  rw [bind_of_ok next h]

theorem result_bind_of_error {first : Logged ε α} {error : ε} (next : α → Logged ε β)
    (h : first.result = .error error) : (first >>= next).result = .error error := by
  rw [bind_of_error next h]

/-- Only what follows a success matters. -/
theorem bind_congr_ok {first : Logged ε α} {next next' : α → Logged ε β}
    (h : ∀ value, first.result = .ok value → next value = next' value) :
    first >>= next = first >>= next' := by
  cases hr : first.result with
  | ok value => rw [bind_of_ok next hr, bind_of_ok next' hr, h value hr]
  | error error => rw [bind_of_error next hr, bind_of_error next' hr]

@[simp] theorem result_fail (error : ε) : (fail error : Logged ε α).result = .error error := rfl

@[simp] theorem records_fail (error : ε) : (fail error : Logged ε α).records = [] := rfl

@[simp] theorem result_ofExcept (result : Except ε α) : (ofExcept result).result = result := rfl

@[simp] theorem records_ofExcept (result : Except ε α) : (ofExcept result).records = [] := rfl

@[simp] theorem result_note (level : Level) (text : String) :
    (note level text : Logged ε Unit).result = .ok () := rfl

@[simp] theorem records_note (level : Level) (text : String) :
    (note level text : Logged ε Unit).records = [⟨level, text⟩] := rfl

@[simp] theorem result_noteIf (enabled : Bool) (level : Level) (text : String) :
    (noteIf enabled level text : Logged ε Unit).result = .ok () := by
  cases enabled <;> rfl

@[simp] theorem records_noteIf (enabled : Bool) (level : Level) (text : String) :
    (noteIf enabled level text : Logged ε Unit).records =
      if enabled then [⟨level, text⟩] else [] := by
  cases enabled <;> rfl

@[simp] theorem result_mapError {ε' : Type} (f : ε → ε') (action : Logged ε α) :
    (action.mapError f).result = action.result.mapError f := rfl

@[simp] theorem records_mapError {ε' : Type} (f : ε → ε') (action : Logged ε α) :
    (action.mapError f).records = action.records := rfl

instance : LawfulMonad (Logged ε) := LawfulMonad.mk' _
  (by
    intro α ⟨records, result⟩
    cases result <;> simp [Functor.map, bind])
  (by
    intro α β value next
    simp [Bind.bind, bind])
  (by
    intro α β γ ⟨records, result⟩ next last
    cases result with
    | error error => rfl
    | ok value =>
      cases h : (next value).result <;> simp [Bind.bind, bind, h, List.append_assoc])

/-! ### What a computation fails with -/

variable {P Q : ε → Prop} {x : Logged ε α} {f : α → Logged ε β}

/-- Every error of a computation has a property. -/
def FailsWith (P : ε → Prop) (x : Logged ε α) : Prop := ∀ error, x.result = .error error → P error

theorem failsWith_pure (a : α) : FailsWith P (pure a : Logged ε α) := by
  intro error h
  cases h

theorem failsWith_fail {error : ε} (h : P error) : FailsWith P (fail error : Logged ε α) := by
  intro error' herror
  cases herror
  exact h

theorem failsWith_ofExcept {result : Except ε α} (h : ∀ error, result = .error error → P error) :
    FailsWith P (ofExcept result) :=
  h

theorem FailsWith.mono (h : FailsWith P x) (himp : ∀ error, P error → Q error) : FailsWith Q x := by
  intro error herror
  exact himp error (h error herror)

theorem FailsWith.bind (hx : FailsWith P x) (hf : ∀ a, x.result = .ok a → FailsWith P (f a)) :
    FailsWith P (x >>= f) := by
  intro error h
  rw [result_bind] at h
  cases hrun : x.result with
  | error e =>
    rw [hrun] at h
    cases h
    exact hx error hrun
  | ok a =>
    rw [hrun] at h
    exact hf a hrun error h

theorem failsWith_noteIf_bind {enabled : Bool} {level : Level} {text : String} {y : Logged ε β}
    (h : FailsWith P y) : FailsWith P (noteIf enabled level text >>= fun _ => y) := by
  apply FailsWith.bind
  · intro error herror
    rw [result_noteIf] at herror
    cases herror
  · intro _ _
    exact h

theorem failsWith_ite {c : Prop} [Decidable c] {y : Logged ε α} (hx : FailsWith P x)
    (hy : FailsWith P y) : FailsWith P (if c then x else y) := by
  split
  · exact hx
  · exact hy

end Logged

/-! ### Two computations side by side -/

/-- Two results that are alike: two values that are paired, or two errors that are. -/
inductive PairedResults {ε ζ α β : Type} (value : α → β → Prop) (error : ε → ζ → Prop) :
    Except ε α → Except ζ β → Prop where
  | ok {a : α} {b : β} (h : value a b) : PairedResults value error (.ok a) (.ok b)
  | error {e : ε} {f : ζ} (h : error e f) : PairedResults value error (.error e) (.error f)

namespace PairedResults

variable {ε ζ α β γ δ : Type} {value : α → β → Prop} {value' : γ → δ → Prop} {error : ε → ζ → Prop}

theorem refl {R : α → α → Prop} {S : ε → ε → Prop} (hvalue : ∀ a, R a a) (herror : ∀ e, S e e)
    (result : Except ε α) : PairedResults R S result result := by
  cases result with
  | ok a => exact .ok (hvalue a)
  | error e => exact .error (herror e)

/-- Paired computations go on to paired results if what follows them does. -/
theorem bind {x : Logged ε α} {y : Logged ζ β} {f : α → Logged ε γ} {g : β → Logged ζ δ}
    (h : PairedResults value error x.result y.result)
    (hnext : ∀ a b, x.result = .ok a → value a b →
      PairedResults value' error (f a).result (g b).result) :
    PairedResults value' error (x >>= f).result (y >>= g).result := by
  rw [Logged.result_bind, Logged.result_bind]
  generalize hx : x.result = one, y.result = two at h
  cases h with
  | ok h => exact hnext _ _ hx h
  | error h => exact .error h

end PairedResults

end CalcLang
