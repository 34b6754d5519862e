import CalcLang.Proofs.Condition.Tracing
import CalcLang.Proofs.Program.Onward
import CalcLang.Proofs.Scan.Lines
import Mathlib

/-! # The log of a run

    A run that is traced does the same as one that is not, and its log tells everything that the log
    of the other one tells:

    * `Session.muted`: a session beside one that is not traced.
    * `Session.IsReported`: its warnings are those of its notes, one by one.
    * `Reading.Mutes`: a reading beside another one that starts from the muted session and ends there,
      and that goes on reporting what it notes.  This is so also if it fails half-way.
    * `Traced readProgram`: reading a program beside itself is one. -/

namespace CalcLang

/-- A warning that tells of the token that a note is about. -/
def Record.Announces (record : Record) (note : Diagnostic) : Prop :=
  ∃ word, note.message = "skipped unexpected token " ++ word ∧
    record = ⟨.warn, "line " ++ toString note.line ++ ": skipping unexpected token " ++ word⟩

namespace Session

variable {s : Session} {records : List Record}

/-- The session of a run that is not traced, with what is then left of the log. -/
def muted (s : Session) : Session :=
  { s with
    options := { s.options with debug := false }
    log := s.log.filter fun record => record.level != .debug }

/-- The warnings in the log are those of the notes, in their order. -/
def IsReported (s : Session) : Prop :=
  List.Forall₂ Record.Announces (s.log.filter fun record => record.level == .warn) s.diagnostics

theorem muted_advance (s : Session) : s.advance.muted = s.muted.advance := by
  unfold advance
  show (if s.next.kind = .endOfFile then s else s.skip 1).muted =
    if s.next.kind = .endOfFile then s.muted else (s.skip 1).muted
  split <;> rfl

/-- Where records of a trace do not count, they may as well be absent. -/
theorem filter_append_debug (p : Level → Bool) (hp : p .debug = false) (log : List Record)
    (h : ∀ record ∈ records, record.level = .debug) :
    (log ++ records).filter (fun record => p record.level) =
      log.filter fun record => p record.level := by
  have hnone : records.filter (fun record => p record.level) = [] := by
    rw [List.filter_eq_nil_iff]
    intro record hrecord
    rw [h record hrecord, hp]
    decide
  rw [List.filter_append, hnone, List.append_nil]

theorem muted_append_debug (s : Session) (h : ∀ record ∈ records, record.level = .debug) :
    { s with log := s.log ++ records }.muted = s.muted := by
  have hlog := filter_append_debug (· != .debug) rfl s.log h
  exact congrArg (fun log => { s.muted with log := log }) hlog

theorem IsReported.append_debug (hs : s.IsReported)
    (h : ∀ record ∈ records, record.level = .debug) :
    { s with log := s.log ++ records }.IsReported := by
  have hlog := filter_append_debug (· == .warn) rfl s.log h
  exact (congrArg (List.Forall₂ Record.Announces · s.diagnostics) hlog).mpr hs

/-- The session behind a token that is skipped, with a warning and a note of it. -/
def warned (s : Session) (token : Token) : Session :=
  { s with
    log := s.log ++ [⟨.warn,
      "line " ++ toString token.line ++ ": skipping unexpected token " ++ token.display⟩]
    diagnostics := s.diagnostics ++ [.ofSkipped token] }

theorem muted_warned (token : Token) (s : Session) : (s.warned token).muted = s.muted.warned token := by
  unfold muted warned
  rw [List.filter_append]
  rfl

theorem IsReported.warned (token : Token) (hs : s.IsReported) : (s.warned token).IsReported := by
  unfold IsReported Session.warned
  rw [List.filter_append]
  exact List.rel_append hs (.cons ⟨token.display, rfl, rfl⟩ .nil)

end Session

namespace Reading

variable {α β : Type} {x y x' y' : Reading α} {f g : α → Reading β} {s : Session}

/-! ### Two readings -/

/-- What comes of a reading that is not traced. -/
def mutedResult : EStateM.Result ParseError Session α → EStateM.Result ParseError Session α
  | .ok a s => .ok a s.muted
  | .error e s => .error e s.muted

/-- A reading beside one that does the same from the muted session.  It warns of what it notes. -/
structure Mutes (x y : Reading α) : Prop where
  muted (s : Session) : y s.muted = mutedResult (x s)
  reported {s : Session} (hs : s.IsReported) : (after x s).IsReported

/-- A reading that does the same whether or not it is traced. -/
class Traced (x : Reading α) : Prop where
  mutes : Mutes x x

theorem Mutes.bind (hx : Mutes x y) (hf : ∀ a, Mutes (f a) (g a)) :
    Mutes (x >>= f) (y >>= g) := by
  refine ⟨fun s => ?_, fun {s} hs => ?_⟩
  · have hmuted := hx.muted s
    rw [run_bind, run_bind, hmuted]
    cases x s with
    | error e s' => rfl
    | ok a s' => exact (hf a).muted s'
  · have hreported := hx.reported hs
    unfold after at hreported ⊢
    rw [run_bind]
    cases hrun : x s with
    | error e s' =>
      rw [hrun] at hreported
      exact hreported
    | ok a s' =>
      rw [hrun] at hreported
      exact (hf a).reported hreported

theorem Mutes.map (h : α → β) (hx : Mutes x y) : Mutes (h <$> x) (h <$> y) := by
  refine ⟨fun s => ?_, fun {s} hs => ?_⟩
  · have hmuted := hx.muted s
    simp only [Functor.map, EStateM.map]
    rw [hmuted]
    cases x s <;> rfl
  · have hreported := hx.reported hs
    unfold after at hreported ⊢
    simp only [Functor.map, EStateM.map]
    cases hrun : x s <;> rw [hrun] at hreported <;> exact hreported

theorem mutes_ite {c : Prop} [Decidable c] (h : Mutes x y) (h' : Mutes x' y') :
    Mutes (if c then x else x') (if c then y else y') := by
  split
  · exact h
  · exact h'

/-- A look at the session, which may differ in its options. -/
theorem mutes_get_bind {h : Session → Reading β} (hs : ∀ s, Mutes (h s) (h s.muted)) :
    Mutes (get >>= h) (get >>= h) :=
  ⟨fun s => (hs s).muted s, fun {s} => (hs s).reported⟩

theorem mutes_modify {f : Session → Session} (hmuted : ∀ s, (f s).muted = f s.muted)
    (hreported : ∀ s : Session, s.IsReported → (f s).IsReported) :
    Mutes (modify f : Reading Unit) (modify f) :=
  ⟨fun s => congrArg (EStateM.Result.ok ()) (hmuted s).symm, fun {s} => hreported s⟩

theorem ofLogged_of_ok {action : Logged ParseError α} {a : α} (h : action.result = .ok a)
    (s : Session) : ofLogged action s = .ok a { s with log := s.log ++ action.records } := by
  unfold ofLogged
  rw [run_bind, h]
  rfl

theorem ofLogged_of_error {action : Logged ParseError α} {e : ParseError}
    (h : action.result = .error e) (s : Session) :
    ofLogged action s = .error e { s with log := s.log ++ action.records } := by
  unfold ofLogged
  rw [run_bind, h]
  rfl

/-- The records of a span that is read are a trace. -/
theorem mutes_ofLogged {action action' : Logged ParseError α} (h : action.Traces action') :
    Mutes (ofLogged action) (ofLogged action') := by
  refine ⟨fun s => ?_, fun {s} hs => ?_⟩
  · have hmuted := s.muted_append_debug h.debug
    have hsilent : s.muted.log ++ action'.records = s.muted.log := by
      rw [h.silent, List.append_nil]
    cases hresult : action.result with
    | ok a =>
      rw [ofLogged_of_ok hresult, ofLogged_of_ok (h.result.symm.trans hresult), hsilent]
      exact congrArg (EStateM.Result.ok a) hmuted.symm
    | error e =>
      rw [ofLogged_of_error hresult, ofLogged_of_error (h.result.symm.trans hresult), hsilent]
      exact congrArg (EStateM.Result.error e) hmuted.symm
  · unfold after
    cases hresult : action.result with
    | ok a =>
      rw [ofLogged_of_ok hresult]
      exact hs.append_debug h.debug
    | error e =>
      rw [ofLogged_of_error hresult]
      exact hs.append_debug h.debug

/-! ### Steps -/

instance (a : α) : Traced (pure a : Reading α) := ⟨fun _ => rfl, id⟩

instance (e : ParseError) : Traced (throw e : Reading α) := ⟨fun _ => rfl, id⟩

theorem Traced.bind (hx : Traced x) (hf : ∀ a, Traced (f a)) : Traced (x >>= f) :=
  ⟨hx.mutes.bind fun a => (hf a).mutes⟩

instance [hx : Traced x] [hf : ∀ a, Traced (f a)] : Traced (x >>= f) := hx.bind hf

instance {h : α → β} [hx : Traced x] : Traced (h <$> x) := ⟨hx.mutes.map h⟩

instance {c : Prop} [Decidable c] [hx : Traced x] [hx' : Traced x'] :
    Traced (if c then x else x') :=
  ⟨mutes_ite hx.mutes hx'.mutes⟩

/-- A look at what does not depend on the options. -/
theorem traced_get_bind {h : Session → Reading β} (hsame : ∀ s, h s.muted = h s)
    (htraced : ∀ s, Traced (h s)) : Traced (get >>= h) := by
  refine ⟨mutes_get_bind fun s => ?_⟩
  rw [hsame]
  exact (htraced s).mutes

instance (count : Nat) : Traced (modify (·.skip count) : Reading Unit) :=
  ⟨mutes_modify (fun _ => rfl) fun _ => id⟩

instance : Traced (modify Session.skipLineBreaks : Reading Unit) :=
  ⟨mutes_modify (fun _ => rfl) fun _ => id⟩

instance : Traced take where
  mutes := by
    refine ⟨fun s => ?_, fun {s} hs => ?_⟩
    · show EStateM.Result.ok s.next s.muted.advance = .ok s.next s.advance.muted
      rw [Session.muted_advance]
    · show s.advance.IsReported
      unfold Session.advance
      -- The end of the file stays where it is, and no other token is put on record.
      split
      · exact hs
      · exact hs

instance (text : String) : Traced (trace text) where
  mutes := by
    have hdebug (debug : Bool) :
        ∀ record ∈ if debug then [Record.mk .debug text] else [], record.level = .debug := by
      cases debug with
      | false => exact nofun
      | true => exact List.forall_mem_singleton.2 rfl
    refine ⟨fun s => ?_, fun {s} hs => ?_⟩
    · rw [run_trace, run_trace]
      refine congrArg (EStateM.Result.ok ()) ?_
      rw [Session.muted_append_debug s (hdebug _)]
      show { s.muted with log := s.muted.log ++ [] } = s.muted
      rw [List.append_nil]
    · rw [after_of_ok (run_trace text s)]
      exact hs.append_debug (hdebug _)

instance : Traced peek := traced_get_bind (fun _ => rfl) fun _ => inferInstance

instance (allowed : Kind → Bool) (fault : Fault) : Traced (expect allowed fault) := by
  unfold expect
  infer_instance

instance (holds : Bool) (error : ParseError) : Traced (require holds error) := by
  unfold require
  infer_instance

/-- A token is not skipped without a warning and a note. -/
instance (token : Token) [hx : Traced x] : Traced (record [⟨.warn,
      "line " ++ toString token.line ++ ": skipping unexpected token " ++ token.display⟩] >>= fun _ =>
    note ⟨token.line, "skipped unexpected token " ++ token.display⟩ >>= fun _ => x) where
  mutes := by
    refine ⟨fun s => ?_, fun {s} hs => ?_⟩
    · show x (s.muted.warned token) = mutedResult (x (s.warned token))
      rw [← Session.muted_warned]
      exact hx.mutes.muted _
    · exact hx.mutes.reported (hs.warned token)

end Reading

open Reading

/-! ### Statements -/

instance : Traced readTitle := traced_get_bind (fun _ => rfl) fun _ => inferInstance

instance : Traced readVersion := by unfold readVersion; infer_instance

instance : Traced readDeclaration := traced_get_bind (fun _ => rfl) fun _ => inferInstance

instance : Traced readImplicit := by unfold readImplicit; infer_instance

instance : Traced readJump := traced_get_bind (fun _ => rfl) fun _ => inferInstance

instance : Traced readDisp := by unfold readDisp; infer_instance

instance : Traced readDispStr := by unfold readDispStr; infer_instance

instance : Traced skipUnknown := by
  have hbehind (token : Token) : Traced (do
      let session ← get
      require (session.options.unknownStatements == .skip) (.pinned token .unexpectedToken)
      record [⟨.warn,
        "line " ++ toString token.line ++ ": skipping unexpected token " ++ token.display⟩]
      note ⟨token.line, "skipped unexpected token " ++ token.display⟩
      pure none : Reading (Option Node)) := traced_get_bind (fun _ => rfl) fun _ => inferInstance
  unfold skipUnknown
  infer_instance

/-- The expression behind an arrow is read under the options of the session. -/
instance : Traced readAssignment := by
  refine ⟨(Traced.mutes).bind fun target => (Traced.mutes).bind fun arrow => ?_⟩
  refine mutes_get_bind fun s => (Traced.mutes).bind fun _ => ?_
  exact (mutes_ofLogged (traces_readExpression s.options _)).bind fun _ => Traced.mutes

instance (span : List Token) (arrow target : Token) : Traced (readStore span arrow target) := by
  refine ⟨mutes_get_bind fun s => ?_⟩
  exact (mutes_ofLogged (traces_readExpression s.options span)).bind fun _ => Traced.mutes

section Blocks

variable {readBlock : BlockEnd → Reading (List Node)} [∀ stop, Traced (readBlock stop)]

instance (opener : Token) (stop : BlockEnd) : Traced (readBranch readBlock opener stop) := by
  unfold readBranch
  infer_instance

instance : Traced (readAlternative readBlock) :=
  traced_get_bind (fun _ => rfl) fun _ => inferInstance

instance (keyword : Token) : Traced (readBranches readBlock keyword) := by
  unfold readBranches
  infer_instance

/-- The condition is read under the options of the session. -/
instance : Traced (readConditional readBlock) := by
  refine ⟨(Traced.mutes).bind fun keyword => mutes_get_bind fun s => ?_⟩
  refine (Traced.mutes).bind fun _ => ?_
  exact (mutes_ofLogged (traces_readCondition s.options _)).bind fun _ => Traced.mutes

instance : Traced (readStatement readBlock) := by
  refine traced_get_bind (fun _ => rfl) fun s => ?_
  refine .bind inferInstance fun _ => ?_
  -- The kind of the next token decides which statement is read, and each of them is traced.
  repeat' split
  all_goals infer_instance

end Blocks

/-! ### Blocks and programs -/

instance (room : Nat) (stop : BlockEnd) : Traced (readBlockWithin room stop) := by
  induction room generalizing stop with
  | zero => unfold readBlockWithin; infer_instance
  | succ room ih =>
    refine traced_get_bind (fun _ => rfl) fun s => ?_
    split <;> infer_instance

instance (stop : BlockEnd) : Traced (readBlock stop) :=
  traced_get_bind (fun _ => rfl) fun _ => inferInstance

instance : Traced readProgram := traced_get_bind (fun _ => rfl) fun _ => inferInstance

/-! ### Words of a text -/

/-- The record that a word of a text leaves. -/
def Token.traced (token : Token) : Record :=
  ⟨.trace, "line " ++ toString token.line ++ ": " ++ token.display⟩

/-- A computation that leaves a record for each word that it gives, and no other one. -/
def Logged.RecordsWords (x : Logged LexicalError (List Token)) : Prop :=
  ∀ tokens, x.result = .ok tokens →
    x.records = (tokens.filter (!·.kind.endsLine)).map Token.traced

theorem recordsWords_pure (h : ∀ t ∈ tokens, t.kind.endsLine = true) :
    (pure tokens : Logged LexicalError (List Token)).RecordsWords := by
  intro _ hresult
  cases hresult
  rw [List.filter_eq_nil_iff.2 fun t ht => by simp [h t ht]]
  rfl

theorem Logged.RecordsWords.append {x y : Logged LexicalError (List Token)}
    (hx : x.RecordsWords) (hy : y.RecordsWords) :
    (x >>= fun words => y >>= fun later => pure (words ++ later)).RecordsWords := by
  intro tokens hresult
  obtain ⟨words, hwords, hresult⟩ := Logged.result_bind_eq_ok.1 hresult
  obtain ⟨later, hlater, hresult⟩ := Logged.result_bind_eq_ok.1 hresult
  cases hresult
  rw [Logged.bind_of_ok _ hwords, Logged.bind_of_ok _ hlater]
  show x.records ++ (y.records ++ []) = _
  rw [hx words hwords, hy later hlater, List.append_nil, List.filter_append, List.map_append]

/-- A word that is put on record. -/
theorem recordsWords_word {token : Token} {text : String} (htoken : token.kind.endsLine = false)
    (htext : token.traced = ⟨.trace, text⟩) :
    (Logged.note .trace text >>= fun _ => pure [token]).RecordsWords := by
  intro tokens hresult
  cases hresult
  have hkept : [token].filter (!·.kind.endsLine) = [token] := by
    simp [htoken]
  rw [hkept, List.map_singleton, htext]
  rfl

theorem recordsWords_flush (line : Nat) (pending : List Char) :
    (flush line pending).RecordsWords := by
  cases pending with
  | nil => exact recordsWords_pure nofun
  | cons last before =>
    unfold flush
    cases hkind : Word.kind? (last :: before).reverse with
    | none =>
      simp only [hkind]
      intro tokens hresult
      cases hresult
    | some kind =>
      have hword := Word.isWord_of_kind? hkind
      unfold Kind.isWord at hword
      have hplain : kind.endsLine = false := by
        simpa using (Bool.and_eq_true_iff.1 hword).2
      simp only [hkind]
      exact recordsWords_word hplain rfl

theorem recordsWords_flushAll (line : Nat) (pending : List (List Char)) :
    (flushAll line pending).RecordsWords := by
  induction pending with
  | nil => exact recordsWords_pure nofun
  | cons first rest ih => exact (recordsWords_flush line first).append ih

theorem recordsWords_scan (mode : ScanMode) (line : Nat) (text : List Char) :
    (scan mode line text).RecordsWords := by
  induction text generalizing mode line with
  | nil => exact recordsWords_flush line mode.pending
  | cons c rest ih =>
    have hbreak : ∀ t ∈ breakOf line c, t.kind.endsLine = true := by
      unfold breakOf
      split
      · exact List.forall_mem_singleton.2 rfl
      · exact nofun
    -- A character ends some words, may be a break, and has the rest of the text behind it.
    have hlater := (recordsWords_pure hbreak).append
      (ih (mode.step c).2 (if c = '\n' then line + 1 else line))
    have hall := (recordsWords_flushAll line (mode.step c).1).append hlater
    rw [scan_cons]
    simpa [List.append_assoc] using hall

/-- The words of a program are on record, also if it starts or ends with line breaks, and only these
    records are a trace. -/
theorem records_tokenizeLogged {source : String} {tokens : List Token}
    (h : tokenize source = .ok tokens) :
    (tokenizeLogged source).records.filter (·.level == .trace) =
      (tokens.filter (!·.kind.endsLine)).map Token.traced := by
  obtain ⟨scanned, hscanned, rfl⟩ := tokenize_eq_ok_iff.1 h
  obtain ⟨-, lead, trail, hlead, htrail, hsplit⟩ := exists_breaks_trimLineBreaks scanned
  have hbreaks {breaks : List Token} (hbreaks : AreBreaks breaks) :
      breaks.filter (!·.kind.endsLine) = [] := by
    rw [List.filter_eq_nil_iff]
    intro t ht
    have hkind : t.kind = .lineBreak := eq_of_beq (hbreaks t ht)
    rw [hkind]
    decide
  -- What is trimmed and what is put behind the words has no record.
  have hwords : (trimLineBreaks scanned ++ [Token.endOfFile (lastLine source.toList)]).filter
      (!·.kind.endsLine) = scanned.filter (!·.kind.endsLine) := by
    conv_rhs => rw [hsplit]
    rw [List.filter_append, List.filter_append, List.filter_append, hbreaks hlead, hbreaks htrail]
    rfl
  unfold tokenizeLogged
  rw [Logged.bind_of_ok _ hscanned, hwords, recordsWords_scan _ _ _ scanned hscanned,
    List.filter_append]
  have htrace (words : List Token) :
      (words.map Token.traced).filter (·.level == .trace) = words.map Token.traced := by
    rw [List.filter_eq_self, List.forall_mem_map]
    exact fun _ _ => rfl
  rw [htrace]
  exact List.append_nil _

/-! ### Main result -/

theorem muted_ofTokens (options : ReadOptions) (tokens : List Token) :
    (Session.ofTokens options tokens).muted =
      Session.ofTokens { options with debug := false } tokens := by
  unfold Session.ofTokens
  cases tokens.getLast? <;> rfl

theorem isReported_ofTokens (options : ReadOptions) (tokens : List Token) :
    (Session.ofTokens options tokens).IsReported := by
  unfold Session.ofTokens
  cases tokens.getLast? <;> exact .nil

/-- What two runs of a program have to do with each other, one of which is traced. -/
structure TracedRuns (traced quiet : Session) : Prop where
  outcome : outcome readProgram traced = outcome readProgram quiet
  diagnostics : (after readProgram traced).diagnostics = (after readProgram quiet).diagnostics
  /-- The trace is all that is added to the log. -/
  log : (after readProgram quiet).log =
    (after readProgram traced).log.filter fun record => record.level != .debug
  warnings : (after readProgram traced).log.filter (·.level == .warn) =
    (after readProgram quiet).log.filter (·.level == .warn)

/-- A run that starts from a session and one that starts from the muted session. -/
theorem tracedRuns_muted (s : Session) : TracedRuns s s.muted := by
  have hmuted := (inferInstance : Traced readProgram).mutes.muted s
  have hlog (s : Session) : s.log.filter (·.level == .warn) =
      s.muted.log.filter (·.level == .warn) := by
    show _ = (s.log.filter fun record => record.level != .debug).filter (·.level == .warn)
    rw [List.filter_filter]
    apply List.filter_congr
    intro record _
    cases record.level <;> rfl
  have houtcome : outcome readProgram s.muted = outcome readProgram s := by
    unfold outcome
    rw [hmuted]
    cases readProgram s <;> rfl
  have hafter : after readProgram s.muted = (after readProgram s).muted := by
    unfold after
    rw [hmuted]
    cases readProgram s <;> rfl
  refine ⟨houtcome.symm, ?_, ?_, ?_⟩
  · rw [hafter]
    rfl
  · rw [hafter]
    rfl
  · rw [hafter]
    exact hlog _

/-- Whatever text is cut into tokens and whatever the options, a run that is traced gives the same
    tree or the same error as one that is not, with the same notes and warnings, and adds nothing but
    its trace to the log.  Traced or not, and failing or not, it leaves a warning for each of its notes.
    The words of the text are on record, one by one. -/
theorem log_of_program (options : ReadOptions) (source : String) (tokens : List Token)
    (h : tokenize source = .ok tokens) :
    TracedRuns (.ofTokens { options with debug := true } tokens)
        (.ofTokens { options with debug := false } tokens) ∧
      (∀ debug, List.Forall₂ Record.Announces
        ((after readProgram (.ofTokens { options with debug := debug } tokens)).log.filter
          (·.level == .warn))
        (after readProgram (.ofTokens { options with debug := debug } tokens)).diagnostics) ∧
      (tokenizeLogged source).records.filter (·.level == .trace) =
        (tokens.filter (!·.kind.endsLine)).map Token.traced := by
  refine ⟨?_, fun debug => ?_, records_tokenizeLogged h⟩
  · have hruns := tracedRuns_muted (.ofTokens { options with debug := true } tokens)
    rw [muted_ofTokens] at hruns
    exact hruns
  · exact (inferInstance : Traced readProgram).mutes.reported (isReported_ofTokens _ tokens)

/-- Two numbers are skipped before a statement without an operand, where the run ends. -/
theorem log_of_program_failing :
    tokenize "5 6 DISP" = .ok [⟨.literal .int, some "5", 1⟩, ⟨.literal .int, some "6", 1⟩,
        ⟨.keyword .disp, none, 1⟩, ⟨.endOfFile, none, 1⟩] ∧
      (∀ debug, List.Forall₂ Record.Announces
        [⟨.warn, "line 1: skipping unexpected token INT_LIT:5"⟩,
          ⟨.warn, "line 1: skipping unexpected token INT_LIT:6"⟩]
        (after readProgram (.ofTokens { ReadOptions.default with debug := debug }
          [⟨.literal .int, some "5", 1⟩, ⟨.literal .int, some "6", 1⟩,
            ⟨.keyword .disp, none, 1⟩, ⟨.endOfFile, none, 1⟩])).diagnostics) ∧
      (tokenizeLogged "5 6 DISP").records.filter (·.level == .trace) =
        [⟨.trace, "line 1: INT_LIT:5"⟩, ⟨.trace, "line 1: INT_LIT:6"⟩, ⟨.trace, "line 1: DISP"⟩] := by
  have h : tokenize "5 6 DISP" = .ok [⟨.literal .int, some "5", 1⟩, ⟨.literal .int, some "6", 1⟩,
      ⟨.keyword .disp, none, 1⟩, ⟨.endOfFile, none, 1⟩] := by
    cbv
  obtain ⟨-, hwarnings, hwords⟩ := log_of_program .default _ _ h
  refine ⟨h, fun debug => ?_, hwords⟩
  cases debug with
  | false => exact hwarnings false
  | true => exact hwarnings true

end CalcLang
