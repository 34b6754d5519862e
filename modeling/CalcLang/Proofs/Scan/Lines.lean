import CalcLang.Proofs.Scan.Words
import CalcLang.Span.Expression
import Mathlib.Data.List.TakeWhile

/-! # The lines of a text

    No word, string or comment reaches beyond the end of its line, so a text is scanned line by
    line:

    * `scan_append`: two texts with a line break between them are scanned one after the other.
    * `scan_relined`: on which line a text starts matters to the lines of its tokens only.
    * `trimLineBreaks_append`: what is left of two rows of tokens without the line breaks at both
      ends.
    * `tokenize_append`: the tokens of two programs with a line break between them. -/

namespace CalcLang

/-! ### Other lines -/

/-- A token on another line. -/
def Token.relined (f : Nat → Nat) (token : Token) : Token := { token with line := f token.line }

/-- A lexical error on another line. -/
def LexicalError.relined (f : Nat → Nat) (error : LexicalError) : LexicalError :=
  { error with line := f error.line }

/-- The tokens of a text on other lines, or the error in it. -/
def relinedTokens (f : Nat → Nat) :
    Except LexicalError (List Token) → Except LexicalError (List Token)
  | .ok tokens => .ok (tokens.map (Token.relined f))
  | .error error => .error (error.relined f)

variable {f : Nat → Nat} {x x' : Logged LexicalError (List Token)}
  {next next' : List Token → Logged LexicalError (List Token)} {mode : ScanMode} {line : Nat}

/-- The text of some tokens says nothing about their lines. -/
theorem printFrom_relined (f : Nat → Nat) (fresh : Bool) (tokens : List Token) :
    printFrom fresh (tokens.map (Token.relined f)) = printFrom fresh tokens := by
  induction tokens generalizing fresh with
  | nil => rfl
  | cons token rest ih =>
    rw [List.map_cons, printFrom, printFrom, ih, ih]
    rfl

theorem quoteSpan_relined (f : Nat → Nat) (span : List Token) :
    quoteSpan (span.map (Token.relined f)) = quoteSpan span := by
  unfold quoteSpan
  rw [printFrom_relined]

theorem map_relined_congr {g : Nat → Nat} {tokens : List Token}
    (h : ∀ t ∈ tokens, f t.line = g t.line) :
    tokens.map (Token.relined f) = tokens.map (Token.relined g) := by
  apply List.map_congr_left
  intro t ht
  unfold Token.relined
  rw [h t ht]

/-- The tokens of a text, each replaced, or the error in it. -/
def mapTokens (token : Token → Token) (error : LexicalError → LexicalError) :
    Except LexicalError (List Token) → Except LexicalError (List Token)
  | .ok tokens => .ok (tokens.map token)
  | .error e => .error (error e)

theorem relinedTokens_eq (f : Nat → Nat) (result : Except LexicalError (List Token)) :
    relinedTokens f result = mapTokens (Token.relined f) (LexicalError.relined f) result := by
  cases result <;> rfl

section Replacing

variable {token : Token → Token} {error : LexicalError → LexicalError} {line' : Nat}
  {word : List Char → List Char}

theorem mapTokens_bind (h : x'.result = mapTokens token error x.result)
    (hnext : ∀ tokens, (next' (tokens.map token)).result =
      mapTokens token error (next tokens).result) :
    (x' >>= next').result = mapTokens token error (x >>= next).result := by
  rw [Logged.result_bind, Logged.result_bind, h]
  cases x.result with
  | error e => rfl
  | ok tokens => exact hnext tokens

/-- What replaces the token of a single word replaces those of several ones. -/
theorem flushAll_map (h : ∀ pending, (flush line' (word pending)).result =
      mapTokens token error (flush line pending).result) (pending : List (List Char)) :
    (flushAll line' (pending.map word)).result =
      mapTokens token error (flushAll line pending).result := by
  induction pending with
  | nil => rfl
  | cons first rest ih =>
    refine mapTokens_bind (h first) fun tokens => ?_
    refine mapTokens_bind ih fun more => ?_
    rw [← List.map_append]
    rfl

theorem trimLineBreaks_map (h : ∀ t, (token t).isLineBreak = t.isLineBreak) (tokens : List Token) :
    trimLineBreaks (tokens.map token) = (trimLineBreaks tokens).map token := by
  have hkind : Token.isLineBreak ∘ token = Token.isLineBreak := funext h
  unfold trimLineBreaks
  rw [List.dropWhile_map, hkind, ← List.map_reverse, List.dropWhile_map, hkind, List.map_reverse]

end Replacing

theorem relinedTokens_bind (h : x'.result = relinedTokens f x.result)
    (hnext : ∀ tokens, (next' (tokens.map (Token.relined f))).result =
      relinedTokens f (next tokens).result) :
    (x' >>= next').result = relinedTokens f (x >>= next).result := by
  simp only [relinedTokens_eq] at h hnext ⊢
  exact mapTokens_bind h hnext

theorem flush_relined (line more : Nat) (pending : List Char) :
    (flush (line + more) pending).result =
      relinedTokens (· + more) (flush line pending).result := by
  cases pending with
  | nil => rfl
  | cons last before =>
    unfold flush
    cases hkind : Word.kind? (last :: before).reverse with
    | none =>
      simp only [hkind]
      rfl
    | some kind =>
      simp only [hkind]
      rfl

theorem flushAll_relined (line more : Nat) (pending : List (List Char)) :
    (flushAll (line + more) pending).result =
      relinedTokens (· + more) (flushAll line pending).result := by
  have hflush (word : List Char) := flush_relined line more word
  simp only [relinedTokens_eq] at hflush ⊢
  have hall := flushAll_map hflush pending
  rwa [List.map_id'] at hall

theorem breakOf_relined (line more : Nat) (c : Char) :
    breakOf (line + more) c = (breakOf line c).map (Token.relined (· + more)) := by
  unfold breakOf
  split <;> rfl

/-- On which line a text starts matters to the lines of its tokens only. -/
theorem scan_relined (mode : ScanMode) (line more : Nat) (text : List Char) :
    (scan mode (line + more) text).result =
      relinedTokens (· + more) (scan mode line text).result := by
  induction text generalizing mode line with
  | nil => exact flush_relined line more mode.pending
  | cons c rest ih =>
    rw [scan_cons, scan_cons]
    refine relinedTokens_bind (flushAll_relined line more _) fun words => ?_
    have hline : (if c = '\n' then line + more + 1 else line + more) =
        (if c = '\n' then line + 1 else line) + more := by
      split <;> omega
    rw [hline]
    refine relinedTokens_bind (ih ..) fun later => ?_
    rw [breakOf_relined, ← List.map_append, ← List.map_append]
    rfl

/-! ### Joining two texts -/

/-- Two texts with a line break between them are scanned one after the other. -/
theorem scan_append (mode : ScanMode) (line : Nat) (first second : List Char) :
    scan mode line (first ++ '\n' :: second) = (do
      let before ← scan mode line first
      let after ← scan (.code []) (line + first.count '\n' + 1) second
      pure (before ++ .lineBreak (line + first.count '\n') :: after)) := by
  -- The induction is on the first text; a line break in it only moves the lines on.
  induction first generalizing mode line with
  | nil =>
    rw [List.nil_append, scan.eq_def, scan.eq_def]
    simp only [if_true, List.count_nil, Nat.add_zero]
  | cons c rest ih =>
    have hline : line + (c :: rest).count '\n' =
        (if c = '\n' then line + 1 else line) + rest.count '\n' := by
      rw [List.count_cons]
      by_cases hbreak : c = '\n'
      · simp only [hbreak, beq_self_eq_true, if_true]
        omega
      · simp [hbreak]
    rw [List.cons_append, scan_cons, scan_cons, ih, hline]
    simp only [bind_assoc, pure_bind, List.append_assoc]

/-! ### Line breaks at the ends -/

/-- No line break is at an end of the tokens. -/
structure IsTrimmed (tokens : List Token) : Prop where
  first : ∀ t ∈ tokens.head?, t.isLineBreak = false
  last : ∀ t ∈ tokens.getLast?, t.isLineBreak = false

theorem IsTrimmed.append {body middle body' : List Token} (h : IsTrimmed body) (hsome : body ≠ [])
    (h' : IsTrimmed body') (hsome' : body' ≠ []) : IsTrimmed (body ++ (middle ++ body')) where
  first := by
    obtain ⟨first, rest, rfl⟩ := List.exists_cons_of_ne_nil hsome
    exact h.first
  last := by
    have hlast := h'.last
    rw [List.getLast?_eq_some_getLast hsome'] at hlast
    rw [List.getLast?_append, List.getLast?_append, List.getLast?_eq_some_getLast hsome']
    exact hlast

/-- All of the tokens are line breaks. -/
def AreBreaks (tokens : List Token) : Prop :=
  ∀ t ∈ tokens, t.isLineBreak = true

theorem AreBreaks.append {tokens tokens' : List Token} (h : AreBreaks tokens)
    (h' : AreBreaks tokens') : AreBreaks (tokens ++ tokens') := by
  intro t ht
  obtain ht | ht := List.mem_append.1 ht
  · exact h t ht
  · exact h' t ht

theorem AreBreaks.reverse {tokens : List Token} (h : AreBreaks tokens) :
    AreBreaks tokens.reverse :=
  fun t ht => h t (List.mem_reverse.1 ht)

theorem AreBreaks.cons {token : Token} {tokens : List Token} (htoken : token.isLineBreak = true)
    (h : AreBreaks tokens) : AreBreaks (token :: tokens) :=
  List.forall_mem_cons.2 ⟨htoken, h⟩

theorem areBreaks_takeWhile (tokens : List Token) :
    AreBreaks (tokens.takeWhile Token.isLineBreak) :=
  fun _ ht => List.mem_takeWhile_imp ht

theorem head?_dropWhile_isLineBreak (tokens : List Token) :
    ∀ t ∈ (tokens.dropWhile Token.isLineBreak).head?, t.isLineBreak = false := by
  intro t ht
  have h := List.head?_dropWhile_not Token.isLineBreak tokens
  rw [Option.mem_def.1 ht] at h
  exact h

theorem dropWhile_append_of_areBreaks {breaks tokens : List Token} (h : AreBreaks breaks)
    (hfirst : ∀ t ∈ tokens.head?, t.isLineBreak = false) :
    (breaks ++ tokens).dropWhile Token.isLineBreak = tokens := by
  rw [List.dropWhile_append_of_pos h]
  cases tokens with
  | nil => rfl
  | cons first rest =>
    rw [List.dropWhile_cons_of_neg]
    rw [hfirst first rfl]
    nofun

/-- What is left of some tokens is all but line breaks at both ends. -/
theorem exists_breaks_trimLineBreaks (tokens : List Token) :
    IsTrimmed (trimLineBreaks tokens) ∧ ∃ lead trail, AreBreaks lead ∧ AreBreaks trail ∧
      tokens = lead ++ (trimLineBreaks tokens ++ trail) := by
  -- First the line breaks in front are cut off, and then those at the back of the rest.
  have hfront := List.takeWhile_append_dropWhile (p := Token.isLineBreak) (l := tokens)
  have hfirst := head?_dropWhile_isLineBreak tokens
  unfold trimLineBreaks
  generalize tokens.dropWhile Token.isLineBreak = front at hfront hfirst ⊢
  have hback := List.takeWhile_append_dropWhile (p := Token.isLineBreak) (l := front.reverse)
  have hlast := head?_dropWhile_isLineBreak front.reverse
  have htrail := areBreaks_takeWhile front.reverse
  generalize front.reverse.dropWhile Token.isLineBreak = back,
    front.reverse.takeWhile Token.isLineBreak = trail at hback hlast htrail ⊢
  have hsplit : front = back.reverse ++ trail.reverse := by
    rw [← List.reverse_append, hback, List.reverse_reverse]
  refine ⟨⟨fun t ht => hfirst t ?_, ?_⟩, _, trail.reverse, areBreaks_takeWhile tokens,
    htrail.reverse, by rw [← hsplit, hfront]⟩
  · rw [hsplit, List.head?_append, Option.mem_def.1 ht]
    rfl
  · rw [List.getLast?_reverse]
    exact hlast

theorem trimLineBreaks_of_isTrimmed {lead body trail : List Token} (hlead : AreBreaks lead)
    (hbody : IsTrimmed body) (htrail : AreBreaks trail) :
    trimLineBreaks (lead ++ (body ++ trail)) = body := by
  have hback : (trail.reverse ++ body.reverse).dropWhile Token.isLineBreak = body.reverse := by
    refine dropWhile_append_of_areBreaks htrail.reverse ?_
    rw [List.head?_reverse]
    exact hbody.last
  unfold trimLineBreaks
  cases body with
  | nil =>
    have hall := hlead.append htrail
    rw [List.nil_append, List.dropWhile_eq_nil_iff.2 hall]
    rfl
  | cons first rest =>
    have hfront : ∀ t ∈ (first :: rest ++ trail).head?, t.isLineBreak = false := hbody.first
    rw [dropWhile_append_of_areBreaks hlead hfront, List.reverse_append, hback,
      List.reverse_reverse]

/-- The tokens of two texts with a line break between them: those of both, with line breaks in
    between, or those of the one text if there are none in the other. -/
inductive JoinsLines : List Token → List Token → List Token → Prop
  | first (body : List Token) : JoinsLines body [] body
  | second (body : List Token) : JoinsLines [] body body
  | both {breaks : List Token} (body body' : List Token) (hbreaks : AreBreaks breaks)
      (hsome : breaks ≠ []) : JoinsLines body body' (body ++ (breaks ++ body'))

theorem trimLineBreaks_append (line : Nat) (tokens tokens' : List Token) :
    JoinsLines (trimLineBreaks tokens) (trimLineBreaks tokens')
      (trimLineBreaks (tokens ++ .lineBreak line :: tokens')) := by
  -- The line breaks behind the first text, the one between and those before the second text are one
  -- row of line breaks, which is at an end if one of the texts is empty.
  obtain ⟨hbody, lead, trail, hlead, htrail, htokens⟩ := exists_breaks_trimLineBreaks tokens
  obtain ⟨hbody', lead', trail', hlead', htrail', htokens'⟩ := exists_breaks_trimLineBreaks tokens'
  have hbreaks : AreBreaks (trail ++ .lineBreak line :: lead') := htrail.append (.cons rfl hlead')
  have hsome : trail ++ .lineBreak line :: lead' ≠ [] := by
    simp
  generalize trimLineBreaks tokens = body, trimLineBreaks tokens' = body'
    at hbody hbody' htokens htokens' ⊢
  have hall : tokens ++ .lineBreak line :: tokens' =
      lead ++ (body ++ ((trail ++ .lineBreak line :: lead') ++ (body' ++ trail'))) := by
    rw [htokens, htokens']
    simp
  rw [hall]
  generalize trail ++ .lineBreak line :: lead' = middle at hbreaks hsome ⊢
  by_cases hempty : body = []
  · rw [hempty, List.nil_append, ← List.append_assoc,
      trimLineBreaks_of_isTrimmed (hlead.append hbreaks) hbody' htrail']
    exact .second body'
  by_cases hempty' : body' = []
  · rw [hempty', List.nil_append,
      trimLineBreaks_of_isTrimmed hlead hbody (hbreaks.append htrail')]
    exact .first body
  rw [← List.append_assoc middle, ← List.append_assoc body,
    trimLineBreaks_of_isTrimmed hlead (hbody.append hempty hbody' hempty') htrail']
  exact .both body body' hbreaks hsome

theorem trimLineBreaks_relined (f : Nat → Nat) (tokens : List Token) :
    trimLineBreaks (tokens.map (Token.relined f)) =
      (trimLineBreaks tokens).map (Token.relined f) :=
  trimLineBreaks_map (fun t => show (t.relined f).isLineBreak = t.isLineBreak from rfl) tokens

/-! ### Programs -/

/-- The tokens of two texts with a line break between them, those of the second one on the lines
    behind the first one. -/
theorem tokenize_append {first second : String} {body body' : List Token} {ending ending' : Token}
    (hfirst : tokenize first = .ok (body ++ [ending]))
    (hsecond : tokenize second = .ok (body' ++ [ending'])) :
    ∃ joined,
      JoinsLines body (body'.map (Token.relined (· + (first.toList.count '\n' + 1)))) joined ∧
      tokenize (first ++ "\n" ++ second) =
        .ok (joined ++ [.endOfFile (lastLine (first ++ "\n" ++ second).toList)]) := by
  obtain ⟨scanned, hscanned, htokens⟩ := tokenize_eq_ok_iff.1 hfirst
  obtain ⟨scanned', hscanned', htokens'⟩ := tokenize_eq_ok_iff.1 hsecond
  obtain rfl := List.append_inj_left' htokens rfl
  obtain rfl := List.append_inj_left' htokens' rfl
  have htext : (first ++ "\n" ++ second).toList = first.toList ++ '\n' :: second.toList := by
    simp
  have hlater := scan_relined (.code []) 1 (first.toList.count '\n' + 1) second.toList
  rw [hscanned'] at hlater
  rw [← trimLineBreaks_relined]
  refine ⟨_, trimLineBreaks_append (1 + first.toList.count '\n') _ _, ?_⟩
  rw [tokenize_eq_ok_iff]
  refine ⟨_, ?_, rfl⟩
  rw [htext, scan_append, Logged.result_bind_of_ok _ hscanned, Nat.add_assoc,
    Logged.result_bind_of_ok _ hlater]
  rfl

end CalcLang
