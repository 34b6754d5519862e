import CalcLang.Proofs.Program.Statement

/-! # Reading conditionals

    What a conditional asks of the reader of blocks, in each of its two forms:

    * `readConditional_then`: a condition before `THEN`, one or two bodies and `END`.
    * `readConditional_line`: a condition that fills its line, and a body behind the line breaks. -/

namespace CalcLang

open Reading

variable {readBlock : BlockEnd → Reading (List Node)} {s s' : Session} {stop : BlockEnd}
  {guard breaks rest : List Token} {keyword thenWord : Token} {tree : Node}

/-! ### Bodies -/

theorem readBranch_eq_ok {opener : Token} {body : Node} :
    readBranch readBlock opener stop s = .ok body s' ↔ ∃ statements,
      readBlock stop s = .ok statements s' ∧ statements ≠ [] ∧
        body = .phrase .block opener.line statements := by
  simp only [readBranch, ↓require_bind_eq_ok, bind_eq_ok, pure_eq_ok]
  constructor
  · rintro ⟨statements, _, hblock, hfull, rfl, rfl⟩
    exact ⟨statements, hblock, by simpa using hfull, rfl⟩
  · rintro ⟨statements, hblock, hfull, rfl⟩
    exact ⟨statements, s', hblock, by simpa using hfull, rfl, rfl⟩

/-- The reader of blocks reads the bodies of a conditional in block form, up to its `END`. -/
inductive ReadsBodies (readBlock : BlockEnd → Reading (List Node)) (keyword : Token) (s : Session) :
    List Node → Session → Prop
  | one {statements : List Node} {middle : Session} {endWord : Token} {rest : List Token}
      (hbody : readBlock .keyword s = .ok statements middle) (hfull : statements ≠ [])
      (hahead : middle.ahead = endWord :: rest) (hend : endWord.kind = .keyword .endWord) :
      ReadsBodies readBlock keyword s [.phrase .block keyword.line statements]
        (middle.past [endWord] [])
  | two {statements statements' : List Node} {middle last : Session} {elseWord endWord : Token}
      {rest rest' : List Token}
      (hbody : readBlock .keyword s = .ok statements middle) (hfull : statements ≠ [])
      (hahead : middle.ahead = elseWord :: rest) (helse : elseWord.kind = .keyword .elseWord)
      (halternative : readBlock .keyword (middle.past [elseWord] []) = .ok statements' last)
      (hfull' : statements' ≠ [])
      (hahead' : last.ahead = endWord :: rest') (hend : endWord.kind = .keyword .endWord) :
      ReadsBodies readBlock keyword s
        [.phrase .block keyword.line statements, .phrase .block elseWord.line statements']
        (last.past [endWord] [])

theorem exists_next {kind : Kind} (h : s.next.kind = kind) (hinside : kind ≠ .endOfFile) :
    ∃ token rest, s.ahead = token :: rest ∧ token.kind = kind := by
  obtain ⟨token, rest, hahead⟩ := List.exists_cons_of_ne_nil (Session.ahead_ne_nil (h ▸ hinside))
  rw [Session.next_eq hahead] at h
  exact ⟨token, rest, hahead, h⟩

theorem readBranches_eq_ok {bodies : List Node} :
    readBranches readBlock keyword s = .ok bodies s' ↔ ReadsBodies readBlock keyword s bodies s' := by
  simp only [readBranches, readAlternative, ↓peek_bind_eq_ok, ↓require_bind_eq_ok, bind_eq_ok,
    pure_eq_ok, readBranch_eq_ok, run_get_bind, beq_iff_eq]
  constructor
  · rintro ⟨_, middle, ⟨statements, hbody, hfull, rfl⟩, alternatives, last, halternatives, hend,
      endWord, _, htake, rfl, rfl⟩
    obtain ⟨first, rest, hahead, hkind⟩ := exists_next hend nofun
    rw [take_ok hahead (by rw [hkind]; nofun)] at htake
    cases htake
    split at halternatives
    · next helse =>
      obtain ⟨elseWord, restElse, haheadElse, hkindElse⟩ := exists_next helse nofun
      simp only [↓peek_bind_eq_ok, ↓require_bind_eq_ok, bind_eq_ok,
        take_ok haheadElse (by rw [hkindElse]; nofun), readBranch_eq_ok, pure_eq_ok]
        at halternatives
      obtain ⟨_, _, ⟨⟩, _, _, ⟨statements', halternative, hfull', rfl⟩, -, rfl, rfl⟩ :=
        halternatives
      exact .two hbody hfull haheadElse hkindElse halternative hfull' hahead hkind
    · obtain ⟨rfl, rfl⟩ := pure_eq_ok.1 halternatives
      exact .one hbody hfull hahead hkind
  · intro h
    cases h with
    | @one statements middle endWord rest hbody hfull hahead hend =>
      have hnext := Session.next_eq hahead
      refine ⟨_, middle, ⟨statements, hbody, hfull, rfl⟩, [], middle, ?_, by rw [hnext, hend],
        endWord, _, take_ok hahead (by rw [hend]; nofun), rfl, rfl⟩
      rw [hnext, hend, if_neg nofun]
      rfl
    | @two statements statements' middle last elseWord endWord rest rest' hbody hfull hahead helse
        halternative hfull' hahead' hend =>
      have hnext := Session.next_eq hahead
      have hnext' := Session.next_eq hahead'
      refine ⟨_, middle, ⟨statements, hbody, hfull, rfl⟩,
        [.phrase .block elseWord.line statements'], last, ?_, by rw [hnext', hend], endWord, _,
        take_ok hahead' (by rw [hend]; nofun), rfl, rfl⟩
      rw [hnext, helse, if_pos rfl]
      simp only [↓peek_bind_eq_ok, ↓require_bind_eq_ok, bind_eq_ok, readBranch_eq_ok, pure_eq_ok]
      refine ⟨elseWord, _, take_ok hahead (by rw [helse]; nofun), _, last,
        ⟨statements', halternative, hfull', rfl⟩, ?_, rfl, rfl⟩
      rw [hnext', hend]
      rfl

/-! ### Conditions -/

theorem takeWhile_guard (hothers : ∀ t ∈ guard, t.kind ≠ .keyword .thenWord)
    (hthen : ∀ t ∈ rest.head?, t.kind = .keyword .thenWord) :
    (guard ++ rest).takeWhile (·.kind ≠ .keyword .thenWord) = guard := by
  have hall : ∀ t ∈ guard, decide (t.kind ≠ .keyword .thenWord) = true := by
    intro t ht
    exact decide_eq_true (hothers t ht)
  rw [List.takeWhile_append_of_pos hall]
  cases rest with
  | nil => simp
  | cons first rest => simp [hthen first rfl]

theorem takeWhile_breaks (hbreaks : ∀ t ∈ breaks, t.kind = .lineBreak)
    (hrest : ∀ t ∈ rest.head?, t.kind ≠ .lineBreak) :
    (breaks ++ rest).takeWhile Token.isLineBreak = breaks := by
  have hall : ∀ t ∈ breaks, t.isLineBreak = true := by
    intro t ht
    simp [Token.isLineBreak, hbreaks t ht]
  rw [List.takeWhile_append_of_pos hall]
  cases rest with
  | nil => simp
  | cons first rest => simp [Token.isLineBreak, hrest first rfl]

/-- A conditional in block form. -/
theorem readConditional_then (hahead : s.ahead = keyword :: (guard ++ thenWord :: rest))
    (hkeyword : keyword.kind = .keyword .ifWord) (hline : OnLine guard)
    (hothers : ∀ t ∈ guard, t.kind ≠ .keyword .thenWord)
    (hthen : thenWord.kind = .keyword .thenWord) :
    readConditional readBlock s = .ok tree s' ↔ guard ≠ [] ∧ ∃ condition bodies,
      (readCondition s.options guard).result = .ok condition ∧
        tree = .branch keyword (condition :: bodies) ∧
        ReadsBodies readBlock keyword
          (s.past (keyword :: (guard ++ [thenWord])) (readCondition s.options guard).records)
          bodies s' := by
  obtain ⟨behind, after, rfl, hbehind, hends⟩ := exists_line rest
  have hfull : OnLine (guard ++ thenWord :: behind) := by
    intro t ht
    rcases List.mem_append.1 ht with ht | ht
    · exact hline t ht
    · rcases List.mem_cons.1 ht with rfl | ht
      · rw [hthen]; rfl
      · exact hbehind t ht
  have hrest := Session.ahead_past [keyword] [] hahead
  have hrestLine : (s.past [keyword] []).restOfLine = guard ++ thenWord :: behind := by
    apply restOfLine_eq _ hfull hends
    rw [hrest]
    simp
  have hspan : (guard ++ thenWord :: behind).takeWhile (·.kind ≠ .keyword .thenWord) = guard :=
    takeWhile_guard hothers (by rintro t ⟨⟩; exact hthen)
  have hshorter : guard.length < (guard ++ thenWord :: behind).length := by
    simp
  have hskip (records : List Record) : ((s.past [keyword] []).past [] records).skip
      (guard.length + 1) = s.past (keyword :: (guard ++ [thenWord])) records := by
    have hlength : guard.length + 1 = (guard ++ [thenWord]).length := by simp
    have hahead' : ((s.past [keyword] []).past [] records).ahead =
        (guard ++ [thenWord]) ++ (behind ++ after) := by
      rw [Session.ahead_past [] _ hrest]
      simp
    rw [hlength, Session.skip_eq_past _ hahead']
    simp
  rw [readConditional, run_bind, take_ok hahead (by simp [hkeyword])]
  simp only
  rw [run_get_bind, hrestLine, hspan, require_bind_eq_ok]
  simp only [if_pos hshorter, bind_eq_ok, ofLogged_eq_ok, modify_eq_ok, pure_eq_ok,
    readBranches_eq_ok]
  constructor
  · rintro ⟨hguard, condition, _, ⟨hread, rfl⟩, _, _, rfl, bodies, _, hbodies, rfl, rfl⟩
    rw [hskip] at hbodies
    exact ⟨by simpa using hguard, condition, bodies, hread, rfl, hbodies⟩
  · rintro ⟨hguard, condition, bodies, hread, rfl, hbodies⟩
    refine ⟨by simpa using hguard, condition, _, ⟨hread, rfl⟩, (), _, rfl, bodies, _, ?_, rfl, rfl⟩
    rw [hskip]
    exact hbodies

/-- A conditional in line form. -/
theorem readConditional_line (hahead : s.ahead = keyword :: (guard ++ (breaks ++ rest)))
    (hkeyword : keyword.kind = .keyword .ifWord) (hline : OnLine guard)
    (hothers : ∀ t ∈ guard, t.kind ≠ .keyword .thenWord) (hends : EndsLine (breaks ++ rest))
    (hbreaks : ∀ t ∈ breaks, t.kind = .lineBreak) (hrest : ∀ t ∈ rest.head?, t.kind ≠ .lineBreak) :
    readConditional readBlock s = .ok tree s' ↔ guard ≠ [] ∧ ∃ condition statements,
      (readCondition s.options guard).result = .ok condition ∧ statements ≠ [] ∧
        tree = .branch keyword [condition, .phrase .block keyword.line statements] ∧
        readBlock .line
          (s.past (keyword :: (guard ++ breaks)) (readCondition s.options guard).records) =
          .ok statements s' := by
  have hrest' := Session.ahead_past [keyword] [] hahead
  have hrestLine : (s.past [keyword] []).restOfLine = guard :=
    restOfLine_eq hrest' hline hends
  have hspan : guard.takeWhile (·.kind ≠ .keyword .thenWord) = guard := by
    have hguard := @takeWhile_guard guard [] hothers (by simp)
    rwa [List.append_nil] at hguard
  have hskip (records : List Record) :
      (((s.past [keyword] []).past [] records).skip guard.length).skipLineBreaks =
        s.past (keyword :: (guard ++ breaks)) records := by
    have hguard : ((s.past [keyword] []).past [] records).ahead = guard ++ (breaks ++ rest) :=
      Session.ahead_past [] records hrest'
    have hahead' := Session.ahead_past guard [] hguard
    rw [Session.skip_eq_past guard hguard, Session.skipLineBreaks, hahead',
      takeWhile_breaks hbreaks hrest, Session.skip_eq_past breaks hahead']
    simp
  rw [readConditional, run_bind, take_ok hahead (by simp [hkeyword])]
  simp only
  rw [run_get_bind, hrestLine, hspan, require_bind_eq_ok]
  simp only [if_neg (Nat.lt_irrefl guard.length), bind_eq_ok, ofLogged_eq_ok, modify_eq_ok,
    pure_eq_ok, readBranch_eq_ok]
  constructor
  · rintro ⟨hguard, condition, _, ⟨hread, rfl⟩, _, _, rfl, _, _, rfl, _, _,
      ⟨statements, hblock, hfull, rfl⟩, rfl, rfl⟩
    rw [hskip] at hblock
    exact ⟨by simpa using hguard, condition, statements, hread, hfull, rfl, hblock⟩
  · rintro ⟨hguard, condition, statements, hread, hfull, rfl, hblock⟩
    refine ⟨by simpa using hguard, condition, _, ⟨hread, rfl⟩, (), _, rfl, (), _, rfl, _, _,
      ⟨statements, ?_, hfull, rfl⟩, rfl, rfl⟩
    rw [hskip]
    exact hblock

/-! ### Conditionals of the grammar

    A conditional is read if its bodies are. -/

section Grammar

variable {condition : Node} (hkeyword : keyword.kind = .keyword .ifWord)
  (hguard : IsGuard s.options guard condition)

include hkeyword hguard

theorem readStatement_then (hahead : s.ahead = keyword :: (guard ++ thenWord :: rest))
    (hthen : thenWord.kind = .keyword .thenWord) :
    ∃ m, s.Moves (keyword :: (guard ++ [thenWord])) [] m ∧
      ∀ bodies s', ReadsBodies readBlock keyword m bodies s' →
        readStatement readBlock s = .ok (some (.branch keyword (condition :: bodies))) s' := by
  have hahead' : s.ahead = (keyword :: (guard ++ [thenWord])) ++ rest := by
    rw [hahead]
    simp
  refine ⟨s.traced.past _ (readCondition s.options guard).records, moves_past hahead', ?_⟩
  intro bodies s' hbodies
  have hread := (readConditional_then (s := s.traced) hahead hkeyword hguard.line hguard.others
    hthen).2 ⟨hguard.nonempty, condition, bodies, hguard.read, rfl, hbodies⟩
  rw [readStatement_conditional (by rw [Session.next_eq hahead, hkeyword])]
  exact map_ok some hread

theorem readStatement_line (hahead : s.ahead = keyword :: (guard ++ (breaks ++ rest)))
    (hbreaks : breaks ≠ []) (hbreak : ∀ t ∈ breaks, t.kind = .lineBreak)
    (hrest : ∀ t ∈ rest.head?, t.kind ≠ .lineBreak) :
    ∃ m, s.Moves (keyword :: (guard ++ breaks)) [] m ∧
      ∀ statements s', readBlock .line m = .ok statements s' → statements ≠ [] →
        readStatement readBlock s = .ok (some (.branch keyword
          [condition, .phrase .block keyword.line statements])) s' := by
  have hahead' : s.ahead = (keyword :: (guard ++ breaks)) ++ rest := by
    rw [hahead]
    simp
  have hends : EndsLine (breaks ++ rest) := by
    cases breaks with
    | nil => exact absurd rfl hbreaks
    | cons first breaks =>
      rintro _ ⟨⟩
      rw [hbreak first (List.mem_cons_self ..)]
      rfl
  refine ⟨s.traced.past _ (readCondition s.options guard).records, moves_past hahead', ?_⟩
  intro statements s' hbody hfull
  have hread := (readConditional_line (s := s.traced) hahead hkeyword hguard.line hguard.others
    hends hbreak hrest).2 ⟨hguard.nonempty, condition, statements, hguard.read, hfull, rfl, hbody⟩
  rw [readStatement_conditional (by rw [Session.next_eq hahead, hkeyword])]
  exact map_ok some hread

end Grammar

end CalcLang
