import CalcLang.Proofs.Program.Conservation
import CalcLang.Proofs.Program.Relining
import CalcLang.Proofs.Scan.Origin

/-! # The lines of a tree

    A tree is walked from the root down and from left to right, and the lines of a text are met in
    their order on the way:

    * `Node.parts`: the nodes of a tree, in the order of its walk.
    * `IsRising`: lines between two given ones, none of them before an earlier one.
    * `ArePlaced`: the trees of some statements follow the lines of their tokens.
    * `IsStatement.arePlaced`: the tree of a statement does.
    * `compile_followsLines`: so does the tree of a whole program, and so do its notes.

    A node is on the line of a token of its own span, though not always of the first one: the node of a
    comparison is on the line of its mark, the second block of a conditional on that of `ELSE`, and the
    variable of `expression -> variable` stands before the expression.  All of these are on one line
    with the words around them. -/

namespace CalcLang

variable {options : ReadOptions} {tree node condition : Node} {nodes nodes' statements : List Node}
  {span tokens before after skipped : List Token} {keyword : Token} {stop : BlockEnd}
  {low middle high line level : Nat} {lines lines' : List Nat} {P Q : Node → Prop}

/-! ### The parts of a tree -/

namespace Node

/-- The nodes of a tree, in the order of its walk. -/
def parts (node : Node) : List Node :=
  node.walk.map (·.2)

mutual

theorem nodes_walkFrom (depth depth' : Nat) : (node : Node) →
    (walkFrom depth node).map (·.2) = (walkFrom depth' node).map (·.2)
  | ⟨token, name, children⟩ => by
    simp [walkFrom, nodes_walkList (depth + 1) (depth' + 1) children]

theorem nodes_walkList (depth depth' : Nat) : (nodes : List Node) →
    (walkList depth nodes).map (·.2) = (walkList depth' nodes).map (·.2)
  | [] => rfl
  | node :: rest => by
    simp [walkList, nodes_walkFrom depth depth' node, nodes_walkList depth depth' rest]

end

theorem parts_walkList (depth : Nat) (nodes : List Node) :
    (walkList depth nodes).map (·.2) = nodes.flatMap parts := by
  induction nodes with
  | nil => rfl
  | cons node rest ih =>
    rw [walkList, List.map_append, ih, nodes_walkFrom depth 0, List.flatMap_cons]
    rfl

/-- The parts of a tree are its root and those of its subtrees. -/
theorem parts_mk (token : Token) (name : Option String) (children : List Node) :
    (Node.mk token name children).parts = ⟨token, name, children⟩ :: children.flatMap parts := by
  rw [parts, walk, walkFrom, List.map_cons, parts_walkList]

theorem parts_branch (token : Token) (children : List Node) :
    (branch token children).parts = branch token children :: children.flatMap parts :=
  parts_mk token none children

@[simp] theorem parts_leaf (token : Token) : (leaf token).parts = [leaf token] :=
  parts_branch token []

/-- Something holds of every node of a tree. -/
def Everywhere (P : Node → Prop) (node : Node) : Prop :=
  ∀ part ∈ node.parts, P part

theorem everywhere_branch {token : Token} {children : List Node} :
    Everywhere P (branch token children) ↔
      P (branch token children) ∧ ∀ child ∈ children, Everywhere P child := by
  unfold Everywhere
  rw [parts_branch, List.forall_mem_cons]
  constructor
  · intro ⟨hroot, hbelow⟩
    refine ⟨hroot, ?_⟩
    intro child hchild part hpart
    exact hbelow part (List.mem_flatMap.2 ⟨child, hchild, hpart⟩)
  · intro ⟨hroot, hbelow⟩
    refine ⟨hroot, ?_⟩
    intro part hpart
    obtain ⟨child, hchild, hpart⟩ := List.mem_flatMap.1 hpart
    exact hbelow child hchild part hpart

theorem everywhere_leaf {token : Token} : Everywhere P (leaf token) ↔ P (leaf token) := by
  unfold Everywhere
  rw [parts_leaf, List.forall_mem_singleton]

theorem Everywhere.mono (h : Everywhere P node) (himp : ∀ part, P part → Q part) :
    Everywhere Q node :=
  fun part hpart => himp part (h part hpart)

end Node

/-! ### Trees on one line -/

mutual

theorem Node.everywhere_relined (line : Nat) : (node : Node) →
    (node.relined fun _ => line).Everywhere (·.line = line)
  | ⟨token, name, children⟩ => by
    have hchildren := Node.everywhere_relinedList line children
    intro part hpart
    unfold Node.relined Node.map at hpart
    rw [Node.parts_mk, Node.mapList_eq, List.mem_cons] at hpart
    rcases hpart with rfl | hpart
    · rfl
    · obtain ⟨child, hchild, hpart⟩ := List.mem_flatMap.1 hpart
      obtain ⟨original, horiginal, rfl⟩ := List.mem_map.1 hchild
      exact hchildren original horiginal part hpart

theorem Node.everywhere_relinedList (line : Nat) : (nodes : List Node) →
    ∀ node ∈ nodes, (node.relined fun _ => line).Everywhere (·.line = line)
  | [] => nofun
  | first :: rest => by
    have hfirst := first.everywhere_relined line
    have hrest := Node.everywhere_relinedList line rest
    rw [List.forall_mem_cons]
    exact ⟨hfirst, hrest⟩

end

/-- To put tokens on the line where they are changes nothing. -/
theorem map_relined_of_line (hline : ∀ t ∈ span, t.line = line) :
    span.map (relining fun _ => line).token = span := by
  apply (List.map_congr_left fun t ht => ?_).trans (List.map_id span)
  obtain rfl := hline t ht
  rfl

/-- What is read from one line is on that line. -/
theorem everywhere_of_reads {reader : List Token → Logged ParseError Node}
    (hreader : (relining fun _ => line).Reads reader reader) (hline : ∀ t ∈ span, t.line = line)
    (h : (reader span).result = .ok tree) : tree.Everywhere (·.line = line) := by
  have hsame := hreader span
  unfold Relabelling.Relabels at hsame
  rw [map_relined_of_line hline, h] at hsame
  have hfixed : tree = tree.relined fun _ => line := Except.ok.inj hsame
  rw [hfixed]
  exact tree.everywhere_relined line

/-! ### Kinds inside expressions and conditions -/

/-- The kinds of the nodes of expressions and conditions: neither conditionals nor the phrases that
    statements stand in. -/
structure Kind.IsInner (kind : Kind) : Prop where
  conditional : kind ≠ .keyword .ifWord
  program : kind ≠ .phrase .prog
  block : kind ≠ .phrase .block

/-- A kind of any family without these is the kind of such a node. -/
theorem Kind.isInner_of {kind : Kind} (family : Kind → Bool)
    (hconditional : family (.keyword .ifWord) = false)
    (hphrase : ∀ phrase, family (.phrase phrase) = false) (h : family kind = true) :
    kind.IsInner := by
  refine ⟨?_, ?_, ?_⟩
  · rintro rfl
    rw [hconditional] at h
    cases h
  · rintro rfl
    rw [hphrase] at h
    cases h
  · rintro rfl
    rw [hphrase] at h
    cases h

/-- The kinds of the nodes of expressions and conditions: words, or phrases of their own. -/
def Kind.isSpanKind : Kind → Bool
  | .phrase .expr | .phrase .boolExpr | .phrase .logicExpr => true
  | kind =>
    kind.isNumeral || kind.isOperator || kind.isFunction || kind.isComparison || kind.isConnective

/-- The kinds of any family of words in expressions and conditions are among these. -/
theorem Kind.isSpanKind_of_word {kind : Kind} (h : kind.isNumeral = true ∨ kind.isOperator = true ∨
    kind.isFunction = true ∨ kind.isComparison = true ∨ kind.isConnective = true) :
    kind.isSpanKind = true := by
  unfold isSpanKind
  split
  · rfl
  · rfl
  · rfl
  · simpa [or_assoc] using h

theorem Kind.isInner_of_isSpanKind {kind : Kind} (h : kind.isSpanKind = true) : kind.IsInner := by
  refine ⟨?_, ?_, ?_⟩
  all_goals
    rintro rfl
    cases h

/-- What holds of a node and its two subtrees holds of a binary tree. -/
theorem everywhere_pair {token : Token} {left right : Node}
    (hroot : P (.branch token [left, right])) (hleft : left.Everywhere P)
    (hright : right.Everywhere P) : (Node.branch token [left, right]).Everywhere P := by
  rw [Node.everywhere_branch, List.forall_mem_cons, List.forall_mem_singleton]
  exact ⟨hroot, hleft, hright⟩

theorem everywhere_single {token : Token} {inner : Node} (hroot : P (.branch token [inner]))
    (hinner : inner.Everywhere P) : (Node.branch token [inner]).Everywhere P := by
  rw [Node.everywhere_branch, List.forall_mem_singleton]
  exact ⟨hroot, hinner⟩

/-- What holds of every node in an expression or a condition.  Its token is a word or a phrase, and only
    words have texts. -/
def HoldsInSpans (P : Node → Prop) : Prop :=
  ∀ token children, token.kind.isSpanKind = true →
    (token.kind.isScanned = false → token.value = none) → P (.branch token children)

theorem HoldsInSpans.word {token : Token} {children : List Node} (hP : HoldsInSpans P)
    (h : token.kind.isNumeral = true ∨ token.kind.isOperator = true ∨
      token.kind.isFunction = true ∨ token.kind.isComparison = true ∨
      token.kind.isConnective = true) : P (.branch token children) := by
  refine hP token children (Kind.isSpanKind_of_word h) fun hphrase => ?_
  have hword : token.kind.isScanned = true := by
    rcases h with h | h | h | h | h
    · exact Kind.isScanned_of Kind.isNumeral (fun _ => rfl) h
    · exact Kind.isScanned_of Kind.isOperator (fun _ => rfl) h
    · exact Kind.isScanned_of Kind.isFunction (fun _ => rfl) h
    · exact Kind.isScanned_of Kind.isComparison (fun _ => rfl) h
    · exact Kind.isScanned_of Kind.isConnective (fun _ => rfl) h
  rw [hword] at hphrase
  cases hphrase

theorem HoldsInSpans.phrase {phrase : Phrase} (hP : HoldsInSpans P)
    (h : (Kind.phrase phrase).isSpanKind = true) (line : Nat) (children : List Node) :
    P (.phrase phrase line children) :=
  hP (.plain (.phrase phrase) line) children h fun _ => rfl

mutual

theorem IsTerm.everywhere {node : Node} (hP : HoldsInSpans P) : IsTerm node → node.Everywhere P
  | .numeral hnumeral => Node.everywhere_leaf.2 (hP.word (.inl hnumeral))
  | .expression line hinner => everywhere_single (hP.phrase rfl line _) (hinner.everywhere hP)

theorem IsInterior.everywhere {node : Node} (hP : HoldsInSpans P) :
    IsInterior node → node.Everywhere P
  | .numeral hnumeral => Node.everywhere_leaf.2 (hP.word (.inl hnumeral))
  | .operation h => h.everywhere hP
  | .call hfunction hargument =>
    everywhere_single (hP.word (.inr (.inr (.inl hfunction)))) (hargument.everywhere hP)

theorem IsOperation.everywhere {node : Node} (hP : HoldsInSpans P) :
    IsOperation node → node.Everywhere P
  | .mk hoperator hleft hright =>
    everywhere_pair (hP.word (.inr (.inl hoperator))) (hleft.everywhere hP) (hright.everywhere hP)

theorem IsFactor.everywhere {node : Node} (hP : HoldsInSpans P) : IsFactor node → node.Everywhere P
  | .term h => h.everywhere hP
  | .operation h => h.everywhere hP

end

theorem IsConditionTree.everywhere (hP : HoldsInSpans P) (h : IsConditionTree node) :
    node.Everywhere P := by
  induction h with
  | comparison line hmark hleft hright =>
    refine everywhere_single (hP.phrase rfl line _) ?_
    exact everywhere_pair (hP.word (.inr (.inr (.inr (.inl hmark))))) (hleft.everywhere hP)
      (hright.everywhere hP)
  | @negation mark inner line hmark hinner ih =>
    have hconnective : mark.kind.isConnective = true := by
      rw [hmark]
      rfl
    refine everywhere_single (hP.phrase rfl line _) ?_
    exact everywhere_single (hP.word (.inr (.inr (.inr (.inr hconnective))))) ih
  | joined line hmark hbinary hleft hright ihl ihr =>
    refine everywhere_single (hP.phrase rfl line _) ?_
    exact everywhere_pair (hP.word (.inr (.inr (.inr (.inr hmark))))) ihl ihr

theorem IsTerm.everywhere_isSpanKind (h : IsTerm node) :
    node.Everywhere (·.kind.isSpanKind = true) :=
  h.everywhere fun _ _ hkind _ => hkind

theorem IsConditionTree.everywhere_isSpanKind (h : IsConditionTree node) :
    node.Everywhere (·.kind.isSpanKind = true) :=
  h.everywhere fun _ _ hkind _ => hkind

theorem IsTerm.everywhere_isInner (h : IsTerm node) : node.Everywhere (·.kind.IsInner) :=
  h.everywhere_isSpanKind.mono fun _ => Kind.isInner_of_isSpanKind

theorem IsConditionTree.everywhere_isInner (h : IsConditionTree node) :
    node.Everywhere (·.kind.IsInner) :=
  h.everywhere_isSpanKind.mono fun _ => Kind.isInner_of_isSpanKind

/-! ### Rising lines -/

/-- Lines between two given ones, none of them before an earlier one. -/
structure IsRising (low high : Nat) (lines : List Nat) : Prop where
  sorted : lines.Pairwise (· ≤ ·)
  bounds : ∀ line ∈ lines, low ≤ line ∧ line ≤ high

namespace IsRising

theorem nil (low high : Nat) : IsRising low high [] := ⟨.nil, nofun⟩

theorem mono {low' high' : Nat} (h : IsRising low high lines) (hlow : low' ≤ low)
    (hhigh : high ≤ high') : IsRising low' high' lines := by
  refine ⟨h.sorted, ?_⟩
  intro line hline
  have hbounds := h.bounds line hline
  omega

theorem append (h : IsRising low middle lines) (h' : IsRising middle high lines')
    (hlow : low ≤ middle) (hhigh : middle ≤ high) : IsRising low high (lines ++ lines') := by
  refine ⟨?_, ?_⟩
  · rw [List.pairwise_append]
    refine ⟨h.sorted, h'.sorted, ?_⟩
    intro first hfirst second hsecond
    exact (h.bounds first hfirst).2.trans (h'.bounds second hsecond).1
  · intro line hline
    rcases List.mem_append.1 hline with hline | hline
    · have hbounds := h.bounds line hline
      omega
    · have hbounds := h'.bounds line hline
      omega

theorem cons (hlow : low ≤ high) (h : IsRising low high lines) : IsRising low high (low :: lines) := by
  refine ⟨.cons (fun line hline => (h.bounds line hline).1) h.sorted, ?_⟩
  rw [List.forall_mem_cons]
  exact ⟨⟨Nat.le_refl low, hlow⟩, h.bounds⟩

/-- One line, however often. -/
theorem const (h : ∀ l ∈ lines, l = line) : IsRising line line lines := by
  refine ⟨?_, ?_⟩
  · apply List.pairwise_of_forall_mem_list
    intro first hfirst second hsecond
    rw [h first hfirst, h second hsecond]
  · intro l hl
    rw [h l hl]
    exact ⟨Nat.le_refl line, Nat.le_refl line⟩

end IsRising

/-- The lines of the parts of some trees. -/
def linesOf (nodes : List Node) : List Nat :=
  (nodes.flatMap Node.parts).map Node.line

@[simp] theorem linesOf_nil : linesOf [] = [] := rfl

theorem linesOf_append (nodes nodes' : List Node) :
    linesOf (nodes ++ nodes') = linesOf nodes ++ linesOf nodes' := by
  unfold linesOf
  rw [List.flatMap_append, List.map_append]

theorem linesOf_cons (node : Node) (nodes : List Node) :
    linesOf (node :: nodes) = linesOf [node] ++ linesOf nodes :=
  linesOf_append [node] nodes

theorem linesOf_branch (token : Token) (children : List Node) :
    linesOf [.branch token children] = token.line :: linesOf children := by
  unfold linesOf
  rw [List.flatMap_singleton, Node.parts_branch]
  rfl

theorem isRising_of_everywhere (h : node.Everywhere (·.line = line)) :
    IsRising line line (linesOf [node]) := by
  apply IsRising.const
  intro l hl
  unfold linesOf at hl
  rw [List.flatMap_singleton] at hl
  obtain ⟨part, hpart, rfl⟩ := List.mem_map.1 hl
  exact h part hpart

/-! ### Statements and their lines -/

/-- What the lines below a node have to do with its own: a statement other than a conditional is on
    one line, and so is a conditional with its condition. -/
structure Node.KeepsLines (node : Node) : Prop where
  statements : node.kind = .phrase .prog ∨ node.kind = .phrase .block →
    ∀ statement ∈ node.children, statement.kind ≠ .keyword .ifWord →
      ∀ part ∈ statement.parts, part.line = statement.line
  condition : node.kind = .keyword .ifWord → ∃ condition blocks,
    node.children = condition :: blocks ∧ ∀ part ∈ condition.parts, part.line = node.line

theorem Kind.IsInner.keepsLines (h : node.kind.IsInner) : node.KeepsLines where
  statements hphrase := (hphrase.elim h.program h.block).elim
  condition hconditional := (h.conditional hconditional).elim

/-- The trees of some statements follow the lines of their tokens. -/
structure ArePlaced (low high : Nat) (nodes : List Node) : Prop where
  rising : IsRising low high (linesOf nodes)
  keeps : ∀ node ∈ nodes, node.Everywhere Node.KeepsLines
  flat : ∀ node ∈ nodes, node.kind ≠ .keyword .ifWord → node.Everywhere (·.line = node.line)

namespace ArePlaced

theorem nil (low high : Nat) : ArePlaced low high [] := ⟨.nil low high, nofun, nofun⟩

theorem mono {low' high' : Nat} (h : ArePlaced low high nodes) (hlow : low' ≤ low)
    (hhigh : high ≤ high') : ArePlaced low' high' nodes :=
  ⟨h.rising.mono hlow hhigh, h.keeps, h.flat⟩

theorem append (h : ArePlaced low middle nodes) (h' : ArePlaced middle high nodes')
    (hlow : low ≤ middle) (hhigh : middle ≤ high) : ArePlaced low high (nodes ++ nodes') where
  rising := by
    rw [linesOf_append]
    exact h.rising.append h'.rising hlow hhigh
  keeps := List.forall_mem_append.2 ⟨h.keeps, h'.keeps⟩
  flat := List.forall_mem_append.2 ⟨h.flat, h'.flat⟩

/-- A statement without statements inside is all on one line. -/
theorem simple (hflat : node.Everywhere (·.line = line))
    (hinner : node.Everywhere (·.kind.IsInner)) (hroot : node.line = line) :
    ArePlaced line line [node] where
  rising := isRising_of_everywhere hflat
  keeps := List.forall_mem_singleton.2 (hinner.mono fun _ => Kind.IsInner.keepsLines)
  flat := by
    rw [List.forall_mem_singleton, hroot]
    exact fun _ => hflat

/-- The node of a block is before its statements. -/
theorem rising_block (h : ArePlaced low high statements) (hle : low ≤ high) :
    IsRising low high (linesOf [.phrase .block low statements]) := by
  unfold Node.phrase
  rw [linesOf_branch]
  exact h.rising.cons hle

theorem keeps_block (h : ArePlaced low high statements) (line : Nat) :
    (Node.phrase .block line statements).Everywhere Node.KeepsLines := by
  unfold Node.phrase
  rw [Node.everywhere_branch]
  refine ⟨⟨fun _ statement hstatement hkind => ?_, nofun⟩, h.keeps⟩
  exact h.flat statement hstatement hkind

/-- A conditional is on the line of its condition, and its blocks are behind them. -/
theorem conditional (hkeyword : keyword.kind = .keyword .ifWord)
    (hflat : condition.Everywhere (·.line = keyword.line))
    (hinner : condition.Everywhere (·.kind.IsInner))
    (hrising : IsRising keyword.line high (linesOf nodes))
    (hkeeps : ∀ block ∈ nodes, block.Everywhere Node.KeepsLines) (hle : keyword.line ≤ high) :
    ArePlaced keyword.line high [.branch keyword (condition :: nodes)] where
  rising := by
    rw [linesOf_branch, linesOf_cons]
    have hcondition := isRising_of_everywhere hflat
    exact (hcondition.append hrising (Nat.le_refl _) hle).cons hle
  keeps := by
    rw [List.forall_mem_singleton, Node.everywhere_branch, List.forall_mem_cons]
    refine ⟨⟨?_, fun _ => ⟨condition, nodes, rfl, hflat⟩⟩, ?_, hkeeps⟩
    · intro hphrase
      have hkind : (Node.branch keyword (condition :: nodes)).kind = .keyword .ifWord := hkeyword
      rw [hkind] at hphrase
      rcases hphrase with hphrase | hphrase <;> cases hphrase
    · exact hinner.mono fun _ => Kind.IsInner.keepsLines
  flat := by
    rw [List.forall_mem_singleton]
    exact fun hkind => absurd hkeyword hkind

/-- A conditional with one block, which is on the line of its keyword. -/
theorem one_block (hkeyword : keyword.kind = .keyword .ifWord)
    (hflat : condition.Everywhere (·.line = keyword.line))
    (hinner : condition.Everywhere (·.kind.IsInner)) (h : ArePlaced keyword.line high statements)
    (hle : keyword.line ≤ high) :
    ArePlaced keyword.line high
      [.branch keyword [condition, .phrase .block keyword.line statements]] := by
  refine ArePlaced.conditional hkeyword hflat hinner (h.rising_block hle) ?_ hle
  rw [List.forall_mem_singleton]
  exact h.keeps_block keyword.line

end ArePlaced

/-! ### Simple statements -/

/-- The kinds of the words that statements with a fixed number of them take. -/
def Kind.isOperandWord (kind : Kind) : Bool :=
  kind.isVariable || kind.isDataType || kind.isLiteral

theorem Kind.isOperandWord_of_operands {kind : Kind} {shape : List (Kind → Bool)}
    (h : kind.operands? = some shape) :
    ∀ allowed ∈ shape, ∀ other, allowed other = true → other.isOperandWord = true := by
  unfold operands? at h
  split at h
  all_goals cases h
  all_goals
    simp only [List.mem_cons, forall_eq_or_imp, List.not_mem_nil, false_implies, implies_true,
      and_true]
    and_intros
  all_goals
    intro other hother
    cases other <;> simp_all [isVariable, isDataType, isLiteral, isOperandWord]

theorem Kind.isInner_of_operands {kind : Kind} {shape : List (Kind → Bool)}
    (h : kind.operands? = some shape) : kind.IsInner := by
  refine ⟨?_, ?_, ?_⟩
  all_goals
    rintro rfl
    cases h

theorem Kind.endsLine_of_operands {kind : Kind} {shape : List (Kind → Bool)}
    (h : kind.operands? = some shape) : kind.endsLine = false := by
  cases kind with
  | lineBreak | endOfFile => cases h
  | _ => rfl

theorem Kind.endsLine_of_isOperandWord {kind : Kind} (h : kind.isOperandWord = true) :
    kind.endsLine = false := by
  cases kind with
  | lineBreak | endOfFile => cases h
  | _ => rfl

theorem Fits.forall {shape : List (Kind → Bool)} {R : Kind → Prop} (h : Fits shape tokens)
    (hshape : ∀ allowed ∈ shape, ∀ kind, allowed kind = true → R kind) :
    ∀ t ∈ tokens, R t.kind := by
  induction shape generalizing tokens with
  | nil =>
    cases tokens with
    | nil => nofun
    | cons token rest => cases h
  | cons allowed shape ih =>
    rw [List.forall_mem_cons] at hshape
    cases tokens with
    | nil => cases h
    | cons token rest =>
      rw [List.forall_mem_cons]
      exact ⟨hshape.1 token.kind h.1, ih h.2 hshape.2⟩

/-- A statement without statements inside has no line break in it. -/
theorem IsSimple.onLine (h : IsSimple options before tokens after tree) : OnLine tokens := by
  unfold OnLine
  cases h with
  | fixed hshape hplace hfits =>
    rw [List.forall_mem_cons]
    refine ⟨Kind.endsLine_of_operands hshape, ?_⟩
    intro t ht
    exact Kind.endsLine_of_isOperandWord
      (hfits.forall (Kind.isOperandWord_of_operands hshape) t ht)
  | assignment htarget harrow hspan hline =>
    rw [List.forall_mem_cons, List.forall_mem_cons, harrow]
    exact ⟨(Kind.opensNothing_of_isVariable htarget).inside, rfl, hline⟩
  | store hopens hparts hlone hline => exact hline

theorem breakCount_onLine (h : OnLine tokens) : breakCount tokens = 0 := by
  apply breakCount_eq_zero
  intro t ht
  have hinside := h t ht
  unfold Token.isLineBreak
  rw [beq_eq_false_iff_ne]
  intro hbreak
  rw [hbreak] at hinside
  cases hinside

theorem StandOn.line_eq (hstand : StandOn line tokens) (h : OnLine tokens) :
    ∀ t ∈ tokens, t.line = line := by
  intro t ht
  have hbounds := hstand.line_mem t ht
  rw [breakCount_onLine h] at hbounds
  omega

theorem everywhere_of_readExpression (hline : ∀ t ∈ span, t.line = line) (hwords : IsLine span)
    (h : (readExpression options span).result = .ok tree) :
    tree.Everywhere (·.line = line) ∧ tree.Everywhere (·.kind.IsInner) :=
  ⟨everywhere_of_reads ((relining _).relabels_readExpression options) hline h,
    (isTerm_of_read hwords h).everywhere_isInner⟩

/-- In an assignment, the variable may come from either side of the arrow. -/
theorem arePlaced_assignment {target arrow : Token} {expression : Node}
    (htarget : target.kind.isVariable = true) (harrow : arrow.kind = .assign)
    (htargetLine : target.line = line) (harrowLine : arrow.line = line)
    (hflat : expression.Everywhere (·.line = line))
    (hinner : expression.Everywhere (·.kind.IsInner)) :
    ArePlaced line line [.branch arrow [.leaf target, expression]] := by
  have harrowInner : arrow.kind.IsInner := by
    rw [harrow]
    exact ⟨nofun, nofun, nofun⟩
  have htargetInner : target.kind.IsInner :=
    Kind.isInner_of Kind.isVariable rfl (fun _ => rfl) htarget
  exact ArePlaced.simple (everywhere_pair harrowLine (Node.everywhere_leaf.2 htargetLine) hflat)
    (everywhere_pair harrowInner (Node.everywhere_leaf.2 htargetInner) hinner) harrowLine

/-- A simple statement is on the line of its words. -/
theorem IsSimple.arePlaced (h : IsSimple options before tokens after tree)
    (hscanned : IsScanned tokens) (hstand : StandOn line tokens) : ArePlaced line line [tree] := by
  have hlines := hstand.line_eq h.onLine
  have hwords := h.onLine.isLine hscanned
  cases h with
  | @fixed keyword operands _ shape hshape hplace hfits =>
    have hoperands := hfits.forall (Kind.isOperandWord_of_operands hshape)
    rw [List.forall_mem_cons] at hlines
    refine ArePlaced.simple ?_ ?_ hlines.1
    · rw [Node.everywhere_branch, List.forall_mem_map]
      exact ⟨hlines.1, fun t ht => Node.everywhere_leaf.2 (hlines.2 t ht)⟩
    · rw [Node.everywhere_branch, List.forall_mem_map]
      refine ⟨Kind.isInner_of_operands hshape, ?_⟩
      intro t ht
      exact Node.everywhere_leaf.2
        (Kind.isInner_of Kind.isOperandWord rfl (fun _ => rfl) (hoperands t ht))
  | @assignment target arrow span _ expression htarget harrow hspan hline hends hread =>
    rw [List.forall_mem_cons, List.forall_mem_cons] at hlines
    obtain ⟨hflat, hinner⟩ := everywhere_of_readExpression hlines.2.2 hwords.of_cons.of_cons hread
    exact arePlaced_assignment htarget harrow hlines.1 hlines.2.1 hflat hinner
  | @store arrow target _ span _ expression hopens hparts hlone hline hends hread =>
    obtain rfl := hparts.parts
    rw [List.forall_mem_append, List.forall_mem_cons, List.forall_mem_singleton] at hlines
    obtain ⟨hflat, hinner⟩ := everywhere_of_readExpression hlines.1 hwords.of_append_left hread
    exact arePlaced_assignment hparts.target hparts.arrow hlines.2.2 hlines.2.1 hflat hinner

/-! ### Conditionals and blocks -/

theorem StandOn.of_cons {token : Token} (h : StandOn line (token :: tokens))
    (hinside : token.kind.endsLine = false) : token.line = line ∧ StandOn line tokens := by
  have hword : OnLine [token] := by
    intro t ht
    rw [List.mem_singleton.1 ht]
    exact hinside
  have happend : StandOn line ([token] ++ tokens) := h
  have hparts := standOn_append.1 happend
  rw [breakCount_onLine hword] at hparts
  exact ⟨hparts.1.1, hparts.2⟩

theorem StandOn.of_append (h : StandOn line (span ++ tokens)) (hspan : OnLine span) :
    StandOn line span ∧ StandOn line tokens := by
  have hparts := standOn_append.1 h
  rw [breakCount_onLine hspan] at hparts
  exact hparts

/-- The condition of a conditional is on the line of its keyword. -/
theorem IsGuard.everywhere (h : IsGuard options span condition) (hscanned : IsScanned span)
    (hstand : StandOn line span) :
    condition.Everywhere (·.line = line) ∧ condition.Everywhere (·.kind.IsInner) :=
  ⟨everywhere_of_reads ((relining _).relabels_readCondition options) (hstand.line_eq h.line) h.read,
    (h.isConditionTree hscanned).everywhere_isInner⟩

-- The induction is on the derivation, for whatever line the tokens start on: the body of a
-- conditional starts some lines behind its keyword.
mutual

/-- The tree of a statement follows the lines of its tokens. -/
theorem IsStatement.arePlaced {before tokens after skipped : List Token} {tree : Node} :
    IsStatement options before tokens after skipped tree → IsScanned tokens →
      ∀ line, StandOn line tokens → ArePlaced line (line + breakCount tokens) [tree]
  | .simple h, hscanned => by
    intro line hstand
    exact (h.arePlaced hscanned hstand).mono (Nat.le_refl _) (Nat.le_add_right _ _)
  | @IsStatement.ifThen _ keyword thenWord endWord _ guard body _ _ condition statements hkeyword
      hguard hthen hbody _ _, hscanned => by
    intro line hstand
    obtain ⟨rfl, hstand⟩ := hstand.of_cons (by rw [hkeyword]; rfl)
    obtain ⟨hguardStand, hstand⟩ := hstand.of_append hguard.line
    obtain ⟨-, hstand⟩ := hstand.of_cons (by rw [hthen]; rfl)
    obtain ⟨hflat, hinner⟩ := hguard.everywhere hscanned.of_cons.of_append_left hguardStand
    have hbehind := hscanned.of_cons.of_append_right.of_cons
    have hstatements := hbody.arePlaced hbehind.of_append_left _ (standOn_append.1 hstand).1
    have hwhole := hstatements.one_block hkeyword hflat hinner (Nat.le_add_right _ _)
    apply hwhole.mono (Nat.le_refl _)
    simp only [breakCount_cons, breakCount_append]
    omega
  | @IsStatement.ifThenElse _ keyword thenWord elseWord endWord _ guard body alternative _ _ _
      condition statements statements' hkeyword hguard hthen hbody _ helse halternative _ _,
      hscanned => by
    intro line hstand
    obtain ⟨rfl, hstand⟩ := hstand.of_cons (by rw [hkeyword]; rfl)
    obtain ⟨hguardStand, hstand⟩ := hstand.of_append hguard.line
    obtain ⟨-, hstand⟩ := hstand.of_cons (by rw [hthen]; rfl)
    obtain ⟨hflat, hinner⟩ := hguard.everywhere hscanned.of_cons.of_append_left hguardStand
    have hbehind := hscanned.of_cons.of_append_right.of_cons
    obtain ⟨hbodyStand, hstand⟩ := standOn_append.1 hstand
    -- The second block is on the line of `ELSE`, where the lines of the first one have ended.
    obtain ⟨helseLine, hstand⟩ := hstand.of_cons (by rw [helse]; rfl)
    have hstatements := hbody.arePlaced hbehind.of_append_left _ hbodyStand
    have hothers := halternative.arePlaced hbehind.of_append_right.of_cons.of_append_left _
      (standOn_append.1 hstand).1
    have hblock := hstatements.rising_block (Nat.le_add_right _ _)
    have hblock' := hothers.rising_block (Nat.le_add_right _ _)
    have hkeeps := hstatements.keeps_block keyword.line
    have hkeeps' := hothers.keeps_block elseWord.line
    rw [← helseLine] at hblock hblock'
    have hle : keyword.line ≤ elseWord.line := by
      omega
    have hblocks := hblock.append hblock' hle (Nat.le_add_right _ _)
    rw [← linesOf_append] at hblocks
    refine (ArePlaced.conditional hkeyword hflat hinner hblocks ?_ (by omega)).mono
      (Nat.le_refl _) ?_
    · rw [List.singleton_append, List.forall_mem_cons, List.forall_mem_singleton]
      exact ⟨hkeeps, hkeeps'⟩
    · simp only [breakCount_cons, breakCount_append]
      omega
  | @IsStatement.ifLine _ keyword _ guard breaks body _ _ condition statements hkeyword hguard _ _
      hbody _, hscanned => by
    intro line hstand
    obtain ⟨rfl, hstand⟩ := hstand.of_cons (by rw [hkeyword]; rfl)
    obtain ⟨hguardStand, hstand⟩ := hstand.of_append hguard.line
    obtain ⟨hflat, hinner⟩ := hguard.everywhere hscanned.of_cons.of_append_left hguardStand
    have hbehind := hscanned.of_cons.of_append_right
    have hstatements := hbody.arePlaced hbehind.of_append_right _ (standOn_append.1 hstand).2
    -- The block is on the line of `IF`, some lines before its first statement.
    have hearlier := hstatements.mono (Nat.le_add_right _ _) (Nat.le_refl _)
    have hle : keyword.line ≤ keyword.line + breakCount breaks + breakCount body := by
      omega
    have hwhole := hearlier.one_block hkeyword hflat hinner hle
    apply hwhole.mono (Nat.le_refl _)
    simp only [breakCount_cons, breakCount_append]
    omega

/-- The trees of a block follow the lines of its tokens. -/
theorem IsBlock.arePlaced {stop : BlockEnd} {before tokens after skipped : List Token}
    {statements : List Node} :
    IsBlock options stop before tokens after skipped statements → IsScanned tokens →
      ∀ line, StandOn line tokens → ArePlaced line (line + breakCount tokens) statements
  | .finish _, _ => by
    intro line _
    exact ArePlaced.nil _ _
  | .newLine _ _ hrest, hscanned => by
    intro line hstand
    apply (hrest.arePlaced hscanned.of_cons _ hstand.2).mono (Nat.le_add_right _ _)
    rw [breakCount_cons]
    omega
  | .statement htokens hrest, hscanned => by
    intro line hstand
    obtain ⟨hfirst, hlater⟩ := standOn_append.1 hstand
    have hone := htokens.arePlaced hscanned.of_append_left _ hfirst
    have hmore := hrest.arePlaced hscanned.of_append_right _ hlater
    rw [breakCount_append, ← Nat.add_assoc]
    exact hone.append hmore (Nat.le_add_right _ _) (Nat.le_add_right _ _)
  | .skip _ _ _ hrest, hscanned => by
    intro line hstand
    apply (hrest.arePlaced hscanned.of_cons _ hstand.2).mono (Nat.le_add_right _ _)
    rw [breakCount_cons]
    omega

end

/-! ### Main result -/

/-- A compiled program follows the lines of its text, of which `last` is the last one. -/
structure Compilation.FollowsLines (compilation : Compilation) (last : Nat) : Prop where
  /-- The root stands for the whole program and has no line. -/
  root : compilation.root.line = 0
  /-- All other nodes are on lines of the text. -/
  bounds : ∀ part ∈ compilation.root.parts.tail, 1 ≤ part.line ∧ part.line ≤ last
  /-- Along the walk of the tree, the lines never decrease. -/
  sorted : compilation.root.parts.Pairwise fun a b => a.line ≤ b.line
  /-- A statement other than a conditional is on one line, and so is a conditional with its
      condition. -/
  keeps : ∀ part ∈ compilation.root.parts, part.KeepsLines
  /-- The lines of the notes never decrease. -/
  notes : compilation.diagnostics.Pairwise fun d e => d.line ≤ e.line

/-- Whatever text is compiled, under whatever options, its tree and its notes follow its lines. -/
theorem compile_followsLines (options : ReadOptions) (source : String) (compilation : Compilation)
    (h : compile options source = .ok compilation) :
    compilation.FollowsLines (lastLine source.toList) := by
  obtain ⟨body, skipped, statements, hcompiled, rfl⟩ := compile_eq_ok_iff.1 h
  obtain ⟨body', first, hbody, -, -, hstand, hfirst, hlast⟩ :=
    exists_body_of_tokenize hcompiled.tokens
  obtain rfl := List.append_inj_left' hbody rfl
  have hplaced := hcompiled.block.arePlaced hcompiled.isScanned first hstand
  have hparts : (programTree statements).parts =
      programTree statements :: statements.flatMap Node.parts :=
    Node.parts_mk _ _ _
  have hrising := hplaced.rising
  unfold linesOf at hrising
  have hbounds : ∀ part ∈ statements.flatMap Node.parts,
      1 ≤ part.line ∧ part.line ≤ lastLine source.toList := by
    intro part hpart
    have hline := hrising.bounds part.line (List.mem_map_of_mem hpart)
    omega
  refine ⟨rfl, ?_, ?_, ?_, ?_⟩
  · rw [hparts]
    exact hbounds
  · have hsorted := List.pairwise_map.1 hrising.sorted
    rw [hparts]
    exact .cons (fun part _ => Nat.zero_le part.line) hsorted
  · rw [hparts, List.forall_mem_cons]
    refine ⟨⟨fun _ => hplaced.flat, nofun⟩, ?_⟩
    intro part hpart
    obtain ⟨statement, hstatement, hpart⟩ := List.mem_flatMap.1 hpart
    exact hplaced.keeps statement hstatement part hpart
  · -- What is skipped are tokens of the body, in their order.
    rw [List.pairwise_map]
    exact hstand.sorted.sublist hcompiled.block.skipped_sublist

/-- A conditional over three lines, with a stray parenthesis before it. -/
theorem compile_followsLines_conditional :
    Compilation.FollowsLines
      ⟨⟨.plain (.phrase .prog) 0, none,
        [.branch ⟨.keyword .ifWord, none, 1⟩
          [.phrase .boolExpr 1 [.branch ⟨.comparison .equal, none, 1⟩
            [.leaf ⟨.var .scalar, some "A", 1⟩, .leaf ⟨.literal .int, some "1", 1⟩]],
          .phrase .block 1 [.branch ⟨.assign, none, 2⟩
            [.leaf ⟨.var .scalar, some "B", 2⟩,
              .phrase .expr 2 [.leaf ⟨.literal .int, some "2", 2⟩]]]]]⟩,
        [⟨1, "skipped unexpected token R_PAREN"⟩]⟩
      (lastLine ") IF A == 1\n(2) -> B\n".toList) :=
  compile_followsLines .default ") IF A == 1\n(2) -> B\n" _ (by cbv)

end CalcLang
