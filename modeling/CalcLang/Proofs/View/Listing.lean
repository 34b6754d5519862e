import CalcLang.Proofs.Program.Title
import CalcLang.View.TreePane

/-! # The listing of a tree

    A tree is listed one line per node, and but for the lines of its tokens nothing of it is lost:

    * `Token.eq_of_display`: the kind and the text of a token can be told from its label, although the
      text may hold blanks and colons.
    * `Node.relined_eq_of_walk`: the depths and the labels of a walk determine the trees, since the
      subtrees of a node end where the depth falls back.
    * `Node.IsListed`: the label of a node is that of its token and is on one line.
    * `IsBlock.everywhere_isListed`: so it is below the root of whatever program is compiled.
    * `compile_listing`: trees of programs are the same up to lines if and only if their listings are,
      and the tree pane shows the lines of the listing.

    The root is listed under the title of the program, which does not tell the title from no title at
    all.  It is the first statement that does. -/

namespace CalcLang

variable {options options' : ReadOptions} {source source' : String} {depth : Nat} {node : Node}
  {nodes nodes' statements : List Node} {body skipped : List Token} {stop : BlockEnd}

/-! ### Cutting lists -/

/-- Two lists are cut at the first element without some property, so they are cut alike. -/
theorem append_inj_of_span {α : Type} {p : α → Bool} {before before' after after' : List α}
    (hbefore : ∀ x ∈ before, p x = true) (hbefore' : ∀ x ∈ before', p x = true)
    (hafter : ∀ x ∈ after.head?, p x = false) (hafter' : ∀ x ∈ after'.head?, p x = false)
    (h : before ++ after = before' ++ after') : before = before' ∧ after = after' := by
  have hcut {before after : List α} (hbefore : ∀ x ∈ before, p x = true)
      (hafter : ∀ x ∈ after.head?, p x = false) : (before ++ after).takeWhile p = before := by
    have hnone : after.takeWhile p = [] := by
      cases after with
      | nil => rfl
      | cons x rest => exact List.takeWhile_cons_of_neg (by simp [hafter x rfl])
    rw [List.takeWhile_append_of_pos hbefore, hnone, List.append_nil]
  have hsame : before = before' := by
    rw [← hcut hbefore hafter, h, hcut hbefore' hafter']
  subst hsame
  exact ⟨rfl, List.append_cancel_left h⟩

/-- If one function can be told from another one, so it can on lists. -/
theorem map_eq_of_map_eq {α β γ : Type} {f : α → β} {g : α → γ} {xs ys : List α}
    (hfg : ∀ x ∈ xs, ∀ y ∈ ys, f x = f y → g x = g y) (h : xs.map f = ys.map f) :
    xs.map g = ys.map g := by
  induction xs generalizing ys with
  | nil =>
    cases ys with
    | nil => rfl
    | cons y ys => cases h
  | cons x xs ih =>
    cases ys with
    | nil => cases h
    | cons y ys =>
      obtain ⟨hhead, htail⟩ := List.cons.inj h
      rw [List.map_cons, List.map_cons, hfg x List.mem_cons_self y List.mem_cons_self hhead,
        ih (fun x hx y hy => hfg x (List.mem_cons_of_mem _ hx) y (List.mem_cons_of_mem _ hy)) htail]

/-! ### Labels -/

/-- A kind can be told from its name. -/
theorem Kind.ofName?_name (kind : Kind) : Kind.ofName? kind.name = some kind := by
  have hall : ∀ kind ∈ Kind.all, Kind.ofName? kind.name = some kind := by decide +kernel
  exact hall kind kind.mem_all

/-- Names of kinds have no characters that end them in a listing, and are not indented. -/
theorem Kind.plain_of_mem_name (kind : Kind) {c : Char} (h : c ∈ kind.name.toList) :
    c ≠ ':' ∧ c ≠ '\n' ∧ c ≠ ' ' := by
  have hall : ∀ kind ∈ Kind.all,
      kind.name.toList.all (fun c => c != ':' && c != '\n' && c != ' ') = true := by
    decide +kernel
  have hc := List.all_eq_true.1 (hall kind kind.mem_all) c h
  simpa [and_assoc] using hc

namespace Token

/-- What stands behind the name of the kind in the label of a token. -/
def shownText (token : Token) : List Char :=
  match token.value with
  | some text => ':' :: text.toList
  | none => []

theorem toList_display (token : Token) :
    token.display.toList = token.kind.name.toList ++ token.shownText := by
  unfold display shownText
  cases token.value with
  | some text => rw [String.toList_append, String.toList_append, List.append_assoc]; rfl
  | none => rw [List.append_nil]

theorem head?_shownText (token : Token) : ∀ c ∈ token.shownText.head?, c = ':' := by
  unfold shownText
  cases token.value with
  | some text =>
    intro c hc
    exact (Option.some_inj.1 hc).symm
  | none => exact nofun

/-- The kind and the text of a token can be told from its label. -/
theorem eq_of_display {s t : Token} (h : s.display = t.display) :
    s.kind = t.kind ∧ s.value = t.value := by
  have hlist := congrArg String.toList h
  rw [toList_display, toList_display] at hlist
  -- The first colon stands behind the name of the kind, whatever the text is.
  have hname (token : Token) : ∀ c ∈ token.kind.name.toList, (c != ':') = true := by
    intro c hc
    exact bne_iff_ne.2 (token.kind.plain_of_mem_name hc).1
  have htext (token : Token) : ∀ c ∈ token.shownText.head?, (c != ':') = false := by
    intro c hc
    rw [token.head?_shownText c hc]
    rfl
  obtain ⟨hkind, hvalue⟩ := append_inj_of_span (hname s) (hname t) (htext s) (htext t) hlist
  refine ⟨?_, ?_⟩
  · rw [← Option.some_inj, ← s.kind.ofName?_name, ← t.kind.ofName?_name,
      String.toList_injective hkind]
  · unfold shownText at hvalue
    generalize s.value = x at hvalue
    generalize t.value = y at hvalue
    cases x <;> cases y
    · rfl
    · cases hvalue
    · cases hvalue
    · exact congrArg some (String.toList_injective (List.cons.inj hvalue).2)

/-- Labels are not indented. -/
theorem head?_display (token : Token) : ∀ c ∈ token.display.toList.head?, c ≠ ' ' := by
  rw [toList_display]
  intro c hc
  cases hname : token.kind.name.toList with
  | nil =>
    rw [hname, List.nil_append] at hc
    rw [token.head?_shownText c hc]
    decide
  | cons first rest =>
    rw [hname] at hc
    obtain rfl := Option.some_inj.1 hc
    exact (token.kind.plain_of_mem_name (hname ▸ List.mem_cons_self)).2.2

theorem break_notMem_of_value {token : Token} (h : token.value = none) :
    '\n' ∉ token.display.toList := by
  unfold display
  rw [h]
  exact fun hbreak => (token.kind.plain_of_mem_name hbreak).2.1 rfl

/-- The label of a word of a program is on one line. -/
theorem IsReadable.break_notMem {token : Token} (h : token.IsReadable) :
    '\n' ∉ token.display.toList := by
  have htext : '\n' ∉ token.sourceText.toList := by
    have hspelling := h.spelling
    generalize token.sourceText.toList = text at hspelling
    intro hbreak
    -- No word is spelled with a line break.
    cases hspelling with
    | run hsome hrun => cases hrun _ hbreak
    | mark hmark =>
      rw [List.mem_singleton] at hbreak
      subst hbreak
      revert hmark
      decide
    | @quoted inner hinner =>
      rw [List.cons_append, List.mem_cons, List.mem_append, List.mem_singleton] at hbreak
      rcases hbreak with hquote | hmem | hquote
      · cases hquote
      · exact (hinner _ hmem).2 rfl
      · cases hquote
  rw [toList_display, List.mem_append]
  rintro (hname | hshown)
  · exact (token.kind.plain_of_mem_name hname).2.1 rfl
  · unfold shownText at hshown
    rw [h.value] at hshown
    split at hshown
    · next text hsome =>
      split at hsome
      · cases hsome
        rcases List.mem_cons.1 hshown with hcolon | hmem
        · cases hcolon
        · exact htext hmem
      · cases hsome
    · cases hshown

end Token

/-! ### Walks -/

namespace Node

theorem walkList_cons (depth : Nat) (node : Node) (rest : List Node) :
    walkList depth (node :: rest) =
      (depth, node) :: (walkList (depth + 1) node.children ++ walkList depth rest) := by
  obtain ⟨token, name, children⟩ := node
  rw [walkList, walkFrom, List.cons_append]

theorem walk_eq_cons (node : Node) : node.walk = (0, node) :: walkList 1 node.children := by
  obtain ⟨token, name, children⟩ := node
  rfl

mutual

theorem length_walkFrom (depth : Nat) : (node : Node) → (walkFrom depth node).length = node.size
  | ⟨token, name, children⟩ => by
    rw [walkFrom, List.length_cons, length_walkList (depth + 1) children, size, Nat.add_comm]

theorem length_walkList (depth : Nat) : (nodes : List Node) →
    (walkList depth nodes).length = sizeList nodes
  | [] => rfl
  | node :: rest => by
    rw [walkList, List.length_append, length_walkFrom depth node, length_walkList depth rest,
      sizeList]

end

mutual

theorem depth_le_of_mem_walkFrom (depth : Nat) : (node : Node) →
    ∀ row ∈ walkFrom depth node, depth ≤ row.1
  | ⟨token, name, children⟩ => by
    rw [walkFrom, List.forall_mem_cons]
    refine ⟨Nat.le_refl depth, fun row hrow => ?_⟩
    have hbelow := depth_le_of_mem_walkList (depth + 1) children row hrow
    omega

/-- The nodes of a row of trees are not above the row. -/
theorem depth_le_of_mem_walkList (depth : Nat) : (nodes : List Node) →
    ∀ row ∈ walkList depth nodes, depth ≤ row.1
  | [] => nofun
  | node :: rest => by
    rw [walkList, List.forall_mem_append]
    exact ⟨depth_le_of_mem_walkFrom depth node, depth_le_of_mem_walkList depth rest⟩

end

/-- The first node of a row of trees is where the row is. -/
theorem depth_of_head?_walkList (depth : Nat) (nodes : List Node) :
    ∀ row ∈ (walkList depth nodes).head?, row.1 = depth := by
  cases nodes with
  | nil => exact nofun
  | cons node rest =>
    rw [walkList_cons]
    intro row hrow
    obtain rfl := Option.some_inj.1 hrow
    rfl

/-- A step of a walk, without the line of the node. -/
def step (row : Nat × Node) : Nat × Option String × Kind × Option String :=
  (row.1, row.2.name, row.2.kind, row.2.value)

theorem step_cons_inj {row row' : Nat × Node} {rows rows' : List (Nat × Node)}
    (h : (row :: rows).map step = (row' :: rows').map step) :
    step row = step row' ∧ rows.map step = rows'.map step :=
  List.cons.inj h

/-- The steps of a walk determine the trees.  The subtrees of the first tree end where the depth
    falls back to that of the row. -/
theorem relined_eq_of_walk (depth : Nat) : (nodes nodes' : List Node) →
    (walkList depth nodes).map step = (walkList depth nodes').map step →
      nodes.map (relined fun _ => 0) = nodes'.map (relined fun _ => 0)
  | [], [], _ => rfl
  | [], node :: rest, h => by
    rw [walkList_cons] at h
    cases h
  | node :: rest, [], h => by
    rw [walkList_cons] at h
    cases h
  | ⟨token, name, children⟩ :: rest, ⟨token', name', children'⟩ :: rest', h => by
    rw [walkList_cons, walkList_cons] at h
    obtain ⟨hnode, hbehind⟩ := step_cons_inj h
    rw [List.map_append, List.map_append] at hbehind
    have hbelow (nodes : List Node) :
        ∀ s ∈ (walkList (depth + 1) nodes).map step, decide (depth < s.1) = true := by
      rw [List.forall_mem_map]
      intro row hrow
      exact decide_eq_true (depth_le_of_mem_walkList (depth + 1) nodes row hrow)
    have hbeside (nodes : List Node) :
        ∀ s ∈ ((walkList depth nodes).map step).head?, decide (depth < s.1) = false := by
      rw [List.head?_map]
      intro s hs
      obtain ⟨row, hrow, rfl⟩ := Option.map_eq_some_iff.1 hs
      have hdepth := depth_of_head?_walkList depth nodes row hrow
      exact decide_eq_false (by simp [step, hdepth])
    -- So both walks are cut at the first row that is not below the first tree.
    obtain ⟨hinner, houter⟩ :=
      append_inj_of_span (hbelow _) (hbelow _) (hbeside _) (hbeside _) hbehind
    have hchildren := relined_eq_of_walk (depth + 1) children children' hinner
    have hrest := relined_eq_of_walk depth rest rest' houter
    obtain ⟨token, value, line⟩ := token
    obtain ⟨token', value', line'⟩ := token'
    cases hnode
    rw [List.map_cons, List.map_cons, hrest]
    unfold relined at hchildren ⊢
    rw [map, map, mapList_eq, mapList_eq, hchildren]
    rfl

mutual

theorem walkFrom_map (f : Token → Token) (depth : Nat) : (node : Node) →
    walkFrom depth (node.map f) = (walkFrom depth node).map fun row => (row.1, row.2.map f)
  | ⟨token, name, children⟩ => by
    rw [map, walkFrom, walkFrom, List.map_cons, walkList_map f (depth + 1) children, map]

theorem walkList_map (f : Token → Token) (depth : Nat) : (nodes : List Node) →
    walkList depth (mapList f nodes) = (walkList depth nodes).map fun row => (row.1, row.2.map f)
  | [] => rfl
  | node :: rest => by
    rw [mapList, walkList, walkList, List.map_append, walkFrom_map f depth node,
      walkList_map f depth rest]

end

/-! ### Listings -/

/-- Trees that are the same up to lines have the same listing. -/
theorem listing_relined (f : Nat → Nat) (node : Node) : (node.relined f).listing = node.listing := by
  have hlabel (node : Node) : (node.map (Token.relined f)).label = node.label := by
    obtain ⟨token, name, children⟩ := node
    rfl
  unfold listing walk relined
  rw [walkFrom_map, List.map_map]
  congr 2
  funext row
  exact congrArg (indent row.1 ++ ·) (hlabel row.2)

theorem toList_listingLine (depth : Nat) (node : Node) :
    (listingLine depth node).toList = List.replicate (2 * depth) ' ' ++ node.label.toList := by
  unfold listingLine indent
  rw [String.toList_append, String.toList_ofList]

/-- The lines of a listing are those of the nodes, if no label goes over several lines. -/
theorem splitOn_listing (h : node.Everywhere fun part => '\n' ∉ part.label.toList) :
    node.listing.toList.splitOn '\n' =
      node.walk.map fun row => (listingLine row.1 row.2).toList := by
  unfold listing
  rw [String.toList_intercalate, List.map_map]
  refine List.splitOn_intercalate '\n' ?_ ?_
  · rw [List.forall_mem_map]
    intro row hrow hbreak
    have hline : '\n' ∈ (listingLine row.1 row.2).toList := hbreak
    rw [toList_listingLine, List.mem_append, List.mem_replicate] at hline
    rcases hline with ⟨-, hblank⟩ | hlabel
    · cases hblank
    · exact h row.2 (List.mem_map.2 ⟨row, hrow, rfl⟩) hlabel
  · rw [walk_eq_cons]
    exact List.cons_ne_nil _ _

/-- A node that is listed by the label of its token, on one line. -/
structure IsListed (node : Node) : Prop where
  unnamed : node.name = none
  break_notMem : '\n' ∉ node.token.display.toList

theorem IsListed.label_eq (h : node.IsListed) : node.label = node.token.display := by
  unfold label
  rw [h.unnamed]
  rfl

/-- The depth, the kind and the text of a node can be told from its line in a listing. -/
theorem step_eq_of_listingLine {row row' : Nat × Node} (hrow : row.2.IsListed)
    (hrow' : row'.2.IsListed)
    (h : (listingLine row.1 row.2).toList = (listingLine row'.1 row'.2).toList) :
    step row = step row' := by
  rw [toList_listingLine, toList_listingLine, hrow.label_eq, hrow'.label_eq] at h
  have hindent (depth : Nat) : ∀ c ∈ List.replicate (2 * depth) ' ', (c == ' ') = true := by
    intro c hc
    exact beq_iff_eq.2 (List.eq_of_mem_replicate hc)
  have hlabel (token : Token) : ∀ c ∈ token.display.toList.head?, (c == ' ') = false := by
    intro c hc
    exact beq_eq_false_iff_ne.2 (token.head?_display c hc)
  obtain ⟨hblanks, hdisplay⟩ :=
    append_inj_of_span (hindent _) (hindent _) (hlabel _) (hlabel _) h
  have hdepth : row.1 = row'.1 := by
    have hlength := congrArg List.length hblanks
    rw [List.length_replicate, List.length_replicate] at hlength
    omega
  obtain ⟨hkind, hvalue⟩ := Token.eq_of_display (String.toList_injective hdisplay)
  unfold step kind value
  rw [hdepth, hrow.unnamed, hrow'.unnamed, hkind, hvalue]

/-- The lines of some trees determine the trees. -/
theorem relined_eq_of_lines (hnodes : ∀ node ∈ nodes, node.Everywhere IsListed)
    (hnodes' : ∀ node ∈ nodes', node.Everywhere IsListed)
    (h : (walkList depth nodes).map (fun row => (listingLine row.1 row.2).toList) =
      (walkList depth nodes').map fun row => (listingLine row.1 row.2).toList) :
    nodes.map (relined fun _ => 0) = nodes'.map (relined fun _ => 0) := by
  have hlisted {nodes : List Node} (hnodes : ∀ node ∈ nodes, node.Everywhere IsListed) :
      ∀ row ∈ walkList depth nodes, row.2.IsListed := by
    intro row hrow
    have hpart : row.2 ∈ nodes.flatMap parts := by
      rw [← parts_walkList depth]
      exact List.mem_map.2 ⟨row, hrow, rfl⟩
    obtain ⟨node, hnode, hpart⟩ := List.mem_flatMap.1 hpart
    exact hnodes node hnode row.2 hpart
  apply relined_eq_of_walk depth
  exact map_eq_of_map_eq (fun row hrow row' hrow' =>
    step_eq_of_listingLine (hlisted hnodes row hrow) (hlisted hnodes' row' hrow')) h

end Node

/-! ### The nodes of programs -/

/-- A node without a name, whose token has a text only if it is a word. -/
structure Node.IsUnnamed (node : Node) : Prop where
  name_eq : node.name = none
  value_eq : node.kind.isScanned = false → node.value = none

theorem Node.isUnnamed_branch {token : Token} {children : List Node}
    (h : token.kind.isScanned = true) : (branch token children).IsUnnamed := by
  refine ⟨rfl, fun hphrase => ?_⟩
  have hkind : token.kind.isScanned = false := hphrase
  rw [h] at hkind
  cases hkind

theorem Node.isUnnamed_phrase (phrase : Phrase) (line : Nat) (children : List Node) :
    (Node.phrase phrase line children).IsUnnamed :=
  ⟨rfl, fun _ => rfl⟩

theorem Node.isUnnamed_word {token : Token} {children : List Node} (family : Kind → Bool)
    (hphrase : ∀ phrase, family (.phrase phrase) = false) (h : family token.kind = true) :
    (branch token children).IsUnnamed :=
  isUnnamed_branch (Kind.isScanned_of family hphrase h)

theorem IsTerm.everywhere_isUnnamed (h : IsTerm node) : node.Everywhere Node.IsUnnamed :=
  h.everywhere fun _ _ _ hvalue => ⟨rfl, hvalue⟩

theorem IsConditionTree.everywhere_isUnnamed (h : IsConditionTree node) :
    node.Everywhere Node.IsUnnamed :=
  h.everywhere fun _ _ _ hvalue => ⟨rfl, hvalue⟩

theorem IsStatementTree.everywhere_isUnnamed (h : IsStatementTree node) :
    node.Everywhere Node.IsUnnamed := by
  have hblock {statements : List Node} (line : Nat)
      (hbody : ∀ node ∈ statements, node.Everywhere Node.IsUnnamed) :
      (Node.phrase .block line statements).Everywhere Node.IsUnnamed :=
    Node.everywhere_branch.2 ⟨Node.isUnnamed_phrase .block line _, hbody⟩
  induction h with
  | @fixed keyword operands shape hshape hfits =>
    have hkeyword : keyword.kind.isScanned = true :=
      Kind.isScanned_of (fun kind => kind.operands?.isSome) (fun _ => rfl) (by rw [hshape]; rfl)
    refine Node.everywhere_branch.2 ⟨Node.isUnnamed_branch hkeyword, ?_⟩
    rw [List.forall_mem_map]
    intro t ht
    have hoperand := hfits.forall (Kind.isOperandWord_of_operands hshape) t ht
    exact Node.everywhere_leaf.2 (Node.isUnnamed_word Kind.isOperandWord (fun _ => rfl) hoperand)
  | assignment harrow htarget hexpression =>
    refine everywhere_pair (Node.isUnnamed_branch (by rw [harrow]; rfl)) ?_
      hexpression.everywhere_isUnnamed
    exact Node.everywhere_leaf.2 (Node.isUnnamed_word Kind.isVariable (fun _ => rfl) htarget)
  | ifThen line hkeyword hcondition hfull hbody ih =>
    exact everywhere_pair (Node.isUnnamed_branch (by rw [hkeyword]; rfl))
      hcondition.everywhere_isUnnamed (hblock line ih)
  | ifThenElse line line' hkeyword hcondition hfull hbody hfull' halternative ih ih' =>
    refine Node.everywhere_branch.2 ⟨Node.isUnnamed_branch (by rw [hkeyword]; rfl), ?_⟩
    rw [List.forall_mem_cons, List.forall_mem_cons, List.forall_mem_singleton]
    exact ⟨hcondition.everywhere_isUnnamed, hblock line ih, hblock line' ih'⟩

/-- Below the root of a program, a node is listed by the label of its token, which is a word of the
    text or that of a phrase. -/
theorem IsBlock.everywhere_isListed
    (hblock : IsBlock options .program [] body [] skipped statements) (hscanned : IsScanned body)
    (hreadable : ∀ t ∈ body, t = .lineBreak t.line ∨ t.IsReadable) :
    ∀ statement ∈ statements, statement.Everywhere Node.IsListed := by
  intro statement hstatement part hpart
  have hunnamed :=
    (hblock.isStatementTree hscanned statement hstatement).everywhere_isUnnamed part hpart
  refine ⟨hunnamed.name_eq, ?_⟩
  cases hword : part.kind.isScanned with
  | false => exact Token.break_notMem_of_value (hunnamed.value_eq hword)
  | true =>
    -- The words of the tree are words of the text.
    have hmem : part.token ∈ statement.words := by
      unfold Node.words
      rw [Multiset.mem_coe, List.mem_filter]
      obtain ⟨row, hrow, rfl⟩ := List.mem_map.1 hpart
      exact ⟨List.mem_map.2 ⟨row, hrow, rfl⟩, hword⟩
    have hwords : statement.words ≤ (statements.map Node.words).sum :=
      List.le_sum_of_mem (List.mem_map.2 ⟨statement, hstatement, rfl⟩)
    have hkept : part.token ∈ kept body := by
      rw [hblock.kept_eq hscanned, Multiset.mem_add]
      exact .inl (Multiset.mem_of_le hwords hmem)
    have hbody : part.token ∈ body := (List.mem_filter.1 (Multiset.mem_coe.1 hkept)).1
    rcases hreadable _ hbody with hbreak | hread
    · exact Token.break_notMem_of_value (congrArg Token.value hbreak)
    · exact hread.break_notMem

/-- Trimming quotes adds no characters. -/
theorem mem_of_mem_trimQuotes {text : String} {c : Char} (h : c ∈ (trimQuotes text).toList) :
    c ∈ text.toList := by
  unfold trimQuotes at h
  rw [String.toList_ofList, List.mem_reverse] at h
  exact (List.dropWhile_sublist _).subset
    (List.mem_reverse.1 ((List.dropWhile_sublist _).subset h))

theorem Node.mem_parts_self (node : Node) : node ∈ node.parts := by
  obtain ⟨token, name, children⟩ := node
  rw [parts_mk]
  exact List.mem_cons_self

theorem Node.mem_parts_of_child {child : Node} (h : child ∈ node.children) : child ∈ node.parts := by
  obtain ⟨token, name, children⟩ := node
  rw [parts_mk]
  exact List.mem_cons_of_mem _ (List.mem_flatMap.2 ⟨child, h, child.mem_parts_self⟩)

/-- A title is what a node below the first statement has in quotes. -/
theorem exists_value_of_title? {title : String} (h : title? statements = some title) :
    ∃ statement ∈ statements, ∃ child ∈ statement.parts, ∃ value,
      child.value = some value ∧ title = trimQuotes value := by
  cases statements with
  | nil => cases h
  | cons first rest =>
    have htitle : (if first.kind = .keyword .program then
        (first.children.head?.bind Node.value).map trimQuotes else none) = some title := h
    split at htitle
    · obtain ⟨value, hvalue, rfl⟩ := Option.map_eq_some_iff.1 htitle
      obtain ⟨child, hchild, hvalue⟩ := Option.bind_eq_some_iff.1 hvalue
      exact ⟨first, List.mem_cons_self, child,
        Node.mem_parts_of_child (List.mem_of_mem_head? hchild), value, hvalue, rfl⟩
    · cases htitle

/-- The root is listed on one line, too: its title is a part of a label below it. -/
theorem break_notMem_label_programTree
    (h : ∀ statement ∈ statements, statement.Everywhere Node.IsListed) :
    '\n' ∉ (programTree statements).label.toList := by
  intro hbreak
  cases htitle : title? statements with
  | none =>
    have hlabel : (programTree statements).label = (Token.plain (.phrase .prog) 0).display := by
      unfold Node.label programTree
      rw [htitle]
      rfl
    rw [hlabel] at hbreak
    exact Token.break_notMem_of_value rfl hbreak
  | some title =>
    have hlabel : (programTree statements).label = title := by
      unfold Node.label programTree
      rw [htitle]
      rfl
    rw [hlabel] at hbreak
    obtain ⟨statement, hstatement, child, hchild, value, hvalue, rfl⟩ :=
      exists_value_of_title? htitle
    apply (h statement hstatement child hchild).break_notMem
    rw [Token.toList_display, List.mem_append]
    right
    have hvalue : child.token.value = some value := hvalue
    unfold Token.shownText
    rw [hvalue]
    exact List.mem_cons_of_mem _ (mem_of_mem_trimQuotes hbreak)

/-! ### Main result -/

/-- The lines of the listing of a program. -/
theorem splitOn_listing_programTree
    (h : ∀ statement ∈ statements, statement.Everywhere Node.IsListed) :
    (programTree statements).listing.toList.splitOn '\n' =
      (programTree statements).walk.map fun row => (Node.listingLine row.1 row.2).toList := by
  apply Node.splitOn_listing
  intro part hpart
  rw [parts_programTree, List.mem_cons] at hpart
  rcases hpart with rfl | hpart
  · exact break_notMem_label_programTree h
  · obtain ⟨statement, hstatement, hpart⟩ := List.mem_flatMap.1 hpart
    have hlisted := h statement hstatement part hpart
    rw [hlisted.label_eq]
    exact hlisted.break_notMem

/-- The statements of a program determine the root of its tree, so its lines behind the first one
    determine the whole tree. -/
theorem relined_programTree_eq (f : Nat → Nat) (hf : f 0 = 0) {statements' : List Node}
    (h : statements.map (Node.relined f) = statements'.map (Node.relined f)) :
    (programTree statements).relined f = (programTree statements').relined f := by
  have hroot (statements : List Node) :
      (programTree statements).relined f = programTree (statements.map (Node.relined f)) := by
    rw [programTree_relined]
    unfold Node.relined programTree
    rw [Node.map, Node.mapList_eq]
    show Node.mk { Token.plain (.phrase .prog) 0 with line := f 0 } _ _ = _
    rw [hf]
    rfl
  rw [hroot, hroot, h]

/-- Whatever programs are compiled, under whatever options, their trees are the same up to lines if
    and only if their listings are.  A listing has one line for each node, and its lines are the first
    two pieces of the rows of the tree pane. -/
theorem compile_listing (options options' : ReadOptions) (source source' : String)
    (compilation compilation' : Compilation) (h : compile options source = .ok compilation)
    (h' : compile options' source' = .ok compilation') :
    (compilation.root.listing = compilation'.root.listing ↔
        compilation.root.relined (fun _ => 0) = compilation'.root.relined fun _ => 0) ∧
      (compilation.root.listing.toList.splitOn '\n').length = compilation.root.size ∧
      compilation.root.listing.toList.splitOn '\n' =
        (TreePane.rows compilation.root).map fun row => (row.take 2).flatMap Fragment.text := by
  have hlisted {options : ReadOptions} {source : String} {body skipped : List Token}
      {statements : List Node} (h : IsCompiled options source body skipped statements) :
      ∀ statement ∈ statements, statement.Everywhere Node.IsListed :=
    h.block.everywhere_isListed h.isScanned (isReadable_of_tokenize h.tokens)
  obtain ⟨body, skipped, statements, hcompiled, rfl⟩ := compile_eq_ok_iff.1 h
  obtain ⟨body', skipped', statements', hcompiled', rfl⟩ := compile_eq_ok_iff.1 h'
  have hlines := splitOn_listing_programTree (hlisted hcompiled)
  have hlines' := splitOn_listing_programTree (hlisted hcompiled')
  refine ⟨⟨fun hsame => ?_, fun hsame => ?_⟩, ?_, ?_⟩
  · show (programTree statements).relined _ = (programTree statements').relined _
    have hsame : (programTree statements).listing = (programTree statements').listing := hsame
    rw [hsame, hlines', Node.walk_eq_cons, Node.walk_eq_cons] at hlines
    -- The line of the root is not needed, which does not tell a title from a kind.
    have hbelow := (List.cons.inj hlines).2.symm
    exact relined_programTree_eq _ rfl
      (Node.relined_eq_of_lines (hlisted hcompiled) (hlisted hcompiled') hbelow)
  · rw [← Node.listing_relined (fun _ => 0) (programTree statements), hsame, Node.listing_relined]
  · show ((programTree statements).listing.toList.splitOn '\n').length = _
    rw [hlines, List.length_map]
    exact Node.length_walkFrom 0 _
  · show (programTree statements).listing.toList.splitOn '\n' = _
    rw [hlines]
    unfold TreePane.rows
    rw [List.map_map]
    apply List.map_congr_left
    intro row _
    show (Node.listingLine row.1 row.2).toList =
      (Node.indent row.1).toList ++ (row.2.label.toList ++ [])
    rw [Node.listingLine, String.toList_append, List.append_nil]

/-- A title with a blank and a colon, on the first line and on the third one. -/
theorem compile_listing_title :
    compile .default "PROGRAM \"A: B\"" = .ok ⟨⟨.plain (.phrase .prog) 0, some "A: B",
        [.branch ⟨.keyword .program, none, 1⟩ [.leaf ⟨.literal .string, some "\"A: B\"", 1⟩]]⟩, []⟩ ∧
      compile .default "\n\nPROGRAM \"A: B\"" = .ok ⟨⟨.plain (.phrase .prog) 0, some "A: B",
        [.branch ⟨.keyword .program, none, 3⟩ [.leaf ⟨.literal .string, some "\"A: B\"", 3⟩]]⟩, []⟩ ∧
      (Node.mk (.plain (.phrase .prog) 0) (some "A: B") [.branch ⟨.keyword .program, none, 1⟩
        [.leaf ⟨.literal .string, some "\"A: B\"", 1⟩]]).listing =
        (Node.mk (.plain (.phrase .prog) 0) (some "A: B") [.branch ⟨.keyword .program, none, 3⟩
          [.leaf ⟨.literal .string, some "\"A: B\"", 3⟩]]).listing := by
  have h : compile .default "PROGRAM \"A: B\"" = .ok ⟨⟨.plain (.phrase .prog) 0, some "A: B",
      [.branch ⟨.keyword .program, none, 1⟩ [.leaf ⟨.literal .string, some "\"A: B\"", 1⟩]]⟩, []⟩ := by
    cbv
  have h' : compile .default "\n\nPROGRAM \"A: B\"" = .ok ⟨⟨.plain (.phrase .prog) 0, some "A: B",
      [.branch ⟨.keyword .program, none, 3⟩ [.leaf ⟨.literal .string, some "\"A: B\"", 3⟩]]⟩, []⟩ := by
    cbv
  exact ⟨h, h', (compile_listing .default .default _ _ _ _ h h').1.2 rfl⟩

end CalcLang
