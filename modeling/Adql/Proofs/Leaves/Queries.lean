import Adql.Proofs.Leaves.Expressions

/-!
# Rules for queries account for leaves

The bodies of the rules for queries account for leaves if the rules that they apply do.  The sort
keys and the offset of a query are put into its body if that is a single specification, so it
matters that they do not stand there yet (`QueryBody.Plain`).
-/

namespace Adql

open Adql.Parser Adql.Grammar

/-! ### Specifications are plain -/

section

variable {apply : (rule : Rule) → Parser rule.Result}

/-- A specification has no sort keys and no offset when it is read. -/
theorem querySpec_plain :
    Yields (querySpec apply) fun spec => spec.keys = [] ∧ spec.offset = none :=
  .bind_any fun _ => .bind_any fun _ => .bind_any fun _ => .bind_any fun _ => .bind_any fun _ =>
    .bind_any fun _ => .bind_any fun _ => .bind_any fun _ => .pure ⟨rfl, rfl⟩

/-- Set operations are plain if their operands are. -/
theorem setOperations_plain {operand : Parser QueryBody} (h : Yields operand QueryBody.Plain)
    (level : Nat) : Yields (setOperations operand level) QueryBody.Plain := by
  refine h.bind fun first hfirst => .iterate (fun left hleft => .bind_any fun op? => ?_) hfirst
  cases op? with
  | none => exact .pure hleft
  | some op =>
    exact .ite (.pure hleft) (.bind_any fun _ => .bind_any fun _ => .bind_any fun _ => .pure nofun)

/-- What a body yields is plain if what the rules yield that it applies is. -/
theorem body_plain (h : ∀ rule, Yields (apply rule) rule.plain) (lookahead : Bool) (rule : Rule) :
    Yields (body lookahead apply rule) rule.plain := by
  cases rule with
  | querySpec => exact querySpec_plain
  | queryTerm =>
    refine .bind_any fun _ => .ite ((h .querySpec).bind fun spec hspec => .pure ?_)
      (.bind_any fun _ => .ite (.bind_any fun _ => .bind_any fun _ => .pure nofun) .fail)
    rintro _ ⟨⟩
    exact hspec
  | queryBody => exact setOperations_plain (setOperations_plain (h .queryTerm) _) _
  | _ => exact fun _ _ _ _ => trivial

end

/-- The leaves of a query that is put together are the leaves of its parts. -/
theorem leaves_assembleQuery {body : QueryBody} (plain : body.Plain)
    (commonTables : List CommonTable) (keys : List SortKey) (offset : Option UInt64) :
    (assembleQuery commonTables body keys offset).leaves =
      CommonTable.leavesList commonTables ++ (body.leaves ++ (SortKey.leavesList keys ++
        Leaf.count (offset.map UInt64.toNat))) := by
  cases body with
  | spec spec =>
    obtain ⟨noKeys, noOffset⟩ := plain spec rfl
    obtain ⟨_, _, _, _, _, _, _, _, _⟩ := spec
    cases noKeys
    cases noOffset
    simp [assembleQuery, Leaf.count]
  | setOperation op all left right => rfl
  | nested query => rfl

/-! ### Parts of rules -/

section

variable {now : Token → Prop} {front : List Leaf}

/-- A name given to an item is read as a leaf. -/
theorem aliasName_accounts : Accounts now front aliasName fun name => front ++ [.name name] :=
  .eatWord_either fun _ => identifier_accounts

/-- Names in parentheses are read as leaves. -/
theorem nameList_accounts : Accounts now front nameList fun names => front ++ names.map .name :=
  .inParentheses (names_accounts rfl)

/-- The names of the columns of a named query are read as leaves, if they are given. -/
theorem columnNames_accounts :
    Accounts now front columnNames fun names => front ++ names.map .name :=
  .eat_bind rfl ((names_accounts rfl).bind fun _ => .expect_bind rfl (.pure rfl)) (.pure (by simp))

/-- A number of rows behind a word is read as a leaf. -/
theorem offset_accounts :
    Accounts now front (afterWord .OFFSET none (clause none (some <$> rowCount))) fun offset =>
      front ++ Leaf.count (offset.map UInt64.toNat) :=
  .afterWord (.orRecover (.map rowCount_accounts)) (by simp [Leaf.count])

/-- The number of rows to keep is read as a leaf. -/
theorem top_accounts :
    Accounts now front (afterWord .TOP none (some <$> rowCount)) fun top =>
      front ++ Leaf.count (top.map UInt64.toNat) :=
  .afterWord (.map rowCount_accounts) (by simp [Leaf.count])

/-- The words in front of a select list hold no leaf. -/
theorem distinctness_accounts : Accounts now front distinctness fun _ => front :=
  .eatWord_bind (.pure rfl) (.eatWord_either fun _ => .pure rfl)

/-- The words of an outer join hold no leaf. -/
theorem outerJoin_accounts : Accounts now front outerJoin? fun _ => front :=
  .eatWord_bind (.pure rfl) (.eatWord_bind (.pure rfl) (.eatWord_bind (.pure rfl) (.pure rfl)))

/-- The words of a join hold no leaf. -/
theorem joinKind_accounts (natural : Bool) :
    Accounts AnyToken front (joinKind? natural) fun _ => front := by
  have others : Accounts AnyToken front (matchedJoin? natural) fun _ => front := by
    refine .eatWord_bind (.pure rfl) (.eatWord_bind (.expectWord_bind (.pure rfl)) ?_)
    refine outerJoin_accounts.bind fun kind => ?_
    cases kind with
    | none => exact .ite (fun _ => .fail) fun _ => .pure rfl
    | some kind => exact .eatWord_either fun _ => .expectWord_bind (.pure rfl)
  rw [joinKind?_eq]
  cases natural with
  | true => exact others
  | false => exact .eatWord_bind (.expectWord_bind (.pure rfl)) others

/-- The set operator is looked up. -/
theorem looks_setOperator :
    Looks setOperator? fun op? token => ∀ op, op? = some op → token.kind = .keyword op.keyword := by
  have found (op : SetOperator) : Looks (pure (some op)) fun op? token =>
      token.kind = .keyword op.keyword →
        ∀ op', op? = some op' → token.kind = .keyword op'.keyword :=
    .pure fun _ kind _ same => by cases same; exact kind
  exact .check_ite (found .union) (.check_ite (found .except) (.check_ite (found .intersect)
    (.pure nofun)))

/-- One more qualifier of a wildcard is read as a leaf. -/
theorem wildcardStep_accounts (state : Array Identifier × Bool) :
    Accounts now (front ++ state.1.toList.map .name) (wildcardStep state) fun next =>
      front ++ next.state.1.toList.map .name :=
  .expect_bind rfl
    (.eat_bind rfl (.pure rfl) (identifier_accounts.bind fun name => .pure (by simp [Step.state])))

/-- All columns of a table are read as the leaves of the name of the table. -/
theorem qualifiedWildcard_accounts :
    Accounts now front qualifiedWildcard fun item => front ++ item.leaves := by
  refine identifier_accounts.bind fun first => ?_
  have qualifier : Accounts AnyToken (front ++ [.name first])
      (iterate wildcardStep (#[first], false)) fun state => front ++ state.1.toList.map .name :=
    .iterate (fun state => wildcardStep_accounts state) (by simp)
  exact qualifier.bind fun state => .pure (by simp [SelectItem.unnamed, Identifier.leavesOption])

end

/-! ### Rules -/

section

variable {apply : (rule : Rule) → Parser rule.Result} (h : AccountsRules apply)
  {now : Token → Prop} {front : List Leaf}

include h

/-- Sort keys are read as their leaves. -/
theorem sortKeys_accounts :
    Accounts now front (sortKeys apply) fun keys => front ++ SortKey.leavesList keys :=
  .expectWord_bind ((Accounts.oneOrMore rfl fun _ => h.rule .sortKey rfl).congr fun keys => by
    rw [SortKey.leavesList_eq]; rfl)

/-- A query is read as its leaves. -/
theorem query_accounts : Accounts now front (query apply) fun query => front ++ query.leaves := by
  have tables : Accounts now front
      (afterWord .WITH [] (oneOrMore .comma (apply .commonTable))) fun tables =>
        front ++ CommonTable.leavesList tables :=
    .afterWord ((Accounts.oneOrMore rfl fun _ => h.rule .commonTable rfl).congr fun tables => by
      rw [CommonTable.leavesList_eq]; rfl) (by simp)
  refine tables.bind fun tables => ?_
  refine (h.rule .queryBody rfl).bind_of (h.plain .queryBody) fun body plain => ?_
  have keys : Accounts AnyToken (front ++ CommonTable.leavesList tables ++ body.leaves)
      (afterWord .ORDER [] (clause [] (sortKeys apply))) fun keys =>
        front ++ CommonTable.leavesList tables ++ body.leaves ++ SortKey.leavesList keys :=
    .afterWord (.orRecover (sortKeys_accounts h)) (by simp)
  refine keys.bind fun keys => offset_accounts.bind fun offset => .pure ?_
  rw [leaves_assembleQuery plain]
  simp

/-- A named query is read as its leaves. -/
theorem commonTable_accounts :
    Accounts now front (commonTable apply) fun table => front ++ table.leaves :=
  identifier_accounts.bind fun name => columnNames_accounts.bind fun columns => .expectWord_bind <|
    (parenthesizedQuery_accounts h).bind fun query => .pure (by simp)

/-- A sort key is read as its leaves. -/
theorem sortKey_accounts : Accounts now front (sortKey apply) fun key => front ++ key.leaves :=
  (expression_accounts h).bind fun expr =>
    .eatWord_bind (.pure (by simp)) (.eatWord_either fun _ => .pure (by simp))

/-! ### Set operations -/

omit h in
/-- One more set operator with its right operand is read as its leaves. -/
theorem setStep_accounts {operand : Parser QueryBody}
    (hoperand : ∀ front, Accounts AnyToken front operand fun body => front ++ body.leaves)
    (level : Nat) (left : QueryBody) :
    Accounts now (front ++ left.leaves) (setStep operand level left) fun next =>
      front ++ next.state.leaves := by
  refine .look looks_setOperator fun op? => ?_
  cases op? with
  | none => exact .pure rfl
  | some op =>
    refine .ite (fun _ => .pure rfl) fun _ => .advance_plain (fun token first => ?_) fun _ => ?_
    · rw [Token.isLeaf, first.2 op rfl]
      rfl
    · exact .eatWord_either fun all => (hoperand _).bind fun right => .pure (by simp [Step.state])

omit h in
/-- Set operations are read as the leaves of their operands. -/
theorem setOperations_accounts {operand : Parser QueryBody}
    (hoperand : ∀ front, Accounts AnyToken front operand fun body => front ++ body.leaves)
    (level : Nat) :
    Accounts now front (setOperations operand level) fun body => front ++ body.leaves :=
  ((hoperand front).mono fun _ _ => trivial).bind fun _ =>
    .iterate (fun left => setStep_accounts hoperand level left) rfl

/-- A query body is read as its leaves. -/
theorem queryBody_accounts :
    Accounts now front (queryBody apply) fun body => front ++ body.leaves :=
  setOperations_accounts (fun _ => setOperations_accounts (fun _ => h.rule .queryTerm rfl) _) _

/-- An operand of a set operator is read as its leaves. -/
theorem queryTerm_accounts :
    Accounts now front (queryTerm apply) fun body => front ++ body.leaves := by
  refine .check_ite ((h.rule .querySpec rfl).bind fun spec => .pure (by simp [Rule.leaves])) ?_
  refine .eat_bind rfl ((h.rule .query rfl).bind fun query => .expect_bind rfl (.pure ?_)) .fail
  simp [Rule.leaves]

/-! ### Specifications -/

/-- A condition is read as its leaves, if it is there. -/
theorem condition_accounts (word : Keyword) :
    Accounts now front (condition apply word) fun condition =>
      front ++ Expr.leavesOption condition :=
  .afterWord (.orRecover (.map (expression_accounts h))) (by simp)

/-- The items of a `FROM` clause are read as their leaves. -/
theorem fromClause_accounts :
    Accounts now front (clause [] (fromClause apply)) fun tables =>
      front ++ TableRef.leavesList tables :=
  .orRecover (.expectWord_bind ((Accounts.oneOrMore rfl fun _ => h.rule .tableReference rfl).congr
    fun tables => by rw [TableRef.leavesList_eq]; rfl))

/-- Grouping expressions are read as their leaves. -/
theorem groups_accounts :
    Accounts now front (afterWord .GROUP [] (clause [] (groups apply))) fun groups =>
      front ++ Expr.leavesList groups :=
  .afterWord (.orRecover (.expectWord_bind (expressions_accounts h))) (by simp)

/-- A specification is read as its leaves. -/
theorem querySpec_accounts :
    Accounts now front (querySpec apply) fun spec => front ++ spec.leaves := by
  refine .expectWord_bind
    (distinctness_accounts.bind fun distinct => top_accounts.bind fun top => ?_)
  refine (h.rule .selectList rfl).bind fun items => (fromClause_accounts h).bind fun tables => ?_
  refine (condition_accounts h .WHERE).bind fun rows => (groups_accounts h).bind fun groups => ?_
  refine (condition_accounts h .HAVING).bind fun having => .pure ?_
  simp [Rule.leaves, Leaf.count]

/-- Items of a select list are read as their leaves; items that are skipped leave a diagnostic. -/
theorem someItems_accounts :
    Accounts now front (someItems (apply .selectItem)) fun items =>
      front ++ SelectItem.leavesList items := by
  refine .look .canRecover fun _ => .ite (fun _ => ?_) fun _ => ?_
  · have step (items : Array SelectItem) :
        Accounts AnyToken (front ++ SelectItem.leavesList items.toList)
          (itemStep (apply .selectItem) items) fun next =>
            front ++ SelectItem.leavesList next.state.toList := by
      have item : Accounts AnyToken (front ++ SelectItem.leavesList items.toList)
          (orRecover (some <$> apply .selectItem) itemSync none) fun item =>
            front ++ SelectItem.leavesList (item.elim items items.push).toList :=
        .orRecover (.map ((h.rule .selectItem rfl).congr fun item => by
          simp [SelectItem.leavesList_eq, Rule.leaves]))
      exact item.bind fun item => .eat_bind rfl (.pure rfl) (.pure rfl)
    have items : Accounts AnyToken front (iterate (itemStep (apply .selectItem)) #[]) fun items =>
        front ++ SelectItem.leavesList items.toList := .iterate step (by simp)
    exact (items.mono fun _ _ => trivial).bind fun items => .pure rfl
  · exact (Accounts.oneOrMore rfl fun _ => h.rule .selectItem rfl).congr fun items => by
      rw [SelectItem.leavesList_eq]; rfl

/-- A select list is read as its leaves. -/
theorem selectList_accounts :
    Accounts now front (selectList apply) fun items => front ++ SelectItem.leavesList items :=
  .eat_bind rfl (.pure (by simp [SelectItem.unnamed, Identifier.leavesOption]))
    (someItems_accounts h)

/-- A name that may be missing is read as its leaf, if it is there. -/
theorem optionalAlias_accounts :
    Accounts now front (optional (apply .aliasName)) fun alias? =>
      front ++ Identifier.leavesOption alias? :=
  .optional (h.rule .aliasName rfl) (h.returns .aliasName rfl) (by simp [Identifier.leavesOption])

/-- An expression with an optional name is read as its leaves. -/
theorem derivedColumn_accounts :
    Accounts now front (derivedColumn apply) fun item => front ++ item.leaves :=
  (expression_accounts h).bind fun expr => (optionalAlias_accounts h).bind fun alias? =>
    .pure (by simp)

/-- An item of a select list is read as its leaves. -/
theorem selectItem_accounts :
    Accounts now front (selectItem apply) fun item => front ++ item.leaves := by
  have either : Accounts AnyToken front
      (firstOf (apply .qualifiedWildcard) (apply .derivedColumn)) fun item =>
        front ++ item.leaves :=
    .firstOf (h.rule .qualifiedWildcard rfl) (h.returns .qualifiedWildcard rfl)
      (h.rule .derivedColumn rfl)
  exact .look .currentKind fun _ => .look .nextKind fun _ =>
    .ite (fun _ => either.mono fun _ _ => trivial) fun _ => derivedColumn_accounts h

/-! ### Tables -/

/-- What matches the rows of a join is read as its leaves. -/
theorem joinConstraint_accounts (free : Bool) :
    Accounts now front (joinConstraint apply free) fun constraint => front ++ constraint.leaves :=
  .ite (fun _ => .pure (by simp)) fun _ =>
    .eatWord_bind ((expression_accounts h).bind fun _ => .pure (by simp)) <|
      .eatWord_bind (nameList_accounts.bind fun _ => .pure (by simp)) .fail

/-- One more join is read as its leaves. -/
theorem joinStep_accounts (left : TableRef) :
    Accounts now (front ++ left.leaves) (joinStep apply left) fun next =>
      front ++ next.state.leaves := by
  refine .eatWord_either fun natural => (joinKind_accounts natural).bind fun kind => ?_
  cases kind with
  | none => exact .pure rfl
  | some kind =>
    exact (h.rule .tablePrimary rfl).bind fun right =>
      (joinConstraint_accounts h _).bind fun constraint =>
      .pure (by simp [Rule.leaves, Step.state])

/-- A table with any number of joins is read as its leaves. -/
theorem tableReference_accounts :
    Accounts now front (tableReference apply) fun table => front ++ table.leaves :=
  (h.rule .tablePrimary rfl).bind fun _ => .iterate (fun left => joinStep_accounts h left) rfl

/-- A table is read as its leaves. -/
theorem tablePrimary_accounts :
    Accounts now front (tablePrimary apply) fun table => front ++ table.leaves := by
  refine .check_ite ?_ (qualifiedName_accounts.bind fun name => ?_)
  · exact .firstOf (h.rule .derivedTable rfl) (h.returns .derivedTable rfl)
      (h.rule .nestedTable rfl)
  · exact (optionalAlias_accounts h).bind fun alias? => .pure (by simp)

/-- A query that stands for a table is read as its leaves. -/
theorem derivedTable_accounts :
    Accounts now front (derivedTable apply) fun table => front ++ table.leaves :=
  (parenthesizedQuery_accounts h).bind fun query => aliasName_accounts.bind fun name =>
    .pure (by simp)

/-- Joins in parentheses are read as their leaves. -/
theorem nestedTable_accounts :
    Accounts now front (nestedTable apply) fun table => front ++ table.leaves :=
  .map ((Accounts.inParentheses (h.rule .tableReference rfl)).congr fun _ => by simp [Rule.leaves])

/-! ### All rules -/

/-- The body of a rule accounts for leaves, if the rules that it applies do. -/
theorem body_accounts (lookahead : Bool) (rule : Rule) (front : List Leaf) :
    Accounts rule.starts front (body lookahead apply rule) fun value =>
      front ++ rule.leaves value := by
  cases rule with
  | query => exact query_accounts h
  | queryBody => exact queryBody_accounts h
  | queryTerm => exact queryTerm_accounts h
  | querySpec => exact querySpec_accounts h
  | selectList => exact selectList_accounts h
  | selectItem => exact selectItem_accounts h
  | qualifiedWildcard => exact qualifiedWildcard_accounts
  | derivedColumn => exact derivedColumn_accounts h
  | aliasName => exact aliasName_accounts
  | tableReference => exact tableReference_accounts h
  | tablePrimary => exact tablePrimary_accounts h
  | derivedTable => exact derivedTable_accounts h
  | nestedTable => exact nestedTable_accounts h
  | commonTable => exact commonTable_accounts h
  | sortKey => exact sortKey_accounts h
  | expression => exact run_accounts h 0
  | operators level => exact operators_accounts h lookahead level
  | parenthesized => exact parenthesizedExpression_accounts h
  | parenthesizedTrial => exact h.rule .parenthesized rfl
  | scalarSubquery => exact scalarSubquery_accounts h
  | subqueryTrial => exact h.rule .scalarSubquery rfl
  | «exists» => exact existence_accounts h
  | aggregate => exact aggregate_accounts h
  | functionCall => exact functionCall_accounts h
  | geometry function => exact geometryCall_accounts h function
  | case => exact caseDistinction_accounts h
  | cast => exact conversion_accounts h
  | dataType => exact dataType_accounts

end

end Adql
