/-
  ENTITIES — `parser_entities.cpp` and `parser_state_machine.cpp`: entities with their blocks, and the state
  machine with its transitions.

  The loops of `children` and `indexes` blocks take what they expect and nothing else.  The others of an
  entity's blocks come past everything: an expression takes whatever stands there, a type takes a token
  when it is not one, and a relation takes the token it begins with.
-/
import StateSpec.Compiler.ParserDeclarations

namespace StateSpec.Compiler

open Reading

/-! ## `parser_state_machine.cpp` -/

def parseGarbageCollectionMember (policy : GarbageCollectionPolicyDecl) :
    Parser GarbageCollectionPolicyDecl :=
  ifNamed (ascii "after")
    (do
      let _ ← advance
      let _ ← consume .colon "expected ':' after garbage_collection.after"
      let after ← parseSimpleValue "garbage_collection.after"
      consumeOptionalSemicolon
      pure { policy with after := some after }) <|
  ifNamed (ascii "mode")
    (do
      let _ ← advance
      let _ ← consume .colon "expected ':' after garbage_collection.mode"
      let mode ← parseSimpleValue "garbage_collection.mode"
      consumeOptionalSemicolon
      pure { policy with mode := some mode })
    (do
      skipUnknownDeclaration
      pure policy)

def parseGarbageCollectionPolicyDecl : Parser GarbageCollectionPolicyDecl := do
  let start ← consume .identifier "expected garbage_collection block"
  let _ ← consume .leftBrace "expected '\x7b' after garbage_collection"
  let policy ← members .garbageCollection parseGarbageCollectionMember {}
  let _ ← consume .rightBrace "expected '\x7d' after garbage_collection block"
  let range ← rangeFrom start
  pure { policy with range }

def parseStateMember (state : StateDecl) : Parser StateDecl :=
  ifMatch .keywordTerminal
    (do
      let _ ← consume .colon "expected ':' after terminal"
      let terminal ← consume .booleanLiteral "expected terminal boolean"
      consumeOptionalSemicolon
      pure { state with terminal := terminal.lexeme == ascii "true" }) <|
  ifNamed (ascii "garbage_collection")
    (do
      let policy ← parseGarbageCollectionPolicyDecl
      pure (if state.garbageCollection.isSome then
          { state with duplicateGarbageCollectionRange := some policy.range }
        else { state with garbageCollection := some policy }))
    (do
      skipUnknownDeclaration
      pure state)

def parseStateDecl : Parser StateDecl := do
  let name ← consume .identifier "expected state name"
  let state ← ifMatch .leftBrace
    (do
      let state ← members .state parseStateMember { name := name.lexeme, range := name.range }
      let _ ← consume .rightBrace "expected '\x7d' after state options"
      let range ← rangeFrom name
      pure { state with range })
    (pure { name := name.lexeme, range := name.range })
  consumeOptionalSemicolon
  pure state

/-- `check(Identifier) && peek(1).kind == Arrow`. -/
def beforeTransition (tokens : List Token) (current : Nat) : Bool :=
  check .identifier tokens current && (peek 1 tokens current).kind == .arrow

def parseStateMachineMember (stateMachine : StateMachineDecl) : Parser StateMachineDecl :=
  ifMatch .keywordState
    (do
      let state ← parseStateDecl
      pure { stateMachine with states := stateMachine.states ++ [state] }) <|
  ifMatch .keywordInitial
    (do
      let initialState ← consume .identifier "expected initial state"
      consumeOptionalSemicolon
      pure { stateMachine with initialState := some initialState.lexeme }) <|
  ifMatch .keywordTerminal
    (do
      -- a list replaces what there is, a name is added to it
      let terminalStates ← ifCheck .leftBracket parseIdentifierList do
        let terminalState ← consume .identifier "expected terminal state"
        pure (stateMachine.terminalStates ++ [terminalState.lexeme])
      consumeOptionalSemicolon
      pure { stateMachine with terminalStates }) <|
  choose beforeTransition
    (do
      let source ← advance
      let _ ← advance
      let target ← consume .identifier "expected transition target state"
      ifCheck .leftBrace skipBalancedBlock (pure ())
      consumeOptionalSemicolon
      pure { stateMachine with transitions := stateMachine.transitions ++ [{
        source := source.lexeme, target := target.lexeme,
        range := { begin := source.range.begin, end' := target.range.end' } }] })
    (do
      skipUnknownDeclaration
      pure stateMachine)

def parseStateMachineDecl : Parser StateMachineDecl := do
  let start ← consume .keywordStateMachine "expected state_machine block"
  let _ ← consume .leftBrace "expected '\x7b' after state_machine"
  let stateMachine ← members .stateMachine parseStateMachineMember {}
  let _ ← consume .rightBrace "expected '\x7d' after state_machine block"
  let range ← rangeFrom start
  pure { stateMachine with range }

/-! ## `parser_entities.cpp`: the blocks of an entity -/

def parseOwnershipMember (ownership : OwnershipDecl) : Parser OwnershipDecl :=
  ifMatch .keywordAuthority
    (do
      let _ ← consume .colon "expected ':' after authority"
      let ownership ←
        ifMatch .keywordSystem
          (do
            let authority ← previousToken
            pure { ownership with authority := some authority.lexeme }) <|
        ifMatch .identifier
          (do
            let authority ← previousToken
            pure { ownership with authority := some authority.lexeme })
          (do
            error "SSPEC0200" "expected ownership authority"
            pure ownership)
      consumeOptionalSemicolon
      pure ownership) <|
  ifMatch .keywordSystemOfRecord
    (do
      let _ ← consume .colon "expected ':' after system_of_record"
      let systemOfRecord ← parseQualifiedName "system_of_record"
      consumeOptionalSemicolon
      pure { ownership with systemOfRecord := some systemOfRecord }) <|
  ifMatch .keywordLifecycle
    (do
      let _ ← consume .colon "expected ':' after lifecycle"
      let lifecycle ← consume .identifier "expected lifecycle mode"
      consumeOptionalSemicolon
      pure { ownership with lifecycle := some lifecycle.lexeme })
    (do
      skipUnknownDeclaration
      pure ownership)

def parseOwnershipDecl : Parser OwnershipDecl := do
  let start ← consume .keywordOwnership "expected ownership"
  let _ ← consume .leftBrace "expected '\x7b' after ownership"
  let ownership ← members .ownership parseOwnershipMember {}
  let _ ← consume .rightBrace "expected '\x7d' after ownership block"
  let range ← rangeFrom start
  pure { ownership with range }

def parseRelationOption (relation : RelationDecl) : Parser RelationDecl :=
  ifNamed (ascii "kind")
    (do
      let _ ← advance
      let _ ← consume .colon "expected ':' after relation kind"
      let relationKind ← consume .identifier "expected relation kind"
      consumeOptionalSemicolon
      pure { relation with relationKind := some relationKind.lexeme }) <|
  ifNamed (ascii "on_parent_delete")
    (do
      let _ ← advance
      let _ ← consume .colon "expected ':' after on_parent_delete"
      let onParentDelete ← consume .identifier "expected parent delete behavior"
      consumeOptionalSemicolon
      pure { relation with onParentDelete := some onParentDelete.lexeme }) <|
  ifNamed (ascii "parent_must_be_in")
    (do
      let _ ← advance
      let _ ← consume .colon "expected ':' after parent_must_be_in"
      let parentMustBeIn ← parseIdentifierList
      consumeOptionalSemicolon
      pure { relation with parentMustBeIn }) <|
  ifNamed (ascii "unique_within_parent")
    (do
      let _ ← advance
      let _ ← consume .colon "expected ':' after unique_within_parent"
      let uniqueWithinParent ← parseIdentifierList
      consumeOptionalSemicolon
      pure { relation with uniqueWithinParent })
    (do
      skipUnknownDeclaration
      pure relation)

/-- A relation behind its `parent` or `ref`. -/
def parseRelation (start : Token) (kind : Bytes) : Parser RelationDecl := do
  let name ← consume .identifier "expected relation name"
  let _ ← consume .colon "expected ':' after relation name"
  let optional ← choose
    (fun tokens current => kind == ascii "parent" && check .keywordOptional tokens current)
    (do
      let _ ← advance
      pure true)
    (pure false)
  let target ← parseTypeName
  let optional := optional || target.getLast? == some 63
  let relation ← ifMatch .question
    (pure { kind, name := name.lexeme, target := target ++ ascii "?", optional := true })
    (pure { kind, name := name.lexeme, target, optional })
  let relation ← ifMatch .leftBrace
    (do
      let relation ← members .relationOptions parseRelationOption relation
      let _ ← consume .rightBrace "expected '\x7d' after relation options"
      pure relation)
    (pure relation)
  consumeOptionalSemicolon
  let range ← rangeFrom start
  pure { relation with range }

def parseRelationDecl : Parser RelationDecl := do
  let start ← advance
  if start.kind = .keywordParent then parseRelation start (ascii "parent")
  else if start.kind = .keywordRef then parseRelation start (ascii "ref")
  else do
    errorAt start.range "SSPEC0200" "expected relation declaration"
    synchronizeToMemberBoundary
    pure { range := start.range }

def parseChildDecl : Parser ChildDecl := do
  let start ← consume .identifier "expected child collection name"
  let _ ← consume .colon "expected ':' after child collection name"
  let targetEntity ← parseQualifiedName "child entity"
  let by' ← consume .identifier "expected by in child collection"
  let _ ← (if by'.lexeme ≠ ascii "by" then
      errorAt by'.range "SSPEC0200" "expected by in child collection"
    else pure ())
  let relation ← consume .identifier "expected child relation name"
  consumeOptionalSemicolon
  let range ← rangeFrom start
  pure { name := start.lexeme, targetEntity, relation := relation.lexeme, range }

def parseInvariantDecl : Parser InvariantDecl := do
  let start ← consume .identifier "expected invariant name"
  let _ ← consume .colon "expected ':' after invariant name"
  let expression ← parseSimpleExpressionUntilBoundary
  consumeOptionalSemicolon
  let range ← rangeFrom start
  pure { name := start.lexeme, expression, range }

def parseIndexDecl : Parser IndexDecl := do
  let kind ← consume .identifier "expected index kind"
  let _ ← (if kind.lexeme ≠ ascii "index" ∧ kind.lexeme ≠ ascii "unique" then
      errorAt kind.range "SSPEC0200" "expected 'index' or 'unique'"
    else pure ())
  let name ← consume .identifier "expected index name"
  ifNamed (ascii "on") skipToken <|
    ifCheck .keywordOn skipToken
      (error "SSPEC0200" "expected 'on' after index name")
  let first ← consume .identifier "expected index field"
  let fields ← loop .indexFields (fun _ => check .comma)
    (fun fields => do
      let _ ← advance
      let field ← consume .identifier "expected index field after ','"
      pure (fields ++ [field.lexeme]))
    [first.lexeme]
  ifCheck .leftBrace skipBalancedBlock (pure ())
  consumeOptionalSemicolon
  let range ← rangeFrom kind
  pure { name := name.lexeme, fields, unique := kind.lexeme == ascii "unique", range }

/-! ## `parser_entities.cpp`: the API of an entity -/

def isEntityApiMemberIdentifier (token : Token) : Bool :=
  isNamedIdentifier token (ascii "resource") || isNamedIdentifier token (ascii "get") ||
    isNamedIdentifier token (ascii "list") || isNamedIdentifier token (ascii "update_status") ||
    isNamedIdentifier token (ascii "delete")

def canParseEntityApiOverrideName (token : Token) : Bool :=
  token.kind == .identifier && !isEntityApiMemberIdentifier token

/-- The name an operation is given instead of its own. -/
def parseOverrideName : Parser (Option Bytes) :=
  choose (fun tokens current => canParseEntityApiOverrideName (peek 0 tokens current))
    (do
      let name ← advance
      pure (some name.lexeme))
    (pure none)

def parseCreateMember (create : EntityApiCreateDecl) : Parser EntityApiCreateDecl :=
  ifMatch .keywordFields
    (do
      let fields ← parseIdentifierList
      consumeOptionalSemicolon
      pure { create with fields })
    (do
      skipUnknownDeclaration
      pure create)

def parseEntityApiCreateDecl : Parser EntityApiCreateDecl := do
  let start ← consume .keywordCreate "expected create"
  let name ← parseOverrideName
  let create ← ifMatch .leftBrace
    (do
      let create ← members .create parseCreateMember { name }
      let _ ← consume .rightBrace "expected '\x7d' after create block"
      pure create)
    (pure { name })
  consumeOptionalSemicolon
  let range ← rangeFrom start
  pure { create with range }

def parseEntityApiOperationDecl (operation : Bytes) : Parser EntityApiOperationDecl := do
  let start ← consume .identifier "expected entity api operation"
  let _ ← (if start.lexeme ≠ operation then
      errorAt start.range "SSPEC0200" "expected entity api operation"
    else pure ())
  let name ← parseOverrideName
  consumeOptionalSemicolon
  let range ← rangeFrom start
  pure { name, range }

def parseListMember (list : EntityApiListDecl) : Parser EntityApiListDecl :=
  ifMatch .keywordPath
    (do
      let path ← parseSimpleValue "entity API list path"
      consumeOptionalSemicolon
      pure { list with path := some path }) <|
  ifNamed (ascii "by")
    (do
      let _ ← advance
      let by' ← parseIdentifierList
      consumeOptionalSemicolon
      pure { list with by' })
    (do
      skipUnknownDeclaration
      pure list)

def parseEntityApiListDecl : Parser EntityApiListDecl := do
  let start ← consume .identifier "expected list declaration"
  let name ← parseOverrideName
  let _ ← consume .leftBrace "expected '\x7b' after list declaration"
  let list ← members .list parseListMember { name }
  let _ ← consume .rightBrace "expected '\x7d' after list block"
  let range ← rangeFrom start
  pure { list with range }

def parseEntityApiMember (api : EntityApiDecl) : Parser EntityApiDecl :=
  ifNamed (ascii "resource")
    (do
      let _ ← advance
      let resource ← parseSimpleValue "entity API resource path"
      consumeOptionalSemicolon
      pure { api with resource := some resource }) <|
  ifCheck .keywordCreate
    (do
      let create ← parseEntityApiCreateDecl
      pure { api with create := some create }) <|
  ifNamed (ascii "get")
    (do
      let get ← parseEntityApiOperationDecl (ascii "get")
      pure { api with get := some get }) <|
  ifNamed (ascii "list")
    (do
      let list ← parseEntityApiListDecl
      pure { api with lists := api.lists ++ [list] }) <|
  ifNamed (ascii "update_status")
    (do
      let updateStatus ← parseEntityApiOperationDecl (ascii "update_status")
      pure { api with updateStatus := some updateStatus }) <|
  ifNamed (ascii "delete")
    (do
      let delete' ← parseEntityApiOperationDecl (ascii "delete")
      pure { api with delete' := some delete' })
    (do
      skipUnknownDeclaration
      pure api)

def parseEntityApiDecl : Parser EntityApiDecl := do
  let start ← consume .keywordApi "expected entity api block"
  let _ ← consume .leftBrace "expected '\x7b' after entity api"
  let api ← members .entityApi parseEntityApiMember {}
  let _ ← consume .rightBrace "expected '\x7d' after entity api block"
  let range ← rangeFrom start
  pure { api with range }

/-! ## `parser_entities.cpp`: an entity -/

def EntityDecl.withMember (entity : EntityDecl) (kind : Bytes) (range : SourceRange) : EntityDecl :=
  { entity with memberOrder := entity.memberOrder ++ [⟨kind, range⟩] }

def parseEntityMember (entity : EntityDecl) : Parser EntityDecl :=
  ifMatch .keywordKey
    (do
      let member ← previousToken
      let keyFields ← parseIdentifierList
      consumeOptionalSemicolon
      pure { entity.withMember (ascii "key") member.range with keyFields }) <|
  ifCheck .keywordFields
    (do
      let member ← advance
      let fields ← parseBlockOf .fields parseFieldDecl "expected '\x7b' after fields"
        "expected '\x7d' after fields block" entity.fields
      pure { entity.withMember (ascii "fields") member.range with fields }) <|
  ifCheck .keywordStateMachine
    (do
      let stateMachine ← parseStateMachineDecl
      pure { entity.withMember (ascii "state_machine") stateMachine.range with
        stateMachine := some stateMachine }) <|
  ifCheck .keywordOwnership
    (do
      let ownership ← parseOwnershipDecl
      pure { entity.withMember (ascii "ownership") ownership.range with
        ownership := some ownership }) <|
  ifCheck .keywordRelations
    (do
      let member ← advance
      let relations ← parseBlockOf .relations parseRelationDecl "expected '\x7b' after relations"
        "expected '\x7d' after relations block" entity.relations
      pure { entity.withMember (ascii "relations") member.range with relations }) <|
  ifCheck .keywordChildren
    (do
      let member ← advance
      let children ← parseBlockOf .children parseChildDecl "expected '\x7b' after children"
        "expected '\x7d' after children block" entity.children
      pure { entity.withMember (ascii "children") member.range with children }) <|
  ifCheck .keywordInvariants
    (do
      let member ← advance
      let invariants ← parseBlockOf .invariants parseInvariantDecl "expected '\x7b' after invariants"
        "expected '\x7d' after invariants block" entity.invariants
      pure { entity.withMember (ascii "invariants") member.range with invariants }) <|
  ifCheck .keywordIndexes
    (do
      let member ← advance
      let indexes ← parseBlockOf .indexes parseIndexDecl "expected '\x7b' after indexes"
        "expected '\x7d' after indexes block" entity.indexes
      pure { entity.withMember (ascii "indexes") member.range with indexes }) <|
  ifCheck .keywordApi
    (do
      let api ← parseEntityApiDecl
      pure { entity.withMember (ascii "api") api.range with api := some api })
    (do
      skipUnknownDeclaration
      pure entity)

def parseEntityDecl : Parser EntityDecl := do
  let start ← consume .keywordEntity "expected entity declaration"
  let name ← consume .identifier "expected entity name"
  let _ ← consume .leftBrace "expected '\x7b' after entity name"
  let entity ← members .entity parseEntityMember { name := name.lexeme }
  let _ ← consume .rightBrace "expected '\x7d' after entity block"
  let range ← rangeFrom start
  pure { entity with range }

/-! ## What they do to the cursor -/

set_option synthInstance.maxSize 4096

variable {m : Nat}

instance (policy : GarbageCollectionPolicyDecl) : Sound (parseGarbageCollectionMember policy) := by
  unfold parseGarbageCollectionMember
  infer_instance

instance (policy : GarbageCollectionPolicyDecl) :
    Returns m (parseGarbageCollectionMember policy) := by
  unfold parseGarbageCollectionMember
  infer_instance

instance (policy : GarbageCollectionPolicyDecl) : Moves (parseGarbageCollectionMember policy) := by
  unfold parseGarbageCollectionMember
  infer_instance

instance : Sound parseGarbageCollectionPolicyDecl := by
  unfold parseGarbageCollectionPolicyDecl
  infer_instance

instance : Returns m parseGarbageCollectionPolicyDecl := by
  unfold parseGarbageCollectionPolicyDecl
  infer_instance

instance (name : Bytes) : MovesIf (checkNamed name) parseGarbageCollectionPolicyDecl := by
  unfold parseGarbageCollectionPolicyDecl
  infer_instance

instance (state : StateDecl) : Sound (parseStateMember state) := by
  unfold parseStateMember
  infer_instance

instance (state : StateDecl) : Returns m (parseStateMember state) := by
  unfold parseStateMember
  infer_instance

instance (state : StateDecl) : Moves (parseStateMember state) := by
  unfold parseStateMember
  infer_instance

instance : Sound parseStateDecl := by
  unfold parseStateDecl
  infer_instance

instance : Returns m parseStateDecl := by
  unfold parseStateDecl
  infer_instance

instance (stateMachine : StateMachineDecl) : Sound (parseStateMachineMember stateMachine) := by
  unfold parseStateMachineMember
  infer_instance

instance (stateMachine : StateMachineDecl) : Returns m (parseStateMachineMember stateMachine) := by
  unfold parseStateMachineMember
  infer_instance

instance (stateMachine : StateMachineDecl) : Moves (parseStateMachineMember stateMachine) := by
  unfold parseStateMachineMember
  infer_instance

instance : Sound parseStateMachineDecl := by
  unfold parseStateMachineDecl
  infer_instance

instance : Returns m parseStateMachineDecl := by
  unfold parseStateMachineDecl
  infer_instance

instance : MovesIf (check .keywordStateMachine) parseStateMachineDecl := by
  unfold parseStateMachineDecl
  infer_instance

instance (ownership : OwnershipDecl) : Sound (parseOwnershipMember ownership) := by
  unfold parseOwnershipMember
  infer_instance

instance (ownership : OwnershipDecl) : Returns m (parseOwnershipMember ownership) := by
  unfold parseOwnershipMember
  infer_instance

instance (ownership : OwnershipDecl) : Moves (parseOwnershipMember ownership) := by
  unfold parseOwnershipMember
  infer_instance

instance : Sound parseOwnershipDecl := by
  unfold parseOwnershipDecl
  infer_instance

instance : Returns m parseOwnershipDecl := by
  unfold parseOwnershipDecl
  infer_instance

instance : MovesIf (check .keywordOwnership) parseOwnershipDecl := by
  unfold parseOwnershipDecl
  infer_instance

instance (relation : RelationDecl) : Sound (parseRelationOption relation) := by
  unfold parseRelationOption
  infer_instance

instance (relation : RelationDecl) : Returns m (parseRelationOption relation) := by
  unfold parseRelationOption
  infer_instance

instance (relation : RelationDecl) : Moves (parseRelationOption relation) := by
  unfold parseRelationOption
  infer_instance

instance (start : Token) (kind : Bytes) : Sound (parseRelation start kind) := by
  unfold parseRelation
  infer_instance

instance (start : Token) (kind : Bytes) : Returns m (parseRelation start kind) := by
  unfold parseRelation
  infer_instance

instance : Sound parseRelationDecl := by
  unfold parseRelationDecl
  infer_instance

instance : Returns m parseRelationDecl := by
  unfold parseRelationDecl
  infer_instance

instance : Moves parseRelationDecl := by
  unfold parseRelationDecl
  infer_instance

instance : Sound parseChildDecl := by
  unfold parseChildDecl
  infer_instance

instance : Returns m parseChildDecl := by
  unfold parseChildDecl
  infer_instance

instance : Sound parseInvariantDecl := by
  unfold parseInvariantDecl
  infer_instance

instance : Returns m parseInvariantDecl := by
  unfold parseInvariantDecl
  infer_instance

instance : Sound parseIndexDecl := by
  unfold parseIndexDecl
  infer_instance

instance : Returns m parseIndexDecl := by
  unfold parseIndexDecl
  infer_instance

instance : Sound parseOverrideName := by
  unfold parseOverrideName
  infer_instance

instance : Returns m parseOverrideName := by
  unfold parseOverrideName
  infer_instance

instance (create : EntityApiCreateDecl) : Sound (parseCreateMember create) := by
  unfold parseCreateMember
  infer_instance

instance (create : EntityApiCreateDecl) : Returns m (parseCreateMember create) := by
  unfold parseCreateMember
  infer_instance

instance (create : EntityApiCreateDecl) : Moves (parseCreateMember create) := by
  unfold parseCreateMember
  infer_instance

instance : Sound parseEntityApiCreateDecl := by
  unfold parseEntityApiCreateDecl
  infer_instance

instance : Returns m parseEntityApiCreateDecl := by
  unfold parseEntityApiCreateDecl
  infer_instance

instance : MovesIf (check .keywordCreate) parseEntityApiCreateDecl := by
  unfold parseEntityApiCreateDecl
  infer_instance

instance (operation : Bytes) : Sound (parseEntityApiOperationDecl operation) := by
  unfold parseEntityApiOperationDecl
  infer_instance

instance (operation : Bytes) : Returns m (parseEntityApiOperationDecl operation) := by
  unfold parseEntityApiOperationDecl
  infer_instance

instance (name operation : Bytes) :
    MovesIf (checkNamed name) (parseEntityApiOperationDecl operation) := by
  unfold parseEntityApiOperationDecl
  infer_instance

instance (list : EntityApiListDecl) : Sound (parseListMember list) := by
  unfold parseListMember
  infer_instance

instance (list : EntityApiListDecl) : Returns m (parseListMember list) := by
  unfold parseListMember
  infer_instance

instance (list : EntityApiListDecl) : Moves (parseListMember list) := by
  unfold parseListMember
  infer_instance

instance : Sound parseEntityApiListDecl := by
  unfold parseEntityApiListDecl
  infer_instance

instance : Returns m parseEntityApiListDecl := by
  unfold parseEntityApiListDecl
  infer_instance

instance (name : Bytes) : MovesIf (checkNamed name) parseEntityApiListDecl := by
  unfold parseEntityApiListDecl
  infer_instance

instance (api : EntityApiDecl) : Sound (parseEntityApiMember api) := by
  unfold parseEntityApiMember
  infer_instance

instance (api : EntityApiDecl) : Returns m (parseEntityApiMember api) := by
  unfold parseEntityApiMember
  infer_instance

instance (api : EntityApiDecl) : Moves (parseEntityApiMember api) := by
  unfold parseEntityApiMember
  infer_instance

instance : Sound parseEntityApiDecl := by
  unfold parseEntityApiDecl
  infer_instance

instance : Returns m parseEntityApiDecl := by
  unfold parseEntityApiDecl
  infer_instance

instance : MovesIf (check .keywordApi) parseEntityApiDecl := by
  unfold parseEntityApiDecl
  infer_instance

instance : MovesIf insideBlock parseInvariantDecl := by
  unfold parseInvariantDecl
  infer_instance

/-- A child collection has names, a ':', dots and a ';'; the loop is stuck at anything else. -/
instance : Progress .children (fun _ => insideBlock) (andAppend parseChildDecl) := by
  have hstays : StaysIf (outside [.identifier, .colon, .dot, .semicolon]) parseChildDecl := by
    unfold parseChildDecl
    infer_instance
  apply progress_of_kinds rfl
  intro declared kind hkind
  unfold parseChildDecl
  simp only [List.mem_cons, List.not_mem_nil, or_false] at hkind
  rcases hkind with rfl | rfl | rfl | rfl <;> infer_instance

/-- An index has names, `on`, commas, a block and a ';'; the loop is stuck at anything else. -/
instance : Progress .indexes (fun _ => insideBlock) (andAppend parseIndexDecl) := by
  have hstays :
      StaysIf (outside [.identifier, .keywordOn, .comma, .leftBrace, .semicolon]) parseIndexDecl := by
    unfold parseIndexDecl
    infer_instance
  apply progress_of_kinds rfl
  intro declared kind hkind
  unfold parseIndexDecl
  simp only [List.mem_cons, List.not_mem_nil, or_false] at hkind
  rcases hkind with rfl | rfl | rfl | rfl | rfl <;> infer_instance

instance (entity : EntityDecl) : Sound (parseEntityMember entity) := by
  unfold parseEntityMember
  infer_instance

instance (entity : EntityDecl) : Returns m (parseEntityMember entity) := by
  unfold parseEntityMember
  infer_instance

instance (entity : EntityDecl) : Moves (parseEntityMember entity) := by
  unfold parseEntityMember
  infer_instance

instance : Sound parseEntityDecl := by
  unfold parseEntityDecl
  infer_instance

instance : Returns m parseEntityDecl := by
  unfold parseEntityDecl
  infer_instance

instance : MovesIf (check .keywordEntity) parseEntityDecl := by
  unfold parseEntityDecl
  infer_instance

end StateSpec.Compiler
