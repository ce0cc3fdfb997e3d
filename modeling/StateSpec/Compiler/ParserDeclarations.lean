/-
  DECLARATIONS OF DATA — `parser_values.cpp` and `parser_observability.cpp`: values, enums, events, shapes,
  external systems, feature flags, logs and metrics; and the fields they share with entities.

  Two of the loops here take what they expect and nothing else: that of an `enum` and that of an
  `external_system`.  The others come past everything, if only with an error.
-/
import StateSpec.Compiler.ParserContext

namespace StateSpec.Compiler

open Reading

/-! ## Fields -/

def parseFieldDecl : Parser FieldDecl := do
  let name ← consume .identifier "expected field name"
  let type ← parseTypeName
  ifCheck .leftBrace skipBalancedBlock (pure ())
  ifMatch .keywordWhere synchronizeToMemberBoundary (pure ())
  consumeOptionalSemicolon
  let range ← rangeFrom name
  pure { name := name.lexeme, type, range }

/-! ## `parser_values.cpp` -/

def parseValueDecl : Parser ValueDecl := do
  let start ← consume .keywordValue "expected value declaration"
  let name ← consume .identifier "expected value name"
  let _ ← consume .colon "expected ':' after value name"
  let type ← parseTypeName
  let constraint ←
    choose (fun tokens current =>
        check .keywordWhere tokens current || checkNamed (ascii "where") tokens current)
      (do
        let _ ← advance
        let constraint ← parseSimpleExpressionUntilBoundary
        pure (some constraint))
      (pure none)
  consumeOptionalSemicolon
  let range ← rangeFrom start
  pure { name := name.lexeme, type, constraint, range }

/-- A literal or a name behind which its kind is kept: the value of an enum member, of a property of
    an external system, or of a feature flag. -/
def parseLiteral (kinds : List TokenKind) (code message : String) :
    Parser (Option Bytes × Option Bytes) :=
  choose (checkAny kinds)
    (do
      let value ← advance
      pure (some (stripQuotes value.lexeme), some (tokenKindName value.kind)))
    (do
      error code message
      pure (none, none))

def parseEnumMember (enumDecl : EnumDecl) : Parser EnumDecl := do
  let memberStart ← consume .identifier "expected enum member name"
  let (value, valueKind) ← ifMatch .equals
    (parseLiteral [.stringLiteral, .integerLiteral, .decimalLiteral, .booleanLiteral, .identifier]
      "SSPEC0200" "expected enum member value")
    (pure (none, none))
  consumeOptionalSemicolon
  let range ← rangeFrom memberStart
  pure { enumDecl with
    members := enumDecl.members ++ [{ name := memberStart.lexeme, value, valueKind, range }] }

def parseEnumDecl : Parser EnumDecl := do
  let start ← consume .keywordEnum "expected enum declaration"
  let name ← consume .identifier "expected enum name"
  let _ ← consume .leftBrace "expected '\x7b' after enum name"
  let enumDecl ← members .enumMembers parseEnumMember { name := name.lexeme }
  let _ ← consume .rightBrace "expected '\x7d' after enum block"
  let range ← rangeFrom start
  pure { enumDecl with range }

def parseEventMember (event : EventDecl) : Parser EventDecl :=
  ifCheck .keywordFields
    (do
      let _ ← advance
      let fields ← parseBlockOf .eventFields parseFieldDecl "expected '\x7b' after event fields"
        "expected '\x7d' after event fields block" event.fields
      pure { event with fields }) <|
  ifCheck .keywordAnnotations
    (do
      let _ ← advance
      skipBalancedBlock
      pure event)
    (do
      skipUnknownDeclaration
      pure event)

def parseEventDecl : Parser EventDecl := do
  let start ← consume .keywordEvent "expected event declaration"
  let name ← consume .identifier "expected event name"
  let _ ← consume .leftBrace "expected '\x7b' after event name"
  let event ← members .event parseEventMember { name := name.lexeme }
  let _ ← consume .rightBrace "expected '\x7d' after event block"
  let range ← rangeFrom start
  pure { event with range }

/-- `is_metadata_mapping_path_segment`. -/
def mappingPathSegments : List TokenKind :=
  [.identifier, .keywordEntity, .keywordEvent, .keywordInput, .keywordWorkflow]

def isMetadataMappingPathSegment (tokens : List Token) (current : Nat) : Bool :=
  mappingPathSegments.contains (peek 0 tokens current).kind

/-- `parse_mapping_path`; the loop breaks off where no name stands behind a '.'. -/
def parseMappingPath (context : String) : Parser Bytes :=
  choose isMetadataMappingPathSegment
    (do
      let first ← advance
      let (name, _) ← loop .mappingPath
        (fun (_, broken) tokens current => !broken && check .dot tokens current)
        (fun (name, _) => do
          let _ ← advance
          choose isMetadataMappingPathSegment
            (do
              let segment ← advance
              pure (name ++ ascii "." ++ segment.lexeme, false))
            (do
              error "SSPEC0200" "expected name after '.'"
              skipToken
              pure (name, true)))
        (first.lexeme, false)
      pure name)
    (do
      error "SSPEC0200" ("expected " ++ context)
      skipToken
      pure [])

def parseExternalSystemMetadataMappingDecl : Parser ExternalSystemMetadataMappingDecl := do
  let start ← peekToken
  let source ← parseMappingPath "metadata mapping source"
  let _ ← consume .arrow "expected '->' in metadata mapping"
  let target ← parseMappingPath "metadata mapping target"
  consumeOptionalSemicolon
  let range ← rangeFrom start
  pure { source, target, range }

def parseExternalSystemMetadataMember (metadata : ExternalSystemMetadataDecl) :
    Parser ExternalSystemMetadataDecl :=
  ifCheck .keywordEntity
    (do
      let _ ← advance
      let entity ← parseQualifiedName "external_system metadata entity"
      consumeOptionalSemicolon
      pure { metadata with entity := some entity }) <|
  ifNamed (ascii "profile_field")
    (do
      let _ ← advance
      let profileField ← consume .identifier "expected metadata profile_field"
      consumeOptionalSemicolon
      pure { metadata with profileField := some profileField.lexeme }) <|
  ifNamed (ascii "required_fields")
    (do
      let _ ← advance
      let requiredFields ← parseIdentifierList
      consumeOptionalSemicolon
      pure { metadata with requiredFields }) <|
  ifNamed (ascii "mappings")
    (do
      let _ ← advance
      let mappings ← parseBlockOf .metadataMappings parseExternalSystemMetadataMappingDecl
        "expected '\x7b' after metadata mappings" "expected '\x7d' after metadata mappings block"
        metadata.mappings
      pure { metadata with mappings })
    (do
      error "SSPEC0200" "unexpected external_system metadata member"
      let _ ← advance
      pure metadata)

def parseExternalSystemMetadataDecl : Parser ExternalSystemMetadataDecl := do
  let start ← consume .identifier "expected metadata block"
  let _ ← consume .leftBrace "expected '\x7b' after external_system metadata"
  let metadata ← members .metadata parseExternalSystemMetadataMember {}
  let _ ← consume .rightBrace "expected '\x7d' after external_system metadata block"
  let range ← rangeFrom start
  pure { metadata with range }

def parseExternalSystemProperty : Parser ExternalSystemPropertyDecl := do
  let propertyStart ← consume .identifier "expected external_system property"
  let _ ← consume .colon "expected ':' after external_system property"
  let (value, valueKind) ← parseLiteral valueKinds "SSPEC0200"
    "expected external_system property value"
  consumeOptionalSemicolon
  let range ← rangeFrom propertyStart
  pure { name := propertyStart.lexeme, value := value.getD [], valueKind, range }

def parseExternalSystemMember (externalSystem : ExternalSystemDecl) : Parser ExternalSystemDecl :=
  ifCheck .keywordAnnotations
    (do
      let _ ← advance
      skipBalancedBlock
      pure externalSystem) <|
  ifNamed (ascii "metadata")
    (do
      let metadata ← parseExternalSystemMetadataDecl
      -- a second block is reported where it stands, and forgotten
      let _ ← (if externalSystem.metadata.isSome then
          errorAt metadata.range "SSPEC0200" "duplicate external_system metadata block"
        else pure ())
      pure { externalSystem with metadata := externalSystem.metadata.or (some metadata) })
    (do
      let property ← parseExternalSystemProperty
      pure { externalSystem with properties := externalSystem.properties ++ [property] })

def parseExternalSystemDecl : Parser ExternalSystemDecl := do
  let start ← consume .keywordExternalSystem "expected external_system declaration"
  let name ← consume .identifier "expected external_system name"
  let _ ← consume .leftBrace "expected '\x7b' after external_system name"
  let externalSystem ← members .externalSystem parseExternalSystemMember { name := name.lexeme }
  let _ ← consume .rightBrace "expected '\x7d' after external_system block"
  let range ← rangeFrom start
  pure { externalSystem with range }

def parseShapeDecl : Parser ShapeDecl := do
  let start ← consume .keywordShape "expected shape declaration"
  let name ← consume .identifier "expected shape name"
  let fields ← parseBlockOf .shapeFields parseFieldDecl "expected '\x7b' after shape name"
    "expected '\x7d' after shape block" []
  let range ← rangeFrom start
  pure { name := name.lexeme, fields, range }

/-! ## `parser_observability.cpp` -/

def parseFeatureFlagScope (featureFlag : FeatureFlagDecl) : Parser FeatureFlagDecl :=
  ifMatch .keywordSystem (pure { featureFlag with scope := some (ascii "system") }) <|
  ifMatch .keywordTenant (pure { featureFlag with scope := some (ascii "tenant") }) <|
  ifNamed (ascii "user")
    (do
      let _ ← advance
      pure { featureFlag with scope := some (ascii "user") }) <|
  ifMatch .keywordEntity
    (do
      let entity ← parseQualifiedName "feature flag entity scope"
      pure { featureFlag with scope := some (ascii "entity" ++ ascii " " ++ entity) })
    (do
      error "SSPEC0203" "expected feature flag scope"
      pure featureFlag)

def parseFeatureFlagMember (featureFlag : FeatureFlagDecl) : Parser FeatureFlagDecl :=
  ifNamed (ascii "type")
    (do
      let _ ← advance
      let type ← consume .identifier "expected feature flag type"
      consumeOptionalSemicolon
      pure { featureFlag with type := some type.lexeme }) <|
  ifNamed (ascii "default")
    (do
      let _ ← advance
      let (value, valueKind) ← parseLiteral valueKinds "SSPEC0203"
        "expected feature flag default value"
      consumeOptionalSemicolon
      pure { featureFlag with
        defaultValue := value.or featureFlag.defaultValue,
        defaultValueKind := valueKind.or featureFlag.defaultValueKind }) <|
  ifNamed (ascii "scope")
    (do
      let _ ← advance
      let featureFlag ← parseFeatureFlagScope featureFlag
      consumeOptionalSemicolon
      pure featureFlag) <|
  ifNamed (ascii "owner")
    (do
      let _ ← advance
      let owner ← parseSimpleValue "feature flag owner"
      consumeOptionalSemicolon
      pure { featureFlag with owner := some owner }) <|
  ifNamed (ascii "description")
    (do
      let _ ← advance
      let description ← parseSimpleValue "feature flag description"
      consumeOptionalSemicolon
      pure { featureFlag with description := some description }) <|
  ifNamed (ascii "expires")
    (do
      let _ ← advance
      let expires ← parseSimpleValue "feature flag expiration"
      consumeOptionalSemicolon
      pure { featureFlag with expires := some expires })
    (do
      skipUnknownDeclaration
      pure featureFlag)

def parseFeatureFlagDecl : Parser FeatureFlagDecl := do
  let start ← consume .keywordFeatureFlag "expected feature_flag declaration"
  let name ← consume .identifier "expected feature flag name"
  let _ ← consume .leftBrace "expected '\x7b' after feature flag name"
  let featureFlag ← members .featureFlag parseFeatureFlagMember { name := name.lexeme }
  let _ ← consume .rightBrace "expected '\x7d' after feature flag block"
  let range ← rangeFrom start
  pure { featureFlag with range }

def parseLogMember (log : LogDecl) : Parser LogDecl :=
  ifNamed (ascii "level")
    (do
      let member ← advance
      let level ← consume .identifier "expected log level"
      consumeOptionalSemicolon
      pure { log with
        memberOrder := log.memberOrder ++ [⟨ascii "level", member.range⟩],
        level := some level.lexeme }) <|
  ifNamed (ascii "event_name")
    (do
      let member ← advance
      let eventName ← parseSimpleValue "log event_name"
      consumeOptionalSemicolon
      pure { log with
        memberOrder := log.memberOrder ++ [⟨ascii "event_name", member.range⟩],
        eventName := some eventName }) <|
  ifCheck .keywordFields
    (do
      let member ← advance
      let fields ← parseBlockOf .logFields parseFieldDecl "expected '\x7b' after log fields"
        "expected '\x7d' after log fields block" log.fields
      pure { log with
        memberOrder := log.memberOrder ++ [⟨ascii "fields", member.range⟩],
        fields })
    (do
      skipUnknownDeclaration
      pure log)

def parseLogDecl : Parser LogDecl := do
  let start ← consume .keywordLog "expected log declaration"
  let name ← consume .identifier "expected log name"
  let _ ← consume .leftBrace "expected '\x7b' after log name"
  let log ← members .log parseLogMember { name := name.lexeme }
  let _ ← consume .rightBrace "expected '\x7d' after log block"
  let range ← rangeFrom start
  pure { log with range }

def parseMetricMember (metric : MetricDecl) : Parser MetricDecl :=
  ifNamed (ascii "kind")
    (do
      let member ← advance
      let kind ← consume .identifier "expected metric kind"
      consumeOptionalSemicolon
      pure { metric with
        memberOrder := metric.memberOrder ++ [⟨ascii "kind", member.range⟩],
        kind := some kind.lexeme }) <|
  ifNamed (ascii "name")
    (do
      let member ← advance
      let backendName ← parseSimpleValue "metric name"
      consumeOptionalSemicolon
      pure { metric with
        memberOrder := metric.memberOrder ++ [⟨ascii "name", member.range⟩],
        backendName := some backendName }) <|
  ifNamed (ascii "unit")
    (do
      let member ← advance
      let unit ← parseSimpleValue "metric unit"
      consumeOptionalSemicolon
      pure { metric with
        memberOrder := metric.memberOrder ++ [⟨ascii "unit", member.range⟩],
        unit := some unit }) <|
  ifNamed (ascii "labels")
    (do
      let member ← advance
      let labels ← parseBlockOf .metricLabels parseFieldDecl "expected '\x7b' after metric labels"
        "expected '\x7d' after metric labels block" metric.labels
      pure { metric with
        memberOrder := metric.memberOrder ++ [⟨ascii "labels", member.range⟩],
        labels })
    (do
      skipUnknownDeclaration
      pure metric)

def parseMetricDecl : Parser MetricDecl := do
  let start ← consume .keywordMetric "expected metric declaration"
  let name ← consume .identifier "expected metric name"
  let _ ← consume .leftBrace "expected '\x7b' after metric name"
  let metric ← members .metric parseMetricMember { name := name.lexeme }
  let _ ← consume .rightBrace "expected '\x7d' after metric block"
  let range ← rangeFrom start
  pure { metric with range }

/-! ## What they do to the cursor -/

set_option synthInstance.maxSize 4096

variable {m : Nat}

instance : Sound parseFieldDecl := by
  unfold parseFieldDecl
  infer_instance

instance : Returns m parseFieldDecl := by
  unfold parseFieldDecl
  infer_instance

instance : Moves parseFieldDecl := by
  unfold parseFieldDecl
  infer_instance

instance : Sound parseValueDecl := by
  unfold parseValueDecl
  infer_instance

instance : Returns m parseValueDecl := by
  unfold parseValueDecl
  infer_instance

instance : MovesIf (check .keywordValue) parseValueDecl := by
  unfold parseValueDecl
  infer_instance

instance (kinds : List TokenKind) (code message : String) :
    Sound (parseLiteral kinds code message) := by
  unfold parseLiteral
  infer_instance

instance (kinds : List TokenKind) (code message : String) :
    Returns m (parseLiteral kinds code message) := by
  unfold parseLiteral
  infer_instance

instance (kinds : List TokenKind) (code message : String) :
    MovesIf (checkAny kinds) (parseLiteral kinds code message) := by
  unfold parseLiteral
  infer_instance

instance {others : List TokenKind} (kinds : List TokenKind) (code message : String)
    [Excludes (outside others) (checkAny kinds)] :
    StaysIf (outside others) (parseLiteral kinds code message) := by
  unfold parseLiteral error
  infer_instance

instance (enumDecl : EnumDecl) : Sound (parseEnumMember enumDecl) := by
  unfold parseEnumMember
  infer_instance

instance (enumDecl : EnumDecl) : Returns m (parseEnumMember enumDecl) := by
  unfold parseEnumMember
  infer_instance

/-- A member of an `enum` begins with a name, `=` or `;`, and the loop is stuck at anything else. -/
instance : Progress .enumMembers (fun _ => insideBlock) parseEnumMember := by
  have hstays (enumDecl : EnumDecl) :
      StaysIf (outside [.identifier, .equals, .semicolon]) (parseEnumMember enumDecl) := by
    unfold parseEnumMember rangeFrom
    infer_instance
  apply progress_of_kinds rfl
  intro enumDecl kind hkind
  unfold parseEnumMember
  simp only [List.mem_cons, List.not_mem_nil, or_false] at hkind
  rcases hkind with rfl | rfl | rfl <;> infer_instance

instance : Sound parseEnumDecl := by
  unfold parseEnumDecl
  infer_instance

instance : Returns m parseEnumDecl := by
  unfold parseEnumDecl
  infer_instance

instance : MovesIf (check .keywordEnum) parseEnumDecl := by
  unfold parseEnumDecl
  infer_instance

instance (event : EventDecl) : Sound (parseEventMember event) := by
  unfold parseEventMember
  infer_instance

instance (event : EventDecl) : Returns m (parseEventMember event) := by
  unfold parseEventMember
  infer_instance

instance (event : EventDecl) : Moves (parseEventMember event) := by
  unfold parseEventMember
  infer_instance

instance : Sound parseEventDecl := by
  unfold parseEventDecl
  infer_instance

instance : Returns m parseEventDecl := by
  unfold parseEventDecl
  infer_instance

instance : MovesIf (check .keywordEvent) parseEventDecl := by
  unfold parseEventDecl
  infer_instance

instance (context : String) : Sound (parseMappingPath context) := by
  unfold parseMappingPath
  infer_instance

instance (context : String) : Returns m (parseMappingPath context) := by
  unfold parseMappingPath
  infer_instance

instance (context : String) : Moves (parseMappingPath context) := by
  unfold parseMappingPath
  infer_instance

instance : Sound parseExternalSystemMetadataMappingDecl := by
  unfold parseExternalSystemMetadataMappingDecl
  infer_instance

instance : Returns m parseExternalSystemMetadataMappingDecl := by
  unfold parseExternalSystemMetadataMappingDecl
  infer_instance

instance : Moves parseExternalSystemMetadataMappingDecl := by
  unfold parseExternalSystemMetadataMappingDecl
  infer_instance

instance (metadata : ExternalSystemMetadataDecl) :
    Sound (parseExternalSystemMetadataMember metadata) := by
  unfold parseExternalSystemMetadataMember
  infer_instance

instance (metadata : ExternalSystemMetadataDecl) :
    Returns m (parseExternalSystemMetadataMember metadata) := by
  unfold parseExternalSystemMetadataMember
  infer_instance

instance (metadata : ExternalSystemMetadataDecl) :
    Moves (parseExternalSystemMetadataMember metadata) := by
  unfold parseExternalSystemMetadataMember
  infer_instance

instance : Sound parseExternalSystemMetadataDecl := by
  unfold parseExternalSystemMetadataDecl
  infer_instance

instance : Returns m parseExternalSystemMetadataDecl := by
  unfold parseExternalSystemMetadataDecl
  infer_instance

instance (name : Bytes) : MovesIf (checkNamed name) parseExternalSystemMetadataDecl := by
  unfold parseExternalSystemMetadataDecl
  infer_instance

instance : Sound parseExternalSystemProperty := by
  unfold parseExternalSystemProperty
  infer_instance

instance : Returns m parseExternalSystemProperty := by
  unfold parseExternalSystemProperty
  infer_instance

instance (externalSystem : ExternalSystemDecl) :
    Sound (parseExternalSystemMember externalSystem) := by
  unfold parseExternalSystemMember
  infer_instance

instance (externalSystem : ExternalSystemDecl) :
    Returns m (parseExternalSystemMember externalSystem) := by
  unfold parseExternalSystemMember
  infer_instance

/-- A member of an `external_system` begins with `annotations` or a name; the loop comes past a ':',
    a value and a ';', too, and is stuck at anything else. -/
instance : Progress .externalSystem (fun _ => insideBlock) parseExternalSystemMember := by
  have hstays (externalSystem : ExternalSystemDecl) :
      StaysIf (outside (.keywordAnnotations :: .colon :: .semicolon :: valueKinds))
        (parseExternalSystemMember externalSystem) := by
    unfold parseExternalSystemMember parseExternalSystemProperty rangeFrom
    infer_instance
  apply progress_of_kinds rfl
  intro externalSystem kind hkind
  have hvalue : MovesIf (checkAny valueKinds) (parseExternalSystemMember externalSystem) := by
    unfold parseExternalSystemMember parseExternalSystemProperty
    infer_instance
  rcases List.mem_cons.mp hkind with rfl | hkind
  · unfold parseExternalSystemMember
    infer_instance
  rcases List.mem_cons.mp hkind with rfl | hkind
  · unfold parseExternalSystemMember parseExternalSystemProperty
    infer_instance
  rcases List.mem_cons.mp hkind with rfl | hkind
  · unfold parseExternalSystemMember parseExternalSystemProperty
    infer_instance
  · exact movesIf_of_checkAny hvalue hkind

instance : Sound parseExternalSystemDecl := by
  unfold parseExternalSystemDecl
  infer_instance

instance : Returns m parseExternalSystemDecl := by
  unfold parseExternalSystemDecl
  infer_instance

instance : MovesIf (check .keywordExternalSystem) parseExternalSystemDecl := by
  unfold parseExternalSystemDecl
  infer_instance

instance : Sound parseShapeDecl := by
  unfold parseShapeDecl
  infer_instance

instance : Returns m parseShapeDecl := by
  unfold parseShapeDecl
  infer_instance

instance : MovesIf (check .keywordShape) parseShapeDecl := by
  unfold parseShapeDecl
  infer_instance

instance (featureFlag : FeatureFlagDecl) : Sound (parseFeatureFlagScope featureFlag) := by
  unfold parseFeatureFlagScope
  infer_instance

instance (featureFlag : FeatureFlagDecl) : Returns m (parseFeatureFlagScope featureFlag) := by
  unfold parseFeatureFlagScope
  infer_instance

instance (featureFlag : FeatureFlagDecl) : Sound (parseFeatureFlagMember featureFlag) := by
  unfold parseFeatureFlagMember
  infer_instance

instance (featureFlag : FeatureFlagDecl) : Returns m (parseFeatureFlagMember featureFlag) := by
  unfold parseFeatureFlagMember
  infer_instance

instance (featureFlag : FeatureFlagDecl) : Moves (parseFeatureFlagMember featureFlag) := by
  unfold parseFeatureFlagMember
  infer_instance

instance : Sound parseFeatureFlagDecl := by
  unfold parseFeatureFlagDecl
  infer_instance

instance : Returns m parseFeatureFlagDecl := by
  unfold parseFeatureFlagDecl
  infer_instance

instance : MovesIf (check .keywordFeatureFlag) parseFeatureFlagDecl := by
  unfold parseFeatureFlagDecl
  infer_instance

instance (log : LogDecl) : Sound (parseLogMember log) := by
  unfold parseLogMember
  infer_instance

instance (log : LogDecl) : Returns m (parseLogMember log) := by
  unfold parseLogMember
  infer_instance

instance (log : LogDecl) : Moves (parseLogMember log) := by
  unfold parseLogMember
  infer_instance

instance : Sound parseLogDecl := by
  unfold parseLogDecl
  infer_instance

instance : Returns m parseLogDecl := by
  unfold parseLogDecl
  infer_instance

instance : MovesIf (check .keywordLog) parseLogDecl := by
  unfold parseLogDecl
  infer_instance

instance (metric : MetricDecl) : Sound (parseMetricMember metric) := by
  unfold parseMetricMember
  infer_instance

instance (metric : MetricDecl) : Returns m (parseMetricMember metric) := by
  unfold parseMetricMember
  infer_instance

instance (metric : MetricDecl) : Moves (parseMetricMember metric) := by
  unfold parseMetricMember
  infer_instance

instance : Sound parseMetricDecl := by
  unfold parseMetricDecl
  infer_instance

instance : Returns m parseMetricDecl := by
  unfold parseMetricDecl
  infer_instance

instance : MovesIf (check .keywordMetric) parseMetricDecl := by
  unfold parseMetricDecl
  infer_instance

end StateSpec.Compiler
