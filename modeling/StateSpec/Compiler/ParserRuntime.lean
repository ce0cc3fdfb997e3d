/-
  DECLARATIONS OF SERVICES — `parser_apis.cpp` and `parser_runtime.cpp`: APIs, policies, queues with their
  messages, leases, workers and API servers.

  They are alike: a name, and a block of members each of which begins with its own word.  A member that
  begins with anything else is skipped with a warning, so every iteration of these loops takes a token.
-/
import StateSpec.Compiler.ParserDeclarations

namespace StateSpec.Compiler

open Reading

/-! ## `parser_apis.cpp` -/

def parseApiMember (api : ApiDecl) : Parser ApiDecl :=
  ifMatch .keywordMethod
    (do
      let method ← parseSimpleValue "HTTP method"
      consumeOptionalSemicolon
      pure { api with method := some method }) <|
  ifMatch .keywordPath
    (do
      let path ← parseSimpleValue "API path"
      consumeOptionalSemicolon
      pure { api with path := some path }) <|
  ifMatch .keywordInput
    (do
      let input ← parseQualifiedName "API input"
      consumeOptionalSemicolon
      pure { api with input := some input }) <|
  ifMatch .keywordOutput
    (do
      let output ← parseQualifiedName "API output"
      consumeOptionalSemicolon
      pure { api with output := some output }) <|
  ifMatch .keywordError
    (do
      let error ← parseQualifiedName "API error"
      consumeOptionalSemicolon
      pure { api with error := some error }) <|
  ifMatch .keywordStarts
    (do
      let _ ← consume .keywordWorkflow "expected workflow after starts"
      let startsWorkflow ← parseQualifiedName "started workflow"
      consumeOptionalSemicolon
      pure { api with startsWorkflow := some startsWorkflow }) <|
  ifMatch .keywordEnqueues
    (do
      let enqueues ← parseQualifiedName "enqueued message"
      consumeOptionalSemicolon
      pure { api with enqueues := some enqueues })
    (do
      skipUnknownDeclaration
      pure api)

def parseApiDecl : Parser ApiDecl := do
  let start ← consume .keywordApi "expected api declaration"
  let name ← consume .identifier "expected api name"
  let _ ← consume .leftBrace "expected '\x7b' after api name"
  let api ← members .api parseApiMember { name := name.lexeme }
  let _ ← consume .rightBrace "expected '\x7d' after api block"
  let range ← rangeFrom start
  pure { api with range }

/-- An `allow` or `deny` rule, behind its word. -/
def parsePolicyRule (context : String) : Parser PolicyRuleDecl := do
  let ruleStart ← previousToken
  let action ← parseQualifiedName context
  let condition ← ifMatch .keywordWhen parseSimpleExpressionUntilBoundary (pure [])
  consumeOptionalSemicolon
  let range ← rangeFrom ruleStart
  pure { action, condition, range }

def parsePolicyMember (policy : PolicyDecl) : Parser PolicyDecl :=
  ifMatch .keywordTenant
    (do
      let member ← previousToken
      let _ ← consume .keywordScopedBy "expected scoped_by after tenant"
      let field ← consume .identifier "expected tenant scope field"
      consumeOptionalSemicolon
      pure { policy with
        memberOrder := policy.memberOrder ++ [⟨ascii "tenant", member.range⟩],
        tenantScopedBy := some field.lexeme }) <|
  ifMatch .keywordAllow
    (do
      let member ← previousToken
      let rule ← parsePolicyRule "allow action"
      pure { policy with
        memberOrder := policy.memberOrder ++ [⟨ascii "allow", member.range⟩],
        allows := policy.allows ++ [rule] }) <|
  ifMatch .keywordDeny
    (do
      let member ← previousToken
      let rule ← parsePolicyRule "deny action"
      pure { policy with
        memberOrder := policy.memberOrder ++ [⟨ascii "deny", member.range⟩],
        denies := policy.denies ++ [rule] }) <|
  ifMatch .keywordQuota
    (do
      let member ← previousToken
      let name ← consume .identifier "expected quota name"
      let _ ← consume .colon "expected ':' after quota name"
      let expression ← parseSimpleExpressionUntilBoundary
      consumeOptionalSemicolon
      let range ← rangeFrom member
      pure { policy with
        memberOrder := policy.memberOrder ++ [⟨ascii "quota", member.range⟩],
        quotas := policy.quotas ++ [{ name := name.lexeme, expression, range }] }) <|
  ifMatch .keywordAudit
    (do
      let member ← previousToken
      let audit ← parseQualifiedName "audit action"
      consumeOptionalSemicolon
      pure { policy with
        memberOrder := policy.memberOrder ++ [⟨ascii "audit", member.range⟩],
        audits := policy.audits ++ [audit] })
    (do
      skipUnknownDeclaration
      pure policy)

def parsePolicyDecl : Parser PolicyDecl := do
  let start ← consume .keywordPolicy "expected policy declaration"
  let name ← consume .identifier "expected policy name"
  let _ ← consume .leftBrace "expected '\x7b' after policy name"
  let policy ← members .policy parsePolicyMember { name := name.lexeme }
  let _ ← consume .rightBrace "expected '\x7d' after policy block"
  let range ← rangeFrom start
  pure { policy with range }

/-! ## `parser_runtime.cpp` -/

def parseMessageMember (message : MessageDecl) : Parser MessageDecl :=
  ifNamed (ascii "idempotency_key")
    (do
      let _ ← advance
      let idempotencyKey ← consume .identifier "expected idempotency key field"
      consumeOptionalSemicolon
      pure { message with idempotencyKey := some idempotencyKey.lexeme }) <|
  ifCheck .keywordPayload
    (do
      let _ ← advance
      let payloadFields ← parseBlockOf .messagePayload parseFieldDecl "expected '\x7b' after payload"
        "expected '\x7d' after payload block" message.payloadFields
      pure { message with payloadFields })
    (do
      skipUnknownDeclaration
      pure message)

def parseMessageDecl : Parser MessageDecl := do
  let start ← consume .keywordMessage "expected message declaration"
  let name ← consume .identifier "expected message name"
  let _ ← consume .leftBrace "expected '\x7b' after message name"
  let message ← members .message parseMessageMember { name := name.lexeme }
  let _ ← consume .rightBrace "expected '\x7d' after message block"
  let range ← rangeFrom start
  pure { message with range }

def parseQueueMember (queue : QueueDecl) : Parser QueueDecl :=
  ifMatch .keywordNamespace
    (do
      let namespaceName ← parseSimpleValue "queue namespace"
      consumeOptionalSemicolon
      pure { queue with namespaceName := some namespaceName }) <|
  ifNamed (ascii "channel")
    (do
      let _ ← advance
      let channel ← parseSimpleValue "queue channel"
      consumeOptionalSemicolon
      pure { queue with channel := some channel }) <|
  ifNamed (ascii "visibility_timeout")
    (do
      let _ ← advance
      let visibilityTimeout ← parseSimpleValue "visibility timeout"
      consumeOptionalSemicolon
      pure { queue with visibilityTimeout := some visibilityTimeout }) <|
  ifNamed (ascii "max_attempts")
    (do
      let _ ← advance
      let maxAttempts ← consume .integerLiteral "expected max_attempts integer"
      consumeOptionalSemicolon
      pure { queue with maxAttempts := some (parseIntOrZero maxAttempts) }) <|
  ifNamed (ascii "dead_letter")
    (do
      let _ ← advance
      let deadLetter ← parseQualifiedName "dead_letter target"
      consumeOptionalSemicolon
      pure { queue with deadLetter := some deadLetter }) <|
  ifCheck .keywordMessage
    (do
      let message ← parseMessageDecl
      pure { queue with messages := queue.messages ++ [message] })
    (do
      skipUnknownDeclaration
      pure queue)

def parseQueueDecl : Parser QueueDecl := do
  let start ← consume .keywordQueue "expected queue declaration"
  let name ← consume .identifier "expected queue name"
  let _ ← consume .leftBrace "expected '\x7b' after queue name"
  let queue ← members .queue parseQueueMember { name := name.lexeme }
  let _ ← consume .rightBrace "expected '\x7d' after queue block"
  let range ← rangeFrom start
  pure { queue with range }

def parseLeaseMember (lease : LeaseDecl) : Parser LeaseDecl :=
  ifNamed (ascii "resource")
    (do
      let _ ← advance
      let resource ← parseSimpleValue "lease resource"
      consumeOptionalSemicolon
      pure { lease with resource := some resource }) <|
  ifNamed (ascii "ttl")
    (do
      let _ ← advance
      let ttl ← parseSimpleValue "lease ttl"
      consumeOptionalSemicolon
      pure { lease with ttl := some ttl }) <|
  ifNamed (ascii "renew_every")
    (do
      let _ ← advance
      let renewEvery ← parseSimpleValue "lease renew_every"
      consumeOptionalSemicolon
      pure { lease with renewEvery := some renewEvery }) <|
  ifNamed (ascii "holder")
    (do
      let _ ← advance
      let holder ← parseSimpleValue "lease holder"
      consumeOptionalSemicolon
      pure { lease with holder := some holder }) <|
  ifNamed (ascii "fencing_token")
    (do
      let _ ← advance
      let value ← consume .booleanLiteral "expected fencing_token boolean"
      consumeOptionalSemicolon
      pure { lease with fencingToken := some (value.lexeme == ascii "true") }) <|
  ifNamed (ascii "max_ttl")
    (do
      let _ ← advance
      let maxTtl ← parseSimpleValue "lease max_ttl"
      consumeOptionalSemicolon
      pure { lease with maxTtl := some maxTtl })
    (do
      skipUnknownDeclaration
      pure lease)

def parseLeaseDecl : Parser LeaseDecl := do
  let start ← consume .keywordLease "expected lease declaration"
  let name ← consume .identifier "expected lease name"
  let _ ← consume .leftBrace "expected '\x7b' after lease name"
  let lease ← members .lease parseLeaseMember { name := name.lexeme }
  let _ ← consume .rightBrace "expected '\x7d' after lease block"
  let range ← rangeFrom start
  pure { lease with range }

def parseWorkerMember (worker : WorkerDecl) : Parser WorkerDecl :=
  ifMatch .keywordSingleton
    (do
      let value ← consume .booleanLiteral "expected singleton boolean"
      consumeOptionalSemicolon
      pure { worker with singleton := some (value.lexeme == ascii "true") }) <|
  ifMatch .keywordLease
    (do
      let lease ← parseQualifiedName "worker lease"
      consumeOptionalSemicolon
      pure { worker with lease := some lease }) <|
  ifMatch .keywordPolls
    (do
      let polls ← parseQualifiedName "worker polls target"
      consumeOptionalSemicolon
      pure { worker with polls := some polls }) <|
  ifMatch .keywordExecutes
    (do
      let executes ← parseQualifiedName "worker executes target"
      consumeOptionalSemicolon
      pure { worker with executes := some executes }) <|
  ifMatch .keywordConcurrency
    (do
      let concurrency ← consume .integerLiteral "expected concurrency integer"
      consumeOptionalSemicolon
      pure { worker with concurrency := some (parseIntOrZero concurrency) })
    (do
      skipUnknownDeclaration
      pure worker)

def parseWorkerDecl : Parser WorkerDecl := do
  let start ← consume .keywordWorker "expected worker declaration"
  let name ← consume .identifier "expected worker name"
  let _ ← consume .leftBrace "expected '\x7b' after worker name"
  let worker ← members .worker parseWorkerMember { name := name.lexeme }
  let _ ← consume .rightBrace "expected '\x7d' after worker block"
  let range ← rangeFrom start
  pure { worker with range }

def parseApiServerMember (apiServer : ApiServerDecl) : Parser ApiServerDecl :=
  ifMatch .keywordServes
    (do
      let serves ← parseQualifiedName "served API"
      consumeOptionalSemicolon
      pure { apiServer with serves := apiServer.serves ++ [serves] }) <|
  ifMatch .keywordConcurrency
    (do
      let concurrency ← consume .integerLiteral "expected concurrency integer"
      consumeOptionalSemicolon
      pure { apiServer with concurrency := some (parseIntOrZero concurrency) })
    (do
      skipUnknownDeclaration
      pure apiServer)

def parseApiServerDecl : Parser ApiServerDecl := do
  let start ← consume .keywordApiServer "expected api_server declaration"
  let name ← consume .identifier "expected api_server name"
  let _ ← consume .leftBrace "expected '\x7b' after api_server name"
  let apiServer ← members .apiServer parseApiServerMember { name := name.lexeme }
  let _ ← consume .rightBrace "expected '\x7d' after api_server block"
  let range ← rangeFrom start
  pure { apiServer with range }

/-! ## What they do to the cursor -/

set_option synthInstance.maxSize 4096

variable {m : Nat}

instance (api : ApiDecl) : Sound (parseApiMember api) := by
  unfold parseApiMember
  infer_instance

instance (api : ApiDecl) : Returns m (parseApiMember api) := by
  unfold parseApiMember
  infer_instance

instance (api : ApiDecl) : Moves (parseApiMember api) := by
  unfold parseApiMember
  infer_instance

instance : Sound parseApiDecl := by
  unfold parseApiDecl
  infer_instance

instance : Returns m parseApiDecl := by
  unfold parseApiDecl
  infer_instance

instance : MovesIf (check .keywordApi) parseApiDecl := by
  unfold parseApiDecl
  infer_instance

instance (context : String) : Sound (parsePolicyRule context) := by
  unfold parsePolicyRule
  infer_instance

instance (context : String) : Returns m (parsePolicyRule context) := by
  unfold parsePolicyRule
  infer_instance

instance (policy : PolicyDecl) : Sound (parsePolicyMember policy) := by
  unfold parsePolicyMember
  infer_instance

instance (policy : PolicyDecl) : Returns m (parsePolicyMember policy) := by
  unfold parsePolicyMember
  infer_instance

instance (policy : PolicyDecl) : Moves (parsePolicyMember policy) := by
  unfold parsePolicyMember
  infer_instance

instance : Sound parsePolicyDecl := by
  unfold parsePolicyDecl
  infer_instance

instance : Returns m parsePolicyDecl := by
  unfold parsePolicyDecl
  infer_instance

instance : MovesIf (check .keywordPolicy) parsePolicyDecl := by
  unfold parsePolicyDecl
  infer_instance

instance (message : MessageDecl) : Sound (parseMessageMember message) := by
  unfold parseMessageMember
  infer_instance

instance (message : MessageDecl) : Returns m (parseMessageMember message) := by
  unfold parseMessageMember
  infer_instance

instance (message : MessageDecl) : Moves (parseMessageMember message) := by
  unfold parseMessageMember
  infer_instance

instance : Sound parseMessageDecl := by
  unfold parseMessageDecl
  infer_instance

instance : Returns m parseMessageDecl := by
  unfold parseMessageDecl
  infer_instance

instance : MovesIf (check .keywordMessage) parseMessageDecl := by
  unfold parseMessageDecl
  infer_instance

instance (queue : QueueDecl) : Sound (parseQueueMember queue) := by
  unfold parseQueueMember
  infer_instance

instance (queue : QueueDecl) : Returns m (parseQueueMember queue) := by
  unfold parseQueueMember
  infer_instance

instance (queue : QueueDecl) : Moves (parseQueueMember queue) := by
  unfold parseQueueMember
  infer_instance

instance : Sound parseQueueDecl := by
  unfold parseQueueDecl
  infer_instance

instance : Returns m parseQueueDecl := by
  unfold parseQueueDecl
  infer_instance

instance : MovesIf (check .keywordQueue) parseQueueDecl := by
  unfold parseQueueDecl
  infer_instance

instance (lease : LeaseDecl) : Sound (parseLeaseMember lease) := by
  unfold parseLeaseMember
  infer_instance

instance (lease : LeaseDecl) : Returns m (parseLeaseMember lease) := by
  unfold parseLeaseMember
  infer_instance

instance (lease : LeaseDecl) : Moves (parseLeaseMember lease) := by
  unfold parseLeaseMember
  infer_instance

instance : Sound parseLeaseDecl := by
  unfold parseLeaseDecl
  infer_instance

instance : Returns m parseLeaseDecl := by
  unfold parseLeaseDecl
  infer_instance

instance : MovesIf (check .keywordLease) parseLeaseDecl := by
  unfold parseLeaseDecl
  infer_instance

instance (worker : WorkerDecl) : Sound (parseWorkerMember worker) := by
  unfold parseWorkerMember
  infer_instance

instance (worker : WorkerDecl) : Returns m (parseWorkerMember worker) := by
  unfold parseWorkerMember
  infer_instance

instance (worker : WorkerDecl) : Moves (parseWorkerMember worker) := by
  unfold parseWorkerMember
  infer_instance

instance : Sound parseWorkerDecl := by
  unfold parseWorkerDecl
  infer_instance

instance : Returns m parseWorkerDecl := by
  unfold parseWorkerDecl
  infer_instance

instance : MovesIf (check .keywordWorker) parseWorkerDecl := by
  unfold parseWorkerDecl
  infer_instance

instance (apiServer : ApiServerDecl) : Sound (parseApiServerMember apiServer) := by
  unfold parseApiServerMember
  infer_instance

instance (apiServer : ApiServerDecl) : Returns m (parseApiServerMember apiServer) := by
  unfold parseApiServerMember
  infer_instance

instance (apiServer : ApiServerDecl) : Moves (parseApiServerMember apiServer) := by
  unfold parseApiServerMember
  infer_instance

instance : Sound parseApiServerDecl := by
  unfold parseApiServerDecl
  infer_instance

instance : Returns m parseApiServerDecl := by
  unfold parseApiServerDecl
  infer_instance

instance : MovesIf (check .keywordApiServer) parseApiServerDecl := by
  unfold parseApiServerDecl
  infer_instance

end StateSpec.Compiler
