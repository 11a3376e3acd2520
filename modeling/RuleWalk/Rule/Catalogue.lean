import RuleWalk.Rule.Fields

/-!
# The catalogue of ESTree kinds

For each kind of the ESTree catalogue that can have children, the fields that hold them in the order
in which they are visited.
-/

namespace RuleWalk.Catalogue

open FieldSpec in
/-- The fields of each kind, in the order of the catalogue. -/
def table : List (String × List FieldSpec) :=
  let f (name : String) := one (.str name)
  let fs (name : String) := many (.str name)
  let block := [fs "body"]
  let function := [f "id", fs "params", f "body"]
  let argument := [f "argument"]
  let label := [f "label"]
  let branches := [f "test", f "consequent", f "alternate"]
  let forEach := [f "left", f "right", f "body"]
  let elements := [fs "elements"]
  let properties := [fs "properties"]
  let keyValue := [f "key", f "value"]
  let leftRight := [f "left", f "right"]
  let classParts := [f "id", f "superClass", f "body"]
  let localName := [f "local"]
  [ ("Program", block),
    ("BlockStatement", block),
    ("ClassBody", block),
    ("FunctionDeclaration", function),
    ("FunctionExpression", function),
    ("ArrowFunctionExpression", function),
    ("ExpressionStatement", [f "expression"]),
    ("WithStatement", [f "object", f "body"]),
    ("ReturnStatement", argument),
    ("ThrowStatement", argument),
    ("LabeledStatement", [f "label", f "body"]),
    ("BreakStatement", label),
    ("ContinueStatement", label),
    ("IfStatement", branches),
    ("SwitchStatement", [f "discriminant", fs "cases"]),
    ("SwitchCase", [f "test", fs "consequent"]),
    ("TryStatement", [f "block", f "handler", f "finalizer"]),
    ("CatchClause", [f "param", f "body"]),
    ("WhileStatement", [f "test", f "body"]),
    ("DoWhileStatement", [f "body", f "test"]),
    ("ForStatement", [f "init", f "test", f "update", f "body"]),
    ("ForInStatement", forEach),
    ("ForOfStatement", forEach),
    ("VariableDeclaration", [fs "declarations"]),
    ("VariableDeclarator", [f "id", f "init"]),
    ("ClassDeclaration", classParts),
    ("UnaryExpression", argument),
    ("UpdateExpression", argument),
    ("SpreadElement", argument),
    ("YieldExpression", argument),
    ("AwaitExpression", argument),
    ("ArrayExpression", elements),
    ("ObjectExpression", properties),
    ("Property", keyValue),
    ("MethodDefinition", keyValue),
    ("BinaryExpression", leftRight),
    ("AssignmentExpression", leftRight),
    ("LogicalExpression", leftRight),
    ("MemberExpression", [f "object", f "property"]),
    ("ConditionalExpression", branches),
    ("CallExpression", [f "callee", fs "arguments"]),
    ("SequenceExpression", [fs "expressions"]),
    ("TemplateLiteral", [fs "quasis", fs "expressions"]),
    ("ClassExpression", classParts),
    ("MetaProperty", [f "meta", f "property"]),
    ("ArrayPattern", elements),
    ("ObjectPattern", properties),
    ("AssignmentProperty", keyValue),
    ("RestElement", argument),
    ("AssignmentPattern", leftRight),
    ("ImportDeclaration", [fs "specifiers", f "source"]),
    ("ImportSpecifier", localName),
    ("ImportDefaultSpecifier", localName),
    ("ImportNamespaceSpecifier", localName),
    ("ExportNamedDeclaration", [f "declaration", fs "specifiers", f "source"]),
    ("ExportSpecifier", [f "exported"]),
    ("ExportDefaultDeclaration", [f "declaration"]),
    ("ExportAllDeclaration", [f "source"]) ]

/-- The rule of each kind. -/
def rules (σ : Type) : List (String × Rule σ) := table.map fun e => (e.1, FieldSpec.rule e.2)

end RuleWalk.Catalogue
