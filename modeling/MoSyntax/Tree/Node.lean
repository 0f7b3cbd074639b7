import MoSyntax.Tree.Basic

/-!
One shape for all parts of a syntax tree: a node has a label, a span and the nodes of its parts in
source order. Operators are no parts; they stand in the label. The walk of a node visits it before
its parts.
-/
namespace MoSyntax

/-- How a name is used in an expression. -/
inductive NameUse where
  | variable
  | index
  | call
deriving DecidableEq, Repr

/-- What a skipped leaf stands for. -/
inductive Placeholder where
  | statement
  | expression
  | type
deriving DecidableEq, Repr

inductive NodeLabel where
  | program
  | useDecl
  | structDecl
  | fnDecl
  | structField
  | parameter
  | body
  | blockStatement
  | forLoop
  | ifStatement
  | retStatement
  | deferStatement
  | inferredDeclaration
  | typedDeclaration
  | assignment
  | compoundAssignment (operator : Located BinaryOperator)
  | expressionStatement
  | binary (tier : Precedence) (operator : Located BinaryOperator)
  | unary (operator : Located UnaryOperator)
  | chain
  | number (value : NumberLiteral)
  | string (value : Text)
  | bool (value : Bool)
  | grouped
  | named (usage : NameUse)
  | arrayLiteral
  | callSuffix
  | fieldSuffix
  | arrayType
  | pointerType
  | namedType
  | arrayLength (value : NumberLiteral)
  | localName (value : Text)
  | identifier (name : Text)
  | modulePath
  | skipped (placeholder : Placeholder)
deriving DecidableEq, Repr

namespace NodeLabel

/-- The name of the rule that a node belongs to. -/
def title : NodeLabel → Text
  | program => "program".toList
  | useDecl => "use_decl".toList
  | structDecl => "struct_decl".toList
  | fnDecl => "fn_decl".toList
  | structField => "struct_field".toList
  | parameter => "fn_param".toList
  | body | blockStatement => "code_block".toList
  | forLoop => "for_loop".toList
  | ifStatement => "if_stmt".toList
  | retStatement => "ret_stmt".toList
  | deferStatement => "defer_stmt".toList
  | inferredDeclaration => "inferred_decl_assign".toList
  | typedDeclaration => "typed_decl_assign".toList
  | assignment => "assignment".toList
  | compoundAssignment _ => "var_op_assign".toList
  | expressionStatement => "expr_stmt".toList
  | binary .equality _ => "equality_expr".toList
  | binary .comparison _ => "comparison_expr".toList
  | binary .term _ => "term_expr".toList
  | binary .factor _ => "factor_expr".toList
  | unary _ => "unary_expr".toList
  | chain => "dot_expr".toList
  | number _ => "number_literal".toList
  | string _ | localName _ => "string_literal".toList
  | bool true => "true".toList
  | bool false => "false".toList
  | grouped => "grouped_expr".toList
  | named _ => "variable_or_call".toList
  | arrayLiteral => "array_literal".toList
  | callSuffix => "fn_call_suffix".toList
  | fieldSuffix => "field_access".toList
  | arrayType => "array_type".toList
  | pointerType => "pointer_type".toList
  | namedType => "named_type".toList
  | arrayLength _ => "decimal_integer_number_literal".toList
  | identifier _ => "identifier".toList
  | modulePath => "module_path".toList
  | skipped _ => "ERROR".toList

def isSkipped : NodeLabel → Bool
  | skipped _ => true
  | _ => false

end NodeLabel

inductive Node where
  | node (label : NodeLabel) (span : Span) (children : List Node)
deriving Repr

namespace Node

def label : Node → NodeLabel
  | node label _ _ => label

def span : Node → Span
  | node _ span _ => span

def children : Node → List Node
  | node _ _ children => children

mutual

/-- A node and all below it, each with its depth. -/
def walkFrom (depth : Nat) : Node → List (Nat × Node)
  | node label span children =>
    (depth, node label span children) :: walkAllFrom (depth + 1) children

def walkAllFrom (depth : Nat) : List Node → List (Nat × Node)
  | [] => []
  | child :: children => walkFrom depth child ++ walkAllFrom depth children

end

def walk (root : Node) : List (Nat × Node) := walkFrom 0 root

mutual

/-- The titles in parentheses, parts inside wholes. -/
def sexp : Node → Text
  | node label _ children => '(' :: label.title ++ sexpAll children ++ [')']

def sexpAll : List Node → Text
  | [] => []
  | child :: children => ' ' :: child.sexp ++ sexpAll children

end

end Node

def Ident.node (name : Ident) : Node := .node (.identifier name.name) name.span []

def ModulePath.node (path : ModulePath) : Node :=
  .node .modulePath path.span (path.segments.map Ident.node)

def Name.node : Name → Node
  | ident name => name.node
  | path modules => modules.node

def lengthNode (length : Located NumberLiteral) : Node :=
  .node (.arrayLength length.value) length.span []

def TypeExpr.node : TypeExpr → Node
  | named name => .node .namedType name.span [name.node]
  | pointer span target => .node .pointerType span [target.node]
  | array span length element =>
    .node .arrayType span ((length.map lengthNode).toList ++ [element.node])
  | skipped span => .node (.skipped .type) span []

mutual

def Expr.node : Expr → Node
  | .number span value => .node (.number value) span []
  | .string span value => .node (.string value) span []
  | .bool span value => .node (.bool value) span []
  | .named name => .node (.named .variable) name.span [name.node]
  | .index span target position => .node (.named .index) span [target.node, position.node]
  | .call span callee arguments =>
    .node (.named .call) span (callee.node :: exprNodes arguments)
  | .array span elements elementType =>
    .node .arrayLiteral span (exprNodes elements ++ (elementType.map TypeExpr.node).toList)
  | .grouped span inner => .node .grouped span [inner.node]
  | .chain span receiver suffixes =>
    .node .chain span (receiver.node :: suffixNodes suffixes)
  | .unary span operator operand => .node (.unary operator) span [operand.node]
  | .binary span tier left operator right =>
    .node (.binary tier operator) span [left.node, right.node]
  | .skipped span => .node (.skipped .expression) span []

def Suffix.node : Suffix → Node
  | .field span name => .node .fieldSuffix span [name.node]
  | .call span name arguments => .node .callSuffix span (name.node :: exprNodes arguments)

def exprNodes : List Expr → List Node
  | [] => []
  | expr :: exprs => expr.node :: exprNodes exprs

def suffixNodes : List Suffix → List Node
  | [] => []
  | suffix :: suffixes => suffix.node :: suffixNodes suffixes

end

mutual

def Stmt.node : Stmt → Node
  | .forLoop span condition body => .node .forLoop span [condition.node, body.node]
  | .ifElse span condition consequence none =>
    .node .ifStatement span [condition.node, consequence.node]
  | .ifElse span condition consequence (some otherwise) =>
    .node .ifStatement span [condition.node, consequence.node, otherwise.node]
  | .ret span value => .node .retStatement span (value.map Expr.node).toList
  | .defer span statement => .node .deferStatement span [statement.node]
  | .block (.braces span statements) => .node .blockStatement span (stmtNodes statements)
  | .declare span name none value => .node .inferredDeclaration span [name.node, value.node]
  | .declare span name (some type) value =>
    .node .typedDeclaration span [name.node, type.node, value.node]
  | .assign span target value => .node .assignment span [target.node, value.node]
  | .compoundAssign span target operator value =>
    .node (.compoundAssignment operator) span [target.node, value.node]
  | .expression value => .node .expressionStatement value.span [value.node]
  | .skipped span => .node (.skipped .statement) span []

def Block.node : Block → Node
  | .braces span statements => .node .body span (stmtNodes statements)

def stmtNodes : List Stmt → List Node
  | [] => []
  | statement :: statements => statement.node :: stmtNodes statements

end

def TypedName.node (label : NodeLabel) (typed : TypedName) : Node :=
  .node label typed.span [typed.name.node, typed.type.node]

def localNameNode (localName : Located Text) : Node :=
  .node (.localName localName.value) localName.span []

def Decl.node : Decl → Node
  | importing span path localName =>
    .node .useDecl span (path.node :: (localName.map localNameNode).toList)
  | record span name fields =>
    .node .structDecl span (name.node :: fields.map (TypedName.node .structField))
  | function span name parameters result body =>
    .node .fnDecl span
      (name.node :: parameters.map (TypedName.node .parameter) ++
        (result.map TypeExpr.node).toList ++ [body.node])

def Program.node (program : Program) : Node :=
  .node .program program.span (program.declarations.map Decl.node)

namespace Program

def walk (program : Program) : List (Nat × Node) := program.node.walk

def sexp (program : Program) : Text := program.node.sexp

def nodeCount (program : Program) : Nat := program.walk.length

/-- How many leaves stand for what was skipped. -/
def skippedCount (program : Program) : Nat :=
  program.walk.countP fun visit => visit.2.label.isSkipped

def depth (program : Program) : Nat := (program.walk.map (·.1)).foldl max 0

end Program

end MoSyntax
