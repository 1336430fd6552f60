import ActionItems.Syntax.EcmascriptLexis

/-! # The grammars of JavaScript and TypeScript

Operators are not ranked, since only the shape of a source counts. A keyword may be a name wherever
the grammar does not ask for the keyword; the words under `Reserved` may be names even where it
does. -/

namespace ActionItems.Syntax.Ecmascript

/-- Rules that both languages share. -/
def commonRules : String := "
Program = hashbang? Statement*
Statement = Export | Import | 'debugger' Semi | Expressions SemiOp | Declaration | Block | If
  | Switch | For | ForIn | While | Do | Try | With | Break | Continue | Return
  | 'throw' Expressions SemiOp | ';' | Labeled
Semi = semi | ';'
SemiOp = semiop | ';'
Block = lb Statement* rb
If = 'if' ParenExpr Statement ('else' Statement)?
Switch = 'switch' ParenExpr lb SwitchCase* rb
SwitchCase = ('case' Expressions | 'default') ':' Statement*
For = 'for' '(' ForInit (Expressions ';' | ';') Expressions? ')' Statement
ForInit = ('var' | 'let' | 'const') Declarator (',' Declarator)* ';' | Expressions ';' | ';'
ForIn = 'for' 'await'? '(' ForLeft ('in' | 'of') Expressions ')' Statement
ForLeft = Lhs | ParenExpr | ('var' | 'let' | 'const') Binding ('=' Expr)?
While = 'while' ParenExpr Statement
Do = 'do' Statement 'while' ParenExpr ';'?
Try = 'try' Block Catch? ('finally' Block)?
With = 'with' ParenExpr Statement
Break = 'break' name? Semi
Continue = 'continue' name? Semi
Return = 'return' Semi | 'return' Expressions SemiOp
Labeled = (name | Reserved) ':' Statement
Variables = ('var' | 'let' | 'const') (Declarator ',')* LastDeclarator
Binding = name | ObjectPattern | ArrayPattern
Expressions = Expr (',' Expr)*
BinaryOp = '&&' | '||' | '??' | '&' | '^' | '|' | '+' | '-' | '*' | '/' | '%' | '**' | '<' | '<='
  | '<<' | '>' | '>' ~'=' | '>' ~'>' | '>' ~'>' ~'>' | '==' | '===' | '!=' | '!==' | 'in'
  | 'instanceof'
AssignOp = '+=' | '-=' | '*=' | '/=' | '%=' | '**=' | '<<=' | '>' ~'>' ~'=' | '>' ~'>' ~'>' ~'='
  | '&=' | '^=' | '|=' | '&&=' | '||=' | '??='
PrefixOp = '!' | '~' | '-' | '+' | '++' | '--' | 'typeof' | 'void' | 'delete' | 'await'
Yield = 'yield' | 'yield' Expr | 'yield' '*' Expr
Object = lb ObjectItem? (',' ObjectItem?)* rb
ObjectItem = PropertyName ':' Expr | '...' Expr | Method | name | Reserved
ObjectPattern = lb PatternItem? (',' PatternItem?)* rb
PatternItem = PropertyName ':' Pattern ('=' Expr)? | '...' Lhs | name | Reserved
  | (name | Reserved | ObjectPattern | ArrayPattern) '=' Expr
Array = '[' Argument? (',' Argument?)* ']'
ArrayPattern = '[' (Pattern ('=' Expr)?)? (',' (Pattern ('=' Expr)?)?)* ']'
Pattern = Lhs | '...' Lhs
Arguments = '(' Argument? (',' Argument?)* ')'
Argument = Expr | '...' Expr
Params = '(' (Param (',' Param)* ','?)? ')'
Template = tick (chars | hole Expressions rb)* tick
PropertyName = name | Reserved | private | string | number | '[' Expr ']'
Jsx = '<' (JsxStart JsxAttribute*)? '>' JsxChild* '</' JsxName? '>'
  | '<' JsxStart JsxAttribute* '/>'
JsxChild = text | entity | Jsx | JsxHole
JsxHole = lb (Expressions | '...' Expr)? rb
JsxName = JsxWord | name ('.' name)+ | JsxWord ':' JsxWord
JsxWord = name | dashed
JsxAttribute = (JsxWord | JsxWord ':' JsxWord) ('=' (attribute | JsxHole | Jsx))? | JsxHole
"

/-- Rules of JavaScript. -/
def untypedRules : String := "
Export = 'export' ('*' From | '*' 'as' ModuleName From | ExportClause From? ) Semi
  | Decorator* 'export' (Declaration | 'default' (Declaration | Expr SemiOp))
ExportClause = lb (ExportItem (',' ExportItem)* ','?)? rb
ExportItem = ModuleName ('as' ModuleName)?
ModuleName = name | string
From = 'from' string ImportAttribute?
Import = 'import' (ImportClause From | string ImportAttribute?) Semi
ImportAttribute = 'with' Object
ImportClause = '*' 'as' name | NamedImports | name (',' ('*' 'as' name | NamedImports))?
NamedImports = lb (ImportItem (',' ImportItem)* ','?)? rb
ImportItem = name | ModuleName 'as' name
Declaration = FunctionDecl | ClassDecl | Variables
Declarator = Binding ('=' Expr)?
LastDeclarator = Binding Semi | Binding '=' Expr SemiOp
Catch = 'catch' ('(' Binding ')')? Block
ParenExpr = '(' Expressions ')'
Expr = Unit | Expr BinaryOp Unit | Expr '?' Expr ':' Unit | private 'in' Unit
Unit = PrefixOp Unit | Post | Assign | Arrow | Yield
Post = Primary | Member | Post '?.'? Arguments | Post Template | Post '++' | Post '--'
Member = Post ('.' | '?.') (name | private) | Post '?.'? '[' Expressions ']'
Lhs = name | Reserved | Member | ObjectPattern | ArrayPattern
Assign = (Lhs | ParenExpr) '=' Expr | (name | Reserved | Member | ParenExpr) AssignOp Expr
Primary = ParenExpr | name | Reserved | 'this' | 'super' | number | string | Template | regex
  | 'true' | 'false' | 'null' | Object | Array | FunctionExpr | ClassExpr | 'new' Primary
  | 'new' '.' name | 'import' Arguments | 'import' '.' name | Jsx
Reserved = 'get' | 'set' | 'async' | 'static' | 'export' | 'let'
FunctionExpr = 'async'? 'function' '*'? name? Params Block
FunctionDecl = 'async'? 'function' '*'? name Params Block
Param = Pattern ('=' Expr)?
Arrow = 'async'? (name | Reserved | Params) '=>' (Expr | Block)
ClassExpr = Decorator* 'class' name? ('extends' Expr)? ClassBody
ClassDecl = Decorator* 'class' name ('extends' Expr)? ClassBody
ClassBody = lb ClassItem* rb
ClassItem = Decorator* Method ';'? | Field | 'static' Block | ';'
Field = Decorator* 'static'? PropertyName (Semi | '=' Expr SemiOp)
Method = 'static'? 'async'? ('get' | 'set' | '*')? PropertyName Params Block
Decorator = '@' name ('.' name)* Arguments?
JsxStart = JsxName
"

/-- Rules of TypeScript. -/
def typedRules : String := "
Export = 'export' ('*' From | '*' 'as' ModuleName From | 'type'? ExportClause From?
    | 'as' 'namespace' name) Semi | 'export' ImportAlias | 'export' '=' Expr SemiOp
  | Decorator* 'export' (Declaration | 'default' (Declaration | Expr SemiOp))
ExportClause = lb (ExportItem (',' ExportItem)* ','?)? rb
ExportItem = ('type' | 'typeof')? ModuleName ('as' ModuleName)?
ModuleName = name | string | Reserved
From = 'from' string ImportAttribute?
Import = 'import' ('type' | 'typeof')? (ImportClause From | string ImportAttribute?
    | ImportRequire) Semi
ImportRequire = name '=' 'require' '(' string ')'
ImportAlias = 'import' name '=' name ('.' name)* Semi
ImportAttribute = 'with' Object
ImportClause = '*' 'as' name | NamedImports | ImportName (',' ('*' 'as' name | NamedImports))?
ImportName = name | 'type'
NamedImports = lb (ImportItem (',' ImportItem)* ','?)? rb
ImportItem = ('type' | 'typeof')? (ModuleName | ModuleName 'as' (name | Reserved))
Declaration = FunctionSignature | FunctionDecl | ClassDecl | Module | Variables | Enum | Interface
  | TypeAlias | ImportAlias
  | 'declare' (Declaration | 'global' Block | 'module' '.' name ':' Type Semi)
FunctionSignature = 'async'? 'function' '*'? name CallSignature (Semi | semisig)
Module = ('module' | 'namespace') (string | name ('.' name)*) Block?
Enum = 'const'? 'enum' name lb (EnumItem (',' EnumItem)* ','?)? rb
EnumItem = PropertyName ('=' Expr)?
Interface = 'interface' name TypeParams? ('extends' Type (',' Type)*)? ObjectType
TypeAlias = 'type' name TypeParams? '=' Type Semi
Declarator = Binding TypeAnnotation? ('=' Expr)? | name '!' TypeAnnotation
LastDeclarator = Binding TypeAnnotation? Semi | Binding TypeAnnotation? '=' Expr SemiOp
  | name '!' TypeAnnotation Semi
Catch = 'catch' ('(' Binding TypeAnnotation? ')')? Block
ParenExpr = '(' Expressions ')' | '(' Expr TypeAnnotation ')'
Expr = Unit | Expr BinaryOp Unit | Expr '?' Expr ':' Unit | private 'in' Unit
  | Expr ('as' | 'satisfies') Type
Post = Primary | Member | Post '?.'? TypeArguments? Arguments | Post TypeArguments? Template
  | Post '++' | Post '--' | NonNull | Post TypeArguments
NonNull = Post '!'
Member = Post ('.' | '?.') (name | private) | Post '?.'? '[' Expressions ']'
Lhs = name | Reserved | Member | ObjectPattern | ArrayPattern | NonNull
Assign = 'using'? (Lhs | ParenExpr) '=' Expr
  | (name | Reserved | Member | ParenExpr | NonNull) AssignOp Expr
Reserved = 'get' | 'set' | 'async' | 'static' | 'export' | 'let' | 'declare' | 'namespace' | 'type'
  | 'public' | 'private' | 'protected' | 'override' | 'readonly' | 'module' | 'new'
FunctionExpr = 'async'? 'function' '*'? name? CallSignature Block
FunctionDecl = 'async'? 'function' '*'? name CallSignature Block
Param = Decorator* Access? 'override'? 'readonly'? (Pattern | 'this') '?'?
    TypeAnnotation? ('=' Expr)?
Access = 'public' | 'private' | 'protected'
CallSignature = TypeParams? Params ReturnType?
ReturnType = TypeAnnotation | ':' Predicate | ':' Asserts
Predicate = (name | 'this') 'is' Type
Asserts = 'asserts' (Predicate | name | 'this')
Arrow = 'async'? (name | Reserved | CallSignature) '=>' (Expr | Block)
ClassExpr = Decorator* 'class' name? TypeParams? Heritage? ClassBody
ClassDecl = Decorator* 'abstract'? 'class' name TypeParams? Heritage? ClassBody
Heritage = Extends Implements? | Implements
Extends = 'extends' Expr (',' Expr)*
Implements = 'implements' Type (',' Type)*
ClassBody = lb ClassItem* rb
ClassItem = Decorator | Method Semi? | MethodSignature (semisig | ',' | Semi) | 'static' Block
  | AbstractMethod (Semi | ',') | IndexSignature (Semi | ',') | Field | ';'
Field = FieldWord* PropertyName ('?' | '!')? TypeAnnotation? (Semi | ',' | '=' Expr (SemiOp | ','))
FieldWord = 'declare' | Access | 'static' | 'override' | 'readonly' | 'abstract' | 'accessor'
Method = MethodWord* ('get' | 'set' | '*')? PropertyName '?'? CallSignature Block
MethodWord = Access | 'static' | 'override' | 'readonly' | 'async'
MethodSignature = MethodWord* ('get' | 'set' | '*')? PropertyName '?'? CallSignature
AbstractMethod = Access? 'abstract' 'override'? ('get' | 'set' | '*')? PropertyName '?'?
    CallSignature
Decorator = '@' name ('.' name)* TypeArguments? Arguments? | '@' '(' Expr ')'
TypeAnnotation = ':' Type
TypeParams = '<' TypeParam (',' TypeParam)* ','? '>'
TypeParam = 'const'? name (('extends' | ':') Type)? ('=' Type)?
TypeArguments = '<' Type (',' Type)* ','? '>'
Type = ('|' | '&')? TypeUnit (('|' | '&') TypeUnit)* | Type 'extends' Type '?' Type ':' Type
TypeUnit = PrimaryType | 'readonly' TypeUnit | 'keyof' TypeUnit | 'unique' TypeUnit
  | 'infer' name ('extends' Type)? | FunctionType | 'abstract'? 'new' TypeParams? Params '=>' Type
  | ImportMember | ImportCall
ImportMember = ('import' | ImportMember | ImportCall) '.' (name | private)
ImportCall = ('import' | ImportMember) Arguments
FunctionType = TypeParams? Params '=>' (Type | Predicate | Asserts)
PrimaryType = '(' Type ')' | TypeName TypeArguments? | ObjectType | PrimaryType '[' ']'
  | PrimaryType '[' Type ']' | Tuple | 'typeof' TypeQuery | 'this' | '?' PrimaryType | '*'
  | '-'? number | string | TypeTemplate
TypeName = (name | Reserved) ('.' name)*
TypeQuery = (name | Reserved | 'this' | 'import' Arguments) ('.' (name | private))* TypeArguments?
TypeTemplate = tick (chars | hole Type rb)* tick
Tuple = '[' (TupleItem (',' TupleItem)* ','?)? ']'
TupleItem = Type '?'? | '...' Type | '...'? name '?'? ':' Type
ObjectType = lb (',' | ';')? (TypeMember (TypeSep TypeMember)* TypeSep?)? rb
TypeSep = ',' | Semi
TypeMember = PropertySignature | CallSignature
  | 'abstract'? 'new' TypeParams? Params TypeAnnotation? | IndexSignature | MethodSignature
PropertySignature = FieldWord* PropertyName '?'? TypeAnnotation?
IndexSignature = (('-' | '+')? 'readonly')?
    '[' (name ':' Type | name 'in' Type ('as' Type)?) ']' MappedAnnotation
MappedAnnotation = TypeAnnotation | '-?:' Type | '+?:' Type | '?:' Type
JsxStart = JsxName | name ('.' name)* TypeArguments
"

/-- Rules of expressions with tags of a page. -/
def jsxRules : String := "
Unit = PrefixOp Unit | Post | Assign | Arrow | Yield
Primary = ParenExpr | name | Reserved | 'this' | 'super' | number | string | Template | regex
  | 'true' | 'false' | 'null' | Object | Array | FunctionExpr | ClassExpr | 'new' Primary
  | 'new' '.' name | 'import' Arguments | 'import' '.' name | Jsx
"

/-- Rules of expressions with type assertions in angle brackets. -/
def assertionRules : String := "
Unit = PrefixOp Unit | Post | Assign | Arrow | Yield | '<' Type '>' Unit
Primary = ParenExpr | name | Reserved | 'this' | 'super' | number | string | Template | regex
  | 'true' | 'false' | 'null' | Object | Array | FunctionExpr | ClassExpr | 'new' Primary
  | 'new' '.' name | 'import' Arguments | 'import' '.' name
"

/-- JavaScript, with tags of a page. -/
def javascript : Dialect := .of (readGrammar named (commonRules ++ untypedRules)) untyped

/-- TypeScript with type assertions. -/
def typescript : Dialect :=
  .of (readGrammar named (commonRules ++ typedRules ++ assertionRules)) typed

/-- TypeScript with tags of a page. -/
def tsx : Dialect := .of (readGrammar named (commonRules ++ typedRules ++ jsxRules)) typed

end ActionItems.Syntax.Ecmascript
