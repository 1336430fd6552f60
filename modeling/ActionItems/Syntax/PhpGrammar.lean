import ActionItems.Syntax.PhpLexis

/-! # The grammar of PHP

Operators are not ranked, since only the shape of a source counts. -/

namespace ActionItems.Syntax.Php

/-- The rules. -/
def phpRules : String := "
Program = page? (opentag Statement*)?
Statement = ';' | Block | name ':' | Expr Semi | If | Switch | While | Do | For | Foreach
  | 'goto' name Semi | 'continue' Expr? Semi | 'break' Expr? Semi | 'return' Expr? Semi | Try
  | Declare | 'echo' Exprs Semi | 'exit' ('(' Expr? ')')? Semi | 'unset' '(' Exprs ','? ')' Semi
  | Attributes? Const | Function | Class | Interface | Trait | Enum | Namespace | Use
  | 'global' Variable (',' Variable)* Semi | 'static' StaticVariable (',' StaticVariable)* Semi
Semi = close | ';'
Block = lb Statement* rb
Paren = '(' Expr ')'
If = 'if' Paren Statement ('elseif' Paren Statement)* ('else' Statement)?
  | 'if' Paren ':' Statement* ('elseif' Paren ':' Statement*)* ('else' ':' Statement*)? 'endif' Semi
Switch = 'switch' Paren (lb ';'? Case* rb | ':' Case* 'endswitch' Semi)
Case = ('case' Expr | 'default') (':' | ';') Statement*
While = 'while' Paren (Statement | ':' Statement* 'endwhile' Semi)
Do = 'do' Statement 'while' Paren Semi
For = 'for' '(' Exprs? ';' Exprs? ';' Exprs? ')' (Statement | ':' Statement* 'endfor' Semi)
Foreach = 'foreach' '(' Expr 'as' (Expr '=>')? '&'? Expr ')'
    (Statement | ':' Statement* 'endforeach' Semi)
Try = 'try' Block ('catch' '(' Type variable? ')' Block | 'finally' Block)+
Declare = 'declare' '(' name '=' Expr (',' name '=' Expr)* ')'
    (Statement | ':' Statement* 'enddeclare' Semi | Semi)
StaticVariable = variable ('=' Expr)?
Const = Modifier* 'const' Type? ConstItem (',' ConstItem)* Semi
ConstItem = name '=' Expr
Function = Attributes? 'function' '&'? name Params ReturnType? Block
Class = Attributes? ('final' | 'abstract' | 'readonly')* 'class' name Heritage ClassBody
Heritage = ('extends' Names)? ('implements' Names)?
Interface = Attributes? 'interface' name ('extends' Names)? ClassBody
Trait = Attributes? 'trait' name ClassBody
Enum = Attributes? 'enum' name (':' Type)? ('implements' Names)? ClassBody
ClassBody = lb ClassItem* rb
ClassItem = Attributes? Const | Property | Method | TraitUse | EnumCase
Property = Attributes? Modifier+ Type? PropertyItem (',' PropertyItem)* (Semi | Hooks)
PropertyItem = variable ('=' Expr)?
Hooks = lb Hook* rb
Hook = Attributes? 'final'? '&'? name Params? (Semi | Block | '=>' Expr Semi)
Method = Attributes? Modifier* 'function' '&'? name Params ReturnType? (Block | Semi)
Modifier = 'var' | 'public' | 'protected' | 'private' | 'static' | 'final' | 'abstract' | 'readonly'
TraitUse = 'use' Names (Semi | lb (TraitRule Semi)* rb)
TraitRule = QName ('::' name)? ('insteadof' Names | 'as' Modifier | 'as' Modifier? name)
EnumCase = Attributes? 'case' name ('=' Expr)? Semi
Namespace = 'namespace' (NsName Semi | NsName? Block)
Use = 'use' ('function' | 'const')? (UseItem (',' UseItem)*
    | '\\'? NsName '\\' lb UseItem (',' UseItem)* ','? rb) Semi
UseItem = ('function' | 'const')? QName ('as' name)?
NsName = name ('\\' name)*
QName = '\\'? NsName | 'namespace' ('\\' name)+
Names = QName (',' QName)*
Type = '?'? TypeUnit (('|' | '&') TypeUnit)*
TypeUnit = QName | '(' Type ')'
Params = '(' (Param (',' Param)* ','?)? ')'
Param = Attributes? Modifier* Type? '&'? '...'? variable ('=' Expr)? Hooks?
ReturnType = ':' Type
Attributes = ('#[' Attribute (',' Attribute)* ','? ']')+
Attribute = QName Arguments?
Exprs = Expr (',' Expr)*
Expr = Unit | Expr BinaryOp Unit | Expr '?' Expr? ':' Unit
BinaryOp = '??' | 'instanceof' | 'and' | 'or' | 'xor' | '||' | '&&' | '|' | '^' | '&' | '==' | '!='
  | '<>' | '===' | '!==' | '<' | '>' | '<=' | '>=' | '<=>' | '<<' | '>>' | '+' | '-' | '.' | '*'
  | '/' | '%' | '**'
AssignOp = '**=' | '*=' | '/=' | '%=' | '+=' | '-=' | '.=' | '<<=' | '>>=' | '&=' | '^=' | '|='
  | '??='
PrefixOp = '+' | '-' | '~' | '!' | '@' | '++' | '--' | 'clone' | 'print' | 'include'
  | 'include_once' | 'require' | 'require_once' | 'throw' | Cast
Cast = '(' ('array' | 'binary' | 'bool' | 'boolean' | 'double' | 'int' | 'integer' | 'float'
    | 'object' | 'real' | 'string' | 'unset') ')'
Unit = PrefixOp Unit | Post | Post '=' '&'? Expr | Post AssignOp Expr | Lambda | Yield
Yield = 'yield' | 'yield' Expr ('=>' Expr)? | 'yield' 'from' Expr
Post = Primary | Post '[' Expr? ']' | Post ('->' | '?->') MemberName | Post '::' MemberName
  | Post Arguments | Post '++' | Post '--'
MemberName = name | Variable | lb Expr rb
Variable = variable | '$' Variable | '$' lb Expr rb
Primary = Variable | number | string | quoted | shell | document | QName | Paren | Array | Closure
  | Match | New | 'static'
Array = '[' ArrayItem? (',' ArrayItem?)* ']'
  | ('array' | 'list') '(' ArrayItem? (',' ArrayItem?)* ')'
ArrayItem = '&'? Expr | Expr '=>' '&'? Expr | '...' Expr
New = 'new' Post | 'new' Attributes? 'readonly'? 'class' Arguments? Heritage ClassBody
Closure = Attributes? 'static'? 'function' '&'? Params Uses? ReturnType? Block
Uses = 'use' '(' ('&'? variable (',' '&'? variable)* ','?)? ')'
Lambda = Attributes? 'static'? 'fn' '&'? Params ReturnType? '=>' Expr
Match = 'match' Paren lb (MatchArm (',' MatchArm)* ','?)? rb
MatchArm = (Exprs ','? | 'default') '=>' Expr
Arguments = '(' (Argument (',' Argument)* ','?)? ')'
Argument = (name ':')? '...'? Expr | '...'
"

/-- PHP inside of a page. -/
def php : Dialect := .of (readGrammar named phpRules) lexis

end ActionItems.Syntax.Php
