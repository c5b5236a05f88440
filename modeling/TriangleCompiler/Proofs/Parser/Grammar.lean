import TriangleCompiler.Program
import TriangleCompiler.Token

/-! The grammar of programs. A derivation relates a list of tokens to the tree that it makes up, so the
    productions are read as rules about trees: operators group from the left, brackets add no node, and a
    sequence of one is its element. The trees here are shapes: they have no numbers, no places and no
    error nodes. -/

namespace TriangleCompiler

/-! ### Shapes -/

namespace Shape

mutual

/-- The shape of an expression. -/
inductive Expr where
  | int (spelling : String)
  | char (spelling : String)
  | name (spelling : String)
  | call (callee : String) (argument : Argument)
  | unary (op : String) (operand : Expr)
  | binary (op : String) (lhs rhs : Expr)

/-- The shape of an argument. -/
inductive Argument where
  | blank
  | value (expr : Expr)
  | var (name : String)

end

/-- The shape of one declaration. -/
inductive SingleDeclaration where
  | const (name : String) (value : Expr)
  | var (name type : String)

/-- The shape of what stands between `let` and `in`. -/
inductive Declaration where
  | single (declaration : SingleDeclaration)
  | sequential (parts : List SingleDeclaration)

/-- The shape of a command. -/
inductive Command where
  | assign (target : String) (value : Expr)
  | blank
  | call (callee : String) (argument : Argument)
  | ifThen (condition : Expr) (body : Command)
  | ifElse (condition : Expr) (positive negative : Command)
  | while_ (condition : Expr) (body : Command)
  | for_ (counter : String) (first last : Expr) (body : Command)
  | let_ (declaration : Declaration) (body : Command)
  | sequential (parts : List Command)

/-- The operators and operands of `rest`, one after the other, behind the operand `first`. -/
def Expr.chain (first : Expr) (rest : List (String × Expr)) : Expr :=
  rest.foldl (fun lhs (op, rhs) => .binary op lhs rhs) first

/-- A sequence of declarations; one alone is itself. -/
def Declaration.sequence (first : SingleDeclaration) : List SingleDeclaration → Declaration
  | [] => .single first
  | rest => .sequential (first :: rest)

/-- A sequence of commands; one alone is itself. -/
def Command.sequence (first : Command) : List Command → Command
  | [] => first
  | rest => .sequential (first :: rest)

/-- No sequence of declarations has fewer than two parts. -/
def Declaration.NoShortSequence : Declaration → Prop
  | .single _ => True
  | .sequential parts => 2 ≤ parts.length

mutual

/-- No sequence of commands or declarations in a command has fewer than two parts. -/
def Command.NoShortSequence : Command → Prop
  | .assign _ _ | .blank | .call _ _ => True
  | .ifThen _ body | .while_ _ body | .for_ _ _ _ body => body.NoShortSequence
  | .ifElse _ positive negative => positive.NoShortSequence ∧ negative.NoShortSequence
  | .let_ declaration body => declaration.NoShortSequence ∧ body.NoShortSequence
  | .sequential parts => 2 ≤ parts.length ∧ NoShortSequenceIn parts

/-- No sequence in any of the commands has fewer than two parts. -/
def NoShortSequenceIn : List Command → Prop
  | [] => True
  | c :: rest => c.NoShortSequence ∧ NoShortSequenceIn rest

end

end Shape

mutual

/-- The shape of an expression, if there is no error node in it. -/
def Expr.shape? : Expr → Option Shape.Expr
  | .int _ spelling => some (.int spelling)
  | .char _ spelling => some (.char spelling)
  | .name _ name => some (.name name.spelling)
  | .call _ callee argument => argument.shape?.map (.call callee.spelling)
  | .unary _ op operand => operand.shape?.map (.unary op.spelling)
  | .binary _ op lhs rhs => do pure (.binary op.spelling (← lhs.shape?) (← rhs.shape?))
  | .error _ => none

/-- The shape of an argument. -/
def Argument.shape? : Argument → Option Shape.Argument
  | .blank _ => some .blank
  | .value _ expr => expr.shape?.map .value
  | .var _ name => some (.var name.spelling)
  | .error _ => none

end

/-- The shape of one declaration. -/
def SingleDeclaration.shape? : SingleDeclaration → Option Shape.SingleDeclaration
  | .const _ name value => value.shape?.map (.const name.spelling)
  | .var _ name type => some (.var name.spelling type.name.spelling)
  | .error _ => none

/-- The shapes of declarations. -/
def declarationShapes? : List SingleDeclaration → Option (List Shape.SingleDeclaration)
  | [] => some []
  | d :: rest => do pure ((← d.shape?) :: (← declarationShapes? rest))

/-- The shape of what stands between `let` and `in`. -/
def Declaration.shape? : Declaration → Option Shape.Declaration
  | .single d => d.shape?.map .single
  | .sequential _ parts => (declarationShapes? parts).map .sequential

mutual

/-- The shape of a command. -/
def Command.shape? : Command → Option Shape.Command
  | .assign _ target value => value.shape?.map (.assign target.spelling)
  | .blank _ => some .blank
  | .call _ callee argument => argument.shape?.map (.call callee.spelling)
  | .ifThen _ condition body => do pure (.ifThen (← condition.shape?) (← body.shape?))
  | .ifElse _ condition positive negative => do
    pure (.ifElse (← condition.shape?) (← positive.shape?) (← negative.shape?))
  | .while_ _ condition body => do pure (.while_ (← condition.shape?) (← body.shape?))
  | .for_ _ counter first last body => do
    pure (.for_ counter.name.spelling (← first.shape?) (← last.shape?) (← body.shape?))
  | .let_ _ declaration body => do pure (.let_ (← declaration.shape?) (← body.shape?))
  | .sequential _ parts => (commandShapes? parts).map .sequential
  | .error _ => none

/-- The shapes of commands. -/
def commandShapes? : List Command → Option (List Shape.Command)
  | [] => some []
  | c :: rest => do pure ((← c.shape?) :: (← commandShapes? rest))

end

/-! ### Productions -/

namespace Grammar

mutual

/-- `expr ::= primary (OPERATOR primary)*` -/
inductive DerivesExpr : List Token → Shape.Expr → Prop where
  | chain {ts us : List Token} {first : Shape.Expr} {rest : List (String × Shape.Expr)} :
      DerivesPrimary ts first → DerivesOperands us rest → DerivesExpr (ts ++ us) (first.chain rest)

/-- `(OPERATOR primary)*` -/
inductive DerivesOperands : List Token → List (String × Shape.Expr) → Prop where
  | none : DerivesOperands [] []
  | more {op : Token} {ts us : List Token} {e : Shape.Expr} {rest : List (String × Shape.Expr)} :
      op.kind = .operator → DerivesPrimary ts e → DerivesOperands us rest →
      DerivesOperands (op :: (ts ++ us)) ((op.spelling, e) :: rest)

/-- `primary ::= INT | CHAR | ID ['(' param ')'] | OPERATOR primary | '(' expr ')'` -/
inductive DerivesPrimary : List Token → Shape.Expr → Prop where
  | int {t : Token} : t.kind = .intLiteral → DerivesPrimary [t] (.int t.spelling)
  | char {t : Token} : t.kind = .charLiteral → DerivesPrimary [t] (.char t.spelling)
  | name {t : Token} : t.kind = .identifier → DerivesPrimary [t] (.name t.spelling)
  | call {t l r : Token} {ts : List Token} {a : Shape.Argument} : t.kind = .identifier →
      l.kind = .leftBracket → DerivesArgument ts a → r.kind = .rightBracket →
      DerivesPrimary (t :: l :: (ts ++ [r])) (.call t.spelling a)
  | unary {op : Token} {ts : List Token} {e : Shape.Expr} : op.kind = .operator →
      DerivesPrimary ts e → DerivesPrimary (op :: ts) (.unary op.spelling e)
  | bracketed {l r : Token} {ts : List Token} {e : Shape.Expr} : l.kind = .leftBracket →
      DerivesExpr ts e → r.kind = .rightBracket → DerivesPrimary (l :: (ts ++ [r])) e

/-- `param ::= <empty> | var ID | expr` -/
inductive DerivesArgument : List Token → Shape.Argument → Prop where
  | blank : DerivesArgument [] .blank
  | var {v t : Token} : v.kind = .keyword .var → t.kind = .identifier →
      DerivesArgument [v, t] (.var t.spelling)
  | value {ts : List Token} {e : Shape.Expr} : DerivesExpr ts e → DerivesArgument ts (.value e)

end

/-- `single-declaration ::= const ID '~' expr | var ID ':' ID` -/
inductive DerivesSingleDeclaration : List Token → Shape.SingleDeclaration → Prop where
  | const {k name tilde : Token} {ts : List Token} {e : Shape.Expr} : k.kind = .keyword .const →
      name.kind = .identifier → tilde.kind = .tilde → DerivesExpr ts e →
      DerivesSingleDeclaration (k :: name :: tilde :: ts) (.const name.spelling e)
  | var {k name colon type : Token} : k.kind = .keyword .var → name.kind = .identifier →
      colon.kind = .colon → type.kind = .identifier →
      DerivesSingleDeclaration [k, name, colon, type] (.var name.spelling type.spelling)

/-- `(';' single-declaration)*` -/
inductive DerivesMoreDeclarations : List Token → List Shape.SingleDeclaration → Prop where
  | none : DerivesMoreDeclarations [] []
  | more {sep : Token} {ts us : List Token} {d : Shape.SingleDeclaration}
      {ds : List Shape.SingleDeclaration} : sep.kind = .semicolon → DerivesSingleDeclaration ts d →
      DerivesMoreDeclarations us ds → DerivesMoreDeclarations (sep :: (ts ++ us)) (d :: ds)

/-- `declaration ::= single-declaration (';' single-declaration)*` -/
inductive DerivesDeclaration : List Token → Shape.Declaration → Prop where
  | chain {ts us : List Token} {d : Shape.SingleDeclaration} {ds : List Shape.SingleDeclaration} :
      DerivesSingleDeclaration ts d → DerivesMoreDeclarations us ds →
      DerivesDeclaration (ts ++ us) (.sequence d ds)

mutual

/-- `command ::= single-command (';' single-command)*` -/
inductive DerivesCommand : List Token → Shape.Command → Prop where
  | chain {ts us : List Token} {c : Shape.Command} {cs : List Shape.Command} :
      DerivesSingleCommand ts c → DerivesMoreCommands us cs → DerivesCommand (ts ++ us) (.sequence c cs)

/-- `(';' single-command)*` -/
inductive DerivesMoreCommands : List Token → List Shape.Command → Prop where
  | none : DerivesMoreCommands [] []
  | more {sep : Token} {ts us : List Token} {c : Shape.Command} {cs : List Shape.Command} :
      sep.kind = .semicolon → DerivesSingleCommand ts c → DerivesMoreCommands us cs →
      DerivesMoreCommands (sep :: (ts ++ us)) (c :: cs)

/-- `single-command`: an assignment, a call, one of the compound commands, or nothing. -/
inductive DerivesSingleCommand : List Token → Shape.Command → Prop where
  | assign {name becomes : Token} {ts : List Token} {e : Shape.Expr} : name.kind = .identifier →
      becomes.kind = .becomes → DerivesExpr ts e →
      DerivesSingleCommand (name :: becomes :: ts) (.assign name.spelling e)
  | call {name l r : Token} {ts : List Token} {a : Shape.Argument} : name.kind = .identifier →
      l.kind = .leftBracket → DerivesArgument ts a → r.kind = .rightBracket →
      DerivesSingleCommand (name :: l :: (ts ++ [r])) (.call name.spelling a)
  | ifThen {k l r k₁ k₂ : Token} {ts us : List Token} {e : Shape.Expr} {c : Shape.Command} :
      k.kind = .keyword .if_ → l.kind = .leftBracket → DerivesExpr ts e → r.kind = .rightBracket →
      k₁.kind = .keyword .then_ → DerivesSingleCommand us c → k₂.kind = .keyword .endif →
      DerivesSingleCommand (k :: l :: (ts ++ r :: k₁ :: (us ++ [k₂]))) (.ifThen e c)
  | ifElse {k l r k₁ k₂ k₃ : Token} {ts us vs : List Token} {e : Shape.Expr} {c d : Shape.Command} :
      k.kind = .keyword .if_ → l.kind = .leftBracket → DerivesExpr ts e → r.kind = .rightBracket →
      k₁.kind = .keyword .then_ → DerivesSingleCommand us c → k₂.kind = .keyword .else_ →
      DerivesSingleCommand vs d → k₃.kind = .keyword .endif →
      DerivesSingleCommand (k :: l :: (ts ++ r :: k₁ :: (us ++ k₂ :: (vs ++ [k₃])))) (.ifElse e c d)
  | while_ {k l r k₁ : Token} {ts us : List Token} {e : Shape.Expr} {c : Shape.Command} :
      k.kind = .keyword .while_ → l.kind = .leftBracket → DerivesExpr ts e → r.kind = .rightBracket →
      k₁.kind = .keyword .do_ → DerivesSingleCommand us c →
      DerivesSingleCommand (k :: l :: (ts ++ r :: k₁ :: us)) (.while_ e c)
  | let_ {k k₁ : Token} {ts us : List Token} {d : Shape.Declaration} {c : Shape.Command} :
      k.kind = .keyword .let_ → DerivesDeclaration ts d → k₁.kind = .keyword .in_ →
      DerivesSingleCommand us c → DerivesSingleCommand (k :: (ts ++ k₁ :: us)) (.let_ d c)
  | begin_ {k k₁ : Token} {ts : List Token} {c : Shape.Command} : k.kind = .keyword .begin_ →
      DerivesCommand ts c → k₁.kind = .keyword .end_ → DerivesSingleCommand (k :: (ts ++ [k₁])) c
  | for_ {k name becomes k₁ k₂ k₃ : Token} {ts us vs : List Token} {e f : Shape.Expr}
      {c : Shape.Command} : k.kind = .keyword .for_ → name.kind = .identifier →
      becomes.kind = .becomes → DerivesExpr ts e → k₁.kind = .keyword .to_ → DerivesExpr us f →
      k₂.kind = .keyword .do_ → DerivesSingleCommand vs c → k₃.kind = .keyword .next →
      DerivesSingleCommand (k :: name :: becomes :: (ts ++ k₁ :: (us ++ k₂ :: (vs ++ [k₃]))))
        (.for_ name.spelling e f c)
  | blank : DerivesSingleCommand [] .blank

end

end Grammar

end TriangleCompiler
