import Formula.Expr.Build
import Formula.Expr.Evaluate
import Formula.Expr.Variables

/-!
# From text to value

A text is compiled once and can then be evaluated in any context, or evaluated while asking for
the value of each variable it mentions.
-/

namespace Formula

/-- The expression that a parse tree stands for. -/
def Expr.build (tree : ParseTree) : Logged BuildError Expr := do
  let expr ← Logged.lift (Expr.ofParseTree? tree)
  Logged.log (.built expr)
  return expr

/-- The expression that a text stands for. -/
def compile (source : String) : Logged Error Expr := do
  let lexemes ← Logged.lift ((Token.lex source).mapError fun error ↦ .parse (.lexical error))
  Logged.log (.tokenized lexemes.length)
  let tree ← Logged.lift ((ParseTree.ofLexemes lexemes).mapError .parse)
  (Expr.build tree).mapError .build

/-- The value of a text in a context. -/
def evaluateIn (context : Context) (source : String) : Logged Error Float := do
  let expr ← compile source
  (expr.evaluate context).mapError .evaluation

/-- The names for which an expression needs a value, each once, in the order of their first
occurrences. -/
def Expr.unknowns (expr : Expr) : List String :=
  expr.uniqueVariables.filter fun name ↦ !isConstant name

/-- The value of a text, asking `supply` for the value of each unknown in turn. -/
def evaluateWith {m : Type → Type} [Monad m] (supply : String → ExceptT Error m Float)
    (source : String) : ExceptT Error m Float := do
  let expr ← liftExcept (compile source).result
  let context ← Context.empty.fill supply expr.unknowns
  liftExcept ((expr.value context).mapError .evaluation)
where
  liftExcept {α : Type} (result : Except Error α) : ExceptT Error m α := ExceptT.mk (pure result)

end Formula
