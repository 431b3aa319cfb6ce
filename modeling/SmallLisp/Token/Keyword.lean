/-!
# Keywords

The set of keywords is closed, and each has a canonical name in lowercase.  A keyword in a
source text may be written in any case; what it means does not depend on that, so everything
behind the scanner speaks of keywords and not of their spellings.
-/

namespace SmallLisp

/-- **A keyword of the language**: arithmetic, comparison, tests of a value's type, logic,
lists, evaluation, and the heads of the special forms. -/
inductive Keyword where
  | plus | minus | times | divide
  | equal | nonEqual | less | lessEq | greater | greaterEq
  | isInt | isReal | isBool | isNull | isAtom | isList
  | and | or | xor | not
  | head | tail | cons
  | eval
  | quote | setq | func | lambda | prog | cond | whileLoop
  | returnWith | breakLoop
  | value
  deriving DecidableEq, Repr

namespace Keyword

/-- The canonical name, in lowercase. -/
def word : Keyword → String
  | plus => "plus"
  | minus => "minus"
  | times => "times"
  | divide => "divide"
  | equal => "equal"
  | nonEqual => "nonequal"
  | less => "less"
  | lessEq => "lesseq"
  | greater => "greater"
  | greaterEq => "greatereq"
  | isInt => "isint"
  | isReal => "isreal"
  | isBool => "isbool"
  | isNull => "isnull"
  | isAtom => "isatom"
  | isList => "islist"
  | and => "and"
  | or => "or"
  | xor => "xor"
  | not => "not"
  | head => "head"
  | tail => "tail"
  | cons => "cons"
  | eval => "eval"
  | quote => "quote"
  | setq => "setq"
  | func => "func"
  | lambda => "lambda"
  | prog => "prog"
  | cond => "cond"
  | whileLoop => "while"
  | returnWith => "return"
  | breakLoop => "break"
  | value => "value"

/-- The name under which a listing of tokens shows the kind of a keyword. -/
def label : Keyword → String
  | plus => "Plus"
  | minus => "Minus"
  | times => "Times"
  | divide => "Divide"
  | equal => "Equal"
  | nonEqual => "NonEqual"
  | less => "Less"
  | lessEq => "LessEq"
  | greater => "Greater"
  | greaterEq => "GreaterEq"
  | isInt => "IsInt"
  | isReal => "IsReal"
  | isBool => "IsBool"
  | isNull => "IsNull"
  | isAtom => "IsAtom"
  | isList => "IsList"
  | and => "And"
  | or => "Or"
  | xor => "Xor"
  | not => "Not"
  | head => "Head"
  | tail => "Tail"
  | cons => "Cons"
  | eval => "Eval"
  | quote => "Quote"
  | setq => "Setq"
  | func => "Func"
  | lambda => "Lambda"
  | prog => "Prog"
  | cond => "Cond"
  | whileLoop => "While"
  | returnWith => "Return"
  | breakLoop => "Break"
  | value => "Value"

/-- All keywords, in the order in which the language lists them. -/
def all : List Keyword :=
  [.plus, .minus, .times, .divide, .equal, .nonEqual, .less, .lessEq, .greater, .greaterEq,
    .isInt, .isReal, .isBool, .isNull, .isAtom, .isList, .and, .or, .xor, .not, .head, .tail,
    .cons, .eval, .quote, .setq, .func, .lambda, .prog, .cond, .whileLoop, .returnWith,
    .breakLoop, .value]

/-- The keywords that head a special form, with a grammar of its own for what follows. -/
def specialForms : List Keyword := [quote, setq, cond, func, lambda, prog, whileLoop]

/-- The keywords that name a built-in function, whose calls take any number of arguments. -/
def builtInFunctions : List Keyword :=
  [plus, minus, times, divide, equal, nonEqual, less, lessEq, greater, greaterEq, isInt, isReal,
    isBool, isNull, isAtom, isList, and, or, xor, not, head, tail, cons, eval, value, returnWith,
    breakLoop]

/-- The keyword with the given canonical name. -/
def ofName? (name : String) : Option Keyword := all.find? fun k => k.word == name

theorem mem_all (k : Keyword) : k ∈ all := by
  cases k <;> decide

/-- Every keyword heads a special form or names a function. -/
theorem mem_specialForms_or_mem_builtInFunctions (k : Keyword) :
    k ∈ specialForms ∨ k ∈ builtInFunctions := by
  cases k <;> decide

theorem ofName?_word (k : Keyword) : ofName? k.word = some k := by
  cases k <;> decide

theorem word_of_ofName? {name : String} {k : Keyword} (h : ofName? name = some k) :
    k.word = name := by
  simpa using List.find?_some h

end Keyword
end SmallLisp
