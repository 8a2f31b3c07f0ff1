/-!
# Faults

What can go wrong in reading and evaluating, by cause. A cause carries the texts that its message
shows. A session reports most faults as its answer (`Fault.Kind.isReported`); the others end it.
-/

namespace SnapLisp

inductive ReadFault
  | illegalCharacter (c : Char)
  | malformedNumeral (numeral : String)
deriving DecidableEq

inductive Fault
  | unreadable (fault : ReadFault)
  /-- A key that is no symbol. -/
  | notDefinable (key : String)
  /-- A key without a value, with all bindings at that time. -/
  | unbound (key bindings : String)
  | emptyForm
  | notEvaluable (form : String)
  | notApplicable (head : String)
  | setqWithoutTarget
  | setqTarget
  | setqWithoutValue
  | defunLength
  | defunName (name : String)
  | defunParams (params : String)
  | defunParam (param : String)
  | argumentCount
  | notNumber (argument : String)
  | noNumbers
  /-- An integer that rounds to no finite binary64 number. -/
  | integerTooLarge
  | noSuchBuiltin
  /-- More evaluations inside one another than the limit allows. -/
  | depthExceeded
deriving DecidableEq

namespace Fault

inductive Kind
  | wrongSyntax
  | invalidSymbol
  | unboundSymbol
  | wrongArity
  | wrongType
  | invalidExpression
  | malformedNumeral
  | overflow
  | missingIndex
  | depth
deriving DecidableEq

/-- Whether a session answers with the fault's message and goes on. -/
def Kind.isReported : Kind → Bool
  | wrongSyntax | invalidSymbol | unboundSymbol | wrongArity | wrongType | invalidExpression => true
  | malformedNumeral | overflow | missingIndex | depth => false

def kind : Fault → Kind
  | unreadable (.illegalCharacter _) => .wrongSyntax
  | unreadable (.malformedNumeral _) => .malformedNumeral
  | notDefinable _ | setqTarget | defunName _ => .invalidSymbol
  | unbound _ _ => .unboundSymbol
  | setqWithoutTarget | setqWithoutValue | defunLength | argumentCount | noNumbers => .wrongArity
  | notApplicable _ | defunParams _ | defunParam _ | notNumber _ => .wrongType
  | emptyForm | notEvaluable _ => .invalidExpression
  | integerTooLarge => .overflow
  | noSuchBuiltin => .missingIndex
  | depthExceeded => .depth

def message : Fault → String
  | unreadable (.illegalCharacter c) => "invalid token: " ++ c.toString
  | unreadable (.malformedNumeral numeral) =>
    "could not convert string to float: '" ++ numeral ++ "'"
  | notDefinable key => "Cannot define " ++ key ++ " as a symbol"
  | unbound key bindings => "not found symbol: " ++ key ++ ", env: " ++ bindings
  | emptyForm => "cannot evaluate empty list"
  | notEvaluable form => "invalid expr: " ++ form
  | notApplicable head => "cannot apply non-function: " ++ head
  | setqWithoutTarget => "expected first arg"
  | setqTarget => "first arg must be symbol"
  | setqWithoutValue => "expected second arg"
  | defunLength => "unexpected function definition"
  | defunName name => "invalid symbol: " ++ name
  | defunParams params => "invalid list: " ++ params
  | defunParam param => param ++ " is not symbol"
  | argumentCount => "number of args and lambda's arg is not same"
  | notNumber argument => argument ++ " is not number"
  | noNumbers => "expected at least one number"
  | integerTooLarge => "int too large to convert to float"
  | noSuchBuiltin => "list index out of range"
  | depthExceeded => "evaluation too deep"

end Fault

end SnapLisp
