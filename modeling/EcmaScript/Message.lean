import EcmaScript.Text

/-!
The catalogue of complaints about a program. A template may hold `%s` where the offending text goes.
-/

namespace EcmaScript

inductive Message where
  | unexpectedToken | unexpectedNumber | unexpectedString | unexpectedIdentifier
  | unexpectedReserved | unexpectedTemplate | unexpectedEnd | newlineAfterThrow | invalidRegExp
  | unterminatedRegExp | invalidAssignmentTarget | invalidForInTarget | multipleDefaults
  | noCatchOrFinally | unknownLabel | redeclaration | illegalContinue | illegalBreak
  | illegalReturn | strictWith | strictCatchVariable | strictVariableName | strictParameterName
  | strictParameterTwice | strictFunctionName | strictOctalLiteral | strictDelete
  | strictAssignmentTarget | strictPostfixTarget | strictPrefixTarget | strictReservedWord
  | templateOctalLiteral | parameterAfterRest | defaultRest | objectPatternAsRest
  | duplicateProto | constructorAccessor | duplicateConstructor | staticPrototype
  | missingFromClause | noAsAfterImport | invalidModuleSpecifier | illegalImport | illegalExport
  deriving DecidableEq, Repr

namespace Message

def template : Message → String
  | unexpectedToken => "Unexpected token %s"
  | unexpectedNumber => "Unexpected number"
  | unexpectedString => "Unexpected string"
  | unexpectedIdentifier => "Unexpected identifier"
  | unexpectedReserved => "Unexpected reserved word"
  | unexpectedTemplate => "Unexpected quasi %s"
  | unexpectedEnd => "Unexpected end of input"
  | newlineAfterThrow => "Illegal newline after throw"
  | invalidRegExp => "Invalid regular expression"
  | unterminatedRegExp => "Invalid regular expression: missing /"
  | invalidAssignmentTarget => "Invalid left-hand side in assignment"
  | invalidForInTarget => "Invalid left-hand side in for-in"
  | multipleDefaults => "More than one default clause in switch statement"
  | noCatchOrFinally => "Missing catch or finally after try"
  | unknownLabel => "Undefined label '%s'"
  | redeclaration => "%s '%s' has already been declared"
  | illegalContinue => "Illegal continue statement"
  | illegalBreak => "Illegal break statement"
  | illegalReturn => "Illegal return statement"
  | strictWith => "Strict mode code may not include a with statement"
  | strictCatchVariable => "Catch variable may not be eval or arguments in strict mode"
  | strictVariableName => "Variable name may not be eval or arguments in strict mode"
  | strictParameterName => "Parameter name eval or arguments is not allowed in strict mode"
  | strictParameterTwice => "Strict mode function may not have duplicate parameter names"
  | strictFunctionName => "Function name may not be eval or arguments in strict mode"
  | strictOctalLiteral => "Octal literals are not allowed in strict mode."
  | strictDelete => "Delete of an unqualified identifier in strict mode."
  | strictAssignmentTarget => "Assignment to eval or arguments is not allowed in strict mode"
  | strictPostfixTarget =>
    "Postfix increment/decrement may not have eval or arguments operand in strict mode"
  | strictPrefixTarget =>
    "Prefix increment/decrement may not have eval or arguments operand in strict mode"
  | strictReservedWord => "Use of future reserved word in strict mode"
  | templateOctalLiteral => "Octal literals are not allowed in template strings."
  | parameterAfterRest => "Rest parameter must be last formal parameter"
  | defaultRest => "Unexpected token ="
  | objectPatternAsRest => "Unexpected token \x7b"
  | duplicateProto => "Duplicate __proto__ fields are not allowed in object literals"
  | constructorAccessor => "Class constructor may not be an accessor"
  | duplicateConstructor => "A class may only have one constructor"
  | staticPrototype => "Classes may not have static property named prototype"
  | missingFromClause | noAsAfterImport | invalidModuleSpecifier | illegalImport | illegalExport =>
    "Unexpected token"

def text (m : Message) : Text :=
  Text.ofString m.template

/-- The name under which the catalogue lists a message. -/
def name : Message → String
  | unexpectedToken => "UnexpectedToken"
  | unexpectedNumber => "UnexpectedNumber"
  | unexpectedString => "UnexpectedString"
  | unexpectedIdentifier => "UnexpectedIdentifier"
  | unexpectedReserved => "UnexpectedReserved"
  | unexpectedTemplate => "UnexpectedTemplate"
  | unexpectedEnd => "UnexpectedEOS"
  | newlineAfterThrow => "NewlineAfterThrow"
  | invalidRegExp => "InvalidRegExp"
  | unterminatedRegExp => "UnterminatedRegExp"
  | invalidAssignmentTarget => "InvalidLHSInAssignment"
  | invalidForInTarget => "InvalidLHSInForIn"
  | multipleDefaults => "MultipleDefaultsInSwitch"
  | noCatchOrFinally => "NoCatchOrFinally"
  | unknownLabel => "UnknownLabel"
  | redeclaration => "Redeclaration"
  | illegalContinue => "IllegalContinue"
  | illegalBreak => "IllegalBreak"
  | illegalReturn => "IllegalReturn"
  | strictWith => "StrictModeWith"
  | strictCatchVariable => "StrictCatchVariable"
  | strictVariableName => "StrictVarName"
  | strictParameterName => "StrictParamName"
  | strictParameterTwice => "StrictParamDupe"
  | strictFunctionName => "StrictFunctionName"
  | strictOctalLiteral => "StrictOctalLiteral"
  | strictDelete => "StrictDelete"
  | strictAssignmentTarget => "StrictLHSAssignment"
  | strictPostfixTarget => "StrictLHSPostfix"
  | strictPrefixTarget => "StrictLHSPrefix"
  | strictReservedWord => "StrictReservedWord"
  | templateOctalLiteral => "TemplateOctalLiteral"
  | parameterAfterRest => "ParameterAfterRestParameter"
  | defaultRest => "DefaultRestParameter"
  | objectPatternAsRest => "ObjectPatternAsRestParameter"
  | duplicateProto => "DuplicateProtoProperty"
  | constructorAccessor => "ConstructorSpecialMethod"
  | duplicateConstructor => "DuplicateConstructor"
  | staticPrototype => "StaticPrototype"
  | missingFromClause => "MissingFromClause"
  | noAsAfterImport => "NoAsAfterImportNamespace"
  | invalidModuleSpecifier => "InvalidModuleSpecifier"
  | illegalImport => "IllegalImportDeclaration"
  | illegalExport => "IllegalExportDeclaration"

def all : List Message :=
  [unexpectedToken, unexpectedNumber, unexpectedString, unexpectedIdentifier, unexpectedReserved,
   unexpectedTemplate, unexpectedEnd, newlineAfterThrow, invalidRegExp, unterminatedRegExp,
   invalidAssignmentTarget, invalidForInTarget, multipleDefaults, noCatchOrFinally, unknownLabel,
   redeclaration, illegalContinue, illegalBreak, illegalReturn, strictWith, strictCatchVariable,
   strictVariableName, strictParameterName, strictParameterTwice, strictFunctionName,
   strictOctalLiteral, strictDelete, strictAssignmentTarget, strictPostfixTarget,
   strictPrefixTarget, strictReservedWord, templateOctalLiteral, parameterAfterRest, defaultRest,
   objectPatternAsRest, duplicateProto, constructorAccessor, duplicateConstructor, staticPrototype,
   missingFromClause, noAsAfterImport, invalidModuleSpecifier, illegalImport, illegalExport]

end Message

end EcmaScript
