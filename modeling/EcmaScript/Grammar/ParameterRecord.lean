import EcmaScript.Grammar.Function
import EcmaScript.Node.Attributes
import EcmaScript.Token.Attributes

/-!
Parameters gathered in a plain record. The record holds the parameters and their defaults, the set
of their names, and the same notes on what strict code forbids as `Formals`. A fault leaves the
record as far as it was changed.
-/

namespace EcmaScript

/-- A computation on a record. -/
abbrev RecordM := EStateM Fault Attributes

namespace ParameterRecord

/-- The attribute that has to be there. -/
def need (key : String) : RecordM Value := do
  match (← get).get? key with
  | some value => pure value
  | none => throw .missingKey

def put (key : String) (value : Value) : RecordM Unit :=
  modify fun record => record.set key value

/-- Names are kept with a mark in front. -/
def marked (name : Text) : Text :=
  0x24 :: name

/-- Whether the set of names has a name. -/
def hasName (name : Text) : RecordM Bool := do
  match ← need "paramSet" with
  | .record names => pure (names.any fun entry => Text.ofString entry.1 = marked name)
  | .list items =>
    pure (items.any fun item =>
      match item with
      | .text t => t = marked name
      | _ => false)
  | _ => throw .wrongType

/-- Adds a name to the set of names. -/
def addName (name : Text) : RecordM Unit := do
  match ← need "paramSet" with
  | .record names =>
    put "paramSet" (.record (Attributes.set ((marked name).toString?.getD "") (.bool true) names))
  | _ => throw .wrongType

/-- Notes what is wrong with a parameter. -/
def note (key : String) (blame : Value) (message : Message) : RecordM Unit := do
  put key blame
  put "message" (.text message.text)

/-- Notes a parameter that strict code would forbid, the first one only. -/
def noteFirst (blame : Value) (name : Text) : RecordM Unit := do
  if (← need "firstRestricted").isPresent then pure ()
  else if name.isRestricted then note "firstRestricted" blame .strictParameterName
  else if name.isStrictReserved then note "firstRestricted" blame .strictReservedWord
  else do
    if ← hasName name then note "firstRestricted" blame .strictParameterTwice else pure ()

/-- Notes a parameter that strict code forbids. -/
def noteStrict (blame : Value) (name : Text) : RecordM Unit := do
  if name.isRestricted then note "stricted" blame .strictParameterName else pure ()
  if ← hasName name then note "stricted" blame .strictParameterTwice else pure ()

/-- Records the name of a parameter and what strict code says about it. -/
def declare (strict : Bool) (blame name : Value) : RecordM Unit := do
  match name with
  | .text name => do
    if strict then noteStrict blame name else noteFirst blame name
    addName name
  | _ => throw .wrongType

/-- Adds an item to the list under a key. -/
def append (key : String) (item : Value) : RecordM Unit := do
  match ← need key with
  | .list items => put key (.list (items ++ [item]))
  | _ => throw .missingAttribute

/-- Adds one to the number under a key. -/
def count (key : String) : RecordM Unit := do
  match ← need key with
  | .int n => put key (.int (n + 1))
  | _ => throw .wrongType

/-- Adds a parameter that starts with the given token. -/
def add (strict : Bool) (token : Token) (name : Text) (default : Option Node) : RecordM Unit := do
  declare strict token.toValue (.text name)
  if default.isSome then count "defaultCount" else pure ()
  append "params" (Node.identifier name).toValue
  append "defaults" (Node.optionValue default)

mutual

/-- Declares all names that a parameter pattern binds. -/
def declarePattern (strict : Bool) : Value → RecordM Unit
  | .node attributes =>
    match Attributes.get? "type" attributes with
    | none => throw .missingAttribute
    | some type =>
      if type.isText "Identifier" then
        match Attributes.get? "name" attributes with
        | some name => declare strict (.node attributes) name
        | none => throw .missingAttribute
      else if type.isText "RestElement" then declareAt strict "argument" attributes
      else if type.isText "AssignmentPattern" then declareAt strict "left" attributes
      else if type.isText "ArrayPattern" then declareElements strict attributes
      else if type.isText "ObjectPattern" then declareProperties strict attributes
      else throw (.precondition (Text.ofString "Invalid type"))
  | _ => throw .missingAttribute

def declareAt (strict : Bool) (key : String) : List (String × Value) → RecordM Unit
  | [] => throw .missingAttribute
  | (k, v) :: rest => if k = key then declarePattern strict v else declareAt strict key rest

/-- Declares the elements of an array pattern. -/
def declareElements (strict : Bool) : List (String × Value) → RecordM Unit
  | [] => throw .missingAttribute
  | (k, .list items) :: rest =>
    if k = "elements" then declareEach strict items else declareElements strict rest
  | (k, .record attributes) :: rest =>
    if k = "elements" then (if attributes.isEmpty then pure () else throw .missingKey)
    else declareElements strict rest
  | (k, .text t) :: rest =>
    if k = "elements" then (if t.isEmpty then pure () else throw .missingAttribute)
    else declareElements strict rest
  | (k, _) :: rest => if k = "elements" then throw .wrongType else declareElements strict rest

def declareEach (strict : Bool) : List Value → RecordM Unit
  | [] => pure ()
  | .null :: rest => declareEach strict rest
  | v :: rest => do
    declarePattern strict v
    declareEach strict rest

/-- Declares the values of an object pattern. -/
def declareProperties (strict : Bool) : List (String × Value) → RecordM Unit
  | [] => throw .missingAttribute
  | (k, .list items) :: rest =>
    if k = "properties" then declareValues strict items else declareProperties strict rest
  | (k, .record attributes) :: rest =>
    if k = "properties" then (if attributes.isEmpty then pure () else throw .missingKey)
    else declareProperties strict rest
  | (k, .text t) :: rest =>
    if k = "properties" then (if t.isEmpty then pure () else throw .wrongType)
    else declareProperties strict rest
  | (k, _) :: rest => if k = "properties" then throw .wrongType else declareProperties strict rest

def declareValues (strict : Bool) : List Value → RecordM Unit
  | [] => pure ()
  | .node attributes :: rest => do
    declareAt strict "value" attributes
    declareValues strict rest
  | .record attributes :: rest => do
    if (Attributes.get? "value" attributes).isSome then declareAt strict "value" attributes
    else throw .missingKey
    declareValues strict rest
  | _ :: _ => throw .wrongType

end

/-- One parameter of a list that is read as the parameters of an arrow function, without its
default. -/
def coverParameter (strict : Bool) : Value → RecordM Value
  | .node attributes =>
    match Attributes.get? "type" attributes with
    | none => throw .missingAttribute
    | some type =>
      if type.isText "AssignmentPattern" then
        match Attributes.get? "left" attributes with
        | some left => pure left
        | none => throw .missingAttribute
      else do
        declarePattern strict (.node attributes)
        pure (.node attributes)
  | _ => throw .missingAttribute

/-- The check on a default that was split off: the default is there, and the names are declared. -/
def coverDefault (strict : Bool) : Value → RecordM Unit
  | .node attributes =>
    if (Attributes.get? "type" attributes).any (·.isText "AssignmentPattern") then
      match Attributes.get? "right" attributes, Attributes.get? "left" attributes with
      | some _, some left => declarePattern strict left
      | _, _ => throw .missingAttribute
    else pure ()
  | _ => pure ()

/-- Reads a list of expressions as the parameters of an arrow function. Defaults are split off; a
fault leaves the list as far as it was changed. -/
def coverParameters (strict : Bool) : List Value → Attributes → List Value × Attributes × Option Fault
  | [], record => ([], record, none)
  | param :: rest, record =>
    match coverParameter strict param record with
    | .error fault record => (param :: rest, record, some fault)
    | .ok left record =>
      match coverDefault strict param record with
      | .error fault record => (left :: rest, record, some fault)
      | .ok _ record =>
        let (rest, record, fault) := coverParameters strict rest record
        (left :: rest, record, fault)

/-- Reads an expression as the parameter list of an arrow function. Only a name and a placeholder
with parameters are such lists, and none of them is ever accepted: what strict code says about the
parameters is not noted in a way that could be told. -/
def coverFormals (strict : Bool) (expression : Value) : Value × Option Fault :=
  match expression with
  | .node attributes =>
    match Attributes.get? "type" attributes with
    | none => (expression, some .missingAttribute)
    | some type =>
      if type.isText "Identifier" then
        let (_, record, fault) := coverParameters strict [expression] start
        (expression, some (fault.getD (verdict record)))
      else if type.isText "ArrowParameterPlaceHolder" then
        match Attributes.get? "params" attributes with
        | some (.list params) =>
          let (params, record, fault) := coverParameters strict params start
          (.node (Attributes.set "params" (.list params) attributes),
            some (fault.getD (verdict record)))
        | some (.text []) | some (.record []) => (expression, some .missingKey)
        | some (.text _) => (expression, some .missingAttribute)
        | some (.record _) => (expression, some .missingKey)
        | some _ => (expression, some .wrongType)
        | none => (expression, some .missingAttribute)
      else (expression, none)
  | _ => (expression, some .missingAttribute)
where
  start : Attributes := [("paramSet", .record [])]
  /-- A name that occurs twice is reported through a node, which is no token; otherwise a note is
  missing. -/
  verdict (record : Attributes) : Fault :=
    if (record.get? "message").any (·.isText Message.strictParameterTwice.template)
    then .missingAttribute else .missingKey

end ParameterRecord

namespace Grammar

open Parse

/-- Complains about a token given as an attribute tree. -/
def unexpectedValue {α : Type} (token : Value) (words : Option Text) : ParseM α := do
  match (← get).complaintAbout token words with
  | .ok fault => throw fault
  | .error fault => throw fault

/-- Reads one parameter into a record, and tells whether another one can follow. A fault of the
record comes with the record as far as it was changed. -/
def parameterInto (reader : Reader) (record : Attributes) :
    ParseM (Attributes × Except Fault Bool) := do
  let (token, name, default) ← parameter reader
  match ParameterRecord.add (← isStrict) token name default record with
  | .error fault record => pure (record, .error fault)
  | .ok _ record => do
    let last ← atMark .closeParen
    pure (record, .ok !last)

/-- The parameters in their parentheses, with the first one to blame given from before. -/
def parametersRecord (reader : Reader) (first : Value) : ParseM Attributes := do
  let f ← parameters reader Token.toValue (if first.isPresent then some first else none)
  pure
    [("params", .list (Node.listValues f.params)),
     ("defaults", .list (Node.holesValues f.effectiveDefaults)),
     ("stricted", f.stricted.getD .null), ("firstRestricted", f.firstRestricted.getD first),
     ("message", .ofOption (.text ∘ Message.text) f.message)]

/-- Complains in strict code about a parameter noted in a record. -/
def refuseNoted (record : Attributes) : ParseM Unit := do
  if ← isStrict then do
    let words := match record.get? "message" with
      | some (.text (c :: rest)) => some (c :: rest)
      | _ => none
    match record.get? "firstRestricted" with
    | none => throw .missingKey
    | some first => do
      if first.isPresent then unexpectedValue first words
      else
        match record.get? "stricted" with
        | some blame => if blame.isPresent then unexpectedValue blame words else pure ()
        | none => pure ()
  else pure ()

/-- The body of a method whose parameters stand in a record, and the whole function. -/
def methodWith (reader : Reader) (record : Attributes) : ParseM Attributes := do
  let body ← methodBody reader (refuseNoted record)
  pure
    [("type", .ofString "FunctionExpression"), ("id", .null),
     ("params", (record.get? "params").getD .null),
     ("defaults", (record.get? "defaults").getD .null), ("body", body.toValue),
     ("generator", .bool false), ("expression", .bool false)]

end Grammar

end EcmaScript
