import GraphTrace.Config.Field
import GraphTrace.Json.Mismatch
import GraphTrace.Json.Reader

/-!
# Configurations in JSON

The text is read for a configuration and nothing else, lexeme by lexeme, so the first problem in
the text is the one reported, even where a later part is no JSON at all.  A field's name is judged
as soon as it is read.
-/

namespace GraphTrace.Config.Json

open GraphTrace.Json (Token Ending Fault)

/-- Why a text is no configuration. -/
inductive Error where
  | unreadable (fault : Fault)
  | mismatch (found expected : String)
  | unknownField (name : String)
  | duplicateField (field : Field)
deriving DecidableEq, Repr

/-- The wording of an error. Where the text is no JSON there is none. -/
def Error.message? : Error → Option String
  | .unreadable _              => none
  | .mismatch found expected   => some (GraphTrace.Json.mismatch found expected)
  | .unknownField name         =>
    some ("unknown field `" ++ name ++ "`, expected "
      ++ " or ".intercalate (Field.all.map fun f => "`" ++ f.key ++ "`"))
  | .duplicateField field      => some ("duplicate field `" ++ field.key ++ "`")

/-- Whether fields are given by name or by position. -/
inductive Form where
  | mapping
  | sequence
deriving DecidableEq, Repr

/-- What may come next. -/
inductive State where
  /-- The configuration. -/
  | start
  /-- The first field name, or the end. -/
  | firstKey
  /-- A field name after a comma. -/
  | key (read : Draft)
  /-- The colon after a field name. -/
  | colon (read : Draft) (field : Field)
  /-- The first value of a sequence, or its end. -/
  | firstValue
  /-- The value of a field. -/
  | value (form : Form) (read : Draft) (field : Field)
  /-- The first reserved name, or the end of their list. -/
  | firstName (form : Form) (read : Draft)
  /-- A reserved name after a comma. -/
  | name (form : Form) (read : Draft) (names : List String)
  /-- A comma after a reserved name, or the end of their list. -/
  | afterName (form : Form) (read : Draft) (names : List String)
  /-- A comma after a field, or the end. -/
  | afterField (form : Form) (read : Draft)
  /-- Nothing. -/
  | done (config : Config)
deriving DecidableEq, Repr

namespace State

/-- The error for a token that does not fit where a value should stand. -/
def misfit {α : Type} (token : Token) (expected : String) : Except Error α :=
  match token.described? with
  | some found => .error (.mismatch found expected)
  | none       => .error (.unreadable .malformed)

/-- Reads a field name. -/
def readKey (read : Draft) (name : String) : Except Error State :=
  match Field.ofKey? name with
  | none       => .error (.unknownField name)
  | some field => if read.has field then .error (.duplicateField field) else .ok (.colon read field)

/-- Reads the start of a field's value. -/
def readValue (form : Form) (read : Draft) : Field → Token → Except Error State
  | .captureScalars, .boolean b => .ok (.afterField form { read with captureScalars := some b })
  | .captureScalars, token      => misfit token "a boolean"
  | .reservedFields, .arrayOpen => .ok (.firstName form read)
  | .reservedFields, token      => misfit token "a sequence"

/-- The state after the list of reserved names. -/
def endNames (form : Form) (read : Draft) (names : List String) : State :=
  .afterField form { read with reservedFields := some names }

/-- Reads a token after a field. -/
def readAfterField (read : Draft) : Form → Token → Except Error State
  | .mapping, .comma       => .ok (.key read)
  | .mapping, .objectClose => .ok (.done read.config)
  | .sequence, .comma      =>
    match read.next? with
    | some field => .ok (.value .sequence read field)
    | none       => .error (.unreadable .malformed)
  | .sequence, .arrayClose => .ok (.done read.config)
  | _, _                   => .error (.unreadable .malformed)

/-- Reads one token. -/
def step : State → Token → Except Error State
  | .start, .objectOpen                          => .ok .firstKey
  | .start, .arrayOpen                           => .ok .firstValue
  | .start, token                                => misfit token "struct Config"
  | .firstKey, .objectClose                      => .ok (.done {})
  | .firstKey, .string k                         => readKey {} k
  | .key read, .string k                         => readKey read k
  | .colon read field, .colon                    => .ok (.value .mapping read field)
  | .firstValue, .arrayClose                     => .ok (.done {})
  | .firstValue, token                           => readValue .sequence {} .captureScalars token
  | .value form read field, token                => readValue form read field token
  | .firstName form read, .arrayClose            => .ok (endNames form read [])
  | .firstName form read, .string n              => .ok (.afterName form read [n])
  | .firstName _ _, token                        => misfit token "a string"
  | .name form read names, .string n             => .ok (.afterName form read (names ++ [n]))
  | .name _ _ _, token                           => misfit token "a string"
  | .afterName form read names, .comma           => .ok (.name form read names)
  | .afterName form read names, .arrayClose      => .ok (endNames form read names)
  | .afterField form read, token                 => readAfterField read form token
  | _, _                                         => .error (.unreadable .malformed)

/-- What a faulty lexeme means here: where a value stands its own fault, where a name stands its
fault if it starts as a string. -/
def faultAt (string : Bool) (fault : Fault) : State → Fault
  | .start | .firstValue | .value _ _ _ | .firstName _ _ | .name _ _ _ => fault
  | .firstKey | .key _ => if string then fault else .malformed
  | _                  => .malformed

/-- The outcome where the lexemes end. -/
def finish : State → Ending → Except Error Config
  | .done config, .complete        => .ok config
  | _, .complete                   => .error (.unreadable .unfinished)
  | state, .faulty string fault    => .error (.unreadable (state.faultAt string fault))

end State

/-- The configuration a JSON text writes. -/
def read (text : String) : Except Error Config := do
  let (tokens, ending) := Token.scan (text.toList.map .char)
  let state ← tokens.foldlM State.step .start
  state.finish ending

end GraphTrace.Config.Json
