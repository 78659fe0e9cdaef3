import StreamLexer.Encoding.Json.Token

/-!
# JSON values

Tokens are read into a value by a machine that keeps the arrays and objects in progress on a stack,
so that values nest to any depth. Members of objects are kept in order, and so are repeated keys.

## Main definitions

* `Json.Value`: a value; numbers and strings are kept as they are written
* `Json.Value.print`: the text of a value, without blanks
* `Json.Frame`, `Json.Stage`: an array or object in progress; what the machine waits for
* `Json.Stage.step?`: the machine
* `Json.parse?`: the value of a byte string
-/

namespace StreamLexer.Json

/-- A JSON value. -/
inductive Value where
  | null
  | bool (value : Bool)
  | number (text : List UInt8)
  | string (raw : List UInt8)
  | array (items : List Value)
  | object (members : List (List UInt8 × Value))
deriving Inhabited

/-- A written string between its quotes. -/
def quoted (raw : List UInt8) : List UInt8 := 0x22 :: raw ++ [0x22]

mutual

/-- The text of a value, without blanks. -/
def Value.print : Value → List UInt8
  | .null => ascii "null"
  | .bool true => ascii "true"
  | .bool false => ascii "false"
  | .number text => text
  | .string raw => quoted raw
  | .array items => 0x5B :: printItems items ++ [0x5D]
  | .object members => 0x7B :: printMembers members ++ [0x7D]

/-- The texts of values, separated by commas. -/
def printItems : List Value → List UInt8
  | [] => []
  | [v] => v.print
  | v :: w :: rest => v.print ++ 0x2C :: printItems (w :: rest)

/-- The texts of members, separated by commas. -/
def printMembers : List (List UInt8 × Value) → List UInt8
  | [] => []
  | [(key, v)] => quoted key ++ 0x3A :: v.print
  | (key, v) :: m :: rest => quoted key ++ 0x3A :: v.print ++ 0x2C :: printMembers (m :: rest)

end

/-- An array or object in progress; its parts stand latest first. An object waits for the value of
its key. -/
inductive Frame where
  | array (items : List Value)
  | object (members : List (List UInt8 × Value)) (key : List UInt8)

/-- What may come next. -/
inductive Stage where
  /-- A value. -/
  | value (stack : List Frame)
  /-- A value, or the end of the array on top. -/
  | firstItem (stack : List Frame)
  /-- A key, or the end of an object. -/
  | firstKey (stack : List Frame)
  /-- A key. -/
  | key (members : List (List UInt8 × Value)) (stack : List Frame)
  /-- The colon after a key. -/
  | colon (members : List (List UInt8 × Value)) (key : List UInt8) (stack : List Frame)
  /-- What may follow a value. -/
  | complete (value : Value) (stack : List Frame)

namespace Stage

/-- Takes the first token of a value. -/
def enter? (stack : List Frame) : Token → Option Stage
  | .arrayOpen => some (firstItem (.array [] :: stack))
  | .objectOpen => some (firstKey stack)
  | .null => some (complete .null stack)
  | .bool b => some (complete (.bool b) stack)
  | .number text => some (complete (.number text) stack)
  | .string raw => some (complete (.string raw) stack)
  | _ => none

/-- Takes one token, unless it has no place there. -/
def step? : Stage → Token → Option Stage
  | value stack, token => enter? stack token
  | firstItem (.array [] :: stack), .arrayClose => some (complete (.array []) stack)
  | firstItem stack, token => enter? stack token
  | firstKey stack, .objectClose => some (complete (.object []) stack)
  | firstKey stack, .string raw => some (colon [] raw stack)
  | key members stack, .string raw => some (colon members raw stack)
  | colon members k stack, .colon => some (value (.object members k :: stack))
  | complete v (.array items :: stack), .comma => some (value (.array (v :: items) :: stack))
  | complete v (.array items :: stack), .arrayClose =>
    some (complete (.array (v :: items).reverse) stack)
  | complete v (.object members k :: stack), .comma => some (key ((k, v) :: members) stack)
  | complete v (.object members k :: stack), .objectClose =>
    some (complete (.object ((k, v) :: members).reverse) stack)
  | _, _ => none

end Stage

/-- The value of a sequence of tokens. -/
def Value.ofTokens? (tokens : List Token) : Option Value :=
  match tokens.foldlM Stage.step? (.value []) with
  | some (.complete v []) => some v
  | _ => none

/-- The value of a byte string. -/
def parse? (bytes : List UInt8) : Option Value := (tokens? bytes).bind Value.ofTokens?

end StreamLexer.Json
