import LayeredBundles.Json.Token

/-! # Reading JSON

A value is built from tokens by a machine with a stack of open arrays and objects.

* **`Json.Frame`** — an array or object that is open;
* **`Json.Builder`** — the stack and what may come next;
* **`Json.parse?`** — the value a text stands for, or nothing when it stands for none. -/

namespace LayeredBundles

namespace Json

/-- An open array or object, with what it holds so far in reverse. -/
inductive Frame where
  /-- An open array. -/
  | array (rev : List Json)
  /-- An open object and the key whose value is read. -/
  | object (rev : List (String × Json)) (key : String)

/-- What may come next. -/
inductive Builder where
  /-- A value. -/
  | value (stack : List Frame)
  /-- The first item of an array, or its end. -/
  | firstItem (stack : List Frame)
  /-- The first key of an object, or its end. -/
  | firstKey (stack : List Frame)
  /-- A key, after a comma. -/
  | key (stack : List Frame) (rev : List (String × Json))
  /-- The colon after a key. -/
  | colon (stack : List Frame) (rev : List (String × Json)) (key : String)
  /-- A comma or the end of the array or object on top of the stack, which has just got a value. -/
  | next (stack : List Frame)
  /-- The end of the text: the value is complete. -/
  | done (value : Json)

/-- Put a complete value into the innermost open array or object. -/
def Builder.accept (v : Json) : List Frame → Builder
  | [] => .done v
  | .array rev :: stack => .next (.array (v :: rev) :: stack)
  | .object rev k :: stack => .next (.object ((k, v) :: rev) k :: stack)

/-- The beginning of a value. -/
def Builder.begin (stack : List Frame) : Token → Option Builder
  | .openArray => some (.firstItem stack)
  | .openObject => some (.firstKey stack)
  | .text s => some (accept (.string s) stack)
  | .scalar v => some (accept v stack)
  | _ => none

/-- The state after one more token. -/
def Builder.step : Builder → Token → Option Builder
  | .value stack, t => begin stack t
  | .firstItem stack, .closeArray => some (accept (.array []) stack)
  | .firstItem stack, t => begin (.array [] :: stack) t
  | .firstKey stack, .closeObject => some (accept (.object []) stack)
  | .firstKey stack, .text k => some (.colon stack [] k)
  | .key stack rev, .text k => some (.colon stack rev k)
  | .colon stack rev k, .colon => some (.value (.object rev k :: stack))
  | .next (.array rev :: stack), .comma => some (.value (.array rev :: stack))
  | .next (.array rev :: stack), .closeArray => some (accept (.array rev.reverse) stack)
  | .next (.object rev _ :: stack), .comma => some (.key stack rev)
  | .next (.object rev _ :: stack), .closeObject => some (accept (.object rev.reverse) stack)
  | _, _ => none

/-- The state after the tokens. -/
def Builder.run : Builder → List Token → Option Builder
  | b, [] => some b
  | b, t :: ts => (b.step t).bind fun b => run b ts

/-- The value of a sequence of tokens. -/
def ofTokens? (ts : List Token) : Option Json :=
  match Builder.run (.value []) ts with
  | some (.done v) => some v
  | _ => none

/-- The value a text stands for. -/
def parse? (s : String) : Option Json := (Token.scan s).bind ofTokens?

end Json

end LayeredBundles
