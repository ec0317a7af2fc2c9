import AccessControl.Collection.Keyed
import AccessControl.Error
import AccessControl.Number.Decimal

/-!
# Values

The values that rules compare and inquiries carry: null, booleans, integers of 64 bits, floating
point numbers, texts, lists, maps and callables.  A callable is known by the number of its instance
and by the outcome of calling it.  `Value.truthy` and `Value.resolve` call it, and its exception
passes through them; every other operation leaves it alone.
-/

namespace AccessControl

/-- The outcome of calling a callable. -/
inductive Call (α : Type) where
  | returns (a : α)
  | raises (text : Bytes)
  | raisesForeign
  /-- There is nothing to call. -/
  | missing

/-- A value.  The entries of a map are in the order of their keys. -/
inductive Value where
  | null
  | bool (b : Bool)
  | int (i : Int64)
  | double (d : Binary64)
  | string (text : Bytes)
  | list (items : List Value)
  | map (entries : List (Bytes × Value))
  | thunk (instanceId : Nat) (call : Call Value)

instance : Inhabited Value := ⟨.null⟩

/-- The kinds of values. -/
inductive ValueKind where
  | null | bool | int | double | string | list | map | thunk
  deriving DecidableEq, Repr

namespace ValueKind

/-- The kinds in the order of their numbers. -/
def all : List ValueKind := [null, bool, int, double, string, list, map, thunk]

/-- The number of a kind. -/
def number : ValueKind → Nat
  | null => 0
  | bool => 1
  | int => 2
  | double => 3
  | string => 4
  | list => 5
  | map => 6
  | thunk => 7

/-- The name of a kind. -/
def name : ValueKind → Bytes
  | null => utf8 "null"
  | bool => utf8 "bool"
  | int => utf8 "int"
  | double => utf8 "double"
  | string => utf8 "string"
  | list => utf8 "list"
  | map => utf8 "map"
  | thunk => utf8 "thunk"

/-- The name of the kind with a number, `unknown` for any other number. -/
def nameOfNumber (n : Nat) : Bytes := all[n]?.elim (utf8 "unknown") name

end ValueKind

namespace Value

/-- The kind of a value. -/
def kind : Value → ValueKind
  | .null => .null
  | .bool _ => .bool
  | .int _ => .int
  | .double _ => .double
  | .string _ => .string
  | .list _ => .list
  | .map _ => .map
  | .thunk .. => .thunk

/-- The map of the pairs; of pairs with one key the first counts. -/
def ofPairs (pairs : List (Bytes × Value)) : Value := .map (Dict.ofPairs pairs).toList

/-- The boolean that a value is. -/
def asBool? : Value → Option Bool
  | .bool b => some b
  | _ => none

/-- The integer that a value is. -/
def asInt? : Value → Option Int64
  | .int i => some i
  | _ => none

/-- The number that a value is; an integer counts as the nearest floating point number. -/
def asDouble? : Value → Option Binary64
  | .int i => some (.ofInt i.toInt)
  | .double d => some d
  | _ => none

/-- The text that a value is. -/
def asString? : Value → Option Bytes
  | .string s => some s
  | _ => none

/-- The items of a list. -/
def asList? : Value → Option (List Value)
  | .list items => some items
  | _ => none

/-- The entries of a map. -/
def asMap? : Value → Option (List (Bytes × Value))
  | .map entries => some entries
  | _ => none

/-- The value under a key of a map; no other value has keys. -/
def find? (key : Bytes) : Value → Option Value
  | .map entries => (entries.find? fun e => e.1 == key).map Prod.snd
  | _ => none

/-- What a callable returns, and any other value itself. -/
def resolve : Value → Except Escape Value
  | .thunk _ (.returns v) => .ok v
  | .thunk _ (.raises text) => .error (.raised text)
  | .thunk _ .raisesForeign => .error .foreign
  | .thunk _ .missing => .ok .null
  | v => .ok v

/-- Whether a value counts as true: null, `false`, the zeros and the empty text, list and map do
not.  A callable counts as what it returns. -/
def truthy : Value → Except Escape Bool
  | .null => .ok false
  | .bool b => .ok b
  | .int i => .ok (i != 0)
  | .double d => .ok !d.isZero
  | .string s => .ok !s.isEmpty
  | .list items => .ok !items.isEmpty
  | .map entries => .ok !entries.isEmpty
  | .thunk _ (.returns v) => v.truthy
  | .thunk _ (.raises text) => .error (.raised text)
  | .thunk _ .raisesForeign => .error .foreign
  | .thunk _ .missing => .ok false
termination_by structural v => v

/-- The text in double quotation marks, with quotation marks, backslashes, line feeds and tabs
escaped. -/
def quotedText (text : Bytes) : Bytes :=
  let escaped := text.flatMap fun b =>
    match Char.ofUInt8 b with
    | '"' => utf8 "\\\""
    | '\\' => utf8 "\\\\"
    | '\n' => utf8 "\\n"
    | '\t' => utf8 "\\t"
    | _ => [b]
  utf8 "\"" ++ escaped ++ utf8 "\""

mutual

/-- The text of a value in logs. -/
def text : Value → Bytes
  | .null => utf8 "null"
  | .bool b => utf8 (if b then "true" else "false")
  | .int i => Bytes.ofInt i.toInt
  | .double d => d.general 6
  | .string s => quotedText s
  | .list items => utf8 "[" ++ Bytes.joined (utf8 ",") (itemTexts items) ++ utf8 "]"
  | .map entries => utf8 "\x7b" ++ Bytes.joined (utf8 ",") (entryTexts entries) ++ utf8 "\x7d"
  | .thunk .. => utf8 "\"<thunk>\""
termination_by structural v => v

/-- The texts of the items of a list. -/
def itemTexts : List Value → List Bytes
  | [] => []
  | v :: rest => v.text :: itemTexts rest
termination_by structural l => l

/-- The texts of the entries of a map. -/
def entryTexts : List (Bytes × Value) → List Bytes
  | [] => []
  | (key, v) :: rest => (quotedText key ++ utf8 ":" ++ v.text) :: entryTexts rest
termination_by structural l => l

end

end Value

end AccessControl
