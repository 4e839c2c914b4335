import BoxLayout.Json
import BoxLayout.Text.Quoted

/-!
# Writing JSON

The text of a value, without any blank. The three functions follow the three sorts of a value: one
value, the items of an array, the members of an object.
-/

namespace BoxLayout.Json

mutual

def chars : Json → List Char
  | .null => "null".toList
  | .bool true => "true".toList
  | .bool false => "false".toList
  | .number n => n.render
  | .string s => Text.quoteJson s.toList
  | .array [] => "[]".toList
  | .array (item :: items) => '[' :: item.chars ++ itemsChars items ++ [']']
  | .object [] => ['\x7b', '\x7d']
  | .object ((key, value) :: members) =>
    '\x7b' :: Text.quoteJson key.toList ++ ':' :: value.chars ++ membersChars members ++ ['\x7d']

/-- The items after the first, each behind its comma. -/
def itemsChars : List Json → List Char
  | [] => []
  | item :: items => ',' :: item.chars ++ itemsChars items

/-- The members after the first, each behind its comma. -/
def membersChars : List (String × Json) → List Char
  | [] => []
  | (key, value) :: members =>
    ',' :: Text.quoteJson key.toList ++ ':' :: value.chars ++ membersChars members

end

def text (v : Json) : String := String.ofList v.chars

end BoxLayout.Json
