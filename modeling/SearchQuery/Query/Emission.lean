import SearchQuery.Config
import SearchQuery.Query.Basic
import SearchQuery.Text.Blank
import SearchQuery.Text.Escape

/-!
# Query strings

A query as a string of the query syntax.

```text
field:value                a term, escaped
field:(one OR two)         a set of values, escaped
field:(some words)         a match, as it stands
field:"some words"         a phrase, as it stands
field:begin*               a beginning, escaped
field:w?ld*                a pattern, as it stands
field:value~2              a fuzzy value, escaped
field:/regexp/             a regular expression, as it stands
_exists_:field             the presence of a field
_id:("1" "2")              a set of documents
field:{low TO high]        a range; braces exclude a bound, a star leaves it open
+a +b -c +(d OR e)         a boolean composition
```

`Query.render` writes a query with the blanks that its own texts bring along.  Every clause of a
composition, and the query as a whole, is written without the blanks at its two ends.
-/

namespace SearchQuery

open Text

/-- A text in parentheses. -/
def parenthesized (text : List Char) : List Char :=
  '(' :: (text ++ [')'])

/-- A text in double quotes. -/
def doubleQuoted (text : List Char) : List Char :=
  '"' :: (text ++ ['"'])

/-- The texts as alternatives. -/
def alternatives (texts : List (List Char)) : List Char :=
  " OR ".toList.intercalate texts

/-- The texts with spaces between them. -/
def spaceSeparated (texts : List (List Char)) : List Char :=
  [' '].intercalate texts

/-- What a field is required to be. -/
def onField (field : String) (text : List Char) : List Char :=
  fieldName field ++ ':' :: text

/-- The text of an interval. -/
def interval (opening : Char) (low high : List Char) (closing : Char) : List Char :=
  opening :: (low ++ " TO ".toList ++ high ++ [closing])

/-- The end of an interval: the first of two bounds, else the second, else open. -/
def intervalEnd (preferred other : Option String) : List Char :=
  (preferred.or other).elim ['*'] String.toList

/-- A range.  The bracket tells whether there is an excluded bound, even where the value written
beside it is that of an included bound. -/
def Range.render (range : Range) : List Char :=
  onField range.field <|
    interval (if range.gt.isSome then '{' else '[') (intervalEnd range.gte range.gt)
      (intervalEnd range.lte range.lt) (if range.lt.isSome then '}' else ']')

namespace Query

/-- The group of the optional clauses of a composition: required if other clauses stand before
it, absent if there are no optional clauses. -/
def optionalGroup (signed optional : List (List Char)) : List (List Char) :=
  if optional = [] then []
  else if signed = [] then [parenthesized (alternatives optional)]
  else ['+' :: parenthesized (alternatives optional)]

mutual

/-- The text of a query; `fuzziness` is written where a fuzzy clause has none. -/
def render (fuzziness : UInt32) : Query → List Char
  | term field value => onField field (escape value.toList)
  | terms field values =>
      onField field (parenthesized (alternatives (values.map fun value => escape value.toList)))
  | matching field value => onField field (parenthesized value.toList)
  | phrase field value => onField field (doubleQuoted value.toList)
  | beginning field value => onField field (escape value.toList ++ ['*'])
  | wildcard field value => onField field value.toList
  | fuzzy field value edits =>
      onField field
        (escape value.toList ++ '~' :: Number.natText (edits.getD fuzziness).toNat)
  | regexp field value => onField field ('/' :: (value.toList ++ ['/']))
  | existing field => onField "_exists_" (fieldName field)
  | ids values =>
      onField "_id"
        (parenthesized (spaceSeparated (values.map fun value => doubleQuoted value.toList)))
  | range bounds => bounds.render
  | bool must filter mustNot should _ =>
      let signed := (clauseTexts fuzziness must).map ('+' :: ·)
        ++ (clauseTexts fuzziness filter).map ('+' :: ·)
        ++ (clauseTexts fuzziness mustNot).map ('-' :: ·)
      spaceSeparated (signed ++ optionalGroup signed (trimmedTexts fuzziness should))

/-- The trimmed texts of some queries, those of compositions in parentheses. -/
def clauseTexts (fuzziness : UInt32) : List Query → List (List Char)
  | [] => []
  | query :: rest =>
      let text := trim (query.render fuzziness)
      (if query.kind = .bool then parenthesized text else text) :: clauseTexts fuzziness rest

/-- The trimmed texts of some queries. -/
def trimmedTexts (fuzziness : UInt32) : List Query → List (List Char)
  | [] => []
  | query :: rest => trim (query.render fuzziness) :: trimmedTexts fuzziness rest

end

/-- The query string of a query; `fuzziness` is written where a fuzzy clause has none. -/
def emitWith (fuzziness : UInt32) (query : Query) : String :=
  String.ofList (trim (query.render fuzziness))

/-- The query string of a query. -/
def emit (query : Query) : String :=
  query.emitWith standardFuzziness

end Query

end SearchQuery
