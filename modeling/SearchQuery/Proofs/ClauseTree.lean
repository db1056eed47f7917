import SearchQuery.Proofs.Emission
import SearchQuery.Proofs.Words

/-!
# Clause trees

The clause tree of a query is what its query string is meant to say: a single clause, or items
with signs, where an item is a single clause or a group of alternatives.  `Query.clauseTree` is
the tree that a query stands for, and `ClauseTree.read` reads a tree from a query string.

The reader knows nothing of queries.  It takes the words of a text for items, takes a leading `+`
or `-` for the sign of an item, and takes an item that begins with a parenthesis for a group,
whose alternatives are separated by the word `OR`.
-/

namespace SearchQuery

open Text

/-- How an item takes part in a composition. -/
inductive Sign where
  | required
  | prohibited
  | optional
deriving DecidableEq, Repr

mutual

/-- What a query string says. -/
inductive ClauseTree where
  /-- A single clause, by its own text. -/
  | leaf (text : List Char)
  /-- A composition of items. -/
  | items (items : List Item)

/-- An item of a composition. -/
inductive Item where
  | leaf (sign : Sign) (text : List Char)
  | group (sign : Sign) (alternatives : List ClauseTree)

end

/-! ## The tree of a query -/

namespace Query

mutual

/-- The tree that a query stands for; its single clauses are known by their query strings. -/
def clauseTree (fuzziness : UInt32) (query : Query) : ClauseTree :=
  match query with
  | bool must filter mustNot should _ =>
      let signed := signedItems fuzziness .required must
        ++ signedItems fuzziness .required filter ++ signedItems fuzziness .prohibited mustNot
      let sign := if must = [] ∧ filter = [] ∧ mustNot = [] then Sign.optional else Sign.required
      .items (signed ++
        if should = [] then [] else [.group sign (clauseTrees fuzziness should)])
  | query => .leaf (query.emitWith fuzziness).toList

/-- Clauses as items with a sign; a composition is a group with itself as the one alternative. -/
def signedItems (fuzziness : UInt32) (sign : Sign) : List Query → List Item
  | [] => []
  | query :: rest =>
      (if query.kind = .bool then .group sign [query.clauseTree fuzziness]
        else .leaf sign (query.emitWith fuzziness).toList) :: signedItems fuzziness sign rest

/-- The trees of some queries. -/
def clauseTrees (fuzziness : UInt32) : List Query → List ClauseTree
  | [] => []
  | query :: rest => query.clauseTree fuzziness :: clauseTrees fuzziness rest

end

end Query

/-! ## Reading a query string -/

/-- An item with a sign: a group if it begins with a parenthesis.  The alternatives of a group
are read by `entry`, each from its words. -/
def Item.ofBody (entry : List (List Char) → ClauseTree) (sign : Sign) : List Char → Item
  | '(' :: inside => .group sign (((words inside.dropLast).splitOn orWord).map entry)
  | text => .leaf sign text

/-- The item that a word is. -/
def Item.ofWord (entry : List (List Char) → ClauseTree) : List Char → Item
  | '+' :: body => ofBody entry .required body
  | '-' :: body => ofBody entry .prohibited body
  | body => ofBody entry .optional body

/-- Whether a word is the item of a composition: whether it has a sign or is a group. -/
def startsItem (word : List Char) : Bool :=
  word.head?.any fun c => c = '+' || c = '-' || c = '('

namespace ClauseTree

/-- The tree of some words, with at most as many levels of groups as `levels` says. -/
def ofWords : (levels : Nat) → List (List Char) → ClauseTree
  | 0, _ => .items []
  | levels + 1, words =>
      if words = [[]] then .items []
      else if words.all startsItem then .items (words.map (Item.ofWord (ofWords levels)))
      else .leaf (spaceSeparated words)

/-- The tree of a query string.  Every group takes a character at least. -/
def read (text : String) : ClauseTree :=
  ofWords (text.toList.length + 1) (words text.toList)

end ClauseTree

end SearchQuery
