import SitePublish.Json.Tree
import SitePublish.Proofs.Json.Token

/-!
# Reading back what is written

Every tree is read back from its tokens, and a value is written with the tokens of a tree of its
own: numbers by their digits, members in their order, and a double that is no number as null. So the
text of a value is read as that tree, whatever its depth.
-/

set_option autoImplicit false

namespace SitePublish.Json

namespace Tree

mutual

def tokens : Tree → List Token
  | .null => [.word .null]
  | .bool true => [.word .yes]
  | .bool false => [.word .no]
  | .number l => [.number l]
  | .str text => [.string text]
  | .arr items => .openArray :: itemTokens items
  | .obj members => .openObject :: memberTokens members

def itemTokens : List Tree → List Token
  | [] => [.closeArray]
  | [t] => tokens t ++ [.closeArray]
  | t :: u :: rest => tokens t ++ .comma :: itemTokens (u :: rest)

def memberTokens : List (Option String × Tree) → List Token
  | [] => [.closeObject]
  | [(k, t)] => .string k :: .colon :: tokens t ++ [.closeObject]
  | (k, t) :: m :: rest => .string k :: .colon :: tokens t ++ .comma :: memberTokens (m :: rest)

end

theorem readFrom_cons (stack : List Frame) (t : Token) (rest : List Token) :
    readFrom (.reading stack) (t :: rest) = (readToken stack t).bind (readFrom · rest) := by
  rw [readFrom]
  cases readToken stack t <;> rfl

theorem placeString_eq {stack : List Frame} (hole : acceptsValue stack = true)
    (text : Option String) : placeString text stack = place (.str text) stack := by
  unfold placeString
  split
  · cases hole
  · rfl

mutual

theorem readFrom_tokens (t : Tree) {stack : List Frame} (hole : acceptsValue stack = true)
    (rest : List Token) :
    readFrom (.reading stack) (t.tokens ++ rest) = (place t stack).bind (readFrom · rest) := by
  match t with
  | .null | .bool true | .bool false | .number _ => exact readFrom_cons stack _ rest
  | .str text =>
    rw [← placeString_eq hole]
    exact readFrom_cons stack _ rest
  | .arr [] =>
    rw [tokens, List.cons_append, readFrom_cons, readToken, if_pos hole]
    exact readFrom_cons _ _ rest
  | .arr (t :: items) =>
    rw [tokens, List.cons_append, readFrom_cons, readToken, if_pos hole]
    exact readFrom_itemTokens (t :: items) (List.cons_ne_nil t items) [] false stack rest
  | .obj [] =>
    rw [tokens, List.cons_append, readFrom_cons, readToken, if_pos hole]
    exact readFrom_cons _ _ rest
  | .obj (m :: members) =>
    rw [tokens, List.cons_append, readFrom_cons, readToken, if_pos hole]
    exact readFrom_memberTokens (m :: members) (List.cons_ne_nil m members) [] false stack rest

theorem readFrom_itemTokens (items : List Tree) (ne : items ≠ []) (read : List Tree)
    (comma : Bool) (stack : List Frame) (rest : List Token) :
    readFrom (.reading (.inArray read comma :: stack)) (itemTokens items ++ rest) =
      (place (.arr (read.reverse ++ items)) stack).bind (readFrom · rest) := by
  match items with
  | [] => exact absurd rfl ne
  | [t] =>
    rw [itemTokens, List.append_assoc, readFrom_tokens t rfl]
    change readFrom (.reading (.pastItem (t :: read) :: stack)) (.closeArray :: rest) = _
    rw [readFrom_cons, readToken, List.reverse_cons]
  | t :: u :: items =>
    rw [itemTokens, List.append_assoc, readFrom_tokens t rfl]
    change readFrom (.reading (.inArray (t :: read) true :: stack))
      (itemTokens (u :: items) ++ rest) = _
    rw [readFrom_itemTokens (u :: items) (List.cons_ne_nil u items) (t :: read) true,
      List.reverse_cons, List.append_assoc, List.singleton_append]

theorem readFrom_memberTokens (members : List (Option String × Tree)) (ne : members ≠ [])
    (read : List (Option String × Tree)) (comma : Bool) (stack : List Frame)
    (rest : List Token) :
    readFrom (.reading (.inObject read comma :: stack)) (memberTokens members ++ rest) =
      (place (.obj (read.reverse ++ members)) stack).bind (readFrom · rest) := by
  match members with
  | [] => exact absurd rfl ne
  | [(k, t)] =>
    change readFrom (.reading (.atValue read k :: stack)) ((t.tokens ++ [.closeObject]) ++ rest) = _
    rw [List.append_assoc, readFrom_tokens t rfl]
    change readFrom (.reading (.pastMember ((k, t) :: read) :: stack)) (.closeObject :: rest) = _
    rw [readFrom_cons, readToken, List.reverse_cons]
  | (k, t) :: m :: members =>
    change readFrom (.reading (.atValue read k :: stack))
      ((t.tokens ++ .comma :: memberTokens (m :: members)) ++ rest) = _
    rw [List.append_assoc, readFrom_tokens t rfl]
    change readFrom (.reading (.inObject ((k, t) :: read) true :: stack))
      (memberTokens (m :: members) ++ rest) = _
    rw [readFrom_memberTokens (m :: members) (List.cons_ne_nil m members) ((k, t) :: read) true,
      List.reverse_cons, List.append_assoc, List.singleton_append]

end

theorem ofTokens?_tokens (t : Tree) : ofTokens? t.tokens = some t := by
  have h := readFrom_tokens t (show acceptsValue [] = true from rfl) []
  rwa [List.append_nil] at h

end Tree

mutual

def toTree : Json → Tree
  | .null => .null
  | .bool b => .bool b
  | .int n => .number (.ofInt n)
  | .float bits =>
    match Literal.ofFloat? bits with
    | some l => .number l
    | none => .null
  | .str s => .str (some s)
  | .arr items => .arr (toTrees items)
  | .obj members => .obj (toMemberTrees members)

def toTrees : List Json → List Tree
  | [] => []
  | v :: rest => toTree v :: toTrees rest

def toMemberTrees : List (String × Json) → List (Option String × Tree)
  | [] => []
  | (k, v) :: rest => (some k, toTree v) :: toMemberTrees rest

end

theorem cutsBefore_null : CutsBefore ['n', 'u', 'l', 'l'] [.word .null] :=
  cutsBefore_word rfl rfl rfl

mutual

theorem cutsBefore_pretty (v : Json) (level : Nat) :
    CutsBefore (prettyChars level v) v.toTree.tokens := by
  match v with
  | .null => exact cutsBefore_null
  | .bool true => exact cutsBefore_word rfl rfl rfl
  | .bool false => exact cutsBefore_word rfl rfl rfl
  | .int n =>
    change CutsBefore (intChars n) [.number (.ofInt n)]
    rw [← Literal.chars_ofInt]
    exact (Literal.proper_ofInt n).cutsBefore
  | .float bits =>
    change CutsBefore (floatChars bits) (toTree (.float bits)).tokens
    rw [toTree]
    cases h : Literal.ofFloat? bits with
    | none =>
      rw [Literal.floatChars_of_none h]
      exact cutsBefore_null
    | some l =>
      rw [Literal.floatChars_of_some h]
      exact (Literal.proper_of_ofFloat? h).cutsBefore
  | .str s => exact (cuts_quoted s).cutsBefore
  | .arr [] =>
    have closing := cuts_of_lexBetween (c := ']') rfl
    exact (cuts_cons (c := '[') rfl closing).cutsBefore
  | .arr (v :: items) =>
    have inner := cuts_prettyItems (v :: items) (List.cons_ne_nil v items) (level + 1)
    exact (cuts_cons (c := '[') rfl inner).cutsBefore
  | .obj [] =>
    have closing := cuts_of_lexBetween (c := '\x7d') rfl
    exact (cuts_cons (c := '\x7b') rfl closing).cutsBefore
  | .obj (m :: members) =>
    have inner := cuts_prettyMembers (m :: members) (List.cons_ne_nil m members) (level + 1)
    exact (cuts_cons (c := '\x7b') rfl inner).cutsBefore

theorem cuts_prettyItems (items : List Json) (ne : items ≠ []) (level : Nat) :
    Cuts (prettyItems level items) (Tree.itemTokens (toTrees items)) := by
  match items with
  | [] => exact absurd rfl ne
  | [v] =>
    have item := (cuts_newline level).appendBefore (cutsBefore_pretty v level)
    have closing := cuts_closing (level - 1) (c := ']') (t := .closeArray) (by decide)
    rw [prettyItems, List.append_assoc]
    exact item.append closing ⟨rfl, rfl⟩
  | v :: w :: items =>
    have item := (cuts_newline level).appendBefore (cutsBefore_pretty v level)
    have more := cuts_prettyItems (w :: items) (List.cons_ne_nil w items) level
    have comma := cuts_cons (c := ',') rfl more
    exact item.append comma ⟨by decide, by decide⟩

theorem cuts_prettyMembers (members : List (String × Json)) (ne : members ≠ []) (level : Nat) :
    Cuts (prettyMembers level members) (Tree.memberTokens (toMemberTrees members)) := by
  have colon (s : List Char) (ts : List Token) (h : CutsBefore s ts) :
      CutsBefore (':' :: ' ' :: s) (.colon :: ts) :=
    (cuts_cons (c := ':') rfl (cuts_spaces 1)).appendBefore h
  match members with
  | [] => exact absurd rfl ne
  | [(k, v)] =>
    have key := (cuts_newline level).append (cuts_quoted k)
    have member := key.appendBefore (colon _ _ (cutsBefore_pretty v level))
    have closing := cuts_closing (level - 1) (c := '\x7d') (t := .closeObject) (by decide)
    rw [prettyMembers, List.append_assoc _ (newline (level - 1))]
    exact member.append closing ⟨rfl, rfl⟩
  | (k, v) :: m :: members =>
    have key := (cuts_newline level).append (cuts_quoted k)
    have member := key.appendBefore (colon _ _ (cutsBefore_pretty v level))
    have more := cuts_prettyMembers (m :: members) (List.cons_ne_nil m members) level
    have comma := cuts_cons (c := ',') rfl more
    exact member.append comma ⟨by decide, by decide⟩

end

/-- The text of a value is read as the tree that the value is written as, with blank space behind it
or not. -/
theorem Tree.parse?_pretty (v : Json) {space : String} (blank : Cuts space.toList [])
    (ends : Delimits space.toList) : Tree.parse? (v.pretty ++ space) = some v.toTree := by
  have cut := cutsBefore_pretty v 0 [] space.toList ends
  have done := blank (v.toTree.tokens.reverse ++ []) []
  rw [List.append_nil, List.append_nil] at done
  rw [Tree.parse?, tokens?, String.toList_append, pretty, String.toList_ofList, cut,
    List.append_nil, done]
  simp [lexFrom, lexEnd, Tree.ofTokens?_tokens]

end SitePublish.Json
