import UriTemplate.Proofs.Percent
import UriTemplate.Syntax.Term

/-!
The grammar of template sources, as relations between a text and what it writes. A relation says
what may be written and nothing of how it is read: no rule asks for a longest match. The items of a
source are its literal characters, its triplets and its expressions; the terms of a source are its
items with every run of literals made one.
-/

namespace UriTemplate

namespace Term

/-- A term before others. Literals that meet are one. -/
def before : Term → List Term → List Term
  | .literal t, .literal t' :: ts => .literal (t ++ t') :: ts
  | x, ts => x :: ts

/-- The terms with every run of literals made one. -/
def fused (ts : List Term) : List Term := ts.foldr before []

lemma isFuture_expression {op : Operator} {vs : List Varspec} :
    (expression op vs).isFuture = false ↔ op ≠ .future := by
  cases op <;> simp [isFuture]

end Term

namespace Grammar

/-- Triplets that write octets, in either case. -/
inductive Triplets : Text → List UInt8 → Prop where
  | nil : Triplets [] []
  | cons {a b : CodePoint} {u : Text} {bs : List UInt8}
    (ha : CharClass.hexDigit.admits a = true) (hb : CharClass.hexDigit.admits b = true)
    (h : Triplets u bs) : Triplets ('%' :: a :: b :: u) (Percent.octet a b :: bs)

/-- A character of a name: a letter, a digit or an underscore, or the triplets of the UTF-8 form of
one character. -/
inductive Varchar : Text → CodePoint → Prop where
  | plain {c : CodePoint} (h : CharClass.varchar.admits c = true) : Varchar [c] c
  | encoded {u : Text} {c : Char} (h : Triplets u (String.utf8EncodeChar c)) : Varchar u c

/-- A character of a name, with a dot before it or without. -/
inductive Dotted : Text → Text → Prop where
  | plain {u : Text} {c : CodePoint} (h : Varchar u c) : Dotted u [c]
  | dot {u : Text} {c : CodePoint} (h : Varchar u c) : Dotted ('.' :: u) ['.', c]

/-- Any number of characters of a name, each with a dot before it or without. -/
inductive NameRest : Text → Text → Prop where
  | nil : NameRest [] []
  | cons {u s t d : Text} (h : Dotted u t) (hs : NameRest s d) : NameRest (u ++ s) (t ++ d)

/-- A name and what it is when its triplets are read. -/
inductive Varname : Text → Text → Prop where
  | mk {u s d : Text} {c : CodePoint} (h : Varchar u c) (hs : NameRest s d) :
    Varname (u ++ s) (c :: d)

/-- The number that decimal digits write. -/
def decimal (ds : Text) : Nat := ds.foldl (fun n c => 10 * n + (c.val - 0x30)) 0

/-- A number of one to four digits, the first of which is not zero. -/
inductive Length : Text → CutLength → Prop where
  | mk {d : CodePoint} {ds : Text} {n : CutLength} (hd : 0x31 ≤ d.val ∧ d.val ≤ 0x39)
    (hds : ∀ c ∈ ds, CharClass.digit.admits c = true) (hl : ds.length ≤ 3)
    (hn : n.val = decimal (d :: ds)) : Length (d :: ds) n

/-- What may stand after a name. -/
inductive Suffix : Text → Modifier → Prop where
  | whole : Suffix [] .whole
  | cut {u : Text} {n : CutLength} (h : Length u n) : Suffix (':' :: u) (.cut n)
  | explode : Suffix ['*'] .explode

/-- A variable with its modifier. -/
inductive Variable : Text → Varspec → Prop where
  | mk {u d s : Text} {m : Modifier} (hn : Varname u d) (hm : Suffix s m) :
    Variable (u ++ s) ⟨u, d, m⟩

/-- Any number of variables, each with a comma before it. -/
inductive MoreVariables : Text → List Varspec → Prop where
  | nil : MoreVariables [] []
  | cons {u s : Text} {v : Varspec} {vs : List Varspec} (h : Variable u v)
    (hs : MoreVariables s vs) : MoreVariables (',' :: (u ++ s)) (v :: vs)

/-- Variables with commas between them. There may be none. -/
inductive VariableList : Text → List Varspec → Prop where
  | empty : VariableList [] []
  | list {u s : Text} {v : Varspec} {vs : List Varspec} (h : Variable u v)
    (hs : MoreVariables s vs) : VariableList (u ++ s) (v :: vs)

/-- What stands before the variables, and the operator that it selects. -/
inductive Opener : Text → Operator → Prop where
  | simple : Opener [] .simple
  | reserved : Opener ['+'] .reserved
  | fragment : Opener ['#'] .fragment
  | label : Opener ['.'] .label
  | pathSegment : Opener ['/'] .pathSegment
  | pathParam : Opener [';'] .pathParam
  | queryForm : Opener ['?'] .queryForm
  | queryContinuation : Opener ['&'] .queryContinuation
  | equals : Opener ['='] .future
  | comma : Opener [','] .future
  | exclamation : Opener ['!'] .future
  | atSign : Opener ['@'] .future
  | bar : Opener ['|'] .future

inductive Expression : Text → Operator → List Varspec → Prop where
  | mk {o u : Text} {op : Operator} {vs : List Varspec} (ho : Opener o op)
    (hu : VariableList u vs) : Expression ('{' :: (o ++ (u ++ [.ofChar '}']))) op vs

/-- A literal character or a triplet, and what it gives. -/
inductive Literal : Text → Text → Prop where
  | verbatim {c : CodePoint} (h : CharClass.literal.admits c = true) : Literal [c] [c]
  | escaped {c : CodePoint}
    (h : CharClass.ucschar.admits c = true ∨ CharClass.iprivate.admits c = true) :
    Literal [c] (Percent.escape c)
  | triplet {a b : CodePoint} (ha : CharClass.hexDigit.admits a = true)
    (hb : CharClass.hexDigit.admits b = true) : Literal ['%', a, b] ['%', a, b]

inductive Item : Text → Term → Prop where
  | literal {u t : Text} (h : Literal u t) : Item u (.literal t)
  | expression {u : Text} {op : Operator} {vs : List Varspec} (h : Expression u op vs) :
    Item u (.expression op vs)

/-- A source: any number of items. -/
inductive Source : Text → List Term → Prop where
  | nil : Source [] []
  | cons {u s : Text} {x : Term} {xs : List Term} (h : Item u x) (hs : Source s xs) :
    Source (u ++ s) (x :: xs)

lemma source_singleton {u : Text} {x : Term} (h : Item u x) : Source u [x] := by
  simpa using Source.cons h .nil

/-- An expression with a single name, which has no modifier. -/
lemma source_of_name {o u d : Text} {op : Operator} (ho : Opener o op) (hn : Varname u d) :
    Source (.ofChar '{' :: (o ++ (u ++ [.ofChar '}']))) [.expression op [⟨u, d, .whole⟩]] := by
  have hvar : Variable u ⟨u, d, .whole⟩ := by simpa using Variable.mk hn .whole
  have hlist : VariableList u [⟨u, d, .whole⟩] := by simpa using VariableList.list hvar .nil
  exact source_singleton (.expression (.mk ho hlist))

end Grammar

end UriTemplate
