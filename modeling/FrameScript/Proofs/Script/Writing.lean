import FrameScript.Proofs.Number.Exact
import FrameScript.Proofs.Script.Tokens

/-!
# Expressions as texts

How expressions are written: operators with operands that bind tightly enough, and parentheses
around what does not. Blanks can stand between any two tokens, there can be more parentheses than
are required, a number can be written by every numeral that is read as it, and a string by every
escaped text. One of these texts has parentheses only where they are required.
-/

namespace FrameScript

mutual

def Expr.withoutLines : Expr → Expr
  | .list items => .list (itemsWithoutLines items)
  | .object fields => .object (fieldsWithoutLines fields)
  | .member e name => .member e.withoutLines name
  | .index e position => .index e.withoutLines position.withoutLines
  | .call callee args _ => .call callee.withoutLines (itemsWithoutLines args) 0
  | .unary op e => .unary op e.withoutLines
  | .binary op left right => .binary op left.withoutLines right.withoutLines
  | .logical op left right => .logical op left.withoutLines right.withoutLines
  | e => e

def Expr.itemsWithoutLines : List Expr → List Expr
  | [] => []
  | e :: rest => e.withoutLines :: itemsWithoutLines rest

def Expr.fieldsWithoutLines : List (String × Expr) → List (String × Expr)
  | [] => []
  | (key, e) :: rest => (key, e.withoutLines) :: fieldsWithoutLines rest

end

namespace Script

/-- How tightly an expression binds, the loosest first. -/
inductive Level where
  | disjunction | conjunction | equality | comparison | sum | product | prefixed | suffixed | atom
  deriving DecidableEq, Repr

/-- The next level; nothing is tighter than an atom. -/
def Level.tighter : Level → Level
  | disjunction => conjunction
  | conjunction => equality
  | equality => comparison
  | comparison => sum
  | sum => product
  | product => prefixed
  | prefixed => suffixed
  | suffixed | atom => atom

def Operator.level : Operator → Level
  | logical .or => .disjunction
  | logical .and => .conjunction
  | binary .eq | binary .ne => .equality
  | binary .lt | binary .lte | binary .gt | binary .gte => .comparison
  | binary .add | binary .sub => .sum
  | binary .mul | binary .div | binary .mod => .product

def Operator.symbol : Operator → String
  | logical .or => "||"
  | logical .and => "&&"
  | binary .eq => "=="
  | binary .ne => "!="
  | binary .lt => "<"
  | binary .lte => "<="
  | binary .gt => ">"
  | binary .gte => ">="
  | binary .add => "+"
  | binary .sub => "-"
  | binary .mul => "*"
  | binary .div => "/"
  | binary .mod => "%"

/-- The key of a field: a name, or any text in quotes. -/
inductive WritesKey : String → List Char → Prop
  | name {name : String} (h : IsName name) : WritesKey name name.toList
  | quoted {t : List Char} (h : Quotable t) :
    WritesKey (String.ofList (unescape t)) ('"' :: (t ++ ['"']))

/-- What can be written: an expression where one of a level is expected, the field of an object,
or what stands between brackets. -/
inductive Phrase where
  | expr (level : Level) (e : Expr)
  | field (key : String) (e : Expr)
  | items (es : List Expr)
  | fields (fs : List (String × Expr))

/-- The texts of a phrase. -/
inductive Writes : Phrase → List Char → Prop
  /-- What binds more tightly than is needed. -/
  | tighter {ℓ : Level} {e : Expr} {t : List Char} (h : Writes (.expr ℓ.tighter e) t) :
    Writes (.expr ℓ e) t
  /-- Operators of one level associate to the left. -/
  | operator (o : Operator) {left right : Expr} {t a b u : List Char}
    (h : Writes (.expr o.level left) t) (before : Gap a) (behind : Gap b)
    (k : Writes (.expr o.level.tighter right) u) :
    Writes (.expr o.level (o.apply left right)) (t ++ (a ++ (o.symbol.toList ++ (b ++ u))))
  | not {e : Expr} {a t : List Char} (behind : Gap a) (h : Writes (.expr .prefixed e) t) :
    Writes (.expr .prefixed (.unary .not e)) ('!' :: (a ++ t))
  /-- A number literal would take the sign in. -/
  | neg {e : Expr} {a t : List Char} (behind : Gap a) (h : Writes (.expr .prefixed e) t)
    (unsigned : ∀ x, e ≠ .num x) : Writes (.expr .prefixed (.unary .neg e)) ('-' :: (a ++ t))
  | member {e : Expr} {name : String} {t a b : List Char} (h : Writes (.expr .suffixed e) t)
    (before : Gap a) (behind : Gap b) (word : IsName name) :
    Writes (.expr .suffixed (.member e name)) (t ++ (a ++ ('.' :: (b ++ name.toList))))
  | index {e position : Expr} {t a b u d : List Char} (h : Writes (.expr .suffixed e) t)
    (before : Gap a) (opening : Gap b) (k : Writes (.expr .disjunction position) u)
    (closing : Gap d) :
    Writes (.expr .suffixed (.index e position)) (t ++ (a ++ ('[' :: (b ++ (u ++ (d ++ [']']))))))
  | call {e : Expr} {args : List Expr} {t a b u d : List Char} (h : Writes (.expr .suffixed e) t)
    (before : Gap a) (opening : Gap b) (k : Writes (.items args) u) (closing : Gap d)
    (line : Nat) :
    Writes (.expr .suffixed (.call e args line)) (t ++ (a ++ ('(' :: (b ++ (u ++ (d ++ [')']))))))
  | null : Writes (.expr .atom .null) "null".toList
  | bool (b : Bool) : Writes (.expr .atom (.bool b)) (if b then "true" else "false").toList
  | num {x : Number} {t : List Char} (h : Numeral t)
    (value : Number.ofText? (String.ofList t) = some x) : Writes (.expr .atom (.num x)) t
  | str {t : List Char} (h : Quotable t) :
    Writes (.expr .atom (.str (String.ofList (unescape t)))) ('"' :: (t ++ ['"']))
  | ident {name : String} (word : IsName name) : Writes (.expr .atom (.ident name)) name.toList
  | list {es : List Expr} {a t b : List Char} (opening : Gap a) (h : Writes (.items es) t)
    (closing : Gap b) : Writes (.expr .atom (.list es)) ('[' :: (a ++ (t ++ (b ++ [']']))))
  | object {fs : List (String × Expr)} {a t b : List Char} (opening : Gap a)
    (h : Writes (.fields fs) t) (closing : Gap b) :
    Writes (.expr .atom (.object fs)) ('\x7b' :: (a ++ (t ++ (b ++ ['\x7d']))))
  | parens {e : Expr} {a t b : List Char} (opening : Gap a) (h : Writes (.expr .disjunction e) t)
    (closing : Gap b) : Writes (.expr .atom e) ('(' :: (a ++ (t ++ (b ++ [')']))))
  | field {key : String} {e : Expr} {w a b t : List Char} (word : WritesKey key w)
    (before : Gap a) (behind : Gap b) (h : Writes (.expr .disjunction e) t) :
    Writes (.field key e) (w ++ (a ++ (':' :: (b ++ t))))
  | noItems : Writes (.items []) []
  | lastItem {e : Expr} {t : List Char} (h : Writes (.expr .disjunction e) t) :
    Writes (.items [e]) t
  | items {e f : Expr} {es : List Expr} {t a b u : List Char}
    (h : Writes (.expr .disjunction e) t) (before : Gap a) (behind : Gap b)
    (k : Writes (.items (f :: es)) u) :
    Writes (.items (e :: f :: es)) (t ++ (a ++ (',' :: (b ++ u))))
  | noFields : Writes (.fields []) []
  | lastField {key : String} {e : Expr} {t : List Char} (h : Writes (.field key e) t) :
    Writes (.fields [(key, e)]) t
  | fields {key : String} {e : Expr} {f : String × Expr} {fs : List (String × Expr)}
    {t a b u : List Char} (h : Writes (.field key e) t) (before : Gap a) (behind : Gap b)
    (k : Writes (.fields (f :: fs)) u) :
    Writes (.fields ((key, e) :: f :: fs)) (t ++ (a ++ (',' :: (b ++ u))))

def Level.rank : Level → Nat
  | disjunction => 0
  | conjunction => 1
  | equality => 2
  | comparison => 3
  | sum => 4
  | product => 5
  | prefixed => 6
  | suffixed => 7
  | atom => 8

/-- What passes from each level to the looser one passes to all of them. -/
theorem Level.loosen {P : Level → Prop} (step : ∀ ℓ : Level, P ℓ.tighter → P ℓ) {ℓ m : Level}
    (h : P m) (tight : ℓ.rank ≤ m.rank) : P ℓ := by
  generalize far : m.rank - ℓ.rank = n
  induction n generalizing ℓ with
  | zero =>
    have same : ℓ = m := by
      cases ℓ <;> cases m <;> first | rfl | (simp [Level.rank] at tight far)
    exact same ▸ h
  | succ n ih =>
    have next : ℓ.tighter.rank = ℓ.rank + 1 := by
      cases ℓ <;> first | rfl | (cases m <;> simp [Level.rank] at far)
    exact step ℓ (ih (by omega) (by omega))

def Level.of : Expr → Level
  | .binary op _ _ => (Operator.binary op).level
  | .logical op _ _ => (Operator.logical op).level
  | .unary _ _ => prefixed
  | .member _ _ | .index _ _ | .call _ _ _ => suffixed
  | _ => atom

/-- The text of an expression, in parentheses if it binds less tightly than is expected. -/
def placed (ℓ : Level) (e : Expr) (t : List Char) : List Char :=
  if (Level.of e).rank < ℓ.rank then '(' :: (t ++ [')']) else t

/-- A text that stands for these characters between quotes. -/
def escaped : List Char → List Char
  | [] => []
  | ch :: rest => if ch = '"' ∨ ch = '\\' then '\\' :: ch :: escaped rest else ch :: escaped rest

def quoted (s : String) : List Char := '"' :: (escaped s.toList ++ ['"'])

section

variable (numeral : Number → List Char)

mutual

/-- The text of an expression with parentheses only where they are required, and these numerals. -/
def written : Expr → List Char
  | .null => "null".toList
  | .bool b => (if b then "true" else "false").toList
  | .num x => numeral x
  | .str s => quoted s
  | .ident name => name.toList
  | .list es => '[' :: (writtenItems es ++ [']'])
  | .object fs => '\x7b' :: (writtenFields fs ++ ['\x7d'])
  | .member e name => placed .suffixed e (written e) ++ '.' :: name.toList
  | .index e position => placed .suffixed e (written e) ++ '[' :: (written position ++ [']'])
  | .call e args _ => placed .suffixed e (written e) ++ '(' :: (writtenItems args ++ [')'])
  | .unary .not e => '!' :: placed .prefixed e (written e)
  | .unary .neg e => '-' :: placed .prefixed e (written e)
  | .binary op left right =>
    let o := Operator.binary op
    placed o.level left (written left) ++
      ' ' :: (o.symbol.toList ++ ' ' :: placed o.level.tighter right (written right))
  | .logical op left right =>
    let o := Operator.logical op
    placed o.level left (written left) ++
      ' ' :: (o.symbol.toList ++ ' ' :: placed o.level.tighter right (written right))

def writtenItems : List Expr → List Char
  | [] => []
  | [e] => written e
  | e :: f :: rest => written e ++ ',' :: ' ' :: writtenItems (f :: rest)

def writtenFields : List (String × Expr) → List Char
  | [] => []
  | [(key, e)] => quoted key ++ ':' :: ' ' :: written e
  | (key, e) :: f :: rest =>
    (quoted key ++ ':' :: ' ' :: written e) ++ ',' :: ' ' :: writtenFields (f :: rest)

end

end

/-- Expressions that can be written: numbers are not negative, names are no keywords, and no sign
stands before a number. -/
inductive Writable : Expr → Prop
  | null : Writable .null
  | bool (b : Bool) : Writable (.bool b)
  | num {x : Number} (unsigned : x.isNegative = false) (number : x.isNaN = false) :
    Writable (.num x)
  | str (s : String) : Writable (.str s)
  | ident {name : String} (word : IsName name) : Writable (.ident name)
  | list {es : List Expr} (all : ∀ e ∈ es, Writable e) : Writable (.list es)
  | object {fs : List (String × Expr)} (all : ∀ f ∈ fs, Writable f.2) : Writable (.object fs)
  | member {e : Expr} {name : String} (h : Writable e) (word : IsName name) :
    Writable (.member e name)
  | index {e position : Expr} (h : Writable e) (k : Writable position) :
    Writable (.index e position)
  | call {e : Expr} {args : List Expr} (h : Writable e) (all : ∀ e ∈ args, Writable e)
    (line : Nat) : Writable (.call e args line)
  | not {e : Expr} (h : Writable e) : Writable (.unary .not e)
  | neg {e : Expr} (h : Writable e) (unsigned : ∀ x, e ≠ .num x) : Writable (.unary .neg e)
  | operator (o : Operator) {left right : Expr} (h : Writable left) (k : Writable right) :
    Writable (o.apply left right)

theorem gap_nil : Gap [] := by simp [Gap]

theorem gap_blank : Gap [' '] := by simp [Gap, isBlank]

theorem quotable_escaped (s : List Char) : Quotable (escaped s) := by
  induction s with
  | nil => exact .nil
  | cons ch rest ih =>
    rw [escaped]
    split
    · exact .escape ch ih
    · rename_i special
      obtain ⟨quote, slash⟩ := not_or.mp special
      exact .plain quote slash ih

theorem unescape_escaped (s : List Char) : unescape (escaped s) = s := by
  induction s with
  | nil => rfl
  | cons ch rest ih =>
    rw [escaped]
    split
    · rename_i special
      rw [unescape, ih]
      rcases special with rfl | rfl <;> rfl
    · rename_i special
      rw [unescape.eq_3 _ _ (by simp [(not_or.mp special).2]), ih]

namespace Writes

variable {e : Expr} {t : List Char} {ℓ : Level}

theorem loosen {m : Level} (h : Writes (.expr m e) t) (tight : ℓ.rank ≤ m.rank) :
    Writes (.expr ℓ e) t :=
  Level.loosen (P := fun ℓ => Writes (.expr ℓ e) t) (fun _ => .tighter) h tight

theorem of_atom (h : Writes (.expr .atom e) t) (ℓ : Level) : Writes (.expr ℓ e) t :=
  h.loosen (by cases ℓ <;> decide)

theorem loosest (h : Writes (.expr ℓ e) t) : Writes (.expr .disjunction e) t :=
  h.loosen (Nat.zero_le _)

theorem placed (h : Writes (.expr (Level.of e) e) t) (ℓ : Level) :
    Writes (.expr ℓ e) (placed ℓ e t) := by
  unfold Script.placed
  split
  · exact (parens gap_nil h.loosest gap_nil).of_atom ℓ
  · exact h.loosen (by omega)

end Writes

/-- The numerals are read as their numbers. -/
def Numerals (numeral : Number → List Char) : Prop :=
  ∀ x : Number, x.isNegative = false → x.isNaN = false →
    Numeral (numeral x) ∧ Number.ofText? (String.ofList (numeral x)) = some x

theorem digits_toDigits (n : Nat) : Digits (Nat.toDigits 10 n) :=
  ⟨Nat.toDigits_ne_nil, Number.Decimal.toDigits_all n⟩

theorem numerals_digits : Numerals Number.digits := by
  intro x unsigned number
  refine ⟨?_, Number.ofText?_digits unsigned number⟩
  cases x with
  | nan s => cases number
  | infinity s =>
    exact .mk (d := ['1']) ⟨by decide, List.all_eq_true.mp rfl⟩ .none
      (.plain (d := "999".toList) (.inl rfl) ⟨by decide, List.all_eq_true.mp rfl⟩)
  | finite s m e h =>
    cases e with
    | ofNat k =>
      have numeral := Numeral.mk (digits_toDigits (m * 2 ^ k)) .none .none
      rwa [List.append_nil, List.append_nil] at numeral
    | negSucc k =>
      exact .mk (digits_toDigits _) .none (.signed (.inl rfl) (.inr rfl) (digits_toDigits _))

section

variable {numeral : Number → List Char}

theorem writes_quoted (s : String) : Writes (.expr .atom (.str s)) (quoted s) := by
  have text : String.ofList (unescape (escaped s.toList)) = s := by
    rw [unescape_escaped, String.ofList_toList]
  have writes := Writes.str (quotable_escaped s.toList)
  rwa [text] at writes

theorem writesKey_quoted (key : String) : WritesKey key (quoted key) := by
  have text : String.ofList (unescape (escaped key.toList)) = key := by
    rw [unescape_escaped, String.ofList_toList]
  have writes := WritesKey.quoted (quotable_escaped key.toList)
  rwa [text] at writes

theorem writes_items {es : List Expr}
    (all : ∀ e ∈ es, Writes (.expr (Level.of e) e) (written numeral e)) :
    Writes (.items es) (writtenItems numeral es) := by
  induction es with
  | nil => exact .noItems
  | cons e rest ih =>
    obtain ⟨first, others⟩ := List.forall_mem_cons.mp all
    cases rest with
    | nil => exact .lastItem first.loosest
    | cons f rest => exact .items first.loosest gap_nil gap_blank (ih others)

theorem writes_fields {fs : List (String × Expr)}
    (all : ∀ f ∈ fs, Writes (.expr (Level.of f.2) f.2) (written numeral f.2)) :
    Writes (.fields fs) (writtenFields numeral fs) := by
  induction fs with
  | nil => exact .noFields
  | cons f rest ih =>
    obtain ⟨key, e⟩ := f
    obtain ⟨first, others⟩ := List.forall_mem_cons.mp all
    have own := Writes.field (writesKey_quoted key) gap_nil gap_blank first.loosest
    cases rest with
    | nil => exact .lastField own
    | cons f rest => exact .fields own gap_nil gap_blank (ih others)

/-- What is written with parentheses only where they are required is a text of the expression. -/
theorem Writable.writes {e : Expr} (h : Writable e) (numerals : Numerals numeral) :
    Writes (.expr (Level.of e) e) (written numeral e) := by
  induction h with
  | null => exact .null
  | bool b => exact .bool b
  | num unsigned number =>
    obtain ⟨own, read⟩ := numerals _ unsigned number
    exact .num own read
  | str s => exact writes_quoted s
  | ident word => exact .ident word
  | list _ ih => exact .list gap_nil (writes_items ih) gap_nil
  | object _ ih => exact .object gap_nil (writes_fields ih) gap_nil
  | member _ word ih => exact .member (ih.placed .suffixed) gap_nil gap_nil word
  | index _ _ ih ih' => exact .index (ih.placed .suffixed) gap_nil gap_nil ih'.loosest gap_nil
  | call _ _ line ih ih' =>
    exact .call (ih.placed .suffixed) gap_nil gap_nil (writes_items ih') gap_nil line
  | not _ ih => exact .not gap_nil (ih.placed .prefixed)
  | neg _ unsigned ih => exact .neg gap_nil (ih.placed .prefixed) unsigned
  | operator o _ _ ih ih' =>
    have whole := Writes.operator o (ih.placed o.level) gap_blank gap_blank
      (ih'.placed o.level.tighter)
    cases o with
    | binary op => exact whole
    | logical op => exact whole

end

/-- A right operand of the same level has parentheses, a left one does not. -/
example : written (fun _ => ['1']) (.binary .sub (.binary .sub (.ident "a") (.ident "b"))
    (.binary .sub (.ident "c") (.num (.ofNat 1)))) = "a - b - (c - 1)".toList := by decide +kernel

end Script
end FrameScript
