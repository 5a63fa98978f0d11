import Scriptlet.Proofs.Derivations
import Scriptlet.Proofs.Reading
import Scriptlet.Scope.Table

/-!
# Uses of names and the scopes around them

Every use of a name in a module has a number, and stands in some scopes.  Scopes are numbered in the
order in which the text opens them: the whole module is scope 0, and every function and every block
of an `if` or a `while` opens one.  Parsing numbers the uses of names by their order in the text,
without a gap (`Module.map_id_references`).
-/

namespace Scriptlet

/-- A use of a name. -/
structure Reference where
  /-- The number that the parser gave it. -/
  id : Nat
  name : String
  /-- How many arguments the name is called with, if it is called. -/
  args : Option Nat
  /-- The scopes around it, the innermost first. -/
  scopes : List Nat
  deriving Repr, DecidableEq

/-! ## The scopes of a module -/

mutual

/-- How many scopes a statement opens. -/
def Stmt.opened : Stmt → Nat
  | .fnStmt _ _ _ body => 1 + Stmt.openedIn body
  | .ifStmt _ _ body => 1 + Stmt.openedIn body
  | .ifElseStmt _ _ body other => 1 + Stmt.openedIn body + (1 + Stmt.openedIn other)
  | .whileStmt _ _ body => 1 + Stmt.openedIn body
  | .letStmt _ _ _ | .returnStmt _ _ | .breakStmt _ | .continueStmt _ | .exprStmt _ _ => 0

/-- How many scopes some statements open. -/
def Stmt.openedIn : List Stmt → Nat
  | [] => 0
  | s :: rest => s.opened + Stmt.openedIn rest

end

mutual

/-- The scopes that a statement opens, with the numbers from `next` on: the scope around each, and
what it belongs to. -/
def Stmt.scopes (around : List Nat) (next : Nat) : Stmt → List (Option Nat × ScopeKind)
  | .fnStmt _ _ _ body =>
    (around.head?, .function) :: Stmt.scopesIn (next :: around) (next + 1) body
  | .ifStmt _ _ body => (around.head?, .block) :: Stmt.scopesIn (next :: around) (next + 1) body
  | .ifElseStmt _ _ body other =>
    let second := next + (1 + Stmt.openedIn body)
    (around.head?, .block) :: Stmt.scopesIn (next :: around) (next + 1) body ++
      (around.head?, .block) :: Stmt.scopesIn (second :: around) (second + 1) other
  | .whileStmt _ _ body => (around.head?, .block) :: Stmt.scopesIn (next :: around) (next + 1) body
  | .letStmt _ _ _ | .returnStmt _ _ | .breakStmt _ | .continueStmt _ | .exprStmt _ _ => []

/-- The scopes that some statements open. -/
def Stmt.scopesIn (around : List Nat) (next : Nat) : List Stmt → List (Option Nat × ScopeKind)
  | [] => []
  | s :: rest => s.scopes around next ++ Stmt.scopesIn around (next + s.opened) rest

end

/-- The scopes of a module. -/
def Module.scopes (m : Module) : List (Option Nat × ScopeKind) :=
  (none, .global) :: Stmt.scopesIn [0] 1 m.body

mutual

theorem Stmt.length_scopes : ∀ (s : Stmt) (around : List Nat) (next : Nat),
    (s.scopes around next).length = s.opened
  | .fnStmt _ _ _ body, around, next | .ifStmt _ _ body, around, next
  | .whileStmt _ _ body, around, next => by
    rw [scopes, opened, List.length_cons, Stmt.length_scopesIn body, Nat.add_comm]
  | .ifElseStmt _ _ body other, around, next => by
    rw [scopes, opened, List.length_append, List.length_cons, List.length_cons,
      Stmt.length_scopesIn body, Stmt.length_scopesIn other]
    omega
  | .letStmt _ _ _, around, next | .returnStmt _ _, around, next | .breakStmt _, around, next
  | .continueStmt _, around, next | .exprStmt _ _, around, next => by
    rw [scopes, opened, List.length_nil]

theorem Stmt.length_scopesIn : ∀ (ss : List Stmt) (around : List Nat) (next : Nat),
    (Stmt.scopesIn around next ss).length = Stmt.openedIn ss
  | [], around, next => by rw [scopesIn, openedIn, List.length_nil]
  | s :: rest, around, next => by
    rw [scopesIn, openedIn, List.length_append, Stmt.length_scopes s, Stmt.length_scopesIn rest]

end

/-! ## The uses of names in a module -/

mutual

/-- The uses of names in an expression in the order of the text: a call comes before its
arguments. -/
def Expr.references (around : List Nat) : Expr → List Reference
  | .literal _ _ => []
  | .name _ id x => [⟨id, x, none, around⟩]
  | .binary _ _ left right => left.references around ++ right.references around
  | .not _ operand => operand.references around
  | .call _ id f args => ⟨id, f, some args.length, around⟩ :: Expr.referencesIn around args

/-- The uses of names in some expressions. -/
def Expr.referencesIn (around : List Nat) : List Expr → List Reference
  | [] => []
  | e :: rest => e.references around ++ Expr.referencesIn around rest

end

/-- The uses of names in an expression that may be missing. -/
def Expr.references? (around : List Nat) : Option Expr → List Reference
  | none => []
  | some e => e.references around

mutual

/-- The uses of names in a statement, whose scopes have the numbers from `next` on. -/
def Stmt.references (around : List Nat) (next : Nat) : Stmt → List Reference
  | .letStmt _ _ value => Expr.references? around value
  | .fnStmt _ _ _ body => Stmt.referencesIn (next :: around) (next + 1) body
  | .returnStmt _ value => Expr.references? around value
  | .breakStmt _ | .continueStmt _ => []
  | .ifStmt _ cond body =>
    cond.references around ++ Stmt.referencesIn (next :: around) (next + 1) body
  | .ifElseStmt _ cond body other =>
    let second := next + (1 + Stmt.openedIn body)
    cond.references around ++ Stmt.referencesIn (next :: around) (next + 1) body ++
      Stmt.referencesIn (second :: around) (second + 1) other
  | .whileStmt _ cond body =>
    cond.references around ++ Stmt.referencesIn (next :: around) (next + 1) body
  | .exprStmt _ value => value.references around

/-- The uses of names in some statements. -/
def Stmt.referencesIn (around : List Nat) (next : Nat) : List Stmt → List Reference
  | [] => []
  | s :: rest => s.references around next ++ Stmt.referencesIn around (next + s.opened) rest

end

/-- The uses of names in a module, in the order of its text. -/
def Module.references (m : Module) : List Reference := Stmt.referencesIn [0] 1 m.body

/-! ## Parsing numbers the uses of names -/

theorem Expr.references_withSpan (around : List Nat) (e : Expr) (span : Span) :
    (e.withSpan span).references around = e.references around := by
  cases e <;> rw [withSpan, references, references]

theorem Stmt.referencesIn_singleton (around : List Nat) (next : Nat) (s : Stmt) :
    Stmt.referencesIn around next [s] = s.references around next := by
  rw [referencesIn, referencesIn, List.append_nil]

theorem Cursor.nextId_of_passElse? {c c' : Cursor} (h : c.passElse? = some c') :
    c'.nextId = c.nextId := by
  unfold passElse? at h
  dsimp only at h
  split at h
  · cases h
    exact nextId_advance _
  · cases h

@[simp] theorem Cursor.nextId_skipNewlines (c : Cursor) : c.skipNewlines.nextId = c.nextId := rfl

@[simp] theorem Cursor.nextId_skipSeparators (c : Cursor) :
    c.skipSeparators.nextId = c.nextId := rfl

/-- The numbers of some uses of names are those from `first` on and below `last`, in this order. -/
structure Reference.Run (refs : List Reference) (first last : Nat) : Prop where
  le : first ≤ last
  ids : refs.map Reference.id = List.range' first (last - first)

namespace Reference.Run

variable {refs refs' : List Reference} {r : Reference} {a b c : Nat}

/-- No use of a name takes no number. -/
theorem nil (a : Nat) : Run [] a a :=
  ⟨Nat.le_refl a, by rw [Nat.sub_self, List.map_nil, List.range'_zero]⟩

/-- The numbers of two parts that are read one after the other follow on each other. -/
theorem append (h : Run refs a b) (h' : Run refs' b c) : Run (refs ++ refs') a c := by
  obtain ⟨hab, hids⟩ := h
  obtain ⟨hbc, hids'⟩ := h'
  refine ⟨Nat.le_trans hab hbc, ?_⟩
  have hb : b = a + (b - a) := by omega
  have hc : c - a = b - a + (c - b) := by omega
  rw [List.map_append, hids, hids', hc, ← List.range'_append_1, ← hb]

/-- A use of a name takes one number, and the next ones go to what follows. -/
theorem cons (hr : r.id = a) (h : Run refs (a + 1) b) : Run (r :: refs) a b := by
  obtain ⟨hle, hids⟩ := h
  have hb : b - a = b - (a + 1) + 1 := by omega
  refine ⟨Nat.le_of_succ_le hle, ?_⟩
  rw [List.map_cons, hids, hr, hb, List.range'_succ]

end Reference.Run

namespace Parse

/-- The uses of names in a phrase have the numbers from `first` on and below `last`, in the order of
the text.  Those of a left operand are read before the phrase, so they have the numbers below
`first`. -/
def Phrase.Numbered (first last : Nat) : Phrase → Prop
  | .expression _ e | .operand e => ∀ around, Reference.Run (e.references around) first last
  | .operators _ left e => ∀ around start, Reference.Run (left.references around) start first →
      Reference.Run (e.references around) start last
  | .arguments es => ∀ around, Reference.Run (Expr.referencesIn around es) first last
  | .parameters _ => last = first
  | .declaration s | .statement s | .conditional s | .definition s =>
    ∀ around next, Reference.Run (s.references around next) first last
  | .block b | .statements b | .items b =>
    ∀ around next, Reference.Run (Stmt.referencesIn around next b) first last

section

variable {a b c d : Nat} {e cond left right : Expr} {s : Stmt} {body other rest : Block}

/-- An operator takes no number, so the uses of its right operand follow those of the left. -/
theorem numbered_operator {minPrec prec : Nat} {op : BinaryOp} {span : Span}
    (hright : Phrase.Numbered a b (.expression prec right))
    (hrest : Phrase.Numbered b c (.operators minPrec (.binary span op left right) e)) :
    Phrase.Numbered a c (.operators minPrec left e) := by
  intro around start hleft
  refine hrest around start ?_
  rw [Expr.references]
  exact hleft.append (hright around)

/-- A call has the number before the ones of its arguments. -/
theorem numbered_call {f : String} {args : List Expr} {span : Span}
    (hargs : Phrase.Numbered (a + 1) b (.arguments args)) :
    Phrase.Numbered a b (.operand (.call span a f args)) := by
  intro around
  rw [Expr.references]
  exact .cons rfl (hargs around)

/-- An argument and the ones behind it. -/
theorem numbered_argument {es : List Expr} (hfirst : Phrase.Numbered a b (.expression 0 e))
    (hrest : Phrase.Numbered b c (.arguments es)) : Phrase.Numbered a c (.arguments (e :: es)) := by
  intro around
  rw [Expr.referencesIn]
  exact (hfirst around).append (hrest around)

/-- A statement and the ones behind it. -/
theorem run_statements (hfirst : ∀ around next, Reference.Run (s.references around next) a b)
    (hrest : ∀ around next, Reference.Run (Stmt.referencesIn around next rest) b c)
    (around : List Nat) (next : Nat) :
    Reference.Run (Stmt.referencesIn around next (s :: rest)) a c := by
  rw [Stmt.referencesIn]
  exact (hfirst around next).append (hrest around _)

/-- The uses in the body of a loop follow those in its condition. -/
theorem numbered_while {span : Span} (hcond : Phrase.Numbered a b (.expression 0 cond))
    (hbody : Phrase.Numbered b c (.block body)) :
    Phrase.Numbered a c (.statement (.whileStmt span cond body)) := by
  intro around next
  rw [Stmt.references]
  exact (hcond around).append (hbody _ _)

/-- The uses in the body of a conditional follow those in its condition. -/
theorem numbered_ifOnly {span : Span} (hcond : Phrase.Numbered a b (.expression 0 cond))
    (hbody : Phrase.Numbered b c (.block body)) :
    Phrase.Numbered a c (.conditional (.ifStmt span cond body)) := by
  intro around next
  rw [Stmt.references]
  exact (hcond around).append (hbody _ _)

/-- The uses in the alternative of a conditional come last. -/
theorem numbered_ifElse {span : Span} (hcond : Phrase.Numbered a b (.expression 0 cond))
    (hbody : Phrase.Numbered b c (.block body)) (hother : Phrase.Numbered c d (.block other)) :
    Phrase.Numbered a d (.conditional (.ifElseStmt span cond body other)) := by
  intro around next
  rw [Stmt.references]
  exact ((hcond around).append (hbody _ _)).append (hother _ _)

/-- A conditional behind the word `else` is numbered as the block with nothing else in it. -/
theorem numbered_singleton (h : Phrase.Numbered a b (.conditional s)) :
    Phrase.Numbered a b (.block [s]) := by
  intro around next
  rw [Stmt.referencesIn_singleton]
  exact h around next

/-- The uses of names in a function are those in its body. -/
theorem numbered_definition {span : Span} {f : String} {params : List String}
    (hparams : Phrase.Numbered a b (.parameters params))
    (hbody : Phrase.Numbered b c (.block body)) :
    Phrase.Numbered a c (.definition (.fnStmt span f params body)) := by
  obtain rfl : b = a := hparams
  intro around next
  rw [Stmt.references]
  exact hbody _ _

end

/-- Whatever is parsed, the uses of names in it get the next free numbers, in the order of the
text. -/
theorem Derives.numbered {phrase : Phrase} {c c' : Cursor} (h : Derives phrase c c') :
    phrase.Numbered c.nextId c'.nextId := by
  induction h with
  | expression _ _ hleft hrest => exact fun around => hrest around _ (hleft around)
  | noOperator _ => exact fun _ _ hleft => hleft
  | operator _ _ _ hright hrest =>
    rw [Cursor.nextId_advance] at hright
    exact numbered_operator hright hrest
  | number _ _ | string _ | bool _ =>
    intro around
    rw [Cursor.nextId_advance, Expr.references]
    exact .nil _
  | name _ _ =>
    intro around
    rw [Cursor.nextId_takeId, Cursor.nextId_advance, Expr.references]
    exact .cons rfl (.nil _)
  | call _ _ _ _ hargs =>
    simp only [Cursor.nextId_advance, Cursor.nextId_skipNewlines, Cursor.nextId_takeId] at hargs ⊢
    exact numbered_call hargs
  | parentheses _ _ _ hinner =>
    simp only [Cursor.nextId_advance, Cursor.nextId_skipNewlines] at hinner ⊢
    intro around
    rw [Expr.references_withSpan]
    exact hinner around
  | noArgument _ =>
    intro around
    rw [Expr.referencesIn]
    exact .nil _
  | lastArgument _ _ _ hlast =>
    intro around
    rw [Expr.referencesIn, Expr.referencesIn, List.append_nil]
    exact hlast around
  | argument _ _ _ _ hfirst hrest =>
    simp only [Cursor.nextId_advance, Cursor.nextId_skipNewlines] at hrest
    exact numbered_argument hfirst hrest
  | noParameter _ => exact rfl
  | lastParameter _ _ _ => exact Cursor.nextId_advance _
  | parameter _ _ _ _ hrest =>
    simp only [Cursor.nextId_advance, Cursor.nextId_skipNewlines] at hrest
    exact hrest
  | declaration _ _ _ _ hvalue =>
    simp only [Cursor.nextId_advance] at hvalue
    intro around next
    rw [Stmt.references]
    exact hvalue around
  | block _ _ hbody =>
    simp only [Cursor.nextId_advance, Cursor.nextId_skipSeparators, Cursor.nextId_skipNewlines]
      at hbody ⊢
    exact hbody
  | noStatement _ | noItem _ =>
    intro around next
    rw [Stmt.referencesIn]
    exact .nil _
  | statements _ _ _ hfirst hrest | letItem _ _ hfirst hrest | fnItem _ _ hfirst hrest =>
    exact run_statements hfirst hrest
  | letStatement _ hinner | ifStatement _ hinner => exact hinner
  | returnStatement _ _ | breakStatement _ | continueStatement _ =>
    intro around next
    rw [Cursor.nextId_advance, Stmt.references]
    exact .nil _
  | returnValue _ _ _ hvalue =>
    rw [Cursor.nextId_advance] at hvalue
    intro around next
    rw [Stmt.references]
    exact hvalue around
  | expressionStatement _ _ _ hvalue =>
    intro around next
    rw [Stmt.references]
    exact hvalue around
  | whileStatement _ _ _ hcond hbody =>
    rw [Cursor.nextId_advance] at hcond
    exact numbered_while hcond hbody
  | ifOnly _ _ _ _ hcond hbody =>
    rw [Cursor.nextId_advance] at hcond
    exact numbered_ifOnly hcond hbody
  | ifElseIf _ _ _ helse _ hcond hbody hother =>
    rw [Cursor.nextId_advance] at hcond
    rw [Cursor.nextId_of_passElse? helse] at hother
    exact numbered_ifElse hcond hbody (numbered_singleton hother)
  | ifElse _ _ _ helse _ _ hcond hbody hother =>
    rw [Cursor.nextId_advance] at hcond
    rw [Cursor.nextId_of_passElse? helse] at hother
    exact numbered_ifElse hcond hbody hother
  | definition _ _ _ _ _ _ hparams hbody =>
    simp only [Cursor.nextId_advance, Cursor.nextId_skipNewlines] at hparams hbody
    exact numbered_definition hparams hbody
  | skipped _ _ _ _ hrest =>
    simp only [Cursor.nextId_advance, Cursor.nextId_skipSeparators] at hrest
    exact hrest

end Parse

/-- The uses of names in a parsed module have the numbers from 0 on, in the order of the text. -/
theorem Module.map_id_references {tokens : List Token} {m : Module} (h : parse tokens = .ok m) :
    m.references.map Reference.id = List.range m.nodeCount := by
  obtain ⟨c, hitems, hcount⟩ := Module.derives_of_parse h
  have hids := (hitems.numbered [0] 1).ids
  have hstart : (Cursor.ofTokens tokens).nextId = 0 := rfl
  rw [hstart, Nat.sub_zero, ← hcount] at hids
  rw [List.range_eq_range']
  exact hids

end Scriptlet
