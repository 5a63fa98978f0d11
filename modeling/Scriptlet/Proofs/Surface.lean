import Scriptlet.Proofs.Rendering

/-!
# The surface language

The modules that can be written down (`Module.IsSurface`): outside of functions there are only
declarations with a value and functions, functions are not nested, all operations have a mark, and
no expression that stands as a statement starts with a name that means something else there.  Every
such module has tokens (`Module.exists_renders`).
-/

namespace Scriptlet

/-! ## Expressions -/

/-- Whether a literal can be written down; for a number this means that some text is read as it. -/
def Literal.IsWritable : Literal → Prop
  | .int n => ∃ text, ofNumber? text = some (.int n)
  | .float x => ∃ text, ofNumber? text = some (.float x)
  | .str _ => True
  | .bool _ => True

mutual

/-- Whether an expression belongs to the surface language. -/
def Expr.IsSurface : Expr → Prop
  | .literal _ value => value.IsWritable
  | .name _ _ _ => True
  | .binary _ op left right => op.mark?.isSome = true ∧ left.IsSurface ∧ right.IsSurface
  | .not _ _ => False
  | .call _ _ _ args => Expr.AllSurface args

def Expr.AllSurface : List Expr → Prop
  | [] => True
  | e :: rest => e.IsSurface ∧ Expr.AllSurface rest

end

/-- Whether an expression binds less tightly than a given precedence. -/
def Expr.isLooser (p : Nat) : Expr → Bool
  | .binary _ op _ _ => op.precedence < p
  | _ => false

/-- The name that an expression starts with where it is written down, if it starts with one. -/
def Expr.leading? : Expr → Option String
  | .name _ _ x => some x
  | .call _ _ f _ => some f
  | .binary _ op left _ => if left.isLooser op.precedence then none else left.leading?
  | .literal _ _ => none
  | .not _ _ => none

/-! ## Statements and modules -/

mutual

/-- Whether a statement inside a function belongs to the surface language. -/
def Stmt.IsSurface : Stmt → Prop
  | .letStmt _ _ none => False
  | .letStmt _ _ (some value) => value.IsSurface
  | .fnStmt _ _ _ _ => False
  | .returnStmt _ none => True
  | .returnStmt _ (some value) => value.IsSurface
  | .breakStmt _ => True
  | .continueStmt _ => True
  | .ifStmt _ cond body => cond.IsSurface ∧ Stmt.AllSurface body
  | .ifElseStmt _ cond body other => cond.IsSurface ∧ Stmt.AllSurface body ∧ Stmt.AllSurface other
  | .whileStmt _ cond body => cond.IsSurface ∧ Stmt.AllSurface body
  | .exprStmt _ value =>
    value.IsSurface ∧ value.leading? ≠ some breakName ∧ value.leading? ≠ some continueName

def Stmt.AllSurface : List Stmt → Prop
  | [] => True
  | s :: rest => s.IsSurface ∧ Stmt.AllSurface rest

end

/-- Whether a statement outside of functions belongs to the surface language. -/
def Stmt.IsSurfaceItem : Stmt → Prop
  | .letStmt _ _ (some value) => value.IsSurface
  | .fnStmt _ _ _ body => Stmt.AllSurface body
  | _ => False

/-- Whether a module belongs to the surface language. -/
def Module.IsSurface (m : Module) : Prop := ∀ s ∈ m.body, s.IsSurfaceItem

/-! ## Leading names -/

/-- An expression whose first token is a name does not stand in parentheses. -/
theorem Expr.Renders.isLooser_of_identifier {p : Nat} {e : Expr} {t : Token} {ts : List Token}
    (h : e.Renders p (t :: ts)) (ht : t.kind = .identifier) : e.isLooser p = false := by
  generalize hu : t :: ts = us at h
  cases h with
  | binary hp _ _ _ _ => exact decide_eq_false (Nat.not_lt.mpr hp)
  | parentheses _ hopening _ _ =>
    cases hu
    rw [ht] at hopening
    cases hopening
  | _ => rfl

/-- If the first token of an expression is a name, it is the leading name. -/
theorem Expr.Renders.leading?_eq {p : Nat} {e : Expr} {ts : List Token} (h : e.Renders p ts) :
    ∀ t ∈ ts.head?, t.kind = .identifier → e.leading? = some t.text := by
  intro u hu hkind
  cases h with
  | number ht _ =>
    cases hu
    rw [ht] at hkind
    cases hkind
  | string ht =>
    cases hu
    rw [ht] at hkind
    cases hkind
  | bool ht =>
    cases hu
    rw [ht] at hkind
    cases hkind
  | name _ =>
    cases hu
    rfl
  | call _ _ _ _ =>
    cases hu
    rfl
  | binary _ _ hleft _ _ =>
    -- An operator stands behind its left operand, so this has the first token.  It is not in
    -- parentheses, since it starts with a name.
    obtain ⟨t, rest, rfl, -⟩ := hleft.exists_first
    cases hu
    rw [Expr.leading?, hleft.isLooser_of_identifier hkind]
    exact hleft.leading?_eq _ rfl hkind
  | parentheses _ hopening _ _ =>
    cases hu
    rw [hopening] at hkind
    cases hkind

/-! ## Every module of the surface language has tokens -/

namespace Token

/-- A name as a token. -/
def ofName (x : String) : Token := ⟨.identifier, x, .zero⟩

/-- A reserved word as a token. -/
def ofKeyword (word : Keyword) : Token := ⟨.keyword word, word.spelling, .zero⟩

/-- A mark as a token. -/
def ofMark (mark : Operator) : Token := ⟨.operator mark, mark.spelling, .zero⟩

/-- A line end as a token. -/
def lineEnd : Token := ⟨.newline, "\n", .zero⟩

end Token

/-- A literal that has a token is written with it. -/
theorem Literal.IsWritable.exists_renders {value : Literal} (h : value.IsWritable) (span : Span)
    (p : Nat) : ∃ ts, (Expr.literal span value).Renders p ts := by
  cases value with
  | int n =>
    obtain ⟨text, htext⟩ := h
    exact ⟨_, .number (t := ⟨.number, text, .zero⟩) rfl htext⟩
  | float x =>
    obtain ⟨text, htext⟩ := h
    exact ⟨_, .number (t := ⟨.number, text, .zero⟩) rfl htext⟩
  | str text => exact ⟨_, .string (t := ⟨.string, text, .zero⟩) rfl⟩
  | bool b => exact ⟨_, .bool (t := .ofKeyword (if b then .trueWord else .falseWord)) rfl⟩

mutual

/-- Every expression of the surface language can be written, with parentheses where its place asks
for them. -/
theorem Expr.exists_renders : ∀ (e : Expr), e.IsSurface → ∀ p, ∃ ts, e.Renders p ts
  | .literal span value, h, p => by
    rw [Expr.IsSurface] at h
    exact h.exists_renders span p
  | .name _ _ x, _, p => ⟨_, .name (t := .ofName x) rfl⟩
  | .binary span op left right, h, p => by
    rw [Expr.IsSurface] at h
    obtain ⟨hop, hleft, hright⟩ := h
    obtain ⟨mark, hmark⟩ := Option.isSome_iff_exists.mp hop
    obtain ⟨ls, hls⟩ := Expr.exists_renders left hleft op.precedence
    obtain ⟨rs, hrs⟩ := Expr.exists_renders right hright (op.precedence + 1)
    have hbare {q : Nat} (hq : q ≤ op.precedence) : (Expr.binary span op left right).Renders q
        (ls ++ .ofMark mark :: rs) := .binary hq hmark hls rfl hrs
    by_cases hp : p ≤ op.precedence
    · exact ⟨_, hbare hp⟩
    · exact ⟨.ofMark .lParen :: (_ ++ [.ofMark .rParen]),
        .parentheses (Nat.lt_of_not_le hp) rfl (hbare (Nat.zero_le _)) rfl⟩
  | .not _ _, h, _ => by
    rw [Expr.IsSurface] at h
    exact h.elim
  | .call _ _ f args, h, p => by
    rw [Expr.IsSurface] at h
    obtain ⟨ts, hts⟩ := Expr.exists_rendersAll args h
    exact ⟨.ofName f :: .ofMark .lParen :: (ts ++ [.ofMark .rParen]),
      .call (t := .ofName f) rfl rfl hts rfl⟩

/-- Some expressions of the surface language can be written as arguments. -/
theorem Expr.exists_rendersAll :
    ∀ (es : List Expr), Expr.AllSurface es → ∃ ts, Expr.RendersAll es ts
  | [], _ => ⟨[], .nil⟩
  | [e], h => by
    rw [Expr.AllSurface] at h
    obtain ⟨ts, hts⟩ := Expr.exists_renders e h.1 0
    exact ⟨ts, .one hts⟩
  | e :: e' :: es, h => by
    rw [Expr.AllSurface] at h
    obtain ⟨ts, hts⟩ := Expr.exists_renders e h.1 0
    obtain ⟨us, hus⟩ := Expr.exists_rendersAll (e' :: es) h.2
    exact ⟨ts ++ .ofMark .comma :: us, .cons hts rfl hus⟩

end

mutual

/-- Every statement of the surface language can be written. -/
theorem Stmt.exists_renders : ∀ (s : Stmt), s.IsSurface → ∃ ts, s.Renders ts
  | .letStmt _ _ none, h => by
    rw [Stmt.IsSurface] at h
    exact h.elim
  | .letStmt _ x (some value), h => by
    rw [Stmt.IsSurface] at h
    obtain ⟨ts, hts⟩ := value.exists_renders h 0
    exact ⟨.ofKeyword .letWord :: .ofName x :: .ofMark .eq :: ts,
      .letStmt (x := .ofName x) rfl rfl rfl hts⟩
  | .fnStmt _ _ _ _, h => by
    rw [Stmt.IsSurface] at h
    exact h.elim
  | .returnStmt _ none, _ => ⟨[.ofKeyword .returnWord], .returnNone rfl⟩
  | .returnStmt _ (some value), h => by
    rw [Stmt.IsSurface] at h
    obtain ⟨ts, hts⟩ := value.exists_renders h 0
    exact ⟨.ofKeyword .returnWord :: ts, .returnSome rfl hts⟩
  | .breakStmt _, _ => ⟨[.ofName breakName], .breakStmt (by decide)⟩
  | .continueStmt _, _ => ⟨[.ofName continueName], .continueStmt (by decide)⟩
  | .ifStmt _ cond body, h => by
    rw [Stmt.IsSurface] at h
    obtain ⟨cs, hcs⟩ := cond.exists_renders h.1 0
    obtain ⟨bs, hbs⟩ := Stmt.exists_rendersBlock body h.2
    exact ⟨.ofKeyword .ifWord :: (cs ++ bs), .ifStmt rfl hcs hbs⟩
  | .ifElseStmt _ cond body other, h => by
    rw [Stmt.IsSurface] at h
    obtain ⟨cs, hcs⟩ := cond.exists_renders h.1 0
    obtain ⟨bs, hbs⟩ := Stmt.exists_rendersBlock body h.2.1
    obtain ⟨os, hos⟩ := Stmt.exists_rendersBlock other h.2.2
    exact ⟨.ofKeyword .ifWord :: (cs ++ (bs ++ ([] ++ .ofKeyword .elseWord :: os))),
      .ifElseStmt rfl hcs hbs nofun rfl hos⟩
  | .whileStmt _ cond body, h => by
    rw [Stmt.IsSurface] at h
    obtain ⟨cs, hcs⟩ := cond.exists_renders h.1 0
    obtain ⟨bs, hbs⟩ := Stmt.exists_rendersBlock body h.2
    exact ⟨.ofKeyword .whileWord :: (cs ++ bs), .whileStmt rfl hcs hbs⟩
  | .exprStmt _ value, h => by
    rw [Stmt.IsSurface] at h
    obtain ⟨hvalue, hbreak, hcontinue⟩ := h
    obtain ⟨ts, hts⟩ := value.exists_renders hvalue 0
    have hfirst {x : String} (hx : value.leading? ≠ some x) :
        ∀ t ∈ ts.head?, t.isName x = false := by
      intro t ht
      rw [← Bool.not_eq_true]
      intro hname
      have hleading := hts.leading?_eq t ht (Token.kind_of_isName hname)
      rw [Token.isName, Bool.and_eq_true, beq_iff_eq, beq_iff_eq] at hname
      rw [hname.2] at hleading
      exact hx hleading
    exact ⟨ts, .exprStmt hts fun t ht => ⟨hfirst hbreak t ht, hfirst hcontinue t ht⟩⟩

/-- A block of such statements can be written between braces. -/
theorem Stmt.exists_rendersBlock (ss : List Stmt) (h : Stmt.AllSurface ss) :
    ∃ ts, Stmt.RendersBlock ss ts := by
  obtain ⟨ts, hts⟩ := Stmt.exists_rendersLines ss h
  exact ⟨.ofMark .lBrace :: ([] ++ (ts ++ [.ofMark .rBrace])), .block rfl nofun hts rfl⟩

/-- Statements can be written on lines of their own. -/
theorem Stmt.exists_rendersLines :
    ∀ (ss : List Stmt), Stmt.AllSurface ss → ∃ ts, Stmt.RendersLines ss ts
  | [], _ => ⟨[], .nil⟩
  | s :: ss, h => by
    rw [Stmt.AllSurface] at h
    obtain ⟨ts, hts⟩ := Stmt.exists_renders s h.1
    obtain ⟨us, hus⟩ := Stmt.exists_rendersLines ss h.2
    exact ⟨ts ++ .lineEnd :: us, .cons hts rfl hus⟩

end

theorem exists_rendersParams : ∀ params : List String, ∃ ts, RendersParams params ts
  | [] => ⟨[], .nil⟩
  | [param] => ⟨_, .one (x := .ofName param) rfl⟩
  | param :: param' :: params => by
    obtain ⟨us, hus⟩ := exists_rendersParams (param' :: params)
    exact ⟨.ofName param :: .ofMark .comma :: us, .cons (x := .ofName param) rfl rfl hus⟩

/-- Every item of the surface language can be written. -/
theorem Stmt.exists_rendersItem {s : Stmt} (h : s.IsSurfaceItem) : ∃ ts, s.RendersItem ts := by
  cases s with
  | letStmt span x value =>
    cases value with
    | none => exact h.elim
    | some value =>
      obtain ⟨ts, hts⟩ := Stmt.exists_renders (.letStmt span x (some value)) h
      exact ⟨ts, .letStmt hts⟩
  | fnStmt span f params body =>
    obtain ⟨ps, hps⟩ := exists_rendersParams params
    obtain ⟨bs, hbs⟩ := Stmt.exists_rendersBlock body h
    exact ⟨.ofKeyword .fnWord :: .ofName f :: .ofMark .lParen :: (ps ++ .ofMark .rParen :: bs),
      .fnStmt (f := .ofName f) rfl rfl rfl hps rfl hbs⟩
  | _ => exact h.elim

/-- Every module of the surface language can be written down. -/
theorem Module.exists_renders {m : Module} (h : m.IsSurface) : ∃ tokens, m.Renders tokens := by
  have hitems : ∀ ss : List Stmt, (∀ s ∈ ss, s.IsSurfaceItem) → ∃ ts, Stmt.RendersItems ss ts := by
    intro ss hss
    induction ss with
    | nil => exact ⟨[], .nil⟩
    | cons s ss ih =>
      obtain ⟨ts, hts⟩ := Stmt.exists_rendersItem (hss s (List.mem_cons_self ..))
      obtain ⟨us, hus⟩ := ih fun u hu => hss u (List.mem_cons_of_mem _ hu)
      exact ⟨ts ++ .lineEnd :: us, .cons hts rfl hus⟩
  obtain ⟨ts, hts⟩ := hitems m.body h
  exact ⟨ts ++ [], ts, [], rfl, hts, .inl rfl⟩

end Scriptlet
