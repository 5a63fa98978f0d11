import Scriptlet.Compile
import Scriptlet.Proofs.Balance
import Scriptlet.Proofs.Derivations
import Scriptlet.Proofs.Surface

/-!
# What is parsed stays in the surface language

A parsed module has only declarations with a value and functions outside of functions, and in
functions everything else but functions (`Module.IsParsed`).  So its program has no return outside
of functions, and a run of it can end at the end of the code only, with nothing left on the stack
(`Compile.ends_at_end`).
-/

namespace Scriptlet

/-! ## Parsed modules -/

mutual

/-- Whether a statement can be parsed in the body of a function.  Unlike in `Stmt.IsSurface`, an
expression may stand in parentheses that hide a name it starts with. -/
def Stmt.InBody : Stmt → Prop
  | .letStmt _ _ none => False
  | .letStmt _ _ (some value) => value.IsSurface
  | .fnStmt _ _ _ _ => False
  | .returnStmt _ none => True
  | .returnStmt _ (some value) => value.IsSurface
  | .breakStmt _ => True
  | .continueStmt _ => True
  | .ifStmt _ cond body => cond.IsSurface ∧ Stmt.AllInBody body
  | .ifElseStmt _ cond body other => cond.IsSurface ∧ Stmt.AllInBody body ∧ Stmt.AllInBody other
  | .whileStmt _ cond body => cond.IsSurface ∧ Stmt.AllInBody body
  | .exprStmt _ value => value.IsSurface

def Stmt.AllInBody : List Stmt → Prop
  | [] => True
  | s :: rest => s.InBody ∧ Stmt.AllInBody rest

end

/-- Whether a statement can be parsed outside of functions. -/
def Stmt.IsItem : Stmt → Prop
  | .letStmt _ _ (some value) => value.IsSurface
  | .fnStmt _ _ _ body => Stmt.AllInBody body
  | _ => False

/-- Whether a module has only what can be parsed. -/
def Module.IsParsed (m : Module) : Prop := ∀ s ∈ m.body, s.IsItem

namespace Parse

/-- The parts of a phrase belong to the surface language. -/
def Phrase.InSurface : Phrase → Prop
  | .expression _ e => e.IsSurface
  | .operators _ left e => left.IsSurface → e.IsSurface
  | .operand e => e.IsSurface
  | .arguments es => Expr.AllSurface es
  | .parameters _ => True
  | .declaration s => s.IsItem ∧ s.InBody
  | .block b => Stmt.AllInBody b
  | .statements b => Stmt.AllInBody b
  | .statement s => s.InBody
  | .conditional s => s.InBody
  | .definition s => s.IsItem
  | .items b => ∀ s ∈ b, s.IsItem

theorem isSurface_withSpan {e : Expr} (h : e.IsSurface) (span : Span) :
    (e.withSpan span).IsSurface := by
  cases e <;> exact h

/-- An operation that stands ahead has a mark. -/
theorem isSome_mark?_of_operatorAhead? {minPrec prec : Nat} {c : Cursor} {op : BinaryOp}
    (h : operatorAhead? minPrec c = some (op, prec)) : op.mark?.isSome = true := by
  have hmarks : ∀ mark, BinaryOp.ofOperator? mark = some op → op.mark?.isSome = true := by
    intro mark hmark
    cases mark <;> cases hmark <;> rfl
  unfold operatorAhead? operatorOf? at h
  split at h
  · next mark hkind =>
    split at h
    · next hop =>
      split at h
      · cases h
        exact hmarks mark hop
      · cases h
    · cases h
  · cases h

/-- Whatever is parsed belongs to the surface language. -/
theorem Derives.inSurface {phrase : Phrase} {c c' : Cursor} (h : Derives phrase c c') :
    phrase.InSurface := by
  induction h with
  | expression _ _ hleft hrest => exact hrest hleft
  | noOperator _ => exact fun hleft => hleft
  -- An operator that is read has a mark, and its left operand was read before it.
  | operator hahead _ _ hright hrest =>
    intro hleft
    refine hrest ?_
    rw [Expr.IsSurface]
    exact ⟨isSome_mark?_of_operatorAhead? hahead, hleft, hright⟩
  | @number value _ _ hvalue =>
    show Expr.IsSurface _
    rw [Expr.IsSurface]
    cases value with
    | int n => exact ⟨_, hvalue⟩
    | float x => exact ⟨_, hvalue⟩
    | str _ => trivial
    | bool _ => trivial
  | string _ | bool _ | name _ _ =>
    show Expr.IsSurface _
    rw [Expr.IsSurface]
    trivial
  | call _ _ _ _ hargs =>
    show Expr.IsSurface _
    rw [Expr.IsSurface]
    exact hargs
  | parentheses _ _ _ hinner => exact isSurface_withSpan hinner _
  | noArgument _ =>
    show Expr.AllSurface _
    rw [Expr.AllSurface]
    trivial
  | lastArgument _ _ _ hlast =>
    show Expr.AllSurface _
    rw [Expr.AllSurface, Expr.AllSurface]
    exact ⟨hlast, trivial⟩
  | argument _ _ _ _ hfirst hrest =>
    show Expr.AllSurface _
    rw [Expr.AllSurface]
    exact ⟨hfirst, hrest⟩
  | noParameter _ | lastParameter _ _ _ | parameter _ _ _ _ _ => trivial
  -- A declaration can be a statement or an item, so what is asked of both is shown.
  | declaration _ _ _ _ hvalue =>
    refine ⟨hvalue, ?_⟩
    rw [Stmt.InBody]
    exact hvalue
  | block _ _ hbody => exact hbody
  | noStatement _ =>
    show Stmt.AllInBody _
    rw [Stmt.AllInBody]
    trivial
  | statements _ _ _ hfirst hrest =>
    show Stmt.AllInBody _
    rw [Stmt.AllInBody]
    exact ⟨hfirst, hrest⟩
  | letStatement _ hdeclaration => exact hdeclaration.2
  | returnStatement _ _ | breakStatement _ | continueStatement _ =>
    show Stmt.InBody _
    rw [Stmt.InBody]
    trivial
  | returnValue _ _ _ hvalue | expressionStatement _ _ _ hvalue =>
    show Stmt.InBody _
    rw [Stmt.InBody]
    exact hvalue
  | ifStatement _ hconditional => exact hconditional
  | whileStatement _ _ _ hcond hbody | ifOnly _ _ _ _ hcond hbody =>
    show Stmt.InBody _
    rw [Stmt.InBody]
    exact ⟨hcond, hbody⟩
  | ifElseIf _ _ _ _ _ hcond hbody hother =>
    show Stmt.InBody _
    rw [Stmt.InBody]
    refine ⟨hcond, hbody, ?_⟩
    rw [Stmt.AllInBody, Stmt.AllInBody]
    exact ⟨hother, trivial⟩
  | ifElse _ _ _ _ _ _ hcond hbody hother =>
    show Stmt.InBody _
    rw [Stmt.InBody]
    exact ⟨hcond, hbody, hother⟩
  | definition _ _ _ _ _ _ _ hbody => exact hbody
  | noItem _ => exact nofun
  | letItem _ _ hfirst hrest => exact List.forall_mem_cons.mpr ⟨hfirst.1, hrest⟩
  | fnItem _ _ hfirst hrest => exact List.forall_mem_cons.mpr ⟨hfirst, hrest⟩
  | skipped _ _ _ _ hrest => exact hrest

end Parse

theorem Module.isParsed_of_parse {tokens : List Token} {m : Module} (h : parse tokens = .ok m) :
    m.IsParsed := by
  obtain ⟨c, hitems, -⟩ := Module.derives_of_parse h
  exact hitems.inSurface

/-! ## Where the programs of parsed modules end -/

mutual

/-- All statements inside of a function are inside. -/
theorem Stmt.inside_of_mem_inner : ∀ (s : Stmt) (a : Nat), ∀ x ∈ s.inner true a, x.inside = true
  | .fnStmt _ _ _ body, a, x, hx => by
    rw [Stmt.inner] at hx
    exact Stmt.inside_of_mem_placed body _ x hx
  | .ifStmt _ _ body, a, x, hx => by
    rw [Stmt.inner] at hx
    exact Stmt.inside_of_mem_placed body _ x hx
  | .ifElseStmt _ _ body other, a, x, hx => by
    rw [Stmt.inner] at hx
    rcases List.mem_append.mp hx with hx | hx
    · exact Stmt.inside_of_mem_placed body _ x hx
    · exact Stmt.inside_of_mem_placed other _ x hx
  | .whileStmt _ _ body, a, x, hx => by
    rw [Stmt.inner] at hx
    exact Stmt.inside_of_mem_placed body _ x hx
  | .letStmt _ _ _, a, x, hx | .returnStmt _ _, a, x, hx | .breakStmt _, a, x, hx
  | .continueStmt _, a, x, hx | .exprStmt _ _, a, x, hx => by
    rw [Stmt.inner] at hx
    cases hx

theorem Stmt.inside_of_mem_placed : ∀ (ss : List Stmt) (a : Nat),
    ∀ x ∈ Stmt.placed true ss a, x.inside = true
  | [], a, x, hx => by
    rw [Stmt.placed] at hx
    cases hx
  | s :: rest, a, x, hx => by
    rw [Stmt.placed] at hx
    rcases List.mem_cons.mp hx with rfl | hx
    · rfl
    · rcases List.mem_append.mp hx with hx | hx
      · exact Stmt.inside_of_mem_inner s a x hx
      · exact Stmt.inside_of_mem_placed rest _ x hx

end

/-- Items return from functions only. -/
theorem Stmt.inside_of_return : ∀ (ss : List Stmt) (a : Nat), (∀ s ∈ ss, s.IsItem) →
    ∀ x ∈ Stmt.placed false ss a, ∀ span value, x.stmt = .returnStmt span value → x.inside = true
  | [], a, _, x, hx, _, _, _ => by
    rw [Stmt.placed] at hx
    cases hx
  | s :: rest, a, hss, x, hx, span, value, hreturn => by
    obtain ⟨hs, hrest⟩ := List.forall_mem_cons.mp hss
    rw [Stmt.placed] at hx
    rcases List.mem_cons.mp hx with rfl | hx
    · obtain rfl : s = .returnStmt span value := hreturn
      cases hs
    · rcases List.mem_append.mp hx with hx | hx
      · -- An item is a function, all of whose statements are inside of it, or a declaration.
        cases s with
        | fnStmt fspan name params body =>
          rw [Stmt.inner] at hx
          exact Stmt.inside_of_mem_placed body _ x hx
        | letStmt lspan name initial =>
          rw [Stmt.inner] at hx
          cases hx
        | _ => cases hs
      · exact Stmt.inside_of_return rest _ hrest x hx span value hreturn

/-- A parsed module returns from functions only. -/
theorem Module.IsParsed.returns {m : Module} (h : m.IsParsed) : ∀ x ∈ m.placed, ∀ span value,
    x.stmt = .returnStmt span value → x.inside = true :=
  Stmt.inside_of_return m.body 0 h

/-- A source text that compiles has a parsed module, and its program. -/
theorem Compile.exists_module {resolve : Bool} {text : String} {p : Program}
    (h : ofSource resolve text = .ok p) : ∃ m : Module, m.IsParsed ∧ p = m.generate := by
  unfold ofSource at h
  obtain ⟨m, hcheck, h⟩ := Parse.exists_of_bind h
  unfold check at hcheck
  obtain ⟨m', htree, hcheck⟩ := Parse.exists_of_bind hcheck
  obtain ⟨u, -, hcheck⟩ := Parse.exists_of_bind hcheck
  cases h
  cases hcheck
  unfold tree at htree
  obtain ⟨ts, -, hparse⟩ := Parse.exists_of_bind htree
  cases hm : Module.parse ts with
  | error fault =>
    rw [hm] at hparse
    cases hparse
  | ok m'' =>
    rw [hm] at hparse
    cases hparse
    exact ⟨m, Module.isParsed_of_parse hm, rfl⟩

/-- Parsing stays in the surface language: outside of functions there are only declarations with a
value and functions, in functions there are no functions and all declarations have a value, and all
operations have a mark.  So a run of the program of a source text never returns without an active
call, and if it ends, it ends at the end of the code, without calls and with an empty stack. -/
theorem Compile.ends_at_end :
    (∀ tokens m, Module.parse tokens = .ok m → m.IsParsed) ∧
    ∀ resolve text p, ofSource resolve text = .ok p →
      ∀ settings input globals n,
        (∀ s x, p.runFor settings n (.initial input globals) = .next s → s.frames = [] →
          p.code[s.ip]? = some x → x.op ≠ .ret) ∧
        (∀ s, p.runFor settings n (.initial input globals) = .done s →
          s.ip = p.code.size ∧ s.frames = [] ∧ s.stack = []) := by
  refine ⟨fun tokens m h => Module.isParsed_of_parse h, ?_⟩
  intro resolve text p h settings input globals n
  obtain ⟨m, hm, rfl⟩ := exists_module h
  have hp := m.generate_noted
  have hinitial := hp.balanced_initial input globals
  constructor
  · intro s x hs hframes hcode hop
    exact hp.frames_ne_nil_of_ret hm.returns (hp.balanced_run hinitial hs) hcode hop hframes
  · intro s hs
    have hended : ¬(m.generate.runFor settings n (.initial input globals)).GoesOn := by
      rw [hs]
      rintro ⟨u, ⟨⟩⟩
    -- The last turn was carried out in balance.  It found no instruction, or a return outside of
    -- calls.
    obtain ⟨k, t, ht, hturn⟩ := Program.exists_turn_of_ended hended
    have hb := hp.balanced_run hinitial ht
    have hturned := hp.turned hb settings
    rw [hturn, hs] at hturned
    cases hturned with
    | finished hip =>
      obtain ⟨hstack, hframes⟩ := hp.rest_of_end hb hip
      exact ⟨hip, hframes, hstack⟩
    | halted hcode heffect =>
      cases heffect with
      | halt hop hframes =>
        exact absurd hframes (hp.frames_ne_nil_of_ret hm.returns hb hcode hop)

/-- A text with tokens that are skipped, and a function that calls itself. -/
def Compile.counting : String :=
  "skip = 1; fn down(n) \x7b if n == 0 \x7b return (n) \x7d return down(n - 1) \x7d\n" ++
    "let x = down(2)\n"

/-- The program of `Compile.counting` comes to the end of its code. -/
theorem Compile.counting_ends :
    (∃ ts m, tokens counting = .ok ts ∧ Module.parse ts = .ok m ∧ m.IsParsed) ∧
    ∃ p, ofSource true counting = .ok p ∧ ∃ n s, p.runFor {} n (.initial [] .empty) = .done s ∧
      s.ip = p.code.size ∧ s.frames = [] ∧ s.stack = [] := by
  have hparse : ((tokens counting).toOption.map fun ts => (Module.parse ts).isOk) = some true := by
    decide +kernel
  have hdone : ((ofSource true counting).toOption.map fun p =>
      match p.runFor {} 40 (.initial [] .empty) with
      | .done _ => true
      | _ => false) = some true := by
    decide +kernel
  constructor
  · cases hts : tokens counting with
    | error fault =>
      rw [hts] at hparse
      cases hparse
    | ok ts =>
      cases hm : Module.parse ts with
      | error fault =>
        rw [hts] at hparse
        simp [Except.toOption, hm, Except.isOk, Except.toBool] at hparse
      | ok m => exact ⟨ts, m, rfl, hm, ends_at_end.1 ts m hm⟩
  · cases hp : ofSource true counting with
    | error fault =>
      rw [hp] at hdone
      cases hdone
    | ok p =>
      rw [hp] at hdone
      cases hs : p.runFor {} 40 (.initial [] .empty) with
      | done s =>
        exact ⟨p, rfl, 40, s, hs, (ends_at_end.2 true counting p hp {} [] .empty 40).2 s hs⟩
      | next s => simp [Except.toOption, hs] at hdone
      | failed fault s => simp [Except.toOption, hs] at hdone

end Scriptlet
