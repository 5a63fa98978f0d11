import Scriptlet.Proofs.Correctness
import Scriptlet.Proofs.Safety
import Scriptlet.Proofs.SymbolMeaning

/-!
# Flat variables are enough where nothing is shadowed

A machine has one map of variables for each call and one outside calls, and finds variables and
functions by their names; blocks leave no trace in it.  A name of an accepted module stands for the
symbol that can be seen from where it is used.  If nothing is shadowed, the two come to the same: a
call of a name leads to the function that the name is bound to, evaluation by names has the answer
of evaluation by symbols (`Module.evaluate_eq_evaluateCells`), and so has the generated program
(`Module.generate_lexical`).
-/

namespace Scriptlet

/-! ## The functions of a module -/

mutual

theorem Stmt.map_snd_functions : ∀ (s : Stmt) (n : Nat),
    (s.functions n).map Prod.snd = s.definitions
  | .fnStmt _ _ params body, n => by
    rw [functions, definitions, List.map_cons, Stmt.map_snd_functionsIn body]
  | .ifStmt _ _ body, n => by rw [functions, definitions, Stmt.map_snd_functionsIn body]
  | .ifElseStmt _ _ body other, n => by
    rw [functions, definitions, List.map_append, Stmt.map_snd_functionsIn body,
      Stmt.map_snd_functionsIn other]
  | .whileStmt _ _ body, n => by rw [functions, definitions, Stmt.map_snd_functionsIn body]
  | .letStmt _ _ _, n => by rw [functions, definitions, List.map_nil]
  | .returnStmt _ _, n => by rw [functions, definitions, List.map_nil]
  | .breakStmt _, n => by rw [functions, definitions, List.map_nil]
  | .continueStmt _, n => by rw [functions, definitions, List.map_nil]
  | .exprStmt _ _, n => by rw [functions, definitions, List.map_nil]

/-- Numbering the functions of a block keeps their order. -/
theorem Stmt.map_snd_functionsIn : ∀ (ss : List Stmt) (n : Nat),
    (Stmt.functionsIn n ss).map Prod.snd = Stmt.definitionsIn ss
  | [], n => by rw [functionsIn, definitionsIn, List.map_nil]
  | s :: rest, n => by
    rw [functionsIn, definitionsIn, List.map_append, Stmt.map_snd_functions s,
      Stmt.map_snd_functionsIn rest]

end

mutual

/-- The numbers of functions are among those of the declarations. -/
theorem Stmt.map_fst_functions : ∀ (s : Stmt) (n : Nat),
    ((s.functions n).map Prod.fst).Sublist (List.range' n s.declared)
  | .fnStmt _ _ params body, n => by
    -- The function itself comes first, and those of its body come behind the parameters.
    have hcount : 1 + params.length + declaredIn body =
        params.length + declaredIn body + 1 := by omega
    rw [functions, declared, hcount, List.range'_succ, List.map_cons, ← List.range'_append_1]
    refine List.Sublist.cons_cons n (List.Sublist.trans ?_ (List.sublist_append_right ..))
    exact Stmt.map_fst_functionsIn body _
  | .ifStmt _ _ body, n => by
    rw [functions, declared]
    exact Stmt.map_fst_functionsIn body n
  | .ifElseStmt _ _ body other, n => by
    rw [functions, declared, List.map_append, ← List.range'_append_1]
    exact (Stmt.map_fst_functionsIn body n).append (Stmt.map_fst_functionsIn other _)
  | .whileStmt _ _ body, n => by
    rw [functions, declared]
    exact Stmt.map_fst_functionsIn body n
  | .letStmt _ _ _, n => by
    rw [functions]
    exact List.nil_sublist _
  | .returnStmt _ _, n => by
    rw [functions]
    exact List.nil_sublist _
  | .breakStmt _, n => by
    rw [functions]
    exact List.nil_sublist _
  | .continueStmt _, n => by
    rw [functions]
    exact List.nil_sublist _
  | .exprStmt _ _, n => by
    rw [functions]
    exact List.nil_sublist _

/-- The functions of a block have some of the numbers of its declarations, in order. -/
theorem Stmt.map_fst_functionsIn : ∀ (ss : List Stmt) (n : Nat),
    ((Stmt.functionsIn n ss).map Prod.fst).Sublist (List.range' n (Stmt.declaredIn ss))
  | [], n => by
    rw [functionsIn]
    exact List.nil_sublist _
  | s :: rest, n => by
    rw [functionsIn, declaredIn, List.map_append, ← List.range'_append_1]
    exact (Stmt.map_fst_functions s n).append (Stmt.map_fst_functionsIn rest _)

end

theorem Declared.kind_parameters (span : Span) : ∀ (params : List String) (n : Nat),
    ∀ e ∈ parameters span n params, e.kind = .variable
  | [], n, e, he => by cases he
  | p :: rest, n, e, he => by
    rcases List.mem_cons.mp he with rfl | he
    · rfl
    · exact kind_parameters span rest (n + 1) e he

mutual

/-- What a statement declares is a variable or one of its functions. -/
theorem Stmt.function_of_mem_declarations : ∀ (s : Stmt) (inside : Bool) (n : Nat),
    ∀ e ∈ s.declarations inside n, e.kind ≠ .variable →
      ∃ d, (e.number, d) ∈ s.functions n ∧ d.name = e.name ∧ e.kind = .function d.params
  | .letStmt _ _ _, inside, n, e, he, hkind => by
    rw [declarations, List.mem_singleton] at he
    subst he
    exact absurd rfl hkind
  | .fnStmt span name params body, inside, n, e, he, hkind => by
    rw [declarations] at he
    rw [functions]
    -- The declaration is the function itself, a parameter or a declaration of the body.
    rcases List.mem_cons.mp he with rfl | he
    · exact ⟨_, List.mem_cons_self .., rfl, rfl⟩
    · rcases List.mem_append.mp he with he | he
      · exact absurd (Declared.kind_parameters span params _ e he) hkind
      · obtain ⟨d, hd, hsame⟩ := Stmt.function_of_mem_declarationsIn body _ _ e he hkind
        exact ⟨d, List.mem_cons_of_mem _ hd, hsame⟩
  | .ifStmt _ _ body, inside, n, e, he, hkind => by
    rw [declarations] at he
    rw [functions]
    exact Stmt.function_of_mem_declarationsIn body _ _ e he hkind
  | .ifElseStmt _ _ body other, inside, n, e, he, hkind => by
    rw [declarations] at he
    rw [functions]
    rcases List.mem_append.mp he with he | he
    · obtain ⟨d, hd, hsame⟩ := Stmt.function_of_mem_declarationsIn body _ _ e he hkind
      exact ⟨d, List.mem_append_left _ hd, hsame⟩
    · obtain ⟨d, hd, hsame⟩ := Stmt.function_of_mem_declarationsIn other _ _ e he hkind
      exact ⟨d, List.mem_append_right _ hd, hsame⟩
  | .whileStmt _ _ body, inside, n, e, he, hkind => by
    rw [declarations] at he
    rw [functions]
    exact Stmt.function_of_mem_declarationsIn body _ _ e he hkind
  | .returnStmt _ _, inside, n, e, he, _ => by
    rw [declarations] at he
    cases he
  | .breakStmt _, inside, n, e, he, _ => by
    rw [declarations] at he
    cases he
  | .continueStmt _, inside, n, e, he, _ => by
    rw [declarations] at he
    cases he
  | .exprStmt _ _, inside, n, e, he, _ => by
    rw [declarations] at he
    cases he

/-- A declaration that is no variable belongs to a function of the block. -/
theorem Stmt.function_of_mem_declarationsIn : ∀ (ss : List Stmt) (inside : Bool) (n : Nat),
    ∀ e ∈ Stmt.declarationsIn inside n ss, e.kind ≠ .variable →
      ∃ d, (e.number, d) ∈ Stmt.functionsIn n ss ∧ d.name = e.name ∧ e.kind = .function d.params
  | [], inside, n, e, he, _ => by
    rw [declarationsIn] at he
    cases he
  | s :: rest, inside, n, e, he, hkind => by
    rw [declarationsIn] at he
    rw [functionsIn]
    rcases List.mem_append.mp he with he | he
    · obtain ⟨d, hd, hsame⟩ := Stmt.function_of_mem_declarations s _ _ e he hkind
      exact ⟨d, List.mem_append_left _ hd, hsame⟩
    · obtain ⟨d, hd, hsame⟩ := Stmt.function_of_mem_declarationsIn rest _ _ e he hkind
      exact ⟨d, List.mem_append_right _ hd, hsame⟩

end

section Functions

variable {m : Module} {r : Resolution}

theorem Module.nodup_functions (m : Module) : (m.functions.map Prod.fst).Nodup :=
  (Stmt.map_fst_functionsIn m.body _).nodup List.nodup_range'

theorem Module.lookup_functions {f : Nat × Definition} (hf : f ∈ m.functions) :
    m.functions.lookup f.1 = some f.2 := by
  obtain ⟨before, after, hsplit⟩ := List.append_of_mem hf
  refine List.lookup_eq_some_iff.mpr ⟨before, after, hsplit, fun g hg => ?_⟩
  have hnodup := m.nodup_functions
  rw [hsplit, List.map_append, List.map_cons, List.nodup_append] at hnodup
  rw [bne_iff_ne]
  exact fun heq => hnodup.2.2 _ (List.mem_map_of_mem hg) _ (List.mem_cons_self ..) heq.symm

/-- The numbers of built-in functions are smaller than those of functions. -/
theorem Module.lookup_functions_of_lt {k : Nat} (hk : k < Builtin.names.length) :
    m.functions.lookup k = none := by
  refine List.lookup_eq_none_iff.mpr fun f hf => ?_
  have hmem := (Stmt.map_fst_functionsIn m.body _).subset (List.mem_map_of_mem hf)
  have hle := (List.mem_range'_1.mp hmem).1
  rw [bne_iff_ne]
  omega

/-- What can be called outside functions is a built-in function or a function of the module. -/
theorem Module.callee_cases {d : Declaration} (hd : ⟨d, false⟩ ∈ m.declarations)
    (hkind : d.kind ≠ .variable) :
    ⟨d, false⟩ ∈ Builtin.declarations ∨
      ∃ f ∈ m.functions, f.1 = d.number ∧ f.2.name = d.name ∧ d.kind = .function f.2.params := by
  rcases List.mem_append.mp hd with hd | hd
  · exact .inl hd
  · obtain ⟨_, hf, hname, hsame⟩ := Stmt.function_of_mem_declarationsIn m.body _ _ _ hd hkind
    exact .inr ⟨_, hf, rfl, hname, hsame⟩

theorem Builtin.of_mem_declarations {e : Declared} (h : e ∈ Builtin.declarations) :
    (∃ b, Builtin.ofName? e.name = some b) ∧ e.number < Builtin.names.length := by
  have hall : ∀ e ∈ Builtin.declarations,
      (Builtin.ofName? e.name).isSome = true ∧ e.number < Builtin.names.length := by decide
  obtain ⟨hsome, hlt⟩ := hall e h
  exact ⟨Option.isSome_iff_exists.mp hsome, hlt⟩

/-- A function of the module does not have the name of a built-in function. -/
theorem Module.Unshadowed.ofName?_eq_none (hm : m.Unshadowed) {d : Declaration}
    (hd : ⟨d, false⟩ ∈ m.declarations) (hkind : d.kind ≠ .builtin) :
    Builtin.ofName? d.name = none := by
  cases hb : Builtin.ofName? d.name with
  | none => rfl
  | some b =>
    have hname : b.name = d.name := by simpa using List.find?_some hb
    obtain ⟨e, he, hinside, hsame, hbuiltin⟩ : ∃ e ∈ Builtin.declarations, e.inside = false ∧
        e.name = b.name ∧ e.kind = .builtin := by
      cases b <;> decide
    have heq := List.inj_on_of_nodup_map hm.1
      (List.mem_filter.mpr ⟨List.mem_append_left _ he, by rw [hinside]; rfl⟩)
      (List.mem_filter.mpr ⟨hd, rfl⟩) (hsame.trans hname)
    rw [heq] at hbuiltin
    exact absurd hbuiltin hkind

/-! ## Calls -/

/-- A built-in function does the same to a store and to cells. -/
theorem Agrees.builtin {own : Option (List Declared)} {st : Store} {c : Cells}
    (h : Agrees m own st c) (echo : Bool) (args : List Value) (b : Builtin) :
    Matches m own (.done (st.builtin echo args b).1 (st.builtin echo args b).2)
      (some (.ok (c.builtin echo args b).1, (c.builtin echo args b).2)) := by
  have hprinted := h.printed
  have hscreen := h.screen
  have hinput := h.input
  obtain ⟨locals, globals, printed, screen, input⟩ := st
  obtain ⟨own, shared, printed', screen', input'⟩ := c
  obtain rfl : printed = printed' := hprinted
  obtain rfl : screen = screen' := hscreen
  obtain rfl : input = input' := hinput
  cases b with
  | print => exact .done { h with printed := rfl, screen := rfl, input := rfl }
  | input => exact .done { h with printed := rfl, screen := rfl, input := rfl }

/-- A call of a name goes where a call of its symbol goes. -/
theorem dispatch_matches (hm : m.Clear r) (echo : Bool)
    (hnames : ((Stmt.definitionsIn m.body).map Definition.name).Nodup)
    {enter : Definition → List Value → Store → Answer Value}
    {enterCells : Nat → Definition → List Value → Eval Value}
    (henter : ∀ {own : Option (List Declared)} {st : Store} {c : Cells}, ∀ f ∈ m.functions,
      ∀ args, Agrees m own st c → Matches m own (enter f.2 args st) (enterCells f.1 f.2 args c)) :
    CallsMatch m (dispatch echo (Stmt.definitionsIn m.body) enter)
      (dispatchCells echo r m.functions enterCells) := by
  intro own st c d args hd hkind h
  unfold dispatch dispatchCells
  rcases Module.callee_cases hd hkind with hbuiltin | ⟨f, hf, hnumber, hname, hfunction⟩
  · obtain ⟨⟨b, hb⟩, hlt⟩ : (∃ b, Builtin.ofName? d.name = some b) ∧
        d.number < Builtin.names.length := Builtin.of_mem_declarations hbuiltin
    have hname : r.table.nameOf d.number = d.name := (Module.of_mem_declarations hm.table hd).2.2
    rw [hb, Module.lookup_functions_of_lt hlt, hname, hb]
    exact h.builtin echo args b
  · have hnone := hm.unshadowed.ofName?_eq_none hd (by rw [hfunction]; nofun)
    have hmem : f.2 ∈ Stmt.definitionsIn m.body := by
      rw [← Stmt.map_snd_functionsIn m.body Builtin.names.length]
      exact List.mem_map_of_mem hf
    rw [hnone, ← hname, Definition.last?_of_mem hnames hmem, ← hnumber, Module.lookup_functions hf]
    exact henter f hf args h

/-- Calls come to the same, however deeply they may be nested. -/
theorem callAmong_matches (hm : m.Clear r) (echo : Bool)
    (hnames : ((Stmt.definitionsIn m.body).map Definition.name).Nodup)
    (hprepared : ∀ f ∈ m.functions, m.Prepared r f) (fuel : Nat) :
    CallsMatch m (callAmong echo (Stmt.definitionsIn m.body) fuel)
      (callCells echo r m.functions fuel) := by
  induction fuel with
  | zero =>
    rw [callAmong, callCells]
    exact dispatch_matches hm echo hnames fun f hf args h => .unfinished
  | succ fuel ih =>
    rw [callAmong, callCells]
    refine dispatch_matches hm echo hnames fun f hf args h => ?_
    exact Definition.run_matches ⟨hm, ih⟩ (hprepared f hf) fuel args h

end Functions

/-! ## Modules -/

/-- By names and by symbols a module means the same, if nothing is shadowed. -/
theorem Module.evaluate_eq_evaluateCells {m : Module} {found : Resolution}
    (h : m.resolve = .ok found) (hinit : m.Initialised) (hnodes : m.nodes.Nodup)
    (hm : m.Unshadowed) (echo : Bool) (fuel : Nat) (input : List UInt8) :
    m.evaluate echo fuel input .empty = m.evaluateCells found echo fuel input := by
  have hclear : m.Clear found := ⟨hm, Module.declared_of_resolve h⟩
  have hbody := Module.checksAll_of_resolve h hinit hnodes
  have hprepared : ∀ f ∈ m.functions, m.Prepared found f := Stmt.prepared_all hm m.body hbody
  have hcalls := callAmong_matches hclear echo (Module.resolve_ok h).1 hprepared fuel
  have hstart : Agrees m none (.initial input .empty) (.initial input) :=
    { outer := .empty _
      globals_ordered := SortedMap.ordered_empty
      shared_ordered := SortedMap.ordered_empty
      printed := rfl
      screen := rfl
      input := rfl
      own := ⟨rfl, rfl⟩ }
  have hmatches := Stmt.execs_matches ⟨hclear, hcalls⟩ fuel m.body false hbody hstart
  exact hmatches.observation?_eq hclear.table

-- Where a block declares a name again, names and symbols do not mean the same.
example :
    let m : Module := ⟨[
      .letStmt .zero "x" (some (.literal .zero (.int 1))),
      .ifStmt .zero (.literal .zero (.bool true)) [
        .letStmt .zero "x" (some (.literal .zero (.int 2)))],
      .exprStmt .zero (.call .zero 1 "print" [.name .zero 0 "x"])], 2⟩
    (m.evaluate false 1 [] .empty).map (·.printed) = some ["2"] ∧
      (m.resolve.toOption.bind fun r => m.evaluateCells r false 1 []).map (·.printed) =
        some ["1"] := by
  decide +kernel

/-- In an accepted module every use of a name is bound to a symbol. -/
theorem Module.exists_symbol {m : Module} {found : Resolution} (h : m.resolve = .ok found)
    (hnodes : m.nodes.Nodup) : ∀ id ∈ m.nodes,
      ∃ k, found.bindings.find? id = some k ∧ k < found.table.symbols.size := by
  have huses : m.check.uses.map Prod.fst = m.nodes :=
    Environment.uses_block ⟨0, false⟩ m.body (Module.faults_of_resolve h)
  intro id hid
  rw [← huses] at hid
  obtain ⟨u, hu, rfl⟩ := List.mem_map.mp hid
  obtain ⟨hbound, scope, hsymbol⟩ := Module.bound_of_resolve h hnodes u hu
  exact ⟨u.2.number, hbound, (Array.getElem?_eq_some_iff.mp hsymbol).1⟩

/-- If nothing is shadowed, one flat map of variables for each call and one outside calls are enough
for lexical scoping.  The symbols of an accepted module are its declarations in their order, and
every use of a name is bound to one of them.  The program of the module ends with what evaluation of
the module by these symbols comes to, and goes on forever exactly if this evaluation never has an
answer. -/
theorem Module.generate_lexical {m : Module} {found : Resolution} (h : m.resolve = .ok found)
    (hinit : m.Initialised) (hnodes : m.nodes.Nodup) (hfloats : m.FloatsApart)
    (hm : m.Unshadowed) (echo : Bool) (input : List UInt8) :
    found.table.declared = m.declarations ∧
    (∀ id ∈ m.nodes, ∃ k, found.bindings.find? id = some k ∧ k < found.table.symbols.size) ∧
    (∀ o, (∃ n, (m.generate.runFor ⟨echo, none⟩ n (.initial input .empty)).observation? = some o) ↔
      ∃ fuel, m.evaluateCells found echo fuel input = some o) ∧
    ((∀ n, (m.generate.runFor ⟨echo, none⟩ n (.initial input .empty)).GoesOn) ↔
      ∀ fuel, m.evaluateCells found echo fuel input = none) := by
  have hkeeps : ∀ v ∈ Stmt.literalsIn m.body, m.generate.Keeps Eq v := fun v hv => hfloats.keeps hv
  refine ⟨Module.declared_of_resolve h, Module.exists_symbol h hnodes,
    Program.ends_iff fun fuel => ?_⟩
  rw [← Module.evaluate_eq_evaluateCells h hinit hnodes hm]
  exact m.run_of_evaluate (m.generate_at hkeeps) echo fuel input .empty

/-- A function that calls itself and keeps a variable over the call, and a loop that declares a
variable in every round. -/
def Module.adding : Module where
  body := [
    .letStmt .zero "base" (some (.literal .zero (.int 10))),
    .fnStmt .zero "add" ["n"] [
      .ifStmt .zero (.binary .zero .eq (.name .zero 0 "n") (.literal .zero (.int 0))) [
        .returnStmt .zero (some (.name .zero 1 "base"))],
      .letStmt .zero "rest" (some (.call .zero 3 "add" [
        .binary .zero .sub (.name .zero 2 "n") (.literal .zero (.int 1))])),
      .returnStmt .zero (some (.binary .zero .add (.name .zero 4 "rest") (.name .zero 5 "n")))],
    .whileStmt .zero (.literal .zero (.bool true)) [
      .letStmt .zero "line" (some (.call .zero 6 "input" [])),
      .ifStmt .zero (.binary .zero .eq (.name .zero 7 "line") (.literal .zero (.str ""))) [
        .breakStmt .zero],
      .exprStmt .zero (.call .zero 10 "print" [.name .zero 8 "line",
        .call .zero 9 "add" [.literal .zero (.int 2)]])]]
  nodeCount := 11

/-- What running `Module.adding` on two lines, the second of them empty, comes to. -/
theorem Module.adding_lexical : adding.Initialised ∧ adding.nodes.Nodup ∧ adding.FloatsApart ∧
    adding.Unshadowed ∧ ∃ found, adding.resolve = .ok found ∧
      ∃ n, (adding.generate.runFor ⟨true, none⟩ n (.initial [97, 10, 10] .empty)).observation? =
        some ⟨none, ⟨[("base", .int 10), ("line", .str "")]⟩, ["a 13"], ["a 13\n"], []⟩ := by
  have hinit : adding.Initialised := by decide +kernel
  have hnodes : adding.nodes.Nodup := by decide +kernel
  have hfloats : adding.FloatsApart := by
    intro x y hx
    simp [adding, Stmt.literalsIn, Stmt.literals, Expr.literals, Expr.literalsIn] at hx
  have hclear : adding.Unshadowed := by decide +kernel
  have hcells : (adding.resolve.toOption.bind fun r =>
      adding.evaluateCells r true 5 [97, 10, 10]) =
        some ⟨none, ⟨[("base", .int 10), ("line", .str "")]⟩, ["a 13"], ["a 13\n"], []⟩ := by
    decide +kernel
  cases hr : adding.resolve with
  | error faults =>
    rw [hr] at hcells
    cases hcells
  | ok found =>
    rw [hr, Except.toOption, Option.bind_some] at hcells
    have hruns := (Module.generate_lexical hr hinit hnodes hfloats hclear true [97, 10, 10]).2.2.1
    exact ⟨hinit, hnodes, hfloats, hclear, found, rfl, (hruns _).mpr ⟨5, hcells⟩⟩

end Scriptlet
