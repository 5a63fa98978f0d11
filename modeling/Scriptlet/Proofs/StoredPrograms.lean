import Scriptlet.Proofs.JsonText
import Scriptlet.Proofs.Ranges
import Scriptlet.Proofs.SortedEntries

/-!
# Stored programs load again

A program whose floating point constants are finite and whose operands are in range is loaded from
its own text, with nothing lost.  Otherwise loading names what is wrong first: a constant without a
number, then a function past the end of the code, then an operand past the end of its pool.  This
holds with every codec that keeps values as JSON does and the constants of the program
(`Program.load_store`); the codec of this library is one of them.
-/

namespace Scriptlet

/-! ## Lists of values -/

section Lists

variable {α β γ : Type}

/-- Values that are read one by one are read as a list. -/
theorem mapM_map_eq_some {f : β → Option γ} {g : α → β} {h : α → γ} {l : List α}
    (hl : ∀ a ∈ l, f (g a) = some (h a)) : (l.map g).mapM f = some (l.map h) := by
  induction l with
  | nil => rfl
  | cons a l ih =>
    obtain ⟨ha, hrest⟩ := List.forall_mem_cons.mp hl
    rw [List.map_cons, List.mapM_cons, ha, ih hrest]
    rfl

/-- One value that cannot be read spoils the list. -/
theorem mapM_eq_none {f : β → Option γ} {l : List β} {b : β} (hb : b ∈ l) (hf : f b = none) :
    l.mapM f = none := by
  induction l with
  | nil => cases hb
  | cons b' l ih =>
    rw [List.mapM_cons]
    rcases List.mem_cons.mp hb with rfl | hb
    · rw [hf]
      rfl
    · rw [ih hb]
      cases f b' <;> rfl

end Lists

namespace Json

/-- An object can be written if the values of its members can. -/
theorem writable_ofMembers {keeps : Float → Prop} {members : List (String × Json)}
    (h : ∀ m ∈ members, m.2.Writable keeps) : (ofMembers members).Writable keeps := by
  show WritableMembers keeps (members.map fun m => (some m.1, m.2))
  induction members with
  | nil => trivial
  | cons m members ih =>
    obtain ⟨hm, hrest⟩ := List.forall_mem_cons.mp h
    exact ⟨rfl, hm, ih hrest⟩

/-- An array can be written if its items can. -/
theorem writable_array {α : Type} {keeps : Float → Prop} {l : List α} {f : α → Json}
    (h : ∀ a ∈ l, (f a).Writable keeps) : (array (l.map f)).Writable keeps :=
  writableItems_iff.mpr (List.forall_mem_map.mpr h)

/-- The text of an array whose items are kept holds the array. -/
theorem portable_array {α : Type} {l : List α} {f : α → Json} (h : ∀ a, (f a).portable = f a) :
    (array (l.map f)).portable = array (l.map f) := by
  rw [portable, portableItems_eq, List.map_map]
  exact congrArg array (List.map_congr_left fun a _ => h a)

/-- The text of an object holds the values of its members. -/
theorem portable_ofMembers (members : List (String × Json)) :
    (ofMembers members).portable = ofMembers (members.map fun m => (m.1, m.2.portable)) := by
  rw [ofMembers, portable, portableMembers_eq, ofMembers, List.map_map, List.map_map]
  rfl

/-- A word is read as it is written. -/
theorem word?_ofNat {n : Nat} (hn : n < 2 ^ 64) : (ofNat n).word? = some n := by
  have hrange : 0 ≤ (n : Int) ∧ (n : Int) < UInt64.size :=
    ⟨Int.natCast_nonneg n, Int.ofNat_lt.mpr hn⟩
  rw [ofNat, word?, if_pos hrange, Int.toNat_natCast]

/-- A word can be written. -/
theorem writable_ofNat {keeps : Float → Prop} {n : Nat} (hn : n < 2 ^ 64) :
    (ofNat n).Writable keeps := by
  refine ⟨_, rfl, ?_, Int.ofNat_lt.mpr hn⟩
  exact Int.le_trans (by decide) (Int.natCast_nonneg n)

/-- An object with named members is a map of them. -/
theorem map?_ofMembers {α β : Type} {m : SortedMap String α} (hm : m.Ordered)
    (read? : Json → Option β) (write : α → Json) (f : α → β)
    (hread : ∀ e ∈ m.entries, read? (write e.2) = some (f e.2)) :
    (ofMembers (m.entries.map fun e => (e.1, write e.2))).map? read? = some (m.map f) := by
  have hordered : SortedMap.ofList (m.map f).entries = m.map f := (hm.map f).ofList_entries
  rw [ofMembers, map?, List.map_map, mapM_map_eq_some (h := fun e => (e.1, f e.2))]
  · exact congrArg some hordered
  · intro e he
    show (read? (write e.2)).bind (fun b => some (e.1, b)) = _
    rw [hread e he]
    rfl

end Json

/-! ## Reading the parts -/

namespace Literal

/-- Whether JSON has a value for a literal: it has none for a floating point value that is not
finite. -/
def isFinite : Literal → Bool
  | .float x => x.isFinite
  | _ => true

/-- A literal can be written, if it is not a finite floating point number or is one that is kept. -/
theorem writable_toJson {keeps : Float → Prop} {v : Literal}
    (h : ∀ x, v = .float x → x.isFinite = true → keeps x) : v.toJson.Writable keeps := by
  cases v with
  | int n =>
    refine ⟨_, rfl, Int64.le_toInt n, Int.lt_trans (Int64.toInt_lt n) ?_⟩
    decide
  | float x => exact ⟨_, rfl, h x rfl⟩
  | str s => rfl
  | bool b => trivial

/-- A literal is read from what its text holds. -/
theorem literal?_portable {v : Literal} (h : v.isFinite = true) :
    v.toJson.portable.literal? = some v := by
  cases v with
  | int n =>
    show (Json.Number.whole n.toInt).literal? = _
    rw [Json.Number.literal?, Numeral.toInt64?,
      if_pos ⟨Int64.le_toInt n, Int.le_of_lt_add_one (Int64.toInt_lt n)⟩, Int64.ofInt_toInt]
  | float x =>
    have hx : x.isFinite = true := h
    show (if x.isFinite = true then _ else Json.null).literal? = _
    rw [if_pos hx]
    rfl
  | str s => rfl
  | bool b => rfl

/-- The text of a number that is not finite holds no literal. -/
theorem literal?_portable_eq_none {v : Literal} (h : v.isFinite = false) :
    v.toJson.portable.literal? = none := by
  cases v with
  | float x =>
    have hx : ¬ x.isFinite = true := Bool.eq_false_iff.mp h
    show (if x.isFinite = true then _ else Json.null).literal? = _
    rw [if_neg hx]
    rfl
  | int n => cases h
  | str s => cases h
  | bool b => cases h

end Literal

namespace Instruction

/-- An instruction with operands of 64 bits can be written. -/
theorem writable_toJson {keeps : Float → Prop} {i : Instruction} (h₁ : i.arg1 < 2 ^ 64)
    (h₂ : i.arg2 < 2 ^ 64) : i.toJson.Writable keeps := by
  refine Json.writable_ofMembers ?_
  simp only [List.forall_mem_cons]
  exact ⟨rfl, Json.writable_ofNat h₁, Json.writable_ofNat h₂, nofun⟩

/-- An instruction is read as it is written. -/
theorem instruction?_toJson {i : Instruction} (h₁ : i.arg1 < 2 ^ 64) (h₂ : i.arg2 < 2 ^ 64) :
    Program.instruction? i.toJson = some ⟨i.op.name, i.arg1, i.arg2⟩ := by
  have hfields : i.toJson.fields? ["op", "arg1", "arg2"] =
      some [some (.string (some i.op.name)), some (.ofNat i.arg1), some (.ofNat i.arg2)] := by
    rfl
  rw [Program.instruction?, hfields]
  dsimp only
  rw [Json.word?_ofNat h₁, Json.word?_ofNat h₂]
  rfl

end Instruction

namespace Program

/-- A list of texts is read as it is written. -/
theorem texts?_array (texts : List String) :
    texts? (.array (texts.map fun text => .string (some text))) = some texts := by
  have htexts := mapM_map_eq_some (f := Json.text?) (g := fun text => .string (some text))
    (h := id) (l := texts) fun _ _ => rfl
  rwa [List.map_id] at htexts

/-- What every program can hold in its own words: the standard functions, names in order, and
operands and offsets of 64 bits. -/
structure Storable (p : Program) : Prop where
  builtins : p.builtins = Builtin.names
  functions : p.functions.Ordered
  operands : ∀ x ∈ p.code.toList, x.arg1 < 2 ^ 64 ∧ x.arg2 < 2 ^ 64
  offsets : ∀ e ∈ p.functions.entries, e.2.offset < 2 ^ 64

/-- Every constant has a value in JSON. -/
def FiniteConstants (p : Program) : Prop := ∀ v ∈ p.constants.toList, v.isFinite = true

instance (p : Program) : Decidable p.FiniteConstants :=
  inferInstanceAs (Decidable (∀ v ∈ p.constants.toList, v.isFinite = true))

variable {p : Program}

/-- A list of texts can be written. -/
theorem writable_texts (keeps : Float → Prop) (texts : List String) :
    (Json.array (texts.map fun text => .string (some text))).Writable keeps :=
  Json.writable_array fun _ _ => rfl

/-- A program can be written if its finite floating point constants are kept. -/
theorem writable_toJson {keeps : Float → Prop} (h : p.Storable)
    (hfloats : ∀ x, .float x ∈ p.constants.toList → x.isFinite = true → keeps x) :
    p.toJson.Writable keeps := by
  refine Json.writable_ofMembers ?_
  simp only [List.forall_mem_cons]
  refine ⟨?_, ?_, writable_texts keeps _, ?_, ?_, nofun⟩
  · exact Json.writable_array fun i hi =>
      Instruction.writable_toJson (h.operands i hi).1 (h.operands i hi).2
  · refine Json.writable_array fun v hv => Literal.writable_toJson ?_
    rintro x rfl
    exact hfloats x hv
  · refine Json.writable_ofMembers fun m hm => ?_
    obtain ⟨e, he, rfl⟩ := List.mem_map.mp hm
    exact Json.writable_ofNat (h.offsets e he)
  · refine Json.writable_ofMembers fun m hm => ?_
    obtain ⟨e, -, rfl⟩ := List.mem_map.mp hm
    exact writable_texts keeps _

/-- The text of a program holds all of it but the constants that are not finite. -/
theorem portable_toJson (p : Program) : p.toJson.portable = .ofMembers [
    ("code", .array (p.code.toList.map Instruction.toJson)),
    ("constants", .array (p.constants.toList.map fun v => v.toJson.portable)),
    ("variables", .array (p.variableNames.toList.map fun name => .string (some name))),
    ("functions", .ofMembers (p.functions.entries.map fun e => (e.1, .ofNat e.2.offset))),
    ("params", .ofMembers (p.functions.entries.map fun e =>
      (e.1, .array (e.2.params.map fun param => .string (some param)))))] := by
  have htexts (texts : List String) := Json.portable_array (l := texts)
    (f := fun text => .string (some text)) fun _ => rfl
  have hcode := Json.portable_array (l := p.code.toList) (f := Instruction.toJson) fun _ => rfl
  rw [toJson, Json.portable_ofMembers]
  simp only [List.map_cons, List.map_nil]
  rw [hcode, htexts, Json.portable, Json.portableItems_eq, Json.portable_ofMembers,
    Json.portable_ofMembers, List.map_map, List.map_map, List.map_map]
  simp only [Function.comp_def, htexts]
  rfl

/-- What is stored of a program. -/
def unchecked (p : Program) : Unchecked where
  code := p.code.toList.map fun i => ⟨i.op.name, i.arg1, i.arg2⟩
  constants := p.constants.toList
  variableNames := p.variableNames.toList
  functions := p.functions.map FunctionEntry.offset
  params := p.functions.map FunctionEntry.params

/-- The fields of a stored program stand under their names. -/
theorem fields?_portable (p : Program) :
    p.toJson.portable.fields? ["code", "constants", "variables", "functions", "params"] = some [
      some (.array (p.code.toList.map Instruction.toJson)),
      some (.array (p.constants.toList.map fun v => v.toJson.portable)),
      some (.array (p.variableNames.toList.map fun name => .string (some name))),
      some (.ofMembers (p.functions.entries.map fun e => (e.1, .ofNat e.2.offset))),
      some (.ofMembers (p.functions.entries.map fun e =>
        (e.1, .array (e.2.params.map fun param => .string (some param)))))] := by
  rw [portable_toJson]
  rfl

/-- A program with finite constants is read as it is stored. -/
theorem unchecked?_portable (h : p.Storable) (hfinite : p.FiniteConstants) :
    unchecked? p.toJson.portable = some p.unchecked := by
  have hcode := mapM_map_eq_some (f := instruction?) (g := Instruction.toJson) fun i hi =>
    Instruction.instruction?_toJson (h.operands i hi).1 (h.operands i hi).2
  have hconstants := mapM_map_eq_some (f := Json.literal?) (g := fun v => v.toJson.portable)
    (h := id) fun v hv => Literal.literal?_portable (hfinite v hv)
  have hfunctions := Json.map?_ofMembers h.functions Json.word?
    (fun f => Json.ofNat f.offset) FunctionEntry.offset
    fun e he => Json.word?_ofNat (h.offsets e he)
  have hparams := Json.map?_ofMembers h.functions texts?
    (fun f => .array (f.params.map fun param => .string (some param))) FunctionEntry.params
    fun e _ => texts?_array e.2.params
  rw [List.map_id] at hconstants
  rw [unchecked?, fields?_portable]
  dsimp only [Json.items, Option.bind_eq_bind, Option.bind_some]
  rw [hcode, hconstants, texts?_array, hfunctions, hparams]
  rfl

/-- A constant without a number spoils the program. -/
theorem unchecked?_portable_eq_none (h : ¬ p.FiniteConstants) :
    unchecked? p.toJson.portable = none := by
  obtain ⟨v, hmem, hv⟩ : ∃ v ∈ p.constants.toList, v.isFinite = false := by
    simpa only [FiniteConstants, not_forall, exists_prop, Bool.not_eq_true] using h
  have hmem' : v.toJson.portable ∈ p.constants.toList.map fun v => v.toJson.portable :=
    List.mem_map.mpr ⟨v, hmem, rfl⟩
  have hconstants := mapM_eq_none hmem' (Literal.literal?_portable_eq_none hv)
  rw [unchecked?, fields?_portable]
  dsimp only [Json.items, Option.bind_eq_bind, Option.bind_some]
  rw [hconstants]
  cases (p.code.toList.map Instruction.toJson).mapM instruction? <;> rfl

/-- The operations are found by their names. -/
theorem namedCode_unchecked (p : Program) : namedCode p.unchecked.code = .ok p.code.toList := by
  show namedCode (p.code.toList.map _) = _
  rw [namedCode]
  generalize p.code.toList = code
  generalize 0 = start
  induction code generalizing start with
  | nil => rfl
  | cons i code ih =>
    rw [List.map_cons, List.zipIdx_cons, List.mapM_cons, ih]
    dsimp only
    rw [Opcode.ofName?_name]
    rfl

/-- The functions have their parameters again. -/
theorem functions_unchecked (h : p.functions.Ordered) :
    (⟨p.unchecked.functions.entries.map fun (name, offset) =>
      (name, ⟨offset, (p.unchecked.params.find? name).getD []⟩)⟩ : SortedMap String FunctionEntry) =
        p.functions := by
  refine congrArg SortedMap.mk ?_
  show (p.functions.entries.map _).map _ = _
  rw [List.map_map]
  refine (List.map_congr_left fun e he => ?_).trans (List.map_id _)
  have hfind := (h.map FunctionEntry.params).find?_of_mem (k := e.1) (v := e.2.params)
    (List.mem_map_of_mem he)
  show (e.1, (⟨e.2.offset, ((p.functions.map FunctionEntry.params).find? e.1).getD []⟩ :
    FunctionEntry)) = e
  rw [hfind]
  rfl

section Codec

variable {codec : Json.Codec} (hcodec : codec.Standard) (h : p.Storable)
  (hfloats : ∀ x, .float x ∈ p.constants.toList → x.isFinite = true → codec.KeepsFloat x)

include hcodec h hfloats

/-- The text of a program is read as what it holds of the program. -/
theorem read?_store : codec.read? (p.store codec) = some p.toJson.portable :=
  hcodec _ (writable_toJson h hfloats)

/-- Loading what is stored is checking it. -/
theorem load_store_eq (hfinite : p.FiniteConstants) :
    load (p.store codec) codec = (do p.checkOffsets; p.checkOperands; return p) := by
  have hp : (⟨p.code.toList.toArray, p.unchecked.constants.toArray,
      p.unchecked.variableNames.toArray, p.functions, Builtin.names⟩ : Program) = p := by
    rw [← h.builtins]
    rfl
  rw [load, read?_store hcodec h hfloats, Option.bind_some, unchecked?_portable h hfinite]
  dsimp only
  rw [namedCode_unchecked, functions_unchecked h.functions]
  show (do
    let q : Program := ⟨p.code.toList.toArray, p.unchecked.constants.toArray,
      p.unchecked.variableNames.toArray, p.functions, Builtin.names⟩
    q.checkOffsets
    q.checkOperands
    return q) = _
  rw [hp]

/-- A program with a constant that is not finite is not loaded. -/
theorem load_store_of_not_finite (hinfinite : ¬ p.FiniteConstants) :
    load (p.store codec) codec = .error .malformed := by
  rw [load, read?_store hcodec h hfloats, Option.bind_some, unchecked?_portable_eq_none hinfinite]

end Codec

/-- **Storing and loading.**  Let a codec keep values as JSON does, and keep the finite floating
point constants of a program.  The program is loaded from its own text exactly if its constants are
finite and its functions and operands are in range.  If a constant is not finite, the text is
malformed; otherwise the first function that starts past the end of the code is named, and otherwise
the first instruction with an operand out of range. -/
theorem load_store (codec : Json.Codec) (p : Program) (hcodec : codec.Standard)
    (hfloats : ∀ x, .float x ∈ p.constants.toList → x.isFinite = true → codec.KeepsFloat x)
    (h : p.Storable) :
    (load (p.store codec) codec = .ok p ↔ p.FiniteConstants ∧ p.InRange) ∧
    (¬ p.FiniteConstants → load (p.store codec) codec = .error .malformed) ∧
    (p.FiniteConstants → ∀ before name f after, p.functions.entries = before ++ (name, f) :: after →
      (∀ e ∈ before, e.2.offset ≤ p.code.size) → p.code.size < f.offset →
      load (p.store codec) codec = .error (.badFunctionOffset name f.offset p.code.size)) ∧
    (p.FiniteConstants → (∀ e ∈ p.functions.entries, e.2.offset ≤ p.code.size) →
      ∀ (i : Nat) x limit, p.code[i]? = some x → p.operandLimit? x.op = some limit →
        limit ≤ x.arg1 → (∀ j y, j < i → p.code[j]? = some y → p.OperandInRange y) →
        load (p.store codec) codec = .error (.operandOutOfRange i x.op x.arg1 limit)) := by
  -- A constant that is not finite is written as `null`, which is no literal.  All others are kept,
  -- so only the two checks of the loader are left.
  have hmalformed := load_store_of_not_finite hcodec h hfloats
  have hload := load_store_eq hcodec h hfloats
  refine ⟨⟨fun hloaded => ?_, fun ⟨hfinite, hrange⟩ => ?_⟩, hmalformed, ?_, ?_⟩
  · refine ⟨Decidable.byContradiction fun hinfinite => ?_, inRange_of_load hloaded⟩
    cases hloaded.symm.trans (hmalformed hinfinite)
  · rw [hload hfinite, checkOffsets_eq_ok.mpr hrange.offset, checkOperands_eq_ok.mpr hrange.operand]
    rfl
  · intro hfinite before name f after hentries hbefore hf
    rw [hload hfinite, checkOffsets_eq_error hentries hbefore hf]
    rfl
  · intro hfinite hoffsets i x limit hx hlimit hout hbefore
    rw [hload hfinite, checkOffsets_eq_ok.mpr hoffsets,
      checkOperands_eq_error hx hlimit hout hbefore]
    rfl

/-- A small program with constants that are hard to write. -/
def keepsake (x : Float) (offset target : Nat) : Program where
  code := #[⟨.jump, target, 0⟩, ⟨.loadVar, 0, 0⟩, ⟨.ret, 0, 0⟩, ⟨.loadConst, 4, 0⟩, ⟨.call, 5, 1⟩]
  constants := #[.int Int64.minValue, .float (Float.ofBits 0x8000000000000000),
    .float (Float.ofBits 1), .float x, .str "\"\\\n\x01\x7f☃", .str "same", .bool true]
  variableNames := #["a", ""]
  functions := ⟨[("same", ⟨1, ["a"]⟩), ("élan", ⟨offset, []⟩)]⟩
  builtins := Builtin.names

theorem keepsake_storable (x : Float) {offset target : Nat} (hoffset : offset < 2 ^ 64)
    (htarget : target < 2 ^ 64) : (keepsake x offset target).Storable where
  builtins := rfl
  functions := by
    refine List.pairwise_cons.mpr ⟨?_, List.pairwise_singleton ..⟩
    exact List.forall_mem_cons.mpr ⟨show "same" < "élan" by decide, nofun⟩
  operands := by
    refine List.forall_mem_cons.mpr ⟨⟨htarget, show 0 < 2 ^ 64 by decide⟩, ?_⟩
    decide
  offsets := by
    refine List.forall_mem_cons.mpr ⟨by decide, ?_⟩
    exact List.forall_mem_cons.mpr ⟨hoffset, nofun⟩

/-- With the codec of this library, the program with the largest finite number is loaded again.
With an infinite one it is not, and neither is it with a function or a jump past the end of its
code. -/
theorem keepsake_loaded :
    load ((keepsake (Float.ofBits 0x7fefffffffffffff) 5 5).store .plain) .plain =
        .ok (keepsake (Float.ofBits 0x7fefffffffffffff) 5 5) ∧
      load ((keepsake (Float.ofBits 0x7ff0000000000000) 6 6).store .plain) .plain =
        .error .malformed ∧
      load ((keepsake (Float.ofBits 0x7fefffffffffffff) 6 6).store .plain) .plain =
        .error (.badFunctionOffset "élan" 6 5) ∧
      load ((keepsake (Float.ofBits 0x7fefffffffffffff) 5 6).store .plain) .plain =
        .error (.operandOutOfRange 0 .jump 6 6) := by
  have hstorable (x : Float) (offset target : Nat) (h : offset ≤ 6 ∧ target ≤ 6) :
      (keepsake x offset target).Storable := keepsake_storable x (by omega) (by omega)
  have hstored (x : Float) (offset target : Nat) (h : offset ≤ 6 ∧ target ≤ 6) :=
    load_store .plain (keepsake x offset target) Json.Codec.plain_standard
      (fun _ _ => Json.Codec.plain_keepsFloat) (hstorable x offset target h)
  refine ⟨?_, ?_, ?_, ?_⟩
  · refine (hstored _ _ _ (by decide)).1.mpr ⟨by decide, ?_⟩
    exact ⟨checkOffsets_eq_ok.mp rfl, checkOperands_eq_ok.mp rfl⟩
  · exact (hstored _ _ _ (by decide)).2.1 (by decide)
  · exact (hstored _ _ _ (by decide)).2.2.1 (by decide) [("same", ⟨1, ["a"]⟩)] "élan" ⟨6, []⟩ [] rfl
      (by decide) (by decide)
  · refine (hstored _ _ _ (by decide)).2.2.2 (by decide) (by decide) 0 ⟨.jump, 6, 0⟩ 6 rfl rfl
      (by decide) ?_
    intro j y hj
    exact absurd hj (Nat.not_lt_zero j)

end Program

end Scriptlet
