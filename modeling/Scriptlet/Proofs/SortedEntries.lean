import Scriptlet.SortedMap

/-!
# Maps in key order

Writing keeps the entries of a map in order.  In an ordered map every key has one entry, so the
entries are exactly what can be read, and writing them in turn gives the map again.
-/

namespace Scriptlet.SortedMap

variable {κ α β : Type}

/-- The keys of the entries increase. -/
def Ordered [LT κ] (m : SortedMap κ α) : Prop := m.entries.Pairwise fun a b => a.1 < b.1

/-- What is read stands among the entries. -/
theorem mem_entries_of_find? [DecidableEq κ] {m : SortedMap κ α} {k : κ} {v : α}
    (h : m.find? k = some v) : (k, v) ∈ m.entries := by
  obtain ⟨before, after, hentries, -⟩ := List.lookup_eq_some_iff.mp h
  rw [hentries]
  exact List.mem_append_right _ (List.mem_cons_self ..)

section Order

variable [LT κ]

theorem ordered_empty : (empty : SortedMap κ α).Ordered := List.Pairwise.nil

/-- Other values under the same keys are in the same order. -/
theorem Ordered.map {m : SortedMap κ α} (h : m.Ordered) (f : α → β) : (m.map f).Ordered :=
  List.pairwise_map.mpr h

variable [DecidableEq κ]

/-- Every entry of an ordered map is what its key reads. -/
theorem Ordered.find?_of_mem [Std.Asymm (α := κ) (· < ·)] {m : SortedMap κ α} (h : m.Ordered)
    {k : κ} {v : α} (hmem : (k, v) ∈ m.entries) : m.find? k = some v := by
  obtain ⟨before, after, hentries⟩ := List.append_of_mem hmem
  refine List.lookup_eq_some_iff.mpr ⟨before, after, hentries, fun e he => ?_⟩
  rw [Ordered, hentries] at h
  have hlt : e.1 < k := (List.pairwise_append.mp h).2.2 e he _ (List.mem_cons_self ..)
  rw [bne_iff_ne]
  rintro rfl
  exact Std.Irrefl.irrefl (r := (· < ·)) _ hlt

/-- Two maps in order in which the same can be read are the same. -/
theorem Ordered.ext [Std.Asymm (α := κ) (· < ·)] {m m' : SortedMap κ α} (h : m.Ordered)
    (h' : m'.Ordered) (hfind : ∀ k, m.find? k = m'.find? k) : m = m' := by
  have hnodup : ∀ {m : SortedMap κ α}, m.Ordered → m.entries.Nodup := by
    intro m hm
    refine List.Pairwise.imp ?_ hm
    rintro a b hlt rfl
    exact Std.Irrefl.irrefl (r := (· < ·)) _ hlt
  have hmem : ∀ e, e ∈ m.entries ↔ e ∈ m'.entries := by
    rintro ⟨k, v⟩
    constructor
    · intro he
      exact mem_entries_of_find? ((hfind k).symm.trans (h.find?_of_mem he))
    · intro he
      exact mem_entries_of_find? ((hfind k).trans (h'.find?_of_mem he))
  have hperm := (List.perm_ext_iff_of_nodup (hnodup h) (hnodup h')).mpr hmem
  have hentries : m.entries = m'.entries := by
    refine List.Perm.eq_of_pairwise (fun a b _ _ hab hba => ?_) h h' hperm
    exact absurd hba (Std.Asymm.asymm (r := (· < ·)) _ _ hab)
  obtain ⟨es⟩ := m
  obtain ⟨es'⟩ := m'
  exact congrArg SortedMap.mk hentries

variable [DecidableLT κ]

/-- A key that is larger than all others is written at the end. -/
theorem insertEntry_of_lt [Std.Asymm (α := κ) (· < ·)] {k : κ} {v : α} {es : List (κ × α)}
    (h : ∀ e ∈ es, e.1 < k) : insertEntry k v es = es ++ [(k, v)] := by
  induction es with
  | nil => rfl
  | cons e es ih =>
    obtain ⟨he, hes⟩ := List.forall_mem_cons.mp h
    have hne : k ≠ e.1 := by
      rintro rfl
      exact Std.Irrefl.irrefl (r := (· < ·)) _ he
    rw [insertEntry, if_neg hne, if_neg (Std.Asymm.asymm (r := (· < ·)) _ _ he), ih hes]
    rfl

/-- Writing keys in increasing order, all larger than those that are there, appends the entries. -/
theorem foldl_insert_of_ordered [Std.Asymm (α := κ) (· < ·)] (es : List (κ × α))
    {m : SortedMap κ α} (h : (m.entries ++ es).Pairwise fun a b => a.1 < b.1) :
    es.foldl (fun m e => m.insert e.1 e.2) m = ⟨m.entries ++ es⟩ := by
  induction es generalizing m with
  | nil => rw [List.append_nil, List.foldl_nil]
  | cons e es ih =>
    have hlast : (m.insert e.1 e.2).entries = m.entries ++ [e] := by
      refine insertEntry_of_lt fun d hd => ?_
      exact (List.pairwise_append.mp h).2.2 d hd e (List.mem_cons_self ..)
    have hmove : m.entries ++ e :: es = m.entries ++ [e] ++ es := by
      rw [List.append_assoc, List.singleton_append]
    rw [hmove] at h ⊢
    rw [List.foldl_cons, ih (by rwa [hlast]), hlast]

/-- The entries of an ordered map, written in turn, give the map. -/
theorem Ordered.ofList_entries [Std.Asymm (α := κ) (· < ·)] {m : SortedMap κ α}
    (h : m.Ordered) : ofList m.entries = m :=
  foldl_insert_of_ordered m.entries h

/-- Writing leaves a smaller key in front. -/
theorem lt_of_mem_insertEntry {j k : κ} {v : α} {es : List (κ × α)} (hk : j < k)
    (hes : ∀ e ∈ es, j < e.1) : ∀ e ∈ insertEntry k v es, j < e.1 := by
  induction es with
  | nil =>
    intro e he
    rw [List.mem_singleton.mp he]
    exact hk
  | cons d es ih =>
    obtain ⟨hd, hrest⟩ := List.forall_mem_cons.mp hes
    rw [insertEntry]
    split
    · exact List.forall_mem_cons.mpr ⟨hk, hrest⟩
    · split
      · exact List.forall_mem_cons.mpr ⟨hk, hes⟩
      · exact List.forall_mem_cons.mpr ⟨hd, ih hrest⟩

/-- Writing keeps the order. -/
theorem Ordered.insert [Trans (α := κ) (· < ·) (· < ·) (· < ·)] [Std.Trichotomous (α := κ) (· < ·)]
    {m : SortedMap κ α} (h : m.Ordered) (k : κ) (v : α) : (m.insert k v).Ordered := by
  obtain ⟨es⟩ := m
  show (insertEntry k v es).Pairwise _
  induction es with
  | nil => exact List.pairwise_singleton ..
  | cons e es ih =>
    obtain ⟨hfirst, hrest⟩ := List.pairwise_cons.mp h
    rw [insertEntry]
    by_cases heq : k = e.1
    · rw [if_pos heq]
      exact List.pairwise_cons.mpr ⟨fun d hd => heq ▸ hfirst d hd, hrest⟩
    · rw [if_neg heq]
      by_cases hlt : k < e.1
      · rw [if_pos hlt]
        refine List.pairwise_cons.mpr ⟨fun d hd => ?_, h⟩
        rcases List.mem_cons.mp hd with rfl | hd
        · exact hlt
        · exact Trans.trans hlt (hfirst d hd)
      · -- The key goes behind the first entry, which is smaller.
        rw [if_neg hlt]
        have hgt : e.1 < k := Decidable.byContradiction fun hge =>
          heq (Std.Trichotomous.trichotomous (r := (· < ·)) _ _ hlt hge)
        exact List.pairwise_cons.mpr ⟨lt_of_mem_insertEntry hgt hfirst, ih hrest⟩

theorem Ordered.foldl_insert [Trans (α := κ) (· < ·) (· < ·) (· < ·)]
    [Std.Trichotomous (α := κ) (· < ·)] (es : List (κ × α)) {m : SortedMap κ α} (h : m.Ordered) :
    (es.foldl (fun m e => m.insert e.1 e.2) m).Ordered := by
  induction es generalizing m with
  | nil => exact h
  | cons e es ih => exact ih (h.insert e.1 e.2)

/-- What can be read after writing a list in turn stands in the list or could be read before. -/
theorem mem_of_find?_foldl_insert {k : κ} {v : α} (es : List (κ × α)) {m : SortedMap κ α}
    (h : (es.foldl (fun m e => m.insert e.1 e.2) m).find? k = some v) :
    (k, v) ∈ es ∨ m.find? k = some v := by
  induction es generalizing m with
  | nil => exact .inr h
  | cons e es ih =>
    rcases ih h with hmem | hfind
    · exact .inl (List.mem_cons_of_mem _ hmem)
    · rw [find?_insert] at hfind
      by_cases hk : k = e.1
      · rw [if_pos hk] at hfind
        cases hfind
        subst hk
        exact .inl (List.mem_cons_self ..)
      · rw [if_neg hk] at hfind
        exact .inr hfind

theorem find?_foldl_insert {k : κ} {v : α} (es : List (κ × α)) {m : SortedMap κ α}
    (h : ∀ w, (k, w) ∈ es → w = v) (hm : (k, v) ∈ es ∨ m.find? k = some v) :
    (es.foldl (fun m e => m.insert e.1 e.2) m).find? k = some v := by
  induction es generalizing m with
  | nil => exact hm.resolve_left nofun
  | cons e es ih =>
    refine ih (fun w hw => h w (List.mem_cons_of_mem _ hw)) ?_
    rw [find?_insert]
    by_cases hk : k = e.1
    · subst hk
      rw [if_pos rfl, h e.2 (List.mem_cons_self ..)]
      exact .inr rfl
    · rw [if_neg hk]
      refine hm.imp_left fun hmem => ?_
      rcases List.mem_cons.mp hmem with rfl | hmem
      · exact absurd rfl hk
      · exact hmem

/-- If every key has one value in a list, the list is what can be read of the map made of it. -/
theorem find?_ofList {es : List (κ × α)} (h : ∀ k v w, (k, v) ∈ es → (k, w) ∈ es → v = w) {k : κ}
    {v : α} : (ofList es).find? k = some v ↔ (k, v) ∈ es := by
  constructor
  · intro hfind
    exact (mem_of_find?_foldl_insert es hfind).resolve_right nofun
  · intro hmem
    exact find?_foldl_insert es (fun w hw => h k w v hw hmem) (.inl hmem)

end Order

end Scriptlet.SortedMap
