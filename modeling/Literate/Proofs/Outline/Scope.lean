import Literate.Proofs.Outline.Nesting

/-!
# Which assignment a fragment sees

A `Declaration` is an assignment together with the section and the language for which it was made. The
rule by which one of them counts for a fragment is said of the list of all declarations so far, in
document order (`Governs`): the nearest section first, in one section a declaration for the
fragment's language before one for all languages, and of those the latest.

An outline keeps of all declarations only the last one of each kind (`Records`). That is enough to
resolve properties by the rule (`resolve_resolved`).
-/

namespace Literate

open Directive (Assignment)

/-- An assignment, the section it was made in and the language it was made for. -/
structure Declaration where
  node : Nat
  language : Option String
  assignment : Assignment
deriving DecidableEq, Repr

/-- What a section says for fragments of one language, or for all where none is given. -/
def Section.said? (s : Section) (language : Option String) (key : Property) : Option Value :=
  match language with
  | none => s.shared.lookup key
  | some l => (s.qualified.lookup l).bind fun ps => ps.lookup key

theorem Section.value?_eq (s : Section) (language : Option String) (key : Property) :
    s.value? language key =
      (language.bind fun l => s.said? (some l) key).or (s.said? none key) := rfl

/-- A declaration changes what a section says for its language and its key, and nothing else. -/
theorem Section.said?_declare (s : Section) (language language' : Option String)
    (key key' : Property) (value : Value) :
    (s.declare language key value).said? language' key' =
      if language' = language ∧ key' = key then some value else s.said? language' key' := by
  cases language with
  | none =>
    cases language' with
    | none => simp [said?, declare, Entries.lookup_put]
    | some l' => simp [said?, declare]
  | some l =>
    cases language' with
    | none => simp [said?, declare]
    | some l' =>
      simp only [said?, declare, Entries.lookup_update, Option.some.injEq]
      by_cases hl : l' = l
      · subst hl
        cases hs : s.qualified.lookup l' <;> by_cases hk : key' = key <;>
          simp [Entries.lookup_put, hk]
      · simp [hl]

namespace Outline

/-- What a section of an outline says for fragments of one language, or for all. -/
def said? (o : Outline) (n : Nat) (language : Option String) (key : Property) : Option Value :=
  o[n]?.bind (·.said? language key)

theorem said?_declare {o : Outline} {k : Nat} (hk : k < o.length) (n : Nat)
    (language language' : Option String) (key key' : Property) (value : Value) :
    (o.declare k language key value).said? n language' key' =
      if n = k ∧ language' = language ∧ key' = key then some value
      else o.said? n language' key' := by
  rw [said?, declare, List.getElem?_modify]
  by_cases hn : n = k
  · subst hn
    simp [List.getElem?_eq_getElem hk, Section.said?_declare, said?]
  · simp [hn, Ne.symm hn, said?]

/-- The value that was last declared in a section for fragments of one language, or for all. -/
def lastSaid (ds : List Declaration) (n : Nat) (language : Option String) (key : Property) :
    Option Value :=
  (ds.reverse.find? fun d =>
    d.node = n ∧ d.language = language ∧ d.assignment.property = key).map (·.assignment.value)

theorem lastSaid_append (ds : List Declaration) (d : Declaration) (n : Nat)
    (language : Option String) (key : Property) :
    lastSaid (ds ++ [d]) n language key =
      if d.node = n ∧ d.language = language ∧ d.assignment.property = key then
        some d.assignment.value
      else lastSaid ds n language key := by
  rw [lastSaid, List.reverse_append, List.reverse_singleton, List.singleton_append,
    List.find?_cons]
  by_cases h : d.node = n ∧ d.language = language ∧ d.assignment.property = key
  · simp [h]
  · simp [h, lastSaid]

/-- Whether the sections say what was last declared in them. -/
def Records (o : Outline) (ds : List Declaration) : Prop :=
  ∀ n language key, o.said? n language key = lastSaid ds n language key

theorem records_root (level : Int) (title : Option String) : Records (root level title) [] := by
  intro n language key
  cases n <;> cases language <;> rfl

/-- A section that is opened says nothing yet. -/
theorem said?_addBelow (o : Outline) (p : Nat) (level : Int) (title : Option String) (n : Nat)
    (language : Option String) (key : Property) :
    (OpenOutline.addBelow o p level title).said? n language key = o.said? n language key := by
  rw [said?, said?]
  rcases Nat.lt_trichotomy n o.length with hlt | rfl | hgt
  · rw [OpenOutline.addBelow, List.getElem?_append_left hlt]
  · rw [getElem?_addBelow_length, List.getElem?_eq_none (Nat.le_refl _)]
    cases language <;> rfl
  · rw [List.getElem?_eq_none (Nat.le_of_lt hgt),
      List.getElem?_eq_none (by simp [OpenOutline.addBelow]; omega)]

theorem Records.addBelow {o : Outline} {ds : List Declaration} (h : Records o ds) (p : Nat)
    (level : Int) (title : Option String) :
    Records (OpenOutline.addBelow o p level title) ds := by
  intro n language key
  rw [said?_addBelow, h n language key]

theorem length_declare (o : Outline) (n : Nat) (language : Option String) (key : Property)
    (value : Value) : (o.declare n language key value).length = o.length := by
  simp [declare]

theorem parent?_declare (o : Outline) (k n : Nat) (language : Option String) (key : Property)
    (value : Value) : (o.declare k language key value).parent? n = o.parent? n := by
  rw [parent?, parent?, declare, List.getElem?_modify]
  by_cases hn : k = n
  · cases o[n]? <;> cases language <;> simp [hn, Section.declare]
  · simp [hn]

theorem levelOf_declare (o : Outline) (k n : Nat) (language : Option String) (key : Property)
    (value : Value) :
    OpenOutline.levelOf (o.declare k language key value) n = OpenOutline.levelOf o n := by
  rw [OpenOutline.levelOf, OpenOutline.levelOf, declare, List.getElem?_modify]
  by_cases hn : k = n
  · cases o[n]? <;> cases language <;> simp [hn, Section.declare]
  · simp [hn]

theorem Records.declare {o : Outline} {ds : List Declaration} (h : Records o ds) {k : Nat}
    (hk : k < o.length) (language : Option String) (a : Assignment) :
    Records (o.declare k language a.property a.value) (ds ++ [⟨k, language, a⟩]) := by
  intro n language' key
  rw [said?_declare hk, lastSaid_append, h n language' key]
  simp only [eq_comm]

/-- The declarations that a directive makes in a section. -/
def declarationsOf (n : Nat) (d : Directive) : List Declaration :=
  d.assignments.map (⟨n, d.language, ·⟩)

theorem Records.apply {o : Outline} {ds : List Declaration} (h : Records o ds) {n : Nat}
    (hn : n < o.length) (d : Directive) : Records (o.apply n d) (ds ++ declarationsOf n d) := by
  rw [Outline.apply, declarationsOf]
  generalize d.assignments = as
  induction as generalizing o ds with
  | nil => simpa using h
  | cons a as ih =>
    have := ih (h.declare hn d.language a) (by rwa [length_declare])
    simpa using this

/-- Setting a property changes no section's place. -/
theorem Nests.declare {b : OpenOutline} {levels : List Int} (h : Nests b levels) (k : Nat)
    (language : Option String) (key : Property) (value : Value) :
    Nests { b with outline := b.outline.declare k language key value } levels where
  length := by rw [length_declare, h.length]
  level := fun n hn => by rw [levelOf_declare, h.level n hn]
  root := by rw [parent?_declare, h.root]
  parent := fun n hn => by rw [parent?_declare, h.parent n hn]
  opened := h.opened

theorem Nests.apply {b : OpenOutline} {levels : List Int} (h : Nests b levels) (n : Nat)
    (d : Directive) : Nests { b with outline := b.outline.apply n d } levels := by
  rw [Outline.apply]
  generalize d.assignments = as
  induction as generalizing b with
  | nil => exact h
  | cons a as ih => exact ih (h.declare n d.language a.property a.value)

end Outline

/-! ## The rule -/

/-- Whether a declaration is for a property of fragments in a language and was made in their section or
in one around it. -/
structure Declaration.Counts (levels : List Int) (n : Nat) (language : Option String)
    (key : Property) (d : Declaration) : Prop where
  node : d.node ∈ Outline.enclosing levels n
  language : d.language = none ∨ d.language = language
  key : d.assignment.property = key

/-- The declaration by which a property of a section's fragments in a language is set: of those that
count, its section is the nearest one; in that section, one for all languages counts only if there is
none for theirs; and it is the latest of its kind. -/
structure Declaration.Governs (levels : List Int) (ds : List Declaration) (n : Nat)
    (language : Option String) (key : Property) (d : Declaration) : Prop where
  counts : d.Counts levels n language key
  nearest : ∀ e ∈ ds, e.Counts levels n language key → e.node ∈ Outline.enclosing levels d.node
  qualified : ∀ e ∈ ds, e.Counts levels n language key → e.node = d.node →
    e.language.isSome → d.language.isSome
  latest : ∃ before after, ds = before ++ d :: after ∧
    ∀ e ∈ after, e.Counts levels n language key → e.node = d.node → e.language ≠ d.language

namespace Outline

/-- The value that the declarations so far give to a property, by the rule. -/
inductive Resolved (levels : List Int) (ds : List Declaration) (n : Nat)
    (language : Option String) (key : Property) : Option Value → Prop where
  | declared {d : Declaration} : d.Governs levels ds n language key →
      Resolved levels ds n language key (some d.assignment.value)
  | undeclared : (∀ d ∈ ds, ¬ d.Counts levels n language key) →
      Resolved levels ds n language key key.default

/-- At most one declaration governs a property. -/
theorem governs_unique {levels : List Int} {ds : List Declaration} {n : Nat}
    {language : Option String} {key : Property} {d d' : Declaration}
    (h : d.Governs levels ds n language key) (h' : d'.Governs levels ds n language key) :
    d = d' := by
  obtain ⟨before, after, hds, hlast⟩ := h.latest
  obtain ⟨before', after', hds', hlast'⟩ := h'.latest
  have hmem : d ∈ ds := by simp [hds]
  have hmem' : d' ∈ ds := by simp [hds']
  have hnode : d.node = d'.node := by
    have hle := le_of_mem_enclosing (h.nearest d' hmem' h'.counts)
    have hle' := le_of_mem_enclosing (h'.nearest d hmem h.counts)
    omega
  have hlanguage : d.language = d'.language := by
    have hq := h.qualified d' hmem' h'.counts hnode.symm
    have hq' := h'.qualified d hmem h.counts hnode
    rcases h.counts.language with hd | hd <;> rcases h'.counts.language with hd' | hd'
    · rw [hd, hd']
    · cases hl : d'.language with
      | none => exact hd
      | some l => simp [hl, hd] at hq
    · cases hl : d.language with
      | none => exact hd'.symm
      | some l => simp [hl, hd'] at hq'
    · rw [hd, hd']
  -- neither stands after the other, so they stand in the same place
  rw [hds] at hds'
  rcases List.append_eq_append_iff.mp hds' with ⟨mid, -, hmid⟩ | ⟨mid, -, hmid⟩
  · cases mid with
    | nil => exact (List.cons.inj hmid).1
    | cons e mid =>
      have hin : d' ∈ after := by simp [(List.cons.inj hmid).2]
      exact absurd hlanguage.symm (hlast d' hin h'.counts hnode.symm)
  · cases mid with
    | nil => exact (List.cons.inj hmid).1.symm
    | cons e mid =>
      have hin : d ∈ after' := by simp [(List.cons.inj hmid).2]
      exact absurd hlanguage (hlast' d hin h.counts hnode)

/-- The rule gives every property one value only. -/
theorem Resolved.unique {levels : List Int} {ds : List Declaration} {n : Nat}
    {language : Option String} {key : Property} {v v' : Option Value}
    (h : Resolved levels ds n language key v) (h' : Resolved levels ds n language key v') :
    v = v' := by
  cases h with
  | declared hd =>
    obtain ⟨before, after, hds, -⟩ := hd.latest
    cases h' with
    | declared hd' => rw [governs_unique hd hd']
    | undeclared hno => exact absurd hd.counts (hno _ (by simp [hds]))
  | undeclared hno =>
    cases h' with
    | declared hd' =>
      obtain ⟨before, after, hds, -⟩ := hd'.latest
      exact absurd hd'.counts (hno _ (by simp [hds]))
    | undeclared _ => rfl

theorem lastSaid_eq_some {ds : List Declaration} {n : Nat} {language : Option String}
    {key : Property} {v : Value} (h : lastSaid ds n language key = some v) :
    ∃ before d after, ds = before ++ d :: after ∧ v = d.assignment.value ∧
      (d.node = n ∧ d.language = language ∧ d.assignment.property = key) ∧
      ∀ e ∈ after, ¬ (e.node = n ∧ e.language = language ∧ e.assignment.property = key) := by
  obtain ⟨d, hd, rfl⟩ := Option.map_eq_some_iff.mp h
  obtain ⟨hp, later, earlier, hsplit, hlater⟩ := List.find?_eq_some_iff_append.mp hd
  refine ⟨earlier.reverse, d, later.reverse, ?_, rfl, by simpa using hp, ?_⟩
  · rw [← List.reverse_reverse ds, hsplit]
    simp
  · intro e he
    simpa only [Bool.not_eq_true', decide_eq_false_iff_not] using
      hlater e (List.mem_reverse.mp he)

theorem lastSaid_ne_none {ds : List Declaration} {d : Declaration} (h : d ∈ ds) :
    lastSaid ds d.node d.language d.assignment.property ≠ none := by
  intro hnone
  rw [lastSaid, Option.map_eq_none_iff, List.find?_eq_none] at hnone
  exact hnone d (List.mem_reverse.mpr h) (by simp)

/-- What a section says about a property is nothing only if none of its declarations is for it. -/
theorem value?_ne_none {o : Outline} {ds : List Declaration} (h : Records o ds)
    {levels : List Int} {n : Nat} {language : Option String} {key : Property} {d : Declaration}
    (hd : d ∈ ds) (hc : d.Counts levels n language key) :
    (o[d.node]?.bind (·.value? language key)) ≠ none := by
  have hsaid := lastSaid_ne_none hd
  rw [← h, hc.key, said?] at hsaid
  cases hsec : o[d.node]? with
  | none => simp [hsec] at hsaid
  | some s =>
    simp only [hsec, Option.bind_some] at hsaid ⊢
    rw [Section.value?_eq]
    intro hnone
    rw [Option.or_eq_none_iff] at hnone
    rcases hc.language with hl | hl
    · rw [hl] at hsaid
      exact hsaid hnone.2
    · cases hlang : language with
      | none =>
        rw [hl, hlang] at hsaid
        exact hsaid hnone.2
      | some l =>
        rw [hl, hlang] at hsaid
        rw [hlang] at hnone
        exact hsaid hnone.1

/-- The value that the nearest section with declarations has comes from the one that governs. -/
theorem governs_of_value? {o : Outline} {ds : List Declaration} (h : Records o ds)
    {levels : List Int} {n a : Nat} {language : Option String} {key : Property} {v : Value}
    (ha : a ∈ enclosing levels n)
    (hnear : ∀ e ∈ ds, e.Counts levels n language key → e.node ∈ enclosing levels a)
    (hv : (o[a]?.bind (·.value? language key)) = some v) :
    ∃ d : Declaration, d.Governs levels ds n language key ∧ v = d.assignment.value := by
  obtain ⟨s, hs, hval⟩ := Option.bind_eq_some_iff.mp hv
  have hsaid : ∀ l, o.said? a l key = s.said? l key := by
    intro l
    rw [said?, hs, Option.bind_some]
  rw [Section.value?_eq] at hval
  rcases Option.or_eq_some_iff.mp hval with hown | ⟨hown, hshared⟩
  · -- declared for the language of the fragment
    obtain ⟨l, hl, hown⟩ := Option.bind_eq_some_iff.mp hown
    rw [← hsaid, h] at hown
    obtain ⟨before, d, after, hsplit, rfl, ⟨rfl, hlang, hkey⟩, hlast⟩ := lastSaid_eq_some hown
    refine ⟨d, ⟨⟨ha, Or.inr (by rw [hlang, hl]), hkey⟩, hnear, fun _ _ _ _ _ => by simp [hlang],
      before, after, hsplit, ?_⟩, rfl⟩
    intro e he hc hnode heq
    exact hlast e he ⟨hnode, by rw [heq, hlang], hc.key⟩
  · -- declared for all languages, and in this section for no other reason
    rw [← hsaid, h] at hshared
    obtain ⟨before, d, after, hsplit, rfl, ⟨rfl, hlang, hkey⟩, hlast⟩ :=
      lastSaid_eq_some hshared
    refine ⟨d, ⟨⟨ha, Or.inl hlang, hkey⟩, hnear, ?_, before, after, hsplit, ?_⟩, rfl⟩
    · intro e he hc hnode hsome
      obtain ⟨l, hl⟩ := Option.isSome_iff_exists.mp hsome
      have hlanguage : language = some l := by
        rcases hc.language with hnone | heq
        · rw [hnone] at hl
          cases hl
        · rw [← heq, hl]
      have hnone : lastSaid ds d.node (some l) key = none := by
        rw [← h, hsaid]
        rw [hlanguage] at hown
        exact hown
      exact absurd hnone (by rw [← hnode, ← hl, ← hc.key]; exact lastSaid_ne_none he)
    · intro e he hc hnode heq
      exact hlast e he ⟨hnode, by rw [heq, hlang], hc.key⟩

/-- Walking up from a section finds the value that the rule gives. -/
theorem resolve_resolved {b : OpenOutline} {levels : List Int} {ds : List Declaration}
    (hn : Nests b levels) (hr : Records b.outline ds) {n : Nat} (hle : n ≤ levels.length)
    (language : Option String) (key : Property) :
    Resolved levels ds n language key (b.outline.resolve n language key) := by
  rw [resolve, hn.chain_eq hle]
  cases hfind : (enclosing levels n).findSome?
      fun i => b.outline[i]?.bind (·.value? language key) with
  | none =>
    rw [List.findSome?_eq_none_iff] at hfind
    apply Resolved.undeclared
    intro d hd hc
    exact value?_ne_none hr hd hc (hfind d.node hc.node)
  | some v =>
    obtain ⟨inner, a, outer, hsplit, hv, hinner⟩ := List.findSome?_eq_some_iff.mp hfind
    have ha : a ∈ enclosing levels n := by
      rw [hsplit]
      simp
    -- whatever counts was not declared further inside, where the walk found nothing
    have hnear : ∀ e ∈ ds, e.Counts levels n language key → e.node ∈ enclosing levels a := by
      intro e he hc
      have hpair := pairwise_enclosing levels n
      have hmem := hc.node
      rw [hsplit] at hpair hmem
      rcases List.mem_append.mp hmem with hin | hout
      · exact absurd (hinner _ hin) (value?_ne_none hr he hc)
      · rcases List.mem_cons.mp hout with heq | hout
        · rw [heq]
          exact self_mem_enclosing levels a
        · exact (List.pairwise_cons.mp (List.pairwise_append.mp hpair).2.1).1 _ hout
    obtain ⟨d, hd, rfl⟩ := governs_of_value? hr ha hnear hv
    exact .declared hd

end Outline

end Literate
