import Literate.Proofs.Outline.Ancestry
import Literate.Proofs.Outline.Scope

/-!
# What a declaration changes

A declaration in a section is seen from that section and from those within it, by the fragments that it is
for, as far as nothing hides it: a section further inside that says something of the property, or a
declaration for the fragment's language in the same section (`Prevails`). There the property gets the declared
value, and everywhere else it keeps its own (`resolve_declare`).
-/

namespace Literate

/-- Whether a declaration in a section, for fragments of one language or for all, is what the section says
of a property to fragments of a language. -/
structure Section.Sets (s : Section) (language : Option String) (key : Property)
    (language' : Option String) (key' : Property) : Prop where
  key_eq : key' = key
  meant : language = none ∨ language = language'
  unqualified : language = none → ∀ l, language' = some l → s.said? (some l) key = none

/-- A declaration changes what a section says exactly to those whom it is for and to whom it does not
say something more special. -/
theorem Section.value?_declare (s : Section) (language language' : Option String)
    (key key' : Property) (value : Value) :
    (s.Sets language key language' key' →
      (s.declare language key value).value? language' key' = some value) ∧
    (¬ s.Sets language key language' key' →
      (s.declare language key value).value? language' key' = s.value? language' key') := by
  rw [value?_eq, value?_eq]
  simp only [said?_declare]
  by_cases hkey : key' = key
  · subst hkey
    cases language with
    | none =>
      cases language' with
      | none =>
        refine ⟨fun _ => by simp, fun h => absurd ⟨rfl, Or.inl rfl, nofun⟩ h⟩
      | some l =>
        cases hown : s.said? (some l) key' with
        | none =>
          refine ⟨fun _ => by simp [hown], fun h => absurd ⟨rfl, Or.inl rfl, ?_⟩ h⟩
          rintro - l' ⟨⟩
          exact hown
        | some v =>
          refine ⟨fun h => ?_, fun _ => by simp [hown]⟩
          have := h.unqualified rfl l rfl
          rw [hown] at this
          cases this
    | some l =>
      by_cases hl : language' = some l
      · subst hl
        exact ⟨fun _ => by simp, fun h => absurd ⟨rfl, Or.inr rfl, nofun⟩ h⟩
      · refine ⟨fun h => ?_, fun _ => ?_⟩
        · rcases h.meant with hnone | heq
          · cases hnone
          · exact absurd heq.symm hl
        · cases language' with
          | none => simp
          | some l' =>
            have hl' : ¬ l' = l := fun heq => hl (by rw [heq])
            simp [hl']
  · exact ⟨fun h => absurd h.key_eq hkey, fun _ => by simp [hkey]⟩

namespace Outline

variable {o : Outline} {n m : Nat} {language language' : Option String} {key key' : Property}

/-- Whether a declaration of a property in section `n`, for fragments of one language or for all, is what
the fragments of section `m` in a language see of a property. -/
structure Prevails (o : Outline) (n : Nat) (language : Option String) (key : Property) (m : Nat)
    (language' : Option String) (key' : Property) : Prop where
  key_eq : key' = key
  covers : o.Covers n m
  meant : language = none ∨ language = language'
  /-- No section that is nearer says anything of the property, to all or to the language. -/
  nearest : ∀ i, o.Covers n i → i ≠ n → o.Covers i m →
    o.said? i none key = none ∧ o.said? i language' key = none
  /-- If the declaration is for all languages, its section says nothing to this one alone. -/
  unqualified : language = none → ∀ l, language' = some l → o.said? n (some l) key = none

/-- What a section of an outline says of a property to fragments of a language. -/
def value? (o : Outline) (n : Nat) (language : Option String) (key : Property) : Option Value :=
  o[n]?.bind (·.value? language key)

theorem value?_eq_none_iff (o : Outline) (n : Nat) (language : Option String) (key : Property) :
    o.value? n language key = none ↔
      o.said? n none key = none ∧ o.said? n language key = none := by
  rw [value?, said?, said?]
  cases o[n]? with
  | none => simp
  | some s =>
    simp only [Option.bind_some]
    rw [Section.value?_eq, Option.or_eq_none_iff]
    cases language <;> simp [and_comm]

/-- A declaration changes nothing that other sections say. -/
theorem value?_declare_of_ne (h : m ≠ n) (value : Value) :
    (o.declare n language key value).value? m language' key' = o.value? m language' key' := by
  rw [value?, value?, declare, List.getElem?_modify]
  simp only [if_neg (Ne.symm h), id_map']

theorem resolve_eq (o : Outline) (n : Nat) (language : Option String) (key : Property) :
    o.resolve n language key =
      ((o.chain n).findSome? fun i => o.value? i language key).or key.default := rfl

theorem chain_declare (n : Nat) (language : Option String) (key : Property) (value : Value) (m : Nat) :
    (o.declare n language key value).chain m = o.chain m :=
  chain_congr (fun i => parent?_declare o n i language key value) m

theorem findSome?_congr_of_mem {α β : Type} {f g : α → Option β} {l : List α}
    (h : ∀ a ∈ l, f a = g a) : l.findSome? f = l.findSome? g := by
  induction l with
  | nil => rfl
  | cons a l ih =>
    rw [List.findSome?_cons, List.findSome?_cons, h a (by simp), ih fun b hb => h b (by simp [hb])]

/-- What sections say is the same after a declaration in another one. -/
theorem findSome?_declare {l : List Nat} (h : n ∉ l) (value : Value) :
    (l.findSome? fun i => (o.declare n language key value).value? i language' key') =
      l.findSome? fun i => o.value? i language' key' := by
  apply findSome?_congr_of_mem
  intro i hi
  apply value?_declare_of_ne
  rintro rfl
  exact h hi

/-- A section that is not around another one does not matter to it. -/
theorem resolve_declare_of_not_covers (ho : o.ParentsFirst) (h : ¬ o.Covers n m) (value : Value) :
    (o.declare n language key value).resolve m language' key' = o.resolve m language' key' := by
  have hmem : n ∉ o.chain m := fun hn => h ((mem_chain_iff ho).mp hn)
  rw [resolve_eq, resolve_eq, chain_declare, findSome?_declare hmem]

/-- What is resolved, as told by the sections nearer than a certain one, by that one, and by those
around it. -/
theorem resolve_split {inner outer : List Nat} (h : o.chain m = inner ++ n :: outer) :
    o.resolve m language key =
      ((inner.findSome? fun i => o.value? i language key).or ((o.value? n language key).or
        (outer.findSome? fun i => o.value? i language key))).or key.default := by
  rw [resolve_eq, h, List.findSome?_append, List.findSome?_cons]
  cases o.value? n language key <;> rfl

/-- After a declaration only the section with the declaration says something else. -/
theorem resolve_declare_split {inner outer : List Nat} {s : Section} (hs : o[n]? = some s)
    (h : o.chain m = inner ++ n :: outer) (hinner : n ∉ inner) (houter : n ∉ outer) (value : Value) :
    (o.declare n language key value).resolve m language' key' =
      ((inner.findSome? fun i => o.value? i language' key').or
        (((s.declare language key value).value? language' key').or
          (outer.findSome? fun i => o.value? i language' key'))).or key'.default := by
  have hchain : (o.declare n language key value).chain m = inner ++ n :: outer := by
    rw [chain_declare, h]
  have hhere : (o.declare n language key value).value? n language' key' =
      (s.declare language key value).value? language' key' := by
    rw [value?, declare, List.getElem?_modify_eq, hs]
    rfl
  rw [resolve_split hchain, findSome?_declare hinner, findSome?_declare houter, hhere]

theorem Prevails.of_sets {s : Section} (hs : o[n]? = some s) (hcovers : o.Covers n m)
    (hsets : s.Sets language key language' key')
    (hfree : ∀ i, o.Covers n i → i ≠ n → o.Covers i m → o.value? i language' key' = none) :
    o.Prevails n language key m language' key' where
  key_eq := hsets.key_eq
  covers := hcovers
  meant := hsets.meant
  nearest i hni hne him := by
    rw [← hsets.key_eq]
    exact (value?_eq_none_iff o i language' key').mp (hfree i hni hne him)
  unqualified hnone l hl := by
    rw [said?, hs, Option.bind_some]
    exact hsets.unqualified hnone l hl

theorem Prevails.sets {s : Section} (hs : o[n]? = some s)
    (h : o.Prevails n language key m language' key') : s.Sets language key language' key' where
  key_eq := h.key_eq
  meant := h.meant
  unqualified hnone l hl := by
    have hsaid := h.unqualified hnone l hl
    rwa [said?, hs, Option.bind_some] at hsaid

/-! ## Outlines that grow section by section -/

theorem parentsFirst_root (level : Int) (title : Option String) : (root level title).ParentsFirst := by
  intro n p hp
  cases n <;> simp [root, parent?, Section.opened] at hp

theorem ParentsFirst.addBelow (ho : o.ParentsFirst) (hn : n < o.length) (level : Int)
    (title : Option String) : ParentsFirst (OpenOutline.addBelow o n level title) := by
  intro i p hp
  rcases Nat.lt_or_ge i o.length with hi | hi
  · rw [parent?_addBelow hi] at hp
    exact ho i p hp
  · have hlength := length_of_parent? hp
    rw [OpenOutline.addBelow, List.length_append, List.length_singleton] at hlength
    obtain rfl : i = o.length := by omega
    rw [parent?, getElem?_addBelow_length] at hp
    cases hp
    exact hn

theorem ParentsFirst.declare (ho : o.ParentsFirst) (n : Nat) (language : Option String)
    (key : Property) (value : Value) : (o.declare n language key value).ParentsFirst := by
  intro i p hp
  rw [parent?_declare] at hp
  exact ho i p hp

/-! ## The effect -/

/-- A declaration is seen exactly where it prevails, and nowhere else does anything change. -/
theorem resolve_declare (o : Outline) (n : Nat) (language : Option String) (key : Property)
    (value : Value) (m : Nat) (language' : Option String) (key' : Property)
    (ho : o.ParentsFirst) (hn : n < o.length) :
    (o.Prevails n language key m language' key' →
      (o.declare n language key value).resolve m language' key' = some value) ∧
    (¬ o.Prevails n language key m language' key' →
      (o.declare n language key value).resolve m language' key' = o.resolve m language' key') := by
  by_cases hcovers : o.Covers n m
  · obtain ⟨s, hs⟩ : ∃ s, o[n]? = some s := ⟨o[n], List.getElem?_eq_getElem hn⟩
    obtain ⟨inner, outer, hsplit, hninner, hnouter, hinner⟩ := exists_chain_split ho hcovers
    obtain ⟨hsets, hkeeps⟩ := s.value?_declare language language' key key' value
    rw [resolve_declare_split hs hsplit hninner hnouter]
    constructor
    · intro h
      have hfree : (inner.findSome? fun i => o.value? i language' key') = none := by
        rw [List.findSome?_eq_none_iff]
        intro i hi
        obtain ⟨hni, hne, him⟩ := (hinner i).mp hi
        rw [h.key_eq]
        exact (value?_eq_none_iff o i language' key).mpr (h.nearest i hni hne him)
      rw [hfree, hsets (h.sets hs)]
      rfl
    · intro h
      have hhere : o.value? n language' key' = s.value? language' key' := by
        rw [value?, hs, Option.bind_some]
      rw [resolve_split hsplit, hhere]
      by_cases hset : s.Sets language key language' key'
      · -- the section says something else now, but one that is nearer speaks first
        cases hfind : inner.findSome? fun i => o.value? i language' key' with
        | some v => rfl
        | none =>
          rw [List.findSome?_eq_none_iff] at hfind
          refine absurd (Prevails.of_sets hs hcovers hset ?_) h
          intro i hni hne him
          exact hfind i ((hinner i).mpr ⟨hni, hne, him⟩)
      · rw [hkeeps hset]
  · exact ⟨fun h => absurd h.covers hcovers, fun _ => resolve_declare_of_not_covers ho hcovers value⟩

/-- A guide with a section in it that has a tag of its own for one language. -/
def tagged : Outline :=
  let guide := OpenOutline.addBelow (root 0 none) 0 1 (some "Guide")
  (OpenOutline.addBelow guide 1 2 (some "Setup")).declare 1 (some "python") .tag (.text "code")

theorem tagged_parentsFirst : tagged.ParentsFirst := by
  have hguide := (parentsFirst_root 0 none).addBelow (n := 0) (by decide) 1 (some "Guide")
  have hsetup := hguide.addBelow (n := 1) (by decide) 2 (some "Setup")
  exact hsetup.declare 1 (some "python") .tag (.text "code")

/-- A tag for the whole guide is seen further inside by one language and hidden from the other. -/
theorem resolve_declare_tagged :
    let o := tagged.declare 1 none .tag (.text "guide")
    tagged.ParentsFirst ∧ 1 < tagged.length ∧
      o.resolve 2 (some "rust") .tag = some (.text "guide") ∧
      o.resolve 2 (some "python") .tag = tagged.resolve 2 (some "python") .tag := by
  intro o
  have hlength : 1 < tagged.length := by decide
  have effect := fun language =>
    resolve_declare tagged 1 none .tag (.text "guide") 2 language .tag tagged_parentsFirst hlength
  refine ⟨tagged_parentsFirst, hlength, (effect (some "rust")).1 ?_, (effect (some "python")).2 ?_⟩
  · refine ⟨rfl, .of_parent rfl (.refl tagged 1), Or.inl rfl, ?_, ?_⟩
    · intro i hi hne hi'
      have hle := tagged_parentsFirst.le_of_covers hi
      have hle' := tagged_parentsFirst.le_of_covers hi'
      obtain rfl : i = 2 := by omega
      exact ⟨rfl, rfl⟩
    · rintro - l ⟨⟩
      rfl
  · intro h
    exact absurd (h.unqualified rfl "python" rfl) (by decide)

end Outline

end Literate
