import Literate.Registry
import Mathlib.Data.List.Induction

/-!
# Flavors that take the place of others

Under an id, and under an extension, the last flavor that was registered is found (`forName?_eq_some_iff`,
`forExtension?_eq_some_iff`). The two need not agree: a flavor that takes the place of another one under its
id takes over only the extensions that it lists itself. Under an extension that nobody took over, the flavor
that was replaced is still found, and under no other one (`announces_current_iff`).
-/

namespace Literate

open Text (lowercase)

namespace Flavor

/-- Whether a flavor goes by an id, in any letter case. -/
def GoesBy (f : Flavor) (id : String) : Prop := lowercase f.id = lowercase id

/-- Whether a flavor lists an extension, in any letter case. -/
def Lists (f : Flavor) (extension : String) : Prop :=
  ∃ e ∈ f.extensions, lowercase e = lowercase extension

/-- Whether a flavor is the last of some flavors with a property. -/
def Latest (P : Flavor → Prop) (fs : List Flavor) (f : Flavor) : Prop :=
  ∃ before after, fs = before ++ f :: after ∧ P f ∧ ∀ g ∈ after, ¬ P g

instance (f : Flavor) (id : String) : Decidable (f.GoesBy id) :=
  inferInstanceAs (Decidable (lowercase f.id = lowercase id))

instance (f : Flavor) (extension : String) : Decidable (f.Lists extension) :=
  inferInstanceAs (Decidable (∃ e ∈ f.extensions, lowercase e = lowercase extension))

variable {P Q : Flavor → Prop} {fs before before' after after' : List Flavor} {f g : Flavor}

theorem not_latest_nil : ¬ Latest P [] f := by
  rintro ⟨before, after, hnil, -⟩
  exact List.append_ne_nil_of_right_ne_nil before (List.cons_ne_nil f after) hnil.symm

/-- One more flavor is the last one if it has the property, and else changes nothing. -/
theorem latest_concat : Latest P (fs ++ [g]) f ↔ P g ∧ f = g ∨ ¬ P g ∧ Latest P fs f := by
  constructor
  · rintro ⟨before, after, hsplit, hf, hafter⟩
    cases after using List.reverseRecOn with
    | nil =>
      obtain ⟨-, hg⟩ := List.append_inj' hsplit rfl
      cases hg
      exact Or.inl ⟨hf, rfl⟩
    | append_singleton after last =>
      rw [← List.cons_append, ← List.append_assoc] at hsplit
      obtain ⟨hfs, hg⟩ := List.append_inj' hsplit rfl
      cases hg
      rw [List.forall_mem_append, List.forall_mem_singleton] at hafter
      exact Or.inr ⟨hafter.2, before, after, hfs, hf, hafter.1⟩
  · rintro (⟨hg, rfl⟩ | ⟨hg, before, after, rfl, hf, hafter⟩)
    · exact ⟨fs, [], rfl, hg, List.forall_mem_nil _⟩
    · refine ⟨before, after ++ [g], by simp, hf, ?_⟩
      exact List.forall_mem_append.mpr ⟨hafter, List.forall_mem_singleton.mpr hg⟩

/-- The last flavor with one property, if it is the last with another one too, has nothing behind it with
either. -/
theorem after_eq_of_latest (hsplit : fs = before ++ f :: after) (hf : P f) (hafter : ∀ g ∈ after, ¬ P g)
    (hsplit' : fs = before' ++ f :: after') (hf' : Q f) (hafter' : ∀ g ∈ after', ¬ Q g) :
    after = after' := by
  have hbehind : f :: after <:+ fs := ⟨before, hsplit.symm⟩
  have hbehind' : f :: after' <:+ fs := ⟨before', hsplit'.symm⟩
  rcases List.suffix_or_suffix_of_suffix hbehind hbehind' with h | h
  · rcases List.suffix_cons_iff.mp h with heq | hlater
    · exact List.tail_eq_of_cons_eq heq
    · exact absurd hf' (hafter' f (hlater.subset List.mem_cons_self))
  · rcases List.suffix_cons_iff.mp h with heq | hlater
    · exact (List.tail_eq_of_cons_eq heq).symm
    · exact absurd hf (hafter f (hlater.subset List.mem_cons_self))

end Flavor

namespace Registry

open Flavor (Latest)

variable {r : Registry} {f : Flavor} {fs : List Flavor} {id extension : String}

/-- The registry with some more flavors, registered one after the other. -/
def registerAll (r : Registry) (fs : List Flavor) : Registry := fs.foldl register r

/-- Whether a flavor is the one that is registered under its own id. -/
structure Current (r : Registry) (f : Flavor) : Prop where
  named : r.forName? f.id = some f
  known : f ∈ r.flavors

/-- Whether an extension of a flavor that is replaced under its id is always listed by a flavor that was
registered after it. -/
def TakenOver (history : List Flavor) (extension : String) : Prop :=
  ∀ before f after, history = before ++ f :: after → f.Lists extension →
    (∃ g ∈ after, g.GoesBy f.id) → ∃ g ∈ after, g.Lists extension

/-! ## One more flavor -/

theorem forName?_register (r : Registry) (f : Flavor) (id : String) :
    (r.register f).forName? id = if f.GoesBy id then some f else r.forName? id := by
  rw [forName?, register, Entries.lookup_put]
  by_cases h : f.GoesBy id
  · rw [if_pos h, if_pos (beq_iff_eq.mpr h.symm)]
  · rw [if_neg h, if_neg fun heq => h (beq_iff_eq.mp heq).symm, forName?]

theorem lookup_foldl_put (f : Flavor) (extensions : List String) (m : Entries String Flavor)
    (extension : String) :
    (extensions.foldl (fun m e => Entries.put (lowercase e) f m) m).lookup (lowercase extension) =
      if ∃ e ∈ extensions, lowercase e = lowercase extension then some f
      else m.lookup (lowercase extension) := by
  induction extensions generalizing m with
  | nil => simp
  | cons e extensions ih =>
    rw [List.foldl_cons, ih, Entries.lookup_put]
    simp only [List.mem_cons, exists_eq_or_imp, beq_iff_eq]
    by_cases hlater : ∃ e ∈ extensions, lowercase e = lowercase extension
    · rw [if_pos hlater, if_pos (Or.inr hlater)]
    · by_cases hfirst : lowercase e = lowercase extension
      · rw [if_neg hlater, if_pos hfirst.symm, if_pos (Or.inl hfirst)]
      · rw [if_neg hlater, if_neg (Ne.symm hfirst), if_neg (not_or_intro hfirst hlater)]

theorem forExtension?_register (r : Registry) (f : Flavor) (extension : String) :
    (r.register f).forExtension? extension =
      if f.Lists extension then some f else r.forExtension? extension :=
  lookup_foldl_put f f.extensions r.byExtension extension

/-! ## All flavors -/

theorem registerAll_concat (r : Registry) (fs : List Flavor) (f : Flavor) :
    r.registerAll (fs ++ [f]) = (r.registerAll fs).register f := by
  rw [registerAll, registerAll, List.foldl_append, List.foldl_cons, List.foldl_nil]

/-- The flavors that are there from the start are the first ones that were registered. -/
theorem builtin_registerAll (fs : List Flavor) :
    builtin.registerAll fs = empty.registerAll (.github :: .inner :: fs) := by
  rw [registerAll, registerAll, List.foldl_cons, List.foldl_cons, builtin]

theorem forName?_eq_some_iff :
    (empty.registerAll fs).forName? id = some f ↔ Latest (·.GoesBy id) fs f := by
  induction fs using List.reverseRecOn with
  | nil => exact iff_of_false nofun Flavor.not_latest_nil
  | append_singleton fs g ih =>
    rw [registerAll_concat, forName?_register, Flavor.latest_concat, ← ih]
    split
    · rename_i hg
      simp [hg, eq_comm]
    · rename_i hg
      simp [hg]

theorem forExtension?_eq_some_iff :
    (empty.registerAll fs).forExtension? extension = some f ↔ Latest (·.Lists extension) fs f := by
  induction fs using List.reverseRecOn with
  | nil => exact iff_of_false nofun Flavor.not_latest_nil
  | append_singleton fs g ih =>
    rw [registerAll_concat, forExtension?_register, Flavor.latest_concat, ← ih]
    split
    · rename_i hg
      simp [hg, eq_comm]
    · rename_i hg
      simp [hg]

/-- A flavor that is found under some id is the one under its own. -/
theorem current_of_forName? (h : (empty.registerAll fs).forName? id = some f) :
    (empty.registerAll fs).Current f := by
  obtain ⟨before, after, hsplit, hf, hafter⟩ := forName?_eq_some_iff.mp h
  have hnamed : (empty.registerAll fs).forName? f.id = some f := by
    rw [forName?, hf]
    exact h
  obtain ⟨entries, more, hentries, -⟩ := List.lookup_eq_some_iff.mp hnamed
  refine ⟨hnamed, ?_⟩
  rw [mem_flavors, hentries]
  simp

/-- The flavor that an extension announces is the last one under its id exactly if no later one that goes by
the id leaves the extension to it. -/
theorem forExtension?_current_iff :
    (∀ f, (empty.registerAll fs).forExtension? extension = some f → (empty.registerAll fs).Current f) ↔
      TakenOver fs extension := by
  constructor
  · intro hcurrent before f after hsplit hf ⟨g, hg, hid⟩
    by_contra hnone
    have hafter : ∀ g ∈ after, ¬ g.Lists extension := fun g hg hlists => hnone ⟨g, hg, hlists⟩
    have hannounced := forExtension?_eq_some_iff.mpr ⟨before, after, hsplit, hf, hafter⟩
    obtain ⟨before', after', hsplit', hself, hlast⟩ :=
      forName?_eq_some_iff.mp (hcurrent f hannounced).named
    have hsame := Flavor.after_eq_of_latest (P := (·.Lists extension)) (Q := (·.GoesBy f.id))
      hsplit hf hafter hsplit' hself hlast
    exact hlast g (hsame ▸ hg) hid
  · intro htaken f hannounced
    obtain ⟨before, after, hsplit, hf, hafter⟩ := forExtension?_eq_some_iff.mp hannounced
    have hlast : Latest (·.GoesBy f.id) fs f := by
      refine ⟨before, after, hsplit, rfl, fun g hg hid => ?_⟩
      obtain ⟨g', hg', hlists⟩ := htaken before f after hsplit hf ⟨g, hg, hid⟩
      exact hafter g' hg' hlists
    exact current_of_forName? (forName?_eq_some_iff.mpr hlast)

/-! ## The flavor of a document -/

theorem resolve_announced (h : r.forExtension? extension = some f) (hsome : extension ≠ "")
    (fallback : String) : r.resolve (some extension) none fallback = .ok f := by
  simp [resolve, hsome, h]

/-- A document is of the flavor that its extension announces, if it has one, or else of the one under the
default id. -/
theorem resolve_cases {fallback : String} (h : r.resolve (some extension) none fallback = .ok f) :
    extension ≠ "" ∧ r.forExtension? extension = some f ∨ r.forName? fallback = some f := by
  simp only [resolve, Option.bind_some, String.isEmpty_iff] at h
  split at h
  · rename_i g hannounced
    cases h
    left
    split at hannounced
    · cases hannounced
    · rename_i hsome
      exact ⟨hsome, hannounced⟩
  · split at h
    · rename_i g hfallback
      cases h
      exact Or.inr hfallback
    · cases h

/-- The flavor that an extension announces lists it. It is the one that is registered under its own id exactly
if the extension was taken over from all flavors that list it and were replaced. Then, or where there is no
extension, a document is never of a flavor that was replaced. -/
theorem announces_current_iff (fs : List Flavor) (extension : String) :
    let r := builtin.registerAll fs
    (∀ f, r.forExtension? extension = some f → f.Lists extension) ∧
    ((∀ f, r.forExtension? extension = some f → r.Current f) ↔
      TakenOver (.github :: .inner :: fs) extension) ∧
    ((∀ f fallback, r.resolve (some extension) none fallback = .ok f → r.Current f) ↔
      extension = "" ∨ TakenOver (.github :: .inner :: fs) extension) := by
  rw [builtin_registerAll, ← forExtension?_current_iff]
  intro r
  refine ⟨?_, Iff.rfl, ?_, ?_⟩
  · intro f hannounced
    obtain ⟨-, -, -, hf, -⟩ := forExtension?_eq_some_iff.mp hannounced
    exact hf
  · intro hcurrent
    refine or_iff_not_imp_left.mpr fun hsome f hannounced => ?_
    exact hcurrent f defaultId (resolve_announced hannounced hsome defaultId)
  · intro hcurrent f fallback hresolve
    rcases resolve_cases hresolve with ⟨hsome, hannounced⟩ | hfallback
    · exact hcurrent.resolve_left hsome f hannounced
    · exact current_of_forName? hfallback

/-- Documents with fences of tildes, called like those with fences of backquotes. -/
def tildesFor (extensions : List String) : Flavor :=
  ⟨"GitHub", "~~~", extensions, none, Flavor.defaultNestedLanguage⟩

/-- The extension of the flavor that is replaced is listed again, in capitals. -/
theorem announces_current_iff_tildes :
    let r := builtin.registerAll [tildesFor [".MD", ".tmd"]]
    TakenOver [.github, .inner, tildesFor [".MD", ".tmd"]] ".md" ∧
      r.forExtension? ".md" = some (tildesFor [".MD", ".tmd"]) ∧
      ∀ f fallback, r.resolve (some ".md") none fallback = .ok f → r.Current f := by
  intro r
  obtain ⟨-, hannounced, hresolved⟩ := announces_current_iff [tildesFor [".MD", ".tmd"]] ".md"
  have hfound : r.forExtension? ".md" = some (tildesFor [".MD", ".tmd"]) := by decide +kernel
  have hnamed : r.forName? "GitHub" = some (tildesFor [".MD", ".tmd"]) := by decide +kernel
  have hknown : tildesFor [".MD", ".tmd"] ∈ r.flavors := by
    rw [mem_flavors]
    decide +kernel
  have hcurrent : ∀ f, r.forExtension? ".md" = some f → r.Current f := by
    intro f hf
    obtain rfl := Option.some.inj (hfound.symm.trans hf)
    exact ⟨hnamed, hknown⟩
  have htaken := hannounced.mp hcurrent
  exact ⟨htaken, hfound, hresolved.mpr (Or.inr htaken)⟩

/-- A flavor that was replaced under its id still announces itself by an extension that was not taken over. -/
theorem replaced_announced :
    let r := builtin.registerAll [tildesFor [".tmd"]]
    r.forExtension? ".md" = some .github ∧ r.resolve (some ".md") none defaultId = .ok .github ∧
      r.forName? Flavor.github.id = some (tildesFor [".tmd"]) ∧ Flavor.github ∉ r.flavors ∧
      ¬ r.Current .github := by
  intro r
  have hnamed : r.forName? Flavor.github.id = some (tildesFor [".tmd"]) := by decide +kernel
  have hunknown : Flavor.github ∉ r.flavors := by
    rw [mem_flavors]
    decide +kernel
  exact ⟨by decide +kernel, by decide +kernel, hnamed, hunknown, fun h => hunknown h.known⟩

end Registry

end Literate
