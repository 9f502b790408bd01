import Literate.Proofs.Flavor.Rendering
import Literate.Proofs.Pass.Configuration
import Literate.Proofs.Plan.Assembly
import Literate.Tangle.Issue
import Mathlib.Data.List.Infix

/-!
# Weaving and tangling

Code that is to go to some destinations can be woven into a document: a directive that names the
destination, and behind it a fence around the code. Going through that document and planning what goes
where gives the code back (`ofText_woven`), whatever the code looks like and however often a
destination comes again.

All the directives stand in the root section, so each of them replaces the destination that the one
before it has set. What the document brings is collected snippet by snippet (`Collects`).
-/

namespace Literate

open Directive (Quotes Written Setting)
open Flavor (ClosingLine)
open Outline (Nests Records Resolved)

/-- Code and the destination that it is for. -/
structure Snippet where
  destination : String
  content : String
deriving DecidableEq

namespace Snippet

/-- Characters as they are written between single quotes. -/
def escaped : List Char → List Char
  | [] => []
  | c :: cs => if c = '\'' ∨ c = '\\' then '\\' :: c :: escaped cs else c :: escaped cs

/-- A text in single quotes. -/
def quoted (text : String) : String := String.ofList ('\'' :: (escaped text.toList ++ ['\'']))

/-- A snippet as it stands in a document. -/
def text (s : Snippet) : String :=
  s!"<?btxt filename={quoted s.destination} ?>\n```\n{s.content}```\n"

/-- Whether a snippet can be woven: its destination is a name without a closer, and its content
consists of whole lines, none of which closes a fence. -/
structure Weavable (s : Snippet) : Prop where
  named : s.destination ≠ ""
  unclosed : ¬ "?>".toList <:+: s.destination.toList
  whole : s.content.toList = [] ∨ ['\n'] <:+ s.content.toList
  fenced : ∀ line ∈ s.content.toList.splitOn '\n', ¬ ClosingLine "```".toList line

instance (s : Snippet) : Decidable s.Weavable :=
  decidable_of_iff (s.destination ≠ "" ∧ ¬ "?>".toList <:+: s.destination.toList ∧
      (s.content.toList = [] ∨ ['\n'] <:+ s.content.toList) ∧
      ∀ line ∈ s.content.toList.splitOn '\n', ¬ ClosingLine "```".toList line)
    ⟨fun ⟨named, unclosed, whole, fenced⟩ => ⟨named, unclosed, whole, fenced⟩,
      fun ⟨named, unclosed, whole, fenced⟩ => ⟨named, unclosed, whole, fenced⟩⟩

/-- All that is for a destination, one snippet after the other. -/
def gathered (snippets : List Snippet) (destination : String) : String :=
  String.join ((snippets.filter (·.destination = destination)).map (·.content))

end Snippet

/-- The document into which snippets are woven. -/
def woven (snippets : List Snippet) : String := String.join (snippets.map Snippet.text)

/-! ## The blocks of a woven document -/

namespace Snippet

theorem quotes_escaped (cs : List Char) : Quotes '\'' (escaped cs) cs := by
  induction cs with
  | nil => exact .nil
  | cons c cs ih =>
    rw [escaped]
    by_cases hc : c = '\'' ∨ c = '\\'
    · rw [if_pos hc]
      exact .escaped hc ih
    · rw [if_neg hc]
      obtain ⟨hquote, hbackslash⟩ := not_or.mp hc
      exact .plain hquote hbackslash ih

/-- What is written starts with the angle that ends a closer only if the text does. -/
theorem angle_of_escaped {cs : List Char} (h : ['>'] <+: escaped cs) : ['>'] <+: cs := by
  cases cs with
  | nil => exact h
  | cons c cs =>
    rw [escaped] at h
    split at h
    · cases (List.cons_prefix_cons.mp h).1
    · obtain ⟨rfl, -⟩ := List.cons_prefix_cons.mp h
      exact List.cons_prefix_cons.mpr ⟨rfl, List.nil_prefix⟩

/-- Backslashes make no closer of what was none. -/
theorem closer_of_escaped {cs : List Char} (h : ['?', '>'] <:+: escaped cs) :
    ['?', '>'] <:+: cs := by
  induction cs with
  | nil => exact h
  | cons c cs ih =>
    rw [escaped] at h
    split at h
    · rename_i hc
      rcases List.infix_cons_iff.mp h with hp | h
      · cases (List.cons_prefix_cons.mp hp).1
      · rcases List.infix_cons_iff.mp h with hp | h
        · -- the escaped character is no question mark
          obtain ⟨rfl, -⟩ := List.cons_prefix_cons.mp hp
          rcases hc with hc | hc <;> cases hc
        · exact List.infix_cons (ih h)
    · rcases List.infix_cons_iff.mp h with hp | h
      · obtain ⟨rfl, hangle⟩ := List.cons_prefix_cons.mp hp
        exact (List.cons_prefix_cons.mpr ⟨rfl, angle_of_escaped hangle⟩).isInfix
      · exact List.infix_cons (ih h)

/-- The directive that names the destination. -/
def written (s : Snippet) : Written :=
  ⟨.instruction, none,
    [⟨[' '], "filename".toList, .quoted '\'' (escaped s.destination.toList)⟩], [' ']⟩

/-- What the directive sets. -/
def settings (s : Snippet) : List Setting := [.assignment (.destination s.destination)]

def blocks (s : Snippet) : List Block := [.directive s.written s.settings, .fenced none s.content]

theorem text_eq (s : Snippet) : s.text = rendered .github s.blocks := by
  have hopening : "<?btxt filename=".toList =
      "<?btxt".toList ++ ([' '] ++ "filename".toList ++ ['=']) := by decide
  have hclosing : " ?>\n```\n".toList = [' '] ++ "?>".toList ++ ['\n'] ++ "```".toList ++ ['\n'] := by
    decide
  have hfence : "```\n".toList = "```".toList ++ ['\n'] := by decide
  have hdirective : s.written.chars =
      "<?btxt filename=".toList ++ (quoted s.destination).toList ++ ([' '] ++ "?>".toList) := by
    rw [hopening, Written.chars, Written.itemsChars, written, List.flatMap_singleton]
    simp only [quoted, String.toList_ofList, Written.lead, Written.qualifierChars,
      Written.Item.chars, Written.Item.lead, Written.Value.chars, List.append_assoc,
      List.nil_append, List.cons_append]
    rfl
  unfold text
  rw [← String.toList_inj, rendered, String.toList_ofList, blocks, List.flatMap_cons,
    List.flatMap_singleton]
  simp only [String.toList_append, toString, hclosing, hfence, Block.chars, hdirective,
    Flavor.github, Option.getD_none, String.toList_empty, List.append_assoc, List.nil_append,
    List.cons_append]

theorem woven_eq (snippets : List Snippet) :
    woven snippets = rendered .github (snippets.flatMap blocks) := by
  induction snippets with
  | nil => rfl
  | cons s snippets ih =>
    rw [woven] at ih
    rw [woven, List.map_cons, String.join_cons, ih, text_eq, List.flatMap_cons]
    simp only [rendered, List.flatMap_append, String.ofList_append]

theorem Weavable.blocks {s : Snippet} (h : s.Weavable) :
    ∀ b ∈ s.blocks, b.WellFormed .github := by
  have hname : s.destination.toList ≠ [] := by simpa using h.named
  have havoids : Directive.Avoids (some .instruction) (escaped s.destination.toList) := by
    rintro k ⟨⟩ hinfix
    exact h.unclosed (closer_of_escaped hinfix)
  have hitem := accepted_destination (q := '\'') (by decide) (quotes_escaped _) havoids hname
  rw [String.ofList_toList] at hitem
  intro b hb
  simp only [Snippet.blocks, List.mem_cons, List.not_mem_nil, or_false] at hb
  rcases hb with rfl | rfl
  · exact .directive ⟨nofun, nofun, .cons hitem .nil, by simp [settings],
      by simp [written, Text.isBlank_space]⟩
  · exact .fenced nofun h.whole h.fenced

end Snippet

/-! ## One section, and destinations only -/

/-- The destination that was set last counts, and all else is as nobody has set it. -/
theorem Config.ResolvedBy.last_destination {levels : List Int} {ds : List Declaration} {n : Nat}
    {name : String} {c : Config}
    (h : c.ResolvedBy levels (ds ++ [⟨n, none, .destination name⟩]) n none)
    (hds : ∀ d ∈ ds, d.assignment.property = .destination) :
    c = ⟨some name, .append, none, false, .body⟩ := by
  have hset : Resolved levels (ds ++ [⟨n, none, .destination name⟩]) n none .destination
      (some (.text name)) := by
    refine .declared (d := ⟨n, none, .destination name⟩)
      ⟨⟨Outline.self_mem_enclosing levels n, Or.inl rfl, rfl⟩, ?_, ?_, ds, [], rfl, by simp⟩
    · intro e _ he
      exact he.node
    · intro e _ he _ hsome
      rcases he.language with hnone | hnone <;> simp [hnone] at hsome
  have hunset : ∀ key, key ≠ .destination →
      Resolved levels (ds ++ [⟨n, none, .destination name⟩]) n none key key.default := by
    intro key hkey
    refine .undeclared ?_
    intro d hd hcounts
    rcases List.mem_append.mp hd with hd | hd
    · exact hkey (hcounts.key.symm.trans (hds d hd))
    · obtain rfl := List.mem_singleton.mp hd
      exact hkey hcounts.key.symm
  have hdestination := h.destination.unique hset
  have hmode := h.mode.unique (hunset .mode nofun)
  have htag := h.tag.unique (hunset .tag nofun)
  have hignore := h.ignore.unique (hunset .ignore nofun)
  have hrole := h.role.unique (hunset .role nofun)
  obtain ⟨destination, mode, tag, ignore, role⟩ := c
  cases hmode
  cases hignore
  cases hrole
  cases destination with
  | none => cases hdestination
  | some destination =>
    cases hdestination
    cases tag with
    | none => rfl
    | some tag => cases htag

/-! ## Going through a woven document -/

namespace Snippet

/-- The configuration of the fragment that a snippet becomes. -/
def config (s : Snippet) : Config := ⟨some s.destination, .append, none, false, .body⟩

/-- A fragment for the destination of a snippet, with its content. -/
structure Becomes (s : Snippet) (f : Fragment) : Prop where
  content : f.content = s.content
  config : f.config = s.config

/-- The declaration that the directive of a snippet makes. -/
def declaration (s : Snippet) : Declaration := ⟨0, none, .destination s.destination⟩

/-- What holds once the document of some snippets is gone through. -/
structure Collects (snippets : List Snippet) (t : Traversal) : Prop where
  nests : Nests t.outline []
  records : Records t.outline.outline (snippets.map declaration)
  fragments : List.Forall₂ Becomes snippets t.fragments
  declared : t.declared = (snippets.map (·.destination)).eraseDups
  faults : t.faults = []
  nested : t.nested = []

theorem collects_start : Collects [] .start where
  nests := Outline.nests_start none
  records := Outline.records_root 0 none
  fragments := .nil
  declared := rfl
  faults := rfl
  nested := rfl

theorem declare_eraseDups (names : List String) (d : String) :
    Traversal.declare names.eraseDups (some d) = (names ++ [d]).eraseDups := by
  rw [Traversal.declare, List.eraseDups_append]
  by_cases hd : d ∈ names
  · simp [hd, List.removeAll]
  · simp [hd, List.removeAll, List.eraseDups_cons]

/-- A directive that only names a destination. -/
theorem Collects.direct {snippets : List Snippet} {t : Traversal} (h : Collects snippets t)
    (s : Snippet) (p : Position) :
    ∃ outline, t.direct (s.written.directive s.settings p) =
        .ok { t with
          outline
          declared := ((snippets ++ [s]).map (·.destination)).eraseDups } ∧
      Nests outline [] ∧ Records outline.outline ((snippets ++ [s]).map declaration) := by
  obtain ⟨d, hd⟩ : ∃ d, d = s.written.directive s.settings p := ⟨_, rfl⟩
  have hlanguage : d.language = none := by rw [hd]; rfl
  have hassigns : d.assignments = [.destination s.destination] := by rw [hd]; rfl
  have hpayloads : d.orderedPayloads = [] := by rw [hd]; rfl
  have hnames : d.destination? = some s.destination := by
    rw [Directive.destination?, hassigns]
    rfl
  refine ⟨{ t.outline with outline := t.outline.outline.apply 0 d }, ?_, h.nests.apply 0 d, ?_⟩
  · rw [← hd, Traversal.direct, h.nests.current?]
    simp only [hpayloads, List.foldlM_nil, hnames, h.declared, declare_eraseDups, List.map_append,
      List.map_cons, List.map_nil]
    rfl
  · have happly := h.records.apply (n := 0) (by rw [h.nests.length]; omega) d
    rw [Outline.declarationsOf, hassigns, hlanguage] at happly
    rwa [List.map_append]

/-- A snippet is collected by going through its directive and its fence. -/
theorem Collects.snippet {snippets : List Snippet} {t : Traversal} (h : Collects snippets t)
    (s : Snippet) (lenient : Bool) (p p' : Position) :
    ∃ t₁ t₂, t.step lenient (.event (.directive (s.written.directive s.settings p) p)) = .ok t₁ ∧
      t₁.step lenient (.event (.fragment none s.content p')) = .ok t₂ ∧
      Collects (snippets ++ [s]) t₂ := by
  obtain ⟨outline, hdirect, hnests, hrecords⟩ := h.direct s p
  obtain ⟨set, hset⟩ : ∃ set : Traversal, set = { t with
      outline
      declared := ((snippets ++ [s]).map (·.destination)).eraseDups } := ⟨_, rfl⟩
  obtain ⟨f, hemit, hf⟩ := Traversal.emit_becomes (t := set) (by rw [hset]; exact hnests)
    (by rw [hset]; exact hrecords) ⟨none, s.content, p'.line, .fence, none⟩
  -- of all the directives so far, that of the snippet is the last one
  obtain ⟨c, hc, hconfig⟩ := hf.config
  rw [List.map_append] at hc
  have hlast := hc.last_destination (by
    intro d hd
    obtain ⟨s', -, rfl⟩ := List.mem_map.mp hd
    rfl)
  refine ⟨set, { set with fragments := set.fragments ++ [f] }, ?_, ?_, ?_⟩
  · rw [Traversal.step, hdirect, hset]
  · rw [Traversal.step]
    exact hemit
  · rw [hset]
    refine ⟨hnests, hrecords, ?_, rfl, h.faults, h.nested⟩
    refine List.rel_append h.fragments (.cons ⟨hf.content, ?_⟩ .nil)
    rw [hconfig, hlast]
    rfl

theorem run_collects (r : Registry) (lenient : Bool) (more : List Snippet)
    {snippets : List Snippet} {t : Traversal} (h : Collects snippets t) (p : Position) :
    ∃ t', t.run lenient
        ((blockEvents .github p (more.flatMap blocks)).map (Document.ofEvent r)) = .ok t' ∧
      Collects (snippets ++ more) t' := by
  induction more generalizing snippets t p with
  | nil =>
    refine ⟨t, ?_, by rwa [List.append_nil]⟩
    rw [List.flatMap_nil, blockEvents, List.map_nil, Traversal.run]
  | cons s more ih =>
    obtain ⟨behind, hbehind⟩ : ∃ q, q = p.after (Block.chars .github (.directive s.written s.settings)) :=
      ⟨_, rfl⟩
    obtain ⟨t₁, t₂, hdirective, hfence, ht₂⟩ := h.snippet s lenient p behind
    obtain ⟨t', hrun, ht'⟩ := ih ht₂ (behind.after (Block.chars .github (.fenced none s.content)))
    refine ⟨t', ?_, by rwa [List.append_assoc] at ht'⟩
    have hevents : (blockEvents .github p ((s :: more).flatMap blocks)).map (Document.ofEvent r) =
        .event (.directive (s.written.directive s.settings p) p) ::
          .event (.fragment none s.content behind) ::
            (blockEvents .github (behind.after (Block.chars .github (.fenced none s.content)))
              (more.flatMap blocks)).map (Document.ofEvent r) := by
      rw [hbehind]
      rfl
    rw [hevents, Traversal.run, hdirective]
    simp only
    rw [Traversal.run, hfence]
    exact hrun

/-! ## Planning what was collected -/

theorem distinct_eq_eraseDups (names : List String) : Plan.distinct names = names.eraseDups := by
  induction names using List.reverseRecOn with
  | nil => rfl
  | append_singleton names d ih =>
    rw [← declare_eraseDups, ← ih, Plan.distinct, List.foldl_append]
    rfl

theorem distinct_of_nodup {names : List String} (h : names.Nodup) :
    Plan.distinct names = names := by
  induction names using List.reverseRecOn with
  | nil => rfl
  | append_singleton names d ih =>
    obtain ⟨hnames, -, hd⟩ := List.nodup_append.mp h
    rw [Plan.distinct_append, ih hnames, if_neg fun hmem => hd d hmem d (by simp) rfl]

variable {snippets : List Snippet} {fragments : List Fragment}

theorem exists_becomes (h : List.Forall₂ Becomes snippets fragments) {f : Fragment}
    (hf : f ∈ fragments) : ∃ s ∈ snippets, s.Becomes f := by
  induction h with
  | nil => cases hf
  | @cons s g _ _ hg _ ih =>
    rcases List.mem_cons.mp hf with rfl | hf
    · exact ⟨s, List.mem_cons_self, hg⟩
    · obtain ⟨s', hs', hbecomes⟩ := ih hf
      exact ⟨s', List.mem_cons_of_mem _ hs', hbecomes⟩

theorem becomes_destinations (h : List.Forall₂ Becomes snippets fragments) :
    fragments.filterMap (·.config.destination) = snippets.map (·.destination) := by
  induction h with
  | nil => rfl
  | cons hf _ ih => rw [List.filterMap_cons, hf.config, ih, List.map_cons, config]

/-- Nothing of what is collected is left out. -/
theorem becomes_kept (h : List.Forall₂ Becomes snippets fragments) :
    fragments.filter (Plan.keeps none) = fragments := by
  rw [List.filter_eq_self]
  intro f hf
  obtain ⟨s, -, hs⟩ := exists_becomes h hf
  rw [Plan.keeps, hs.config]
  rfl

/-- What is for one destination comes from the snippets for it. -/
theorem becomes_filter (h : List.Forall₂ Becomes snippets fragments) (d : String) :
    List.Forall₂ Becomes (snippets.filter (·.destination = d))
      (fragments.filter (·.config.destination == some d)) := by
  induction h with
  | nil => exact .nil
  | @cons s f _ _ hf _ ih =>
    have hdestination : f.config.destination = some s.destination := by rw [hf.config]; rfl
    by_cases hd : s.destination = d
    · rw [List.filter_cons_of_pos (by simpa using hd),
        List.filter_cons_of_pos (by simp [hdestination, hd])]
      exact .cons hf ih
    · rw [List.filter_cons_of_neg (by simpa using hd),
        List.filter_cons_of_neg (by simp [hdestination, hd])]
      exact ih

/-- All of it belongs to the body, so it is written in the order of the snippets. -/
theorem becomes_arranged (h : List.Forall₂ Becomes snippets fragments) :
    Plan.arranged fragments = fragments := by
  have hrole : ∀ f ∈ fragments, f.config.role = .body := by
    intro f hf
    obtain ⟨s, -, hs⟩ := exists_becomes h hf
    rw [hs.config, config]
  have hnone : ∀ role ≠ Role.body, Plan.ofRole fragments role = [] := by
    intro role hne
    rw [Plan.ofRole, List.filter_eq_nil_iff]
    intro f hf
    simpa [hrole f hf] using hne.symm
  have hall : Plan.ofRole fragments .body = fragments := by
    rw [Plan.ofRole, List.filter_eq_self]
    intro f hf
    simp [hrole f hf]
  rw [Plan.arranged, hnone .before (by decide), hall, hnone .after (by decide), List.nil_append,
    List.append_nil]

theorem becomes_replay (h : List.Forall₂ Becomes snippets fragments) (existing : ByteArray) :
    Operation.replay existing (fragments.map fun f => (Plan.operationOf f).operation) =
      existing ++ (String.join (snippets.map (·.content))).toUTF8 := by
  induction h generalizing existing with
  | nil => exact ByteArray.append_empty.symm
  | @cons s f _ _ hf _ ih =>
    have hfirst : (Plan.operationOf f).operation.apply existing = existing ++ s.content.toUTF8 := by
      rw [Operation.apply, Plan.operationOf, hf.config, Fragment.bytes, hf.content]
      rfl
    rw [List.map_cons, Operation.replay_cons, hfirst, ih, List.map_cons, String.join_cons,
      ByteArray.append_assoc]
    exact congrArg _ (String.toByteArray_append ..).symm

/-- What a destination holds in the end, when what is collected is written to it. -/
theorem becomes_finalBytes (h : List.Forall₂ Becomes snippets fragments) (d : String)
    (existing : ByteArray) :
    (Plan.forDestination fragments d).finalBytes existing =
      existing ++ (gathered snippets d).toUTF8 := by
  have hd := becomes_filter h d
  rw [DestinationPlan.finalBytes, DestinationPlan.toWrite, Plan.forDestination,
    becomes_arranged hd, List.map_map]
  exact becomes_replay hd existing

theorem becomes_bodyCount (h : List.Forall₂ Becomes snippets fragments) (d : String) :
    (Plan.forDestination fragments d).bodyCount =
      (snippets.filter (·.destination = d)).length := by
  have hd := becomes_filter h d
  rw [DestinationPlan.bodyCount, Plan.forDestination, becomes_arranged hd, List.countP_map,
    hd.length_eq, List.countP_eq_length]
  intro f hf
  obtain ⟨s, -, hs⟩ := exists_becomes hd hf
  simp [Plan.operationOf, hs.config, config]

/-- A plan that brings snippets where they belong. -/
structure Restored (snippets : List Snippet) (plan : Plan) : Prop where
  unrouted : plan.unrouted = []
  destinations : plan.destinations.map (·.destination) =
    (snippets.map (·.destination)).eraseDups
  declared : plan.declared = (snippets.map (·.destination)).eraseDups
  finalBytes : ∀ d ∈ plan.destinations, ∀ existing,
    d.finalBytes existing = existing ++ (gathered snippets d.destination).toUTF8
  issues : ∀ strict cwd, plan.issues strict cwd none = []

theorem Collects.walk {t : Traversal} (h : Collects snippets t) (flavorId : String) :
    (t.finish flavorId).walk = [t.finish flavorId] := by
  rw [Traversal.finish, h.nested, Pass.walk, Pass.walkAll]

theorem Collects.plan {t : Traversal} (h : Collects snippets t) (flavorId : String) :
    Plan.ofPass (t.finish flavorId) none =
      { destinations :=
          (snippets.map (·.destination)).eraseDups.map (Plan.forDestination t.fragments)
        unrouted := []
        declared := (snippets.map (·.destination)).eraseDups } := by
  have hunrouted : t.fragments.filter (·.config.destination.isNone) = [] := by
    rw [List.filter_eq_nil_iff]
    intro f hf
    obtain ⟨s, -, hs⟩ := exists_becomes h.fragments hf
    simp [hs.config, config]
  have hdeclared : (snippets.map (·.destination)).eraseDups.eraseDups =
      (snippets.map (·.destination)).eraseDups := by
    rw [← distinct_eq_eraseDups, ← distinct_eq_eraseDups]
    exact distinct_of_nodup (Plan.nodup_distinct _)
  rw [Plan.ofPass, Plan.ofFragments, h.walk, List.flatMap_singleton, List.flatMap_singleton,
    Traversal.finish]
  simp only [becomes_kept h.fragments, becomes_destinations h.fragments, distinct_eq_eraseDups,
    hunrouted, h.declared, hdeclared]

/-- Something goes to the body of whatever is declared. -/
theorem Collects.leavesEmpty {t : Traversal} (h : Collects snippets t) (flavorId : String)
    {d : String} (hd : d ∈ snippets.map (·.destination)) :
    (Plan.ofPass (t.finish flavorId) none).leavesEmpty d = false := by
  rw [h.plan, Plan.leavesEmpty, Plan.find?, List.find?_map]
  cases hfind : ((snippets.map (·.destination)).eraseDups).find?
      ((·.destination == d) ∘ Plan.forDestination t.fragments) with
  | none =>
    have hno := List.find?_eq_none.mp hfind d (List.mem_eraseDups.mpr hd)
    exact absurd (beq_self_eq_true d) hno
  | some e =>
    obtain rfl : e = d := by
      have hname := List.find?_some hfind
      rwa [Function.comp_apply, beq_iff_eq, Plan.forDestination] at hname
    obtain ⟨s, hs, rfl⟩ := List.mem_map.mp hd
    have hmem : s ∈ snippets.filter (·.destination = s.destination) :=
      List.mem_filter.mpr ⟨hs, by simp⟩
    have hlength := List.length_pos_of_mem hmem
    rw [← becomes_bodyCount h.fragments] at hlength
    simp only [Option.map_some, beq_eq_false_iff_ne]
    omega

theorem Collects.restored {t : Traversal} (h : Collects snippets t) (flavorId : String) :
    Restored snippets (Plan.ofPass (t.finish flavorId) none) where
  unrouted := by rw [h.plan]
  destinations := by
    rw [h.plan, List.map_map]
    exact List.map_id _
  declared := by rw [h.plan]
  finalBytes := by
    intro d hd existing
    rw [h.plan] at hd
    obtain ⟨name, -, rfl⟩ := List.mem_map.mp hd
    exact becomes_finalBytes h.fragments name existing
  issues := by
    intro strict cwd
    have hdeclared : (Plan.ofPass (t.finish flavorId) none).declared.filter
        (Plan.ofPass (t.finish flavorId) none).leavesEmpty = [] := by
      rw [List.filter_eq_nil_iff]
      intro d hd
      rw [h.plan, List.mem_eraseDups] at hd
      rw [h.leavesEmpty flavorId hd]
      exact Bool.false_ne_true
    rw [Plan.issues, hdeclared, h.plan]
    rfl

/-- A woven document is read as the blocks of its snippets. -/
theorem read_woven (r : Registry) {snippets : List Snippet} (h : ∀ s ∈ snippets, s.Weavable) :
    Document.read r .github (woven snippets) =
      (blockEvents .github .start (snippets.flatMap blocks)).map (Document.ofEvent r) := by
  have hblocks : ∀ b ∈ snippets.flatMap blocks, b.WellFormed .github := by
    intro b hb
    obtain ⟨s, hs, hb⟩ := List.mem_flatMap.mp hb
    exact (h s hs).blocks b hb
  have hrest : (Cursor.ofText (woven snippets).toList).rest =
      (snippets.flatMap blocks).flatMap (Block.chars .github) := by
    rw [woven_eq, rendered, String.toList_ofList]
    rfl
  rw [Document.read_eq, Flavor.scan, scanFrom_blocks (Or.inl rfl) hblocks hrest,
    Cursor.position_ofText, List.map_map]
  rfl

/-- Going through a woven document comes to its end, and the snippets are collected then. -/
theorem ofText_collects (r : Registry) (lenient : Bool) {snippets : List Snippet}
    (h : ∀ s ∈ snippets, s.Weavable) :
    ∃ t, Pass.ofText r .github lenient (woven snippets) = .ok (t.finish "github") ∧
      Collects snippets t := by
  obtain ⟨t, hrun, ht⟩ := run_collects r lenient snippets collects_start .start
  rw [List.nil_append] at ht
  refine ⟨t, ?_, ht⟩
  rw [Pass.ofText, Pass.ofPieces, read_woven r h, hrun]
  rfl

/-- Tangling gives back what was woven: a document of snippets brings nothing but the snippets, each
to its destination, in the order in which they were woven. -/
theorem ofText_woven (r : Registry) (lenient : Bool) (snippets : List Snippet)
    (h : ∀ s ∈ snippets, s.Weavable) :
    ∃ p, Pass.ofText r .github lenient (woven snippets) = .ok p ∧
      (∀ inner ∈ p.walk, inner.faults = []) ∧ Restored snippets (Plan.ofPass p none) := by
  obtain ⟨t, hread, ht⟩ := ofText_collects r lenient h
  refine ⟨t.finish "github", hread, ?_, ht.restored "github"⟩
  intro inner hinner
  rw [ht.walk, List.mem_singleton] at hinner
  rw [hinner]
  exact ht.faults

/-- Snippets two of which go to one destination, with a quote in its name. The code looks like a
heading, a directive and the start of a fence; one snippet is empty. -/
def repeated : List Snippet :=
  [⟨"it's.py", "# Top\n<?btxt ignore=true ?>\n"⟩, ⟨"b.py", ""⟩, ⟨"it's.py", "```py\nlast\n"⟩]

theorem ofText_woven_repeated :
    woven repeated =
        "<?btxt filename='it\\'s.py' ?>\n```\n# Top\n<?btxt ignore=true ?>\n```\n" ++
          "<?btxt filename='b.py' ?>\n```\n```\n" ++
          "<?btxt filename='it\\'s.py' ?>\n```\n```py\nlast\n```\n" ∧
      gathered repeated "it's.py" = "# Top\n<?btxt ignore=true ?>\n```py\nlast\n" ∧
      (∀ s ∈ repeated, s.Weavable) ∧
      ∃ p, Pass.ofText .builtin .github false (woven repeated) = .ok p ∧
        (∀ inner ∈ p.walk, inner.faults = []) ∧ Restored repeated (Plan.ofPass p none) :=
  have hweavable : ∀ s ∈ repeated, s.Weavable := by decide +kernel
  ⟨rfl, by decide, hweavable, ofText_woven .builtin false repeated hweavable⟩

end Snippet

end Literate
