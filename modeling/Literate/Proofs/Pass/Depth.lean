import Literate.Proofs.Flavor.Placement
import Literate.Proofs.Pass.Steps

/-!
# How deep documents nest

The content of a fence consists of lines of the text around it, and none of these closes the fence
(`content_of_mem_scan`). A nested document is such a content, so neither it nor any document below it can
hold another fence of this kind, whatever the flavors in between are (`Document.neverCloses_of_above`).

Flavors may name one another in a circle all the same: every level of documents needs a fence that no level
above it has (`Document.Encloses`), so there are no more levels than fences (`nesting_bounded`). No more are
gone down to either, whatever becomes of the pass (`Document.readWithin`).
-/

namespace Literate

open Flavor (ClosingLine Parts)

/-- Whether the fence of a flavor is a mark on a line. -/
structure Flavor.Fenced (f : Flavor) : Prop where
  some : f.fence ≠ ""
  line : '\n' ∉ f.fence.toList

instance (f : Flavor) : Decidable f.Fenced :=
  decidable_of_iff (f.fence ≠ "" ∧ '\n' ∉ f.fence.toList) ⟨fun h => ⟨h.1, h.2⟩, fun h => ⟨h.1, h.2⟩⟩

theorem Flavor.Fenced.ne_nil {f : Flavor} (hf : f.Fenced) : f.fence.toList ≠ [] :=
  fun hnil => hf.some (String.toList_eq_nil_iff.mp hnil)

/-- What stands in the fence that an event is. -/
def Event.content? : Event → Option String
  | .fragment _ content _ | .nested _ content _ => some content
  | _ => none

/-- Whether no line of a text closes a fence. -/
def NeverCloses (fence text : String) : Prop :=
  ∀ line ∈ text.toList.splitOn '\n', ¬ ClosingLine fence.toList line

/-! ## The content of fences -/

section Content

variable {f : Flavor} {fence text content : String} {e : Event}

theorem Flavor.Takes.parts {cs : List Char} {start n : Nat} (h : f.Takes cs (.event e) start n)
    (hcontent : e.content? = some content) :
    WholeLines (cs.take start) ∧ ∃ opening line after,
      Parts f.fence.toList (cs.drop start) content.toList n opening line after := by
  cases h with
  | heading | directive => cases hcontent
  | fence line read =>
    rename_i language inside
    refine ⟨line, ?_⟩
    rcases f.fenceEvent_cases language inside (.ofOffset cs start) with heq | ⟨id, heq⟩ <;>
      · rw [heq] at hcontent
        cases hcontent
        rw [String.toList_ofList]
        exact fenceLine_parts read

/-- A fence has its place in the text. -/
theorem parts_of_mem_scan (h : .event e ∈ f.scan text) (hcontent : e.content? = some content) :
    ∃ before rest n opening line after, text.toList = before ++ rest ∧ WholeLines before ∧
      Parts f.fence.toList rest content.toList n opening line after := by
  obtain ⟨found, hfound⟩ := f.scanFrom_finds text.toList 0 fun _ => .nil
  obtain ⟨start, n, htakes⟩ := hfound.exists_takes h
  obtain ⟨hline, opening, line, after, hparts⟩ := htakes.parts hcontent
  exact ⟨_, _, n, opening, line, after, (List.take_append_drop start _).symm, hline, hparts⟩

/-- The content of a fence consists of lines of the text, none of which closes the fence. -/
theorem content_of_mem_scan (hf : f.Fenced) (h : .event e ∈ f.scan text)
    (hcontent : e.content? = some content) :
    LinesOf text.toList content.toList ∧ NeverCloses f.fence content := by
  obtain ⟨before, rest, n, opening, line, after, htext, hbefore, hparts⟩ :=
    parts_of_mem_scan h hcontent
  refine ⟨⟨before ++ opening, line ++ after, ?_, ?_, hparts.whole⟩, ?_⟩
  · rw [htext, hparts.text]
    simp only [List.append_assoc]
  · exact hbefore.append (Or.inr hparts.opened)
  · intro inside hinside
    exact hparts.not_closingLine hf.ne_nil hinside

/-- A fence needs a line of the text that closes it. -/
theorem NeverCloses.content? (h : NeverCloses f.fence text) (hf : f.Fenced)
    (hmem : .event e ∈ f.scan text) : e.content? = none := by
  by_contra hsome
  obtain ⟨content, hcontent⟩ := Option.ne_none_iff_exists'.mp hsome
  obtain ⟨before, rest, n, opening, line, after, htext, hbefore, hparts⟩ :=
    parts_of_mem_scan hmem hcontent
  refine h line (mem_splitOn_iff.mpr ⟨?_, ?_⟩) hparts.closing
  · exact Flavor.newline_not_mem_closingLine hf.line hparts.closing
  · refine ⟨before ++ opening ++ content.toList, after, ?_, ?_, hparts.ends⟩
    · rw [htext, hparts.text]
      simp only [List.append_assoc]
    · exact (hbefore.append (Or.inr hparts.opened)).append hparts.whole

/-- What no line of a text does, no line of a part of it does. -/
theorem NeverCloses.linesOf (h : NeverCloses fence text) (hfence : fence ≠ "")
    (hlines : LinesOf text.toList content.toList) : NeverCloses fence content := by
  intro line hline hclosing
  refine h line (hlines.mem_splitOn hline ?_) hclosing
  obtain ⟨blanks, -, rfl⟩ := hclosing
  simp [hfence]

end Content

/-! ## Nested documents -/

section Descent

variable {r : Registry} {f g inner : Flavor} {text inside id content : String} {path : List Nat}
  {fences : List String}

theorem Document.content_of_mem_nested (hf : f.Fenced) (h : (id, content) ∈ nested f text) :
    LinesOf text.toList content.toList ∧ NeverCloses f.fence content := by
  obtain ⟨place, hmem⟩ := mem_nested.mp h
  exact content_of_mem_scan hf hmem rfl

theorem NeverCloses.nested_eq_nil (h : NeverCloses f.fence text) (hf : f.Fenced) :
    Document.nested f text = [] := by
  rw [List.eq_nil_iff_forall_not_mem]
  rintro ⟨id, content⟩ hmem
  obtain ⟨place, hmem⟩ := Document.mem_nested.mp hmem
  cases h.content? hf hmem

/-- Whether the documents that can be nested in a document of some flavor, and the document itself, are
fenced with some fences. -/
def Registry.Fences (r : Registry) (f : Flavor) (fences : List String) : Prop :=
  ∀ g, r.Leads f g → g.Fenced ∧ g.fence ∈ fences

theorem Registry.Fences.fenced (h : r.Fences f fences) : f.Fenced := (h f (.self f)).1

theorem Registry.Fences.mem (h : r.Fences f fences) : f.fence ∈ fences := (h f (.self f)).2

theorem Registry.Fences.nested (h : r.Fences f fences) (hmem : (id, content) ∈ Document.nested f text)
    (hid : r.forName? id = some inner) : r.Fences inner fences := by
  obtain ⟨place, hmem⟩ := Document.mem_nested.mp hmem
  exact fun g hg => h g (.nested (Flavor.nested_flavor hmem) hid hg)

theorem Registry.Fences.descend (h : r.Fences f fences)
    (hdescend : Document.descend? r f text path = some (g, inside)) : r.Fences g fences := by
  induction path generalizing f text with
  | nil =>
    cases hdescend
    exact h
  | cons i path ih =>
    obtain ⟨id, content, inner, hi, hid, hpath⟩ := Document.descend?_cons.mp hdescend
    exact ih (h.nested (List.mem_of_getElem? hi) hid) hpath

/-- A fence that no line of a text closes is not closed in the documents below it. -/
theorem NeverCloses.descend {fence : String} (h : NeverCloses fence text) (hfence : fence ≠ "")
    (hf : r.Fences f fences) (hdescend : Document.descend? r f text path = some (g, inside)) :
    NeverCloses fence inside := by
  induction path generalizing f text with
  | nil =>
    cases hdescend
    exact h
  | cons i path ih =>
    obtain ⟨id, content, inner, hi, hid, hpath⟩ := Document.descend?_cons.mp hdescend
    have hmem := List.mem_of_getElem? hi
    have hlines := (Document.content_of_mem_nested hf.fenced hmem).1
    exact ih (h.linesOf hfence hlines) (hf.nested hmem hid) hpath

/-- No document closes the fence of a document around it. -/
theorem Document.neverCloses_of_above {above : List Nat} {outer : String} {h : Flavor}
    (hf : r.Fences f fences) (habove : above <+: path) (hne : above ≠ path)
    (houter : descend? r f text above = some (h, outer))
    (hdescend : descend? r f text path = some (g, inside)) : NeverCloses h.fence inside := by
  obtain ⟨more, rfl⟩ := habove
  have hh := hf.descend houter
  rw [descend?_append, houter] at hdescend
  cases more with
  | nil => exact absurd (List.append_nil above).symm hne
  | cons i more =>
    obtain ⟨id, content, inner, hi, hid, hpath⟩ := descend?_cons.mp hdescend
    have hmem := List.mem_of_getElem? hi
    have hnever := (content_of_mem_nested hh.fenced hmem).2
    exact hnever.descend hh.fenced.some (hh.nested hmem hid) hpath

end Descent

/-! ## The bound -/

namespace Document

variable {r : Registry} {f g inner : Flavor} {text inside id content : String} {path : List Nat}
  {fences outer : List String} {n : Nat}

/-- Fences of which no two are the same and none is closed in a text: those around a document. -/
structure Encloses (fences outer : List String) (text : String) : Prop where
  distinct : outer.Nodup
  known : outer ⊆ fences
  never : ∀ fence ∈ outer, fence ≠ "" ∧ NeverCloses fence text

theorem encloses_nil : Encloses fences [] text where
  distinct := .nil
  known := List.nil_subset fences
  never := List.forall_mem_nil _

/-- A document that holds another one has a fence that is not yet among those around it. -/
theorem Encloses.nested (h : Encloses fences outer text) (hf : r.Fences f fences)
    (hmem : (id, content) ∈ Document.nested f text) : Encloses fences (f.fence :: outer) content := by
  obtain ⟨hlines, hnever⟩ := content_of_mem_nested hf.fenced hmem
  have hnew : f.fence ∉ outer := by
    -- a fence from further out is never closed here, so nothing would be nested
    intro hold
    have hnone := (h.never f.fence hold).2.nested_eq_nil hf.fenced
    rw [hnone] at hmem
    cases hmem
  refine ⟨List.nodup_cons.mpr ⟨hnew, h.distinct⟩, List.cons_subset.mpr ⟨hf.mem, h.known⟩, ?_⟩
  refine List.forall_mem_cons.mpr ⟨⟨hf.fenced.some, hnever⟩, fun fence hfence => ?_⟩
  obtain ⟨hsome, hold⟩ := h.never fence hfence
  exact ⟨hsome, hold.linesOf hsome hlines⟩

/-- A way down has at most one step for each fence that is not around the text. -/
theorem Encloses.length_le (h : Encloses fences outer text) (hf : r.Fences f fences)
    (hdescend : descend? r f text path = some (g, inside)) :
    path.length + outer.length ≤ fences.length := by
  induction path generalizing f text outer with
  | nil =>
    have := h.distinct.length_le_of_subset h.known
    simpa using this
  | cons i path ih =>
    obtain ⟨id, content, inner, hi, hid, hpath⟩ := descend?_cons.mp hdescend
    have hmem := List.mem_of_getElem? hi
    have := ih (h.nested hf hmem) (hf.nested hmem hid) hpath
    simp only [List.length_cons] at this ⊢
    omega

/-- The piece that a step is, if the nested document that it is can be read. -/
def pieceWithin (r : Registry) (read : Flavor → String → Option (List Piece)) : Step → Option Piece
  | .event (.nested id content place) =>
    match r.named id with
    | .ok inner => (read inner content).map (.document inner.id place.line)
    | .error b => some (.broken (.breach b))
  | step => some (ofStep r step)

/-- The pieces of a text in which documents are nested no deeper than so many levels. -/
def readWithin (r : Registry) : Nat → Flavor → String → Option (List Piece)
  | 0, f, text => (f.scan text).mapM (pieceWithin r fun _ _ => none)
  | n + 1, f, text => (f.scan text).mapM (pieceWithin r (readWithin r n))

theorem pieceWithin_eq {read' : Flavor → String → Option (List Piece)} {s : Step}
    (h : ∀ id content place inner, s = .event (.nested id content place) →
      r.forName? id = some inner → read' inner content = some (read r inner content)) :
    pieceWithin r read' s = some (ofStep r s) := by
  unfold pieceWithin
  split
  · rename_i id content place
    rw [ofStep, ofEvent]
    cases hnamed : r.named id with
    | error b => rfl
    | ok inner =>
      simp only
      rw [h id content place inner rfl (Registry.forName?_of_named hnamed)]
      rfl
  · rfl

theorem mapM_eq_some {α β : Type} {f : α → Option β} {g : α → β} {as : List α}
    (h : ∀ a ∈ as, f a = some (g a)) : as.mapM f = some (as.map g) := by
  induction as with
  | nil => rfl
  | cons a as ih =>
    rw [List.forall_mem_cons] at h
    rw [List.mapM_cons, h.1, ih h.2]
    rfl

/-- As many levels as there are other fences are enough to read a text. -/
theorem Encloses.readWithin_eq (h : Encloses fences outer text) (hf : r.Fences f fences)
    (hn : fences.length ≤ n + outer.length) : readWithin r n f text = some (read r f text) := by
  induction n generalizing f text outer with
  | zero =>
    rw [readWithin, read_eq]
    refine mapM_eq_some fun s hs => pieceWithin_eq ?_
    rintro id content place inner rfl -
    -- there would be one more fence than there are
    have hinner := h.nested hf (mem_nested.mpr ⟨place, hs⟩)
    have := hinner.distinct.length_le_of_subset hinner.known
    simp only [List.length_cons] at this
    omega
  | succ n ih =>
    rw [readWithin, read_eq]
    refine mapM_eq_some fun s hs => pieceWithin_eq ?_
    rintro id content place inner rfl hid
    have hmem := mem_nested.mpr ⟨place, hs⟩
    refine ih (h.nested hf hmem) (hf.nested hmem hid) ?_
    simp only [List.length_cons]
    omega

end Document

/-! ## Passes -/

/-- A fragment of a pass that was written as a fence is a fence of the text. -/
theorem Pass.fence_of_mem_fragments {r : Registry} {f : Flavor} {lenient : Bool} {text : String}
    {p : Pass} (h : Pass.ofText r f lenient text = .ok p) {x : Fragment} (hx : x ∈ p.fragments)
    (horigin : x.origin = .fence) :
    ∃ language content place, .event (.fragment language content place) ∈ f.scan text := by
  obtain ⟨t, ht, rfl⟩ := ofText_keeps
    (I := fun steps t => (∃ x ∈ t.fragments, x.origin = .fence) →
      ∃ language content place, .event (.fragment language content place) ∈ steps)
    (by rintro ⟨x, hx, -⟩; cases hx)
    (by
      rintro before s t t' ht hgoes ⟨x, hx, horigin⟩
      have hbefore : x ∈ t.fragments → ∃ language content place,
          .event (.fragment language content place) ∈ before ++ [s] := by
        intro hx
        obtain ⟨language, content, place, hmem⟩ := ht ⟨x, hx, horigin⟩
        exact ⟨language, content, place, List.mem_append_left _ hmem⟩
      cases hgoes with
      | heading | nested | rejected | openFence => exact hbefore hx
      | directive current emits =>
        refine (List.mem_append.mp hx).elim hbefore fun hx => ?_
        rw [(emits x hx).origin] at horigin
        cases horigin
      | fragment emits =>
        exact (List.mem_append.mp hx).elim hbefore fun _ =>
          ⟨_, _, _, List.mem_append_right _ List.mem_cons_self⟩)
    h
  exact ht ⟨x, hx, horigin⟩

theorem Registry.Leads.mem_flavors {r : Registry} {f g : Flavor} (h : r.Leads f g) :
    g = f ∨ g ∈ r.flavors := by
  induction h with
  | self f => exact Or.inl rfl
  | nested hid hname hleads ih =>
    right
    rcases ih with rfl | hmem
    · obtain ⟨before, after, hentries, -⟩ := List.lookup_eq_some_iff.mp hname
      rw [Registry.mem_flavors, hentries]
      simp
    · exact hmem

/-- With fences that are marks on a line, the content of every fence consists of lines of its text, and none
of these closes the fence. So a pass has no fences and no nested passes if one of the passes above it has
the same fence, and documents are nested no deeper than there are fences, even where flavors name one
another in a circle. A text is read within these bounds. -/
theorem nesting_bounded {r : Registry} {f : Flavor} (hf : f.Fenced)
    (hr : ∀ g ∈ r.flavors, g.Fenced) {fences : List String}
    (hfences : ∀ g, r.Leads f g → g.fence ∈ fences) (text : String) :
    (∀ e content, .event e ∈ f.scan text → e.content? = some content →
      LinesOf text.toList content.toList ∧ NeverCloses f.fence content) ∧
    (∀ lenient p, Pass.ofText r f lenient text = .ok p → ∀ path q, p.at? path = some q →
      ∃ g inside, Document.descend? r f text path = some (g, inside) ∧
        Pass.ofText r g lenient inside = .ok q ∧ path.length ≤ fences.length ∧
        ∀ above h outer, above <+: path → above ≠ path →
          Document.descend? r f text above = some (h, outer) → h.fence = g.fence →
          q.nested = [] ∧ ∀ x ∈ q.fragments, x.origin ≠ .fence) ∧
    Document.readWithin r fences.length f text = some (Document.read r f text) := by
  have hmarks : r.Fences f fences := by
    intro g hleads
    refine ⟨?_, hfences g hleads⟩
    rcases hleads.mem_flavors with rfl | hmem
    · exact hf
    · exact hr g hmem
  refine ⟨fun e content => content_of_mem_scan hf, ?_,
    Document.encloses_nil.readWithin_eq hmarks (Nat.le_refl _)⟩
  intro lenient p hp path q hq
  obtain ⟨g, inside, hdescend, hread⟩ := Pass.ofText_at? hp hq
  refine ⟨g, inside, hdescend, hread, Document.encloses_nil.length_le hmarks hdescend, ?_⟩
  intro above h outer habove hne houter hsame
  have hg := (hmarks.descend hdescend).fenced
  have hnever := Document.neverCloses_of_above hmarks habove hne houter hdescend
  rw [hsame] at hnever
  constructor
  · have hnested := (Pass.ofText_nested hread).length_eq
    rw [hnever.nested_eq_nil hg] at hnested
    exact List.eq_nil_of_length_eq_zero hnested.symm
  · intro x hx horigin
    obtain ⟨language, content, place, hmem⟩ := Pass.fence_of_mem_fragments hread hx horigin
    cases hnever.content? hg hmem

/-- Documents with fences of three backquotes, for other ones with tildes inside. -/
def backquoted : Flavor := ⟨"backquoted", "```", [], some "tilded", Flavor.defaultNestedLanguage⟩

/-- Documents with fences of three tildes, for other ones with backquotes inside. -/
def tilded : Flavor := ⟨"tilded", "~~~", [], some "backquoted", Flavor.defaultNestedLanguage⟩

/-- Two flavors that name each other. -/
def circle : Registry := (Registry.empty.register backquoted).register tilded

/-- Documents of two flavors that name each other are nested in no more than two others. -/
theorem nesting_bounded_circle :
    let text := "```btxt\n~~~btxt\n``` btxt\n~~~\n```\n"
    Document.readWithin circle 2 backquoted text = some (Document.read circle backquoted text) ∧
      ∀ lenient p, Pass.ofText circle backquoted lenient text = .ok p →
        ∀ path q, p.at? path = some q → path.length ≤ 2 := by
  intro text
  have hflavors : ∀ g ∈ circle.flavors, g.Fenced ∧ g.fence ∈ ["```", "~~~"] := by
    simp only [Registry.mem_flavors]
    decide +kernel
  have hfences : ∀ g, circle.Leads backquoted g → g.fence ∈ ["```", "~~~"] := by
    intro g hleads
    rcases hleads.mem_flavors with rfl | hmem
    · decide
    · exact (hflavors g hmem).2
  have hbounded := nesting_bounded (f := backquoted) (by decide) (fun g hg => (hflavors g hg).1)
    hfences text
  refine ⟨hbounded.2.2, fun lenient p hp path q hq => ?_⟩
  obtain ⟨g, inside, -, -, hle, -⟩ := hbounded.2.1 lenient p hp path q hq
  exact hle

end Literate
