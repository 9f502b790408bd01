import Literate.Proofs.Flavor.Line

/-!
# Documents and their events

A document put together of headings, directives, fences and prose has exactly the events that its
blocks stand for, at the places where the blocks start. What a block looks like (`Block.chars`),
when nothing in it can be taken for something else (`Block.WellFormed`) and what it stands for
(`Block.event?`) are said without the scanner.

The content of a fence may look like anything but a line that closes the fence.
-/

namespace Literate

open Directive (Written Setting isQualifierChar)
open Flavor (ClosingLine HeadingLine)
open Text (strip)

/-- A part of a document that takes up whole lines. -/
inductive Block where
  | heading (level : Nat) (title : String)
  | directive (w : Written) (settings : List Setting)
  | fenced (language : Option String) (content : String)
  | prose (line : String)

namespace Block

/-- A block as it stands in a document of the flavor. -/
def chars (f : Flavor) : Block → List Char
  | heading level title => List.replicate level '#' ++ ' ' :: (title.toList ++ ['\n'])
  | directive w _ => w.chars ++ ['\n']
  | fenced language content =>
    f.fence.toList ++ ((language.getD "").toList ++ '\n' ::
      (content.toList ++ (f.fence.toList ++ ['\n'])))
  | prose line => line.toList ++ ['\n']

/-- Whether a block can be told from all others in a document of the flavor. -/
inductive WellFormed (f : Flavor) : Block → Prop where
  | heading {level : Nat} {title : String} : 1 ≤ level →
      (∀ x ∈ title.toList, x ≠ '\n' ∧ x ≠ '<') → strip title.toList = title.toList →
      WellFormed f (.heading level title)
  | directive {w : Written} {settings : List Setting} : w.Accepted settings →
      WellFormed f (.directive w settings)
  | fenced {language : Option String} {content : String} :
      (∀ l ∈ language, l ≠ "" ∧ ∀ x ∈ l.toList, isQualifierChar x = true) →
      (content.toList = [] ∨ ['\n'] <:+ content.toList) →
      (∀ line ∈ content.toList.splitOn '\n', ¬ ClosingLine f.fence.toList line) →
      WellFormed f (.fenced language content)
  | prose {line : String} : (∀ x ∈ line.toList, x ≠ '\n' ∧ x ≠ '<') →
      ¬ f.fence.toList <+: line.toList → ¬ HeadingLine line.toList →
      WellFormed f (.prose line)

/-- The flavor of the document that a fence with this language holds, if it holds one. -/
def inside? (f : Flavor) (language : Option String) : Option String :=
  if language = some f.nestedLanguage then f.nested else none

/-- The event that a block at this position stands for. -/
def event? (f : Flavor) (p : Position) : Block → Option Event
  | heading level title => some (.heading level (some title) p)
  | directive w settings => some (.directive (w.directive settings p) p)
  | fenced language content =>
    match inside? f language with
    | some id => some (.nested id content p)
    | none => some (.fragment language content p)
  | prose _ => none

end Block

/-- The document that consists of some blocks. -/
def rendered (f : Flavor) (bs : List Block) : String := String.ofList (bs.flatMap (Block.chars f))

/-- The events of some blocks, the first of which starts at this position. -/
def blockEvents (f : Flavor) (p : Position) : List Block → List Event
  | [] => []
  | b :: bs => (b.event? f p).toList ++ blockEvents f (p.after (b.chars f)) bs

/-! ## Scanning what is rendered -/

variable {f : Flavor}

theorem newline_not_mem_fence (hf : f.fence = "```" ∨ f.fence = "'''") :
    '\n' ∉ f.fence.toList := by
  rcases hf with hf | hf <;> rw [hf] <;> decide

/-- The marks of headings and the openers of directives open no fence. -/
theorem fence_not_prefix (hf : f.fence = "```" ∨ f.fence = "'''") {x : Char} (cs : List Char)
    (hx : x = '#' ∨ x = '<') : ¬ f.fence.toList <+: x :: cs := by
  intro h
  obtain ⟨y, ys, hfence, hmark, hangle⟩ :
      ∃ y ys, f.fence.toList = y :: ys ∧ y ≠ '#' ∧ y ≠ '<' := by
    rcases hf with hf | hf <;> rw [hf] <;> exact ⟨_, _, rfl, by decide, by decide⟩
  rw [hfence] at h
  have hy := (List.cons_prefix_cons.mp h).1
  rcases hx with rfl | rfl
  · exact hmark hy
  · exact hangle hy

/-- The event of a fence is that of its block. -/
theorem fenceEvent_eq (f : Flavor) {language : Option String} (hlanguage : language ≠ some "")
    (content : String) (p : Position) :
    (Block.fenced language content).event? f p =
      some (f.fenceEvent (language.getD "").toList content.toList p) := by
  have hword : Flavor.languageOf (language.getD "").toList = language := by
    cases language with
    | none => rfl
    | some l =>
      have hne : l.toList ≠ [] := fun hnil => hlanguage (by rw [String.toList_eq_nil_iff.mp hnil])
      simp [Flavor.languageOf, hne]
  rw [Block.event?, Block.inside?, Flavor.fenceEvent, hword, String.ofList_toList]
  cases f.nested with
  | none => simp
  | some id =>
    by_cases hl : language = some f.nestedLanguage <;> simp [hl]

/-- The scanner takes a block for what it is and goes on behind it, at the start of a line. -/
theorem scanFrom_block (hf : f.fence = "```" ∨ f.fence = "'''") {b : Block}
    (hb : b.WellFormed f) {c : Cursor} {rest : List Char} (hc : c.rest = b.chars f ++ rest) :
    f.scanFrom true c =
      ((b.event? f c.position).toList.map .event) ++
        f.scanFrom true (c.advance (b.chars f).length) := by
  cases hb with
  | @heading level title hlevel htitle hstrip =>
    have hrest : c.rest = List.replicate level '#' ++ ' ' :: (title.toList ++ '\n' :: rest) := by
      simp [hc, Block.chars]
    have hfence : ¬ f.fence.toList <+: c.rest := by
      obtain ⟨n, rfl⟩ := Nat.exists_eq_add_of_le' hlevel
      rw [hrest, List.replicate_succ]
      exact fence_not_prefix hf _ (Or.inl rfl)
    have hlength : (Block.chars f (.heading level title)).length =
        level + 1 + (title.toList.length + 1) := by
      simp [Block.chars]
      omega
    rw [Flavor.scanFrom_heading hrest hlevel htitle hstrip hfence, hlength, String.ofList_toList]
    rfl
  | @directive w settings hw =>
    have hrest : c.rest = w.chars ++ '\n' :: rest := by simp [hc, Block.chars]
    have hfence : ¬ f.fence.toList <+: c.rest := by
      obtain ⟨cs, hcs⟩ : ∃ cs, c.rest = '<' :: cs := by
        rw [hrest, Written.chars, Written.lead]
        cases w.marker <;> exact ⟨_, rfl⟩
      rw [hcs]
      exact fence_not_prefix hf cs (Or.inr rfl)
    have hlength : (Block.chars f (.directive w settings)).length = w.chars.length + 1 := by
      simp [Block.chars]
    rw [Flavor.scanFrom_directiveLine hrest hw hfence, hlength]
    rfl
  | @fenced language content hlanguage hends hlines =>
    have hrest : c.rest = f.fence.toList ++ ((language.getD "").toList ++ '\n' ::
        (content.toList ++ (f.fence.toList ++ '\n' :: rest))) := by
      simp [hc, Block.chars]
    have hword : ∀ x ∈ (language.getD "").toList, isQualifierChar x = true := by
      cases language with
      | none => simp
      | some l => exact (hlanguage l rfl).2
    have hlength : (Block.chars f (.fenced language content)).length =
        f.fence.toList.length + (language.getD "").toList.length + 1 + content.toList.length +
          f.fence.toList.length + 1 := by
      simp only [Block.chars, List.length_append, List.length_cons, List.length_nil]
      omega
    rw [Flavor.scanFrom_fenced hrest (newline_not_mem_fence hf) hword hends hlines, hlength,
      fenceEvent_eq f (by rintro rfl; exact (hlanguage "" rfl).1 rfl)]
    rfl
  | @prose line hline hfence hheading =>
    have hrest : c.rest = line.toList ++ '\n' :: rest := by simp [hc, Block.chars]
    have hfence' : ¬ f.fence.toList <+: c.rest := by
      intro h
      rw [hrest] at h
      rcases Directive.prefix_append_cases h with hp | ⟨x, xs, heq, hx⟩
      · exact hfence hp
      · apply newline_not_mem_fence hf
        rw [heq, (List.cons_prefix_cons.mp hx).1]
        simp
    have hlength : (Block.chars f (.prose line)).length = line.toList.length + 1 := by
      simp [Block.chars]
    rw [Flavor.scanFrom_prose hrest hline hfence' hheading, hlength]
    rfl

theorem scanFrom_blocks (hf : f.fence = "```" ∨ f.fence = "'''") {bs : List Block}
    (hbs : ∀ b ∈ bs, b.WellFormed f) {c : Cursor} (hc : c.rest = bs.flatMap (Block.chars f)) :
    f.scanFrom true c = (blockEvents f c.position bs).map .event := by
  induction bs generalizing c with
  | nil =>
    have hfence : ¬ f.fence.toList <+: c.rest := by
      rw [hc, List.flatMap_nil, List.prefix_nil]
      rcases hf with hf | hf <;> rw [hf] <;> decide
    have hheading : ¬ HeadingLine c.rest :=
      Flavor.not_headingLine_of_head (by simp [hc])
    rw [Flavor.scanFrom_unmarked hfence hheading, Flavor.scanFrom_done hc, blockEvents,
      List.map_nil]
  | cons b bs ih =>
    rw [List.flatMap_cons] at hc
    have hrest := ih (fun b' hb' => hbs b' (by simp [hb'])) (Cursor.rest_advance_append hc)
    rw [scanFrom_block hf (hbs b (by simp)) hc, hrest, Cursor.position_advance hc, blockEvents,
      List.map_append]

/-- Scanning a document gives back the events of its blocks, and nothing else: no malformed
directive and no fence left open. -/
theorem scan_rendered (hf : f.fence = "```" ∨ f.fence = "'''") (bs : List Block)
    (hbs : ∀ b ∈ bs, b.WellFormed f) :
    f.scan (rendered f bs) = (blockEvents f .start bs).map .event := by
  have hc : (Cursor.ofText (rendered f bs).toList).rest = bs.flatMap (Block.chars f) := by
    rw [rendered, String.toList_ofList]
    rfl
  rw [Flavor.scan, scanFrom_blocks hf hbs hc, Cursor.position_ofText]

/-! ## What is simple to write -/

/-- A destination in quotes, behind a blank. -/
theorem accepted_destination {m : Option Directive.Marker} {q : Char} {source name : List Char}
    (hq : Directive.isQuote q = true) (hquotes : Directive.Quotes q source name)
    (havoids : Directive.Avoids m source) (hname : name ≠ []) :
    Written.Item.Accepted m ⟨[' '], "filename".toList, .quoted q source⟩
      (.assignment (.destination (String.ofList name))) where
  blanks_ne_nil := by simp
  blank_of_mem := by simp [Text.isBlank_space]
  name_eq := rfl
  closed := ⟨hq, ⟨name, hquotes⟩, havoids⟩
  means := .destination hquotes hname

/-- A fence none of whose lines starts like it. -/
theorem Block.WellFormed.plainFence {language : Option String} {content : String}
    (hlanguage : ∀ l ∈ language, l ≠ "" ∧ ∀ x ∈ l.toList, isQualifierChar x = true)
    (hends : content.toList = [] ∨ ['\n'] <:+ content.toList)
    (hlines : ∀ line ∈ content.toList.splitOn '\n', ¬ f.fence.toList <+: line) :
    WellFormed f (.fenced language content) := by
  refine .fenced hlanguage hends ?_
  rintro line hline ⟨blanks, -, rfl⟩
  exact hlines _ hline (List.prefix_append _ blanks)

/-- A title, a directive on two lines, a fence around what looks like another title, a nested document
with a fence of its own, and a line of text. -/
def guide : List Block :=
  [.heading 2 "Guide",
    .directive ⟨.instruction, none,
      [⟨[' '], "filename".toList, .quoted '"' "a.py".toList⟩], ['\n']⟩
      [.assignment (.destination "a.py")],
    .fenced (some "python") "# no title\n", .fenced (some "btxt") "'''\nx\n'''\n",
    .prose "The end."]

theorem guide_wellFormed : ∀ b ∈ guide, b.WellFormed .github := by
  have hquotes : Directive.Quotes '"' "a.py".toList "a.py".toList :=
    .plain (by decide) (by decide) <| .plain (by decide) (by decide) <|
      .plain (by decide) (by decide) <| .plain (by decide) (by decide) .nil
  have hitem : Written.Item.Accepted (some .instruction)
      ⟨[' '], "filename".toList, .quoted '"' "a.py".toList⟩
      (.assignment (.destination "a.py")) :=
    accepted_destination (by decide) hquotes (by rintro k ⟨⟩; decide) (by decide)
  intro b hb
  simp only [guide, List.mem_cons, List.not_mem_nil, or_false] at hb
  rcases hb with rfl | rfl | rfl | rfl | rfl
  · exact .heading (by decide) (by simp) (by decide)
  · exact .directive ⟨nofun, nofun, .cons hitem .nil, by decide, by simp [Text.isBlank_newline]⟩
  · exact .plainFence (by simp; decide) (Or.inr (by decide)) (by decide)
  · exact .plainFence (by simp; decide) (Or.inr (by decide)) (by decide)
  · exact .prose (by simp) (by decide) (Flavor.not_headingLine_of_head (by simp))

theorem scan_rendered_guide :
    (∀ b ∈ guide, b.WellFormed .github) ∧
      Flavor.github.scan
          ("## Guide\n<?btxt filename=\"a.py\"\n?>\n```python\n# no title\n```\n" ++
            "```btxt\n'''\nx\n'''\n```\nThe end.\n") =
        [.event (.heading 2 (some "Guide") ⟨0, 1⟩),
          .event (.directive ⟨none, [.destination "a.py"], [], ⟨9, 34, 2⟩⟩ ⟨9, 2⟩),
          .event (.fragment (some "python") "# no title\n" ⟨35, 4⟩),
          .event (.nested "nested" "'''\nx\n'''\n" ⟨60, 7⟩)] :=
  ⟨guide_wellFormed, scan_rendered (Or.inl rfl) guide guide_wellFormed⟩

end Literate
