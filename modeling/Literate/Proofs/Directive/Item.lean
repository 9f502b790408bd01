import Literate.Proofs.Directive.Lexical
import Literate.Proofs.Text.Lowercase

/-!
# Reading one item

A key, the literal behind its equals sign and what the two mean together, each as the reader for it
has it. What is read has the form (`_sound`), and what has the form is read (`_complete`); the two
halves meet in `readItem_sound` and `readItem_complete`, which are all that the readers of whole
directives need.
-/

namespace Literate.Directive

open Text (isBlank lowercase)

/-! ## Keys -/

theorem keyLength_name (k : Key) (rest : List Char) :
    keyLength (k.name.toList ++ '=' :: rest) = k.name.toList.length := by
  rcases k with p | p <;> cases p <;> rfl

/-- A key starts with a letter, so neither a blank nor a closer is where a key is. -/
theorem name_head (k : Key) : ∃ x xs, k.name.toList = x :: xs ∧ isBlank x = false ∧
    x ≠ '?' ∧ x ≠ '-' := by
  rcases k with p | p <;> cases p <;> exact ⟨_, _, rfl, by decide, by decide, by decide⟩

theorem name_ne_nil (k : Key) : k.name.toList ≠ [] := by
  rcases k with p | p <;> cases p <;> decide

theorem readKey_complete {m : Option Marker} {seen : List Key} {c : Cursor} {k : Key}
    {rest : List Char} (hc : c.rest = k.name.toList ++ '=' :: rest) (hk : k ∉ seen) :
    readKey m seen c = .ok (k, (k.name.toList ++ ['=']).length) := by
  have hlen : keyLength c.rest = k.name.toList.length := by rw [hc, keyLength_name]
  have hpos : k.name.toList.length ≠ 0 := by simpa using name_ne_nil k
  have hword : c.ahead k.name.toList.length = k.name := by
    rw [Cursor.ahead_append hc, String.ofList_toList]
  simp only [readKey, hlen, if_neg hpos, hword, Key.ofName?_name]
  simp [hc, hk]

theorem readKey_sound {m : Option Marker} {seen : List Key} {c : Cursor} {k : Key} {n : Nat}
    (h : readKey m seen c = .ok (k, n)) :
    k ∉ seen ∧ n = (k.name.toList ++ ['=']).length ∧
      ∃ rest, c.rest = k.name.toList ++ '=' :: rest := by
  simp only [readKey] at h
  split at h
  · cases h
  · split at h
    · cases h
    · rename_i key hkey
      split at h
      · cases h
      · rename_i hseen
        split at h
        · rename_i heq
          cases h
          have hname : c.rest.take (keyLength c.rest) = k.name.toList := by
            rw [Key.name_of_ofName? hkey, Cursor.ahead, String.toList_ofList]
          have hlen : keyLength c.rest = k.name.toList.length := by
            rw [← hname, List.length_take, Nat.min_eq_left (keyLength_le c.rest)]
          obtain ⟨rest, hrest⟩ := List.head?_eq_some_iff.mp heq
          refine ⟨by simpa using hseen, by simp [hlen], rest, ?_⟩
          rw [← hname, ← hrest, List.take_append_drop]
        · cases h

/-! ## Values -/

/-- The literal that a value is read as. -/
inductive Written.Value.ReadAs : Written.Value → Literal → Prop where
  | raw (text : List Char) : ReadAs (.raw text) (.raw (String.ofList text))
  | quoted {quote : Char} {source text : List Char} : Quotes quote source text →
      ReadAs (.quoted quote source) (.quoted (String.ofList text))
  | word (cs : List Char) : ReadAs (.word cs) (.bare (String.ofList cs))

/-- What stands where a word ends opens no literal. -/
theorem head_of_wordEnds {m : Option Marker} {c : Char} {cs : List Char}
    (h : wordEnds m (c :: cs) = true) : c ≠ '|' ∧ isQuote c = false := by
  have hno : ∀ d, isBlank d = false → d ≠ '?' → d ≠ '-' → c ≠ d := by
    rintro d hb hq hd rfl
    rw [wordEnds, hb, ends_cons_eq_false hq hd] at h
    cases h
  refine ⟨hno '|' (by decide) (by decide) (by decide), ?_⟩
  rw [Bool.eq_false_iff, ne_eq, isQuote_iff, not_or]
  exact ⟨hno _ (by decide) (by decide) (by decide), hno _ (by decide) (by decide) (by decide)⟩

theorem bars_not_prefix_of_word {m : Option Marker} {cs rest : List Char}
    (hcs : ¬ bars <:+: cs) (hr : wordEnds m rest = true) : ¬ bars <+: cs ++ rest := by
  intro hp
  rcases prefix_append_cases hp with hp | ⟨b, bs, hb, ⟨t, rfl⟩⟩
  · exact hcs hp.isInfix
  · have hmem : b ∈ bars := by rw [hb]; simp
    exact (head_of_wordEnds hr).1 (by simpa [bars] using hmem)

theorem readLiteral_complete {m : Option Marker} {c : Cursor} {v : Written.Value}
    {rest : List Char} (key : String) (hc : c.rest = v.chars ++ rest) (hv : v.Closed m)
    (hr : wordEnds m rest = true) :
    ∃ value, v.ReadAs value ∧ readLiteral m key c = .ok (value, v.chars.length) := by
  cases v with
  | raw text =>
    have hbars : bars.isPrefixOf c.rest = true := by
      rw [List.isPrefixOf_iff_prefix, hc, Written.Value.chars, List.append_assoc,
        List.append_assoc]
      exact List.prefix_append _ _
    have hdrop : c.rest.drop 3 = text ++ bars ++ rest := by
      rw [hc]
      simp [Written.Value.chars, bars]
    have hfound : beforeBars? (text ++ bars ++ rest) = some text.length :=
      beforeBars?_eq_some_iff.mpr ⟨text, rest, rfl, rfl, hv⟩
    refine ⟨_, .raw text, ?_⟩
    rw [readLiteral, if_pos hbars, hdrop, hfound]
    simp [Written.Value.chars, bars]
  | quoted quote source =>
    obtain ⟨hquote, ⟨text, hs⟩, ha⟩ := hv
    have hc' : c.rest = quote :: (source ++ quote :: rest) := by
      rw [hc]
      simp [Written.Value.chars]
    have hbars : bars.isPrefixOf c.rest = false := by
      rw [Bool.eq_false_iff, ne_eq, List.isPrefixOf_iff_prefix, hc']
      intro hp
      have heq := (List.cons_prefix_cons.mp hp).1
      rw [← heq] at hquote
      cases hquote
    have hinside : quotedInside m quote (source ++ quote :: rest) = .ok (text, source.length + 1) :=
      (quotedInside_eq_ok_iff hquote).mpr ⟨source, rest, rfl, rfl, hs, ha⟩
    refine ⟨_, .quoted hs, ?_⟩
    rw [readLiteral, hbars, hc']
    simp [hquote, hinside, Written.Value.chars]
  | word cs =>
    obtain ⟨hchars, hbars, ha⟩ := hv
    simp only [Written.Value.chars] at hc ⊢
    have hbars' : bars.isPrefixOf c.rest = false := by
      rw [Bool.eq_false_iff, ne_eq, List.isPrefixOf_iff_prefix, hc]
      exact bars_not_prefix_of_word hbars hr
    have hlen : wordLength m c.rest = cs.length := by
      rw [hc]
      exact wordLength_append (fun d hd => (hchars d hd).1) ha hr
    refine ⟨_, .word cs, ?_⟩
    rw [readLiteral, hbars', if_neg (by simp), ← Cursor.ahead_append hc, ← hlen]
    split
    · rename_i hnil
      simp [hnil, wordLength, Cursor.ahead]
    · rename_i q t hq
      -- the word, or what follows an empty one, does not start with a quote
      have hquote : isQuote q = false := by
        cases cs with
        | nil =>
          rw [List.nil_append] at hc
          rw [← hc, hq] at hr
          exact (head_of_wordEnds hr).2
        | cons d cs =>
          rw [hc, List.cons_append] at hq
          obtain ⟨rfl, -⟩ := List.cons.inj hq
          exact (hchars d (by simp)).2
      simp [hquote]

theorem readLiteral_sound {m : Option Marker} {key : String} {c : Cursor} {value : Literal}
    {n : Nat} (h : readLiteral m key c = .ok (value, n)) :
    ∃ (v : Written.Value) (rest : List Char), c.rest = v.chars ++ rest ∧ n = v.chars.length ∧
      v.ReadAs value ∧ (value.isBare = false → v.Closed m) := by
  unfold readLiteral at h
  split at h
  · rename_i hp
    obtain ⟨inside, hinside⟩ := List.isPrefixOf_iff_prefix.mp hp
    have hdrop : c.rest.drop 3 = inside := by rw [← hinside]; rfl
    split at h
    · cases h
    · rename_i k hk
      rw [hdrop] at hk h
      obtain ⟨text, rest, rfl, rfl, htext⟩ := beforeBars?_eq_some_iff.mp hk
      cases h
      refine ⟨.raw text, rest, ?_, ?_, ?_, fun _ => htext⟩
      · rw [← hinside]
        simp [Written.Value.chars]
      · simp [Written.Value.chars, bars]
      · simpa using Written.Value.ReadAs.raw text
  · split at h
    · rename_i hnil
      cases h
      exact ⟨.word [], [], by simp [hnil, Written.Value.chars], rfl, .word [],
        by simp [Literal.isBare]⟩
    · rename_i q cs hq
      split at h
      · rename_i hquote
        split at h
        · cases h
        · rename_i text k hk
          obtain ⟨source, rest, rfl, rfl, hs, ha⟩ := (quotedInside_eq_ok_iff hquote).mp hk
          cases h
          exact ⟨.quoted q source, rest, by simp [hq, Written.Value.chars],
            by simp [Written.Value.chars], .quoted hs, fun _ => ⟨hquote, ⟨text, hs⟩, ha⟩⟩
      · cases h
        refine ⟨.word (c.rest.take (wordLength m c.rest)), c.rest.drop (wordLength m c.rest),
          ?_, ?_, .word _, by simp [Literal.isBare]⟩
        · simp [Written.Value.chars]
        · simp [Written.Value.chars, wordLength_le]

/-! ## Meanings -/

/-- A source denotes one text. -/
theorem Quotes.unique {quote : Char} {source text text' : List Char}
    (h : Quotes quote source text) (h' : Quotes quote source text') : text = text' := by
  induction h generalizing text' with
  | nil => cases h'; rfl
  | escaped he _ ih =>
    cases h' with
    | escaped _ h' => rw [ih h']
    | backslash hc hb _ => exact absurd he (not_or.mpr ⟨hc, hb⟩)
    | plain _ hb _ => exact absurd rfl hb
  | backslash hc hb _ ih =>
    cases h' with
    | escaped he _ => exact absurd he (not_or.mpr ⟨hc, hb⟩)
    | backslash _ _ h' => rw [ih h']
    | plain _ hb' _ => exact absurd rfl hb'
  | plain hc hb _ ih =>
    cases h' with
    | escaped _ _ => exact absurd rfl hb
    | backslash _ _ _ => exact absurd rfl hb
    | plain _ _ h' => rw [ih h']

/-- A literal that denotes a text is read as that text. -/
theorem literal_of_denotes {v : Written.Value} {value : Literal} {text : List Char}
    (hd : v.Denotes text) (hr : v.ReadAs value) :
    value = .quoted (String.ofList text) ∨ value = .raw (String.ofList text) := by
  cases hr with
  | raw cs =>
    obtain rfl : cs = text := hd
    exact Or.inr rfl
  | quoted hs =>
    rw [hs.unique hd]
    exact Or.inl rfl
  | word _ => exact hd.elim

theorem denotes_of_readAs {v : Written.Value} {value : Literal} (hr : v.ReadAs value)
    (hb : value.isBare = false) : v.Denotes value.text.toList := by
  cases hr with
  | raw text => exact (String.toList_ofList (l := text)).symm
  | quoted hs => simpa [Literal.text, Written.Value.Denotes] using hs
  | word _ => cases hb

theorem word_of_readAs {v : Written.Value} {word : String} (hr : v.ReadAs (.bare word)) :
    v = .word word.toList := by
  generalize hb : Literal.bare word = value at hr
  cases hr with
  | raw _ | quoted _ => cases hb
  | word cs =>
    cases hb
    rw [String.toList_ofList]

theorem isBare_eq_false {value : Literal} (h : ∀ word, value = .bare word → False) :
    value.isBare = false := by
  cases value with
  | bare word => exact (h word rfl).elim
  | quoted _ | raw _ => rfl

/-- Looking up the lower case of a word finds the name that the word spells. -/
theorem find?_lowercase {α : Type} {all : List α} {name : α → String} {a : α} {word : String}
    (hself : all.find? (name · == name a) = some a)
    (hascii : ∀ c ∈ (name a).toList, c.toNat < 128 ∧ c ≠ 'k') :
    all.find? (name · == lowercase word) = some a ↔ SpelledAs word.toList (name a) := by
  have hiff : lowercase word = name a ↔ SpelledAs word.toList (name a) :=
    Text.lowercase_eq_iff hascii
  rw [← hiff]
  constructor
  · intro h
    have hname : name a = lowercase word := by simpa using List.find?_some h
    exact hname.symm
  · intro h
    rw [h, hself]

theorem mode_lowercase {word : String} {mode : Mode} :
    Mode.ofName? (lowercase word) = some mode ↔ SpelledAs word.toList mode.name :=
  find?_lowercase (Mode.ofName?_name mode) (by cases mode <;> simp [Mode.name])

theorem role_lowercase {word : String} {role : Role} :
    Role.ofName? (lowercase word) = some role ↔ SpelledAs word.toList role.name :=
  find?_lowercase (Role.ofName?_name role) (by cases role <;> simp [Role.name])

theorem interpret_complete {v : Written.Value} {value : Literal} {s : Setting} (c : Cursor)
    (n : Nat) (hm : v.Means s) (hr : v.ReadAs value) :
    interpret c n s.key value = .ok (s.item (c.span n)) := by
  cases hm with
  | on hv | off hv =>
    subst hv
    cases hr
    rfl
  | destination hd hne =>
    rcases literal_of_denotes hd hr with rfl | rfl <;>
      simp [interpret, Setting.key, Assignment.property, Literal.text, hne, Setting.item]
  | @mode text mode hd hs =>
    have hmode : Mode.ofName? (lowercase (String.ofList text)) = some mode :=
      mode_lowercase.mpr (by rwa [String.toList_ofList])
    rcases literal_of_denotes hd hr with rfl | rfl <;>
      simp [interpret, Setting.key, Assignment.property, Literal.text, hmode, Setting.item]
  | @role text role hd hs =>
    have hrole : Role.ofName? (lowercase (String.ofList text)) = some role :=
      role_lowercase.mpr (by rwa [String.toList_ofList])
    rcases literal_of_denotes hd hr with rfl | rfl <;>
      simp [interpret, Setting.key, Assignment.property, Literal.text, hrole, Setting.item]
  | tag hd | payload hd =>
    rcases literal_of_denotes hd hr with rfl | rfl <;> rfl

theorem interpret_sound {v : Written.Value} {value : Literal} {c : Cursor} {n : Nat} {key : Key}
    {item : Directive.Item} (h : interpret c n key value = .ok item) (hr : v.ReadAs value) :
    ∃ s : Setting, s.key = key ∧ v.Means s ∧ item = s.item (c.span n) := by
  unfold interpret at h
  split at h
  · cases h
    exact ⟨.assignment (.ignore true), rfl, .on (word_of_readAs hr), rfl⟩
  · cases h
    exact ⟨.assignment (.ignore false), rfl, .off (word_of_readAs hr), rfl⟩
  · cases h
  · cases h
  · rename_i kind hbare
    have hd := denotes_of_readAs hr (isBare_eq_false hbare)
    cases h
    refine ⟨.payload kind value.text, rfl, ?_, rfl⟩
    have hmeans : v.Means (.payload kind (String.ofList value.text.toList)) := .payload hd
    rwa [String.ofList_toList] at hmeans
  · rename_i hbare
    have hd := denotes_of_readAs hr (isBare_eq_false hbare)
    split at h
    · cases h
    · rename_i hne
      cases h
      refine ⟨.assignment (.destination value.text), rfl, ?_, rfl⟩
      simpa using Written.Value.Means.destination hd (by simpa using hne)
  · rename_i hbare
    have hd := denotes_of_readAs hr (isBare_eq_false hbare)
    split at h
    · rename_i mode hmode
      cases h
      exact ⟨.assignment (.mode mode), rfl, .mode hd (mode_lowercase.mp hmode), rfl⟩
    · cases h
  · rename_i hbare
    have hd := denotes_of_readAs hr (isBare_eq_false hbare)
    split at h
    · rename_i role hrole
      cases h
      exact ⟨.assignment (.role role), rfl, .role hd (role_lowercase.mp hrole), rfl⟩
    · cases h
  · rename_i hbare
    have hd := denotes_of_readAs hr (isBare_eq_false hbare)
    cases h
    refine ⟨.assignment (.tag value.text), rfl, ?_, rfl⟩
    simpa using Written.Value.Means.tag hd

/-- Values that mean something are closed: the bare ones among them are `true` and `false`. -/
theorem closed_of_means {m : Option Marker} {v : Written.Value} {value : Literal} {s : Setting}
    (hm : v.Means s) (hr : v.ReadAs value) (hc : value.isBare = false → v.Closed m) :
    v.Closed m := by
  have hflag : ∀ b : Bool, Written.Value.Closed m (.word (toString b).toList) := by
    intro b
    refine ⟨?_, ?_, ?_⟩
    · cases b <;> simp [toString] <;> decide
    · cases b <;> decide
    · intro k _
      cases b <;> cases k <;> decide
  cases hm with
  | on hv => exact hv ▸ hflag true
  | off hv => exact hv ▸ hflag false
  | destination hd _ | mode hd _ | role hd _ | tag hd | payload hd =>
    rcases literal_of_denotes hd hr with rfl | rfl <;> exact hc rfl

/-! ## Items -/

theorem readItem_complete {m : Option Marker} {seen : List Key} {c : Cursor} {i : Written.Item}
    {s : Setting} {rest : List Char} (hi : i.Accepted m s) (hs : s.key ∉ seen)
    (hc : c.rest = i.name ++ '=' :: (i.value.chars ++ rest)) (hr : wordEnds m rest = true) :
    readItem m seen c = .ok (s.item ((c.position.after (i.name ++ ['='])).span i.value.chars),
      (i.name ++ '=' :: i.value.chars).length) := by
  have hkey := readKey_complete (m := m) (hi.name_eq ▸ hc) hs
  rw [← hi.name_eq] at hkey
  have hlead : c.rest = (i.name ++ ['=']) ++ (i.value.chars ++ rest) := by simp [hc]
  have hrest := Cursor.rest_advance_append hlead
  obtain ⟨value, hv, hread⟩ := readLiteral_complete s.key.name hrest hi.closed hr
  have hend : wordEnds m ((c.advance (i.name ++ ['=']).length).rest.drop i.value.chars.length) =
      true := by
    rw [hrest, List.drop_left]
    exact hr
  have hmean := interpret_complete (c.advance (i.name ++ ['=']).length) i.value.chars.length
    hi.means hv
  rw [readItem, hkey]
  simp only [hread, if_pos hend, hmean]
  rw [Cursor.span_eq, Cursor.position_advance hlead]
  simp [Nat.add_assoc, Nat.add_comm 1]

theorem readItem_sound {m : Option Marker} {seen : List Key} {c : Cursor} {item : Directive.Item}
    {n : Nat} (h : readItem m seen c = .ok (item, n)) :
    ∃ (name : List Char) (value : Written.Value) (s : Setting) (rest : List Char),
      c.rest = name ++ '=' :: (value.chars ++ rest) ∧ n = (name ++ '=' :: value.chars).length ∧
      name = s.key.name.toList ∧ value.Closed m ∧ value.Means s ∧ s.key ∉ seen ∧
      item = s.item ((c.position.after (name ++ ['='])).span value.chars) ∧
      wordEnds m rest = true := by
  unfold readItem at h
  split at h
  · cases h
  · rename_i key k hkey
    obtain ⟨hseen, rfl, rest, hc⟩ := readKey_sound hkey
    have hlead : c.rest = (key.name.toList ++ ['=']) ++ rest := by simp [hc]
    simp only at h
    split at h
    · cases h
    · rename_i value l hlit
      obtain ⟨v, rest', hv, rfl, hread, hclosed⟩ := readLiteral_sound hlit
      split at h
      · rename_i hend
        split at h
        · cases h
        · rename_i item' hitem
          obtain ⟨s, rfl, hmeans, rfl⟩ := interpret_sound hitem hread
          cases h
          rw [Cursor.rest_advance_append hlead] at hv
          subst hv
          refine ⟨s.key.name.toList, v, s, rest', hc, by simp [Nat.add_assoc, Nat.add_comm 1],
            rfl, closed_of_means hmeans hread hclosed, hmeans, hseen, ?_, ?_⟩
          · rw [Cursor.span_eq, Cursor.position_advance hlead]
          · rw [Cursor.rest_advance_append hlead, List.drop_left] at hend
            exact hend
      · cases h

end Literate.Directive
