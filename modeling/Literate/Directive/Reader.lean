import Literate.Directive.Marker

/-!
# Reading a directive

A directive is read item by item. Inside a document its closer ends it (`readAt`); the text
between the markers can also be read on its own (`parse`), and then the end of that text ends it.
`m : Option Marker` tells the two apart.

Each reader takes the cursor at the start of what it reads and says how far it went. It refuses
what it cannot read with a `Fault`, whose span and text are taken from the cursor at which
the trouble starts.
-/

namespace Literate.Directive

open Text (isBlank lowercase)

/-- The fault of the next `n` characters. -/
def faultAt (c : Cursor) (n : Nat) (reason : Reason) : Fault := ⟨reason, c.span n, c.ahead n⟩

/-- A value as it is written. -/
inductive Literal where
  | quoted (text : String)
  | raw (text : String)
  | bare (word : String)
deriving DecidableEq, Repr

namespace Literal

def text : Literal → String
  | quoted t => t
  | raw t => t
  | bare t => t

def isBare : Literal → Bool
  | bare _ => true
  | _ => false

end Literal

/-! ## Words and literals -/

/-- Characters of a language qualifier. -/
def isQualifierChar (c : Char) : Bool :=
  c.isAlphanum || c == '_' || c == '.' || c == '#' || c == '+' || c == '-'

/-- Characters of a key, after the first one. -/
def isKeyChar (c : Char) : Bool := c.isAlphanum || c == '_'

/-- How long the identifier at the start of the text is. -/
def keyLength : List Char → Nat
  | [] => 0
  | c :: cs => if c.isAlpha || c == '_' then (cs.takeWhile isKeyChar).length + 1 else 0

/-- The inside of a quoted literal, up to and with its closing quote: what it denotes and how many
characters it takes, or, when the end or the closer comes first, how many stand before that. A
backslash escapes the quote and the backslash and otherwise stands for itself. -/
def quotedInside (m : Option Marker) (quote : Char) : List Char → Except Nat (List Char × Nat)
  | [] => .error 0
  | c :: cs =>
    if ends m (c :: cs) then .error 0
    else if c = '\\' then
      match cs with
      | e :: cs' =>
        if e = quote || e = '\\' then cons 2 e (quotedInside m quote cs')
        else cons 1 c (quotedInside m quote (e :: cs'))
      | [] => .error 1
    else if c = quote then .ok ([], 1)
    else cons 1 c (quotedInside m quote cs)
where
  /-- One more character in front, written with `n` characters. -/
  cons (n : Nat) (c : Char) : Except Nat (List Char × Nat) → Except Nat (List Char × Nat)
    | .error k => .error (k + n)
    | .ok (cs, k) => .ok (c :: cs, k + n)

/-- The literal at the cursor and its length. -/
def readLiteral (m : Option Marker) (key : String) (c : Cursor) : Except Fault (Literal × Nat) :=
  if bars.isPrefixOf c.rest then
    match beforeBars? (c.rest.drop 3) with
    | none => .error (faultAt c c.rest.length (.openRaw key))
    | some n => .ok (.raw (String.ofList ((c.rest.drop 3).take n)), n + 6)
  else
    match c.rest with
    | [] => .ok (.bare "", 0)
    | q :: cs =>
      if isQuote q then
        match quotedInside m q cs with
        | .error n => .error (faultAt c (n + 1) (.openString key))
        | .ok (text, n) => .ok (.quoted (String.ofList text), n + 1)
      else
        let n := wordLength m c.rest
        .ok (.bare (c.ahead n), n)

/-! ## Items -/

/-- What a literal of `n` characters at the cursor means under a key. -/
def interpret (c : Cursor) (n : Nat) (key : Key) (value : Literal) : Except Fault Item :=
  match key, value with
  | .property .ignore, .bare "true" => .ok (.assignment (.ignore true))
  | .property .ignore, .bare "false" => .ok (.assignment (.ignore false))
  | .property .ignore, _ => .error (faultAt c n .badIgnore)
  | key, .bare _ => .error (faultAt c n (.unquoted key.name))
  | .payload kind, value => .ok (.payload ⟨kind, value.text, c.span n⟩)
  | .property .destination, value =>
    if value.text.isEmpty then .error (faultAt c n .emptyDestination)
    else .ok (.assignment (.destination value.text))
  | .property .mode, value =>
    match Mode.ofName? (lowercase value.text) with
    | some mode => .ok (.assignment (.mode mode))
    | none => .error (faultAt c n (.unknownMode value.text))
  | .property .role, value =>
    match Role.ofName? (lowercase value.text) with
    | some role => .ok (.assignment (.role role))
    | none => .error (faultAt c n (.unknownRole value.text))
  | .property .tag, value => .ok (.assignment (.tag value.text))

/-- The key at the cursor, which none of the items before it has. -/
def readKey (m : Option Marker) (seen : List Key) (c : Cursor) : Except Fault (Key × Nat) :=
  let n := keyLength c.rest
  if n = 0 then .error (faultAt c (wordLength m c.rest) .noAssignment)
  else
    let word := c.ahead n
    match Key.ofName? word with
    | none => .error (faultAt c n (.unknownKey word))
    | some key =>
      if seen.contains key then .error (faultAt c n (.duplicateKey word))
      else if (c.rest.drop n).head? = some '=' then .ok (key, n + 1)
      else .error (faultAt c n (.noEquals word))

/-- The item at the cursor and its length. -/
def readItem (m : Option Marker) (seen : List Key) (c : Cursor) : Except Fault (Item × Nat) :=
  match readKey m seen c with
  | .error e => .error e
  | .ok (key, k) =>
    let v := c.advance k
    match readLiteral m key.name v with
    | .error e => .error e
    | .ok (value, n) =>
      if wordEnds m (v.rest.drop n) then
        match interpret v n key value with
        | .error e => .error e
        | .ok item => .ok (item, k + n)
      else .error (faultAt v (n + 1) (.noSpaceAfter key.name))

theorem readKey_pos {m : Option Marker} {seen : List Key} {c : Cursor} {key : Key} {n : Nat}
    (h : readKey m seen c = .ok (key, n)) : 0 < n := by
  simp only [readKey] at h
  split at h
  · cases h
  · split at h
    · cases h
    · split at h
      · cases h
      · split at h
        · cases h; omega
        · cases h

theorem readItem_pos {m : Option Marker} {seen : List Key} {c : Cursor} {item : Item} {n : Nat}
    (h : readItem m seen c = .ok (item, n)) : 0 < n := by
  unfold readItem at h
  split at h
  · cases h
  · rename_i key k hk
    have := readKey_pos hk
    simp only at h
    split at h
    · cases h
    · split at h
      · split at h
        · cases h
        · cases h; omega
      · cases h

/-- How long the closer is, where there is one to look for. -/
def closerLength : Option Marker → Nat
  | none => 0
  | some m => m.closer.length

/-- The cursor at the next character that is no blank. -/
def skipBlanks (c : Cursor) : Cursor := c.advance (c.rest.takeWhile isBlank).length

theorem length_skipBlanks_le (c : Cursor) : (skipBlanks c).rest.length ≤ c.rest.length := by
  simp [skipBlanks]

/-- The items from the cursor on, up to and with the closer. `opening` is where the directive
starts. -/
def readItems (m : Option Marker) (opening : Cursor) (seen : List Key) (c : Cursor) :
    Except Fault (List Item × Cursor) :=
  let start := skipBlanks c
  if ends m start.rest then .ok ([], start.advance (closerLength m))
  else if start.rest = [] then
    match m with
    | none => .ok ([], start)
    | some _ => .error (faultAt opening opening.rest.length .openDirective)
  else
    match _h : readItem m seen start with
    | .error e => .error e
    | .ok (item, n) =>
      match readItems m opening (item.key :: seen) (start.advance n) with
      | .error e => .error e
      | .ok (items, stop) => .ok (item :: items, stop)
termination_by c.rest.length
decreasing_by
  have hn := readItem_pos _h
  have hs : 0 < (skipBlanks c).rest.length := List.length_pos_iff.mpr ‹_›
  have hc := length_skipBlanks_le c
  simp only [Cursor.rest_advance, List.length_drop]
  omega

/-- The language qualifier at the cursor, if there is one, and its length. -/
def readQualifier (m : Option Marker) (c : Cursor) : Except Fault (Option String × Nat) :=
  match c.rest with
  | '+' :: cs =>
    let n := wordLength m cs
    let word := cs.take n
    if n = 0 then .error (faultAt c 1 .emptyQualifier)
    else if word.all isQualifierChar then .ok (some (String.ofList word), n + 1)
    else .error (faultAt (c.advance 1) n (.badQualifier (String.ofList word)))
  | _ => .ok (none, 0)

/-- The rest of the directive that starts at `opening`, from just after its opener. -/
def readInside (m : Option Marker) (opening c : Cursor) : Except Fault (Directive × Cursor) :=
  match readQualifier m c with
  | .error e => .error e
  | .ok (language, n) =>
    match readItems m opening [] (c.advance n) with
    | .error e => .error e
    | .ok (items, stop) =>
      .ok (⟨language, items.filterMap Item.assignment?, items.filterMap Item.payload?,
        opening.span (opening.rest.length - stop.rest.length)⟩, stop)

/-- The directive whose opener is at the cursor, and the cursor just after its closer. -/
def readAt (c : Cursor) : Except Fault (Directive × Cursor) :=
  match Marker.at? c.rest with
  | none => .error (faultAt c 0 .noOpener)
  | some m => readInside (some m) c (c.advance m.opener.length)

/-- The directive whose inside, between the markers, is all that the cursor has ahead. -/
def readBody (c : Cursor) : Except Fault Directive := (readInside none c c).map (·.1)

/-- The directive with the given text between its markers. -/
def parse (body : String) (offset line : Int) : Except Fault Directive :=
  readBody ⟨offset, line, body.toList⟩

end Literate.Directive
