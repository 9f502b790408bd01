import Literate.Directive.Marker

/-!
# Passing over a malformed directive

Where a malformed directive is tolerated, reading goes on after it. The place is found without
validating anything: quoted and raw values are stepped over, so that a closer inside one of them
does not count. When no closer is found in that way, the next one counts wherever it stands, and when
there is none the line ends the directive.
-/

namespace Literate.Directive

/-- How many characters remain of the quoted value whose opening quote has been passed: up to and
with the closing quote, or up to the closer or the end of the text. -/
def restOfQuoted (m : Marker) (quote : Char) : List Char → Nat
  | [] => 0
  | c :: cs =>
    if c = quote then 1
    else if m.closes (c :: cs) then 0
    else if c = '\\' then
      match cs with
      | e :: cs' =>
        if e = quote || e = '\\' then restOfQuoted m quote cs' + 2
        else restOfQuoted m quote (e :: cs') + 1
      | [] => 1
    else restOfQuoted m quote cs + 1

/-- How many characters there are up to and with the first closer that stands in no value. -/
def throughCloser? (m : Marker) (cs : List Char) : Option Nat :=
  match cs with
  | [] => none
  | c :: rest =>
    if m.closes (c :: rest) then some m.closer.length
    else if bars.isPrefixOf (c :: rest) then
      match beforeBars? ((c :: rest).drop 3) with
      | none => none
      | some n => (throughCloser? m ((c :: rest).drop (n + 6))).map (· + (n + 6))
    else if isQuote c then
      let n := restOfQuoted m c rest
      (throughCloser? m (rest.drop n)).map (· + (n + 1))
    else (throughCloser? m rest).map (· + 1)
termination_by cs.length

/-- How many characters there are up to and with the first closer. -/
def throughAnyCloser? (m : Marker) : List Char → Option Nat
  | [] => none
  | c :: cs =>
    if m.closes (c :: cs) then some m.closer.length
    else (throughAnyCloser? m cs).map (· + 1)

/-- How many characters to pass over at a place where a directive seems to start. -/
def skipLength (cs : List Char) : Nat :=
  match Marker.at? cs with
  | none => 1
  | some m =>
    let inside := cs.drop m.opener.length
    match (throughCloser? m inside).orElse fun _ => throughAnyCloser? m inside with
    | some n => m.opener.length + n
    | none => (cs.takeWhile (· != '\n')).length

end Literate.Directive
